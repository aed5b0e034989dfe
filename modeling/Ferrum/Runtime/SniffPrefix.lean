import Mathlib.Data.List.Basic
import Mathlib.Order.Basic

namespace Ferrum.Runtime

open List

inductive PrefixDecision
  | complete | readMore
  deriving DecidableEq, Repr

/-- Closed reason why bounded prefix collection stopped. -/
inductive SniffPrefixOutcome
  | complete | timeout | limit | cancelled | readError | unavailable
  deriving DecidableEq, Repr

/-- An owned buffer is its bytes and the room behind them. -/
inductive PrefixBytes
  | initial (bytes : List UInt8)
  | owned (bytes : List UInt8) (room : Nat)

namespace PrefixBytes

def asRef : PrefixBytes → List UInt8
  | initial bytes | owned bytes _ => bytes

def capacity : PrefixBytes → Nat
  | initial bytes => bytes.length
  | owned bytes room => bytes.length + room

/-- The chunk is what the reader has left at the front of the room. -/
def commit : PrefixBytes → List UInt8 → Option PrefixBytes
  | initial _, _ => none
  | owned bytes room, chunk => if chunk.length ≤ room then some (owned (bytes ++ chunk) (room - chunk.length)) else none

end PrefixBytes

/-- A wake-up of the collector. A reader that is ready reports the length of its chunk; the decision is the answer of the
inspector to the grown prefix. -/
inductive SniffEvent
  | cancelled | deadline | pending | failed
  | ready (chunk : List UInt8) (decision : PrefixDecision)

/-- A call of the reader or of the inspector. -/
inductive SniffCall
  | read (bytes : List UInt8) (window : Nat)
  | inspect (bytes : List UInt8)

/-- There is no outcome while the collector waits. `guarded` tells whether the budget of all prefixes is charged. -/
structure SniffPrefix where
  bytes : PrefixBytes
  outcome : Option SniffPrefixOutcome
  calls : List SniffCall
  guarded : Bool

def SniffPrefix.after (collected : SniffPrefix) (calls : List SniffCall) : SniffPrefix :=
  { collected with calls := calls ++ collected.calls }

/-- The relay's view of a sniffed stream: the prefix, and then what the stream still has. -/
structure ReplayIo where
  io : List UInt8
  bytes : List UInt8
  offset : Nat

namespace ReplayIo

def new (io bytes : List UInt8) : ReplayIo := ⟨io, bytes, 0⟩

/-- The stream has `available` bytes at hand. -/
def pollRead (replay : ReplayIo) (remaining available : Nat) : List UInt8 × ReplayIo :=
  if replay.offset < replay.bytes.length then
    let count := min remaining (replay.bytes.length - replay.offset)
    ((replay.bytes.drop replay.offset).take count, { replay with offset := replay.offset + count })
  else
    let count := min remaining available
    (replay.io.take count, { replay with io := replay.io.drop count })

def run (replay : ReplayIo) : List (Nat × Nat) → List UInt8 × ReplayIo
  | [] => ([], replay)
  | read :: reads =>
    let (chunk, next) := replay.pollRead read.1 read.2
    let (rest, last) := next.run reads
    (chunk ++ rest, last)

end ReplayIo

/-- The bytes that the events report. -/
def received (events : List SniffEvent) : List UInt8 :=
  events.flatMap fun
    | .ready chunk _ => chunk
    | _ => []

/-- The bytes are those from before and what the events up to the outcome report, in a buffer of bounded capacity. -/
def SniffPrefix.Collects (collected : SniffPrefix) (initial : List UInt8) (events : List SniffEvent) (limit : Nat) : Prop :=
  collected.bytes.capacity ≤ limit ∧ ∃ used rest, events = used ++ rest ∧ (collected.outcome = none → rest = []) ∧
    collected.bytes.asRef = initial ++ received used

variable {maxBytes : Nat} {held grown : PrefixBytes} {chunk : List UInt8} {event : SniffEvent} {events : List SniffEvent}
  {collected : SniffPrefix}

namespace PrefixBytes

theorem commit_spec (committed : held.commit chunk = some grown) :
    grown.asRef = held.asRef ++ chunk ∧ grown.capacity = held.capacity := by
  cases held with
  | initial bytes => cases committed
  | owned bytes room =>
    simp only [commit, Option.ite_none_right_eq_some, Option.some.injEq] at committed
    obtain ⟨fits, rfl⟩ := committed
    simp only [asRef, capacity, length_append, true_and]
    omega

end PrefixBytes

namespace SniffPrefix

variable {outcome : Option SniffPrefixOutcome} {calls : List SniffCall} {guarded : Bool} {limit : Nat}

theorem Collects.nothing (fits : held.capacity ≤ limit) (ended : outcome = none → events = []) :
    Collects ⟨held, outcome, calls, guarded⟩ held.asRef events limit :=
  ⟨fits, [], events, rfl, ended, by simp [received]⟩

theorem Collects.cons {initial : List UInt8} (collects : collected.Collects (initial ++ received [event]) events limit) :
    collected.Collects initial (event :: events) limit := by
  obtain ⟨fits, used, rest, rfl, all, bytes⟩ := collects
  exact ⟨fits, event :: used, rest, rfl, all, bytes.trans (by simp [received])⟩

end SniffPrefix

namespace ReplayIo

def unread (replay : ReplayIo) : List UInt8 := replay.bytes.drop replay.offset ++ replay.io

end ReplayIo

end Ferrum.Runtime
