import Ferrum.Lib.HashMap
import Ferrum.Tun.Packet

namespace Ferrum.Dns

open Ferrum.Tun (Ipv4Addr Ipv6Addr)

inductive DnsCacheQtype
  | a
  | aaaa
  deriving DecidableEq, Repr

/-- A server-scoped, type-scoped and generation-scoped key. The name is in canonical form. -/
structure DnsCacheKey where
  server : U32
  canonicalName : List UInt8
  qtype : DnsCacheQtype
  generation : Nat
  deriving DecidableEq, Repr

inductive DnsAddressRecords
  | a (records : List Ipv4Addr)
  | aaaa (records : List Ipv6Addr)
  deriving DecidableEq

def DnsAddressRecords.qtype : DnsAddressRecords → DnsCacheQtype
  | a _ => .a
  | aaaa _ => .aaaa

inductive DnsCacheAnswer
  | positive (records : DnsAddressRecords)
  | negative
  deriving DecidableEq

inductive DnsCacheError
  | ttlOverflow
  | addressFamily
  deriving DecidableEq, Repr

structure Entry where
  key : DnsCacheKey
  answer : DnsCacheAnswer
  expiresAt : Nat
  previous : Option Nat
  next : Option Nat
  heapPosition : Nat
  deriving DecidableEq

/-- Slots that back both the FIFO links and the indexed heap of deadlines. The free list has its top first. -/
structure DnsCacheState where
  capacity : Nat
  index : HashMap DnsCacheKey Nat
  slots : List (Option Entry)
  free : List Nat
  oldest : Option Nat
  newest : Option Nat
  deadlines : List Nat

namespace DnsCacheState

def new (capacity : Nat) : DnsCacheState := ⟨capacity, ∅, [], [], none, none, []⟩

variable (state : DnsCacheState)

def clear : Nat × DnsCacheState := (state.index.len, new state.capacity)

/-- The live slot of an id; none where the code panics, as in every operation below. -/
def entry (id : Nat) : Option Entry := state.slots[id]?.join

/-- An update through `entry_mut`. -/
def modifyEntry (id : Nat) (f : Entry → Entry) : Option DnsCacheState := do
  let entry ← state.entry id
  some { state with slots := state.slots.set id (some (f entry)) }

def earlier (left right : Nat) : Option Bool := do
  let leftId ← state.deadlines[left]?
  let rightId ← state.deadlines[right]?
  let first ← state.entry leftId
  let second ← state.entry rightId
  some (first.expiresAt < second.expiresAt)

def swapDeadlines (left right : Nat) : Option DnsCacheState := do
  let leftId ← state.deadlines[left]?
  let rightId ← state.deadlines[right]?
  let state := { state with deadlines := (state.deadlines.set left rightId).set right leftId }
  let state ← state.modifyEntry rightId ({ · with heapPosition := left })
  state.modifyEntry leftId ({ · with heapPosition := right })

/-- The loop of `sift_up`; the position goes down with the fuel. -/
def siftUp : Nat → Nat → DnsCacheState → Option (Nat × DnsCacheState)
  | _, 0, state => some (0, state)
  | 0, _ + 1, _ => none
  | fuel + 1, position + 1, state => do
    let parent := position / 2
    if ← state.earlier (position + 1) parent then
      let state ← state.swapDeadlines (position + 1) parent
      siftUp fuel parent state
    else some (position + 1, state)

/-- The earlier one of the two positions below. -/
def earlierChild (left : Nat) : Option Nat :=
  if left + 1 < state.deadlines.length then do
    if ← state.earlier (left + 1) left then some (left + 1) else some left
  else some left

def siftDown : Nat → Nat → DnsCacheState → Option DnsCacheState
  | fuel, position, state =>
    if state.deadlines.length ≤ position * 2 + 1 then some state
    else
      match fuel with
      | 0 => none
      | fuel + 1 => do
        let child ← state.earlierChild (position * 2 + 1)
        if ← state.earlier child position then
          let state ← state.swapDeadlines position child
          siftDown fuel child state
        else some state

/-- The links of a FIFO neighbour, or the end of the list it stands for. -/
def relinkPrevious (entry : Entry) : Option DnsCacheState :=
  match entry.previous with
  | some previous => state.modifyEntry previous ({ · with next := entry.next })
  | none => some { state with oldest := entry.next }

def relinkNext (entry : Entry) : Option DnsCacheState :=
  match entry.next with
  | some next => state.modifyEntry next ({ · with previous := entry.previous })
  | none => some { state with newest := entry.previous }

/-- `Vec::swap_remove` on the heap. -/
def swapRemove (position : Nat) : Option DnsCacheState := do
  let last ← state.deadlines.getLast?
  if position < state.deadlines.length then some { state with deadlines := (state.deadlines.set position last).dropLast }
  else none

/-- The heap without one position: the last one takes its place and is sifted. -/
def removeDeadline (position : Nat) : Option DnsCacheState := do
  let state ← state.swapRemove position
  if position < state.deadlines.length then
    let moved ← state.deadlines[position]?
    let state ← state.modifyEntry moved ({ · with heapPosition := position })
    let (position, state) ← siftUp position position state
    siftDown state.deadlines.length position state
  else some state

def remove (id : Nat) : Option DnsCacheState := do
  let entry ← state.entry id
  let state := { state with slots := state.slots.set id none, index := state.index.erase entry.key }
  let state ← state.relinkPrevious entry
  let state ← state.relinkNext entry
  let state ← state.removeDeadline entry.heapPosition
  some { state with free := id :: state.free }

def get (key : DnsCacheKey) (now : Nat) : Option (Option DnsCacheAnswer × DnsCacheState) :=
  match state.index.lookup key with
  | none => some (none, state)
  | some id => do
    let entry ← state.entry id
    if entry.expiresAt ≤ now then
      let state ← state.remove id
      some (none, state)
    else some (some entry.answer, state)

def expireOne (now : Nat) : Option (Bool × DnsCacheState) :=
  match state.deadlines.head? with
  | none => some (false, state)
  | some id => do
    let entry ← state.entry id
    if now < entry.expiresAt then some (false, state)
    else
      let state ← state.remove id
      some (true, state)

/-- The loop of `entry_count`. -/
def expireAll : Nat → Nat → DnsCacheState → Option DnsCacheState
  | 0, _, _ => none
  | fuel + 1, now, state => do
    let (more, state) ← state.expireOne now
    if more then expireAll fuel now state else some state

def entryCount (now : Nat) : Option (Nat × DnsCacheState) := do
  let state ← expireAll (state.index.len + 1) now state
  some (state.index.len, state)

def takeSlot : Nat × DnsCacheState :=
  match state.free with
  | id :: free => (id, { state with free := free })
  | [] => (state.slots.length, { state with slots := state.slots ++ [none] })

/-- The new entry becomes the newest one. -/
def linkNewest (id : Nat) : Option DnsCacheState := do
  let state ← match state.newest with
    | some newest => state.modifyEntry newest ({ · with next := some id })
    | none => some { state with oldest := some id }
  some { state with newest := some id }

/-- The new entry goes into the index and, sifted up, into the heap. -/
def enter (key : DnsCacheKey) (id : Nat) : Option DnsCacheState := do
  let state := { state with index := state.index.insert key id, deadlines := state.deadlines ++ [id] }
  let sifted ← siftUp (state.deadlines.length - 1) (state.deadlines.length - 1) state
  some sifted.2

/-- Writes an entry into the given slot. -/
def placeAt (id : Nat) (key : DnsCacheKey) (answer : DnsCacheAnswer) (expiresAt : Nat) : Option DnsCacheState :=
  if id < state.slots.length then do
    let state := { state with
      slots := state.slots.set id (some ⟨key, answer, expiresAt, state.newest, none, state.deadlines.length⟩) }
    let state ← state.linkNewest id
    state.enter key id
  else none

def place (key : DnsCacheKey) (answer : DnsCacheAnswer) (expiresAt : Nat) : Option DnsCacheState :=
  state.takeSlot.2.placeAt state.takeSlot.1 key answer expiresAt

/-- The entry the key has so far is removed in any case. -/
def removeKey (key : DnsCacheKey) : Option DnsCacheState :=
  match state.index.lookup key with
  | some id => state.remove id
  | none => some state

/-- One due entry goes; a cache that is still full loses its oldest one. -/
def makeRoom (now : Nat) : Option DnsCacheState := do
  let (_, state) ← state.expireOne now
  if state.index.len = state.capacity then
    let oldest ← state.oldest
    state.remove oldest
  else some state

def insert (key : DnsCacheKey) (answer : DnsCacheAnswer) (expiresAt now : Nat) : Option DnsCacheState := do
  let state ← state.removeKey key
  if expiresAt = now then some state
  else
    let state ← state.makeRoom now
    state.place key answer expiresAt

end DnsCacheState

/-- The calls on a cache. -/
inductive CacheCall
  | insertPositive (key : DnsCacheKey) (records : DnsAddressRecords) (ttl now : Nat)
  | insertNegative (key : DnsCacheKey) (ttl now : Nat)
  | get (key : DnsCacheKey) (now : Nat)
  | entryCount (now : Nat)
  | clear
  deriving DecidableEq

inductive CacheReply
  | inserted (result : Except DnsCacheError Unit)
  | got (answer : Option DnsCacheAnswer)
  | counted (entries : Nat)
  | cleared (removed : Nat)
  deriving DecidableEq

/-- What an insertion stores, or why it fails before it touches the state. The last instant the clock can hold is
`horizon`. -/
def checkInsert (horizon : Nat) (key : DnsCacheKey) (answer : DnsCacheAnswer) (ttl now : Nat) : Except DnsCacheError Nat :=
  match answer with
  | .positive records =>
    if key.qtype ≠ records.qtype then .error .addressFamily
    else if horizon < now + ttl then .error .ttlOverflow
    else .ok (now + ttl)
  | .negative => if horizon < now + ttl then .error .ttlOverflow else .ok (now + ttl)

namespace DnsCacheState

def insertAnswer (horizon : Nat) (state : DnsCacheState) (key : DnsCacheKey) (answer : DnsCacheAnswer) (ttl now : Nat) :
    Option (CacheReply × DnsCacheState) :=
  match checkInsert horizon key answer ttl now with
  | .error error => some (.inserted (.error error), state)
  | .ok expiresAt => do
    let state ← state.insert key answer expiresAt now
    some (.inserted (.ok ()), state)

def call (horizon : Nat) (state : DnsCacheState) : CacheCall → Option (CacheReply × DnsCacheState)
  | .insertPositive key records ttl now => state.insertAnswer horizon key (.positive records) ttl now
  | .insertNegative key ttl now => state.insertAnswer horizon key .negative ttl now
  | .get key now => do
    let (answer, state) ← state.get key now
    some (.got answer, state)
  | .entryCount now => do
    let (entries, state) ← state.entryCount now
    some (.counted entries, state)
  | .clear => some (.cleared state.clear.1, state.clear.2)

/-- A run, with every reply in order. -/
def run (horizon : Nat) (state : DnsCacheState) : List CacheCall → Option (List CacheReply × DnsCacheState)
  | [] => some ([], state)
  | made :: rest => do
    let (reply, state) ← state.call horizon made
    let (replies, state) ← run horizon state rest
    some (reply :: replies, state)

end DnsCacheState

end Ferrum.Dns
