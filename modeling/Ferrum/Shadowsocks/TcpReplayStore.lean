import Ferrum.Lib.Bytes
import Ferrum.Lib.HashMap
import Ferrum.Shadowsocks.Clock

namespace Ferrum.Shadowsocks

def replayRetention : Nat := 60 * nanosPerSecond

/-- The reasons a salt is refused. A poisoned lock (`Unavailable`) cannot arise: nothing panics
inside the critical section. -/
inductive ReplayInsertError
  | duplicate | capacity
  deriving DecidableEq, Repr

/-- Exact, bounded replay state shared by all server handshakes. -/
structure TcpReplayStore (Salt : Type) where
  capacity : Nat
  entries : HashMap Salt Nat
  insertionOrder : List Salt

namespace TcpReplayStore

variable {Salt : Type} [DecidableEq Salt]

def new (capacity : Nat) : TcpReplayStore Salt := ⟨capacity, ∅, []⟩

/-- The purge loop, from the front of the insertion order up to the first live entry. -/
def purgeExpired (now : Nat) : HashMap Salt Nat → List Salt →
    HashMap Salt Nat × List Salt
  | entries, [] => (entries, [])
  | entries, oldest :: rest =>
    match entries.lookup oldest with
    | none => purgeExpired now entries rest
    | some inserted =>
      match durationSince now inserted with
      | none => (entries, oldest :: rest)
      | some elapsed =>
        if elapsed ≥ replayRetention then purgeExpired now (entries.erase oldest) rest
        else (entries, oldest :: rest)

def checkAndInsert (store : TcpReplayStore Salt) (salt : Salt) (now : Nat) :
    TcpReplayStore Salt × Except ReplayInsertError Unit :=
  let (entries, insertionOrder) := purgeExpired now store.entries store.insertionOrder
  if salt ∈ entries then (⟨store.capacity, entries, insertionOrder⟩, .error .duplicate)
  else if entries.len = store.capacity then (⟨store.capacity, entries, insertionOrder⟩, .error .capacity)
  else (⟨store.capacity, entries.insert salt now, insertionOrder ++ [salt]⟩, .ok ())

theorem purgeExpired_lookup (now : Nat) (salt : Salt) (order : List Salt) :
    ∀ entries : HashMap Salt Nat,
      (purgeExpired now entries order).1.lookup salt = entries.lookup salt ∨
        ∃ inserted, entries.lookup salt = some inserted ∧ inserted + replayRetention ≤ now := by
  induction order with
  | nil => exact fun entries => .inl rfl
  | cons oldest rest ih =>
    intro entries
    unfold purgeExpired
    split
    · exact ih entries
    · rename_i inserted found
      split
      · exact .inl rfl
      · rename_i elapsed since
        split
        · rename_i expired
          have age : inserted + replayRetention ≤ now := by
            unfold durationSince at since
            split at since
            · cases since
              omega
            · simp at since
          by_cases same : salt = oldest
          · subst same
            exact .inr ⟨inserted, found, age⟩
          · have erased : (entries.erase oldest).lookup salt = entries.lookup salt := AList.lookup_erase_ne same
            rw [← erased]
            exact ih (entries.erase oldest)
        · exact .inl rfl

theorem checkAndInsert_retained {store : TcpReplayStore Salt} {salt other : Salt} {now inserted : Nat}
    (found : store.entries.lookup other = some inserted) (young : now < inserted + replayRetention) :
    (store.checkAndInsert salt now).1.entries.lookup other = some inserted ∧
      (salt = other → (store.checkAndInsert salt now).2 = .error .duplicate) := by
  have kept : (purgeExpired now store.entries store.insertionOrder).1.lookup other = some inserted := by
    rcases purgeExpired_lookup now other store.insertionOrder store.entries with same | ⟨old, atOld, expired⟩
    · rw [same, found]
    · cases Option.some.inj (atOld.symm.trans found)
      omega
  have member := HashMap.mem_of_lookup kept
  unfold checkAndInsert
  dsimp only
  split
  · exact ⟨kept, fun _ => rfl⟩
  · rename_i absent
    have different : salt ≠ other := by
      rintro rfl
      exact absent member
    split
    · exact ⟨kept, fun same => absurd same different⟩
    · refine ⟨?_, fun same => absurd same different⟩
      dsimp only
      rw [AList.lookup_insert_ne different.symm]
      exact kept

theorem checkAndInsert_inserted {store : TcpReplayStore Salt} {salt : Salt} {now : Nat}
    (accepted : (store.checkAndInsert salt now).2 = .ok ()) :
    (store.checkAndInsert salt now).1.entries.lookup salt = some now := by
  unfold checkAndInsert at accepted ⊢
  dsimp only at accepted ⊢
  split at accepted
  · simp at accepted
  · split at accepted
    · simp at accepted
    · rename_i absent free
      rw [if_neg absent, if_neg free]
      exact AList.lookup_insert _

end TcpReplayStore

/-- The closed reasons of a detected handshake. -/
inductive DetectionReason
  | shortRead | shortWrite | authentication | invalidType | timestampSkew | frameBounds
  | addressBounds | paddingBounds | emptyRequest | responseBinding | keyUnavailable
  | clockUnavailable | randomUnavailable | replay | replayCapacity | replayUnavailable
  | readFailed | writeFailed
  deriving DecidableEq, Repr

def tagLen : Nat := 16
def maxDecryptWireLen : Nat := 65535 + tagLen
def requestFixedPlaintextLen : Nat := 11
def requestType : Nat := 0

/-- The checks of `accept_stream` on the opened fixed header: type, timestamp skew and the
length of the variable part, which the result carries with the timestamp. -/
def acceptFixedHeader (now : Nat) (plaintext : List UInt8) : Except DetectionReason (Nat × Nat) :=
  if plaintext.length ≠ requestFixedPlaintextLen then .error .frameBounds
  else if byteAt plaintext 0 ≠ requestType then .error .invalidType
  else
    let timestamp := beNat (slice plaintext 1 9)
    if absDiff now timestamp > 30 then .error .timestampSkew
    else
      let variableLen := be16 plaintext 9
      if variableLen + tagLen ≤ maxDecryptWireLen then .ok (timestamp, variableLen)
      else .error .frameBounds

theorem acceptFixedHeader_skew {now timestamp variableLen : Nat} {plaintext : List UInt8}
    (accepted : acceptFixedHeader now plaintext = .ok (timestamp, variableLen)) :
    absDiff now timestamp ≤ 30 := by
  unfold acceptFixedHeader at accepted
  split at accepted
  · simp at accepted
  split at accepted
  · simp at accepted
  dsimp only at accepted
  split at accepted
  · simp at accepted
  · rename_i near
    split at accepted
    · cases accepted
      omega
    · simp at accepted

/-- Where one handshake of `accept_stream` stands. -/
inductive Handshake (Salt : Type)
  | reading
  | headerAccepted (salt : Salt) (timestamp variableLen : Nat)
  | accepted (salt : Salt) (timestamp : Nat)
  | rejected (reason : DetectionReason)
  deriving DecidableEq

/-- The server: the clock, the shared replay store, every handshake by its number, and the
log of the `check_and_insert` calls as salt, timestamp and instant. -/
structure TcpServer (Salt : Type) where
  now : Nat
  store : TcpReplayStore Salt
  handshakes : Nat → Handshake Salt
  calls : List (Salt × Nat × Nat)

/-- What can happen next, in any order and for any handshake. `abort` stands for every failure
that a handshake meets outside the two modelled tests: a failed or short read, a failed open,
or a variable part that does not parse. -/
inductive TcpEvent (Salt : Type)
  | wait (nanos : Nat)
  | header (handshake : Nat) (salt : Salt) (plaintext : List UInt8)
  | variablePart (handshake : Nat)
  | abort (handshake : Nat) (reason : DetectionReason)

namespace TcpServer

variable {Salt : Type} [DecidableEq Salt]

def new (capacity : Nat) : TcpServer Salt := ⟨0, .new capacity, fun _ => .reading, []⟩

def set (server : TcpServer Salt) (handshake : Nat) (phase : Handshake Salt) : TcpServer Salt :=
  { server with handshakes := Function.update server.handshakes handshake phase }

/-- The last step of `accept_stream`, once the variable part has been read and parsed. -/
def insertSalt (server : TcpServer Salt) (handshake : Nat) (salt : Salt) (timestamp : Nat) : TcpServer Salt :=
  let (store, answer) := server.store.checkAndInsert salt server.now
  let server := { server with store := store, calls := (salt, timestamp, server.now) :: server.calls }
  match answer with
  | .ok () => server.set handshake (.accepted salt timestamp)
  | .error .duplicate => server.set handshake (.rejected .replay)
  | .error .capacity => server.set handshake (.rejected .replayCapacity)

/-- One event; an event that its handshake is not ready for changes nothing. -/
def step (offset : Nat) (server : TcpServer Salt) : TcpEvent Salt → TcpServer Salt
  | .wait nanos => { server with now := server.now + nanos }
  | .header handshake salt plaintext =>
    match server.handshakes handshake with
    | .reading =>
      match acceptFixedHeader (unixSeconds offset server.now) plaintext with
      | .ok (timestamp, variableLen) => server.set handshake (.headerAccepted salt timestamp variableLen)
      | .error reason => server.set handshake (.rejected reason)
    | _ => server
  | .variablePart handshake =>
    match server.handshakes handshake with
    | .headerAccepted salt timestamp _ => server.insertSalt handshake salt timestamp
    | _ => server
  | .abort handshake reason =>
    match server.handshakes handshake with
    | .reading | .headerAccepted .. => server.set handshake (.rejected reason)
    | _ => server

def run (offset : Nat) (server : TcpServer Salt) (events : List (TcpEvent Salt)) : TcpServer Salt :=
  events.foldl (step offset) server

/-- No request is accepted twice: handshakes that were accepted with the same salt and
timestamp are one handshake. -/
def AcceptsOnce (server : TcpServer Salt) : Prop :=
  ∀ salt timestamp first second, server.handshakes first = .accepted salt timestamp →
    server.handshakes second = .accepted salt timestamp → first = second

end TcpServer

end Ferrum.Shadowsocks
