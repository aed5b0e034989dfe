import Mathlib.Data.List.MinMax
import Mathlib.Data.Prod.Lex
import Mathlib.Data.List.Perm.Basic
import Ferrum.Core.Target
import Ferrum.Lib.HashMap
import Ferrum.Lib.RingQueue

namespace Ferrum.Runtime

open Function List

/-- Fixed number of datagrams retained per session and direction. -/
abbrev udpSessionQueueDepth : Nat := 4

def maxUdpWireDatagramBytes : Nat := 65507

structure UdpRuntimeLimits where
  maxSessions : Nat
  maxBufferedBytes : Nat
  idleTimeout : Nat
  sessionsBounded : 1 ≤ maxSessions ∧ maxSessions ≤ 65535

inductive UdpRuntimeError
  | bounds | sessionLimit | bufferLimit | queueFull | counter | protocolPanicked | stateUnavailable | cancelled
  deriving DecidableEq, Repr

/-- Result of the serialized runtime-generation and protocol-state commit. -/
inductive UdpCommitError (E : Type)
  | runtime (error : UdpRuntimeError)
  | protocol (error : E)

inductive UdpDirection
  | toTarget | toClient
  deriving DecidableEq, Repr

/-- Opaque generation-bound session capability. -/
structure UdpSessionHandle where
  slot : Nat
  generation : Nat
  deriving DecidableEq, Repr

structure OwnedDatagram where
  datagram : Core.Datagram
  allocatedCapacity : Nat
  deriving DecidableEq

structure AccountedDatagram where
  datagram : OwnedDatagram
  capacity : Nat
  deriving DecidableEq

/-- `UdpBufferReservation::attach`, for a token of this capacity. -/
def attach (capacity : Nat) (datagram : OwnedDatagram) : Except UdpRuntimeError AccountedDatagram :=
  if datagram.allocatedCapacity ≠ capacity ∨ maxUdpWireDatagramBytes < datagram.datagram.payload.length then .error .bounds
  else .ok ⟨datagram, capacity⟩

structure SessionEntry where
  generation : Nat
  lastActivity : Nat
  committed : Bool
  pending : UdpDirection → Nat
  queues : UdpDirection → RingQueue AccountedDatagram udpSessionQueueDepth

structure NetworkFence where
  generation : Nat
  cutoff : Nat
  retired : Bool
  deriving DecidableEq, Repr

/-- The state under the manager's lock. -/
structure SessionState where
  entries : HashMap Nat SessionEntry
  nextGeneration : Nat
  shuttingDown : Bool
  cleanupFailed : Bool
  networkFence : Option NetworkFence
  completedNetworkGeneration : Nat

/-- How the callback of a commit ends. -/
inductive ProtocolOutcome (E : Type)
  | committed
  | failed (error : E)
  | panicked

namespace SessionEntry

def new (generation now : Nat) : SessionEntry :=
  { generation, lastActivity := now, committed := false, pending := fun _ => 0, queues := fun _ => .new }

variable (entry : SessionEntry)

def reserve (direction : UdpDirection) : SessionEntry :=
  { entry with pending := update entry.pending direction (entry.pending direction + 1) }

def release (direction : UdpDirection) : SessionEntry :=
  { entry with pending := update entry.pending direction (entry.pending direction - 1) }

def touch (now : Nat) : SessionEntry := { entry with lastActivity := max entry.lastActivity now }

def push (direction : UdpDirection) (datagram : AccountedDatagram) : SessionEntry :=
  { entry with queues := update entry.queues direction ((entry.queues direction).pushBack datagram) }

/-- The effect of a commit: one reservation less, an active session, and the datagram that it queues. -/
def accept (direction : UdpDirection) (now : Nat) (queued : Option AccountedDatagram) : SessionEntry :=
  let accepted := { ((entry.release direction).touch now) with committed := true }
  match queued with
  | some datagram => accepted.push direction datagram
  | none => accepted

end SessionEntry

namespace SessionState

def new : SessionState :=
  { entries := ∅, nextGeneration := 0, shuttingDown := false, cleanupFailed := false, networkFence := none
    completedNetworkGeneration := 0 }

variable (state : SessionState)

def entryMatches (handle : UdpSessionHandle) : Bool :=
  (state.entries.lookup handle.slot).any fun entry => entry.generation = handle.generation

/-- The capability is of a generation that the fence has closed. -/
def fenced (generation : Nat) : Bool := state.networkFence.any fun fence => generation ≤ fence.cutoff

def matchingEntry (handle : UdpSessionHandle) : Except UdpRuntimeError SessionEntry :=
  if state.fenced handle.generation then .error .cancelled
  else match state.entries.lookup handle.slot with
    | some entry => if entry.generation = handle.generation then .ok entry else .error .cancelled
    | none => .error .cancelled

def setEntry (slot : Nat) (entry : SessionEntry) : SessionState :=
  { state with entries := state.entries.insert slot entry }

def removeEntry (slot : Nat) : SessionState := { state with entries := state.entries.erase slot }

def retireExact (handle : UdpSessionHandle) : SessionState :=
  if state.entryMatches handle then state.removeEntry handle.slot else state

/-- The drop of a token. It still owns its exact entry after its capability was fenced. -/
def releasePending (handle : UdpSessionHandle) (direction : UdpDirection) : SessionState :=
  match state.entries.lookup handle.slot with
  | some entry =>
    if entry.generation = handle.generation then
      if entry.pending direction = 0 then ({ state with cleanupFailed := true } : SessionState).retireExact handle
      else state.setEntry handle.slot (entry.release direction)
    else state
  | none => state

/-- The slots of the committed sessions that are idle for the timeout, with their last activity. -/
def expired (idleTimeout now : Nat) : List (Nat ×ₗ Nat) :=
  (state.entries.entries.filter fun entry => entry.2.committed && decide (idleTimeout ≤ now - entry.2.lastActivity)).map
    fun entry => toLex (entry.2.lastActivity, entry.1)

section

variable (limits : UdpRuntimeLimits)

/-- The eviction of `reserve_session`: at capacity the oldest committed idle session goes. -/
def evictExpired (state : SessionState) (now : Nat) : SessionState :=
  if state.entries.len = limits.maxSessions then
    match (state.expired limits.idleTimeout now).argmin id with
    | some oldest => state.removeEntry (ofLex oldest).2
    | none => state
  else state

def freeSlot (state : SessionState) : Option Nat :=
  (List.range limits.maxSessions).find? fun slot => (state.entries.lookup slot).isNone

/-- The part of `reserve_session` after the eviction. -/
def openSession (state : SessionState) (now : Nat) :
    Except UdpRuntimeError UdpSessionHandle × SessionState :=
  if state.entries.len = limits.maxSessions then (.error .sessionLimit, state)
  else if state.nextGeneration + 1 = 2 ^ 64 then (.error .counter, state)
  else
    let generation := state.nextGeneration + 1
    let numbered := { state with nextGeneration := generation }
    match numbered.freeSlot limits with
    | some slot => (.ok ⟨slot, generation⟩, numbered.setEntry slot (.new generation now))
    | none => (.error .sessionLimit, numbered)

def reserveSession (state : SessionState) (now : Nat) :
    Except UdpRuntimeError UdpSessionHandle × SessionState :=
  if state.shuttingDown ∨ state.networkFence.isSome then (.error .cancelled, state)
  else (state.evictExpired limits now).openSession limits now

end

/-- `reserve_datagram_with_reservation`: a place in the queue of a live session. -/
def reserveDatagram (handle : UdpSessionHandle) (direction : UdpDirection) (requireCommitted : Bool) :
    Except UdpRuntimeError Unit × SessionState :=
  if state.shuttingDown then (.error .cancelled, state)
  else match state.matchingEntry handle with
    | .error error => (.error error, state)
    | .ok entry =>
      if entry.committed ≠ requireCommitted then (.error .cancelled, state)
      else if udpSessionQueueDepth ≤ entry.pending direction + (entry.queues direction).len then (.error .queueFull, state)
      else (.ok (), state.setEntry handle.slot (entry.reserve direction))

/-- The locked part of the commits. `commit_inner_with` queues its datagram and
`commit_immediate_value_inner_with` queues none. -/
def commitEntry {E : Type} (handle : UdpSessionHandle) (direction : UdpDirection) (activateSession : Bool) (now : Nat)
    (outcome : ProtocolOutcome E) (queued : Option AccountedDatagram) : Except (UdpCommitError E) Unit × SessionState :=
  if state.shuttingDown then (.error (.runtime .cancelled), state)
  else match state.matchingEntry handle with
    | .error error => (.error (.runtime error), state)
    | .ok entry =>
      if entry.committed = activateSession then (.error (.runtime .cancelled), state)
      else if entry.pending direction = 0 then
        (.error (.runtime .stateUnavailable), ({ state with cleanupFailed := true } : SessionState).retireExact handle)
      else match outcome with
        | .failed error => (.error (.protocol error), state)
        | .panicked =>
          (.error (.runtime .protocolPanicked), ({ state with cleanupFailed := true } : SessionState).retireExact handle)
        | .committed =>
          match state.matchingEntry handle with
          | .error error => (.error (.runtime error), state)
          | .ok entry => (.ok (), state.setEntry handle.slot (entry.accept direction now queued))

def remove (handle : UdpSessionHandle) : Bool × SessionState :=
  (state.entryMatches handle, state.retireExact handle)

def cancelAll : SessionState := { state with shuttingDown := true, entries := ∅ }

def signalAll : SessionState := { state with shuttingDown := true }

section

variable (handle : UdpSessionHandle)

def popEntry (direction : UdpDirection) (entry : SessionEntry) :
    Option AccountedDatagram × SessionState :=
  let outcome := (entry.queues direction).popFront
  (outcome.1, state.setEntry handle.slot { entry with queues := update entry.queues direction outcome.2 })

def pop (direction : UdpDirection) :
    Except UdpRuntimeError (Option AccountedDatagram) × SessionState :=
  match state.matchingEntry handle with
  | .error error => (.error error, state)
  | .ok entry =>
    if entry.committed then (.ok (state.popEntry handle direction entry).1, (state.popEntry handle direction entry).2)
    else (.error .cancelled, state)

def commitActivity (now : Nat) : Except UdpRuntimeError Unit × SessionState :=
  if state.shuttingDown then (.error .cancelled, state)
  else match state.matchingEntry handle with
    | .error error => (.error error, state)
    | .ok entry =>
      if entry.committed then (.ok (), state.setEntry handle.slot (entry.touch now)) else (.error .cancelled, state)

def validateDirectResponse : Except UdpRuntimeError Unit :=
  if state.shuttingDown then .error .cancelled
  else match state.matchingEntry handle with
    | .error error => .error error
    | .ok entry =>
      if !entry.committed then .error .cancelled
      else if udpSessionQueueDepth ≤ entry.pending .toClient + (entry.queues .toClient).len then .error .queueFull
      else .ok ()

end

/-- The handles of committed live generations. -/
def retainLiveSessions (handles : List UdpSessionHandle) : List UdpSessionHandle :=
  if state.shuttingDown ∨ state.networkFence.isSome then []
  else handles.filter fun handle =>
    (state.entries.lookup handle.slot).any fun entry => entry.generation = handle.generation && entry.committed

/-- Closes admission and invalidates existing capabilities without clearing them. -/
def fenceNetworkGeneration (generation : Nat) : Except UdpRuntimeError Unit × SessionState :=
  if state.shuttingDown ∨ generation = 0 ∨ generation < state.completedNetworkGeneration then (.error .cancelled, state)
  else match state.networkFence with
    | some fence => if fence.generation = generation then (.ok (), state) else (.error .cancelled, state)
    | none =>
      if generation = state.completedNetworkGeneration then (.ok (), state)
      else (.ok (), { state with networkFence := some { generation, cutoff := state.nextGeneration, retired := false } })

/-- Removes only the fenced cohort. -/
def retireNetworkGeneration (generation : Nat) : Except UdpRuntimeError Nat × SessionState :=
  match state.networkFence with
  | none =>
    if generation ≠ 0 ∧ generation = state.completedNetworkGeneration then (.ok 0, state) else (.error .cancelled, state)
  | some fence =>
    if fence.generation ≠ generation then (.error .cancelled, state)
    else if fence.retired then (.ok 0, state)
    else
      let cohort := state.entries.retain fun _ entry => entry.generation ≤ fence.cutoff
      (.ok cohort.len,
       { state with
         entries := state.entries.retain fun _ entry => fence.cutoff < entry.generation
         networkFence := some { fence with retired := true } })

/-- Reopens only the completed fenced generation; shutdown always remains terminal. -/
def reopenNetworkGeneration (generation : Nat) : Except UdpRuntimeError Unit × SessionState :=
  if state.shuttingDown then (.error .cancelled, state)
  else match state.networkFence with
    | some fence =>
      if fence.generation = generation ∧ fence.retired then
        (.ok (), { state with completedNetworkGeneration := generation, networkFence := none })
      else (.error .cancelled, state)
    | none =>
      if generation ≠ 0 ∧ generation = state.completedNetworkGeneration then (.ok (), state) else (.error .cancelled, state)

end SessionState

/-- Reserved queue and byte capacity that has not advanced accepted activity. A commit takes the
reservation out, whether it succeeds or not. -/
structure PendingUdpDatagram where
  handle : UdpSessionHandle
  direction : UdpDirection
  reservation : Option Nat

/-- Provisional session capacity that rolls back unless it is activated. -/
structure PendingUdpSession where
  handle : UdpSessionHandle

/-- The commits: to the queue, back to the same task, or of activity alone. -/
inductive CommitKind (E : Type)
  | queue (datagram : OwnedDatagram) (outcome : ProtocolOutcome E)
  | immediate (datagram : OwnedDatagram) (outcome : ProtocolOutcome E)
  | activity

namespace CommitKind

variable {E : Type}

def outcome : CommitKind E → ProtocolOutcome E
  | queue _ outcome => outcome
  | immediate _ outcome => outcome
  | activity => .committed

def attached (kind : CommitKind E) (capacity : Nat) : Except UdpRuntimeError (Option AccountedDatagram) :=
  match kind with
  | queue datagram _ => (attach capacity datagram).map some
  | immediate datagram _ => (attach capacity datagram).map some
  | activity => .ok none

/-- What the commit pushes to the queue. -/
def pushed (kind : CommitKind E) (accounted : Option AccountedDatagram) : Option AccountedDatagram :=
  match kind with
  | queue _ _ => accounted
  | _ => none

end CommitKind

/-- The manager with its outstanding tokens, and the histories of the generations opened and the datagrams queued and popped. -/
structure SessionManager where
  state : SessionState
  datagrams : List PendingUdpDatagram
  sessions : List PendingUdpSession
  opened : List Nat
  committed : List (Nat × UdpDirection × AccountedDatagram)
  popped : List (Nat × UdpDirection × AccountedDatagram)

/-- One critical section. A token is named by its place in the list; a reservation's capacity was charged before. -/
inductive SessionMove (E : Type)
  | reserveSession (now : Nat)
  | reserveDatagram (handle : UdpSessionHandle) (direction : UdpDirection) (requireCommitted : Bool) (capacity : Nat)
  | commit (token : Nat) (kind : CommitKind E) (now : Nat)
  | commitSession (session token : Nat) (kind : CommitKind E) (now : Nat)
  | dropDatagram (token : Nat)
  | dropSession (session : Nat)
  | pop (handle : UdpSessionHandle) (direction : UdpDirection)
  | commitActivity (handle : UdpSessionHandle) (now : Nat)
  | retainLiveSessions (handles : List UdpSessionHandle)
  | remove (handle : UdpSessionHandle)
  | cancelAll
  | signalAll
  | fence (generation : Nat)
  | retire (generation : Nat)
  | reopen (generation : Nat)

inductive SessionReply (E : Type)
  | silent
  | sessionReserved (result : Except UdpRuntimeError UdpSessionHandle)
  | datagramReserved (handle : UdpSessionHandle) (result : Except UdpRuntimeError Unit)
  | committed (handle : UdpSessionHandle) (result : Except (UdpCommitError E) (Option AccountedDatagram))
  | popped (handle : UdpSessionHandle) (result : Except UdpRuntimeError (Option AccountedDatagram))
  | activity (handle : UdpSessionHandle) (result : Except UdpRuntimeError Unit)
  | live (handles : List UdpSessionHandle)
  | removed (done : Bool)
  | fenced (generation : Nat) (result : Except UdpRuntimeError Unit)
  | retired (generation : Nat) (result : Except UdpRuntimeError Nat)
  | reopened (generation : Nat) (result : Except UdpRuntimeError Unit)

namespace SessionManager

def new : SessionManager :=
  { state := .new, datagrams := [], sessions := [], opened := [], committed := [], popped := [] }

variable {E : Type}

def reserveSession (limits : UdpRuntimeLimits) (manager : SessionManager) (now : Nat) :
    Except UdpRuntimeError UdpSessionHandle × SessionManager :=
  let outcome := manager.state.reserveSession limits now
  match outcome.1 with
  | .ok handle =>
    (.ok handle,
      { manager with
        state := outcome.2
        sessions := manager.sessions ++ [⟨handle⟩]
        opened := manager.opened ++ [handle.generation] })
  | .error error => (.error error, { manager with state := outcome.2 })

def reserveDatagram (manager : SessionManager) (handle : UdpSessionHandle) (direction : UdpDirection)
    (requireCommitted : Bool) (capacity : Nat) : Except UdpRuntimeError Unit × SessionManager :=
  let outcome := manager.state.reserveDatagram handle direction requireCommitted
  match outcome.1 with
  | .ok () =>
    (.ok (), { manager with
      state := outcome.2, datagrams := manager.datagrams ++ [⟨handle, direction, some capacity⟩] })
  | .error error => (.error error, { manager with state := outcome.2 })

section

variable (manager : SessionManager)

/-- A failed commit leaves the token without its reservation, to be dropped. -/
def spend (place : Nat) (token : PendingUdpDatagram) : SessionManager :=
  { manager with datagrams := manager.datagrams.set place { token with reservation := none } }

def commitToken (place : Nat) (token : PendingUdpDatagram) (activateSession : Bool)
    (kind : CommitKind E) (now : Nat) : Except (UdpCommitError E) (Option AccountedDatagram) × SessionManager :=
  match token.reservation with
  | none => (.error (.runtime .cancelled), manager.spend place token)
  | some capacity =>
    match kind.attached capacity with
    | .error error => (.error (.runtime error), manager.spend place token)
    | .ok accounted =>
      let pushed := kind.pushed accounted
      let outcome := manager.state.commitEntry token.handle token.direction activateSession now kind.outcome pushed
      match outcome.1 with
      | .error error => (.error error, { manager.spend place token with state := outcome.2 })
      | .ok () =>
        (.ok accounted,
          { manager with
            state := outcome.2
            datagrams := manager.datagrams.eraseIdx place
            committed := manager.committed ++
              pushed.toList.map fun datagram => (token.handle.generation, token.direction, datagram) })

/-- The commits of `PendingUdpSession`: the token must be of its own generation. -/
def commitSession (sessionPlace : Nat) (session : PendingUdpSession) (place : Nat)
    (token : PendingUdpDatagram) (kind : CommitKind E) (now : Nat) :
    Except (UdpCommitError E) (Option AccountedDatagram) × SessionManager :=
  if token.handle ≠ session.handle then (.error (.runtime .cancelled), manager.spend place token)
  else
    let outcome := manager.commitToken place token true kind now
    match outcome.1 with
    | .error error => (.error error, outcome.2)
    | .ok accounted => (.ok accounted, { outcome.2 with sessions := manager.sessions.eraseIdx sessionPlace })

def dropDatagram (place : Nat) (token : PendingUdpDatagram) : SessionManager :=
  { manager with
    state := manager.state.releasePending token.handle token.direction
    datagrams := manager.datagrams.eraseIdx place }

def dropSession (place : Nat) (session : PendingUdpSession) : SessionManager :=
  { manager with state := (manager.state.remove session.handle).2, sessions := manager.sessions.eraseIdx place }

def pop (manager : SessionManager) (handle : UdpSessionHandle) (direction : UdpDirection) :
    Except UdpRuntimeError (Option AccountedDatagram) × SessionManager :=
  let outcome := manager.state.pop handle direction
  match outcome.1 with
  | .ok datagram =>
    (.ok datagram, { manager with
      state := outcome.2
      popped := manager.popped ++ datagram.toList.map fun datagram => (handle.generation, direction, datagram) })
  | .error error => (.error error, { manager with state := outcome.2 })

/-- A call that changes the state alone. -/
def onState {α : Type} (reply : α → SessionReply E) (outcome : α × SessionState) :
    SessionReply E × SessionManager :=
  (reply outcome.1, { manager with state := outcome.2 })

end

/-- One critical section of any call or drop, if its tokens exist. -/
def step (limits : UdpRuntimeLimits) (manager : SessionManager) : SessionMove E → Option (SessionReply E × SessionManager)
  | .reserveSession now =>
    some (.sessionReserved (manager.reserveSession limits now).1, (manager.reserveSession limits now).2)
  | .reserveDatagram handle direction requireCommitted capacity =>
    some (.datagramReserved handle (manager.reserveDatagram handle direction requireCommitted capacity).1,
      (manager.reserveDatagram handle direction requireCommitted capacity).2)
  | .commit place kind now =>
    manager.datagrams[place]?.map fun token =>
      (.committed token.handle (manager.commitToken place token false kind now).1,
        (manager.commitToken place token false kind now).2)
  | .commitSession sessionPlace place kind now =>
    manager.sessions[sessionPlace]?.bind fun session => manager.datagrams[place]?.map fun token =>
      (.committed token.handle (manager.commitSession sessionPlace session place token kind now).1,
        (manager.commitSession sessionPlace session place token kind now).2)
  | .dropDatagram place => manager.datagrams[place]?.map fun token => (.silent, manager.dropDatagram place token)
  | .dropSession place => manager.sessions[place]?.map fun session => (.silent, manager.dropSession place session)
  | .pop handle direction => some (.popped handle (manager.pop handle direction).1, (manager.pop handle direction).2)
  | .commitActivity handle now => some (manager.onState (.activity handle) (manager.state.commitActivity handle now))
  | .retainLiveSessions handles => some (.live (manager.state.retainLiveSessions handles), manager)
  | .remove handle => some (manager.onState .removed (manager.state.remove handle))
  | .cancelAll => some (manager.onState (fun _ : Unit => .silent) ((), manager.state.cancelAll))
  | .signalAll => some (manager.onState (fun _ : Unit => .silent) ((), manager.state.signalAll))
  | .fence generation => some (manager.onState (.fenced generation) (manager.state.fenceNetworkGeneration generation))
  | .retire generation => some (manager.onState (.retired generation) (manager.state.retireNetworkGeneration generation))
  | .reopen generation => some (manager.onState (.reopened generation) (manager.state.reopenNetworkGeneration generation))

/-- A run: the replies of a list of critical sections, one after the other. -/
inductive Run (limits : UdpRuntimeLimits) : SessionManager → List (SessionReply E) → SessionManager → Prop
  | nil (manager : SessionManager) : Run limits manager [] manager
  | cons {manager middle last : SessionManager} {move : SessionMove E} {reply : SessionReply E}
      {replies : List (SessionReply E)} (first : manager.step limits move = some (reply, middle))
      (rest : Run limits middle replies last) : Run limits manager (reply :: replies) last

end SessionManager

/-- What a token reserves. -/
abbrev TokenKey := UdpSessionHandle × UdpDirection

/-- The number of tokens of one generation and direction. -/
def outstanding (keys : List TokenKey) (generation : Nat) (direction : UdpDirection) : Nat :=
  keys.countP fun key => key.1.generation = generation ∧ key.2 = direction

theorem outstanding_append (keys : List TokenKey) (key : TokenKey) (generation : Nat) (direction : UdpDirection) :
    outstanding (keys ++ [key]) generation direction =
      outstanding keys generation direction + if key.1.generation = generation ∧ key.2 = direction then 1 else 0 := by
  simp [outstanding, countP_append, countP_singleton]

theorem outstanding_eraseIdx {keys : List TokenKey} {place : Nat} {key : TokenKey} (here : keys[place]? = some key)
    (generation : Nat) (direction : UdpDirection) :
    outstanding keys generation direction = outstanding (keys.eraseIdx place) generation direction +
      if key.1.generation = generation ∧ key.2 = direction then 1 else 0 := by
  obtain ⟨inside, same⟩ := List.getElem?_eq_some_iff.mp here
  have perm := getElem_cons_eraseIdx_perm inside
  rw [outstanding, ← perm.countP_eq, countP_cons, same, outstanding]
  simp

theorem outstanding_pos {keys : List TokenKey} {key : TokenKey} (member : key ∈ keys) :
    0 < outstanding keys key.1.generation key.2 :=
  countP_pos_iff.mpr ⟨key, member, by simp⟩

variable (history : List (Nat × UdpDirection × AccountedDatagram))

def historyOf (generation : Nat) (direction : UdpDirection) : List AccountedDatagram :=
  history.filterMap fun entry => if entry.1 = generation ∧ entry.2.1 = direction then some entry.2.2 else none

theorem historyOf_append (more : List (Nat × UdpDirection × AccountedDatagram)) (generation : Nat)
    (direction : UdpDirection) :
    historyOf (history ++ more) generation direction =
      historyOf history generation direction ++ historyOf more generation direction :=
  filterMap_append

theorem historyOf_tagged (datagrams : Option AccountedDatagram) (generation other : Nat) (direction another : UdpDirection) :
    historyOf (datagrams.toList.map fun datagram => (generation, direction, datagram)) other another =
      if generation = other ∧ direction = another then datagrams.toList else [] := by
  cases datagrams with
  | none => simp [historyOf]
  | some datagram =>
    simp only [historyOf, Option.toList_some, map_cons, map_nil, filterMap_cons, filterMap_nil]
    split
    · rename_i absent
      split at absent
      · simp at absent
      · rename_i other
        rw [if_neg other]
    · rename_i value present
      split at present
      · rename_i same
        cases present
        rw [if_pos same]
      · simp at present

theorem historyOf_eq_nil {history : List (Nat × UdpDirection × AccountedDatagram)} {generation : Nat}
    (absent : ∀ entry ∈ history, entry.1 ≠ generation) (direction : UdpDirection) :
    historyOf history generation direction = [] := by
  rw [historyOf, filterMap_eq_nil_iff]
  intro entry member
  rw [if_neg fun same => absent entry member same.1]

namespace SessionManager

def keys (manager : SessionManager) : List TokenKey := manager.datagrams.map fun token => (token.handle, token.direction)

/-- One queue of a live session: its reservations are the outstanding tokens, with room for all, and it holds what was committed
and not popped. -/
structure QueueHolds (manager : SessionManager) (entry : SessionEntry) (direction : UdpDirection) : Prop where
  counted : entry.pending direction = outstanding manager.keys entry.generation direction
  queued : ∃ values, (entry.queues direction).Holds values ∧
    entry.pending direction + values.length ≤ udpSessionQueueDepth ∧
      historyOf manager.committed entry.generation direction =
        historyOf manager.popped entry.generation direction ++ values

structure Invariant (limits : UdpRuntimeLimits) (manager : SessionManager) : Prop where
  slots : ∀ slot entry, manager.state.entries.lookup slot = some entry → slot < limits.maxSessions
  live : ∀ slot entry, manager.state.entries.lookup slot = some entry → entry.generation ∈ manager.opened
  distinct : ∀ slot other entry another, manager.state.entries.lookup slot = some entry →
    manager.state.entries.lookup other = some another → entry.generation = another.generation → slot = other
  opened : manager.opened.Nodup
  numbered : ∀ generation ∈ manager.opened, generation ≤ manager.state.nextGeneration
  tokens : ∀ key ∈ manager.keys, key.1.generation ∈ manager.opened ∧ ∀ slot entry,
    manager.state.entries.lookup slot = some entry → entry.generation = key.1.generation → slot = key.1.slot
  queues : ∀ slot entry, manager.state.entries.lookup slot = some entry → ∀ direction, QueueHolds manager entry direction
  logged : ∀ item ∈ manager.committed, item.1 ∈ manager.opened
  prefixes : ∀ generation direction,
    historyOf manager.popped generation direction <+: historyOf manager.committed generation direction

variable {limits : UdpRuntimeLimits} {manager after : SessionManager}

theorem invariant_new : Invariant limits .new where
  slots := by simp [new, SessionState.new]
  live := by simp [new, SessionState.new]
  distinct := by simp [new, SessionState.new]
  opened := nodup_nil
  numbered := by simp [new]
  tokens := by simp [new, keys]
  queues := by simp [new, SessionState.new]
  logged := by simp [new]
  prefixes := by simp [new, historyOf]

theorem Invariant.shrink (invariant : Invariant limits manager)
    (entries : ∀ slot entry, after.state.entries.lookup slot = some entry → manager.state.entries.lookup slot = some entry)
    (next : manager.state.nextGeneration ≤ after.state.nextGeneration) (tokens : ∀ key ∈ after.keys, key ∈ manager.keys)
    (counts : ∀ slot entry direction, after.state.entries.lookup slot = some entry →
      outstanding after.keys entry.generation direction = outstanding manager.keys entry.generation direction)
    (opened : after.opened = manager.opened) (committed : after.committed = manager.committed)
    (popped : after.popped = manager.popped) : Invariant limits after where
  slots := fun slot entry here => invariant.slots slot entry (entries slot entry here)
  live := fun slot entry here => opened ▸ invariant.live slot entry (entries slot entry here)
  distinct := fun slot other entry another here there =>
    invariant.distinct slot other entry another (entries slot entry here) (entries other another there)
  opened := opened ▸ invariant.opened
  numbered := fun generation member => (invariant.numbered generation (opened ▸ member)).trans next
  tokens := by
    intro key member
    obtain ⟨born, place⟩ := invariant.tokens key (tokens key member)
    exact ⟨opened ▸ born, fun slot entry here => place slot entry (entries slot entry here)⟩
  queues := by
    intro slot entry here direction
    obtain ⟨counted, values, holds, room, history⟩ := invariant.queues slot entry (entries slot entry here) direction
    refine ⟨counted.trans (counts slot entry direction here).symm, values, holds, room, ?_⟩
    rw [committed, popped]
    exact history
  logged := fun item member => opened ▸ invariant.logged item (committed ▸ member)
  prefixes := by
    rw [committed, popped]
    exact invariant.prefixes

theorem Invariant.withState (invariant : Invariant limits manager) {state : SessionState}
    (entries : ∀ slot entry, state.entries.lookup slot = some entry → manager.state.entries.lookup slot = some entry)
    (next : manager.state.nextGeneration ≤ state.nextGeneration) : Invariant limits { manager with state } :=
  invariant.shrink entries next (fun _ member => member) (fun _ _ _ _ => rfl) rfl rfl rfl

theorem Invariant.update (invariant : Invariant limits manager) {slot : Nat} {entry : SessionEntry}
    (changed : SessionEntry) (here : manager.state.entries.lookup slot = some entry)
    (generation : changed.generation = entry.generation)
    (entries : after.state.entries = manager.state.entries.insert slot changed)
    (next : after.state.nextGeneration = manager.state.nextGeneration)
    (tokens : ∀ key ∈ after.keys, key ∈ manager.keys ∨ key.1 = ⟨slot, entry.generation⟩)
    (opened : after.opened = manager.opened)
    (logged : ∀ item ∈ after.committed, item ∈ manager.committed ∨ item.1 = entry.generation)
    (others : ∀ other direction, other ≠ entry.generation →
      outstanding after.keys other direction = outstanding manager.keys other direction ∧
        historyOf after.committed other direction = historyOf manager.committed other direction ∧
          historyOf after.popped other direction = historyOf manager.popped other direction)
    (own : ∀ direction, QueueHolds after changed direction) : Invariant limits after := by
  have lookup : ∀ other found, after.state.entries.lookup other = some found →
      other = slot ∧ found = changed ∨ other ≠ slot ∧ manager.state.entries.lookup other = some found := by
    intro other found at_
    rw [entries, HashMap.lookup_insert_eq] at at_
    split at at_
    · rename_i same
      exact .inl ⟨same, (Option.some.inj at_).symm⟩
    · rename_i different
      exact .inr ⟨different, at_⟩
  have before : ∀ other found, after.state.entries.lookup other = some found →
      ∃ old, manager.state.entries.lookup other = some old ∧ old.generation = found.generation := by
    intro other found at_
    rcases lookup other found at_ with ⟨rfl, rfl⟩ | ⟨-, old⟩
    · exact ⟨entry, here, generation.symm⟩
    · exact ⟨found, old, rfl⟩
  refine ⟨?_, ?_, ?_, opened ▸ invariant.opened, ?_, ?_, ?_, ?_, ?_⟩
  · intro other found at_
    obtain ⟨old, held, -⟩ := before other found at_
    exact invariant.slots other old held
  · intro other found at_
    obtain ⟨old, held, same⟩ := before other found at_
    rw [opened, ← same]
    exact invariant.live other old held
  · intro first second found another atFirst atSecond same
    obtain ⟨old, held, sameFirst⟩ := before first found atFirst
    obtain ⟨older, holder, sameSecond⟩ := before second another atSecond
    exact invariant.distinct first second old older held holder (sameFirst.trans (same.trans sameSecond.symm))
  · intro number member
    rw [next]
    exact invariant.numbered number (opened ▸ member)
  · intro key member
    rw [opened]
    rcases tokens key member with known | fresh
    · obtain ⟨born, place⟩ := invariant.tokens key known
      refine ⟨born, fun other found at_ same => ?_⟩
      obtain ⟨old, held, oldSame⟩ := before other found at_
      exact place other old held (oldSame.trans same)
    · rw [fresh]
      refine ⟨invariant.live slot entry here, fun other found at_ same => ?_⟩
      obtain ⟨old, held, oldSame⟩ := before other found at_
      exact invariant.distinct other slot old entry held here (oldSame.trans same)
  · intro other found at_ direction
    rcases lookup other found at_ with ⟨rfl, rfl⟩ | ⟨different, held⟩
    · exact own direction
    · have apart : found.generation ≠ entry.generation := fun same =>
        different (invariant.distinct other slot found entry held here same)
      obtain ⟨counts, sameCommitted, samePopped⟩ := others found.generation direction apart
      obtain ⟨counted, values, holds, room, history⟩ := invariant.queues other found held direction
      refine ⟨counted.trans counts.symm, values, holds, room, ?_⟩
      rw [sameCommitted, samePopped]
      exact history
  · intro item member
    rw [opened]
    rcases logged item member with known | fresh
    · exact invariant.logged item known
    · rw [fresh]
      exact invariant.live slot entry here
  · intro number direction
    by_cases same : number = entry.generation
    · obtain ⟨-, values, -, -, history⟩ := own direction
      rw [same, ← generation, history]
      exact prefix_append _ _
    · obtain ⟨-, sameCommitted, samePopped⟩ := others number direction same
      rw [sameCommitted, samePopped]
      exact invariant.prefixes number direction

end SessionManager

end Ferrum.Runtime
