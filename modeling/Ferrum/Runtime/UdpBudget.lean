import Ferrum.Runtime.UdpSessionManager

namespace Ferrum.Runtime

/-- Bytes counted in `reserved`, numbered by the compare-exchange that counted them. -/
structure BudgetCharge where
  id : Nat
  capacity : Nat
deriving DecidableEq, Repr

/-- The idle allocation of `receive_cache`, known by the charge that it carries. -/
structure ReceiveCache where
  epoch : Nat
  buffer : Option BudgetCharge
deriving DecidableEq, Repr

structure BufferBudgetInner where
  limit : Nat
  reserved : Nat
  receiveCache : ReceiveCache
deriving DecidableEq, Repr

namespace BufferBudgetInner

def new (limit : Nat) : BufferBudgetInner := { limit, reserved := 0, receiveCache := ⟨0, none⟩ }

section

variable (inner : BufferBudgetInner)

/-- `checked_add` of the loop in `reserve`, refused over the limit. -/
def nextReserved (current capacity : Nat) : Option Nat :=
  if current + capacity < 2 ^ 64 ∧ current + capacity ≤ inner.limit then some (current + capacity) else none

/-- `fetch_sub` wraps. -/
def releaseBytes (capacity : Nat) : BufferBudgetInner :=
  { inner with
    reserved := if capacity ≤ inner.reserved then inner.reserved - capacity else inner.reserved + 2 ^ 64 - capacity }

def takeBuffer : BufferBudgetInner :=
  { inner with receiveCache := { inner.receiveCache with buffer := none } }

def storeBuffer (charge : BudgetCharge) : BufferBudgetInner :=
  { inner with receiveCache := { inner.receiveCache with buffer := some charge } }

end

end BufferBudgetInner

/-- Who runs `reserve`: a caller that takes the token, or `receive_buffer` with the epoch it read. -/
inductive ReserveCaller where
  | reserve
  | receiveBuffer (epoch : Nat)
deriving DecidableEq, Repr

/-- One call of `reserve`; `since` is the instant at which it started. -/
structure ReserveCall where
  caller : ReserveCaller
  capacity : Nat
  since : Nat
deriving DecidableEq, Repr

/-- The owners of one receive buffer: the value itself, or the `Arc` count, the `PayloadOwned` token, the `ReceivePayload` and
the `Bytes` that share it. -/
structure LeaseHandles where
  leased : Bool
  strong : Nat
  token : Bool
  payload : Bool
  clones : Nat
deriving DecidableEq, Repr

def LeaseHandles.lease : LeaseHandles := { leased := true, strong := 0, token := false, payload := false, clones := 0 }

def LeaseHandles.datagram : LeaseHandles := { leased := false, strong := 2, token := true, payload := true, clones := 1 }

/-- Something that can still read the buffer or account for it. -/
def LeaseHandles.Alive (handles : LeaseHandles) : Prop :=
  handles.leased = true ∨ handles.token = true ∨ 0 < handles.clones

inductive UdpBufferCharge where
  | metered
  | released
deriving DecidableEq, Repr

/-- Where a `ReceiveBuffer` is: in use, at the lock of its `Drop`, back in the cache with its token metered, or at its token's
`Drop`. -/
inductive ReceiveStage where
  | held (charge : BudgetCharge) (epoch : Nat)
  | dropping (charge : BudgetCharge) (epoch : Nat)
  | returned (charge : BudgetCharge)
  | closing (charge : BudgetCharge) (kind : UdpBufferCharge)
  | closed
deriving DecidableEq, Repr

def ReceiveStage.charges : ReceiveStage → List BudgetCharge
  | .held charge _ | .dropping charge _ | .closing charge .metered => [charge]
  | _ => []

def ReceiveStage.epoch? : ReceiveStage → Option Nat
  | .held _ epoch | .dropping _ epoch => some epoch
  | _ => none

variable (strong : Nat)

/-- The strong count of the `Arc` goes down, and the last owner drops the `ReceiveBuffer`. -/
def ReceiveStage.afterRelease : ReceiveStage → ReceiveStage
  | .held charge epoch => if strong = 1 then .dropping charge epoch else .held charge epoch
  | stage => stage

/-- One thread inside a call of the budget, or one value that a call returned. -/
inductive BudgetActor where
  | loading (call : ReserveCall)
  | loaded (call : ReserveCall) (current readAt : Nat)
  | evicted (call : ReserveCall) (cached : BudgetCharge)
  | charged (call : ReserveCall) (charge : BudgetCharge)
  | limited (call : ReserveCall) (readAt emptyAt : Nat)
  | refused
  | locking
  | waiting
  | token (charge : BudgetCharge)
  | buffer (handles : LeaseHandles) (stage : ReceiveStage)
  | clearing (cached : Option BudgetCharge)
  | finished
deriving DecidableEq, Repr

def ReserveCaller.epoch? : ReserveCaller → Option Nat
  | .reserve => none
  | .receiveBuffer epoch => some epoch

namespace BudgetActor

/-- The charge that an actor answers for. -/
def charges : BudgetActor → List BudgetCharge
  | evicted _ charge | charged _ charge | token charge => [charge]
  | clearing cached => cached.toList
  | buffer _ stage => stage.charges
  | _ => []

/-- The cache epoch that an actor's buffer is bound to. -/
def epoch? : BudgetActor → Option Nat
  | loading call | loaded call _ _ | evicted call _ | charged call _ | limited call _ _ => call.caller.epoch?
  | buffer _ stage => stage.epoch?
  | _ => none

end BudgetActor

/-- What the scheduler lets an actor do: go on, or one of the choices that its environment has. -/
inductive BudgetEvent where
  | proceed
  | exchange (spurious : Bool)
  | allocated (capacity : Nat)
  | wake
  | cancel
  | intoDatagram (length : Nat)
  | clonePayload
  | dropPayload
  | dropReceivePayload
  | dropToken
  | dropLease
deriving DecidableEq, Repr

/-- The effect of one atomic step: the shared state, the actor, the charge it counted and the one it released. -/
structure BudgetOutcome where
  inner : BufferBudgetInner
  actor : BudgetActor
  counted : Bool
  released : Option BudgetCharge

namespace BufferBudgetInner

section

variable (inner : BufferBudgetInner)

def go (actor : BudgetActor) : Option BudgetOutcome :=
  some { inner, actor, counted := false, released := none }

def goRelease (charge : BudgetCharge) (actor : BudgetActor) : Option BudgetOutcome :=
  some { inner := inner.releaseBytes charge.capacity, actor, counted := false, released := some charge }

/-- `evict_receive_buffer` takes the buffer under the lock and releases its bytes in a later step. -/
def evictReceiveBuffer (call : ReserveCall) (readAt now : Nat) : Option BudgetOutcome :=
  match inner.receiveCache.buffer with
  | some buffer => inner.takeBuffer.go (.evicted call buffer)
  | none => inner.go (.limited call readAt now)

def compareExchange (issued now : Nat) (call : ReserveCall) (current next : Nat)
    (spurious : Bool) : Option BudgetOutcome :=
  if spurious = false ∧ inner.reserved = current then
    some { inner := { inner with reserved := next }, actor := .charged call ⟨issued, call.capacity⟩, counted := true
           released := none }
  else inner.go (.loaded call inner.reserved now)

/-- `receive_buffer` under the cache lock. -/
def lockReceiveBuffer (now : Nat) : Option BudgetOutcome :=
  match inner.receiveCache.buffer with
  | some buffer => inner.takeBuffer.go (.buffer .lease (.held buffer inner.receiveCache.epoch))
  | none => inner.go (.loading ⟨.receiveBuffer inner.receiveCache.epoch, maxUdpWireDatagramBytes, now + 1⟩)

/-- `ReceiveBuffer::drop` under the cache lock. -/
def dropReceiveBuffer (handles : LeaseHandles) (charge : BudgetCharge) (epoch : Nat) :
    Option BudgetOutcome :=
  if inner.receiveCache.epoch = epoch ∧ inner.receiveCache.buffer = none then
    (inner.storeBuffer charge).go (.buffer handles (.returned charge))
  else inner.go (.buffer handles (.closing charge .metered))

end

/-- `Drop for UdpBufferReservation`. -/
def dropReservation (inner : BufferBudgetInner) (handles : LeaseHandles) (charge : BudgetCharge) :
    UdpBufferCharge → Option BudgetOutcome
  | .metered => inner.goRelease charge (.buffer handles .closed)
  | .released => inner.go (.buffer handles .closed)

/-- The steps of a `ReceiveBuffer` whose `Drop` runs. -/
def dropStep (inner : BufferBudgetInner) (handles : LeaseHandles) : ReceiveStage → Option BudgetOutcome
  | .dropping charge epoch => inner.dropReceiveBuffer handles charge epoch
  | .returned charge => inner.go (.buffer handles (.closing charge .released))
  | .closing charge kind => inner.dropReservation handles charge kind
  | _ => none

/-- What `into_datagram` makes of a lease: an `Arc` that the token and the payload own, or nothing, with the buffer dropped. -/
def intoDatagram (inner : BufferBudgetInner) (handles : LeaseHandles) (stage : ReceiveStage) (length : Nat) :
    Option BudgetOutcome :=
  match handles.leased, stage with
  | true, .held charge epoch =>
      if length > maxUdpWireDatagramBytes ∨ length > charge.capacity then
        inner.go (.buffer { handles with leased := false } (.dropping charge epoch))
      else inner.go (.buffer .datagram (.held charge epoch))
  | _, _ => none

def dropLease (inner : BufferBudgetInner) (handles : LeaseHandles) (stage : ReceiveStage) : Option BudgetOutcome :=
  match handles.leased, stage with
  | true, .held charge epoch => inner.go (.buffer { handles with leased := false } (.dropping charge epoch))
  | _, _ => none

/-- The events of a receive buffer's owners. -/
def handleStep (inner : BufferBudgetInner) (handles : LeaseHandles) (stage : ReceiveStage) :
    BudgetEvent → Option BudgetOutcome
  | .intoDatagram length => inner.intoDatagram handles stage length
  | .dropLease => inner.dropLease handles stage
  | .clonePayload =>
      if 0 < handles.clones then inner.go (.buffer { handles with clones := handles.clones + 1 } stage) else none
  | .dropPayload =>
      if 0 < handles.clones then inner.go (.buffer { handles with clones := handles.clones - 1 } stage) else none
  | .dropReceivePayload =>
      if handles.payload = true ∧ handles.clones = 0 then
        inner.go (.buffer { handles with payload := false, strong := handles.strong - 1 }
          (stage.afterRelease handles.strong))
      else none
  | .dropToken =>
      if handles.token = true then
        inner.go (.buffer { handles with token := false, strong := handles.strong - 1 }
          (stage.afterRelease handles.strong))
      else none
  | .proceed => inner.dropStep handles stage
  | _ => none

/-- The end of `receive_buffer`: storage of another capacity than the reservation's is refused. -/
def allocate (inner : BufferBudgetInner) (charge : BudgetCharge) (epoch capacity : Nat) : Option BudgetOutcome :=
  if capacity = charge.capacity then inner.go (.buffer .lease (.held charge epoch)) else inner.go (.token charge)

/-- One atomic step of one actor at the instant `now`. -/
def actorStep (inner : BufferBudgetInner) (issued now : Nat) : BudgetActor → BudgetEvent → Option BudgetOutcome
  | .loading call, .proceed => inner.go (.loaded call inner.reserved now)
  | .loaded call current readAt, event =>
      match inner.nextReserved current call.capacity, event with
      | none, .proceed => inner.evictReceiveBuffer call readAt now
      | some next, .exchange spurious => inner.compareExchange issued now call current next spurious
      | _, _ => none
  | .evicted call buffer, .proceed => inner.goRelease buffer (.loading call)
  | .charged ⟨.reserve, _, _⟩ charge, .proceed => inner.go (.token charge)
  | .charged ⟨.receiveBuffer epoch, _, _⟩ charge, .allocated capacity => inner.allocate charge epoch capacity
  | .limited ⟨.reserve, _, _⟩ _ _, .proceed => inner.go .finished
  | .limited ⟨.receiveBuffer _, _, _⟩ _ _, .proceed => inner.go .waiting
  | .locking, .proceed => inner.lockReceiveBuffer now
  | .waiting, .wake => inner.go .locking
  | .waiting, .cancel => inner.go .finished
  | .token charge, .dropToken => inner.goRelease charge .finished
  | .buffer handles stage, event => inner.handleStep handles stage event
  | .clearing (some buffer), .proceed => inner.goRelease buffer .finished
  | .clearing none, .proceed => inner.go .finished
  | _, _ => none

end BufferBudgetInner

/-- What the budget showed before one step of a run. -/
structure BudgetInstant where
  reserved : Nat
  cached : Option BudgetCharge
deriving DecidableEq, Repr

/-- The budget, everything that calls it, and the history: charges counted, charges released and what each instant showed. -/
structure BudgetSystem where
  inner : BufferBudgetInner
  actors : List BudgetActor
  issued : Nat
  released : List BudgetCharge
  instants : List BudgetInstant
deriving DecidableEq, Repr

inductive BudgetMove where
  | callReserve (capacity : Nat)
  | callReceiveBuffer
  | clearReceiveCache
  | act (place : Nat) (event : BudgetEvent)
deriving DecidableEq, Repr

namespace BudgetSystem

def new (limit : Nat) : BudgetSystem := { inner := .new limit, actors := [], issued := 0, released := [], instants := [] }

variable (system : BudgetSystem)

def instant : BudgetInstant := ⟨system.inner.reserved, system.inner.receiveCache.buffer⟩

/-- The charges counted and not yet released: the cached buffer's and those of the actors. -/
def live : List BudgetCharge :=
  system.inner.receiveCache.buffer.toList ++ system.actors.flatMap BudgetActor.charges

def spawn (inner : BufferBudgetInner) (actor : BudgetActor) : BudgetSystem :=
  { system with inner, actors := system.actors ++ [actor], instants := system.instants ++ [system.instant] }

def reserveActor (capacity : Nat) : BudgetActor :=
  if capacity > maxUdpWireDatagramBytes then .refused
  else .loading ⟨.reserve, capacity, system.instants.length + 1⟩

def clearedCache : BufferBudgetInner :=
  { system.inner with receiveCache := ⟨system.inner.receiveCache.epoch + 1, none⟩ }

def apply (place : Nat) (outcome : BudgetOutcome) : BudgetSystem :=
  { inner := outcome.inner
    actors := system.actors.set place outcome.actor
    issued := if outcome.counted then system.issued + 1 else system.issued
    released := system.released ++ outcome.released.toList
    instants := system.instants ++ [system.instant] }

/-- One atomic step of the program. A `clear_receive_cache` at the last epoch panics and is no step. -/
def step : BudgetMove → Option BudgetSystem
  | .callReserve capacity => some (system.spawn system.inner (system.reserveActor capacity))
  | .callReceiveBuffer => some (system.spawn system.inner .locking)
  | .clearReceiveCache =>
      if system.inner.receiveCache.epoch + 1 < 2 ^ 64 then
        some (system.spawn system.clearedCache (.clearing system.inner.receiveCache.buffer))
      else none
  | .act place event =>
      system.actors[place]?.bind fun actor =>
        (system.inner.actorStep system.issued system.instants.length actor event).map (system.apply place)

/-- Any interleaving of steps. -/
inductive Run : BudgetSystem → BudgetSystem → Prop
  | nil (system : BudgetSystem) : Run system system
  | cons {first middle last : BudgetSystem} {move : BudgetMove} (here : first.step move = some middle)
      (rest : Run middle last) : Run first last

end BudgetSystem

@[simp] theorem ReceiveStage.charges_afterRelease (stage : ReceiveStage) :
    (stage.afterRelease strong).charges = stage.charges := by
  cases stage with
  | held charge epoch =>
    simp only [afterRelease]
    split <;> rfl
  | _ => rfl

@[simp] theorem ReceiveStage.epoch?_afterRelease (stage : ReceiveStage) :
    (stage.afterRelease strong).epoch? = stage.epoch? := by
  cases stage with
  | held charge epoch =>
    simp only [afterRelease]
    split <;> rfl
  | _ => rfl

/-- The epoch of an actor is the one it had, or the cache's if it held no charge yet. -/
def BudgetActor.BoundFrom (inner : BufferBudgetInner) (actor next : BudgetActor) : Prop :=
  ∀ epoch, next.epoch? = some epoch → actor.epoch? = some epoch ∨ actor.charges = [] ∧ epoch = inner.receiveCache.epoch

variable {inner : BufferBudgetInner} {actor next : BudgetActor}

theorem BudgetActor.BoundFrom.of_same (same : next.epoch? = actor.epoch?) : actor.BoundFrom inner next :=
  fun _ bound => .inl (same ▸ bound)

theorem BudgetActor.BoundFrom.of_none (unbound : next.epoch? = none) : actor.BoundFrom inner next := by
  intro epoch bound
  rw [unbound] at bound
  cases bound

namespace BufferBudgetInner

/-- All that one atomic step can do with the counter, the cache and the charge of its actor. -/
inductive StepEffect (inner : BufferBudgetInner) (issued : Nat) (actor : BudgetActor) : BudgetOutcome → Prop
  | keep (next : BudgetActor) (bound : actor.BoundFrom inner next) (same : next.charges = actor.charges) :
      StepEffect inner issued actor ⟨inner, next, false, none⟩
  | take (next : BudgetActor) (charge : BudgetCharge) (bound : actor.BoundFrom inner next)
      (cached : inner.receiveCache.buffer = some charge) (idle : actor.charges = []) (owner : next.charges = [charge]) :
      StepEffect inner issued actor ⟨inner.takeBuffer, next, false, none⟩
  | store (next : BudgetActor) (charge : BudgetCharge) (bound : actor.BoundFrom inner next)
      (owner : actor.charges = [charge]) (current : actor.epoch? = some inner.receiveCache.epoch)
      (free : inner.receiveCache.buffer = none) (idle : next.charges = []) :
      StepEffect inner issued actor ⟨inner.storeBuffer charge, next, false, none⟩
  | count (next : BudgetActor) (capacity : Nat) (bound : actor.BoundFrom inner next)
      (fits : inner.reserved + capacity ≤ inner.limit) (idle : actor.charges = [])
      (owner : next.charges = [⟨issued, capacity⟩]) :
      StepEffect inner issued actor ⟨{ inner with reserved := inner.reserved + capacity }, next, true, none⟩
  | release (next : BudgetActor) (charge : BudgetCharge) (bound : actor.BoundFrom inner next)
      (owner : actor.charges = [charge]) (idle : next.charges = []) :
      StepEffect inner issued actor ⟨inner.releaseBytes charge.capacity, next, false, some charge⟩

variable {inner : BufferBudgetInner} {issued now : Nat} {actor : BudgetActor} {outcome : BudgetOutcome}

variable {next : BudgetActor} {charge : BudgetCharge} {readAt current : Nat} {handles : LeaseHandles}
  {stage : ReceiveStage} {event : BudgetEvent}

theorem go_effect (run : inner.go next = some outcome) (bound : actor.BoundFrom inner next)
    (same : next.charges = actor.charges) : StepEffect inner issued actor outcome := by
  cases run
  exact .keep next bound same

theorem goRelease_effect (run : inner.goRelease charge next = some outcome)
    (bound : actor.BoundFrom inner next) (owner : actor.charges = [charge]) (idle : next.charges = []) :
    StepEffect inner issued actor outcome := by
  cases run
  exact .release next charge bound owner idle

variable {call : ReserveCall}

theorem evictReceiveBuffer_effect (run : inner.evictReceiveBuffer call readAt now = some outcome) :
    StepEffect inner issued (.loaded call current readAt) outcome := by
  unfold evictReceiveBuffer at run
  split at run
  · rename_i charge cached
    cases run
    exact .take _ charge (.of_same rfl) cached rfl rfl
  · exact go_effect run (.of_same rfl) rfl

theorem compareExchange_effect {next : Nat} {spurious : Bool}
    (fits : inner.nextReserved current call.capacity = some next)
    (run : inner.compareExchange issued now call current next spurious = some outcome) :
    StepEffect inner issued (.loaded call current readAt) outcome := by
  unfold compareExchange at run
  unfold nextReserved at fits
  split at run
  · rename_i taken
    split at fits
    · rename_i bounded
      cases fits
      cases run
      obtain ⟨-, rfl⟩ := taken
      exact .count _ _ (.of_same rfl) bounded.2 rfl rfl
    · cases fits
  · exact go_effect run (.of_same rfl) rfl

theorem lockReceiveBuffer_effect (run : inner.lockReceiveBuffer now = some outcome) :
    StepEffect inner issued .locking outcome := by
  have fresh : ∀ {next : BudgetActor}, next.epoch? = some inner.receiveCache.epoch →
      BudgetActor.BoundFrom inner .locking next :=
    fun here epoch bound => .inr ⟨rfl, Option.some.inj (bound.symm.trans here)⟩
  unfold lockReceiveBuffer at run
  split at run
  · rename_i charge cached
    cases run
    exact .take _ charge (fresh rfl) cached rfl rfl
  · exact go_effect run (fresh rfl) rfl

theorem dropStep_effect (run : inner.dropStep handles stage = some outcome) :
    StepEffect inner issued (.buffer handles stage) outcome := by
  cases stage with
  | dropping charge epoch =>
    simp only [dropStep, dropReceiveBuffer] at run
    split at run
    · rename_i empty
      obtain ⟨rfl, free⟩ := empty
      cases run
      exact .store _ charge (.of_none rfl) rfl rfl free rfl
    · exact go_effect run (.of_none rfl) rfl
  | returned charge => exact go_effect run (.of_none rfl) rfl
  | closing charge kind =>
    cases kind with
    | metered => exact goRelease_effect run (.of_none rfl) rfl rfl
    | released => exact go_effect run (.of_none rfl) rfl
  | held charge epoch | closed => cases run

theorem handleStep_effect (run : inner.handleStep handles stage event = some outcome) :
    StepEffect inner issued (.buffer handles stage) outcome := by
  cases event with
  | intoDatagram length =>
    simp only [handleStep, intoDatagram] at run
    split at run
    · split at run <;> exact go_effect run (.of_same rfl) rfl
    · cases run
  | dropLease =>
    simp only [handleStep, dropLease] at run
    split at run
    · exact go_effect run (.of_same rfl) rfl
    · cases run
  | clonePayload | dropPayload =>
    simp only [handleStep, Option.ite_none_right_eq_some] at run
    exact go_effect run.2 (.of_same rfl) rfl
  | dropReceivePayload | dropToken =>
    simp only [handleStep, Option.ite_none_right_eq_some] at run
    exact go_effect run.2 (.of_same (by simp [BudgetActor.epoch?])) (by simp [BudgetActor.charges])
  | proceed => exact dropStep_effect run
  | _ => cases run

theorem allocate_effect {epoch capacity : Nat}
    (bound : call.caller = .receiveBuffer epoch) (run : inner.allocate charge epoch capacity = some outcome) :
    StepEffect inner issued (.charged call charge) outcome := by
  unfold allocate at run
  split at run
  · exact go_effect run (.of_same (by simp [BudgetActor.epoch?, bound, ReserveCaller.epoch?, ReceiveStage.epoch?])) rfl
  · exact go_effect run (.of_none rfl) rfl

theorem actorStep_effect (run : inner.actorStep issued now actor event = some outcome) :
    StepEffect inner issued actor outcome := by
  unfold actorStep at run
  split at run
  · exact go_effect run (.of_same rfl) rfl
  · split at run
    · exact evictReceiveBuffer_effect run
    · rename_i next spurious fits
      exact compareExchange_effect fits run
    · cases run
  · exact goRelease_effect run (.of_same rfl) rfl rfl
  · exact go_effect run (.of_none rfl) rfl
  · exact allocate_effect rfl run
  · exact go_effect run (.of_none rfl) rfl
  · exact go_effect run (.of_none rfl) rfl
  · exact lockReceiveBuffer_effect run
  · exact go_effect run (.of_none rfl) rfl
  · exact go_effect run (.of_none rfl) rfl
  · exact goRelease_effect run (.of_none rfl) rfl rfl
  · exact handleStep_effect run
  · exact goRelease_effect run (.of_none rfl) rfl rfl
  · exact go_effect run (.of_none rfl) rfl
  · cases run

end BufferBudgetInner

/-- The strong count is the number of its owners, a `Bytes` has its payload, and the buffer is in use exactly while
something owns it. -/
structure LeaseHandles.Sound (handles : LeaseHandles) (stage : ReceiveStage) : Prop where
  strong : handles.strong = handles.token.toNat + handles.payload.toNat
  payload : 0 < handles.clones → handles.payload = true
  unique : handles.leased = true → handles.strong = 0
  held : (∃ charge epoch, stage = .held charge epoch) ↔ handles.leased = true ∨ 0 < handles.strong

/-- What the actors know of the past: a read counter was that of its instant, and `BufferLimit` comes after an instant without
room and, later in the call, one with the cache empty. -/
def BudgetActor.Sound (limit : Nat) (instants : List BudgetInstant) : BudgetActor → Prop
  | loading call | evicted call _ => call.since ≤ instants.length
  | loaded call current readAt =>
      call.since ≤ readAt ∧ ∃ seen, instants[readAt]? = some seen ∧ seen.reserved = current
  | limited call readAt emptyAt =>
      call.since ≤ readAt ∧ readAt ≤ emptyAt ∧
        (∃ seen, instants[readAt]? = some seen ∧ limit < seen.reserved + call.capacity) ∧
        ∃ seen, instants[emptyAt]? = some seen ∧ seen.cached = none
  | buffer handles stage => handles.Sound stage
  | _ => True

theorem BudgetActor.Sound.later {limit : Nat} {instants : List BudgetInstant} {actor : BudgetActor}
    (sound : actor.Sound limit instants) (instant : BudgetInstant) : actor.Sound limit (instants ++ [instant]) := by
  have kept : ∀ {place : Nat} {seen : BudgetInstant}, instants[place]? = some seen →
      (instants ++ [instant])[place]? = some seen :=
    fun here => by rw [List.getElem?_append_left (List.getElem?_eq_some_iff.mp here).1, here]
  cases actor with
  | loading call | evicted call =>
    simp only [Sound, List.length_append, List.length_singleton] at sound ⊢
    omega
  | loaded call current readAt =>
    obtain ⟨started, seen, here, same⟩ := sound
    exact ⟨started, seen, kept here, same⟩
  | limited call readAt emptyAt =>
    obtain ⟨started, order, ⟨seen, here, past⟩, other, there, empty⟩ := sound
    exact ⟨started, order, ⟨seen, kept here, past⟩, other, kept there, empty⟩
  | _ => exact sound

namespace LeaseHandles

variable {handles : LeaseHandles} {stage : ReceiveStage}

theorem Sound.lease (charge : BudgetCharge) (epoch : Nat) : lease.Sound (.held charge epoch) :=
  ⟨rfl, nofun, fun _ => rfl, by simp [LeaseHandles.lease]⟩

theorem Sound.datagram (charge : BudgetCharge) (epoch : Nat) : datagram.Sound (.held charge epoch) :=
  ⟨rfl, fun _ => rfl, nofun, by simp [LeaseHandles.datagram]⟩

theorem Sound.advance (sound : handles.Sound stage) {next : ReceiveStage}
    (past : ∀ charge epoch, stage ≠ .held charge epoch) (gone : ∀ charge epoch, next ≠ .held charge epoch) :
    handles.Sound next := by
  refine ⟨sound.strong, sound.payload, sound.unique, ?_⟩
  rw [← sound.held]
  constructor
  · rintro ⟨charge, epoch, same⟩
    exact absurd same (gone charge epoch)
  · rintro ⟨charge, epoch, same⟩
    exact absurd same (past charge epoch)

theorem Sound.dropLease {charge : BudgetCharge} {epoch : Nat} (sound : handles.Sound (.held charge epoch))
    (leased : handles.leased = true) : { handles with leased := false }.Sound (.dropping charge epoch) := by
  have unowned := sound.unique leased
  exact ⟨sound.strong, sound.payload, nofun, by simp [unowned]⟩

section

variable (sound : handles.Sound stage)
include sound

theorem Sound.releaseStrong {token payload : Bool}
    (owners : handles.strong = token.toNat + payload.toNat + 1) (shared : 0 < handles.clones → payload = true) :
    { handles with token, payload, strong := handles.strong - 1 }.Sound (stage.afterRelease handles.strong) := by
  obtain ⟨charge, epoch, rfl⟩ := sound.held.mpr (.inr (by omega))
  have unleased : handles.leased = false := by
    by_contra leased
    have unowned := sound.unique (by simpa using leased)
    omega
  refine ⟨by simp only; omega, shared, by simp [unleased], ?_⟩
  simp only [ReceiveStage.afterRelease, unleased, Bool.false_eq_true, false_or]
  split
  · rename_i last
    simp [last]
  · rename_i more
    simp only [ReceiveStage.held.injEq, exists_and_left, exists_eq', and_true, true_iff]
    omega

theorem Sound.dropReceivePayload (payload : handles.payload = true) (unshared : handles.clones = 0) :
    { handles with payload := false, strong := handles.strong - 1 }.Sound (stage.afterRelease handles.strong) := by
  have owners := sound.strong
  rw [payload, Bool.toNat_true] at owners
  exact sound.releaseStrong (by simpa using owners) (by omega)

theorem Sound.dropToken (token : handles.token = true) :
    { handles with token := false, strong := handles.strong - 1 }.Sound (stage.afterRelease handles.strong) := by
  have owners := sound.strong
  rw [token, Bool.toNat_true] at owners
  exact sound.releaseStrong (by simp only [Bool.toNat_false]; omega) sound.payload

theorem Sound.held_of_alive (alive : handles.Alive) : ∃ charge epoch, stage = .held charge epoch := by
  refine sound.held.mpr ?_
  rcases alive with leased | token | shared
  · exact .inl leased
  · have owners := sound.strong
    rw [token, Bool.toNat_true] at owners
    exact .inr (by omega)
  · have owners := sound.strong
    rw [sound.payload shared, Bool.toNat_true] at owners
    exact .inr (by omega)

end

end LeaseHandles

end Ferrum.Runtime
