import Mathlib.Logic.Function.Iterate
import Ferrum.Lib.HashMap

namespace Ferrum.Core

/-- `u64` counters wrap here. -/
def u64Limit : Nat := 18446744073709551616

def wrappingSucc (value : Nat) : Nat := if value + 1 = u64Limit then 0 else value + 1

abbrev Waker := Nat

/-- The shared state under its lock. -/
structure GenerationSignal where
  generation : Nat
  nextSubscriber : Nat
  subscribers : HashMap Nat Waker
  deriving DecidableEq

/-- A subscription. `waiting` is the waker of its last poll, if that one returned `Pending`. -/
structure GenerationChange where
  baseline : Nat
  subscriber : Option Nat
  completed : Option Nat
  waiting : Option Waker
  deriving DecidableEq, Repr

inductive PollResult
  | ready (generation : Nat)
  | pending
  deriving DecidableEq, Repr

/-- The wakers that one publication has detached, and how many of them have been woken. -/
structure GenerationNotification where
  previous : Nat
  generation : Nat
  wakers : List Waker
  woken : Nat
  deriving DecidableEq, Repr

variable (notification : GenerationNotification)

def GenerationNotification.pending : List Waker :=
  notification.wakers.drop notification.woken

def GenerationNotification.awake : List Waker :=
  notification.wakers.take notification.woken

namespace GenerationSignal

def new (generation : Nat) : GenerationSignal := ⟨generation, 0, ∅⟩

/-- The ids that the loop of `next_subscriber` tries, and the counter after the free one. -/
def searchSubscriber (subscribers : HashMap Nat Waker) : Nat → Nat → Option (Nat × Nat)
  | 0, _ => none
  | turns + 1, candidate =>
    if candidate ∈ subscribers then searchSubscriber subscribers turns (wrappingSucc candidate)
    else some (candidate, wrappingSucc candidate)

variable (signal : GenerationSignal)

/-- One of so many consecutive ids is free; with all ids taken the loop does not end. -/
def freeSubscriber : Option (Nat × Nat) :=
  searchSubscriber signal.subscribers (min (signal.subscribers.len + 1) u64Limit) signal.nextSubscriber

def watchFrom (baseline : Nat) : GenerationChange := ⟨baseline, none, none, none⟩

def watch : GenerationChange := watchFrom signal.generation

/-- `state.subscribers.remove`. -/
def remove (subscriber : Option Nat) : GenerationSignal :=
  match subscriber with
  | some id => { signal with subscribers := signal.subscribers.erase id }
  | none => signal

def insert (signal : GenerationSignal) (id : Nat) (waker : Waker) : GenerationSignal :=
  { signal with subscribers := signal.subscribers.insert id waker }

/-- One poll, under the lock. A waker that would wake the same task stays. -/
def poll (change : GenerationChange) (waker : Waker) : Option (PollResult × GenerationChange × GenerationSignal) :=
  match change.completed with
  | some generation => some (.ready generation, change, signal)
  | none =>
    if signal.generation ≠ change.baseline then
      some (.ready signal.generation,
        { change with subscriber := none, completed := some signal.generation, waiting := none }, signal.remove change.subscriber)
    else
      match change.subscriber with
      | some id =>
        match signal.subscribers.lookup id with
        | some registered =>
          if registered = waker then some (.pending, { change with waiting := some waker }, signal)
          else some (.pending, { change with waiting := some waker }, signal.insert id waker)
        | none => some (.pending, { change with waiting := some waker }, signal.insert id waker)
      | none =>
        match signal.freeSubscriber with
        | some (id, next) =>
          some (.pending, { change with subscriber := some id, waiting := some waker },
            { signal.insert id waker with nextSubscriber := next })
        | none => none

/-- The wakers of all subscribers leave with the notification. -/
def prepareNotification (generation : Nat) : GenerationNotification × GenerationSignal :=
  if signal.generation = generation then (⟨generation, generation, [], 0⟩, signal)
  else
    (⟨signal.generation, generation, signal.subscribers.values, 0⟩,
      { signal with generation := generation, subscribers := ∅ })

end GenerationSignal

/-- The signal, the subscriptions (none once dropped) and the notifications so far. -/
structure SignalSystem where
  signal : GenerationSignal
  changes : List (Option GenerationChange)
  notifications : List GenerationNotification
  deriving DecidableEq

inductive SignalEvent
  | watch
  | watchFrom (baseline : Nat)
  | poll (change : Nat) (waker : Waker)
  | drop (change : Nat)
  | prepare (generation : Nat)
  | wake (notification : Nat)
  deriving DecidableEq, Repr

namespace SignalSystem

def new (generation : Nat) : SignalSystem := ⟨.new generation, [], []⟩

variable (system : SignalSystem)

def live (change : Nat) : Option GenerationChange := (system.changes[change]?).join

def wakeNext (notification : GenerationNotification) : GenerationNotification :=
  { notification with woken := notification.woken + 1 }

/-- Generations never decrease. -/
def step : SignalEvent → Option SignalSystem
  | .watch => some { system with changes := system.changes ++ [some system.signal.watch] }
  | .watchFrom baseline => some { system with changes := system.changes ++ [some (GenerationSignal.watchFrom baseline)] }
  | .poll change waker =>
    match system.live change with
    | none => none
    | some subscription =>
      match system.signal.poll subscription waker with
      | none => none
      | some (_, subscription, signal) =>
        some { system with signal := signal, changes := system.changes.set change (some subscription) }
  | .drop change =>
    match system.live change with
    | none => none
    | some subscription =>
      some { system with signal := system.signal.remove subscription.subscriber, changes := system.changes.set change none }
  | .prepare generation =>
    if system.signal.generation ≤ generation then
      some { system with
        signal := (system.signal.prepareNotification generation).2
        notifications := system.notifications ++ [(system.signal.prepareNotification generation).1] }
    else none
  | .wake notification =>
    match system.notifications[notification]? with
    | none => none
    | some found => some { system with notifications := system.notifications.set notification (wakeNext found) }

def run (system : SignalSystem) : List SignalEvent → Option SignalSystem
  | [] => some system
  | event :: rest => (system.step event).bind fun system => system.run rest

/-- The waker is registered under its subscription's id, or the notification prepared for the first other generation wakes it.
-/
def Kept (change : GenerationChange) (waker : Waker) : Prop :=
  (system.signal.generation = change.baseline ∧
    ∃ id, change.subscriber = some id ∧ system.signal.subscribers.lookup id = some waker) ∨
  (system.signal.generation ≠ change.baseline ∧
    ∃ notification ∈ system.notifications, notification.previous = change.baseline ∧
      notification.generation ≠ change.baseline ∧ (waker ∈ notification.pending ∨ waker ∈ notification.awake))

/-- No waker is lost: those of the pending subscriptions are all kept. -/
def LosesNothing : Prop :=
  ∀ change subscription waker, system.live change = some subscription → subscription.waiting = some waker →
    system.Kept subscription waker

/-- The next id that the counter meets unregistered belongs to a live subscription, whose waker is detached. -/
def NextHeld : Prop :=
  ∃ turns candidate, candidate ∉ system.signal.subscribers ∧ candidate = wrappingSucc^[turns] system.signal.nextSubscriber ∧
    (∀ earlier < turns, wrappingSucc^[earlier] system.signal.nextSubscriber ∈ system.signal.subscribers) ∧
    ∃ change subscription, system.live change = some subscription ∧ subscription.subscriber = some candidate

/-- The first poll of a waiting subscription takes an id that another one holds. -/
def Collides : SignalEvent → Prop
  | .poll change _ => system.NextHeld ∧ ∃ subscription, system.live change = some subscription ∧
      subscription.completed = none ∧ subscription.baseline = system.signal.generation ∧ subscription.subscriber = none
  | _ => False

def Collisionless (system : SignalSystem) : List SignalEvent → Prop
  | [] => True
  | event :: rest => ¬system.Collides event ∧ ∀ next, system.step event = some next → next.Collisionless rest

end SignalSystem

end Ferrum.Core
