import Ferrum.Core.GenerationSignalRun
import Ferrum.Rule.Snapshot

namespace Ferrum.Rule

open Ferrum.Core (GenerationNotification GenerationSignal SignalEvent SignalSystem Waker)

variable {Automaton : Type} {engine : AhoCorasick Automaton}

/-- A registry with the signal of its generations and their subscriptions. -/
structure WatchedRegistry (engine : AhoCorasick Automaton) where
  registry : RuleEngineRegistry engine
  changes : SignalSystem

namespace WatchedRegistry

def new (initial : RuleEngineSnapshot engine) : WatchedRegistry engine := ⟨⟨initial⟩, .new initial.generation⟩

/-- The notification is prepared inside the write lock; its wakes come later. -/
def publish (watched : WatchedRegistry engine) (next : RuleEngineSnapshot engine) :
    Except RegistryPublishError (RuleEngineSnapshot engine) × WatchedRegistry engine :=
  match watched.registry.publish next with
  | .error error => (.error error, watched)
  | .ok (previous, registry) =>
    (.ok previous, ⟨registry, { watched.changes with
      signal := (watched.changes.signal.prepareNotification next.generation).2
      notifications := watched.changes.notifications ++ [(watched.changes.signal.prepareNotification next.generation).1] }⟩)

end WatchedRegistry

/-- Publications, and the steps of the subscriptions and notifications between them. -/
inductive RegistryEvent (engine : AhoCorasick Automaton) where
  | publish (next : RuleEngineSnapshot engine)
  | signal (event : SignalEvent)

namespace WatchedRegistry

/-- Only a publication prepares notifications. -/
def step (watched : WatchedRegistry engine) : RegistryEvent engine → Option (WatchedRegistry engine)
  | .publish next => some (watched.publish next).2
  | .signal (.prepare _) => none
  | .signal event => (watched.changes.step event).map fun changes => { watched with changes := changes }

def run (watched : WatchedRegistry engine) : List (RegistryEvent engine) → Option (WatchedRegistry engine)
  | [] => some watched
  | event :: rest => (watched.step event).bind fun next => next.run rest

variable {watched : WatchedRegistry engine}

end WatchedRegistry

end Ferrum.Rule
