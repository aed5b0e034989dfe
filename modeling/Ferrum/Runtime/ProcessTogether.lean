import Ferrum.Runtime.ProcessExits

namespace Ferrum.Runtime

open List

variable {E : Type} {supervisor : ProcessSupervisor} {run run' : ProcessRun E} {count : Nat}

namespace Observation

def Panics (root : ProcessRootId) (log : List (Observation E)) : Prop := .abandoned root ∈ log ∨ .ran root true ∈ log

def panicked? : Observation E → Option ProcessRootId
  | .abandoned root | .ran root true => some root
  | _ => none

theorem panics_iff {root : ProcessRootId} {log : List (Observation E)} : Panics root log ↔ root ∈ log.filterMap panicked? := by
  refine ⟨fun panics => ?_, fun member => ?_⟩
  · rcases panics with abandoned | ran
    · exact mem_filterMap.mpr ⟨_, abandoned, rfl⟩
    · exact mem_filterMap.mpr ⟨_, ran, rfl⟩
  · obtain ⟨item, inLog, same⟩ := mem_filterMap.mp member
    unfold panicked? at same
    split at same
    · cases same
      exact .inl inLog
    · cases same
      exact .inr inLog
    · cases same

/-- What no startup has seen while it goes on. -/
def Upsets : Observation E → Prop
  | .shutdown | .abandoned _ | .ran _ true | .entered .rollback => True
  | _ => False

/-- The log up to the hand-off of all roots. -/
def startup (log : List (Observation E)) : List (Observation E) :=
  log.takeWhile fun
    | .entered .active => false
    | _ => true

end Observation

open Observation

/-- All roots were prepared, activated and constructed, and before the hand-off was complete neither a
shutdown nor a panic was seen. -/
structure AllStarted (count : Nat) (log : List (Observation E)) : Prop where
  prepared : ∀ root < count, root ∈ log.filterMap Observation.prepared?
  activated : ∀ root < count, .activation root (.returned (.ok ())) ∈ log
  constructed : ∀ root < count, .ran root false ∈ log
  sound : ∀ root, ¬ Panics root log
  undisturbed : .shutdown ∉ startup log
  kept : .entered .rollback ∉ log

/-- How far the startup is, for each stage. -/
def Stage.Started (count : Nat) (log : List (Observation E)) : Stage E → Prop
  | .preparing index _ =>
    (∀ item ∈ log, ¬ item.Upsets) ∧ ∀ root < index, root ∈ log.filterMap Observation.prepared?
  | .activating position _ =>
    (∀ item ∈ log, ¬ item.Upsets) ∧ (∀ root < count, root ∈ log.filterMap Observation.prepared?) ∧
      ∀ root < position, .activation root (.returned (.ok ())) ∈ log
  | .handingOff _ unstarted =>
    (∀ item ∈ log, ¬ item.Upsets) ∧ (∀ root < count, root ∈ log.filterMap Observation.prepared?) ∧
      (∀ root < count, .activation root (.returned (.ok ())) ∈ log) ∧ ∀ entry ∈ unstarted, .ran entry.id false ∈ log
  | .selecting _ | .draining .. | .reapingForced .. => AllStarted count log
  | .cleaning _ _ unstarted | .rollingPrepared _ _ _ (.handOff _ unstarted) =>
    unstarted ≠ [] → ∃ root, 0 < root ∧ Panics root log
  | .rollingUnstarted unstarted current _ => unstarted ≠ [] ∨ current ≠ none → ∃ root, 0 < root ∧ Panics root log
  | .finishing | .stopping | .finished => .entered .active ∈ log → AllStarted count log
  | .reaping .. | .rollingPrepared _ _ _ (.finish _) | .unreachable => True

variable {log : List (Observation E)}

variable {root : ProcessRootId} {more : List (Observation E)} {item : Observation E} {unstarted : List UnstartedEntry}

theorem Observation.Panics.grows (panics : Panics root log) :
    Panics root (log ++ more) := panics.imp (mem_append_left _) (mem_append_left _)

theorem startup_closed (closed : .entered .active ∈ log) : startup (log ++ more) = startup log := by
  unfold startup
  induction log with
  | nil => exact absurd closed not_mem_nil
  | cons item rest ih =>
    rw [cons_append, takeWhile_cons, takeWhile_cons]
    rcases mem_cons.mp closed with here | later
    · rw [← here]
      rfl
    · rw [ih later]

theorem startup_subset (member : item ∈ startup log) : item ∈ log :=
  (List.takeWhile_prefix _).subset member

theorem AllStarted.append {log more : List (Observation E)} (all : AllStarted count log) (closed : .entered .active ∈ log)
    (fine : ∀ item ∈ more, item ≠ .entered .rollback ∧ (∀ root, item ≠ .abandoned root) ∧ ∀ root, item ≠ .ran root true) :
    AllStarted count (log ++ more) where
  prepared := fun root bound => by
    rw [filterMap_append]
    exact mem_append_left _ (all.prepared root bound)
  activated := fun root bound => mem_append_left _ (all.activated root bound)
  constructed := fun root bound => mem_append_left _ (all.constructed root bound)
  sound := fun root panics => by
    rcases panics with abandoned | ran
    · exact (mem_append.mp abandoned).elim (fun here => all.sound root (.inl here))
        fun here => (fine _ here).2.1 root rfl
    · exact (mem_append.mp ran).elim (fun here => all.sound root (.inr here)) fun here => (fine _ here).2.2 root rfl
  undisturbed := by
    rw [startup_closed closed]
    exact all.undisturbed
  kept := fun member => (mem_append.mp member).elim all.kept fun here => (fine _ here).1 rfl

theorem seen_fine (seen : item.polled = true ∨ item.noted = true) :
    item ≠ .entered .rollback ∧ (∀ root, item ≠ .abandoned root) ∧ ∀ root, item ≠ .ran root true := by
  refine ⟨fun same => ?_, fun root same => ?_, fun root same => ?_⟩ <;>
  · rw [same] at seen
    exact absurd seen (by simp [Observation.polled, noted])

theorem allStarted_of_handedOff (ids : unstarted.map (·.id) = List.range count) (calm : ∀ item ∈ log, ¬ item.Upsets)
    (prepared : ∀ root < count, root ∈ log.filterMap Observation.prepared?)
    (activated : ∀ root < count, .activation root (.returned (.ok ())) ∈ log)
    (ran : ∀ entry ∈ unstarted, .ran entry.id false ∈ log) : AllStarted count log where
  prepared := prepared
  activated := activated
  constructed := fun root bound => by
    have inIds : root ∈ unstarted.map (·.id) := ids ▸ mem_range.mpr bound
    obtain ⟨entry, member, rfl⟩ := mem_map.mp inIds
    exact ran entry member
  sound := fun root panics => by
    rcases panics with abandoned | ran
    · exact calm _ abandoned trivial
    · exact calm _ ran trivial
  undisturbed := fun member => calm _ (startup_subset member) trivial
  kept := fun member => calm _ member trivial

section

variable {log : List (Observation E)} {item : Observation E}

theorem calm_append (calm : ∀ item ∈ log, ¬ item.Upsets) (quiet : ¬ item.Upsets) : ∀ entry ∈ log ++ [item], ¬ entry.Upsets := by
  intro entry member
  rcases mem_append.mp member with before | last
  · exact calm entry before
  · exact mem_singleton.mp last ▸ quiet

theorem known_append {view : Observation E → Option ProcessRootId}
    (known : ∀ root < count, root ∈ log.filterMap view) : ∀ root < count, root ∈ (log ++ [item]).filterMap view := by
  intro root bound
  rw [filterMap_append]
  exact mem_append_left _ (known root bound)

theorem all_append {claim : ProcessRootId → Observation E} (known : ∀ root < count, claim root ∈ log) :
    ∀ root < count, claim root ∈ log ++ [item] := fun root bound => mem_append_left _ (known root bound)

end

open ProcessRun

theorem panicked_late {prepared : List ProcessRootId}
    (ids : unstarted.map (·.id) ++ root :: prepared = List.range count) (some : unstarted ≠ []) : 0 < root := by
  cases unstarted with
  | nil => exact absurd rfl some
  | cons first rest =>
    have ordered : ((first :: rest).map (·.id) ++ root :: prepared).Pairwise (· < ·) := ids ▸ pairwise_lt_range
    rw [map_cons, cons_append, pairwise_cons] at ordered
    exact Nat.zero_lt_of_lt (ordered.1 root (mem_append_right _ mem_cons_self))

theorem ProcessMove.started (move : ProcessMove supervisor run run') (lined : run.stage.Lined supervisor.roots.length)
    (phased : run.Phased) (exits : run.Exits supervisor.roots.length)
    (started : run.stage.Started supervisor.roots.length run.log) : run'.stage.Started supervisor.roots.length run'.log := by
  have sees := move.sees lined phased
  have notHandedOff (idle : run.stage.active? = none) (early : run.stage.ending = false) : .entered .active ∉ run.log :=
    (exits.startup idle early).1
  have handedOff {active : List ActiveEntry} (here : run.stage.active? = some active) : .entered .active ∈ run.log :=
    (exits.running active here).1
  cases move with
  | shutdownPreparing => trivial
  | shutdownReaping => trivial
  | @preparedRoot index prepared here left =>
    rw [here] at started
    refine ⟨calm_append started.1 id, fun root bound => ?_⟩
    rcases Nat.lt_succ_iff_lt_or_eq.mp bound with below | rfl
    · exact known_append started.2 root below
    · exact mem_filterMap.mpr ⟨_, mem_append_right _ (mem_singleton_self _), rfl⟩
  | preparationEnded => trivial
  | reapedPreparation => trivial
  | allPrepared here =>
    rw [here] at started
    exact ⟨calm_append started.1 id, known_append started.2, fun root bound => absurd bound (Nat.not_lt_zero _)⟩
  | shutdownActivating => trivial
  | @activatedRoot position prepared root here atPosition =>
    rw [here] at started lined
    refine ⟨calm_append started.1 id, known_append started.2.1, fun other bound => ?_⟩
    rcases Nat.lt_succ_iff_lt_or_eq.mp bound with below | rfl
    · exact mem_append_left _ (started.2.2 other below)
    · have same : other = root := by
        rw [show prepared = List.range supervisor.roots.length from lined] at atPosition
        have found := List.getElem?_eq_some_iff.mp atPosition
        simpa using found.2
      rw [← same]
      exact mem_append_right _ (mem_singleton_self _)
  | activationEnded => trivial
  | @allActivated prepared here =>
    rw [here] at started lined
    refine ⟨started.1, started.2.1, fun root bound => started.2.2 root ?_, fun entry member => absurd member not_mem_nil⟩
    rw [show prepared = List.range supervisor.roots.length from lined, length_range]
    exact bound
  | @takeCleanupPanicked root prepared unstarted here =>
    have early : run.stage.early = true := by rw [here]; rfl
    rw [here] at lined
    intro some
    refine ⟨root, panicked_late lined some, .inl ?_⟩
    rw [unwind_seen phased early]
    exact mem_append_right _ mem_cons_self
  | @runPanicked root prepared unstarted cleanup here =>
    have early : run.stage.early = true := by rw [here]; rfl
    rw [here] at lined
    have late : unstarted ≠ [] → ∃ other, 0 < other ∧ Panics other ((run.observe [.ran root true]).unwind
        (.activationPanicked root) (if cleanup then .cleaning root prepared unstarted
          else .rollingPrepared prepared none none (.handOff none unstarted))).log := by
      intro some
      refine ⟨root, panicked_late lined some, .inr ?_⟩
      rw [unwind_seen phased early]
      exact mem_append_right _ mem_cons_self
    cases cleanup <;> exact late
  | @constructedRun root prepared unstarted cleanup here =>
    rw [here] at started
    refine ⟨calm_append started.1 id, known_append started.2.1, all_append started.2.2.1, fun entry member => ?_⟩
    rcases mem_append.mp member with before | last
    · exact mem_append_left _ (started.2.2.2 entry before)
    · rw [mem_singleton.mp last]
      exact mem_append_right _ (mem_singleton_self _)
  | ownedCleanup outcome here =>
    rw [here] at started
    intro some
    obtain ⟨root, late, panics⟩ := started some
    exact ⟨root, late, panics.grows⟩
  | @rollback prepared root failure next here | @rollbackEnded prepared root failure next outcome here =>
    rw [here] at started
    cases next with
    | finish => trivial
    | handOff =>
      intro some
      obtain ⟨root, late, panics⟩ := started some
      exact ⟨root, late, panics.grows⟩
  | rolledBackAll here | rolledBackUnstarted here =>
      exact fun closed => absurd closed (notHandedOff (by rw [here]; rfl) (by rw [here]; rfl))
  | rolledBackRest here =>
    rw [here] at started
    exact fun some => started (some.resolve_right fun ne => ne rfl)
  | @abortUnstarted unstarted entry failure here =>
    rw [here] at started
    intro
    obtain ⟨root, late, panics⟩ := started (.inl (by simp))
    exact ⟨root, late, panics.grows⟩
  | pollUnstarted answer here =>
    rw [here] at started
    intro
    obtain ⟨root, late, panics⟩ := started (.inr (by simp))
    exact ⟨root, late, panics.grows⟩
  | unstartedEnded here =>
    rw [here] at started
    exact fun _ => started (.inr (by simp))
  | @spawned unstarted here =>
    rw [here] at started lined
    have ids : unstarted.map (·.id) = List.range supervisor.roots.length := (append_nil _).symm.trans lined
    exact allStarted_of_handedOff ids (calm_append started.1 id) (known_append started.2.1) (all_append started.2.2.1)
      fun entry member => mem_append_left _ (started.2.2.2 entry member)
  | shutdownSelecting here | selectPending answers here | selectExited answers here | drainPending answers here
  | drainEvent answers here | graceElapsed answers here | watchdogElapsed answers here | reapPending answers here
  | reapEvent answers here =>
    have closed := handedOff (by rw [here]; rfl)
    obtain ⟨seen, log, all⟩ := sees (by rw [here]; rfl)
    rw [here] at started
    exact log ▸ AllStarted.append started closed fun item member => seen_fine (all item member)
  | selectCleaned => trivial
  | reapedForced here | noFinalCleanup here =>
    rw [here] at started
    exact started
  | drained here =>
    rw [here] at started
    exact fun _ => started
  | finalCleanup outcome here =>
    rw [here] at started
    intro closed
    have before : .entered .active ∈ run.log := by simpa [ProcessRun.observe] using closed
    refine AllStarted.append (started before) before fun item member => ?_
    rw [mem_singleton.mp member]
    exact ⟨by simp, by simp, by simp⟩
  | stopped stopped here =>
    obtain ⟨seen, log, all⟩ := sees (by rw [here]; rfl)
    rw [here] at started
    intro closed
    have before : .entered .active ∈ run.log := by simpa [ProcessRun.stop, ProcessRun.observe, ProcessRun.push] using closed
    exact log ▸ AllStarted.append (started before) before fun item member => seen_fine (all item member)

theorem ProcessReach.started (reach : ProcessReach supervisor run) :
    run.stage.Started supervisor.roots.length run.log := by
  induction reach with
  | start => exact ⟨fun _ member => absurd member not_mem_nil, fun _ bound => absurd bound (Nat.not_lt_zero _)⟩
  | next reach move ih => exact move.started reach.lined reach.phased reach.exits ih

end Ferrum.Runtime

namespace Ferrum.Runtime

open List

variable {E : Type}

/-- A run of the supervisor with the pinned preparation future, the spawned tasks that are not over, and the owned cleanups
taken; `cut` and `polls` are history. -/
structure ProcessFrame (E : Type) where
  run : ProcessRun E
  preparation : Option ProcessRootId
  spawned : List ProcessRootId
  tasks : List ProcessRootId
  taken : List ProcessRootId
  cut : Option ProcessRootId
  polls : List (ProcessRootId × List (Observation E))

namespace ProcessFrame

def start (supervisor : ProcessSupervisor) : ProcessFrame E := ⟨.start supervisor, none, [], [], [], none, []⟩

def take (frame : ProcessFrame E) (root : ProcessRootId) (cleanup : Bool) : List ProcessRootId :=
  if cleanup then frame.taken ++ [root] else frame.taken

end ProcessFrame

/-- The stages whose moves neither create nor drop what the frame holds besides the run. -/
def Stage.plain : Stage E → Bool
  | .activating .. | .cleaning .. | .rollingPrepared .. | .selecting .. | .draining .. | .reapingForced .. | .finishing => true
  | .rollingUnstarted unstarted current _ => current.isSome || unstarted.isEmpty
  | _ => false

/-- One step of the supervisor, or of a worker thread of the executor. -/
inductive FrameMove (supervisor : ProcessSupervisor) : ProcessFrame E → ProcessFrame E → Prop where
  | createPreparation {frame index prepared} (here : frame.run.stage = .preparing index prepared)
      (left : index < supervisor.roots.length) (none : frame.preparation = none) :
      FrameMove supervisor frame { frame with preparation := some index }
  -- the pinned future of the arm lives until the frame returns
  | cutPreparation {frame index prepared} (here : frame.run.stage = .preparing index prepared)
      (pending : frame.preparation = some index) (left : supervisor.roots[index]? = some false) :
      FrameMove supervisor frame
        { frame with
          run := (frame.run.observe [.shutdown]).unwind .externalShutdown (.rollingPrepared prepared none none (.finish none))
          cut := some index }
  | cancelPreparation {frame index prepared} (here : frame.run.stage = .preparing index prepared)
      (pending : frame.preparation = some index) (left : supervisor.roots[index]? = some true) :
      FrameMove supervisor frame
        { frame with run := (frame.run.observe [.shutdown]).unwind .externalShutdown (.reaping index prepared) }
  | preparedRoot {frame index prepared} (here : frame.run.stage = .preparing index prepared)
      (left : index < supervisor.roots.length) (pending : frame.preparation = some index) :
      FrameMove supervisor frame
        { frame with
          run := (frame.run.observe [.preparation index (.returned .prepared)]).goto (.preparing (index + 1) (prepared ++ [index]))
          preparation := none }
  | preparationEnded {frame index prepared outcome cause} (here : frame.run.stage = .preparing index prepared)
      (left : index < supervisor.roots.length) (ended : ProcessRun.preparationCause index outcome = some cause)
      (pending : frame.preparation = some index ∨ frame.preparation = none ∧ outcome = .panicked) :
      FrameMove supervisor frame
        { frame with
          run := (frame.run.observe [.preparation index outcome]).unwind cause
            (.rollingPrepared prepared none none (.finish none))
          preparation := none }
  | reapedPreparation {frame index prepared outcome} (here : frame.run.stage = .reaping index prepared) :
      FrameMove supervisor frame
        { frame with
          run := (frame.run.observe [.reapedPreparation index outcome]).goto
            (.rollingPrepared (prepared ++ ProcessRun.preparedLate index outcome) none none
              (.finish (ProcessRun.reapedFailure index outcome)))
          preparation := none }
  | allPrepared {frame prepared} (here : frame.run.stage = .preparing supervisor.roots.length prepared) :
      FrameMove supervisor frame { frame with run := (frame.run.push .prepared).goto (.activating 0 prepared) }
  | takeCleanupPanicked {frame root prepared unstarted} (here : frame.run.stage = .handingOff (root :: prepared) unstarted) :
      FrameMove supervisor frame
        { frame with
          run := (frame.run.observe [.abandoned root]).unwind (.activationPanicked root)
            (.rollingPrepared prepared none none (.handOff none unstarted)) }
  | runPanicked {frame root prepared unstarted} (cleanup : Bool)
      (here : frame.run.stage = .handingOff (root :: prepared) unstarted) :
      FrameMove supervisor frame
        { frame with
          run := (frame.run.observe [.ran root true]).unwind (.activationPanicked root)
            (if cleanup then .cleaning root prepared unstarted
              else .rollingPrepared prepared none none (.handOff none unstarted))
          taken := frame.take root cleanup }
  | constructedRun {frame root prepared unstarted} (cleanup : Bool)
      (here : frame.run.stage = .handingOff (root :: prepared) unstarted) :
      FrameMove supervisor frame
        { frame with
          run := (frame.run.observe [.ran root false]).goto (.handingOff prepared (unstarted ++ [⟨root, cleanup⟩]))
          taken := frame.take root cleanup }
  | spawn {frame unstarted entry} (here : frame.run.stage = .handingOff [] unstarted)
      (next : unstarted[frame.spawned.length]? = some entry) :
      FrameMove supervisor frame
        { frame with spawned := frame.spawned ++ [entry.id], tasks := frame.tasks ++ [entry.id] }
  | spawned {frame unstarted} (here : frame.run.stage = .handingOff [] unstarted)
      (all : frame.spawned.length = unstarted.length) :
      FrameMove supervisor frame
        { frame with run := (frame.run.push .active).goto (.selecting (unstarted.map UnstartedEntry.spawn)) }
  | spawnUnstarted {frame unstarted entry failure}
      (here : frame.run.stage = .rollingUnstarted (unstarted ++ [entry]) none failure) (new : entry.id ∉ frame.spawned) :
      FrameMove supervisor frame
        { frame with spawned := frame.spawned ++ [entry.id], tasks := frame.tasks ++ [entry.id] }
  | abortUnstarted {frame unstarted entry failure}
      (here : frame.run.stage = .rollingUnstarted (unstarted ++ [entry]) none failure) (spawned : entry.id ∈ frame.spawned) :
      FrameMove supervisor frame
        { frame with
          run := (frame.run.observe [.aborted entry.id]).goto (.rollingUnstarted unstarted (some entry.spawn) failure) }
  -- the join of a task is ready only after the executor dropped its future
  | step {frame run'} (move : ProcessMove supervisor frame.run run') (plain : frame.run.stage.plain = true)
      (joined : ∀ root phase exit, .exited root phase exit ∈ run'.log →
        .exited root phase exit ∈ frame.run.log ∨ root ∈ frame.spawned ∧ root ∉ frame.tasks) :
      FrameMove supervisor frame { frame with run := run' }
  | stopped {frame} (stopped : OwnerSnapshot) (here : frame.run.stage = .stopping) :
      FrameMove supervisor frame { frame with run := frame.run.stop supervisor stopped, preparation := none }
  -- a worker polls a spawned task, also between its spawn and the effect of its abort
  | pollTask {frame root} (alive : root ∈ frame.tasks) :
      FrameMove supervisor frame { frame with polls := frame.polls ++ [(root, frame.run.log)] }
  | endTask {frame root} (alive : root ∈ frame.tasks) :
      FrameMove supervisor frame { frame with tasks := frame.tasks.filter (· ≠ root) }

/-- The states of the scheduled runs of a supervisor. -/
inductive FrameReach (supervisor : ProcessSupervisor) : ProcessFrame E → Prop where
  | start : FrameReach supervisor (.start supervisor)
  | next {frame frame'} : FrameReach supervisor frame → FrameMove supervisor frame frame' → FrameReach supervisor frame'

variable {supervisor : ProcessSupervisor} {frame frame' : ProcessFrame E}

theorem FrameMove.runs (move : FrameMove supervisor frame frame') :
    frame'.run = frame.run ∨ ProcessMove supervisor frame.run frame'.run := by
  cases move with
  | createPreparation | spawn | spawnUnstarted | pollTask | endTask => exact .inl rfl
  | cutPreparation here pending left => exact .inr (.shutdownPreparing here left)
  | cancelPreparation here pending left => exact .inr (.shutdownReaping here left)
  | preparedRoot here left => exact .inr (.preparedRoot here left)
  | preparationEnded here left ended => exact .inr (.preparationEnded here left ended)
  | reapedPreparation here => exact .inr (.reapedPreparation here)
  | allPrepared here => exact .inr (.allPrepared here)
  | takeCleanupPanicked here => exact .inr (.takeCleanupPanicked here)
  | runPanicked cleanup here => exact .inr (.runPanicked cleanup here)
  | constructedRun cleanup here => exact .inr (.constructedRun cleanup here)
  | spawned here => exact .inr (.spawned here)
  | abortUnstarted here => exact .inr (.abortUnstarted here)
  | step move => exact .inr move
  | stopped stopped here => exact .inr (.stopped stopped here)

theorem FrameReach.run (reach : FrameReach supervisor frame) : ProcessReach supervisor frame.run := by
  induction reach with
  | start => exact .start
  | next _ move ih =>
    rcases move.runs with same | moved
    · exact same ▸ ih
    · exact ih.next moved

end Ferrum.Runtime

namespace Ferrum.Runtime

open List

variable {E : Type} {supervisor : ProcessSupervisor} {frame frame' : ProcessFrame E}

open Observation

namespace ProcessFrame

/-- Whatever was polled of a root's run future, all roots had been started before, and the startup does
not end in a rollback. -/
def Together (supervisor : ProcessSupervisor) (frame : ProcessFrame E) : Prop :=
  ∀ poll ∈ frame.polls, AllStarted supervisor.roots.length poll.2 ∧ .entered .rollback ∉ frame.run.log

def LatePanic (log : List (Observation E)) : Prop := ∃ root, 0 < root ∧ Panics root log

/-- A task is spawned at the hand-off of all roots, or after a late panic. -/
structure Scheduled (count : Nat) (frame : ProcessFrame E) : Prop where
  spawned : frame.spawned ≠ [] →
    (∃ unstarted, frame.run.stage = .handingOff [] unstarted) ∨ .entered .active ∈ frame.run.log ∨ LatePanic frame.run.log
  tasks : ∀ root ∈ frame.tasks, root ∈ frame.spawned
  polls : ∀ poll ∈ frame.polls, frame.spawned ≠ [] ∧ poll.2 <+: frame.run.log ∧
    (AllStarted count poll.2 ∨ LatePanic poll.2)

theorem LatePanic.grows {log log' : List (Observation E)} (late : LatePanic log) (grows : log <+: log') : LatePanic log' := by
  obtain ⟨root, positive, panics⟩ := late
  obtain ⟨more, rfl⟩ := grows
  exact ⟨root, positive, panics.grows⟩

end ProcessFrame

open ProcessFrame

theorem ProcessFrame.Scheduled.started (scheduled : frame.Scheduled supervisor.roots.length)
    (reach : ProcessReach supervisor frame.run) (some : frame.spawned ≠ []) :
    AllStarted supervisor.roots.length frame.run.log ∨ LatePanic frame.run.log := by
  have started := reach.started
  have lined := reach.lined
  rcases scheduled.spawned some with ⟨unstarted, here⟩ | closed | late
  · rw [here] at started lined
    exact .inl (allStarted_of_handedOff ((append_nil _).symm.trans lined) started.1 started.2.1 started.2.2.1
      started.2.2.2)
  · refine .inl ?_
    cases active : frame.run.stage.active? with
    | some entries =>
      cases here : frame.run.stage <;> rw [here] at active started <;> cases active <;> exact started
    | none =>
      cases ending : frame.run.stage.ending with
      | false => exact absurd closed (reach.exits.startup active ending).1
      | true => cases here : frame.run.stage <;> rw [here] at ending started <;> cases ending <;> exact started closed
  · exact .inr late

theorem ProcessFrame.Scheduled.forward (scheduled : frame.Scheduled supervisor.roots.length)
    (grows : frame.run.log <+: frame'.run.log) (spawned : frame'.spawned = frame.spawned)
    (tasks : ∀ root ∈ frame'.tasks, root ∈ frame.tasks) (polls : frame'.polls = frame.polls)
    (stage : ∀ unstarted, frame.run.stage = .handingOff [] unstarted →
      frame'.run.stage = .handingOff [] unstarted ∨ .entered .active ∈ frame'.run.log) :
    frame'.Scheduled supervisor.roots.length where
  spawned := fun some => by
    rw [spawned] at some
    rcases scheduled.spawned some with ⟨unstarted, here⟩ | closed | late
    · exact (stage unstarted here).imp (fun same => ⟨unstarted, same⟩) .inl
    · exact .inr (.inl (grows.subset closed))
    · exact .inr (.inr (late.grows grows))
  tasks := fun root member => spawned ▸ scheduled.tasks root (tasks root member)
  polls := fun poll member => by
    rw [polls] at member
    obtain ⟨some, before, known⟩ := scheduled.polls poll member
    exact ⟨spawned ▸ some, before.trans grows, known⟩

theorem ProcessFrame.Scheduled.spawn (scheduled : frame.Scheduled supervisor.roots.length) {root : ProcessRootId}
    (run : frame'.run = frame.run) (spawned : frame'.spawned = frame.spawned ++ [root])
    (tasks : frame'.tasks = frame.tasks ++ [root]) (polls : frame'.polls = frame.polls)
    (here : (∃ unstarted, frame.run.stage = .handingOff [] unstarted) ∨ LatePanic frame.run.log) :
    frame'.Scheduled supervisor.roots.length where
  spawned := fun _ => by
    rw [run]
    exact here.imp_right .inr
  tasks := fun other member => by
    rw [tasks] at member
    rw [spawned]
    rcases mem_append.mp member with before | last
    · exact mem_append_left _ (scheduled.tasks other before)
    · exact mem_append_right _ last
  polls := fun poll member => by
    rw [polls] at member
    obtain ⟨some, before, known⟩ := scheduled.polls poll member
    refine ⟨?_, run.symm ▸ before, known⟩
    rw [spawned]
    simp

theorem FrameMove.scheduled (move : FrameMove supervisor frame frame') (reach : ProcessReach supervisor frame.run)
    (scheduled : frame.Scheduled supervisor.roots.length) : frame'.Scheduled supervisor.roots.length := by
  have grows : frame.run.log <+: frame'.run.log := by
    rcases move.runs with same | moved
    · exact same ▸ prefix_rfl
    · exact moved.log_grows
  have started := reach.started
  have elsewhere {stage : Stage E} (here : frame.run.stage = stage) (other : ∀ unstarted, stage ≠ .handingOff [] unstarted)
      (unstarted : List UnstartedEntry) (same : frame.run.stage = .handingOff [] unstarted) :
      frame'.run.stage = .handingOff [] unstarted ∨ .entered .active ∈ frame'.run.log :=
    absurd (here.symm.trans same) (other unstarted)
  cases move with
  | createPreparation => exact scheduled.forward grows rfl (fun _ => id) rfl fun _ => .inl
  | cutPreparation here | cancelPreparation here | preparedRoot here | preparationEnded here | reapedPreparation here
  | allPrepared here | takeCleanupPanicked here | runPanicked cleanup here | constructedRun cleanup here
  | abortUnstarted here | stopped stopped here => exact scheduled.forward grows rfl (fun _ => id) rfl (elsewhere here (by simp))
  | spawn here => exact scheduled.spawn rfl rfl rfl rfl (.inl ⟨_, here⟩)
  | spawned here =>
    exact scheduled.forward grows rfl (fun _ => id) rfl fun _ _ => .inr (mem_append_right _ (mem_singleton_self _))
  | spawnUnstarted here =>
    rw [here] at started
    exact scheduled.spawn rfl rfl rfl rfl (.inr (started (.inl (by simp))))
  | step move plain =>
    refine scheduled.forward grows rfl (fun _ => id) rfl (elsewhere rfl fun unstarted same => ?_)
    rw [same] at plain
    exact absurd plain Bool.false_ne_true
  | @pollTask root alive =>
    have some : frame.spawned ≠ [] := ne_nil_of_mem (scheduled.tasks root alive)
    refine ⟨scheduled.spawned, scheduled.tasks, fun poll member => ?_⟩
    rcases mem_append.mp member with before | last
    · exact scheduled.polls poll before
    · rw [mem_singleton.mp last]
      exact ⟨some, prefix_rfl, scheduled.started reach some⟩
  | endTask => exact scheduled.forward grows rfl (fun root member => (mem_filter.mp member).1) rfl fun _ => .inl

theorem FrameReach.scheduled (reach : FrameReach supervisor frame) : frame.Scheduled supervisor.roots.length := by
  induction reach with
  | start =>
    exact ⟨fun some => absurd rfl some, fun _ member => absurd member not_mem_nil,
      fun _ member => absurd member not_mem_nil⟩
  | next reach move ih => exact move.scheduled reach.run ih

/-- As long as no construction after the first one panics, the roots start all together or not at all. -/
theorem FrameReach.together (reach : FrameReach supervisor frame) (first : ∀ root, Panics root frame.run.log → root = 0) :
    frame.Together supervisor := by
  have early {log : List (Observation E)} (before : log <+: frame.run.log) : ¬ LatePanic log := by
    intro late
    obtain ⟨root, positive, panics⟩ := late.grows before
    exact Nat.ne_of_gt positive (first root panics)
  intro poll member
  obtain ⟨some, before, known⟩ := reach.scheduled.polls poll member
  refine ⟨known.resolve_right (early before), ?_⟩
  exact ((reach.scheduled.started reach.run some).resolve_right (early prefix_rfl)).kept

/-- Two roots, no shared resources, and no owner left at the start. -/
def rootPair : ProcessSupervisor :=
  ⟨[false, false], by decide, false, ⟨0, 0, 0, 0, 0, 0, 0, 0, 0, 0, 0, 0, 0, 0, 0, 0, 0, 0, 0, 0, 0, 0, 0⟩⟩

/-- Both roots of the pair are prepared and activated. -/
def activatedPair : ProcessFrame Nat :=
  { ProcessFrame.start rootPair with
    run :=
      { ProcessRun.start rootPair with
        stage := .handingOff [0, 1] []
        timeline := (ProcessTimeline.new 2).push .prepared
        log := [.preparation 0 (.returned .prepared), .preparation 1 (.returned .prepared), .entered .prepared,
          .activation 0 (.returned (.ok ())), .activation 1 (.returned (.ok ()))] } }

theorem activatedPair_reach : FrameReach rootPair activatedPair := by
  have first := ((@FrameReach.start Nat rootPair).next (.createPreparation rfl (by decide) rfl)).next
    (.preparedRoot rfl (by decide) rfl)
  have second := (first.next (.createPreparation rfl (by decide) rfl)).next (.preparedRoot rfl (by decide) rfl)
  have one := (second.next (.allPrepared rfl)).next (.step (.activatedRoot rfl rfl) rfl
    fun root phase exit member => .inl ((mem_append.mp member).resolve_right (by simp)))
  have two := one.next (.step (.activatedRoot rfl rfl) rfl
    fun root phase exit member => .inl ((mem_append.mp member).resolve_right (by simp)))
  exact two.next (.step (@ProcessMove.allActivated Nat rootPair _ [0, 1] rfl) rfl
    fun root phase exit member => .inl member)

/-- Both roots are constructed and spawned, and a worker polls the first one. -/
theorem rootPair_together : ∃ frame : ProcessFrame Nat, FrameReach rootPair frame ∧ frame.polls.map (·.1) = [0] ∧
    frame.Together rootPair := by
  have constructed := (activatedPair_reach.next (.constructedRun false rfl)).next (.constructedRun false rfl)
  have spawned := (constructed.next (.spawn rfl rfl)).next (.spawn rfl rfl)
  have polled := spawned.next (.pollTask (mem_cons_self : 0 ∈ [0, 1]))
  refine ⟨_, polled, rfl, polled.together fun root panics => ?_⟩
  exact absurd (panics_iff.mp panics) not_mem_nil

/-- The second root's run panics while it is constructed; the undo spawns the first one's task to abort it, and a worker polls
it in between. -/
theorem rootPair_polled : ∃ frame : ProcessFrame Nat, FrameReach rootPair frame ∧ frame.polls.map (·.1) = [0] ∧
    .entered .rollback ∈ frame.run.log ∧ ¬ frame.Together rootPair := by
  have panicked := (activatedPair_reach.next (.constructedRun false rfl)).next (.runPanicked false rfl)
  have rolled := panicked.next (.step (.rolledBackRest rfl) rfl fun root phase exit member => .inl member)
  have spawned := rolled.next (@FrameMove.spawnUnstarted Nat rootPair _ [] ⟨0, false⟩ none rfl not_mem_nil)
  have polled := spawned.next (.pollTask (mem_singleton_self 0))
  refine ⟨_, polled, rfl, mem_append_right _ (mem_singleton_self _), fun together => ?_⟩
  exact (together _ (mem_singleton_self _)).2 (mem_append_right _ (mem_singleton_self _))

end Ferrum.Runtime
