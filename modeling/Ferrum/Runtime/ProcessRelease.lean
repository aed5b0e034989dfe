import Ferrum.Runtime.ProcessTogether

namespace Ferrum.Runtime

open List

variable {E : Type} {supervisor : ProcessSupervisor} {run run' : ProcessRun E} {frame frame' : ProcessFrame E}

open ProcessRun

/-- What a root may still have under way. -/
inductive Obligation where
  | rollback (root : ProcessRootId)
  | run (root : ProcessRootId)
  | cleanup (root : ProcessRootId)

def Obligation.Fulfilled (log : List (Observation E)) : Obligation → Prop
  | .rollback root => ∃ outcome, .rollbackEnded root outcome ∈ log
  | .run root => root ∈ log.filterMap Observation.exited?
  | .cleanup root => ∃ outcome, .cleanupEnded root outcome ∈ log

theorem Obligation.Fulfilled.grows {log log' : List (Observation E)} {obligation : Obligation}
    (fulfilled : obligation.Fulfilled log) (grows : log <+: log') : obligation.Fulfilled log' := by
  obtain ⟨more, rfl⟩ := grows
  cases obligation with
  | rollback root | cleanup root => exact fulfilled.imp fun _ member => mem_append_left _ member
  | run root =>
    unfold Fulfilled
    rw [filterMap_append]
    exact mem_append_left _ fulfilled

def UnstartedEntry.Owes (entry : UnstartedEntry) : Obligation → Prop
  | .rollback _ => False
  | .run root => entry.id = root
  | .cleanup root => entry.id = root ∧ entry.cleanup = true

def ActiveEntry.Owes (entry : ActiveEntry) : Obligation → Prop
  | .rollback _ => False
  | .run root => entry.id = root ∧ entry.task = true
  | .cleanup root => entry.id = root ∧ entry.cleanup = true

def ActiveEntry.Tight (entry : ActiveEntry) : Prop := entry.guard = false → entry.cleanup = false

/-- What the locals of a stage still have under way. -/
def Stage.Owes (obligation : Obligation) : Stage E → Prop
  | .handingOff _ unstarted => ∃ entry ∈ unstarted, entry.Owes obligation
  | .cleaning root _ unstarted => obligation = .cleanup root ∨ ∃ entry ∈ unstarted, entry.Owes obligation
  | .rollingPrepared _ current _ (.finish _) => ∃ root, current = some root ∧ obligation = .rollback root
  | .rollingPrepared _ current _ (.handOff _ unstarted) =>
    (∃ root, current = some root ∧ obligation = .rollback root) ∨ ∃ entry ∈ unstarted, entry.Owes obligation
  | .rollingUnstarted unstarted current _ =>
    (∃ entry, current = some entry ∧ entry.Owes obligation) ∨ ∃ entry ∈ unstarted, entry.Owes obligation
  | .selecting active | .draining active _ | .reapingForced active _ _ => ∃ entry ∈ active, entry.Owes obligation
  | _ => False

/-- The entries with a task that a stage holds. -/
def Stage.entries : Stage E → List ActiveEntry
  | .selecting active | .draining active _ | .reapingForced active _ _ => active
  | .rollingUnstarted _ current _ => current.toList
  | _ => []

section

variable {phase : Option ProcessRootEventPhase} {entry entry' : ActiveEntry} {active active' : List ActiveEntry}
  {event : RootEvent E} {seen : List (Observation E)}

variable {obligation : Obligation}

theorem UnstartedEntry.spawn_owes {entry : UnstartedEntry} (owes : entry.Owes obligation) :
    entry.spawn.Owes obligation := by
  cases obligation with
  | rollback | cleanup => exact owes
  | run => exact ⟨owes, rfl⟩

theorem UnstartedEntry.spawn_tight (entry : UnstartedEntry) : entry.spawn.Tight := fun guard => absurd guard.symm Bool.false_ne_true

theorem ActiveEntry.released (whole : entry.Whole) (tight : entry.Tight) (ended : entry.isRunning = false) :
    ¬ entry.Owes obligation := by
  cases obligation with
  | rollback => exact fun owes => owes
  | run => exact fun owes => absurd (ended.symm.trans (whole.1 owes.2)) Bool.false_ne_true
  | cleanup => exact fun owes => absurd ((tight ended).symm.trans owes.2) Bool.false_ne_true

theorem ActiveEntry.pollEvent_owes {answer : PollAnswer E} {event : Option (RootEvent E)} (whole : entry.Whole)
    (polled : entry.pollEvent phase answer = (entry', event, seen)) (owes : entry.Owes obligation) :
    entry'.Owes obligation ∨ obligation.Fulfilled seen := by
  cases event with
  | none => exact Or.inl ((pollEvent_pending polled).1.symm ▸ owes)
  | some event =>
    rcases pollEvent_ready whole polled with ⟨task, exit, -, rfl, rfl⟩ | ⟨task, guard, outcome, -, rfl, rfl⟩
    · cases obligation with
      | rollback => exact False.elim owes
      | run root =>
        rw [← owes.1]
        exact Or.inr (mem_singleton_self _)
      | cleanup => exact Or.inl owes
    · cases obligation with
      | rollback => exact False.elim owes
      | run => exact absurd (task.symm.trans owes.2) Bool.false_ne_true
      | cleanup root =>
        rw [← owes.1]
        exact Or.inr ⟨outcome, by simp⟩

theorem ActiveEntry.pollEvent_tight {answer : PollAnswer E} {event : Option (RootEvent E)} (whole : entry.Whole)
    (tight : entry.Tight) (polled : entry.pollEvent phase answer = (entry', event, seen)) : entry'.Tight := by
  cases event with
  | none => exact (pollEvent_pending polled).1.symm ▸ tight
  | some event =>
    rcases pollEvent_ready whole polled with ⟨-, exit, -, -, rfl⟩ | ⟨-, -, outcome, -, -, rfl⟩
    · exact fun guard => guard
    · exact fun _ => rfl

theorem Ready.owes (ready : Ready phase active active' event seen) (owes : ∃ entry ∈ active, entry.Owes obligation) :
    (∃ entry ∈ active', entry.Owes obligation) ∨ obligation.Fulfilled seen := by
  obtain ⟨other, member, owes⟩ := owes
  have elsewhere {before after : List ActiveEntry} {entry entry' : ActiveEntry}
      (member : other ∈ before ++ entry :: after) (apart : other ≠ entry) : other ∈ before ++ entry' :: after := by
    rcases mem_append.mp member with inBefore | inRest
    · exact mem_append_left _ inBefore
    · exact mem_append_right _ (mem_cons_of_mem _ ((mem_cons.mp inRest).resolve_left apart))
  cases ready with
  | @exited before entry after polls exit task polled =>
    by_cases same : other = entry
    · subst same
      cases obligation with
      | rollback => exact False.elim owes
      | run root =>
        rw [← owes.1]
        refine Or.inr ?_
        unfold Obligation.Fulfilled
        rw [filterMap_append]
        exact mem_append_right _ mem_cons_self
      | cleanup => exact Or.inl ⟨_, mem_append_right _ mem_cons_self, owes⟩
    · exact Or.inl ⟨other, elsewhere member same, owes⟩
  | @cleaned before entry after polls outcome task guard polled =>
    by_cases same : other = entry
    · subst same
      cases obligation with
      | rollback => exact False.elim owes
      | run => exact absurd (task.symm.trans owes.2) Bool.false_ne_true
      | cleanup root =>
        rw [← owes.1]
        exact Or.inr ⟨outcome, mem_append_right _ (mem_cons_of_mem _ mem_cons_self)⟩
    · exact Or.inl ⟨other, elsewhere member same, owes⟩

theorem Ready.tight (ready : Ready phase active active' event seen) (tight : ∀ entry ∈ active, entry.Tight) :
    ∀ entry ∈ active', entry.Tight := by
  have replaced {before after : List ActiveEntry} {entry entry' : ActiveEntry}
      (tight : ∀ other ∈ before ++ entry :: after, other.Tight) (tightHere : entry'.Tight) :
      ∀ other ∈ before ++ entry' :: after, other.Tight := by
    intro other member
    rcases mem_append.mp member with inBefore | inRest
    · exact tight other (mem_append_left _ inBefore)
    · rcases mem_cons.mp inRest with rfl | inAfter
      · exact tightHere
      · exact tight other (mem_append_right _ (mem_cons_of_mem _ inAfter))
  cases ready with
  | exited => exact replaced tight id
  | cleaned => exact replaced tight fun _ => rfl

end

theorem ProcessMove.tight (move : ProcessMove supervisor run run') (lined : run.stage.Lined supervisor.roots.length)
    (tight : ∀ entry ∈ run.stage.entries, entry.Tight) : ∀ entry ∈ run'.stage.entries, entry.Tight := by
  have none {entry : ActiveEntry} (member : entry ∈ ([] : List ActiveEntry)) : entry.Tight := absurd member not_mem_nil
  cases move with
  | runPanicked cleanup => cases cleanup <;> exact fun _ => none
  | abortUnstarted =>
    intro entry member
    rw [mem_singleton.mp member]
    exact UnstartedEntry.spawn_tight _
  | pollUnstarted answer here running polled =>
    rw [here] at tight lined
    intro entry member
    rw [mem_singleton.mp member]
    exact ActiveEntry.pollEvent_tight (lined _ rfl) (tight _ (mem_singleton_self _)) polled
  | spawned here =>
    intro entry member
    obtain ⟨unstarted, -, rfl⟩ := mem_map.mp member
    exact UnstartedEntry.spawn_tight _
  | selectPending answers here polled | drainPending answers here running polled | graceElapsed answers here running polled
  | watchdogElapsed answers here running polled | reapPending answers here running polled =>
    rw [here] at tight
    exact (pollNextRoot_pending polled).1.symm ▸ tight
  | selectExited answers here polled =>
    rw [here] at tight lined
    exact (pollNextRoot_ready lined.whole polled).tight tight
  | drainEvent answers here running polled | reapEvent answers here running polled =>
    rw [here] at tight lined
    exact (pollNextRoot_ready lined.2 polled).tight tight
  | shutdownSelecting here | reapedForced here =>
    rw [here] at tight
    exact tight
  | shutdownPreparing | shutdownReaping | preparedRoot | preparationEnded | reapedPreparation | allPrepared
  | shutdownActivating | activatedRoot | activationEnded | allActivated | takeCleanupPanicked | constructedRun
  | ownedCleanup | rollback | rollbackEnded | rolledBackAll | rolledBackRest | unstartedEnded | rolledBackUnstarted
  | selectCleaned | drained | noFinalCleanup | finalCleanup | stopped =>
    exact fun _ => none

theorem ProcessReach.tight (reach : ProcessReach supervisor run) : ∀ entry ∈ run.stage.entries, entry.Tight := by
  induction reach with
  | start => exact fun _ member => absurd member not_mem_nil
  | next reach move ih => exact move.tight reach.lined ih

theorem ProcessMove.owes (move : ProcessMove supervisor run run') (lined : run.stage.Lined supervisor.roots.length)
    (tight : ∀ entry ∈ run.stage.entries, entry.Tight) {obligation : Obligation} (owes : run.stage.Owes obligation) :
    run'.stage.Owes obligation ∨ obligation.Fulfilled run'.log := by
  have fulfilled {seen : List (Observation E)} {log : List (Observation E)} (here : obligation.Fulfilled seen)
      (same : log = run.log ++ seen) : obligation.Fulfilled log := by
    rw [same]
    cases obligation with
    | rollback | cleanup => exact here.imp fun _ member => mem_append_right _ member
    | run root =>
      unfold Obligation.Fulfilled
      rw [filterMap_append]
      exact mem_append_right _ here
  have spawned {unstarted : List UnstartedEntry} (some : ∃ entry ∈ unstarted, entry.Owes obligation) :
      ∃ entry ∈ unstarted.map UnstartedEntry.spawn, entry.Owes obligation := by
    obtain ⟨entry, member, owed⟩ := some
    exact ⟨entry.spawn, mem_map_of_mem member, UnstartedEntry.spawn_owes owed⟩
  have ended {active : List ActiveEntry} (whole : ∀ entry ∈ active, entry.Whole) (tight : ∀ entry ∈ active, entry.Tight)
      (none : active.any ActiveEntry.isRunning = false) : ¬ ∃ entry ∈ active, entry.Owes obligation := by
    rintro ⟨entry, member, owed⟩
    exact ActiveEntry.released (whole entry member) (tight entry member)
      (Bool.eq_false_iff.mpr (any_eq_false.mp none entry member)) owed
  cases move with
  | shutdownPreparing here | shutdownReaping here | preparedRoot here | preparationEnded here | reapedPreparation here
  | allPrepared here | shutdownActivating here | activatedRoot here | activationEnded here | allActivated here
  | noFinalCleanup here | finalCleanup outcome here | stopped stopped here => exact absurd owes (by rw [here]; exact id)
  | takeCleanupPanicked here =>
    rw [here] at owes
    exact Or.inl (Or.inr owes)
  | runPanicked cleanup here =>
    rw [here] at owes
    cases cleanup <;> exact Or.inl (Or.inr owes)
  | constructedRun cleanup here =>
    rw [here] at owes
    obtain ⟨entry, member, owed⟩ := owes
    exact Or.inl ⟨entry, mem_append_left _ member, owed⟩
  | ownedCleanup outcome here =>
    rw [here] at owes
    rcases owes with rfl | later
    · exact Or.inr (fulfilled (⟨outcome, mem_singleton_self _⟩ :
        Obligation.Fulfilled [.cleanupEnded _ outcome] (.cleanup _)) rfl)
    · exact Or.inl (Or.inr later)
  | @rollback prepared root failure next here =>
    rw [here] at owes
    cases next with
    | finish =>
      obtain ⟨other, none, -⟩ := owes
      cases none
    | handOff =>
      rcases owes with ⟨other, none, -⟩ | later
      · cases none
      · exact Or.inl (Or.inr later)
  | @rollbackEnded prepared root failure next outcome here =>
    rw [here] at owes
    have complete : Obligation.Fulfilled [.rollbackEnded root outcome] (.rollback root) := ⟨outcome, mem_singleton_self _⟩
    cases next with
    | finish =>
      obtain ⟨other, same, rfl⟩ := owes
      cases same
      exact Or.inr (fulfilled complete rfl)
    | handOff =>
      rcases owes with ⟨other, same, rfl⟩ | later
      · cases same
        exact Or.inr (fulfilled complete rfl)
      · exact Or.inl (Or.inr later)
  | rolledBackAll here =>
    rw [here] at owes
    obtain ⟨other, none, -⟩ := owes
    cases none
  | rolledBackRest here =>
    rw [here] at owes
    rcases owes with ⟨other, none, -⟩ | later
    · cases none
    · exact Or.inl (Or.inr later)
  | @abortUnstarted unstarted entry failure here =>
    rw [here] at owes
    rcases owes with ⟨other, none, -⟩ | ⟨other, member, owed⟩
    · cases none
    · rcases mem_append.mp member with before | last
      · exact Or.inl (Or.inr ⟨other, before, owed⟩)
      · rw [mem_singleton.mp last] at owed
        exact Or.inl (Or.inl ⟨_, rfl, UnstartedEntry.spawn_owes owed⟩)
  | pollUnstarted answer here running polled =>
    rw [here] at owes lined
    rcases owes with ⟨other, same, owed⟩ | later
    · cases same
      rcases ActiveEntry.pollEvent_owes (lined _ rfl) polled owed with still | complete
      · exact Or.inl (Or.inl ⟨_, rfl, still⟩)
      · exact Or.inr (fulfilled complete rfl)
    · exact Or.inl (Or.inr later)
  | unstartedEnded here finished =>
    rw [here] at owes lined tight
    rcases owes with ⟨other, same, owed⟩ | later
    · cases same
      exact absurd owed (ActiveEntry.released (lined _ rfl) (tight _ (mem_singleton_self _)) finished)
    · exact Or.inl (Or.inr later)
  | rolledBackUnstarted here =>
    rw [here] at owes
    rcases owes with ⟨other, none, -⟩ | ⟨other, member, -⟩
    · cases none
    · exact absurd member not_mem_nil
  | spawned here =>
    rw [here] at owes
    exact Or.inl (spawned owes)
  | shutdownSelecting here | reapedForced here =>
    rw [here] at owes
    exact Or.inl owes
  | selectPending answers here polled | drainPending answers here running polled | graceElapsed answers here running polled
  | watchdogElapsed answers here running polled | reapPending answers here running polled =>
    rw [here] at owes
    exact Or.inl ((pollNextRoot_pending polled).1.symm ▸ owes)
  | @selectExited active active' root exit seen answers here polled =>
    rw [here] at owes lined
    rcases (pollNextRoot_ready lined.whole polled).owes owes with still | complete
    · exact Or.inl still
    · have toSeen := fulfilled complete (rfl : run.log ++ seen = run.log ++ seen)
      refine Or.inr (toSeen.grows ((prefix_append (run.log ++ seen) [.entered .fatal]).trans ?_))
      exact drain_grows (((run.observe seen).recordRootEvent .active false (.exited root exit)).push .fatal) _ _
  | selectCleaned answers here polled => exact absurd polled (lined.no_cleaned here)
  | drainEvent answers here running polled | reapEvent answers here running polled =>
    rw [here] at owes lined
    rcases (pollNextRoot_ready lined.2 polled).owes owes with still | complete
    · exact Or.inl still
    · exact Or.inr (fulfilled complete (recordRootEvent_log ..))
  | drained here none =>
    rw [here] at owes lined tight
    exact absurd owes (ended lined.2 tight none)

namespace Stage

/-- The stages at which the final cleanup is polled and the owners are compared. -/
def closing : Stage E → Bool
  | .finishing | .stopping => true
  | _ => false

/-- The preparation future that the frame holds at a stage. -/
def Pinned (count : Nat) (preparation cut : Option ProcessRootId) : Stage E → Prop
  | .preparing index _ => cut = none ∧ (preparation = none ∨ preparation = some index ∧ index < count)
  | .reaping index _ => cut = none ∧ preparation = some index
  | .finished => preparation = none
  | _ => preparation = cut

/-- The tasks spawned at a stage of the startup, in the order of the roots. -/
def Spawned (spawned : List ProcessRootId) : Stage E → Prop
  | .preparing .. | .reaping .. | .activating .. | .handingOff (_ :: _) _ => spawned = []
  | .handingOff [] unstarted => spawned = (unstarted.map (·.id)).take spawned.length
  | _ => True

end Stage

namespace ProcessFrame

/-- The rollback or the run of a prepared root is over. -/
def Ended (root : ProcessRootId) (log : List (Observation E)) : Prop :=
  (∃ outcome, .rollbackEnded root outcome ∈ log) ∨ .ran root true ∈ log ∨ root ∈ log.filterMap Observation.exited?

/-- No root holds anything any more. -/
structure Released (frame : ProcessFrame E) : Prop where
  preparation : frame.preparation = none
  tasks : frame.tasks = []
  ended : ∀ root ∈ frame.run.log.filterMap Observation.prepared?, Ended root frame.run.log
  cleanups : ∀ root ∈ frame.taken, ∃ outcome, .cleanupEnded root outcome ∈ frame.run.log

/-- The shared resources are cleaned up last, and a half-prepared root is released before any rollback. -/
def CleanedLast (frame : ProcessFrame E) : Prop :=
  (frame.run.stage.closing = true → frame.Released) ∧
    ∀ root, .rolledBack root ∈ frame.run.log → frame.preparation = none

/-- What was begun is under way or over, and a task lives from its spawn to its exit. -/
structure Accounted (count : Nat) (frame : ProcessFrame E) : Prop where
  rolledBack : ∀ root, .rolledBack root ∈ frame.run.log →
    frame.run.stage.Owes (.rollback root) ∨ Obligation.Fulfilled frame.run.log (.rollback root)
  ran : ∀ root, .ran root false ∈ frame.run.log →
    frame.run.stage.Owes (.run root) ∨ Obligation.Fulfilled frame.run.log (.run root)
  taken : ∀ root ∈ frame.taken,
    frame.run.stage.Owes (.cleanup root) ∨ Obligation.Fulfilled frame.run.log (.cleanup root)
  spawned : ∀ root ∈ frame.spawned,
    frame.run.stage.Owes (.run root) ∨ Obligation.Fulfilled frame.run.log (.run root)
  tasks : ∀ root ∈ frame.tasks, root ∈ frame.spawned
  joined : ∀ root ∈ frame.run.log.filterMap Observation.exited?, root ∈ frame.spawned ∧ root ∉ frame.tasks
  order : frame.run.stage.Spawned frame.spawned
  pinned : frame.run.stage.Pinned count frame.preparation frame.cut

end ProcessFrame

/-- The entries that begin a rollback or a run. -/
def Observation.begins : Observation E → Bool
  | .rolledBack _ | .ran _ false => true
  | _ => false

theorem ProcessMove.begins (move : ProcessMove supervisor run run') (lined : run.stage.Lined supervisor.roots.length)
    (phased : run.Phased) :
    (∀ root, .rolledBack root ∈ run'.log → .rolledBack root ∈ run.log ∨ run'.stage.Owes (.rollback root)) ∧
      ∀ root, .ran root false ∈ run'.log → .ran root false ∈ run.log ∨ run'.stage.Owes (.run root) := by
  have quiet {seen : List (Observation E)} (log : run'.log = run.log ++ seen) (idle : ∀ item ∈ seen, item.begins = false) :
      (∀ root, .rolledBack root ∈ run'.log → .rolledBack root ∈ run.log ∨ run'.stage.Owes (.rollback root)) ∧
        ∀ root, .ran root false ∈ run'.log → .ran root false ∈ run.log ∨ run'.stage.Owes (.run root) := by
    rw [log]
    refine ⟨fun root member => Or.inl ?_, fun root member => Or.inl ?_⟩
    · exact (mem_append.mp member).resolve_right fun last => absurd (idle _ last) (by simp [Observation.begins])
    · exact (mem_append.mp member).resolve_right fun last => absurd (idle _ last) (by simp [Observation.begins])
  have one {item : Observation E} (log : run'.log = run.log ++ [item]) (idle : item.begins = false) :=
    quiet log fun other member => by rw [mem_singleton.mp member]; exact idle
  have same (log : run'.log = run.log) :=
    quiet (log.trans (append_nil _).symm) fun _ member => absurd member not_mem_nil
  have unwinds {item : Observation E} (log : run'.log = run.log ++ [item, .phase .quiescing, .entered .rollback])
      (idle : item.begins = false) :=
    quiet log fun other member => by
      simp only [mem_cons, not_mem_nil, or_false] at member
      rcases member with rfl | rfl | rfl
      · exact idle
      · rfl
      · rfl
  have seenQuiet {item : Observation E} (seen : item.polled = true ∨ item.noted = true) : item.begins = false := by
    cases item <;> first | rfl | exact absurd seen (by simp [Observation.polled, Observation.noted])
  have sees := move.sees lined phased
  have early {stage : Stage E} (here : run.stage = stage) (isEarly : stage.early = true) : run.stage.early = true := here ▸ isEarly
  cases move with
  | shutdownPreparing here | shutdownReaping here | shutdownActivating here =>
      exact unwinds (unwind_seen phased (early here rfl) .shutdown .externalShutdown _) rfl
  | preparedRoot | reapedPreparation | allPrepared | activatedRoot | ownedCleanup | rollbackEnded | abortUnstarted | spawned
  | finalCleanup => exact one rfl rfl
  | preparationEnded here left ended =>
    exact unwinds (unwind_seen phased (early here rfl) (.preparation _ _) _ _) rfl
  | activationEnded here => exact unwinds (unwind_seen phased (early here rfl) (.activation _ _) _ _) rfl
  | allActivated | rolledBackAll | rolledBackRest | unstartedEnded | rolledBackUnstarted | reapedForced | drained
  | noFinalCleanup => exact same rfl
  | takeCleanupPanicked here => exact unwinds (unwind_seen phased (early here rfl) (.abandoned _) _ _) rfl
  | runPanicked cleanup here => exact unwinds (unwind_seen phased (early here rfl) (.ran _ true) _ _) rfl
  | @constructedRun root prepared unstarted cleanup here =>
    refine ⟨fun other member => Or.inl ?_, fun other member => ?_⟩
    · exact (mem_append.mp member).resolve_right fun last => by cases mem_singleton.mp last
    · rcases mem_append.mp member with before | last
      · exact Or.inl before
      · cases mem_singleton.mp last
        exact Or.inr ⟨⟨root, cleanup⟩, mem_append_right _ (mem_singleton_self _), rfl⟩
  | @rollback prepared root failure next here =>
    refine ⟨fun other member => ?_, fun other member => Or.inl ?_⟩
    · rcases mem_append.mp member with before | last
      · exact Or.inl before
      · cases mem_singleton.mp last
        cases next with
        | finish => exact Or.inr ⟨root, rfl, rfl⟩
        | handOff => exact Or.inr (Or.inl ⟨root, rfl, rfl⟩)
    · exact (mem_append.mp member).resolve_right fun last => by cases mem_singleton.mp last
  | pollUnstarted answer here running polled =>
    rw [here] at lined
    exact quiet rfl fun item member => seenQuiet (Or.inl (ActiveEntry.pollEvent_polled (lined _ rfl) polled item member))
  | shutdownSelecting here | selectPending answers here | selectExited answers here | drainPending answers here
  | drainEvent answers here | graceElapsed answers here | watchdogElapsed answers here | reapPending answers here
  | reapEvent answers here | stopped stopped here =>
    obtain ⟨seen, log, all⟩ := sees (by rw [here]; rfl)
    exact quiet log fun item member => seenQuiet (all item member)
  | selectCleaned answers here polled => exact absurd polled (lined.no_cleaned here)

theorem ProcessMove.spawnedOrder (move : ProcessMove supervisor run run') {spawned : List ProcessRootId}
    (order : run.stage.Spawned spawned) : run'.stage.Spawned spawned := by
  have handed {prepared : List ProcessRootId} (unstarted : List UnstartedEntry) (none : spawned = []) :
      (Stage.handingOff prepared unstarted : Stage E).Spawned spawned := by
    cases prepared with
    | nil => rw [none]; rfl
    | cons => exact none
  cases move with
  | shutdownReaping here | preparedRoot here | allPrepared here | activatedRoot here =>
    rw [here] at order
    exact order
  | allActivated here | constructedRun cleanup here =>
    rw [here] at order
    exact handed _ order
  | runPanicked cleanup => cases cleanup <;> trivial
  | _ => trivial

theorem ProcessMove.pinned (move : ProcessMove supervisor run run') (plain : run.stage.plain = true)
    {count : Nat} {preparation cut : Option ProcessRootId} (pinned : run.stage.Pinned count preparation cut) :
    run'.stage.Pinned count preparation cut := by
  cases move with
  | shutdownPreparing here | shutdownReaping here | preparedRoot here | preparationEnded here | reapedPreparation here
  | allPrepared here | takeCleanupPanicked here | runPanicked cleanup here | constructedRun cleanup here | spawned here
  | stopped stopped here =>
    rw [here] at plain
    exact absurd plain Bool.false_ne_true
  | shutdownActivating here | activatedRoot here | activationEnded here | allActivated here | ownedCleanup outcome here
  | rollback here | rollbackEnded outcome here | rolledBackAll here | rolledBackRest here | abortUnstarted here
  | pollUnstarted answer here | unstartedEnded here | rolledBackUnstarted here | shutdownSelecting here
  | selectPending answers here | selectExited answers here | selectCleaned answers here | drainPending answers here
  | drainEvent answers here | graceElapsed answers here | watchdogElapsed answers here | reapPending answers here
  | reapEvent answers here | reapedForced here | drained here | noFinalCleanup here | finalCleanup outcome here =>
    rw [here] at pinned
    exact pinned

namespace ProcessFrame

theorem Accounted.forward {count : Nat} (accounted : frame.Accounted count) (reach : ProcessReach supervisor frame.run)
    (move : ProcessMove supervisor frame.run frame'.run) (spawned : frame'.spawned = frame.spawned)
    (tasks : frame'.tasks = frame.tasks)
    (taken : ∀ root ∈ frame'.taken, root ∈ frame.taken ∨ frame'.run.stage.Owes (.cleanup root))
    (exits : ∀ root ∈ frame'.run.log.filterMap Observation.exited?,
      root ∈ frame.run.log.filterMap Observation.exited? ∨ root ∈ frame.spawned ∧ root ∉ frame.tasks)
    (pinned : frame'.run.stage.Pinned count frame'.preparation frame'.cut) : frame'.Accounted count := by
  have kept {obligation : Obligation}
      (known : frame.run.stage.Owes obligation ∨ obligation.Fulfilled frame.run.log) :
      frame'.run.stage.Owes obligation ∨ obligation.Fulfilled frame'.run.log := by
    rcases known with owed | fulfilled
    · exact move.owes reach.lined reach.tight owed
    · exact Or.inr (fulfilled.grows move.log_grows)
  obtain ⟨begunRollback, begunRun⟩ := move.begins reach.lined reach.phased
  refine ⟨fun root member => ?_, fun root member => ?_, fun root member => ?_, fun root member => ?_, fun root member => ?_,
    fun root member => ?_, ?_, pinned⟩
  · exact (begunRollback root member).elim (fun before => kept (accounted.rolledBack root before)) Or.inl
  · exact (begunRun root member).elim (fun before => kept (accounted.ran root before)) Or.inl
  · exact (taken root member).elim (fun before => kept (accounted.taken root before)) Or.inl
  · exact kept (accounted.spawned root (spawned ▸ member))
  · rw [tasks] at member
    exact spawned.symm ▸ accounted.tasks root member
  · rw [spawned, tasks]
    exact (exits root member).elim (accounted.joined root) id
  · rw [spawned]
    exact move.spawnedOrder accounted.order

theorem Accounted.spawn {count : Nat} (accounted : frame.Accounted count) {root : ProcessRootId} (new : root ∉ frame.spawned)
    (owed : frame.run.stage.Owes (.run root)) (order : frame.run.stage.Spawned (frame.spawned ++ [root])) :
    ({ frame with spawned := frame.spawned ++ [root], tasks := frame.tasks ++ [root] } : ProcessFrame E).Accounted count where
  rolledBack := accounted.rolledBack
  ran := accounted.ran
  taken := accounted.taken
  spawned := fun other member => by
    rcases mem_append.mp member with before | last
    · exact accounted.spawned other before
    · rw [mem_singleton.mp last]
      exact Or.inl owed
  tasks := fun other member => by
    rcases mem_append.mp member with before | last
    · exact mem_append_left _ (accounted.tasks other before)
    · exact mem_append_right _ last
  joined := fun other member => by
    obtain ⟨known, ended⟩ := accounted.joined other member
    refine ⟨mem_append_left _ known, fun alive => ?_⟩
    rcases mem_append.mp alive with before | last
    · exact ended before
    · exact new (mem_singleton.mp last ▸ known)
  order := order
  pinned := accounted.pinned

end ProcessFrame

open ProcessFrame

theorem FrameMove.accounted (move : FrameMove supervisor frame frame') (reach : ProcessReach supervisor frame.run)
    (accounted : frame.Accounted supervisor.roots.length) : frame'.Accounted supervisor.roots.length := by
  have noExit {seen : List (Observation E)} (log : frame'.run.log = frame.run.log ++ seen)
      (none : seen.filterMap Observation.exited? = []) :
      ∀ root ∈ frame'.run.log.filterMap Observation.exited?,
        root ∈ frame.run.log.filterMap Observation.exited? ∨ root ∈ frame.spawned ∧ root ∉ frame.tasks := by
    intro root member
    rw [log, filterMap_append, none, append_nil] at member
    exact Or.inl member
  have early {stage : Stage E} (here : frame.run.stage = stage) (isEarly : stage.early = true) : frame.run.stage.early = true :=
    here ▸ isEarly
  have takes {root : ProcessRootId} {cleanup : Bool} {stage : Stage E} (owed : cleanup = true → stage.Owes (.cleanup root)) :
      ∀ other ∈ frame.take root cleanup, other ∈ frame.taken ∨ stage.Owes (.cleanup other) := by
    intro other member
    cases cleanup with
    | false => exact Or.inl member
    | true =>
      rcases mem_append.mp member with before | last
      · exact Or.inl before
      · exact mem_singleton.mp last ▸ Or.inr (owed rfl)
  have pinned := accounted.pinned
  have order := accounted.order
  have lined := reach.lined
  cases move with
  | createPreparation here left none =>
    rw [here] at pinned
    refine ⟨accounted.rolledBack, accounted.ran, accounted.taken, accounted.spawned, accounted.tasks, accounted.joined,
      accounted.order, ?_⟩
    rw [here]
    exact ⟨pinned.1, Or.inr ⟨rfl, left⟩⟩
  | cutPreparation here pending left =>
    exact accounted.forward reach (.shutdownPreparing here left) rfl rfl (fun _ => Or.inl)
      (noExit (unwind_seen reach.phased (early here rfl) .shutdown .externalShutdown _) rfl) pending
  | cancelPreparation here pending left =>
    rw [here] at pinned
    exact accounted.forward reach (.shutdownReaping here left) rfl rfl (fun _ => Or.inl)
      (noExit (unwind_seen reach.phased (early here rfl) .shutdown .externalShutdown _) rfl) ⟨pinned.1, pending⟩
  | preparedRoot here left =>
    rw [here] at pinned
    exact accounted.forward reach (.preparedRoot here left) rfl rfl (fun _ => Or.inl) (noExit rfl rfl)
      ⟨pinned.1, Or.inl rfl⟩
  | preparationEnded here left ended =>
    rw [here] at pinned
    exact accounted.forward reach (.preparationEnded here left ended) rfl rfl (fun _ => Or.inl)
      (noExit (unwind_seen reach.phased (early here rfl) (.preparation _ _) _ _) rfl) pinned.1.symm
  | reapedPreparation here =>
    rw [here] at pinned
    exact accounted.forward reach (.reapedPreparation here) rfl rfl (fun _ => Or.inl) (noExit rfl rfl) pinned.1.symm
  | allPrepared here =>
    rw [here] at pinned
    have none := pinned.2.resolve_right fun pending => Nat.lt_irrefl _ pending.2
    exact accounted.forward reach (.allPrepared here) rfl rfl (fun _ => Or.inl) (noExit rfl rfl) (none.trans pinned.1.symm)
  | takeCleanupPanicked here =>
    rw [here] at pinned
    exact accounted.forward reach (.takeCleanupPanicked here) rfl rfl (fun _ => Or.inl)
      (noExit (unwind_seen reach.phased (early here rfl) (.abandoned _) _ _) rfl) pinned
  | runPanicked cleanup here =>
    rw [here] at pinned
    refine accounted.forward reach (.runPanicked cleanup here) rfl rfl (takes fun owned => ?_)
      (noExit (unwind_seen reach.phased (early here rfl) (.ran _ true) _ _) rfl) ?_
    · rw [owned]
      exact Or.inl rfl
    · cases cleanup <;> exact pinned
  | @constructedRun root prepared unstarted cleanup here =>
    rw [here] at pinned
    refine accounted.forward reach (.constructedRun cleanup here) rfl rfl (takes fun owned => ?_) (noExit rfl rfl) pinned
    exact ⟨⟨root, cleanup⟩, mem_append_right _ (mem_singleton_self _), rfl, owned⟩
  | @spawn unstarted entry here next =>
    rw [here] at order lined
    have owed : frame.run.stage.Owes (.run entry.id) := by
      rw [here]
      exact ⟨entry, mem_of_getElem? next, rfl⟩
    have at_next : (unstarted.map (·.id))[frame.spawned.length]? = some entry.id := by
      rw [List.getElem?_map, next]
      rfl
    have prefix_next : frame.spawned ++ [entry.id] = (unstarted.map (·.id)).take (frame.spawned.length + 1) := by
      rw [take_add_one, at_next, ← show frame.spawned = _ from order]
      rfl
    refine accounted.spawn (fun known => ?_) owed ?_
    · have nodup : (frame.spawned ++ [entry.id]).Nodup := by
        rw [prefix_next]
        refine .sublist (take_sublist _ _) ?_
        rw [(append_nil _).symm.trans lined]
        exact nodup_range
      exact (nodup_append.mp nodup).2.2 _ known _ (mem_singleton_self _) rfl
    · rw [here]
      refine prefix_next.trans ?_
      rw [length_append]
      rfl
  | spawned here =>
    rw [here] at pinned
    exact accounted.forward reach (.spawned here) rfl rfl (fun _ => Or.inl) (noExit rfl rfl) pinned
  | @spawnUnstarted unstarted entry failure here new =>
    refine accounted.spawn new ?_ ?_
    · rw [here]
      exact Or.inr ⟨entry, mem_append_right _ (mem_singleton_self _), rfl⟩
    · rw [here]
      trivial
  | abortUnstarted here =>
    rw [here] at pinned
    exact accounted.forward reach (.abortUnstarted here) rfl rfl (fun _ => Or.inl) (noExit rfl rfl) pinned
  | step move plain joined =>
    refine accounted.forward reach move rfl rfl (fun _ => Or.inl) (fun root member => ?_) (move.pinned plain pinned)
    obtain ⟨item, known, viewed⟩ := mem_filterMap.mp member
    cases item with
    | exited other phase exit =>
      cases viewed
      exact (joined root phase exit known).imp_left fun before => mem_filterMap.mpr ⟨_, before, rfl⟩
    | _ => cases viewed
  | stopped stopped here =>
    exact accounted.forward reach (.stopped stopped here) rfl rfl (fun _ => Or.inl)
      (noExit (append_assoc ..) rfl) rfl
  | pollTask =>
    exact ⟨accounted.rolledBack, accounted.ran, accounted.taken, accounted.spawned, accounted.tasks, accounted.joined,
      accounted.order, accounted.pinned⟩
  | endTask =>
    refine ⟨accounted.rolledBack, accounted.ran, accounted.taken, accounted.spawned, fun root member => ?_,
      fun root member => ?_, accounted.order, accounted.pinned⟩
    · exact accounted.tasks root (mem_filter.mp member).1
    · obtain ⟨known, ended⟩ := accounted.joined root member
      exact ⟨known, fun alive => ended (mem_filter.mp alive).1⟩

theorem FrameReach.accounted (reach : FrameReach supervisor frame) : frame.Accounted supervisor.roots.length := by
  induction reach with
  | start =>
    have nothing {property : ProcessRootId → Prop} : ∀ root ∈ ([] : List ProcessRootId), property root :=
      fun _ member => absurd member not_mem_nil
    exact ⟨fun _ member => absurd member not_mem_nil, fun _ member => absurd member not_mem_nil, nothing, nothing,
      nothing, nothing, rfl, rfl, Or.inl rfl⟩
  | next reach move ih => exact move.accounted reach.run ih

/-- Unless a shutdown cut off a preparation that is not reaped, or the take of an owned cleanup panicked,
no root holds anything when the shared resources are cleaned up. -/
theorem FrameReach.cleanedLast (reach : FrameReach supervisor frame) (uncut : frame.cut = none)
    (kept : ∀ root, .abandoned root ∉ frame.run.log) : frame.CleanedLast := by
  have accounted := reach.accounted
  have custody := reach.run.custody
  have pinned := accounted.pinned
  refine ⟨fun closing => ?_, fun root member => ?_⟩
  · have free : ∀ obligation : Obligation, ¬ frame.run.stage.Owes obligation := by
      cases here : frame.run.stage <;> rw [here] at closing <;> first | exact fun _ owed => owed | cases closing
    have held : frame.run.stage.held = [] := by
      cases here : frame.run.stage <;> rw [here] at closing <;> first | rfl | cases closing
    have exited : ∀ root, .ran root false ∈ frame.run.log → root ∈ frame.run.log.filterMap Observation.exited? :=
      fun root member => (accounted.ran root member).resolve_left (free _)
    refine ⟨?_, ?_, fun root member => ?_, fun root member => ?_⟩
    · have same : frame.preparation = frame.cut := by
        cases here : frame.run.stage <;> rw [here] at closing pinned <;> first | exact pinned | cases closing
      exact same.trans uncut
    · refine eq_nil_iff_forall_not_mem.mpr fun root alive => ?_
      have ended := (accounted.spawned root (accounted.tasks root alive)).resolve_left (free _)
      exact (accounted.joined root ended).2 alive
    · have taken := custody.custody.mem_iff.mp member
      rw [held, nil_append] at taken
      rcases mem_append.mp taken with consumed | abandoned
      · obtain ⟨item, known, viewed⟩ := mem_filterMap.mp consumed
        cases item with
        | rolledBack other =>
          cases viewed
          exact Or.inl ((accounted.rolledBack root known).resolve_left (free _))
        | ran other panicked =>
          cases viewed
          cases panicked with
          | false => exact Or.inr (Or.inr (exited root known))
          | true => exact Or.inr (Or.inl known)
        | _ => cases viewed
      · obtain ⟨item, known, viewed⟩ := mem_filterMap.mp abandoned
        cases item with
        | abandoned other => exact absurd known (kept other)
        | _ => cases viewed
    · exact (accounted.taken root member).resolve_left (free _)
  · have left : frame.run.stage.building = false := by
      refine Bool.eq_false_iff.mpr fun building => ?_
      have none := (custody.untouched building).1
      exact not_mem_nil (none ▸ mem_filterMap.mpr ⟨_, member, rfl⟩ : root ∈ ([] : List ProcessRootId))
    cases here : frame.run.stage <;> rw [here] at left pinned <;>
      first | exact pinned.trans uncut | exact pinned | cases left

/-- The construction of the first run of the pair panics, and the second root is rolled back. -/
theorem rootPair_cleanedLast : ∃ frame : ProcessFrame Nat, FrameReach rootPair frame ∧ frame.run.stage = .finishing ∧
    .rolledBack 1 ∈ frame.run.log ∧ frame.CleanedLast := by
  have panicked := activatedPair_reach.next (.runPanicked false rfl)
  have begun := panicked.next (.step (@ProcessMove.rollback Nat rootPair _ [] 1 none (.handOff none []) rfl) rfl
    fun root phase exit member => Or.inl ((mem_append.mp member).resolve_right (by simp)))
  have rolled := begun.next (.step (.rollbackEnded (.returned (.ok ())) rfl) rfl
    fun root phase exit member => Or.inl ((mem_append.mp member).resolve_right (by simp)))
  have rest := rolled.next (.step (.rolledBackRest rfl) rfl fun root phase exit member => Or.inl member)
  have ended := rest.next (.step (.rolledBackUnstarted rfl) rfl fun root phase exit member => Or.inl member)
  refine ⟨_, ended, rfl, ?_, ended.cleanedLast rfl fun root member => ?_⟩
  · exact mem_append_left _ (mem_append_right _ (mem_singleton_self _))
  · have viewed := mem_filterMap.mpr ⟨_, member, (rfl : Observation.abandoned? (.abandoned root) = some root)⟩
    exact absurd viewed not_mem_nil

/-- A shutdown cuts off the second root's preparation, which outlives the rollback of the first and the cleanup of the shared
resources. -/
theorem rootPair_pinned : ∃ frame : ProcessFrame Nat, FrameReach rootPair frame ∧ frame.run.stage = .finishing ∧
    .rolledBack 0 ∈ frame.run.log ∧ frame.preparation = some 1 ∧ ¬ frame.CleanedLast := by
  have first := ((@FrameReach.start Nat rootPair).next (.createPreparation rfl (by decide) rfl)).next
    (.preparedRoot rfl (by decide) rfl)
  have cut := (first.next (.createPreparation rfl (by decide) rfl)).next (.cutPreparation rfl rfl rfl)
  have begun := cut.next (.step (@ProcessMove.rollback Nat rootPair _ [] 0 none (.finish none) rfl) rfl
    fun root phase exit member => Or.inl ((mem_append.mp member).resolve_right (by simp)))
  have rolled := begun.next (.step (.rollbackEnded (.returned (.ok ())) rfl) rfl
    fun root phase exit member => Or.inl ((mem_append.mp member).resolve_right (by simp)))
  have ended := rolled.next (.step (.rolledBackAll rfl) rfl fun root phase exit member => Or.inl member)
  refine ⟨_, ended, rfl, ?_, rfl, fun last => ?_⟩
  · exact mem_append_left _ (mem_append_right _ (mem_singleton_self _))
  · have released := (last.1 rfl).preparation
    cases released

end Ferrum.Runtime
