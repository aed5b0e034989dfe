import Ferrum.Runtime.ProcessExits

namespace Ferrum.Runtime

open List

variable {E : Type} {supervisor : ProcessSupervisor} {run run' : ProcessRun E}

/-- An exit counts as a cleanup failure after the primary cause, unless the supervisor aborted the task
itself. -/
def exitFails : Option ProcessRootEventPhase → ProcessRootExit E → Bool
  | some .active, _ => false
  | _, .completed => false
  | some .watchdogAbort, .joinFailed | none, .joinFailed => false
  | _, _ => true

/-- What the report must not pass over. -/
def Observation.fails : Observation E → Bool
  | .reapedPreparation root outcome => (ProcessRun.reapedFailure root outcome).isSome
  | .rollbackEnded root outcome | .cleanupEnded root outcome => (rootFailure root outcome).isSome
  | .exited _ within exit => exitFails within exit
  | .watchdog _ => true
  | .finalCleanup outcome => (ProcessRun.finalFailure none outcome).isSome
  | .owners same => !same
  | _ => false

/-- Whether the locals of a stage hold a cleanup failure. -/
def Stage.failing (cleanupFailure : Option (ProcessCleanupFailure E)) : Stage E → Bool
  | .preparing .. | .reaping .. | .activating .. | .handingOff .. | .cleaning .. | .selecting .. | .unreachable => false
  | .rollingPrepared _ _ failure (.finish prior) => prior.isSome || failure.isSome
  | .rollingPrepared _ _ failure (.handOff owned _) => owned.isSome || failure.isSome
  | .rollingUnstarted _ _ failure => cleanupFailure.isSome || failure.isSome
  | .draining .. | .finishing | .stopping | .finished => cleanupFailure.isSome
  | .reapingForced .. => true

section

variable {phase : Option ProcessRootEventPhase} {entry entry' : ActiveEntry} {active active' : List ActiveEntry}
  {event : RootEvent E} {seen : List (Observation E)} {failure : Option (ProcessCleanupFailure E)}

theorem Polls.fine (polls : Polls active seen) : seen.any Observation.fails = false := by
  rw [any_eq_false]
  intro item member
  obtain ⟨entry, -, rfl, -⟩ := polls item member
  exact Bool.false_ne_true

theorem recorded_exited (root : ProcessRootId) (exit : ProcessRootExit E) (forced : Bool) :
    (recordCleanupEvent (.exited root exit) failure).isSome =
      (failure.isSome || exitFails (some (if forced then .forced else .draining)) exit) := by
  cases failure <;> cases forced <;> cases exit <;> rfl

theorem recorded_forgiven (root : ProcessRootId) (exit : ProcessRootExit E)
    (aborted : phase = none ∨ phase = some .watchdogAbort) :
    (recordCleanupEvent (RootEvent.exited root exit).forgive failure).isSome = (failure.isSome || exitFails phase exit) := by
  rcases aborted with rfl | rfl <;> cases failure <;> cases exit <;> rfl

theorem recorded_cleaned (cleaned : Option (ProcessCleanupFailure E)) :
    (recordCleanupEvent (.cleaned cleaned) failure).isSome = (failure.isSome || cleaned.isSome) := by
  cases failure <;> cases cleaned <;> rfl

theorem Ready.fails_exited {root : ProcessRootId} {exit : ProcessRootExit E}
    (ready : Ready phase active active' (.exited root exit) seen) : seen.any Observation.fails = exitFails phase exit := by
  cases ready with
  | @exited before entry after polls _ task polled =>
    rw [any_append, polled.fine, Bool.false_or, any_cons]
    cases entry.cleanup <;> exact Bool.or_false _

theorem Ready.fails_cleaned {cleaned : Option (ProcessCleanupFailure E)}
    (ready : Ready phase active active' (.cleaned cleaned) seen) : seen.any Observation.fails = cleaned.isSome := by
  cases ready with
  | @cleaned before entry after polls outcome task guard polled =>
    rw [any_append, polled.fine, Bool.false_or]
    exact (Bool.false_or _).trans (Bool.or_false _)

end

open ProcessRun

theorem rollback_failing (root : ProcessRootId) (outcome : Caught (Except E Unit)) (failure : Option (ProcessCleanupFailure E)) :
    (if failure.isNone then rootFailure root outcome else failure).isSome = (failure.isSome || (rootFailure root outcome).isSome) := by
  cases failure <;> rfl

theorem merged_failing (first second : Option (ProcessCleanupFailure E)) :
    (if first.isNone then second else first).isSome = (first.isSome || second.isSome) ∧
      (if first.isSome then first else second).isSome = (first.isSome || second.isSome) := by
  cases first <;> exact ⟨rfl, rfl⟩

theorem unwind_fails (phased : run.Phased) (early : run.stage.early = true) {item : Observation E} (fine : item.fails = false)
    (cause : ProcessCause E) (stage : Stage E) :
    ((run.observe [item]).unwind cause stage).log.any Observation.fails = run.log.any Observation.fails := by
  rw [unwind_seen phased early, any_append, any_cons, fine]
  exact Bool.or_false _

theorem one_fails (log : List (Observation E)) (item : Observation E) :
    (log ++ [item]).any Observation.fails = (log.any Observation.fails || item.fails) := by
  rw [any_append, any_cons, any_nil, Bool.or_false]

theorem ProcessMove.failing (move : ProcessMove supervisor run run') (lined : run.stage.Lined supervisor.roots.length)
    (phased : run.Phased) (before : run.stage.failing run.cleanupFailure = run.log.any Observation.fails) :
    run'.stage.failing run'.cleanupFailure = run'.log.any Observation.fails := by
  cases move with
  | shutdownPreparing here | shutdownReaping here | preparationEnded here | shutdownActivating here | activationEnded here
  | takeCleanupPanicked here =>
    rw [here] at before
    rw [unwind_fails phased (by rw [here]; rfl) rfl, ← before]
    rfl
  | preparedRoot here | allPrepared here | activatedRoot here | constructedRun cleanup here | spawned here =>
    rw [here] at before
    refine .trans ?_ (one_fails _ _).symm
    rw [← before]
    rfl
  | reapedPreparation here | ownedCleanup outcome here =>
    rw [here] at before
    refine .trans ?_ (one_fails _ _).symm
    rw [← before]
    exact Bool.or_false _
  | allActivated here | unstartedEnded here | reapedForced here | drained here | noFinalCleanup here =>
    rw [here] at before
    refine .trans ?_ before
    rfl
  | runPanicked cleanup here =>
    rw [here] at before
    rw [unwind_fails phased (by rw [here]; rfl) rfl, ← before]
    cases cleanup <;> rfl
  | @rollback prepared root failure next here =>
    rw [here] at before
    refine .trans ?_ (one_fails _ _).symm
    rw [← before]
    cases next <;> exact (Bool.or_false _).symm
  | @rollbackEnded prepared root failure next outcome here =>
    rw [here] at before
    refine .trans ?_ (one_fails _ _).symm
    rw [← before]
    cases next with
    | finish prior => exact (congrArg (prior.isSome || ·) (rollback_failing root outcome failure)).trans (Bool.or_assoc ..).symm
    | handOff owned unstarted =>
      exact (congrArg (owned.isSome || ·) (rollback_failing root outcome failure)).trans (Bool.or_assoc ..).symm
  | @rolledBackAll failure prior here =>
    rw [here] at before
    refine .trans ?_ before
    exact (merged_failing prior failure).1
  | @rolledBackRest failure owned unstarted here =>
    rw [here] at before
    refine .trans ?_ before
    exact (Bool.or_false _).trans (merged_failing owned failure).2
  | abortUnstarted here =>
    rw [here] at before
    refine .trans ?_ (one_fails _ _).symm
    rw [← before]
    exact (Bool.or_false _).symm
  | @pollUnstarted unstarted entry failure entry' event seen answer here running polled =>
    rw [here] at before
    have whole := lined
    rw [here] at whole
    refine .trans ?_ any_append.symm
    rw [← before]
    refine .trans (congrArg (run.cleanupFailure.isSome || ·) ?_) (Bool.or_assoc ..).symm
    cases event with
    | none =>
      obtain ⟨-, polls⟩ := ActiveEntry.pollEvent_pending polled
      have all : Polls [entry] seen := fun item member => ⟨entry, mem_singleton_self _, polls item member⟩
      rw [all.fine]
      exact (Bool.or_false _).symm
    | some event =>
      rcases ActiveEntry.pollEvent_ready (whole _ rfl) polled with ⟨-, exit, rfl, rfl, -⟩ | ⟨-, -, outcome, rfl, rfl, -⟩
      · exact (recorded_forgiven entry.id exit (Or.inl rfl)).trans (congrArg (failure.isSome || ·) (Bool.or_false _).symm)
      · exact (recorded_cleaned _).trans (congrArg (failure.isSome || ·)
          ((Bool.false_or _).trans (Bool.or_false _)).symm)
  | @rolledBackUnstarted failure here =>
    rw [here] at before
    refine .trans ?_ before
    exact (merged_failing run.cleanupFailure failure).1
  | @shutdownSelecting active here =>
    rw [here] at before
    obtain ⟨quiet, -, failure⟩ := phased.early (by rw [here]; rfl)
    have kept := (@drain_log _ (run.observe [.shutdown]) quiet .externalShutdown active).2.2
    refine .trans ?_ (congrArg (List.any · Observation.fails)
      (@drain_seen _ run (run.observe [.shutdown]) quiet [.shutdown] rfl .externalShutdown active)).symm
    rw [any_append, ← before]
    exact congrArg Option.isSome (kept.trans failure)
  | selectPending answers here polled =>
    rw [here] at before
    refine .trans ?_ any_append.symm
    rw [← before, (pollNextRoot_pending polled).2.fine]
    rfl
  | @selectExited active active' root exit seen answers here polled =>
    rw [here] at before lined
    obtain ⟨quiet, -, failure⟩ := phased.early (by rw [here]; rfl)
    have ready := pollNextRoot_ready lined.whole polled
    have quiet' : (((run.observe seen).recordRootEvent .active false (.exited root exit)).push .fatal).phase = .active := quiet
    have log : (((run.observe seen).recordRootEvent .active false (.exited root exit)).push .fatal).log =
        run.log ++ (seen ++ [.entered .fatal]) := append_assoc ..
    have kept := (drain_log quiet' (.rootStopped root exit) active').2.2
    refine .trans ?_ (congrArg (List.any · Observation.fails) (drain_seen quiet' log (.rootStopped root exit) active')).symm
    rw [any_append, any_append, any_append, ready.fails_exited, ← before]
    exact congrArg Option.isSome (kept.trans failure)
  | selectCleaned answers here polled => exact absurd polled (lined.no_cleaned here)
  | drainPending answers here running polled =>
    rw [here] at before
    refine .trans ?_ any_append.symm
    rw [← before, (pollNextRoot_pending polled).2.fine]
    exact (Bool.or_false _).symm
  | @drainEvent active active' forced event seen answers here running polled =>
    rw [here] at before
    rw [here] at lined
    have ready := pollNextRoot_ready lined.2 polled
    refine .trans ?_ (congrArg (List.any · Observation.fails) (recordRootEvent_log ..)).symm
    refine .trans ?_ any_append.symm
    rw [← before]
    cases event with
    | exited root exit =>
      rw [ready.fails_exited]
      exact recorded_exited root exit forced
    | cleaned failure =>
      rw [ready.fails_cleaned]
      exact recorded_cleaned failure
  | @graceElapsed active active' seen answers here running polled =>
    rw [here] at before
    rw [advance_forced (phased.grace active here)]
    have log := (append_assoc (run.log ++ seen) [.entered .forced] [.phase .forced]).trans (append_assoc ..)
    refine .trans ?_ (congrArg (List.any · Observation.fails) log).symm
    rw [any_append, any_append, (pollNextRoot_pending polled).2.fine, ← before]
    exact (Bool.or_false _).symm
  | watchdogElapsed answers here running polled =>
    rw [here] at before
    refine .trans ?_ (one_fails _ _).symm
    exact (Bool.or_true _).symm
  | @reapPending active active' roots failure seen answers here running polled =>
    rw [here] at before
    refine .trans ?_ any_append.symm
    rw [← before]
    rfl
  | @reapEvent active active' roots failure event seen answers here running polled =>
    rw [here] at before
    refine .trans ?_ (congrArg (List.any · Observation.fails) (recordRootEvent_log ..)).symm
    refine .trans ?_ any_append.symm
    rw [← before]
    rfl
  | finalCleanup outcome here =>
    rw [here] at before
    refine .trans ?_ (one_fails _ _).symm
    rw [← before]
    cases outcome with
    | panicked => exact (Bool.or_true _).symm
    | returned result =>
      cases result with
      | ok => exact (Bool.or_false _).symm
      | error => exact (Bool.or_true _).symm
  | stopped stopped here =>
    rw [here] at before
    refine .trans ?_ (one_fails _ _).symm
    refine .trans ?_ (congrArg (· || _) (one_fails run.log (.entered .stopped)).symm)
    rw [← before]
    unfold ProcessRun.stop Observation.fails
    cases run.cleanupFailure <;> cases supervisor.baseline.hasSameActiveOwners stopped <;> rfl

theorem ProcessReach.failing (reach : ProcessReach supervisor run) :
    run.stage.failing run.cleanupFailure = run.log.any Observation.fails := by
  induction reach with
  | start => rfl
  | next reach move ih => exact move.failing reach.lined reach.phased ih

theorem passed_rank {before after : ProcessCancellationPhase} (grows : passed before <+: passed after) :
    before.rank ≤ after.rank := by
  have lengths := grows.length_le
  cases before <;> cases after <;> simp_all [passed, ProcessCancellationPhase.rank]

/-- The supervisor as a transaction over its roots, of one state of a run. Its log is the history. -/
structure ProcessRun.Transaction (supervisor : ProcessSupervisor) (run : ProcessRun E) : Prop where
  prepared : (run.log.filterMap Observation.prepared?).Nodup
  consumed : ∀ root ∈ run.log.filterMap Observation.prepared?,
    run.stage.held.count root + (run.log.filterMap Observation.consumed?).count root = 1
  rolledBack : (run.log.filterMap Observation.rolledBack?).Pairwise (· > ·)
  aborted : (run.log.filterMap Observation.aborted?).Pairwise (· > ·)
  phases : run.log.filterMap Observation.phase? = passed run.phase
  quiesced : Founded Observation.Quiesced run.log
  exitFirst : run.stage ≠ .unreachable
  joined : Founded Observation.Joined run.log
  rootEvents : run.timeline.rootEvents = run.log.filterMap Observation.rootEvent?
  exitsOnce : (run.timeline.rootEvents.map (·.root)).Nodup
  reapsOnce : (run.log.filterMap Observation.reaped?).Nodup
  ended : run.stage = .finished → .entered .active ∈ run.log →
    (run.timeline.rootEvents.map (·.root)).Perm (List.range supervisor.roots.length) ∧
      (run.log.filterMap Observation.reaped?).Perm (List.range supervisor.roots.length)
  cause : run.cause = (run.log.filterMap Observation.terminal?).head?
  reported : run.stage = .finished → run.cause ≠ none
  clean : run.stage = .finished → run.cleanupFailure = none → ∀ item ∈ run.log, item.fails = false
  forward : ∀ run', ProcessMove supervisor run run' →
    run.log <+: run'.log ∧ run.phase.rank ≤ run'.phase.rank ∧ (run.cause ≠ none → run'.cause = run.cause)

theorem ProcessReach.once (reach : ProcessReach supervisor run) :
    (run.timeline.rootEvents.map (·.root)).Nodup ∧ (run.log.filterMap Observation.reaped?).Nodup := by
  have exits := reach.exits
  have lined := reach.lined
  cases here : run.stage.active? with
  | some active =>
    obtain ⟨-, roots, reaped, -⟩ := exits.running active here
    have ids : active.map (·.id) = List.range supervisor.roots.length := by
      cases stage : run.stage <;> rw [stage] at here lined <;> cases here <;> exact lined.1
    have nodup : (active.map (·.id)).Nodup := ids ▸ nodup_range
    exact ⟨roots.nodup_iff.mpr (nodup.sublist (filter_sublist.map _)),
      reaped.nodup_iff.mpr (nodup.sublist (filter_sublist.map _))⟩
  | none =>
    cases late : run.stage.ending with
    | false =>
      obtain ⟨-, noEvents, noReaps⟩ := exits.startup here late
      rw [noEvents, noReaps]
      exact ⟨nodup_nil, nodup_nil⟩
    | true =>
      rcases exits.ended late with ⟨-, noEvents, noReaps⟩ | ⟨-, roots, reaped⟩
      · rw [noEvents, noReaps]
        exact ⟨nodup_nil, nodup_nil⟩
      · exact ⟨roots.nodup_iff.mpr nodup_range, reaped.nodup_iff.mpr nodup_range⟩

theorem ProcessReach.forward (reach : ProcessReach supervisor run) (move : ProcessMove supervisor run run') :
    run.log <+: run'.log ∧ run.phase.rank ≤ run'.phase.rank ∧ (run.cause ≠ none → run'.cause = run.cause) := by
  have phased := reach.phased
  have phased' := (reach.next move).phased
  have grows := move.log_grows
  obtain ⟨seen, log⟩ := grows
  refine ⟨⟨seen, log⟩, passed_rank ?_, fun ended => ?_⟩
  · rw [← phased.phases, ← phased'.phases, ← log, filterMap_append]
    exact prefix_append ..
  · rw [phased'.cause, ← log, filterMap_append, List.head?_append, ← phased.cause]
    cases cause : run.cause with
    | none => exact absurd cause ended
    | some cause => rfl

/-- The supervisor is a transaction exactly as long as no `take_run_cleanup` panicked. -/
theorem ProcessReach.transaction_iff (reach : ProcessReach supervisor run) :
    run.Transaction supervisor ↔ ∀ root, .abandoned root ∉ run.log := by
  have custody := reach.custody
  have phased := reach.phased
  have exits := reach.exits
  obtain ⟨known, -, prepared, -⟩ := custody.prepared
  have nodup : (run.log.filterMap Observation.prepared?).Nodup := prepared ▸ nodup_range
  have counts (root : ProcessRootId) (member : root ∈ run.log.filterMap Observation.prepared?) :
      run.stage.held.count root + ((run.log.filterMap Observation.consumed?).count root +
        (run.log.filterMap Observation.abandoned?).count root) = 1 := by
    rw [← count_append, ← count_append, ← custody.custody.count_eq]
    exact count_eq_one_of_mem nodup member
  refine ⟨fun transaction root abandoned => ?_, fun kept => ?_⟩
  · have found : root ∈ run.log.filterMap Observation.abandoned? := mem_filterMap.mpr ⟨_, abandoned, rfl⟩
    have member := custody.custody.mem_iff.mpr (mem_append_right _ (mem_append_right _ found))
    have whole := transaction.consumed root member
    have total := counts root member
    have positive := count_pos_iff.mpr found
    omega
  · have none : run.log.filterMap Observation.abandoned? = [] := by
      rw [filterMap_eq_nil_iff]
      intro item member
      cases item <;> first | rfl | exact absurd member (kept _)
    refine
      { prepared := nodup
        consumed := fun root member => ?_
        rolledBack := ?_
        aborted := ?_
        phases := phased.phases
        quiesced := phased.quiesced
        exitFirst := fun here => ?_
        joined := exits.joined
        rootEvents := exits.events
        exitsOnce := reach.once.1
        reapsOnce := reach.once.2
        ended := fun here entered => ?_
        cause := phased.cause
        reported := fun here => (phased.late (by rw [here]; rfl)).2
        clean := fun here clean => ?_
        forward := fun run' move => reach.forward move }
    · have total := counts root member
      rw [none, count_nil, Nat.add_zero] at total
      exact total
    · exact pairwise_reverse.mp (custody.rolledBack.sublist (sublist_append_right ..))
    · exact pairwise_reverse.mp (custody.aborted.sublist (sublist_append_right ..))
    · have lined := reach.lined
      rw [here] at lined
      exact lined
    · rcases exits.ended (by rw [here]; rfl) with ⟨notEntered, -, -⟩ | ⟨-, all⟩
      · exact absurd entered notEntered
      · exact all
    · have exact' := reach.failing
      rw [here, clean] at exact'
      intro item member
      exact Bool.eq_false_iff.mpr fun fails =>
        absurd (any_eq_false.mp exact'.symm item member) (not_not_intro fails)

/-- One root, no shared resources, and no owner left at the start. -/
def soleRoot : ProcessSupervisor :=
  ⟨[false], by decide, false, ⟨0, 0, 0, 0, 0, 0, 0, 0, 0, 0, 0, 0, 0, 0, 0, 0, 0, 0, 0, 0, 0, 0, 0⟩⟩

def soleAnswer : ProcessRootId → PollAnswer Nat := fun _ => ⟨some .completed, none⟩

/-- The sole root is prepared, activated and run, the process is shut down, and the run completes. -/
theorem soleRoot_transaction : ∃ run : ProcessRun Nat, ProcessReach soleRoot run ∧ run.stage = .finished ∧
    run.cleanupFailure = none ∧ run.Transaction soleRoot := by
  have prepared := (@ProcessReach.start Nat soleRoot).next (.preparedRoot rfl (by decide))
  have handing := ((prepared.next (.allPrepared rfl)).next (.activatedRoot rfl rfl)).next
    (@ProcessMove.allActivated Nat soleRoot _ [0] rfl)
  have running := (handing.next (.constructedRun false rfl)).next (.spawned rfl)
  have draining := (running.next (.shutdownSelecting rfl)).next (.drainEvent soleAnswer rfl rfl rfl)
  have finished := ((draining.next (.drained rfl rfl)).next (.noFinalCleanup rfl rfl)).next (.stopped soleRoot.baseline rfl)
  refine ⟨_, finished, rfl, rfl, finished.transaction_iff.mpr fun root abandoned => ?_⟩
  have found := mem_filterMap.mpr ⟨Observation.abandoned root, abandoned, (rfl : Observation.abandoned? _ = some root)⟩
  exact absurd found not_mem_nil

/-- The sole root is activated and its `take_run_cleanup` panics: no cleanup failure is reported, and the root was neither
rolled back nor run. -/
theorem soleRoot_abandoned : ∃ run : ProcessRun Nat, ProcessReach soleRoot run ∧ run.stage = .finished ∧
    run.cleanupFailure = none ∧ 0 ∈ run.log.filterMap Observation.prepared? ∧
      0 ∉ run.log.filterMap Observation.consumed? ∧ ¬ run.Transaction soleRoot := by
  have prepared := (@ProcessReach.start Nat soleRoot).next (.preparedRoot rfl (by decide))
  have handing := ((prepared.next (.allPrepared rfl)).next (.activatedRoot rfl rfl)).next
    (@ProcessMove.allActivated Nat soleRoot _ [0] rfl)
  have unwound := ((handing.next (.takeCleanupPanicked rfl)).next (.rolledBackRest rfl)).next (.rolledBackUnstarted rfl)
  have finished := (unwound.next (.noFinalCleanup rfl rfl)).next (.stopped soleRoot.baseline rfl)
  have known : 0 ∈ [(0 : ProcessRootId)] := mem_singleton_self _
  refine ⟨_, finished, rfl, rfl, known, not_mem_nil, fun transaction => ?_⟩
  exact absurd (transaction.consumed 0 known) (by decide)

end Ferrum.Runtime
