import Ferrum.Lib.History
import Ferrum.Runtime.ProcessSupervisor

namespace Ferrum.Runtime

open Observation List

variable {E : Type} {supervisor : ProcessSupervisor} {run run' : ProcessRun E}

/-- The lists that a stage holds are parts of the roots in their order. -/
def Stage.Lined (count : Nat) : Stage E → Prop
  | .preparing index prepared => prepared = List.range index ∧ index ≤ count
  | .reaping index prepared => prepared = List.range index ∧ index < count
  | .activating _ prepared => prepared = List.range count
  | .handingOff prepared unstarted => unstarted.map (·.id) ++ prepared = List.range count
  | .cleaning root prepared unstarted => unstarted.map (·.id) ++ root :: prepared = List.range count
  | .rollingUnstarted _ current _ => ∀ entry, current = some entry → entry.Whole
  | .selecting active =>
    active.map (·.id) = List.range count ∧ ∀ entry ∈ active, entry.task = true ∧ entry.guard = true
  | .draining active _ | .reapingForced active _ _ =>
    active.map (·.id) = List.range count ∧ ∀ entry ∈ active, entry.Whole
  | .unreachable => False
  | .rollingPrepared .. | .finishing | .stopping | .finished => True

variable {entry : ActiveEntry} {count : Nat} {active : List ActiveEntry} {phase : Option ProcessRootEventPhase}
  {seen : List (Observation E)}

theorem ActiveEntry.whole_of_running (task : entry.task = true) (guard : entry.guard = true) :
    entry.Whole := ⟨fun _ => guard, fun joined => absurd (joined.symm.trans task) Bool.false_ne_true⟩

theorem Stage.Lined.whole (lined : (selecting active : Stage E).Lined count) : ∀ entry ∈ active, entry.Whole :=
  fun entry member => ActiveEntry.whole_of_running (lined.2 entry member).1 (lined.2 entry member).2

theorem Stage.Lined.no_cleaned {stage : Stage E} {active' : List ActiveEntry} {answers : ProcessRootId → PollAnswer E}
    {failure : Option (ProcessCleanupFailure E)} (lined : stage.Lined count) (here : stage = .selecting active) :
    pollNextRoot phase answers active ≠ (active', some (.cleaned failure), seen) := by
  intro polled
  rw [here] at lined
  obtain ⟨root, exit, same⟩ := (pollNextRoot_ready lined.whole polled).exits fun entry member => (lined.2 entry member).1
  cases same

theorem ActiveEntry.pollEvent_whole {entry' : ActiveEntry}
    {answer : PollAnswer E} {event : Option (RootEvent E)} (whole : entry.Whole)
    (polled : entry.pollEvent phase answer = (entry', event, seen)) : entry'.Whole := by
  cases event with
  | none => exact (pollEvent_pending polled).1 ▸ whole
  | some event =>
    rcases pollEvent_ready whole polled with ⟨-, exit, -, -, rfl⟩ | ⟨task, -, outcome, -, -, rfl⟩
    · exact ⟨fun running => absurd running Bool.false_ne_true, fun _ guard => guard⟩
    · exact ⟨fun running => absurd (task.symm.trans running) Bool.false_ne_true,
        fun _ guarded => absurd guarded Bool.false_ne_true⟩

theorem ProcessMove.lined (move : ProcessMove supervisor run run') (lined : run.stage.Lined supervisor.roots.length) :
    run'.stage.Lined supervisor.roots.length := by
  cases move with
  | shutdownPreparing => trivial
  | shutdownReaping here left =>
    rw [here] at lined
    exact ⟨lined.1, (List.getElem?_eq_some_iff.mp left).1⟩
  | preparedRoot here left =>
    rw [here] at lined
    exact ⟨by rw [lined.1, List.range_succ], left⟩
  | preparationEnded => trivial
  | reapedPreparation => trivial
  | allPrepared here =>
    rw [here] at lined
    exact lined.1
  | shutdownActivating => trivial
  | activatedRoot here | allActivated here | reapedForced here =>
    rw [here] at lined
    exact lined
  | activationEnded => trivial
  | takeCleanupPanicked => trivial
  | runPanicked cleanup here =>
    rw [here] at lined
    cases cleanup with
    | false => trivial
    | true => exact lined
  | constructedRun cleanup here =>
    rw [here] at lined
    refine Eq.trans ?_ lined
    rw [map_append, append_assoc]
    rfl
  | ownedCleanup => trivial
  | rollback => trivial
  | rollbackEnded => trivial
  | rolledBackAll => trivial
  | rolledBackRest | unstartedEnded => exact fun _ none => absurd none (by simp)
  | abortUnstarted =>
    intro entry spawned
    cases spawned
    exact ActiveEntry.whole_of_running rfl rfl
  | pollUnstarted answer here running polled =>
    rw [here] at lined
    intro entry same
    cases same
    exact ActiveEntry.pollEvent_whole (lined _ rfl) polled
  | rolledBackUnstarted => trivial
  | spawned here =>
    rw [here] at lined
    refine ⟨?_, fun entry member => ?_⟩
    · rw [map_map, ← lined, append_nil]
      rfl
    · obtain ⟨unstarted, -, rfl⟩ := mem_map.mp member
      exact ⟨rfl, rfl⟩
  | shutdownSelecting here =>
    rw [here] at lined
    exact ⟨lined.1, lined.whole⟩
  | selectPending answers here polled | drainPending answers here running polled | graceElapsed answers here running polled
  | watchdogElapsed answers here running polled | reapPending answers here running polled =>
    rw [here] at lined
    obtain ⟨rfl, -⟩ := pollNextRoot_pending polled
    exact lined
  | selectExited answers here polled =>
    rw [here] at lined
    have ready := pollNextRoot_ready lined.whole polled
    exact ⟨ready.ids.trans lined.1, ready.whole lined.whole⟩
  | selectCleaned answers here polled => exact absurd polled (lined.no_cleaned here)
  | drainEvent answers here running polled | reapEvent answers here running polled =>
    rw [here] at lined
    have ready := pollNextRoot_ready lined.2 polled
    exact ⟨ready.ids.trans lined.1, ready.whole lined.2⟩
  | drained => trivial
  | noFinalCleanup => trivial
  | finalCleanup => trivial
  | stopped => trivial

theorem ProcessReach.lined (reach : ProcessReach supervisor run) : run.stage.Lined supervisor.roots.length := by
  induction reach with
  | start => exact ⟨rfl, Nat.zero_le _⟩
  | next _ move ih => exact move.lined ih

namespace Observation

def phase? : Observation E → Option ProcessCancellationPhase
  | .phase reached => some reached
  | _ => none

/-- The events that end the transaction, each with the cause that it stands for. -/
def terminal? : Observation E → Option (ProcessCause E)
  | .shutdown => some .externalShutdown
  | .preparation root outcome => ProcessRun.preparationCause root outcome
  | .activation root outcome => ProcessRun.activationCause root outcome
  | .abandoned root => some (.activationPanicked root)
  | .ran root panicked => if panicked then some (.activationPanicked root) else none
  | .exited root _ exit => some (.rootStopped root exit)
  | _ => none

/-- The entries that belong to a rollback or to a drain. -/
def unwinds : Observation E → Bool
  | .entered .rollback | .entered .quiescing | .entered .draining | .entered .forced => true
  | .reapedPreparation .. | .rolledBack .. | .rollbackEnded .. | .aborted .. | .watchdog .. => true
  | _ => false

/-- What rolls back or drains comes after the phase left `Active`. -/
def Quiesced (entry : Observation E) (before : List (Observation E)) : Prop :=
  entry.unwinds = true → .phase .quiescing ∈ before

theorem Quiesced.grows (entry : Observation E) (before between : List (Observation E)) (quiesced : entry.Quiesced before) :
    entry.Quiesced (before ++ between) := fun unwinds => mem_append_left _ (quiesced unwinds)

end Observation

section

variable {phase : Option ProcessRootEventPhase} {entry entry' : ActiveEntry} {active active' : List ActiveEntry}
  {event : RootEvent E} {seen : List (Observation E)}

theorem Polls.quiet (polls : Polls active seen) :
    ∀ item ∈ seen, item.phase? = none ∧ item.terminal? = none ∧ item.unwinds = false := by
  intro item member
  obtain ⟨entry, -, rfl, -⟩ := polls item member
  exact ⟨rfl, rfl, rfl⟩

theorem polled_quiet {item : Observation E} (polled : item.polled = true) :
    item.phase? = none ∧ item.unwinds = false := by
  cases item <;> first | exact ⟨rfl, rfl⟩ | cases polled

theorem Ready.quiet (ready : Ready phase active active' event seen) :
    ∀ item ∈ seen, item.phase? = none ∧ item.unwinds = false :=
  fun item member => polled_quiet (ready.polled item member)

theorem Ready.terminal {root : ProcessRootId} {exit : ProcessRootExit E}
    (ready : Ready phase active active' (.exited root exit) seen) :
    seen.filterMap terminal? = [.rootStopped root exit] := by
  cases ready with
  | @exited before entry after polls _ task polled =>
    have none : polls.filterMap terminal? = [] :=
      filterMap_eq_nil_iff.mpr fun item member => (polled.quiet item member).2.1
    rw [filterMap_append, none]
    cases entry.cleanup <;> rfl

theorem ActiveEntry.pollEvent_quiet {answer : PollAnswer E} {event : Option (RootEvent E)} (whole : entry.Whole)
    (polled : entry.pollEvent phase answer = (entry', event, seen)) : ∀ item ∈ seen, item.phase? = none :=
  fun item member => (polled_quiet (pollEvent_polled whole polled item member)).1

end

/-- The stages before the first terminal event. -/
def Stage.early : Stage E → Bool
  | .preparing .. | .activating .. | .handingOff .. | .selecting .. | .unreachable => true
  | _ => false

namespace ProcessRun

/-- The log of the phases for each current one. -/
def passed : ProcessCancellationPhase → List ProcessCancellationPhase
  | .active => []
  | .quiescing => [.quiescing]
  | .forced => [.quiescing, .forced]

/-- The phase follows the log, leaves `Active` at the first terminal event and keeps that event as the
cause. -/
structure Phased (run : ProcessRun E) : Prop where
  phases : run.log.filterMap phase? = passed run.phase
  early : run.stage.early = true → run.phase = .active ∧ run.cause = none ∧ run.cleanupFailure = none
  late : run.stage.early = false → run.phase ≠ .active ∧ run.cause ≠ none
  grace : ∀ active, run.stage = .draining active false → run.phase = .quiescing
  cause : run.cause = (run.log.filterMap terminal?).head?
  quiesced : Founded Observation.Quiesced run.log

theorem Phased.mem_quiescing (phased : run.Phased) (left : run.phase ≠ .active) : .phase .quiescing ∈ run.log := by
  have found : ProcessCancellationPhase.quiescing ∈ run.log.filterMap phase? := by
    rw [phased.phases]
    cases here : run.phase with
    | active => exact absurd here left
    | quiescing => exact mem_singleton_self _
    | forced => exact mem_cons_self
  obtain ⟨entry, member, same⟩ := mem_filterMap.mp found
  cases entry <;> cases same
  exact member

variable {seen : List (Observation E)} {root : ProcessRootId}

theorem Phased.forward (phased : run.Phased) (before : run.stage.early = true)
    (after : run'.stage.early = true) (phase : run'.phase = run.phase) (cause : run'.cause = run.cause)
    (failure : run'.cleanupFailure = run.cleanupFailure) (log : run'.log = run.log ++ seen)
    (quiet : ∀ entry ∈ seen, entry.phase? = none ∧ entry.terminal? = none ∧ entry.unwinds = false) : run'.Phased := by
  have phases : seen.filterMap phase? = [] := filterMap_eq_nil_iff.mpr fun entry member => (quiet entry member).1
  have causes : seen.filterMap terminal? = [] :=
    filterMap_eq_nil_iff.mpr fun entry member => (quiet entry member).2.1
  refine ⟨?_, fun _ => ?_, fun late => ?_, fun active here => ?_, ?_, ?_⟩
  · rw [log, filterMap_append, phases, append_nil, phased.phases, phase]
  · rw [phase, cause, failure]
    exact phased.early before
  · rw [after] at late
    exact absurd late (by decide)
  · rw [here] at after
    exact absurd after Bool.false_ne_true
  · rw [log, filterMap_append, causes, append_nil, cause]
    exact phased.cause
  · rw [log]
    refine phased.quiesced.append Observation.Quiesced.grows fun entry member unwinds => ?_
    rw [(quiet entry member).2.2] at unwinds
    exact absurd unwinds (by decide)

theorem Phased.turn (phased : run.Phased) {seen rest : List (Observation E)} {cause : ProcessCause E}
    (before : run.stage.early = true) (after : run'.stage.early = false) (phase : run'.phase = .quiescing)
    (causeHere : run'.cause = some cause) (log : run'.log = run.log ++ (seen ++ .phase .quiescing :: rest))
    (terminal : seen.filterMap terminal? = [cause])
    (quiet : ∀ entry ∈ seen, entry.phase? = none ∧ entry.unwinds = false)
    (entered : ∀ entry ∈ rest, entry.phase? = none ∧ entry.terminal? = none) : run'.Phased := by
  obtain ⟨active, none, -⟩ := phased.early before
  have phases : seen.filterMap phase? = [] := filterMap_eq_nil_iff.mpr fun entry member => (quiet entry member).1
  have restPhases : rest.filterMap phase? = [] :=
    filterMap_eq_nil_iff.mpr fun entry member => (entered entry member).1
  have earlier : run.log.filterMap terminal? = [] := by
    rw [← List.head?_eq_none_iff, ← phased.cause, none]
  refine ⟨?_, fun early => ?_, fun _ => ?_, fun _ _ => phase, ?_, ?_⟩
  · rw [log, filterMap_append, filterMap_append, filterMap_cons, phased.phases, active, phases, phase,
      restPhases]
    rfl
  · rw [after] at early
    exact absurd early (by decide)
  · rw [phase, causeHere]
    exact ⟨by decide, Option.some_ne_none _⟩
  · rw [log, filterMap_append, filterMap_append, earlier, terminal, causeHere]
    rfl
  · rw [log, ← append_assoc, ← singleton_append, ← append_assoc]
    have toSeen : Founded Observation.Quiesced (run.log ++ seen) := by
      refine phased.quiesced.append Observation.Quiesced.grows fun entry member unwinds => ?_
      rw [(quiet entry member).2] at unwinds
      exact absurd unwinds (by decide)
    have toPhase : Founded Observation.Quiesced (run.log ++ seen ++ [.phase .quiescing]) := by
      refine toSeen.append Observation.Quiesced.grows fun entry member unwinds => ?_
      rw [mem_singleton.mp member] at unwinds
      exact absurd unwinds Bool.false_ne_true
    exact toPhase.append Observation.Quiesced.grows fun entry _ _ => by simp

theorem advance_quiescing (active : run.phase = .active) :
    run.advance .quiescing = { run with phase := .quiescing, log := run.log ++ [.phase .quiescing] } := by
  unfold advance
  rw [active]
  rfl

theorem advance_forced (quiescing : run.phase = .quiescing) {seen : List (Observation E)} :
    ((run.observe seen).push .forced).advance .forced =
      { (run.observe seen).push .forced with
        phase := .forced
        log := ((run.observe seen).push .forced).log ++ [.phase .forced] } := by
  unfold advance
  rw [show ((run.observe seen).push .forced).phase = .quiescing from quiescing]
  rfl

theorem unwind_log (active : run.phase = .active) (cause : ProcessCause E) (stage : Stage E) :
    (run.unwind cause stage).log = run.log ++ [.phase .quiescing, .entered .rollback] ∧
      (run.unwind cause stage).phase = .quiescing ∧ (run.unwind cause stage).cleanupFailure = run.cleanupFailure := by
  unfold unwind
  rw [advance_quiescing active]
  exact ⟨append_assoc .., rfl, rfl⟩

theorem drain_log (active : run.phase = .active) (cause : ProcessCause E) (entries : List ActiveEntry) :
    (run.drain cause entries).log = run.log ++ [.phase .quiescing, .entered .quiescing, .entered .draining] ∧
      (run.drain cause entries).phase = .quiescing ∧ (run.drain cause entries).cleanupFailure = run.cleanupFailure := by
  unfold drain
  rw [advance_quiescing active]
  refine ⟨?_, rfl, rfl⟩
  exact (append_assoc ..).trans (append_assoc ..)

theorem drain_seen (active : run'.phase = .active) {seen : List (Observation E)} (log : run'.log = run.log ++ seen)
    (cause : ProcessCause E) (entries : List ActiveEntry) :
    (run'.drain cause entries).log =
      run.log ++ (seen ++ [.phase .quiescing, .entered .quiescing, .entered .draining]) := by
  rw [(drain_log active cause entries).1, log]
  exact append_assoc ..

theorem grace_log (quiescing : run.phase = .quiescing) (seen : List (Observation E)) :
    (((run.observe seen).push .forced).advance .forced).log = run.log ++ (seen ++ [.entered .forced, .phase .forced]) := by
  rw [advance_forced quiescing]
  exact (append_assoc ..).trans (append_assoc ..)

theorem recordRootEvent_log (run : ProcessRun E) (seen : List (Observation E)) (phase : ProcessRootEventPhase) (aborts : Bool)
    (event : RootEvent E) : ((run.observe seen).recordRootEvent phase aborts event).log = run.log ++ seen := by
  cases event <;> rfl

variable {cause : ProcessCause E}

theorem Phased.unwind (phased : run.Phased) {stage : Stage E}
    (before : run.stage.early = true) (after : stage.early = false) (terminal : seen.filterMap terminal? = [cause])
    (quiet : ∀ entry ∈ seen, entry.phase? = none ∧ entry.unwinds = false) : ((run.observe seen).unwind cause stage).Phased := by
  have active : (run.observe seen).phase = .active := (phased.early before).1
  obtain ⟨log, phase, -⟩ := unwind_log active cause stage
  refine @Phased.turn _ run _ phased seen [.entered .rollback] cause before after phase rfl ?_ terminal quiet ?_
  · rw [log]
    exact append_assoc ..
  · intro entry member
    rw [mem_singleton.mp member]
    exact ⟨rfl, rfl⟩

theorem Phased.drain (phased : run.Phased) {seen : List (Observation E)} {cause : ProcessCause E}
    {entries : List ActiveEntry} {run' : ProcessRun E} (before : run.stage.early = true) (phase : run'.phase = run.phase)
    (log : run'.log = run.log ++ seen) (terminal : seen.filterMap terminal? = [cause])
    (quiet : ∀ entry ∈ seen, entry.phase? = none ∧ entry.unwinds = false) : (run'.drain cause entries).Phased := by
  have active : run'.phase = .active := phase.trans (phased.early before).1
  obtain ⟨logHere, phaseHere, -⟩ := drain_log active cause entries
  refine @Phased.turn _ run _ phased seen [.entered .quiescing, .entered .draining] cause before rfl phaseHere rfl ?_
    terminal quiet ?_
  · rw [logHere, log]
    exact append_assoc ..
  · intro entry member
    rcases mem_cons.mp member with rfl | last
    · exact ⟨rfl, rfl⟩
    · rw [mem_singleton.mp last]
      exact ⟨rfl, rfl⟩

theorem Phased.force (phased : run.Phased) {seen : List (Observation E)} (quiescing : run.phase = .quiescing)
    (after : run'.stage.early = false) (forced : ∀ active, run'.stage ≠ .draining active false)
    (phase : run'.phase = .forced) (cause : run'.cause = run.cause) (ended : run.cause ≠ none)
    (log : run'.log = run.log ++ (seen ++ [.entered .forced, .phase .forced]))
    (quiet : ∀ entry ∈ seen, entry.phase? = none) : run'.Phased := by
  have phases : seen.filterMap phase? = [] := filterMap_eq_nil_iff.mpr quiet
  refine ⟨?_, fun early => ?_, fun _ => ?_, fun active here => absurd here (forced active), ?_, ?_⟩
  · rw [log, filterMap_append, filterMap_append, phased.phases, quiescing, phases, phase]
    rfl
  · rw [after] at early
    exact absurd early (by decide)
  · rw [phase, cause]
    exact ⟨by decide, ended⟩
  · rw [log, filterMap_append, List.head?_append, cause, ← phased.cause]
    cases here : run.cause with
    | none => exact absurd here ended
    | some cause => rfl
  · rw [log]
    refine phased.quiesced.append Observation.Quiesced.grows fun entry _ _ => phased.mem_quiescing ?_
    rw [quiescing]
    decide

theorem Phased.onward (phased : run.Phased) {seen : List (Observation E)} (before : run.stage.early = false)
    (after : run'.stage.early = false) (phase : run'.phase = run.phase) (cause : run'.cause = run.cause)
    (log : run'.log = run.log ++ seen) (quiet : ∀ entry ∈ seen, entry.phase? = none)
    (grace : ∀ active, run'.stage = .draining active false → run.phase = .quiescing) : run'.Phased := by
  obtain ⟨left, ended⟩ := phased.late before
  have phases : seen.filterMap phase? = [] := filterMap_eq_nil_iff.mpr quiet
  refine ⟨?_, fun early => ?_, fun _ => ?_, fun active here => ?_, ?_, ?_⟩
  · rw [log, filterMap_append, phases, append_nil, phased.phases, phase]
  · rw [after] at early
    exact absurd early (by decide)
  · rw [phase, cause]
    exact ⟨left, ended⟩
  · rw [phase]
    exact grace active here
  · rw [log, filterMap_append, List.head?_append, cause, ← phased.cause]
    cases here : run.cause with
    | none => exact absurd here ended
    | some cause => rfl
  · rw [log]
    refine phased.quiesced.append Observation.Quiesced.grows fun entry _ _ => ?_
    exact phased.mem_quiescing left

theorem recordRootEvent_frame (run : ProcessRun E) (phase : ProcessRootEventPhase) (aborts : Bool) (event : RootEvent E) :
    (run.recordRootEvent phase aborts event).stage = run.stage ∧ (run.recordRootEvent phase aborts event).phase = run.phase ∧
      (run.recordRootEvent phase aborts event).cause = run.cause ∧
      (run.recordRootEvent phase aborts event).cleanupFailure = run.cleanupFailure ∧
      (run.recordRootEvent phase aborts event).log = run.log := by
  cases event <;> exact ⟨rfl, rfl, rfl, rfl, rfl⟩

theorem preparationCause_prepared {outcome : Caught (PrepareOutcome E)}
    (ended : preparationCause root outcome = some cause) :
    [preparation root outcome].filterMap terminal? = [cause] := by
  rw [filterMap_cons]
  simp only [terminal?, ended, filterMap_nil]

theorem activationCause_activated {outcome : Caught (Except E Unit)}
    (ended : activationCause root outcome = some cause) :
    [activation root outcome].filterMap terminal? = [cause] := by
  rw [filterMap_cons]
  simp only [terminal?, ended, filterMap_nil]

end ProcessRun

open ProcessRun

theorem quiet_one {item : Observation E} (phase : item.phase? = none) (unwinds : item.unwinds = false) :
    ∀ entry ∈ [item], entry.phase? = none ∧ entry.unwinds = false := by
  intro entry member
  rw [mem_singleton.mp member]
  exact ⟨phase, unwinds⟩

theorem ProcessMove.phased (move : ProcessMove supervisor run run') (lined : run.stage.Lined supervisor.roots.length)
    (phased : run.Phased) : run'.Phased := by
  have one {item : Observation E} (phase : item.phase? = none) : ∀ entry ∈ [item], entry.phase? = none := by
    intro entry member
    rw [mem_singleton.mp member]
    exact phase
  have oneQuiet {item : Observation E} (phase : item.phase? = none) (terminal : item.terminal? = none)
      (unwinds : item.unwinds = false) :
      ∀ entry ∈ [item], entry.phase? = none ∧ entry.terminal? = none ∧ entry.unwinds = false := by
    intro entry member
    rw [mem_singleton.mp member]
    exact ⟨phase, terminal, unwinds⟩
  have nothing {P : Observation E → Prop} : ∀ entry ∈ [], P entry := fun _ member => absurd member not_mem_nil
  have same : run.log = run.log ++ [] := (append_nil _).symm
  cases move with
  | shutdownPreparing here | shutdownReaping here | shutdownActivating here | takeCleanupPanicked here =>
      exact phased.unwind (by rw [here]; rfl) rfl rfl (quiet_one rfl rfl)
  | preparedRoot here | allPrepared here | activatedRoot here | constructedRun cleanup here | spawned here =>
      exact phased.forward (by rw [here]; rfl) rfl rfl rfl rfl rfl (oneQuiet rfl rfl rfl)
  | preparationEnded here left ended =>
    exact phased.unwind (by rw [here]; rfl) rfl (preparationCause_prepared ended) (quiet_one rfl rfl)
  | reapedPreparation here | ownedCleanup outcome here | rollbackEnded outcome here | abortUnstarted here
  | finalCleanup outcome here =>
    exact phased.onward (by rw [here]; rfl) rfl rfl rfl rfl (one rfl) fun _ stage => by cases stage
  | activationEnded here atPosition ended =>
    exact phased.unwind (by rw [here]; rfl) rfl (activationCause_activated ended) (quiet_one rfl rfl)
  | allActivated here => exact phased.forward (by rw [here]; rfl) rfl rfl rfl rfl same nothing
  | runPanicked cleanup here =>
    exact phased.unwind (by rw [here]; rfl) (by cases cleanup <;> rfl) rfl (quiet_one rfl rfl)
  | rollback here => exact phased.onward (by rw [here]; rfl) rfl rfl rfl rfl (one rfl) fun _ stage => by cases stage
  | rolledBackAll here | rolledBackRest here | unstartedEnded here | reapedForced here | drained here | noFinalCleanup here =>
      exact phased.onward (by rw [here]; rfl) rfl rfl rfl same nothing fun _ stage => by cases stage
  | pollUnstarted answer here running polled =>
    rw [here] at lined
    exact phased.onward (by rw [here]; rfl) rfl rfl rfl rfl (ActiveEntry.pollEvent_quiet (lined _ rfl) polled)
      fun _ stage => by cases stage
  | rolledBackUnstarted here =>
    exact phased.onward (by rw [here]; rfl) rfl rfl rfl same nothing fun _ stage => by cases stage
  | shutdownSelecting here =>
    exact phased.drain (by rw [here]; rfl) rfl rfl rfl (quiet_one rfl rfl)
  | selectPending answers here polled =>
    exact phased.forward (by rw [here]; rfl) rfl rfl rfl rfl rfl (pollNextRoot_pending polled).2.quiet
  | @selectExited active active' root exit seen answers here polled =>
    rw [here] at lined
    have ready := pollNextRoot_ready lined.whole polled
    refine @Phased.drain _ run phased (seen ++ [.entered .fatal]) _ _ _ (by rw [here]; rfl) rfl ?_ ?_ ?_
    · exact append_assoc ..
    · rw [filterMap_append, ready.terminal]
      rfl
    · intro entry member
      rcases mem_append.mp member with inSeen | last
      · exact ready.quiet entry inSeen
      · exact quiet_one rfl rfl entry last
  | selectCleaned answers here polled => exact absurd polled (lined.no_cleaned here)
  | @drainPending active active' forced seen answers here running polled =>
    refine @Phased.onward _ run _ phased seen (by rw [here]; rfl) rfl rfl rfl rfl
      (fun item member => ((pollNextRoot_pending polled).2.quiet item member).1) fun _ stage => ?_
    cases stage
    exact phased.grace active here
  | @drainEvent active active' forced event seen answers here running polled =>
    rw [here] at lined
    have ready := pollNextRoot_ready lined.2 polled
    obtain ⟨-, phase, cause, -, log⟩ := recordRootEvent_frame (run.observe seen) (if forced then .forced else .draining) false event
    refine @Phased.onward _ run _ phased seen (by rw [here]; rfl) rfl phase cause log
      (fun item member => (ready.quiet item member).1) fun _ stage => ?_
    cases stage
    exact phased.grace active here
  | @graceElapsed active active' seen answers here running polled =>
    have quiescing := phased.grace active here
    rw [advance_forced quiescing]
    refine @Phased.force _ run _ phased seen quiescing rfl (fun _ stage => by cases stage) rfl rfl
      (phased.late (by rw [here]; rfl)).2 ?_ fun item member => ((pollNextRoot_pending polled).2.quiet item member).1
    exact (append_assoc ..).trans (append_assoc ..)
  | @watchdogElapsed active active' seen answers here running polled =>
    have log := append_assoc run.log seen [.watchdog ((active'.filter ActiveEntry.isRunning).map (·.id))]
    refine @Phased.onward _ run _ phased _ (by rw [here]; rfl) rfl rfl rfl log (fun item member => ?_)
      fun _ stage => by cases stage
    rcases mem_append.mp member with inSeen | last
    · exact ((pollNextRoot_pending polled).2.quiet item inSeen).1
    · rw [mem_singleton.mp last]
      rfl
  | @reapPending active active' roots failure seen answers here running polled =>
    exact @Phased.onward _ run _ phased seen (by rw [here]; rfl) rfl rfl rfl rfl
      (fun item member => ((pollNextRoot_pending polled).2.quiet item member).1) fun _ stage => by cases stage
  | @reapEvent active active' roots failure event seen answers here running polled =>
    rw [here] at lined
    have ready := pollNextRoot_ready lined.2 polled
    obtain ⟨-, phase, cause, -, log⟩ := recordRootEvent_frame (run.observe seen) .watchdogAbort true event
    exact @Phased.onward _ run _ phased seen (by rw [here]; rfl) rfl phase cause log
      (fun item member => (ready.quiet item member).1) fun _ stage => by cases stage
  | stopped stopped here =>
    refine phased.onward (by rw [here]; rfl) rfl rfl rfl (append_assoc ..) (fun item member => ?_)
      fun _ stage => by cases stage
    rcases mem_cons.mp member with rfl | last
    · rfl
    · rw [mem_singleton.mp last]
      rfl

theorem ProcessReach.phased (reach : ProcessReach supervisor run) : run.Phased := by
  induction reach with
  | start =>
    refine ⟨rfl, fun _ => ⟨rfl, rfl, rfl⟩, fun late => ?_, fun active here => ?_, rfl, Founded.nil⟩
    · exact absurd late.symm Bool.false_ne_true
    · cases here
  | next reach move ih => exact move.phased reach.lined ih

end Ferrum.Runtime
