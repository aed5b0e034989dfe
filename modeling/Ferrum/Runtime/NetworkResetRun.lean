import Ferrum.Runtime.NetworkResetStep

namespace Ferrum.Runtime

open Option List Ferrum.Net

namespace Coordinator

variable {view : SnapshotArc → NetworkSnapshot} {limits : NetworkResetLimits} {world : Coordinator} {driver : Driver}

section Driver

theorem publishPlan_done {current snapshot : SnapshotArc} (done : publishPlan view current snapshot = .done) :
    (view current).generation = (view snapshot).generation := by
  unfold publishPlan at done
  split at done
  · simp at done
  · rename_i equal
    exact (compare_eq_iff_eq.mp equal).symm
  · simp at done

theorem publishIfCurrent_ok {current next published : SnapshotArc} {expected : Nat}
    (ok : publishIfCurrent view current expected next = .ok published) :
    published = next ∧ (view current).generation < (view next).generation := by
  unfold publishIfCurrent at ok
  split at ok
  · simp at ok
  · split at ok
    · simp at ok
    · cases ok
      exact ⟨rfl, by omega⟩

variable {target : PendingReset} {stage : AttemptStage} {next : Coordinator}

theorem Invariant.publish (invariant : world.Invariant view) (here : world.driver = some driver)
    (at_ : driver.stage = .attempting target stage)
    (newer : (view world.published).generation < (view target.snapshot).generation)
    (hooks : List NetworkResetHookStage) (acknowledged : Prop) :
    Advance view world ({ world with published := target.snapshot }.atStage driver (.attempting target (.running hooks)))
      acknowledged := by
  have active := invariant.active_of_attempting here at_
  refine ⟨?_, newer.le, ?_⟩
  · exact {
      opened := fun opened => absurd opened (invariant.not_open_of_active active)
      held := invariant.held
      rebuild := invariant.rebuild
      attempt := active
      ordered := invariant.ordered
      owners := fun owner member => (invariant.owners owner member).trans newer.le
      read := by
        intro submission held
        refine .inr ?_
        simp [Coordinator.atStage, active]
      stage := by
        intro other goal attempt same running
        cases same
        cases running
        rfl }
  · intro reset member
    refine .inl ⟨reset, ?_, .refl reset⟩
    rw [@targets_atStage { world with published := target.snapshot } driver here _ _ (by rw [at_]; rfl)]
    exact member

theorem Invariant.attemptUnlocked (invariant : world.Invariant view) (here : world.driver = some driver)
    (at_ : driver.stage = .attempting target stage) {event : HookEvent}
    (run : world.attemptUnlocked view driver target event stage = some next) (acknowledged : Prop) :
    Advance view world next acknowledged := by
  have holds := invariant.stage driver target stage here at_
  unfold Coordinator.attemptUnlocked at run
  split at run
  · cases run
    refine invariant.advance_attempt here at_ ?_ acknowledged
    exact holds
  · rename_i kinds id senders
    cases run
    have sent := invariant.sendCancellation id (signalOf view target)
    have advance : Advance view (world.sendCancellation id (signalOf view target))
        ((world.sendCancellation id (signalOf view target)).atStage driver (.attempting target (.sending kinds senders)))
        acknowledged := by
      refine sent.advance_attempt here at_ ?_ acknowledged
      have kept := sent.stage driver target _ here at_
      exact kept
    exact ⟨advance.invariant, advance.published, advance.kept⟩
  · split at run
    · rename_i done
      cases run
      refine invariant.advance_attempt here at_ ?_ acknowledged
      exact (publishPlan_done done)
    · cases run
      refine invariant.advance_attempt here at_ ?_ acknowledged
      exact trivial
    · cases run
      refine invariant.advance_attempt here at_ ?_ acknowledged
      exact trivial
  · split at run
    · rename_i published ok
      cases run
      obtain ⟨rfl, newer⟩ := publishIfCurrent_ok ok
      exact invariant.publish here at_ newer _ acknowledged
    · cases run
      refine invariant.advance_attempt here at_ ?_ acknowledged
      exact trivial
  · cases run
    refine invariant.advance_attempt here at_ ?_ acknowledged
    exact ⟨fun _ _ _ => mem_ownerResetOrder _, fun _ => holds⟩
  · split at run
    · cases run
      refine invariant.advance_attempt here at_ ?_ acknowledged
      exact holds
    · cases run
      refine invariant.advance_attempt here at_ ?_ acknowledged
      exact trivial
    · cases run
      refine invariant.advance_attempt here at_ ?_ acknowledged
      exact trivial
  · simp at run

theorem staleKinds_of_none {kind : NetworkRuntimeOwnerKind} {kinds : List NetworkRuntimeOwnerKind}
    (stale : StaleKinds view world.state.runtimeOwners target (kind :: kinds))
    (gone : world.staleOwners kind (signalOf view target) = []) :
    StaleKinds view world.state.runtimeOwners target kinds := by
  intro owner member isStale
  rcases mem_cons.mp (stale owner member isStale) with same | later
  · have found : owner.1 ∈ world.staleOwners kind (signalOf view target) :=
      mem_map_of_mem (mem_filter.mpr ⟨member, by simp [same, isStale]⟩)
    rw [gone] at found
    simp at found
  · exact later

theorem Invariant.attemptLocked (invariant : world.Invariant view) (here : world.driver = some driver)
    (at_ : driver.stage = .attempting target stage)
    (free : world.submission = none) (run : world.attemptLocked view driver target stage = some next)
    (acknowledged : Prop) : Advance view world next acknowledged := by
  have holds := invariant.stage driver target stage here at_
  unfold Coordinator.attemptLocked at run
  split at run
  · cases run
    refine invariant.advance_attempt here at_ ?_ acknowledged
    exact holds
  · cases run
    refine invariant.advance_attempt here at_ ?_ acknowledged
    exact holds
  · simp at run
  · split at run
    · rename_i gone
      cases run
      refine invariant.advance_attempt here at_ ?_ acknowledged
      exact ⟨staleKinds_of_none holds.1 gone, holds.2⟩
    · simp at run
  · cases run
    refine invariant.advance_attempt here at_ ?_ acknowledged
    exact trivial
  · split at run
    · cases run
      exact invariant.holdRebuild here at_ free _ acknowledged
    · rename_i ordinary
      cases run
      exact invariant.finishReset here at_ ordinary free acknowledged
  · cases run
    exact invariant.restoreTarget here at_ free _ acknowledged
  · simp at run

theorem Invariant.driveStep (invariant : world.Invariant view) (here : world.driver = some driver) {event : HookEvent}
    (run : world.driveStep view driver event = some next) (acknowledged : Prop) :
    Advance view world next acknowledged := by
  have unlocked : ∀ {outcome : Option Coordinator}, (if world.submission.isSome then none else outcome) = some next →
      world.submission = none ∧ outcome = some next := by
    intro outcome locked
    split at locked
    · simp at locked
    · rename_i free
      exact ⟨by simpa using free, locked⟩
  unfold Coordinator.driveStep at run
  split at run
  · rename_i target stage at_
    split at run
    · rename_i later ran
      cases run
      exact invariant.attemptUnlocked here at_ ran acknowledged
    · obtain ⟨free, ran⟩ := unlocked run
      exact invariant.attemptLocked here at_ free ran acknowledged
  · rename_i at_
    obtain ⟨-, ran⟩ := unlocked run
    cases ran
    exact invariant.checkRebuild here at_ acknowledged
  · rename_i at_
    obtain ⟨free, ran⟩ := unlocked run
    cases ran
    exact invariant.takePending here at_ free acknowledged
  · rename_i at_
    obtain ⟨-, ran⟩ := unlocked run
    cases ran
    exact invariant.recheck here at_ acknowledged
  · simp at run

theorem Invariant.driveDrop (invariant : world.Invariant view) (here : world.driver = some driver)
    (run : world.driveDrop driver = some next) (acknowledged : Prop) : Advance view world next acknowledged := by
  unfold Coordinator.driveDrop at run
  split at run
  · rename_i at_
    cases run
    refine invariant.advance_attempt here at_ ?_ acknowledged
    exact trivial
  · rename_i at_
    cases run
    refine invariant.advance_attempt here at_ ?_ acknowledged
    exact trivial
  · simp at run

end Driver

section Calls

theorem publishSnapshot_ok {current snapshot published : SnapshotArc}
    (ok : publishSnapshot view current snapshot = .ok published) :
    (view published).generation = (view snapshot).generation ∧
      (view current).generation ≤ (view published).generation := by
  unfold publishSnapshot at ok
  split at ok
  · rename_i done
    cases ok
    exact ⟨publishPlan_done done, le_rfl⟩
  · simp at ok
  · obtain ⟨rfl, newer⟩ := publishIfCurrent_ok ok
    exact ⟨rfl, newer.le⟩

section

variable (invariant : world.Invariant view)
include invariant

theorem Advance.refl (acknowledged : Prop) : Advance view world world acknowledged :=
  .of_same invariant rfl rfl

theorem Invariant.acknowledge (unlocked : world.driver = none)
    (free : world.submission = none) (snapshot : SnapshotArc) :
    Advance view world (world.acknowledgeFullRebuild view snapshot).2
      (∃ report, (world.acknowledgeFullRebuild view snapshot).1 = .ok report) := by
  unfold Coordinator.acknowledgeFullRebuild
  split
  · exact .refl invariant _
  · rename_i requested held
    split
    · exact .refl invariant _
    · rename_i noOwners
      split
      · exact .refl invariant _
      · rename_i recent
        split
        · exact .refl invariant _
        · rename_i published ok
          obtain ⟨level, newer⟩ := publishSnapshot_ok ok
          rw [not_not] at noOwners
          refine ⟨?_, newer, ?_⟩
          · exact {
              opened := by
                intro _
                refine ⟨rfl, rfl, rfl, fun owner member => ?_⟩
                simp only [noOwners] at member
                simp at member
              held := fun closed => absurd rfl closed
              rebuild := nofun
              attempt := by simp only [unlocked, bind_none, map_none]
              ordered := nofun
              owners := by
                intro owner member
                simp only [noOwners] at member
                simp at member
              read := by
                intro submission same
                rw [free] at same
                simp at same
              stage := by
                intro other target stage same
                rw [unlocked] at same
                simp at same }
          · intro reset member
            obtain ⟨-, noPending, -⟩ := invariant.rebuild requested held
            rcases mem_targets.mp member with pending | attempt | rebuild
            · rw [noPending] at pending
              simp at pending
            · rw [unlocked] at attempt
              simp at attempt
            · rw [held] at rebuild
              cases rebuild
              refine .inr ⟨?_, fun _ => ⟨_, rfl⟩⟩
              rw [level]
              omega

theorem Invariant.refresh (free : world.submission = none) (expected next : SnapshotArc) (acknowledged : Prop) :
    Advance view world (world.refreshNetworkObservation view expected next).2 acknowledged := by
  unfold Coordinator.refreshNetworkObservation
  split
  · rename_i checks
    obtain ⟨opened, rfl, level, -⟩ := checks
    refine ⟨?_, level.ge, fun reset member => .inl ⟨reset, member, .refl reset⟩⟩
    obtain ⟨noPending, noActive, noRebuild, owners⟩ := invariant.opened opened
    exact {
      opened := fun _ => ⟨noPending, noActive, noRebuild, fun owner member => (owners owner member).trans level.symm⟩
      held := invariant.held
      rebuild := invariant.rebuild
      attempt := invariant.attempt
      ordered := invariant.ordered
      owners := fun owner member => (invariant.owners owner member).trans level.ge
      read := by
        intro submission same
        rw [free] at same
        simp at same
      stage := by
        intro driver target stage here at_
        have active := invariant.active_of_attempting here at_
        rw [noActive] at active
        simp at active }
  · exact .refl invariant _

theorem Invariant.registerOwner (snapshot : SnapshotArc)
    (kind : NetworkRuntimeOwnerKind) (acknowledged : Prop) :
    Advance view world (world.registerRuntimeOwner view limits snapshot kind).2 acknowledged := by
  unfold Coordinator.registerRuntimeOwner
  split
  · exact .refl invariant _
  · rename_i opened
    rw [not_not] at opened
    split
    · exact .refl invariant _
    · rename_i current
      rw [not_not] at current
      split
      · exact .refl invariant _
      · split
        · exact .refl invariant _
        · obtain ⟨noPending, noActive, noRebuild, owners⟩ := invariant.opened opened
          refine .of_same ?_ rfl rfl
          exact {
            opened := by
              intro _
              refine ⟨noPending, noActive, noRebuild, fun owner member => ?_⟩
              rcases mem_append.mp member with old | new
              · exact owners owner old
              · rw [mem_singleton.mp new, ← current]
            held := invariant.held
            rebuild := invariant.rebuild
            attempt := invariant.attempt
            ordered := invariant.ordered
            owners := by
              intro owner member
              rcases mem_append.mp member with old | new
              · exact invariant.owners owner old
              · rw [mem_singleton.mp new, ← current]
            read := invariant.read
            stage := by
              intro driver target stage here at_
              have active := invariant.active_of_attempting here at_
              rw [noActive] at active
              simp at active }

end

theorem AttemptHolds.subset {published : SnapshotArc} {owners fewer : List (Nat × RuntimeOwnerEntry)}
    {target : PendingReset} {stage : AttemptStage} (holds : AttemptHolds view published owners target stage)
    (subset : ∀ owner ∈ fewer, owner ∈ owners) : AttemptHolds view published fewer target stage := by
  have stale : ∀ kinds, StaleKinds view owners target kinds → StaleKinds view fewer target kinds :=
    fun kinds before owner member => before owner (subset owner member)
  cases stage with
  | collecting kinds | sending kinds senders | waiting kinds => exact ⟨stale kinds holds.1, holds.2⟩
  | completing => exact ⟨stale [] holds.1, holds.2⟩
  | running hooks => exact holds
  | snapshotHooks => trivial
  | reading hooks => trivial
  | publishing hooks expected => trivial
  | unwinding error => trivial

theorem Invariant.dropOwner (invariant : world.Invariant view) (id : Nat) (acknowledged : Prop) :
    Advance view world (world.dropRuntimeOwner id) acknowledged := by
  have subset : ∀ owner ∈ (world.dropRuntimeOwner id).state.runtimeOwners, owner ∈ world.state.runtimeOwners :=
    fun owner member => (mem_filter.mp member).1
  refine .of_same ?_ rfl rfl
  exact {
    opened := by
      intro opened
      obtain ⟨noPending, noActive, noRebuild, owners⟩ := invariant.opened opened
      exact ⟨noPending, noActive, noRebuild, fun owner member => owners owner (subset owner member)⟩
    held := invariant.held
    rebuild := invariant.rebuild
    attempt := invariant.attempt
    ordered := invariant.ordered
    owners := fun owner member => invariant.owners owner (subset owner member)
    read := invariant.read
    stage := fun driver target stage here at_ => (invariant.stage driver target stage here at_).subset subset }

theorem Invariant.of_hooks (invariant : world.Invariant view) (hooks : List (Nat × NetworkResetHookStage))
    (nextHookId : Nat) : ({ world with state := { world.state with hooks, nextHookId } } : Coordinator).Invariant view where
  opened := invariant.opened
  held := invariant.held
  rebuild := invariant.rebuild
  attempt := invariant.attempt
  ordered := invariant.ordered
  owners := invariant.owners
  read := invariant.read
  stage := invariant.stage

theorem Invariant.registerHook (invariant : world.Invariant view) (stage : NetworkResetHookStage) (acknowledged : Prop) :
    Advance view world (world.registerResetHook limits stage).2 acknowledged := by
  unfold Coordinator.registerResetHook
  split
  · exact .refl invariant _
  · split
    · exact .refl invariant _
    · split
      · exact .refl invariant _
      · exact .of_same (invariant.of_hooks _ _) rfl rfl

end Calls

section Step

theorem locked_eq_some {α : Type} {reply : α → CoordinatorReply} {outcome : α × Coordinator} {answer : CoordinatorReply}
    {next : Coordinator} (run : world.locked reply outcome = some (answer, next)) :
    world.submission = none ∧ answer = reply outcome.1 ∧ next = outcome.2 := by
  unfold locked at run
  split at run
  · simp at run
  · rename_i free
    cases run
    exact ⟨by simpa using free, rfl, rfl⟩

theorem Invariant.step (invariant : world.Invariant view) {move : CoordinatorMove} {reply : CoordinatorReply}
    {next : Coordinator} (run : world.step view limits move = some (reply, next)) :
    Advance view world next (∃ report, reply = .acknowledged (.ok report)) := by
  cases move with
  | submitLock snapshot intent =>
    simp only [Coordinator.step] at run
    split at run
    · simp at run
    · cases run
      refine .of_same { invariant with read := ?_ } rfl rfl
      intro submission same
      cases same
      exact .inl rfl
  | submitFinish =>
    simp only [Coordinator.step, map_eq_some_iff, Prod.mk.injEq] at run
    obtain ⟨submission, -, -, rfl⟩ := run
    exact (invariant.finishSubmission submission _).1
  | driveLock =>
    simp only [Coordinator.step] at run
    split at run
    · simp at run
    · rename_i unlocked
      have outside : world.driver = none := by simpa using unlocked
      cases run
      refine .of_same { invariant with attempt := ?_, stage := ?_ } rfl ?_
      · have idle := invariant.attempt
        rw [outside] at idle
        exact idle
      · intro driver target stage same at_
        cases same
        cases at_
      · simp [targets, outside, DriverStage.target]
  | driveStep event =>
    simp only [Coordinator.step, map_eq_some_iff, bind_eq_some_iff, Prod.mk.injEq] at run
    obtain ⟨later, ⟨driver, here, ran⟩, -, rfl⟩ := run
    exact invariant.driveStep here ran _
  | driveDrop =>
    simp only [Coordinator.step, map_eq_some_iff, bind_eq_some_iff, Prod.mk.injEq] at run
    obtain ⟨later, ⟨driver, here, ran⟩, -, rfl⟩ := run
    exact invariant.driveDrop here ran _
  | driveUnlock =>
    simp only [Coordinator.step] at run
    split at run
    · rename_i result completed cancelled here
      cases run
      refine .of_same { invariant with attempt := ?_, stage := ?_ } rfl ?_
      · have idle := invariant.attempt
        rw [here] at idle
        exact idle
      · intro driver target stage same
        simp at same
      · simp [targets, here, DriverStage.target]
    · simp at run
  | acknowledge snapshot =>
    simp only [Coordinator.step] at run
    split at run
    · simp at run
    · rename_i unlocked
      obtain ⟨free, rfl, rfl⟩ := locked_eq_some run
      have advance := invariant.acknowledge (by simpa using unlocked) free snapshot
      refine ⟨advance.invariant, advance.published, fun reset member => ?_⟩
      rcases advance.kept reset member with still | ⟨published, ended⟩
      · exact .inl still
      · refine .inr ⟨published, fun damaged => ?_⟩
        obtain ⟨report, ok⟩ := ended damaged
        exact ⟨report, by rw [ok]⟩
  | refresh expected later =>
    simp only [Coordinator.step] at run
    obtain ⟨free, -, rfl⟩ := locked_eq_some run
    exact invariant.refresh free expected later _
  | registerOwner snapshot kind =>
    simp only [Coordinator.step] at run
    obtain ⟨-, -, rfl⟩ := locked_eq_some run
    exact invariant.registerOwner snapshot kind _
  | dropOwner id =>
    simp only [Coordinator.step] at run
    obtain ⟨-, -, rfl⟩ := locked_eq_some run
    exact invariant.dropOwner id _
  | registerHook stage =>
    simp only [Coordinator.step] at run
    obtain ⟨-, -, rfl⟩ := locked_eq_some run
    exact invariant.registerHook stage _
  | dropHook id =>
    simp only [Coordinator.step] at run
    obtain ⟨-, -, rfl⟩ := locked_eq_some run
    exact .of_same (invariant.of_hooks _ _) rfl rfl

theorem step_submitted {move : CoordinatorMove} {request : PendingReset}
    {result : Checked NetworkResetCoordinatorError NetworkResetRequestDisposition} {next : Coordinator}
    (run : world.step view limits move = some (.submitted request result, next)) :
    ∃ submission, submission.request = request ∧ result = (world.finishSubmission view submission).1 ∧
      next = (world.finishSubmission view submission).2 := by
  cases move with
  | submitFinish =>
    simp only [Coordinator.step, map_eq_some_iff, Prod.mk.injEq, CoordinatorReply.submitted.injEq] at run
    obtain ⟨submission, -, ⟨sameRequest, sameResult⟩, sameNext⟩ := run
    exact ⟨submission, sameRequest, sameResult.symm, sameNext.symm⟩
  | submitLock snapshot intent | driveLock | driveUnlock =>
    simp only [Coordinator.step] at run
    split at run <;> simp at run
  | driveStep event | driveDrop => simp [Coordinator.step, bind_eq_some_iff] at run
  | acknowledge snapshot =>
    simp only [Coordinator.step] at run
    split at run
    · simp at run
    · simpa using (locked_eq_some run).2.1
  | refresh expected later | registerOwner snapshot kind | registerHook stage => simpa using (locked_eq_some run).2.1
  | dropOwner id | dropHook id =>
    simp only [Coordinator.step] at run
    simpa using (locked_eq_some run).2.1

end Step

section Run

def Acknowledges (replies : List CoordinatorReply) : Prop := ∃ report, .acknowledged (.ok report) ∈ replies

variable {reset : PendingReset} {acknowledged : Prop} {replies : List CoordinatorReply} {last : Coordinator}

theorem Standing.mono {later : Prop} (standing : Standing view world reset acknowledged)
    (implies : acknowledged → later) : Standing view world reset later := by
  rcases standing with still | ⟨published, ended⟩
  · exact .inl still
  · exact .inr ⟨published, fun damaged => implies (ended damaged)⟩

theorem Standing.of_covers {other : PendingReset}
    (standing : Standing view world reset acknowledged) (covers : reset.Covers view other) :
    Standing view world other acknowledged := by
  rcases standing with ⟨target, member, settled⟩ | ⟨published, ended⟩
  · exact .inl ⟨target, member, settled.trans covers⟩
  · exact .inr ⟨covers.1.trans published, fun damaged => ended (covers.2 damaged)⟩

theorem Advance.standing {before after : Coordinator} {earlier : Prop}
    (advance : Advance view before after acknowledged) (standing : Standing view before reset earlier) :
    Standing view after reset (earlier ∨ acknowledged) := by
  rcases standing with ⟨target, member, covers⟩ | ⟨published, ended⟩
  · exact ((advance.kept target member).of_covers covers).mono .inr
  · exact .inr ⟨published.trans advance.published, fun damaged => .inl (ended damaged)⟩

theorem Run.advance (run : Run view limits world replies last)
    (invariant : world.Invariant view) : last.Invariant view ∧
      (view world.published).generation ≤ (view last.published).generation ∧
        ∀ reset earlier, Standing view world reset earlier → Standing view last reset (earlier ∨ Acknowledges replies) := by
  induction run with
  | nil world => exact ⟨invariant, le_rfl, fun reset earlier standing => standing.mono .inl⟩
  | cons first rest ih =>
    have advance := invariant.step first
    obtain ⟨final, grown, kept⟩ := ih advance.invariant
    refine ⟨final, advance.published.trans grown, fun reset earlier standing => ?_⟩
    refine (kept reset _ (advance.standing standing)).mono ?_
    rintro ((before | ⟨report, rfl⟩) | ⟨report, member⟩)
    · exact .inl before
    · exact .inr ⟨report, mem_cons_self⟩
    · exact .inr ⟨report, mem_cons_of_mem _ member⟩

theorem Run.accepted (run : Run view limits world replies last)
    (invariant : world.Invariant view) {before after : List CoordinatorReply} {request : PendingReset}
    {disposition : NetworkResetRequestDisposition}
    (history : replies = before ++ .submitted request (.ok disposition) :: after) (accepted : disposition ≠ .noop) :
    Standing view last request (Acknowledges after) := by
  induction run generalizing before with
  | nil world => simp at history
  | @cons world middle last move reply replies first rest ih =>
    cases before with
    | nil =>
      obtain ⟨rfl, rfl⟩ := List.cons.inj history
      obtain ⟨submission, rfl, result, rfl⟩ := step_submitted first
      have finished := invariant.finishSubmission submission False
      obtain ⟨target, member, covers⟩ := finished.2.1 disposition result.symm accepted
      have standing := (rest.advance finished.1.invariant).2.2 submission.request False (.inl ⟨target, member, covers⟩)
      exact standing.mono (by simp)
    | cons earlier before =>
      obtain ⟨rfl, rfl⟩ := List.cons.inj history
      exact ih (invariant.step first).invariant rfl

theorem Run.no_panic (run : Run view limits world replies last)
    (invariant : world.Invariant view) (request : PendingReset) : .submitted request (.error .panic) ∉ replies := by
  induction run with
  | nil world => simp
  | cons first rest ih =>
    rw [mem_cons, not_or]
    refine ⟨?_, ih (invariant.step first).invariant⟩
    rintro rfl
    obtain ⟨submission, -, result, -⟩ := step_submitted first
    exact (invariant.finishSubmission submission False).2.2 result.symm

end Run

variable {view : SnapshotArc → NetworkSnapshot} {limits : NetworkResetLimits}

/-- The driver's reset cannot conflict with what was queued meanwhile, neither when the guard puts it back nor after `complete`.
-/
def MergesSucceed (view : SnapshotArc → NetworkSnapshot) (world : Coordinator) : Prop :=
  ∀ target pending, world.driver.bind (·.stage.target) = some target → world.state.pending = some pending →
    (∃ merged, mergePending view pending target = .ok merged) ∧ ∃ merged, mergePending view target pending = .ok merged

theorem Invariant.mergesSucceed {world : Coordinator} (invariant : world.Invariant view) : world.MergesSucceed view := by
  intro target pending inProgress queued
  obtain ⟨driver, here, at_⟩ := bind_eq_some_iff.mp inProgress
  have attempting : ∃ stage, driver.stage = .attempting target stage := by
    cases stage : driver.stage with
    | attempting other attempt =>
      rw [stage] at at_
      cases at_
      exact ⟨attempt, rfl⟩
    | checkingRebuild | taking | rechecking | returning result => simp [stage, DriverStage.target] at at_
  obtain ⟨stage, attempt⟩ := attempting
  obtain ⟨first, second⟩ := invariant.merge_target here attempt queued
  exact ⟨second, first⟩

/-- In every state that a run reaches no accepted request is lost, a full rebuild stays until it is acknowledged, no `expect`
fails, and no later run publishes an older generation. -/
theorem reset_safety {initial : SnapshotArc} {replies : List CoordinatorReply} {world : Coordinator}
    (reach : Run view limits (.new initial) replies world) :
    (world.state.phase = .active →
      world.state.pending = none ∧ world.state.active = none ∧ world.state.fullRebuild = none) ∧
    (∀ request disposition, .submitted request (.ok disposition) ∈ replies → disposition ≠ .noop →
      (view request.snapshot).generation ≤ (view world.published).generation ∨
        ∃ target ∈ world.targets, (view request.snapshot).generation ≤ (view target.snapshot).generation) ∧
    (∀ before after request disposition, replies = before ++ .submitted request (.ok disposition) :: after →
      disposition ≠ .noop → request.intent.fullRebuildDamage.isSome = true → ¬Acknowledges after →
        ∃ target ∈ world.targets, target.intent.fullRebuildDamage.isSome = true) ∧
    world.MergesSucceed view ∧
    (∀ request, .submitted request (.error .panic) ∉ replies) ∧
    (∀ owner ∈ world.state.runtimeOwners, owner.2.generation ≤ (view world.published).generation ∧
      (world.state.phase = .active → owner.2.generation = (view world.published).generation)) ∧
    ∀ more last, Run view limits world more last →
      (view world.published).generation ≤ (view last.published).generation := by
  have fresh : (Coordinator.new initial).Invariant view := invariant_new initial
  obtain ⟨invariant, -, -⟩ := reach.advance fresh
  refine ⟨?_, ?_, ?_, invariant.mergesSucceed, reach.no_panic fresh, ?_, ?_⟩
  · intro opened
    obtain ⟨noPending, noActive, noRebuild, -⟩ := invariant.opened opened
    exact ⟨noPending, noActive, noRebuild⟩
  · intro request disposition member accepted
    obtain ⟨before, after, history⟩ := append_of_mem member
    rcases reach.accepted fresh history accepted with ⟨target, held, covers⟩ | ⟨published, -⟩
    · exact .inr ⟨target, held, covers.1⟩
    · exact .inl published
  · intro before after request disposition history accepted damaged waiting
    rcases reach.accepted fresh history accepted with ⟨target, held, covers⟩ | ⟨-, ended⟩
    · exact ⟨target, held, covers.2 damaged⟩
    · exact absurd (ended damaged) waiting
  · intro owner member
    refine ⟨invariant.owners owner member, fun opened => ?_⟩
    exact (invariant.opened opened).2.2.2 owner member
  · intro more last run
    exact (run.advance invariant).2.1

/-- Snapshots without routes or interfaces, by generation. -/
def sampleView (snapshot : SnapshotArc) : NetworkSnapshot :=
  { generation := snapshot, observationId := snapshot, routes := some [], ipv4Default := none, ipv6Default := none
    interfaces := [], routesSorted := fun _ same => some.inj same ▸ .nil }

def sampleLimits : NetworkResetLimits :=
  { maxHooks := 16, maxRuntimeOwners := 65536, hooksBounded := by decide, ownersBounded := by decide }

/-- An owner of generation 0 while a full rebuild of generation 1 is queued and its driver is dropped. -/
theorem sampleRun_safe : ∃ replies world, Run sampleView sampleLimits (.new 0) replies world ∧
    world.state.phase = .retryReset ∧ ∃ target ∈ world.targets, target.intent.fullRebuildDamage.isSome = true := by
  have reach : Run sampleView sampleLimits (.new 0) _ _ :=
    @Run.cons _ _ _ _ _ (.registerOwner 0 .generationTask) _ _ rfl <|
    @Run.cons _ _ _ _ _ (.submitLock 1 (.fullRebuild .tcpIngress)) _ _ rfl <|
    @Run.cons _ _ _ _ _ .submitFinish _ _ rfl <|
    @Run.cons _ _ _ _ _ .driveLock _ _ rfl <|
    @Run.cons _ _ _ _ _ (.driveStep .succeeded) _ _ rfl <|
    @Run.cons _ _ _ _ _ (.driveStep .succeeded) _ _ rfl <|
    @Run.cons _ _ _ _ _ (.driveStep .succeeded) _ _ rfl <|
    @Run.cons _ _ _ _ _ (.driveStep .succeeded) _ _ rfl <|
    @Run.cons _ _ _ _ _ (.driveStep .succeeded) _ _ rfl <|
    @Run.cons _ _ _ _ _ .driveDrop _ _ rfl <|
    @Run.cons _ _ _ _ _ (.driveStep .succeeded) _ _ rfl <| .nil _
  have safe := (reset_safety reach).2.2.1
  refine ⟨_, _, reach, rfl, safe [_, _] _ ⟨1, .fullRebuild .tcpIngress⟩ .queued rfl (by simp) rfl ?_⟩
  rintro ⟨report, member⟩
  simp at member

end Coordinator

end Ferrum.Runtime
