import Ferrum.Runtime.NetworkResetInvariant

namespace Ferrum.Runtime

open Ferrum.Net

namespace Coordinator

variable {view : SnapshotArc → NetworkSnapshot} {world : Coordinator} {driver : Driver}

/-- The resets that are pending, in progress or held. -/
def targets (world : Coordinator) : List PendingReset :=
  world.state.pending.toList ++ (world.driver.bind (·.stage.target)).toList ++ world.state.fullRebuild.toList

theorem mem_targets {reset : PendingReset} : reset ∈ world.targets ↔ world.state.pending = some reset ∨
    world.driver.bind (·.stage.target) = some reset ∨ world.state.fullRebuild = some reset := by
  simp only [targets, List.mem_append, Option.mem_toList, or_assoc]

/-- A reset that is still to be done, or whose generation was published. A full rebuild ends only with
an acknowledgement. -/
def Standing (view : SnapshotArc → NetworkSnapshot) (world : Coordinator) (reset : PendingReset) (acknowledged : Prop) :
    Prop :=
  (∃ target ∈ world.targets, target.Covers view reset) ∨
    (view reset.snapshot).generation ≤ (view world.published).generation ∧
      (reset.intent.fullRebuildDamage.isSome = true → acknowledged)

/-- One step keeps the invariant, does not decrease the published generation, and loses no reset. -/
structure Advance (view : SnapshotArc → NetworkSnapshot) (before after : Coordinator) (acknowledged : Prop) : Prop where
  invariant : after.Invariant view
  published : (view before.published).generation ≤ (view after.published).generation
  kept : ∀ reset ∈ before.targets, Standing view after reset acknowledged

theorem Advance.of_same {after : Coordinator} {acknowledged : Prop} (invariant : after.Invariant view)
    (published : after.published = world.published) (targets : after.targets = world.targets) :
    Advance view world after acknowledged where
  invariant := invariant
  published := by rw [published]
  kept := fun reset member => Or.inl ⟨reset, targets ▸ member, .refl reset⟩

theorem targets_atStage (here : world.driver = some driver) {next : Driver} {stage : DriverStage}
    (target : stage.target = driver.stage.target) : (world.atStage next stage).targets = world.targets := by
  simp only [targets, atStage, here, Option.bind_some, target]

variable {next : Driver}

theorem Invariant.advance_atStage (invariant : world.Invariant view) (here : world.driver = some driver)
    {stage : DriverStage} (target : stage.target = driver.stage.target)
    (holds : ∀ target attempt, stage = .attempting target attempt →
      AttemptHolds view world.published world.state.runtimeOwners target attempt) (acknowledged : Prop) :
    Advance view world (world.atStage next stage) acknowledged :=
  .of_same (invariant.atStage here target holds) rfl (targets_atStage here target)

theorem Invariant.advance_attempt (invariant : world.Invariant view) (here : world.driver = some driver)
    {target : PendingReset} {stage : AttemptStage} (at_ : driver.stage = .attempting target stage)
    {later : AttemptStage} (holds : AttemptHolds view world.published world.state.runtimeOwners target later)
    (acknowledged : Prop) : Advance view world (world.atStage next (.attempting target later)) acknowledged := by
  refine invariant.advance_atStage here (by rw [at_]; rfl) ?_ acknowledged
  intro other attempt same
  cases same
  exact holds

theorem Invariant.advance_outside (invariant : world.Invariant view) (here : world.driver = some driver)
    (outside : driver.stage.target = none) {stage : DriverStage} (still : stage.target = none)
    (acknowledged : Prop) : Advance view world (world.atStage next stage) acknowledged := by
  refine invariant.advance_atStage here (still.trans outside.symm) ?_ acknowledged
  intro target attempt same
  rw [same] at still
  simp [DriverStage.target] at still

section Submit

theorem Invariant.finishSubmission (invariant : world.Invariant view) (submission : Submission) (acknowledged : Prop) :
    Advance view world (world.finishSubmission view submission).2 acknowledged ∧
      (∀ disposition, (world.finishSubmission view submission).1 = .ok disposition → disposition ≠ .noop →
        ∃ target ∈ (world.finishSubmission view submission).2.targets, target.Covers view submission.request) ∧
      (world.finishSubmission view submission).1 ≠ .error .panic := by
  have effect := @submit_effect view world.state submission.current submission.request
    fun rebuild held => (invariant.rebuild rebuild held).1
  simp only [Coordinator.finishSubmission]
  generalize submit view world.state submission.current submission.request = outcome at effect
  have unchanged : Advance view world { world with state := world.state, submission := none } acknowledged :=
    .of_same { invariant with read := by simp } rfl rfl
  cases effect with
  | refused error => exact ⟨unchanged, by simp [Checked.fail], by simp [Checked.fail]⟩
  | noop idle ordinary =>
    refine ⟨unchanged, ?_, by simp⟩
    rintro disposition ok different
    cases ok
    exact absurd rfl different
  | absorbed active here covered ordinary =>
    refine ⟨unchanged, fun _ _ _ => ?_, by simp⟩
    have attempt := invariant.attempt
    rw [here] at attempt
    obtain ⟨target, inProgress, same⟩ := Option.map_eq_some_iff.mp attempt.symm
    refine ⟨target, mem_targets.mpr (Or.inr (Or.inl inProgress)), ?_, ?_⟩
    · rw [← same] at covered
      exact covered
    · simp [ordinary]
  | queued disposition merged queued =>
    have reached : merged ∈ ({ world with
        state := { world.state with pending := some merged, phase := .resetPending }, submission := none } :
          Coordinator).targets := mem_targets.mpr (Or.inl rfl)
    refine ⟨⟨?_, le_rfl, ?_⟩, fun _ _ _ => ⟨merged, reached, queued.incoming⟩, by simp⟩
    · exact {
        opened := by simp
        held := fun _ => Or.inl (by simp)
        rebuild := by
          intro rebuild held
          rw [queued.free] at held
          simp at held
        attempt := invariant.attempt
        ordered := by
          intro active pending here same
          cases same
          exact queued.ordered active here fun old held => invariant.ordered active old here held
        owners := invariant.owners
        read := by simp
        stage := invariant.stage }
    · intro reset member
      rcases mem_targets.mp member with pending | target | rebuild
      · exact Or.inl ⟨merged, reached, queued.pending reset pending⟩
      · exact Or.inl ⟨reset, mem_targets.mpr (Or.inr (Or.inl target)), .refl reset⟩
      · rw [queued.free] at rebuild
        simp at rebuild
  | joined rebuild merged here damaged old new =>
    have reached : merged ∈ ({ world with
        state := { world.state with fullRebuild := some merged }, submission := none } : Coordinator).targets :=
      mem_targets.mpr (Or.inr (Or.inr rfl))
    obtain ⟨-, noPending, noActive⟩ := invariant.rebuild rebuild here
    refine ⟨⟨?_, le_rfl, ?_⟩, fun _ _ _ => ⟨merged, reached, new⟩, by simp⟩
    · exact {
        opened := by
          intro opened
          have free := (invariant.opened opened).2.2.1
          rw [here] at free
          simp at free
        held := fun _ => Or.inr (Or.inr (by simp))
        rebuild := by
          intro other same
          cases same
          exact ⟨damaged, noPending, noActive⟩
        attempt := invariant.attempt
        ordered := invariant.ordered
        owners := invariant.owners
        read := by simp
        stage := invariant.stage }
    · intro reset member
      rcases mem_targets.mp member with pending | target | held
      · rw [noPending] at pending
        simp at pending
      · exact Or.inl ⟨reset, mem_targets.mpr (Or.inr (Or.inl target)), .refl reset⟩
      · rw [here] at held
        cases held
        exact Or.inl ⟨merged, reached, old⟩

end Submit

section Driver

section

variable (invariant : world.Invariant view)
include invariant

theorem Invariant.checkRebuild (here : world.driver = some driver)
    (at_ : driver.stage = .checkingRebuild) (acknowledged : Prop) :
    Advance view world (world.checkRebuild view driver) acknowledged := by
  unfold Coordinator.checkRebuild
  split
  · exact invariant.advance_outside here (by rw [at_]; rfl) rfl acknowledged
  · exact invariant.advance_outside here (by rw [at_]; rfl) rfl acknowledged

theorem Invariant.takePending (here : world.driver = some driver)
    (at_ : driver.stage = .taking) (free : world.submission = none) (acknowledged : Prop) :
    Advance view world (world.takePending driver) acknowledged := by
  unfold Coordinator.takePending
  split
  · rename_i target held
    have noRebuild : world.state.fullRebuild = none := by
      cases rebuilt : world.state.fullRebuild with
      | none => rfl
      | some rebuild =>
        rw [(invariant.rebuild rebuild rebuilt).2.1] at held
        simp at held
    refine ⟨?_, le_rfl, ?_⟩
    · exact {
        opened := nofun
        held := fun _ => Or.inr (Or.inl (by simp))
        rebuild := by
          intro rebuild same
          rw [noRebuild] at same
          simp at same
        attempt := rfl
        ordered := nofun
        owners := invariant.owners
        read := by
          intro submission same
          rw [free] at same
          simp at same
        stage := by
          intro other goal stage same attempt
          cases same
          cases attempt
          unfold firstStage
          split
          · rename_i damaged
            refine ⟨fun owner _ _ => mem_ownerResetOrder _, fun ordinary => ?_⟩
            rw [ordinary] at damaged
            simp at damaged
          · trivial }
    · intro reset member
      have inProgress : target ∈ ({ world with
          state := { world.state with pending := none, active := some ⟨target.snapshot⟩, phase := .resetting }
          driver := some { driver with stage := .attempting target (firstStage target) } } : Coordinator).targets :=
        mem_targets.mpr (Or.inr (Or.inl rfl))
      rcases mem_targets.mp member with pending | attempt | rebuild
      · rw [held] at pending
        cases pending
        exact Or.inl ⟨target, inProgress, .refl target⟩
      · rw [here, Option.bind_some, at_] at attempt
        simp [DriverStage.target] at attempt
      · rw [noRebuild] at rebuild
        simp at rebuild
  · exact invariant.advance_outside here (by rw [at_]; rfl) rfl acknowledged

theorem Invariant.recheck (here : world.driver = some driver)
    (at_ : driver.stage = .rechecking) (acknowledged : Prop) :
    Advance view world (world.recheck view driver) acknowledged := by
  unfold Coordinator.recheck
  split
  · exact invariant.advance_outside here (by rw [at_]; rfl) rfl acknowledged
  · rename_i nothing
    simp only [not_or, Bool.not_eq_true, Option.isSome_eq_false_iff, Option.isNone_iff_eq_none] at nothing
    have idle : world.state.active = none := by
      rw [invariant.attempt, here, Option.bind_some, at_]
      rfl
    have opened : world.state.phase = .active := by
      by_contra closed
      rcases invariant.held closed with pending | active | rebuild
      · exact pending nothing.2
      · exact active idle
      · exact rebuild nothing.1
    have same : { world.state with phase := .active } = world.state := by rw [← opened]
    simp only [same]
    exact invariant.advance_outside here (by rw [at_]; rfl) rfl acknowledged

variable {target : PendingReset} {stage : AttemptStage}

section

variable (here : world.driver = some driver)
include here

theorem Invariant.merge_target {pending : PendingReset} (at_ : driver.stage = .attempting target stage)
    (queued : world.state.pending = some pending) :
    (∃ merged, mergePending view target pending = .ok merged) ∧ ∃ merged, mergePending view pending target = .ok merged := by
  have later := invariant.ordered _ pending (invariant.active_of_attempting here at_) queued
  refine ⟨mergePending_ok later.compatible, mergePending_ok fun level => ?_⟩
  exact NetworkSnapshot.same_symm (later.compatible level.symm)

theorem Invariant.holdRebuild (at_ : driver.stage = .attempting target stage)
    (free : world.submission = none) (damage : ManagedNetworkDamage) (acknowledged : Prop) :
    Advance view world (world.holdRebuild view driver target damage) acknowledged := by
  have merged : ∃ rebuild, joinPending view target world.state.pending = .ok rebuild ∧ rebuild.Covers view target ∧
      ∀ pending, world.state.pending = some pending → rebuild.Covers view pending := by
    cases queued : world.state.pending with
    | none => exact ⟨target, rfl, .refl target, nofun⟩
    | some pending =>
      obtain ⟨⟨rebuild, merge⟩, -⟩ := invariant.merge_target here at_ queued
      obtain ⟨-, coversTarget, coversPending⟩ := mergePending_covers merge
      refine ⟨rebuild, merge, coversTarget, ?_⟩
      intro other same
      cases same
      exact coversPending
  obtain ⟨rebuild, merge, coversTarget, coversPending⟩ := merged
  simp only [Coordinator.holdRebuild, merge]
  refine ⟨?_, le_rfl, ?_⟩
  · exact {
      opened := nofun
      held := fun _ => Or.inr (Or.inr (by simp))
      rebuild := by
        intro other same
        cases same
        exact ⟨rfl, rfl, rfl⟩
      attempt := rfl
      ordered := nofun
      owners := invariant.owners
      read := by
        intro submission same
        rw [free] at same
        simp at same
      stage := by
        intro other goal attempt same running
        cases same
        cases running }
  · intro reset member
    refine Or.inl ⟨_, mem_targets.mpr (Or.inr (Or.inr rfl)), ?_⟩
    have covers : rebuild.Covers view reset := by
      rcases mem_targets.mp member with pending | attempt | held
      · exact coversPending reset pending
      · rw [here, Option.bind_some, at_] at attempt
        cases attempt
        exact coversTarget
      · rw [invariant.no_rebuild_of_active (invariant.active_of_attempting here at_)] at held
        simp at held
    exact ⟨covers.1, fun _ => rfl⟩

theorem Invariant.finishReset (at_ : driver.stage = .attempting target .completing)
    (ordinary : target.intent.fullRebuildDamage = none) (free : world.submission = none) (acknowledged : Prop) :
    Advance view world (world.finishReset driver) acknowledged := by
  have active := invariant.active_of_attempting here at_
  have noRebuild := invariant.no_rebuild_of_active active
  obtain ⟨noneStale, published⟩ := invariant.stage driver target .completing here at_
  have level := published ordinary
  have fresh : ∀ owner ∈ world.state.runtimeOwners, owner.2.generation = (view world.published).generation := by
    intro owner member
    have bounded := invariant.owners owner member
    by_contra older
    have less : owner.2.generation < (view target.snapshot).generation := by omega
    have stale : owner.2.isStale (signalOf view target) = true := by
      simp [RuntimeOwnerEntry.isStale, signalOf, less]
    exact List.not_mem_nil (noneStale owner member stale)
  refine ⟨?_, le_rfl, ?_⟩
  · exact {
      opened := by
        intro opened
        simp only [Coordinator.finishReset] at opened
        cases queued : world.state.pending with
        | none => exact ⟨queued, rfl, noRebuild, fresh⟩
        | some pending =>
          rw [queued] at opened
          simp at opened
      held := by
        intro closed
        simp only [Coordinator.finishReset] at closed
        cases queued : world.state.pending with
        | none =>
          rw [queued] at closed
          simp at closed
        | some pending => exact Or.inl (by simp [Coordinator.finishReset, queued])
      rebuild := by
        intro rebuild same
        simp only [Coordinator.finishReset, noRebuild] at same
        simp at same
      attempt := rfl
      ordered := by simp [Coordinator.finishReset]
      owners := invariant.owners
      read := by
        intro submission same
        simp only [Coordinator.finishReset, free] at same
        simp at same
      stage := by
        intro other goal attempt same running
        cases same
        cases running }
  · intro reset member
    rcases mem_targets.mp member with pending | attempt | held
    · exact Or.inl ⟨reset, mem_targets.mpr (Or.inl pending), .refl reset⟩
    · rw [here, Option.bind_some, at_] at attempt
      cases attempt
      refine Or.inr ⟨level.ge, ?_⟩
      simp [ordinary]
    · rw [noRebuild] at held
      simp at held

theorem Invariant.restoreTarget (at_ : driver.stage = .attempting target stage)
    (free : world.submission = none) (result : Option (Except NetworkResetCoordinatorError NetworkResetReport))
    (acknowledged : Prop) :
    Advance view world ({ world with state := restoreTarget view world.state target }.atStage driver (.returning result))
      acknowledged := by
  have noRebuild := invariant.no_rebuild_of_active (invariant.active_of_attempting here at_)
  have merged : ∃ restored, Coordinator.restoreTarget view world.state target =
      { world.state with active := none, pending := some restored, phase := .retryReset } ∧
        restored.Covers view target ∧ ∀ pending, world.state.pending = some pending → restored.Covers view pending := by
    unfold Coordinator.restoreTarget
    cases queued : world.state.pending with
    | none => exact ⟨target, rfl, .refl target, nofun⟩
    | some pending =>
      obtain ⟨-, restored, merge⟩ := invariant.merge_target here at_ queued
      obtain ⟨-, coversPending, coversTarget⟩ := mergePending_covers merge
      refine ⟨restored, by simp only [merge], coversTarget, ?_⟩
      intro other same
      cases same
      exact coversPending
  obtain ⟨restored, equal, coversTarget, coversPending⟩ := merged
  rw [equal]
  refine ⟨?_, le_rfl, ?_⟩
  · exact {
      opened := nofun
      held := fun _ => Or.inl (by simp [Coordinator.atStage])
      rebuild := by
        intro rebuild same
        simp only [Coordinator.atStage, noRebuild] at same
        simp at same
      attempt := rfl
      ordered := nofun
      owners := invariant.owners
      read := by
        intro submission same
        simp only [Coordinator.atStage, free] at same
        simp at same
      stage := by
        intro other goal attempt same running
        cases same
        cases running }
  · intro reset member
    refine Or.inl ⟨restored, mem_targets.mpr (Or.inl rfl), ?_⟩
    rcases mem_targets.mp member with pending | attempt | held
    · exact coversPending reset pending
    · rw [here, Option.bind_some, at_] at attempt
      cases attempt
      exact coversTarget
    · rw [noRebuild] at held
      simp at held

end

end

end Driver

end Coordinator

end Ferrum.Runtime
