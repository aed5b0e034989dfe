import Ferrum.Runtime.NetworkResetCoordinator

namespace Ferrum.Runtime

open Option Ferrum.Net

section Merge

variable {view : SnapshotArc → NetworkSnapshot}

/-- One reset stands for another: it is at least as new and keeps a full rebuild. -/
def PendingReset.Covers (view : SnapshotArc → NetworkSnapshot) (reset other : PendingReset) : Prop :=
  (view other.snapshot).generation ≤ (view reset.snapshot).generation ∧
    (other.intent.fullRebuildDamage.isSome = true → reset.intent.fullRebuildDamage.isSome = true)

theorem PendingReset.Covers.refl (reset : PendingReset) : reset.Covers view reset := ⟨le_rfl, id⟩

/-- A snapshot that a reset in progress leaves to be published: a newer one, or the same. -/
def NotBefore (view : SnapshotArc → NetworkSnapshot) (first second : SnapshotArc) : Prop :=
  (view first).generation < (view second).generation ∨ (view first).same (view second) = true

theorem NotBefore.refl (snapshot : SnapshotArc) : NotBefore view snapshot snapshot := .inr (NetworkSnapshot.same_refl _)

theorem PendingReset.withDamage_snapshot (reset : PendingReset) (damage : Option ManagedNetworkDamage) :
    (reset.withDamage damage).snapshot = reset.snapshot := by
  cases damage <;> rfl

theorem PendingReset.withDamage_isSome {reset : PendingReset} {damage : Option ManagedNetworkDamage}
    (some : damage.isSome = true) : (reset.withDamage damage).intent.fullRebuildDamage.isSome = true := by
  obtain ⟨value, rfl⟩ := isSome_iff_exists.mp some
  rfl

theorem mergePending_covers {pending incoming merged : PendingReset}
    (ok : mergePending view pending incoming = .ok merged) :
    (merged.snapshot = pending.snapshot ∨ merged.snapshot = incoming.snapshot) ∧ merged.Covers view pending ∧
      merged.Covers view incoming := by
  have damaged : ∀ reset : PendingReset,
      let result := reset.withDamage (pending.intent.fullRebuildDamage.or incoming.intent.fullRebuildDamage)
      (pending.intent.fullRebuildDamage.isSome = true → result.intent.fullRebuildDamage.isSome = true) ∧
        (incoming.intent.fullRebuildDamage.isSome = true → result.intent.fullRebuildDamage.isSome = true) := by
    intro reset
    refine ⟨fun some => PendingReset.withDamage_isSome ?_, fun some => PendingReset.withDamage_isSome ?_⟩
    · simp [some]
    · simp [some]
  unfold mergePending at ok
  simp only at ok
  split at ok
  · rename_i less
    cases ok
    obtain ⟨left, right⟩ := damaged pending
    have older := compare_lt_iff_lt.mp less
    exact ⟨.inl (PendingReset.withDamage_snapshot _ _), ⟨by rw [PendingReset.withDamage_snapshot], left⟩,
      ⟨by rw [PendingReset.withDamage_snapshot]; exact older.le, right⟩⟩
  · rename_i equal
    have level := compare_eq_iff_eq.mp equal
    split at ok
    · split at ok
      · cases ok
        obtain ⟨left, right⟩ := damaged { pending with intent := incoming.intent }
        exact ⟨.inl (PendingReset.withDamage_snapshot _ _), ⟨by rw [PendingReset.withDamage_snapshot], left⟩,
          ⟨by rw [PendingReset.withDamage_snapshot]; exact level.le, right⟩⟩
      · cases ok
        obtain ⟨left, right⟩ := damaged pending
        exact ⟨.inl (PendingReset.withDamage_snapshot _ _), ⟨by rw [PendingReset.withDamage_snapshot], left⟩,
          ⟨by rw [PendingReset.withDamage_snapshot]; exact level.le, right⟩⟩
    · simp at ok
  · rename_i more
    cases ok
    obtain ⟨left, right⟩ := damaged incoming
    have newer := compare_gt_iff_gt.mp more
    exact ⟨.inr (PendingReset.withDamage_snapshot _ _),
      ⟨by rw [PendingReset.withDamage_snapshot]; exact newer.le, left⟩,
      ⟨by rw [PendingReset.withDamage_snapshot], right⟩⟩

theorem mergePending_ok {pending incoming : PendingReset}
    (compatible : (view incoming.snapshot).generation = (view pending.snapshot).generation →
      (view incoming.snapshot).same (view pending.snapshot) = true) :
    ∃ merged, mergePending view pending incoming = .ok merged := by
  unfold mergePending
  simp only
  split
  · exact ⟨_, rfl⟩
  · rename_i equal
    rw [if_pos (compatible (compare_eq_iff_eq.mp equal))]
    split
    · exact ⟨_, rfl⟩
    · exact ⟨_, rfl⟩
  · exact ⟨_, rfl⟩

theorem NotBefore.compatible {first second : SnapshotArc} (later : NotBefore view first second)
    (level : (view second).generation = (view first).generation) : (view second).same (view first) = true := by
  rcases later with less | same
  · omega
  · exact NetworkSnapshot.same_symm same

theorem queuePending_cases (state : CoordinatorState) (incoming : PendingReset) :
    (∃ error, queuePending view state incoming = (.error error, state) ∧
      ∃ pending, state.pending = some pending ∧ ¬∃ merged, mergePending view pending incoming = .ok merged) ∨
    ∃ disposition merged, queuePending view state incoming =
        (.ok disposition, { state with pending := some merged, phase := .resetPending }) ∧
      (merged.snapshot = incoming.snapshot ∨ ∃ pending, state.pending = some pending ∧
        merged.snapshot = pending.snapshot) ∧
      merged.Covers view incoming ∧ ∀ pending, state.pending = some pending → merged.Covers view pending := by
  cases held : state.pending with
  | none =>
    refine .inr ⟨.queued, incoming, ?_, .inl rfl, .refl _, nofun⟩
    simp only [queuePending, held]
  | some pending =>
    cases merge : mergePending view pending incoming with
    | error error =>
      refine .inl ⟨error, ?_, pending, rfl, ?_⟩
      · simp only [queuePending, held, merge]
      · rw [merge]
        simp
    | ok merged =>
      obtain ⟨origin, coversPending, coversIncoming⟩ := mergePending_covers merge
      refine .inr ⟨.coalesced, merged, ?_, ?_, coversIncoming, ?_⟩
      · simp only [queuePending, held, merge]
      · rcases origin with old | new
        · exact .inr ⟨pending, rfl, old⟩
        · exact .inl new
      · intro other same
        cases same
        exact coversPending

end Merge

namespace Coordinator

section Invariant

variable (view : SnapshotArc → NetworkSnapshot)

/-- The stale owners that an attempt has still to wait for are of these kinds. -/
def StaleKinds (owners : List (Nat × RuntimeOwnerEntry)) (target : PendingReset) (kinds : List NetworkRuntimeOwnerKind) :
    Prop :=
  ∀ owner ∈ owners, owner.2.isStale (signalOf view target) = true → owner.2.kind ∈ kinds

/-- An ordinary attempt that cancels owners has published its snapshot. -/
def TargetPublished (published : SnapshotArc) (target : PendingReset) : Prop :=
  target.intent.fullRebuildDamage = none → (view published).generation = (view target.snapshot).generation

def AttemptHolds (published : SnapshotArc) (owners : List (Nat × RuntimeOwnerEntry)) (target : PendingReset) :
    AttemptStage → Prop
  | .collecting kinds => StaleKinds view owners target kinds ∧ TargetPublished view published target
  | .sending kinds _ => StaleKinds view owners target kinds ∧ TargetPublished view published target
  | .waiting kinds => StaleKinds view owners target kinds ∧ TargetPublished view published target
  | .completing => StaleKinds view owners target [] ∧ TargetPublished view published target
  | .running _ => (view published).generation = (view target.snapshot).generation
  | _ => True

/-- The joint invariant of phase, pending, active and held resets, driver and published snapshot. -/
structure Invariant (world : Coordinator) : Prop where
  opened : world.state.phase = .active → world.state.pending = none ∧ world.state.active = none ∧
    world.state.fullRebuild = none ∧
      ∀ owner ∈ world.state.runtimeOwners, owner.2.generation = (view world.published).generation
  held : world.state.phase ≠ .active →
    world.state.pending ≠ none ∨ world.state.active ≠ none ∨ world.state.fullRebuild ≠ none
  rebuild : ∀ rebuild, world.state.fullRebuild = some rebuild →
    rebuild.intent.fullRebuildDamage.isSome = true ∧ world.state.pending = none ∧ world.state.active = none
  attempt : world.state.active = (world.driver.bind (·.stage.target)).map fun target => ⟨target.snapshot⟩
  ordered : ∀ active pending, world.state.active = some active → world.state.pending = some pending →
    NotBefore view active.snapshot pending.snapshot
  owners : ∀ owner ∈ world.state.runtimeOwners, owner.2.generation ≤ (view world.published).generation
  read : ∀ submission, world.submission = some submission →
    submission.current = world.published ∨ world.state.active ≠ none
  stage : ∀ driver target stage, world.driver = some driver → driver.stage = .attempting target stage →
    AttemptHolds view world.published world.state.runtimeOwners target stage

end Invariant

variable {view : SnapshotArc → NetworkSnapshot} {world : Coordinator} {driver : Driver}

theorem invariant_new (initial : SnapshotArc) : (Coordinator.new initial).Invariant view where
  opened := fun _ => ⟨rfl, rfl, rfl, by simp [Coordinator.new, CoordinatorState.new]⟩
  held := fun closed => absurd rfl closed
  rebuild := by simp [Coordinator.new, CoordinatorState.new]
  attempt := rfl
  ordered := by simp [Coordinator.new, CoordinatorState.new]
  owners := by simp [Coordinator.new, CoordinatorState.new]
  read := by simp [Coordinator.new]
  stage := by simp [Coordinator.new]

section

variable (invariant : world.Invariant view)
include invariant

theorem Invariant.atStage (here : world.driver = some driver) {next : Driver}
    {stage : DriverStage} (target : stage.target = driver.stage.target)
    (holds : ∀ target attempt, stage = .attempting target attempt →
      AttemptHolds view world.published world.state.runtimeOwners target attempt) :
    (world.atStage next stage).Invariant view where
  opened := invariant.opened
  held := invariant.held
  rebuild := invariant.rebuild
  attempt := by
    have old := invariant.attempt
    rw [here] at old
    simpa only [Coordinator.atStage, bind_some, target] using old
  ordered := invariant.ordered
  owners := invariant.owners
  read := invariant.read
  stage := by
    intro other goal attempt same at_
    cases same
    exact holds goal attempt at_

theorem Invariant.active_of_attempting (here : world.driver = some driver)
    {target : PendingReset} {stage : AttemptStage} (at_ : driver.stage = .attempting target stage) :
    world.state.active = some ⟨target.snapshot⟩ := by
  rw [invariant.attempt, here]
  simp only [bind_some, at_, DriverStage.target, map_some]

theorem Invariant.not_open_of_active {active : ActiveReset}
    (here : world.state.active = some active) : world.state.phase ≠ .active := by
  intro opened
  rw [(invariant.opened opened).2.1] at here
  simp at here

theorem Invariant.no_rebuild_of_active {active : ActiveReset}
    (here : world.state.active = some active) : world.state.fullRebuild = none := by
  cases held : world.state.fullRebuild with
  | none => rfl
  | some rebuild =>
    rw [(invariant.rebuild rebuild held).2.2] at here
    simp at here

end

theorem mem_sendCancellation {id : Nat} {signal : NetworkResetSignal} {owner : Nat × RuntimeOwnerEntry}
    (member : owner ∈ (world.sendCancellation id signal).state.runtimeOwners) :
    ∃ old ∈ world.state.runtimeOwners, old.1 = owner.1 ∧ old.2.generation = owner.2.generation ∧
      old.2.kind = owner.2.kind := by
  obtain ⟨old, inside, rfl⟩ := List.mem_map.mp member
  refine ⟨old, inside, ?_⟩
  split <;> exact ⟨rfl, rfl, rfl⟩

theorem isStale_congr {left right : RuntimeOwnerEntry} (same : left.generation = right.generation)
    (signal : NetworkResetSignal) : left.isStale signal = right.isStale signal := by
  simp only [RuntimeOwnerEntry.isStale, same]

theorem Invariant.sendCancellation (invariant : world.Invariant view) (id : Nat) (signal : NetworkResetSignal) :
    (world.sendCancellation id signal).Invariant view where
  opened := by
    intro opened
    obtain ⟨pending, active, rebuild, owners⟩ := invariant.opened opened
    refine ⟨pending, active, rebuild, fun owner member => ?_⟩
    obtain ⟨old, inside, -, generation, -⟩ := mem_sendCancellation member
    exact generation ▸ owners old inside
  held := invariant.held
  rebuild := invariant.rebuild
  attempt := invariant.attempt
  ordered := invariant.ordered
  owners := by
    intro owner member
    obtain ⟨old, inside, -, generation, -⟩ := mem_sendCancellation member
    exact generation ▸ invariant.owners old inside
  read := invariant.read
  stage := by
    intro driver target stage here at_
    have old := invariant.stage driver target stage here at_
    have stale : ∀ kinds, StaleKinds view world.state.runtimeOwners target kinds →
        StaleKinds view (world.sendCancellation id signal).state.runtimeOwners target kinds := by
      intro kinds before owner member isStale
      obtain ⟨previous, inside, -, generation, kind⟩ := mem_sendCancellation member
      rw [← isStale_congr generation] at isStale
      exact kind ▸ before previous inside isStale
    cases stage with
    | collecting kinds | sending kinds senders | waiting kinds => exact ⟨stale kinds old.1, old.2⟩
    | completing => exact ⟨stale [] old.1, old.2⟩
    | running hooks => exact old
    | snapshotHooks => trivial
    | reading hooks => trivial
    | publishing hooks expected => trivial
    | unwinding error => trivial

end Coordinator

variable {view : SnapshotArc → NetworkSnapshot}

theorem PendingReset.Covers.trans {first second third : PendingReset} (later : third.Covers view second)
    (earlier : second.Covers view first) : third.Covers view first :=
  ⟨earlier.1.trans later.1, fun damaged => later.2 (earlier.2 damaged)⟩

/-- The state after a request was queued: the queued reset stands for it and for what was pending, and is not before a reset in
progress. -/
structure Queued (view : SnapshotArc → NetworkSnapshot) (state : CoordinatorState) (incoming merged : PendingReset) :
    Prop where
  free : state.fullRebuild = none
  incoming : merged.Covers view incoming
  pending : ∀ pending, state.pending = some pending → merged.Covers view pending
  ordered : ∀ active, state.active = some active →
    (∀ pending, state.pending = some pending → NotBefore view active.snapshot pending.snapshot) →
      NotBefore view active.snapshot merged.snapshot

/-- What a `submit` does: it changes nothing, it queues, or it joins a held full rebuild. -/
inductive SubmitEffect (view : SnapshotArc → NetworkSnapshot) (state : CoordinatorState) (incoming : PendingReset) :
    Checked NetworkResetCoordinatorError NetworkResetRequestDisposition × CoordinatorState → Prop
  | refused (error : NetworkResetCoordinatorError) : SubmitEffect view state incoming (Checked.fail error, state)
  | noop (idle : state.active = none ∧ state.pending = none ∧ state.fullRebuild = none)
      (ordinary : incoming.intent.fullRebuildDamage = none) : SubmitEffect view state incoming (.ok .noop, state)
  | absorbed (active : ActiveReset) (here : state.active = some active)
      (covered : (view incoming.snapshot).generation ≤ (view active.snapshot).generation)
      (ordinary : incoming.intent.fullRebuildDamage = none) : SubmitEffect view state incoming (.ok .coalesced, state)
  | queued (disposition : NetworkResetRequestDisposition) (merged : PendingReset)
      (queued : Queued view state incoming merged) :
      SubmitEffect view state incoming (.ok disposition, { state with pending := some merged, phase := .resetPending })
  | joined (rebuild merged : PendingReset) (here : state.fullRebuild = some rebuild)
      (damaged : merged.intent.fullRebuildDamage.isSome = true) (old : merged.Covers view rebuild)
      (new : merged.Covers view incoming) :
      SubmitEffect view state incoming (.ok .coalesced, { state with fullRebuild := some merged })

variable {state : CoordinatorState}

theorem queuePending_effect {incoming queued : PendingReset} (free : state.fullRebuild = none)
    (covers : queued.Covers view incoming)
    (ordered : ∀ active, state.active = some active → NotBefore view active.snapshot queued.snapshot) :
    SubmitEffect view state incoming
      (Checked.ofExcept (queuePending view state queued).1, (queuePending view state queued).2) := by
  rcases @queuePending_cases view state queued with ⟨error, result, -⟩ |
    ⟨disposition, merged, result, origin, coversQueued, coversPending⟩
  · rw [result]
    exact .refused error
  · rw [result]
    refine .queued disposition merged ⟨free, coversQueued.trans covers, coversPending, ?_⟩
    intro active here older
    rcases origin with fresh | ⟨pending, held, same⟩
    · rw [fresh]
      exact ordered active here
    · rw [same]
      exact older pending held

theorem submitCovered_effect {active : ActiveReset} {incoming : PendingReset}
    (free : state.fullRebuild = none) (here : state.active = some active)
    (covered : (view incoming.snapshot).generation ≤ (view active.snapshot).generation) :
    SubmitEffect view state incoming
      (Checked.ofExcept (submitCovered view state active incoming).1, (submitCovered view state active incoming).2) := by
  unfold submitCovered
  cases damage : incoming.intent.fullRebuildDamage with
  | none => exact .absorbed active here covered damage
  | some value =>
    refine queuePending_effect free ⟨covered, fun _ => rfl⟩ ?_
    intro other same
    rw [here] at same
    cases same
    exact .refl _

theorem submitOpen_effect (current : SnapshotArc) (incoming : PendingReset) (free : state.fullRebuild = none) :
    SubmitEffect view state incoming
      (Checked.ofExcept (submitOpen view state current incoming).1, (submitOpen view state current incoming).2) := by
  unfold submitOpen
  split
  · rename_i active here
    split
    · rename_i less
      exact submitCovered_effect free here (compare_lt_iff_lt.mp less).le
    · rename_i equal
      split
      · exact submitCovered_effect free here (compare_eq_iff_eq.mp equal).le
      · exact .refused _
    · rename_i more
      refine queuePending_effect free (.refl _) ?_
      intro other same
      rw [here] at same
      cases same
      exact .inl (compare_gt_iff_gt.mp more)
  · rename_i idle
    split
    · rename_i nothing
      obtain ⟨noPending, -, ordinary⟩ := nothing
      exact .noop ⟨idle, by simpa using noPending, free⟩ (by simpa using ordinary)
    · refine queuePending_effect free (.refl _) ?_
      intro other same
      rw [idle] at same
      simp at same

theorem submitRebuild_effect {rebuild : PendingReset} (incoming : PendingReset)
    (here : state.fullRebuild = some rebuild) (damaged : rebuild.intent.fullRebuildDamage.isSome = true) :
    SubmitEffect view state incoming (submitRebuild view state rebuild incoming) := by
  unfold submitRebuild
  cases merge : mergePending view rebuild incoming with
  | error error => exact .refused error
  | ok merged =>
    obtain ⟨-, coversRebuild, coversIncoming⟩ := mergePending_covers merge
    have still := coversRebuild.2 damaged
    obtain ⟨damage, equal⟩ := isSome_iff_exists.mp still
    simp only [equal, some_or]
    exact .joined rebuild _ here rfl ⟨coversRebuild.1, fun _ => rfl⟩ ⟨coversIncoming.1, fun _ => rfl⟩

theorem submit_effect {state : CoordinatorState} (current : SnapshotArc) (incoming : PendingReset)
    (damaged : ∀ rebuild, state.fullRebuild = some rebuild → rebuild.intent.fullRebuildDamage.isSome = true) :
    SubmitEffect view state incoming (submit view state current incoming) := by
  unfold submit
  split
  · exact .refused _
  · split
    · exact .refused _
    · split
      · rename_i rebuild here
        exact submitRebuild_effect incoming here (damaged rebuild here)
      · rename_i free
        exact submitOpen_effect current incoming free

end Ferrum.Runtime
