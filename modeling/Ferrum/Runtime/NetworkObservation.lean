import Ferrum.Runtime.NetworkResetRun

namespace Ferrum.Runtime

open Option Function List Ferrum.Net

namespace Coordinator

variable {view : SnapshotArc → NetworkSnapshot} {limits : NetworkResetLimits} {world : Coordinator} {driver : Driver}

/-- No owner was admitted: every owner of after was one before, with its generation. -/
structure OwnersFrame (before after : Coordinator) : Prop where
  admitted : after.admitted = before.admitted
  nextId : after.state.nextRuntimeOwnerId = before.state.nextRuntimeOwnerId
  owners : ∀ owner ∈ after.state.runtimeOwners, ∃ old ∈ before.state.runtimeOwners,
    old.1 = owner.1 ∧ old.2.generation = owner.2.generation

variable {after : Coordinator}

theorem OwnersFrame.of_same (admitted : after.admitted = world.admitted)
    (nextId : after.state.nextRuntimeOwnerId = world.state.nextRuntimeOwnerId)
    (owners : after.state.runtimeOwners = world.state.runtimeOwners) : OwnersFrame world after :=
  ⟨admitted, nextId, fun owner member => ⟨owner, owners ▸ member, rfl, rfl⟩⟩

/-- What a region does to the published observation and to the owners. -/
inductive ObservationEffect (view : SnapshotArc → NetworkSnapshot) (before after : Coordinator) : Prop
  | kept (frame : OwnersFrame before after) (published : after.published = before.published)
  | newer (frame : OwnersFrame before after)
      (newer : (view before.published).generation < (view after.published).generation)
  | refreshed (frame : OwnersFrame before after)
      (level : (view after.published).generation = (view before.published).generation)
      (preserved : (view after.published).preservesWorkFrom (view before.published) = true)
  | registered (owner : RuntimeOwnerEntry) (generation : owner.generation = (view before.published).generation)
      (published : after.published = before.published)
      (owners : after.state.runtimeOwners = before.state.runtimeOwners ++ [(before.state.nextRuntimeOwnerId, owner)])
      (admitted : after.admitted = before.admitted ++ [(before.state.nextRuntimeOwnerId, before.published)])
      (nextId : after.state.nextRuntimeOwnerId = before.state.nextRuntimeOwnerId + 1)

theorem ObservationEffect.of_same (published : after.published = world.published)
    (admitted : after.admitted = world.admitted) (nextId : after.state.nextRuntimeOwnerId = world.state.nextRuntimeOwnerId)
    (owners : after.state.runtimeOwners = world.state.runtimeOwners) : ObservationEffect view world after :=
  .kept (.of_same admitted nextId owners) published

theorem submit_owners (state : CoordinatorState) (current : SnapshotArc) (incoming : PendingReset) :
    (submit view state current incoming).2.runtimeOwners = state.runtimeOwners ∧
      (submit view state current incoming).2.nextRuntimeOwnerId = state.nextRuntimeOwnerId := by
  have queued : ∀ reset, (queuePending view state reset).2.runtimeOwners = state.runtimeOwners ∧
      (queuePending view state reset).2.nextRuntimeOwnerId = state.nextRuntimeOwnerId := by
    intro reset
    unfold queuePending
    split
    · split <;> exact ⟨rfl, rfl⟩
    · exact ⟨rfl, rfl⟩
  have covered : ∀ active, (submitCovered view state active incoming).2.runtimeOwners = state.runtimeOwners ∧
      (submitCovered view state active incoming).2.nextRuntimeOwnerId = state.nextRuntimeOwnerId := by
    intro active
    unfold submitCovered
    split
    · exact queued _
    · exact ⟨rfl, rfl⟩
  unfold submit
  split
  · exact ⟨rfl, rfl⟩
  · split
    · exact ⟨rfl, rfl⟩
    · split
      · unfold submitRebuild
        split
        · exact ⟨rfl, rfl⟩
        · split <;> exact ⟨rfl, rfl⟩
      · simp only [submitOpen]
        split
        · split
          · exact covered _
          · split
            · exact covered _
            · exact ⟨rfl, rfl⟩
          · exact queued _
        · split
          · exact ⟨rfl, rfl⟩
          · exact queued _

variable {next : Coordinator}

variable {target : PendingReset} {stage : AttemptStage} {event : HookEvent}

theorem attemptUnlocked_effect
    (run : world.attemptUnlocked view driver target event stage = some next) : ObservationEffect view world next := by
  unfold Coordinator.attemptUnlocked at run
  split at run
  · cases run
    exact .of_same rfl rfl rfl rfl
  · cases run
    refine .kept ⟨rfl, rfl, fun owner member => ?_⟩ rfl
    obtain ⟨old, inside, id, generation, -⟩ := mem_sendCancellation member
    exact ⟨old, inside, id, generation⟩
  · split at run <;> cases run <;> exact .of_same rfl rfl rfl rfl
  · split at run
    · rename_i published ok
      cases run
      obtain ⟨rfl, newer⟩ := publishIfCurrent_ok ok
      exact .newer (.of_same rfl rfl rfl) newer
    · cases run
      exact .of_same rfl rfl rfl rfl
  · cases run
    exact .of_same rfl rfl rfl rfl
  · split at run <;> cases run <;> exact .of_same rfl rfl rfl rfl
  · simp at run

theorem attemptLocked_effect
    (run : world.attemptLocked view driver target stage = some next) : ObservationEffect view world next := by
  unfold Coordinator.attemptLocked at run
  split at run
  · cases run
    exact .of_same rfl rfl rfl rfl
  · cases run
    exact .of_same rfl rfl rfl rfl
  · simp at run
  · split at run
    · cases run
      exact .of_same rfl rfl rfl rfl
    · simp at run
  · cases run
    exact .of_same rfl rfl rfl rfl
  · split at run
    · cases run
      unfold holdRebuild
      split <;> exact .of_same rfl rfl rfl rfl
    · cases run
      exact .of_same rfl rfl rfl rfl
  · cases run
    exact .of_same rfl rfl rfl rfl
  · simp at run

theorem driveStep_effect (run : world.driveStep view driver event = some next) :
    ObservationEffect view world next := by
  unfold Coordinator.driveStep at run
  split at run
  · split at run
    · rename_i ran
      cases run
      exact attemptUnlocked_effect ran
    · split at run
      · simp at run
      · exact attemptLocked_effect run
  · split at run
    · simp at run
    · cases run
      unfold checkRebuild
      split <;> exact .of_same rfl rfl rfl rfl
  · split at run
    · simp at run
    · cases run
      unfold takePending
      split <;> exact .of_same rfl rfl rfl rfl
  · split at run
    · simp at run
    · cases run
      unfold recheck
      split <;> exact .of_same rfl rfl rfl rfl
  · simp at run

theorem acknowledge_effect (snapshot : SnapshotArc) :
    ObservationEffect view world (world.acknowledgeFullRebuild view snapshot).2 := by
  unfold acknowledgeFullRebuild
  split
  · exact .of_same rfl rfl rfl rfl
  · split
    · exact .of_same rfl rfl rfl rfl
    · split
      · exact .of_same rfl rfl rfl rfl
      · split
        · exact .of_same rfl rfl rfl rfl
        · rename_i published ok
          unfold publishSnapshot at ok
          split at ok
          · cases ok
            exact .of_same rfl rfl rfl rfl
          · simp at ok
          · obtain ⟨rfl, newer⟩ := publishIfCurrent_ok ok
            exact .newer (.of_same rfl rfl rfl) newer

theorem registerOwner_effect (snapshot : SnapshotArc) (kind : NetworkRuntimeOwnerKind) :
    ObservationEffect view world (world.registerRuntimeOwner view limits snapshot kind).2 := by
  unfold registerRuntimeOwner
  split
  · exact .of_same rfl rfl rfl rfl
  · split
    · exact .of_same rfl rfl rfl rfl
    · rename_i current
      rw [not_not] at current
      subst current
      split
      · exact .of_same rfl rfl rfl rfl
      · split
        · exact .of_same rfl rfl rfl rfl
        · exact .registered _ rfl rfl rfl rfl rfl

theorem step_effect {move : CoordinatorMove} {reply : CoordinatorReply}
    (run : world.step view limits move = some (reply, next)) : ObservationEffect view world next := by
  cases move with
  | submitLock snapshot intent | driveLock =>
    simp only [Coordinator.step] at run
    split at run
    · simp at run
    · cases run
      exact .of_same rfl rfl rfl rfl
  | submitFinish =>
    simp only [Coordinator.step, map_eq_some_iff, Prod.mk.injEq] at run
    obtain ⟨submission, -, -, rfl⟩ := run
    have owners := @submit_owners view world.state submission.current submission.request
    exact .of_same rfl rfl owners.2 owners.1
  | driveStep event =>
    simp only [Coordinator.step, map_eq_some_iff, bind_eq_some_iff, Prod.mk.injEq] at run
    obtain ⟨later, ⟨driver, -, ran⟩, -, rfl⟩ := run
    exact driveStep_effect ran
  | driveDrop =>
    simp only [Coordinator.step, map_eq_some_iff, bind_eq_some_iff, Prod.mk.injEq] at run
    obtain ⟨later, ⟨driver, -, ran⟩, -, rfl⟩ := run
    unfold Coordinator.driveDrop at ran
    split at ran
    · cases ran
      exact .of_same rfl rfl rfl rfl
    · cases ran
      exact .of_same rfl rfl rfl rfl
    · simp at ran
  | driveUnlock =>
    simp only [Coordinator.step] at run
    split at run
    · cases run
      exact .of_same rfl rfl rfl rfl
    · simp at run
  | acknowledge snapshot =>
    simp only [Coordinator.step] at run
    split at run
    · simp at run
    · obtain ⟨-, -, rfl⟩ := locked_eq_some run
      exact acknowledge_effect snapshot
  | refresh expected later =>
    simp only [Coordinator.step] at run
    obtain ⟨-, -, rfl⟩ := locked_eq_some run
    unfold refreshNetworkObservation
    split
    · rename_i checks
      obtain ⟨-, rfl, level, preserved⟩ := checks
      exact .refreshed (.of_same rfl rfl rfl) level preserved
    · exact .of_same rfl rfl rfl rfl
  | registerOwner snapshot kind =>
    simp only [Coordinator.step] at run
    obtain ⟨-, -, rfl⟩ := locked_eq_some run
    exact registerOwner_effect snapshot kind
  | dropOwner id =>
    simp only [Coordinator.step] at run
    obtain ⟨-, -, rfl⟩ := locked_eq_some run
    refine .kept ⟨rfl, rfl, fun owner member => ?_⟩ rfl
    exact ⟨owner, (mem_filter.mp member).1, rfl, rfl⟩
  | registerHook stage =>
    simp only [Coordinator.step] at run
    obtain ⟨-, -, rfl⟩ := locked_eq_some run
    unfold registerResetHook
    split
    · exact .of_same rfl rfl rfl rfl
    · split
      · exact .of_same rfl rfl rfl rfl
      · split <;> exact .of_same rfl rfl rfl rfl
  | dropHook id =>
    simp only [Coordinator.step] at run
    obtain ⟨-, -, rfl⟩ := locked_eq_some run
    exact .of_same rfl rfl rfl rfl

/-- Work bound under an observation is still valid under the published one. -/
def WorkValid (view : SnapshotArc → NetworkSnapshot) (published observation : SnapshotArc) : Prop :=
  published = observation ∨ (view published).preservesWorkFrom (view observation) = true

/-- Every live owner was admitted under one observation of its generation, and while that is published its work is valid. -/
structure ObservationInvariant (view : SnapshotArc → NetworkSnapshot) (world : Coordinator) : Prop where
  numbered : ∀ entry ∈ world.admitted, entry.1 < world.state.nextRuntimeOwnerId
  unique : ∀ first ∈ world.admitted, ∀ second ∈ world.admitted, first.1 = second.1 → first = second
  logged : ∀ owner ∈ world.state.runtimeOwners, ∃ observation, (owner.1, observation) ∈ world.admitted ∧
    owner.2.generation = (view observation).generation ∧
      (owner.2.generation = (view world.published).generation → WorkValid view world.published observation)

theorem ObservationInvariant.frame {after : Coordinator} (invariant : ObservationInvariant view world)
    (frame : OwnersFrame world after)
    (valid : ∀ owner ∈ world.state.runtimeOwners, ∀ observation,
      owner.2.generation = (view observation).generation →
      (owner.2.generation = (view world.published).generation → WorkValid view world.published observation) →
        owner.2.generation = (view after.published).generation → WorkValid view after.published observation) :
    ObservationInvariant view after where
  numbered := by
    rw [frame.admitted, frame.nextId]
    exact invariant.numbered
  unique := by
    rw [frame.admitted]
    exact invariant.unique
  logged := by
    intro owner member
    obtain ⟨old, inside, id, generation⟩ := frame.owners owner member
    obtain ⟨observation, entry, level, work⟩ := invariant.logged old inside
    refine ⟨observation, ?_, generation ▸ level, fun current => ?_⟩
    · rw [frame.admitted, ← id]
      exact entry
    · exact valid old inside observation level work (generation.trans current)

theorem ObservationInvariant.step (observed : ObservationInvariant view world) (invariant : world.Invariant view)
    (effect : ObservationEffect view world after) : ObservationInvariant view after := by
  cases effect with
  | kept frame published =>
    refine observed.frame frame fun owner _ observation _ work current => ?_
    rw [published] at current ⊢
    exact work current
  | newer frame newer =>
    refine observed.frame frame fun owner member observation _ _ current => ?_
    have bounded := invariant.owners owner member
    omega
  | refreshed frame level preserved =>
    refine observed.frame frame fun owner _ observation _ work current => ?_
    rcases work (current.trans level) with same | earlier
    · exact .inr (same ▸ preserved)
    · exact .inr (NetworkSnapshot.preservesWorkFrom_trans preserved earlier)
  | registered owner generation published owners admitted nextId =>
    refine ⟨?_, ?_, ?_⟩
    · rw [admitted, nextId]
      intro entry member
      rcases mem_append.mp member with old | new
      · exact Nat.lt_succ_of_lt (observed.numbered entry old)
      · rw [mem_singleton.mp new]
        exact Nat.lt_succ_self _
    · rw [admitted]
      intro first inFirst second inSecond same
      rcases mem_append.mp inFirst with oldFirst | newFirst
      · rcases mem_append.mp inSecond with oldSecond | newSecond
        · exact observed.unique first oldFirst second oldSecond same
        · rw [mem_singleton.mp newSecond] at same
          exact absurd same (Nat.ne_of_lt (observed.numbered first oldFirst))
      · rcases mem_append.mp inSecond with oldSecond | newSecond
        · rw [mem_singleton.mp newFirst] at same
          exact absurd same.symm (Nat.ne_of_lt (observed.numbered second oldSecond))
        · rw [mem_singleton.mp newFirst, mem_singleton.mp newSecond]
    · rw [admitted, owners, published]
      intro other member
      rcases mem_append.mp member with old | new
      · obtain ⟨observation, entry, level, work⟩ := observed.logged other old
        exact ⟨observation, mem_append_left _ entry, level, work⟩
      · rw [mem_singleton.mp new]
        exact ⟨world.published, mem_append_right _ (mem_singleton_self _), generation, fun _ => .inl rfl⟩

theorem observationInvariant_new (initial : SnapshotArc) : ObservationInvariant view (Coordinator.new initial) where
  numbered := by simp [Coordinator.new]
  unique := by simp [Coordinator.new]
  logged := by simp [Coordinator.new, CoordinatorState.new]

end Coordinator

/-- What an admission call is given: the resolver and the preparation, each with what it reads around it, and the selection
source. -/
structure AdmissionClient (Environment Resolved Resource Source ResolutionError PreparationError : Type) where
  resolve : NetworkSnapshot → Environment → Except ResolutionError Resolved
  prepare : Resolved → Environment → Except PreparationError Resource
  selectionSource : Resolved → Source
  attemptedSource : ResolutionError → Source

inductive NetworkRuntimeResourceAdmissionError (Source ResolutionError PreparationError : Type)
  | interfaceResolution (error : ResolutionError)
  | preparation (attemptedSource : Source) (error : PreparationError)
  | networkGenerationChanged (attemptedSource : Source)
  | runtimeOwnerRegistration (attemptedSource : Source) (error : NetworkRuntimeOwnerRegistrationError)

structure AdmittedNetworkRuntimeResource (Resolved Resource : Type) where
  resource : Resource
  resolvedInterface : Resolved
  owner : Nat

/-- Where a call of `prepare_and_admit_runtime_resource` stands. It holds no lock between two stages. -/
inductive AdmissionStage (Resolved Resource Source ResolutionError PreparationError : Type)
  | starting (attempt : Nat)
  | resolving (attempt : Nat) (snapshot : SnapshotArc)
  | unresolved (attempt : Nat) (snapshot : SnapshotArc) (error : ResolutionError)
  | preparing (attempt : Nat) (snapshot : SnapshotArc) (resolved : Resolved)
  | unprepared (attempt : Nat) (snapshot : SnapshotArc) (resolved : Resolved) (error : PreparationError)
  | prepared (attempt : Nat) (snapshot : SnapshotArc) (resolved : Resolved) (resource : Resource)
  | registering (attempt : Nat) (snapshot : SnapshotArc) (resolved : Resolved) (resource : Resource)
  | returned (result : Except (NetworkRuntimeResourceAdmissionError Source ResolutionError PreparationError)
      (AdmittedNetworkRuntimeResource Resolved Resource))

section Call

variable {Environment Resolved Resource Source ResolutionError PreparationError : Type}

/-- A stale observation: the first attempt starts again, the second one gives up. -/
def AdmissionStage.retry (attempt : Nat) (source : Source) :
    AdmissionStage Resolved Resource Source ResolutionError PreparationError :=
  if attempt = 0 then .starting 1 else .returned (.error (.networkGenerationChanged source))

variable (view : SnapshotArc → NetworkSnapshot) (limits : NetworkResetLimits)
  (client : AdmissionClient Environment Resolved Resource Source ResolutionError PreparationError)

/-- What the call does with the outcome of the registration. -/
def AdmissionStage.registered (attempt : Nat) (resolved : Resolved) (resource : Resource)
    (result : Except NetworkRuntimeOwnerRegistrationError Nat) :
    AdmissionStage Resolved Resource Source ResolutionError PreparationError :=
  match result with
  | .ok owner => .returned (.ok ⟨resource, resolved, owner⟩)
  | .error .staleGeneration => .retry attempt (client.selectionSource resolved)
  | .error error => .returned (.error (.runtimeOwnerRegistration (client.selectionSource resolved) error))

/-- The next region of the call. -/
def admissionStep (world : Coordinator) (kind : NetworkRuntimeOwnerKind) (environment : Environment) :
    AdmissionStage Resolved Resource Source ResolutionError PreparationError →
      Option (Coordinator × AdmissionStage Resolved Resource Source ResolutionError PreparationError)
  | .starting attempt => some (world, .resolving attempt world.published)
  | .resolving attempt snapshot =>
    match client.resolve (view snapshot) environment with
    | .ok resolved => some (world, .preparing attempt snapshot resolved)
    | .error error => some (world, .unresolved attempt snapshot error)
  | .unresolved attempt snapshot error =>
    if world.published ≠ snapshot then some (world, .retry attempt (client.attemptedSource error))
    else some (world, .returned (.error (.interfaceResolution error)))
  | .preparing attempt snapshot resolved =>
    match client.prepare resolved environment with
    | .ok resource => some (world, .prepared attempt snapshot resolved resource)
    | .error error => some (world, .unprepared attempt snapshot resolved error)
  | .unprepared attempt snapshot resolved error =>
    if world.published ≠ snapshot then some (world, .retry attempt (client.selectionSource resolved))
    else some (world, .returned (.error (.preparation (client.selectionSource resolved) error)))
  | .prepared attempt snapshot resolved resource =>
    if world.published ≠ snapshot then some (world, .retry attempt (client.selectionSource resolved))
    else some (world, .registering attempt snapshot resolved resource)
  | .registering attempt snapshot resolved resource =>
    if world.submission.isSome then none
    else
      let outcome := world.registerRuntimeOwner view limits snapshot kind
      some (outcome.2, .registered client attempt resolved resource outcome.1)
  | .returned _ => none

end Call

/-- The coordinator with any number of admission calls. -/
structure AdmissionSystem (Resolved Resource Source ResolutionError PreparationError : Type) where
  coordinator : Coordinator
  kinds : Nat → NetworkRuntimeOwnerKind
  calls : Nat → AdmissionStage Resolved Resource Source ResolutionError PreparationError

/-- A region of the coordinator's calls, or of an admission call. -/
inductive AdmissionMove (Environment : Type)
  | coordinator (move : CoordinatorMove)
  | call (thread : Nat) (environment : Environment)

namespace AdmissionSystem

variable {Environment Resolved Resource Source ResolutionError PreparationError : Type}

def new (initial : SnapshotArc) (kinds : Nat → NetworkRuntimeOwnerKind) :
    AdmissionSystem Resolved Resource Source ResolutionError PreparationError :=
  { coordinator := .new initial, kinds, calls := fun _ => .starting 0 }

section Runs

variable (view : SnapshotArc → NetworkSnapshot) (limits : NetworkResetLimits)
  (client : AdmissionClient Environment Resolved Resource Source ResolutionError PreparationError)

def step (system : AdmissionSystem Resolved Resource Source ResolutionError PreparationError) :
    AdmissionMove Environment → Option (AdmissionSystem Resolved Resource Source ResolutionError PreparationError)
  | .coordinator move =>
    (system.coordinator.step view limits move).map fun outcome => { system with coordinator := outcome.2 }
  | .call thread environment =>
    (admissionStep view limits client system.coordinator (system.kinds thread) environment (system.calls thread)).map
      fun outcome => { system with coordinator := outcome.1, calls := update system.calls thread outcome.2 }

inductive Reachable (initial : SnapshotArc) (kinds : Nat → NetworkRuntimeOwnerKind) :
    AdmissionSystem Resolved Resource Source ResolutionError PreparationError → Prop
  | new : Reachable initial kinds (.new initial kinds)
  | step {system next : AdmissionSystem Resolved Resource Source ResolutionError PreparationError}
      {move : AdmissionMove Environment} (reach : Reachable initial kinds system)
      (run : system.step view limits client move = some next) : Reachable initial kinds next

end Runs

variable {view : SnapshotArc → NetworkSnapshot} {limits : NetworkResetLimits}
  {client : AdmissionClient Environment Resolved Resource Source ResolutionError PreparationError}

/-- The resolved interface came from the snapshot, and the resource from the resolved interface. -/
def PreparedAgainst (client : AdmissionClient Environment Resolved Resource Source ResolutionError PreparationError)
    (snapshot : NetworkSnapshot) (resolved : Resolved) (resource : Resource) : Prop :=
  (∃ environment, client.resolve snapshot environment = .ok resolved) ∧
    ∃ environment, client.prepare resolved environment = .ok resource

/-- What a call knows of the snapshot that it started from. -/
def StageHolds (view : SnapshotArc → NetworkSnapshot)
    (client : AdmissionClient Environment Resolved Resource Source ResolutionError PreparationError) :
    AdmissionStage Resolved Resource Source ResolutionError PreparationError → Prop
  | .preparing _ snapshot resolved => ∃ environment, client.resolve (view snapshot) environment = .ok resolved
  | .prepared _ snapshot resolved resource => PreparedAgainst client (view snapshot) resolved resource
  | .registering _ snapshot resolved resource => PreparedAgainst client (view snapshot) resolved resource
  | _ => True

theorem stageHolds_retry (attempt : Nat) (source : Source) :
    StageHolds view client (AdmissionStage.retry attempt source) := by
  unfold AdmissionStage.retry
  split <;> trivial

theorem stageHolds_registered (attempt : Nat) (resolved : Resolved) (resource : Resource)
    (result : Except NetworkRuntimeOwnerRegistrationError Nat) :
    StageHolds view client (AdmissionStage.registered client attempt resolved resource result) := by
  unfold AdmissionStage.registered
  split
  · trivial
  · exact stageHolds_retry _ _
  · trivial

variable {after : Coordinator} {kind : NetworkRuntimeOwnerKind} {environment : Environment}
  {stage : AdmissionStage Resolved Resource Source ResolutionError PreparationError}

variable {world : Coordinator}

theorem admissionStep_holds
    {next : AdmissionStage Resolved Resource Source ResolutionError PreparationError} (holds : StageHolds view client stage)
    (run : admissionStep view limits client world kind environment stage = some (after, next)) :
    StageHolds view client next := by
  cases stage with
  | starting attempt =>
    cases run
    trivial
  | resolving attempt snapshot =>
    simp only [admissionStep] at run
    split at run
    · rename_i resolved ok
      cases run
      exact ⟨environment, ok⟩
    · cases run
      trivial
  | unresolved attempt snapshot error | unprepared attempt snapshot resolved error =>
    simp only [admissionStep] at run
    split at run
    · cases run
      exact stageHolds_retry _ _
    · cases run
      trivial
  | preparing attempt snapshot resolved =>
    simp only [admissionStep] at run
    split at run
    · rename_i resource ok
      cases run
      exact ⟨holds, environment, ok⟩
    · cases run
      trivial
  | prepared attempt snapshot resolved resource =>
    simp only [admissionStep] at run
    split at run
    · cases run
      exact stageHolds_retry _ _
    · cases run
      exact holds
  | registering attempt snapshot resolved resource =>
    simp only [admissionStep] at run
    split at run
    · simp at run
    · cases run
      exact stageHolds_registered _ _ _ _
  | returned result => simp [admissionStep] at run

theorem admissionStep_world {next : AdmissionStage Resolved Resource Source ResolutionError PreparationError}
    (run : admissionStep view limits client world kind environment stage = some (after, next)) :
    after = world ∨ ∃ snapshot, after = (world.registerRuntimeOwner view limits snapshot kind).2 := by
  cases stage with
  | registering attempt snapshot resolved resource =>
    simp only [admissionStep] at run
    split at run
    · simp at run
    · cases run
      exact .inr ⟨snapshot, rfl⟩
  | starting attempt =>
    cases run
    exact .inl rfl
  | resolving attempt snapshot | unresolved attempt snapshot error | preparing attempt snapshot resolved
  | unprepared attempt snapshot resolved error | prepared attempt snapshot resolved resource =>
    simp only [admissionStep] at run
    split at run <;> cases run <;> exact .inl rfl
  | returned result => simp [admissionStep] at run

structure Invariant (view : SnapshotArc → NetworkSnapshot)
    (client : AdmissionClient Environment Resolved Resource Source ResolutionError PreparationError)
    (system : AdmissionSystem Resolved Resource Source ResolutionError PreparationError) : Prop where
  coordinator : system.coordinator.Invariant view
  observed : Coordinator.ObservationInvariant view system.coordinator
  calls : ∀ thread, StageHolds view client (system.calls thread)

variable {system next : AdmissionSystem Resolved Resource Source ResolutionError PreparationError}

theorem Invariant.step (invariant : system.Invariant view client) {move : AdmissionMove Environment}
    (run : system.step view limits client move = some next) : next.Invariant view client := by
  cases move with
  | coordinator move =>
    simp only [AdmissionSystem.step, map_eq_some_iff, Prod.exists] at run
    obtain ⟨reply, after, ran, rfl⟩ := run
    exact {
      coordinator := (invariant.coordinator.step ran).invariant
      observed := invariant.observed.step invariant.coordinator (Coordinator.step_effect ran)
      calls := invariant.calls }
  | call thread environment =>
    simp only [AdmissionSystem.step, map_eq_some_iff, Prod.exists] at run
    obtain ⟨after, stage, ran, rfl⟩ := run
    have world : after.Invariant view ∧ Coordinator.ObservationInvariant view after := by
      rcases admissionStep_world ran with rfl | ⟨snapshot, rfl⟩
      · exact ⟨invariant.coordinator, invariant.observed⟩
      · exact ⟨(invariant.coordinator.registerOwner snapshot _ False).invariant,
          invariant.observed.step invariant.coordinator (Coordinator.registerOwner_effect snapshot _)⟩
    refine ⟨world.1, world.2, fun other => ?_⟩
    by_cases same : other = thread
    · subst same
      simp only [update_self]
      exact admissionStep_holds (invariant.calls other) ran
    · simp only [update_of_ne same]
      exact invariant.calls other

theorem Reachable.invariant {initial : SnapshotArc} {kinds : Nat → NetworkRuntimeOwnerKind}
    (reach : Reachable view limits client initial kinds system) : system.Invariant view client := by
  induction reach with
  | new => exact ⟨Coordinator.invariant_new initial, Coordinator.observationInvariant_new initial, fun _ => trivial⟩
  | step reach run ih => exact ih.step run

theorem registerRuntimeOwner_ok {snapshot : SnapshotArc} {id : Nat}
    (ok : (world.registerRuntimeOwner view limits snapshot kind).1 = .ok id) :
    world.published = snapshot ∧ (id, snapshot) ∈ (world.registerRuntimeOwner view limits snapshot kind).2.admitted := by
  unfold Coordinator.registerRuntimeOwner at ok ⊢
  split at ok
  · simp at ok
  · split at ok
    · simp at ok
    · rename_i opened current
      split at ok
      · simp at ok
      · split at ok
        · simp at ok
        · rename_i room numbered
          cases ok
          rw [if_neg opened, if_neg current, if_neg room, if_neg numbered]
          exact ⟨by simpa using current, mem_append_right _ (mem_singleton_self _)⟩

variable {admitted : AdmittedNetworkRuntimeResource Resolved Resource}

theorem registered_ok {attempt : Nat} {resolved : Resolved} {resource : Resource}
    {result : Except NetworkRuntimeOwnerRegistrationError Nat}
    (ok : AdmissionStage.registered client attempt resolved resource result = .returned (.ok admitted)) :
    result = .ok admitted.owner ∧ admitted.resolvedInterface = resolved ∧ admitted.resource = resource := by
  unfold AdmissionStage.registered at ok
  split at ok
  · cases ok
    exact ⟨rfl, rfl, rfl⟩
  · unfold AdmissionStage.retry at ok
    split at ok <;> simp at ok
  · simp at ok

theorem admissionStep_ok (holds : StageHolds view client stage)
    (run : admissionStep view limits client world kind environment stage = some (after, .returned (.ok admitted))) :
    PreparedAgainst client (view world.published) admitted.resolvedInterface admitted.resource ∧
      (admitted.owner, world.published) ∈ after.admitted := by
  have noRetry : ∀ attempt source, AdmissionStage.retry attempt source ≠
      (.returned (.ok admitted) : AdmissionStage Resolved Resource Source ResolutionError PreparationError) := by
    intro attempt source
    unfold AdmissionStage.retry
    split <;> simp
  cases stage with
  | registering attempt snapshot resolved resource =>
    simp only [admissionStep] at run
    split at run
    · simp at run
    · simp only [some.injEq, Prod.mk.injEq] at run
      obtain ⟨rfl, outcome⟩ := run
      obtain ⟨ok, sameInterface, sameResource⟩ := registered_ok outcome
      obtain ⟨current, noted⟩ := registerRuntimeOwner_ok ok
      rw [current, sameInterface, sameResource]
      exact ⟨holds, noted⟩
  | starting attempt | returned result => simp [admissionStep] at run
  | resolving attempt snapshot | preparing attempt snapshot resolved =>
    simp only [admissionStep] at run
    split at run <;> simp at run
  | unresolved attempt snapshot error | unprepared attempt snapshot resolved error
  | prepared attempt snapshot resolved resource =>
    simp only [admissionStep] at run
    split at run
    · simp only [some.injEq, Prod.mk.injEq] at run
      exact absurd run.2 (noRetry _ _)
    · simp at run

/-- A snapshot that `from_interfaces_and_routes` builds. -/
def Built (snapshot : NetworkSnapshot) : Prop :=
  ∃ generation observationId interfaces routes,
    NetworkSnapshot.fromInterfacesAndRoutes generation observationId interfaces routes = .ok snapshot

/-- Preservation is transitive and reflexive on built snapshots; each live owner was admitted under one observation, published
or preserved while its generation is; a call returns a resource of the observation published then. -/
theorem refresh_keeps_work :
    (∀ first second third : NetworkSnapshot, Built first → Built second → Built third →
      third.preservesWorkFrom second = true → second.preservesWorkFrom first = true →
        third.preservesWorkFrom first = true) ∧
    (∀ snapshot : NetworkSnapshot, Built snapshot → snapshot.preservesWorkFrom snapshot = true) ∧
    ∀ (view : SnapshotArc → NetworkSnapshot) (limits : NetworkResetLimits)
      (client : AdmissionClient Environment Resolved Resource Source ResolutionError PreparationError)
      (initial : SnapshotArc) (kinds : Nat → NetworkRuntimeOwnerKind)
      (system : AdmissionSystem Resolved Resource Source ResolutionError PreparationError),
      Reachable view limits client initial kinds system →
        (∀ owner ∈ system.coordinator.state.runtimeOwners, ∃ observation,
          (owner.1, observation) ∈ system.coordinator.admitted ∧
          (∀ other, (owner.1, other) ∈ system.coordinator.admitted → other = observation) ∧
          (owner.2.generation = (view system.coordinator.published).generation →
            system.coordinator.published = observation ∨
              (view system.coordinator.published).preservesWorkFrom (view observation) = true ∧
                ∃ routes oldRoutes,
                  (view system.coordinator.published).PreservesWork (view observation) routes oldRoutes)) ∧
        ∀ thread environment next admitted, system.step view limits client (.call thread environment) = some next →
          next.calls thread = .returned (.ok admitted) →
            PreparedAgainst client (view system.coordinator.published) admitted.resolvedInterface admitted.resource ∧
              (admitted.owner, system.coordinator.published) ∈ next.coordinator.admitted := by
  refine ⟨?_, ?_, ?_⟩
  · intro first second third _ _ _ later earlier
    exact NetworkSnapshot.preservesWorkFrom_trans later earlier
  · rintro snapshot ⟨generation, observationId, interfaces, routes, built⟩
    exact NetworkSnapshot.preservesWorkFrom_self (NetworkSnapshot.fromInterfacesAndRoutes_routes built)
  · intro view limits client initial kinds system reach
    have invariant := reach.invariant
    refine ⟨fun owner member => ?_, fun thread environment next admitted run returned => ?_⟩
    · obtain ⟨observation, entry, -, work⟩ := invariant.observed.logged owner member
      refine ⟨observation, entry, ?_, fun current => ?_⟩
      · intro other inside
        have same := invariant.observed.unique _ inside _ entry rfl
        exact (Prod.mk.inj same).2
      · rcases work current with same | preserved
        · exact .inl same
        · exact .inr ⟨preserved, NetworkSnapshot.preservesWorkFrom_iff.mp preserved⟩
    · simp only [AdmissionSystem.step, map_eq_some_iff, Prod.exists] at run
      obtain ⟨after, stage, ran, rfl⟩ := run
      simp only [update_self] at returned
      subst returned
      exact admissionStep_ok (invariant.calls thread) ran

/-- A route that appears with the second observation, on an interface that the first one has no row of. -/
def sampleRoute : NetworkRouteObservation :=
  { stableId := 7, index := 3, destination := .v4 (.new 10 0 0 0), prefixLength := 8, nextHop := .v4 (.new 10 0 0 1)
    metric := 5 }

/-- Two observations of generation 4. -/
def sampleObservations (snapshot : SnapshotArc) : NetworkSnapshot :=
  { generation := 4, observationId := snapshot, routes := some (if snapshot = 0 then [] else [sampleRoute])
    ipv4Default := none, ipv6Default := none, interfaces := []
    routesSorted := by
      intro rows same
      cases same
      split
      · exact .nil
      · exact pairwise_singleton _ _ }

def sampleAdmissionLimits : NetworkResetLimits :=
  { maxHooks := 8, maxRuntimeOwners := 1024, hooksBounded := by decide, ownersBounded := by decide }

/-- The interface is the number of routes of the snapshot, and the resource is the interface. -/
def sampleClient : AdmissionClient Unit Nat Nat Unit Unit Unit :=
  { resolve := fun snapshot _ => .ok (snapshot.routes.getD []).length
    prepare := fun resolved _ => .ok resolved
    selectionSource := fun _ => ()
    attemptedSource := fun _ => () }

/-- A resource admitted under the first observation, and then a refresh to the second one. -/
theorem sampleRefresh_keeps_work : ∃ system : AdmissionSystem Nat Nat Unit Unit Unit,
    Reachable sampleObservations sampleAdmissionLimits sampleClient 0 (fun _ => .tcpConnection) system ∧
      system.coordinator.published = 1 ∧ system.coordinator.state.runtimeOwners ≠ [] ∧
        (sampleObservations 1).preservesWorkFrom (sampleObservations 0) = true := by
  have reach : Reachable sampleObservations sampleAdmissionLimits sampleClient 0 (fun _ => .tcpConnection) _ :=
    @Reachable.step _ _ _ _ _ _ _ _ _ _ _ _ _ (.coordinator (.refresh 0 1))
      (@Reachable.step _ _ _ _ _ _ _ _ _ _ _ _ _ (.call 0 ())
        (@Reachable.step _ _ _ _ _ _ _ _ _ _ _ _ _ (.call 0 ())
          (@Reachable.step _ _ _ _ _ _ _ _ _ _ _ _ _ (.call 0 ())
            (@Reachable.step _ _ _ _ _ _ _ _ _ _ _ _ _ (.call 0 ())
              (@Reachable.step _ _ _ _ _ _ _ _ _ _ _ _ _ (.call 0 ()) .new rfl) rfl) rfl) rfl) rfl) rfl
  have safe := (@refresh_keeps_work Unit Nat Nat Unit Unit Unit).2.2 _ _ _ _ _ _ reach
  obtain ⟨observation, entry, -, work⟩ := safe.1 (1, ⟨4, .tcpConnection, none⟩) (mem_singleton_self _)
  have admitted : observation = 0 := (Prod.mk.inj (mem_singleton.mp entry)).2
  subst admitted
  refine ⟨_, reach, rfl, cons_ne_nil _ _, ?_⟩
  rcases work rfl with same | preserved
  · exact absurd same (by decide)
  · exact preserved.1

end AdmissionSystem

end Ferrum.Runtime
