import Ferrum.Lib.Checked
import Ferrum.Net.Snapshot

namespace Ferrum.Runtime

open Ferrum.Net

/-- The allocation behind an `Arc<NetworkSnapshot>`: `ptr_eq` compares these. -/
abbrev SnapshotArc := Nat

/-- Ordinary network-semantic event that requests a lightweight reset. -/
inductive NetworkResetReason
  | routeChanged | interfaceChanged | unicastAddressChanged | defaultInterfaceChanged | sourceAddressInvalid
  | explicitRequest | generationChangedDuringBind
  deriving DecidableEq, Repr

/-- Managed-plane damage that permits a full rebuild. -/
inductive ManagedNetworkDamage
  | adapterInvalid | deviceSessionFatal | interfaceIdentityMismatch | managedAddressDamaged | managedRouteDamaged
  | managedDnsDamaged | managedMtuDamaged | strictRouteDamaged | tcpIngress | ownershipLedgerUntrusted
  | managedObjectMissing
  deriving DecidableEq, Repr

inductive NetworkResetIntent
  | ordinary (reason : NetworkResetReason)
  | fullRebuild (damage : ManagedNetworkDamage)
  deriving DecidableEq, Repr

def NetworkResetIntent.fullRebuildDamage : NetworkResetIntent → Option ManagedNetworkDamage
  | ordinary _ => none
  | fullRebuild damage => some damage

inductive NetworkRuntimeOwnerKind
  | generationTask | tcpConnection | udpAssociation
  deriving DecidableEq, Repr

/-- Fixed order for generation-bound task and connection cancellation. -/
def ownerResetOrder : List NetworkRuntimeOwnerKind := [.generationTask, .tcpConnection, .udpAssociation]

theorem mem_ownerResetOrder (kind : NetworkRuntimeOwnerKind) : kind ∈ ownerResetOrder := by
  cases kind <;> decide

inductive NetworkResetHookStage
  | stack | router | outbound | inbound
  deriving DecidableEq, Repr

def postPublishHookOrder : List NetworkResetHookStage := [.stack, .router, .outbound, .inbound]

inductive NetworkResetState
  | active | resetPending | resetting | retryReset | managedDamaged
  deriving DecidableEq, Repr

inductive NetworkResetOutcome
  | noop | resetCompleted
  | fullRebuildRequired (damage : ManagedNetworkDamage)
  | fullRebuildAcknowledged
  deriving DecidableEq, Repr

inductive NetworkResetRequestDisposition
  | noop | queued | coalesced
  deriving DecidableEq, Repr

structure NetworkResetReport where
  outcome : NetworkResetOutcome
  publishedGeneration : Nat
  completedResets : Nat
  cancelledRuntimeOwners : Nat
  deriving DecidableEq, Repr

inductive NetworkResetCoordinatorError
  | staleRequestGeneration | conflictingGenerationSnapshot
  | hookFailed (stage : NetworkResetHookStage)
  | hookPanicked (stage : NetworkResetHookStage)
  | snapshotPublicationStale | snapshotPublicationNonMonotonic
  | fullRebuildNotPending | fullRebuildGenerationTooOld | fullRebuildOwnersRemain
  deriving DecidableEq, Repr

inductive NetworkResetHookRegistrationError
  | admissionClosed | capacityExhausted | identifierExhausted
  deriving DecidableEq, Repr

inductive NetworkRuntimeOwnerRegistrationError
  | admissionClosed | staleGeneration | capacityExhausted | identifierExhausted
  deriving DecidableEq, Repr

structure NetworkResetLimits where
  maxHooks : Nat
  maxRuntimeOwners : Nat
  hooksBounded : 0 < maxHooks ∧ maxHooks ≤ 64
  ownersBounded : 0 < maxRuntimeOwners ∧ maxRuntimeOwners ≤ 1048576

structure NetworkResetSignal where
  targetGeneration : Nat
  intent : NetworkResetIntent
  deriving DecidableEq, Repr

structure PendingReset where
  snapshot : SnapshotArc
  intent : NetworkResetIntent
  deriving DecidableEq, Repr

structure ActiveReset where
  snapshot : SnapshotArc
  deriving DecidableEq, Repr

structure RuntimeOwnerEntry where
  generation : Nat
  kind : NetworkRuntimeOwnerKind
  cancellation : Option NetworkResetSignal
  deriving DecidableEq, Repr

/-- The state under the coordinator's lock; the maps are listed by identifier, which only grows. -/
structure CoordinatorState where
  phase : NetworkResetState
  hooks : List (Nat × NetworkResetHookStage)
  runtimeOwners : List (Nat × RuntimeOwnerEntry)
  nextHookId : Nat
  nextRuntimeOwnerId : Nat
  pending : Option PendingReset
  active : Option ActiveReset
  fullRebuild : Option PendingReset

def CoordinatorState.new : CoordinatorState :=
  { phase := .active, hooks := [], runtimeOwners := [], nextHookId := 1, nextRuntimeOwnerId := 1
    pending := none, active := none, fullRebuild := none }

def RuntimeOwnerEntry.isStale (owner : RuntimeOwnerEntry) (signal : NetworkResetSignal) : Bool :=
  decide (owner.generation < signal.targetGeneration) ||
    decide (owner.generation = signal.targetGeneration) && signal.intent.fullRebuildDamage.isSome

/-- The intent of the damage, if there is one. -/
def PendingReset.withDamage (reset : PendingReset) : Option ManagedNetworkDamage → PendingReset
  | some damage => { reset with intent := .fullRebuild damage }
  | none => reset

section Snapshots

variable (view : SnapshotArc → NetworkSnapshot)

/-- Keeps the newest snapshot; a full-rebuild intent of either side stays. -/
def mergePending (pending incoming : PendingReset) : Except NetworkResetCoordinatorError PendingReset :=
  let damage := pending.intent.fullRebuildDamage.or incoming.intent.fullRebuildDamage
  match compare (view incoming.snapshot).generation (view pending.snapshot).generation with
  | .lt => .ok (pending.withDamage damage)
  | .eq =>
    if (view incoming.snapshot).same (view pending.snapshot) then
      if pending.intent.fullRebuildDamage.isNone then .ok ({ pending with intent := incoming.intent }.withDamage damage)
      else .ok (pending.withDamage damage)
    else .error .conflictingGenerationSnapshot
  | .gt => .ok (incoming.withDamage damage)

variable (state : CoordinatorState)

def queuePending (incoming : PendingReset) :
    Except NetworkResetCoordinatorError NetworkResetRequestDisposition × CoordinatorState :=
  match state.pending with
  | some pending =>
    match mergePending view pending incoming with
    | .ok merged => (.ok .coalesced, { state with pending := some merged, phase := .resetPending })
    | .error error => (.error error, state)
  | none => (.ok .queued, { state with pending := some incoming, phase := .resetPending })

/-- A request while a full rebuild is held: it is merged into the held one. -/
def submitRebuild (rebuild incoming : PendingReset) :
    Checked NetworkResetCoordinatorError NetworkResetRequestDisposition × CoordinatorState :=
  match mergePending view rebuild incoming with
  | .error error => (Checked.fail error, state)
  | .ok merged =>
    match merged.intent.fullRebuildDamage.or incoming.intent.fullRebuildDamage with
    | some damage => (.ok .coalesced, { state with fullRebuild := some { merged with intent := .fullRebuild damage } })
    | none => (.error .panic, { state with fullRebuild := some merged })

/-- A request that is no newer than the reset in progress: a full rebuild is queued at its snapshot. -/
def submitCovered (active : ActiveReset) (incoming : PendingReset) :
    Except NetworkResetCoordinatorError NetworkResetRequestDisposition × CoordinatorState :=
  match incoming.intent.fullRebuildDamage with
  | some damage => queuePending view state { snapshot := active.snapshot, intent := .fullRebuild damage }
  | none => (.ok .coalesced, state)

/-- A request while no full rebuild is held. -/
def submitOpen (current : SnapshotArc) (incoming : PendingReset) :
    Except NetworkResetCoordinatorError NetworkResetRequestDisposition × CoordinatorState :=
  match state.active with
  | some active =>
    match compare (view incoming.snapshot).generation (view active.snapshot).generation with
    | .lt => submitCovered view state active incoming
    | .eq =>
      if (view incoming.snapshot).same (view active.snapshot) then submitCovered view state active incoming
      else (.error .conflictingGenerationSnapshot, state)
    | .gt => queuePending view state incoming
  | none =>
    if state.pending.isNone ∧ (view incoming.snapshot).generation = (view current).generation ∧
        incoming.intent.fullRebuildDamage.isNone then (.ok .noop, state)
    else queuePending view state incoming

/-- `submit`, with the snapshot that it read as `current`. -/
def submit (current : SnapshotArc) (incoming : PendingReset) :
    Checked NetworkResetCoordinatorError NetworkResetRequestDisposition × CoordinatorState :=
  if (view incoming.snapshot).generation < (view current).generation then (Checked.fail .staleRequestGeneration, state)
  else if (view incoming.snapshot).generation = (view current).generation ∧
      !(view incoming.snapshot).same (view current) then (Checked.fail .conflictingGenerationSnapshot, state)
  else match state.fullRebuild with
    | some rebuild => submitRebuild view state rebuild incoming
    | none =>
      let outcome := submitOpen view state current incoming
      (Checked.ofExcept outcome.1, outcome.2)

/-- What `publish_snapshot` does with the snapshot it read: nothing, an error, or a publication over its generation. -/
inductive PublishPlan
  | done
  | failed (error : NetworkResetCoordinatorError)
  | publishOver (expectedGeneration : Nat)

variable (current : SnapshotArc)

def publishPlan (snapshot : SnapshotArc) : PublishPlan :=
  match compare (view snapshot).generation (view current).generation with
  | .lt => .failed .snapshotPublicationStale
  | .eq => if (view snapshot).same (view current) then .done else .failed .conflictingGenerationSnapshot
  | .gt => .publishOver (view current).generation

/-- `publish_if_current`: the snapshot that is published after it. -/
def publishIfCurrent (expectedGeneration : Nat) (next : SnapshotArc) : Except NetworkResetCoordinatorError SnapshotArc :=
  if (view current).generation ≠ expectedGeneration then .error .snapshotPublicationStale
  else if (view next).generation ≤ expectedGeneration then .error .snapshotPublicationNonMonotonic
  else .ok next

/-- `publish_snapshot` while nothing else can publish. -/
def publishSnapshot (snapshot : SnapshotArc) : Except NetworkResetCoordinatorError SnapshotArc :=
  match publishPlan view current snapshot with
  | .done => .ok current
  | .failed error => .error error
  | .publishOver expectedGeneration => publishIfCurrent view current expectedGeneration snapshot

end Snapshots

/-- A `submit` that holds the state lock and has read the published snapshot. -/
structure Submission where
  current : SnapshotArc
  request : PendingReset

/-- How a reset hook ends. -/
inductive HookEvent
  | succeeded | failed | panicked
  deriving DecidableEq, Repr

/-- Where `drive_pending` stands in one attempt; the middle four stages are outside the state lock. -/
inductive AttemptStage
  | collecting (kinds : List NetworkRuntimeOwnerKind)
  | sending (kinds : List NetworkRuntimeOwnerKind) (senders : List Nat)
  | waiting (kinds : List NetworkRuntimeOwnerKind)
  | snapshotHooks
  | reading (hooks : List NetworkResetHookStage)
  | publishing (hooks : List NetworkResetHookStage) (expectedGeneration : Nat)
  | running (hooks : List NetworkResetHookStage)
  | completing
  | unwinding (error : Option NetworkResetCoordinatorError)

/-- Where the holder of the driver lock stands. A dropped future returns nothing. -/
inductive DriverStage
  | checkingRebuild
  | taking
  | rechecking
  | attempting (target : PendingReset) (stage : AttemptStage)
  | returning (result : Option (Except NetworkResetCoordinatorError NetworkResetReport))

structure Driver where
  stage : DriverStage
  completedResets : Nat
  cancelledRuntimeOwners : Nat

/-- The target of the attempt in progress. -/
def DriverStage.target : DriverStage → Option PendingReset
  | attempting target _ => some target
  | _ => none

/-- The coordinator, its publisher, the `submit` in the state lock, the holder of the driver lock, and the observations that
owners were admitted under. -/
structure Coordinator where
  published : SnapshotArc
  state : CoordinatorState
  submission : Option Submission
  driver : Option Driver
  admitted : List (Nat × SnapshotArc)

def Coordinator.new (initial : SnapshotArc) : Coordinator :=
  { published := initial, state := CoordinatorState.new, submission := none, driver := none, admitted := [] }

/-- One atomic region of a call. -/
inductive CoordinatorMove
  | submitLock (snapshot : SnapshotArc) (intent : NetworkResetIntent)
  | submitFinish
  | driveLock
  | driveStep (event : HookEvent)
  | driveDrop
  | driveUnlock
  | acknowledge (snapshot : SnapshotArc)
  | refresh (expected next : SnapshotArc)
  | registerOwner (snapshot : SnapshotArc) (kind : NetworkRuntimeOwnerKind)
  | dropOwner (id : Nat)
  | registerHook (stage : NetworkResetHookStage)
  | dropHook (id : Nat)

/-- What the region returns to the caller. -/
inductive CoordinatorReply
  | silent
  | submitted (request : PendingReset) (result : Checked NetworkResetCoordinatorError NetworkResetRequestDisposition)
  | driven (result : Option (Except NetworkResetCoordinatorError NetworkResetReport))
  | acknowledged (result : Except NetworkResetCoordinatorError NetworkResetReport)
  | refreshed (done : Bool)
  | ownerRegistered (result : Except NetworkRuntimeOwnerRegistrationError Nat)
  | hookRegistered (result : Except NetworkResetHookRegistrationError Nat)

namespace Coordinator

section Driver

variable (view : SnapshotArc → NetworkSnapshot)

variable (world : Coordinator)

def atStage (driver : Driver) (stage : DriverStage) : Coordinator :=
  { world with driver := some { driver with stage } }

def report (driver : Driver) (outcome : NetworkResetOutcome) : NetworkResetReport :=
  { outcome, publishedGeneration := (view world.published).generation
    completedResets := driver.completedResets, cancelledRuntimeOwners := driver.cancelledRuntimeOwners }

variable (target : PendingReset)

def signalOf : NetworkResetSignal :=
  { targetGeneration := (view target.snapshot).generation, intent := target.intent }

/-- `pending_full_rebuild_damage` at the head of the loop. -/
def checkRebuild (driver : Driver) : Coordinator :=
  match world.state.fullRebuild.bind (·.intent.fullRebuildDamage) with
  | some damage => world.atStage driver (.returning (some (.ok (world.report view driver (.fullRebuildRequired damage)))))
  | none => world.atStage driver .taking

/-- The first step of an attempt: a full rebuild cancels owners, an ordinary reset runs the hooks. -/
def firstStage : AttemptStage :=
  if target.intent.fullRebuildDamage.isSome then .collecting ownerResetOrder else .snapshotHooks

/-- `take_pending`. -/
def takePending (driver : Driver) : Coordinator :=
  match world.state.pending with
  | some target =>
    { world with
      state := { world.state with pending := none, active := some ⟨target.snapshot⟩, phase := .resetting }
      driver := some { driver with stage := .attempting target (firstStage target) } }
  | none => world.atStage driver .rechecking

/-- The loop goes on when something was queued after `take_pending`, and else reopens admission. -/
def recheck (driver : Driver) : Coordinator :=
  if world.state.fullRebuild.isSome ∨ world.state.pending.isSome then world.atStage driver .checkingRebuild
  else
    let outcome := if driver.completedResets = 0 then .noop else .resetCompleted
    { world with
      state := { world.state with phase := .active }
      driver := some { driver with stage := .returning (some (.ok (world.report view driver outcome))) } }

/-- The senders of the stale owners of a kind, by their identifiers. -/
def staleOwners (kind : NetworkRuntimeOwnerKind) (signal : NetworkResetSignal) : List Nat :=
  (world.state.runtimeOwners.filter fun owner => owner.2.kind = kind && owner.2.isStale signal).map (·.1)

/-- `send_replace` on the channel of an owner. -/
def sendCancellation (id : Nat) (signal : NetworkResetSignal) : Coordinator :=
  { world with
    state := { world.state with
      runtimeOwners := world.state.runtimeOwners.map fun owner =>
        if owner.1 = id then (owner.1, { owner.2 with cancellation := some signal }) else owner } }

/-- The hooks of one run, by stage and then by registration. -/
def orderedHooks (state : CoordinatorState) : List NetworkResetHookStage :=
  postPublishHookOrder.flatMap fun stage => (state.hooks.map (·.2)).filter (· = stage)

/-- The target of a full rebuild with what was queued meanwhile. -/
def joinPending : Option PendingReset → Except NetworkResetCoordinatorError PendingReset
  | some pending => mergePending view target pending
  | none => .ok target

/-- The end of an attempt at a full rebuild, after `complete`. -/
def holdRebuild (driver : Driver) (target : PendingReset) (damage : ManagedNetworkDamage) : Coordinator :=
  match joinPending view target world.state.pending with
  | .ok rebuild =>
    { world with
      state := { world.state with
        active := none
        pending := none
        fullRebuild := some { rebuild with intent := .fullRebuild (rebuild.intent.fullRebuildDamage.getD damage) }
        phase := .managedDamaged }
      driver := some { driver with
        stage := .returning (some (.ok (world.report view driver (.fullRebuildRequired damage)))) } }
  | .error error =>
    { world with
      state := { world.state with active := none, pending := none }
      driver := some { driver with stage := .returning (some (.error error)) } }

/-- The end of an ordinary attempt. -/
def finishReset (driver : Driver) : Coordinator :=
  { world with
    state := { world.state with
      active := none
      phase := if world.state.pending.isSome then .resetPending else .active }
    driver := some { driver with stage := .checkingRebuild, completedResets := driver.completedResets + 1 } }

/-- `ResetAttemptGuard::drop`: the target of the attempt goes back. -/
def restoreTarget (state : CoordinatorState) (target : PendingReset) : CoordinatorState :=
  let pending := match state.pending with
    | some pending =>
      match mergePending view pending target with
      | .ok merged => merged
      | .error _ => pending
    | none => target
  { state with active := none, pending := some pending, phase := .retryReset }

/-- The stages of an attempt that need no state lock. -/
def attemptUnlocked (driver : Driver) (target : PendingReset) (event : HookEvent) : AttemptStage → Option Coordinator
  | .sending kinds [] => some (world.atStage driver (.attempting target (.waiting kinds)))
  | .sending kinds (id :: senders) =>
    some ((world.sendCancellation id (signalOf view target)).atStage driver (.attempting target (.sending kinds senders)))
  | .reading hooks =>
    match publishPlan view world.published target.snapshot with
    | .done => some (world.atStage driver (.attempting target (.running hooks)))
    | .failed error => some (world.atStage driver (.attempting target (.unwinding (some error))))
    | .publishOver expected => some (world.atStage driver (.attempting target (.publishing hooks expected)))
  | .publishing hooks expected =>
    match publishIfCurrent view world.published expected target.snapshot with
    | .ok published =>
      some ({ world with published := published }.atStage driver (.attempting target (.running hooks)))
    | .error error => some (world.atStage driver (.attempting target (.unwinding (some error))))
  | .running [] => some (world.atStage driver (.attempting target (.collecting ownerResetOrder)))
  | .running (stage :: hooks) =>
    match event with
    | .succeeded => some (world.atStage driver (.attempting target (.running hooks)))
    | .failed => some (world.atStage driver (.attempting target (.unwinding (some (.hookFailed stage)))))
    | .panicked => some (world.atStage driver (.attempting target (.unwinding (some (.hookPanicked stage)))))
  | _ => none

/-- The stages of an attempt under the state lock. A wait goes on only when its kind has no stale
owner left. -/
def attemptLocked (driver : Driver) (target : PendingReset) : AttemptStage → Option Coordinator
  | .collecting [] => some (world.atStage driver (.attempting target .completing))
  | .collecting (kind :: kinds) =>
    let senders := world.staleOwners kind (signalOf view target)
    some (world.atStage { driver with cancelledRuntimeOwners := driver.cancelledRuntimeOwners + senders.length }
      (.attempting target (.sending (kind :: kinds) senders)))
  | .waiting [] => none
  | .waiting (kind :: kinds) =>
    if world.staleOwners kind (signalOf view target) = [] then
      some (world.atStage driver (.attempting target (.collecting kinds)))
    else none
  | .snapshotHooks => some (world.atStage driver (.attempting target (.reading (orderedHooks world.state))))
  | .completing =>
    match target.intent.fullRebuildDamage with
    | some damage => some (world.holdRebuild view driver target damage)
    | none => some (world.finishReset driver)
  | .unwinding error =>
    some ({ world with state := restoreTarget view world.state target }.atStage driver (.returning (error.map .error)))
  | _ => none

/-- The next region of `drive_pending`. -/
def driveStep (driver : Driver) (event : HookEvent) : Option Coordinator :=
  match driver.stage with
  | .attempting target stage =>
    match world.attemptUnlocked view driver target event stage with
    | some next => some next
    | none => if world.submission.isSome then none else world.attemptLocked view driver target stage
  | .checkingRebuild => if world.submission.isSome then none else some (world.checkRebuild view driver)
  | .taking => if world.submission.isSome then none else some (world.takePending driver)
  | .rechecking => if world.submission.isSome then none else some (world.recheck view driver)
  | .returning _ => none

/-- The future is dropped at an await: in a hook, or while it waits for owners. -/
def driveDrop (driver : Driver) : Option Coordinator :=
  match driver.stage with
  | .attempting target (.running (_ :: _)) => some (world.atStage driver (.attempting target (.unwinding none)))
  | .attempting target (.waiting _) => some (world.atStage driver (.attempting target (.unwinding none)))
  | _ => none

end Driver

section Calls

variable (view : SnapshotArc → NetworkSnapshot)

variable (world : Coordinator)

/-- `acknowledge_full_rebuild` under both locks. -/
def acknowledgeFullRebuild (snapshot : SnapshotArc) :
    Except NetworkResetCoordinatorError NetworkResetReport × Coordinator :=
  match world.state.fullRebuild with
  | none => (.error .fullRebuildNotPending, world)
  | some requested =>
    if world.state.runtimeOwners ≠ [] then (.error .fullRebuildOwnersRemain, world)
    else if (view snapshot).generation < (view requested.snapshot).generation then
      (.error .fullRebuildGenerationTooOld, world)
    else match publishSnapshot view world.published snapshot with
      | .error error => (.error error, world)
      | .ok published =>
        (.ok { outcome := .fullRebuildAcknowledged, publishedGeneration := (view snapshot).generation
               completedResets := 0, cancelledRuntimeOwners := 0 },
         { world with
           published
           state := { world.state with fullRebuild := none, pending := none, active := none, phase := .active } })

def refreshNetworkObservation (expected next : SnapshotArc) : Bool × Coordinator :=
  if world.state.phase = .active ∧ world.published = expected ∧
      (view next).generation = (view expected).generation ∧ (view next).preservesWorkFrom (view expected) then
    (true, { world with published := next })
  else (false, world)

variable (limits : NetworkResetLimits)

/-- `register_runtime_owner_for_observation`; it also notes the observation in the history. -/
def registerRuntimeOwner (snapshot : SnapshotArc) (kind : NetworkRuntimeOwnerKind) :
    Except NetworkRuntimeOwnerRegistrationError Nat × Coordinator :=
  if world.state.phase ≠ .active then (.error .admissionClosed, world)
  else if world.published ≠ snapshot then (.error .staleGeneration, world)
  else if limits.maxRuntimeOwners ≤ world.state.runtimeOwners.length then (.error .capacityExhausted, world)
  else if world.state.nextRuntimeOwnerId + 1 = 2 ^ 64 then (.error .identifierExhausted, world)
  else
    let id := world.state.nextRuntimeOwnerId
    let entry : RuntimeOwnerEntry := { generation := (view snapshot).generation, kind, cancellation := none }
    (.ok id,
     { world with
       state := { world.state with
         nextRuntimeOwnerId := id + 1
         runtimeOwners := world.state.runtimeOwners ++ [(id, entry)] }
       admitted := world.admitted ++ [(id, snapshot)] })

def dropRuntimeOwner (id : Nat) : Coordinator :=
  { world with
    state := { world.state with runtimeOwners := world.state.runtimeOwners.filter fun owner => owner.1 ≠ id } }

def registerResetHook (stage : NetworkResetHookStage) : Except NetworkResetHookRegistrationError Nat × Coordinator :=
  if world.state.phase ≠ .active then (.error .admissionClosed, world)
  else if limits.maxHooks ≤ world.state.hooks.length then (.error .capacityExhausted, world)
  else if world.state.nextHookId + 1 = 2 ^ 64 then (.error .identifierExhausted, world)
  else
    let id := world.state.nextHookId
    (.ok id,
     { world with state := { world.state with nextHookId := id + 1, hooks := world.state.hooks ++ [(id, stage)] } })

def dropResetHook (id : Nat) : Coordinator :=
  { world with state := { world.state with hooks := world.state.hooks.filter fun hook => hook.1 ≠ id } }

/-- The end of a `submit`. -/
def finishSubmission (submission : Submission) :
    Checked NetworkResetCoordinatorError NetworkResetRequestDisposition × Coordinator :=
  let outcome := submit view world.state submission.current submission.request
  (outcome.1, { world with state := outcome.2, submission := none })

/-- A region that needs the state lock, with its reply. -/
def locked {α : Type} (reply : α → CoordinatorReply) (outcome : α × Coordinator) :
    Option (CoordinatorReply × Coordinator) :=
  if world.submission.isSome then none else some (reply outcome.1, outcome.2)

/-- One atomic region of any call, if it can run. -/
def step : CoordinatorMove → Option (CoordinatorReply × Coordinator)
  | .submitLock snapshot intent =>
    if world.submission.isSome then none
    else some (.silent, { world with submission := some ⟨world.published, ⟨snapshot, intent⟩⟩ })
  | .submitFinish =>
    world.submission.map fun submission =>
      (.submitted submission.request (world.finishSubmission view submission).1,
        (world.finishSubmission view submission).2)
  | .driveLock =>
    if world.driver.isSome then none else some (.silent, { world with driver := some ⟨.checkingRebuild, 0, 0⟩ })
  | .driveStep event =>
    (world.driver.bind fun driver => world.driveStep view driver event).map fun next => (.silent, next)
  | .driveDrop => (world.driver.bind fun driver => world.driveDrop driver).map fun next => (.silent, next)
  | .driveUnlock =>
    match world.driver with
    | some { stage := .returning result, .. } => some (.driven result, { world with driver := none })
    | _ => none
  | .acknowledge snapshot =>
    if world.driver.isSome then none else world.locked .acknowledged (world.acknowledgeFullRebuild view snapshot)
  | .refresh expected next => world.locked .refreshed (world.refreshNetworkObservation view expected next)
  | .registerOwner snapshot kind => world.locked .ownerRegistered (world.registerRuntimeOwner view limits snapshot kind)
  | .dropOwner id => world.locked (fun _ : Unit => .silent) ((), world.dropRuntimeOwner id)
  | .registerHook stage => world.locked .hookRegistered (world.registerResetHook limits stage)
  | .dropHook id => world.locked (fun _ : Unit => .silent) ((), world.dropResetHook id)

/-- A run: the replies of a list of regions, one after the other. -/
inductive Run : Coordinator → List CoordinatorReply → Coordinator → Prop
  | nil (world : Coordinator) : Run world [] world
  | cons {world middle last : Coordinator} {move : CoordinatorMove} {reply : CoordinatorReply}
      {replies : List CoordinatorReply} (first : world.step view limits move = some (reply, middle))
      (rest : Run middle replies last) : Run world (reply :: replies) last

end Calls

end Coordinator

end Ferrum.Runtime
