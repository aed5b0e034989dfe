import Ferrum.Runtime.ProcessEntry

namespace Ferrum.Runtime

variable {E : Type}

/-- The roots in order, each with its `reap_on_cancellation`, and whether shared resources came with their baseline. -/
structure ProcessSupervisor where
  roots : List Bool
  required : roots ≠ []
  finalCleanup : Bool
  baseline : OwnerSnapshot

inductive ProcessSupervisorConfigError where
  | noRequiredRoots

/-- The baseline is the one of the shared resources, if any, else the snapshot that `run_until` takes. -/
def ProcessSupervisor.new (roots : List Bool) (finalCleanup : Bool) (baseline : OwnerSnapshot) :
    Except ProcessSupervisorConfigError ProcessSupervisor :=
  if required : roots ≠ [] then .ok ⟨roots, required, finalCleanup, baseline⟩ else .error .noRequiredRoots

/-- What a caller of `rollback_prepared` does with its result. -/
inductive AfterRollback (E : Type) where
  | finish (cleanupFailure : Option (ProcessCleanupFailure E))
  | handOff (ownedCleanup : Option (ProcessCleanupFailure E)) (unstarted : List UnstartedEntry)

/-- Where `run_until` is, with the locals that it holds there. -/
inductive Stage (E : Type) where
  | preparing (index : Nat) (prepared : List ProcessRootId)
  | reaping (index : Nat) (prepared : List ProcessRootId)
  | activating (position : Nat) (prepared : List ProcessRootId)
  | handingOff (prepared : List ProcessRootId) (unstarted : List UnstartedEntry)
  | cleaning (root : ProcessRootId) (prepared : List ProcessRootId) (unstarted : List UnstartedEntry)
  | rollingPrepared (prepared : List ProcessRootId) (current : Option ProcessRootId)
      (failure : Option (ProcessCleanupFailure E)) (next : AfterRollback E)
  | rollingUnstarted (unstarted : List UnstartedEntry) (current : Option ActiveEntry)
      (failure : Option (ProcessCleanupFailure E))
  | selecting (active : List ActiveEntry)
  | draining (active : List ActiveEntry) (forced : Bool)
  | reapingForced (active : List ActiveEntry) (roots : List ProcessRootId) (failure : Option (ProcessCleanupFailure E))
  | finishing
  | stopping
  | finished
  | unreachable

structure ProcessRun (E : Type) where
  stage : Stage E
  phase : ProcessCancellationPhase
  timeline : ProcessTimeline
  cause : Option (ProcessCause E)
  forcedRoots : Nat
  cleanupFailure : Option (ProcessCleanupFailure E)
  log : List (Observation E)

namespace ProcessRun

def start (supervisor : ProcessSupervisor) : ProcessRun E :=
  { stage := .preparing 0 []
    phase := .active
    timeline := .new supervisor.roots.length
    cause := none
    forcedRoots := 0
    cleanupFailure := none
    log := [] }

variable (run : ProcessRun E)

def observe (seen : List (Observation E)) : ProcessRun E := { run with log := run.log ++ seen }

def goto (stage : Stage E) : ProcessRun E := { run with stage := stage }

/-- The cancellation phase never moves back. -/
def advance (phase : ProcessCancellationPhase) : ProcessRun E :=
  if run.phase.rank < phase.rank then { run with phase := phase, log := run.log ++ [.phase phase] } else run

def push (run : ProcessRun E) (state : ProcessState) : ProcessRun E :=
  { run with timeline := run.timeline.push state, log := run.log ++ [.entered state] }

/-- The branches that end the transaction quiesce, enter `Rollback` and keep their cause. -/
def unwind (cause : ProcessCause E) (stage : Stage E) : ProcessRun E :=
  { (run.advance .quiescing).push .rollback with cause := some cause, stage := stage }

/-- The branches after the first select quiesce and start to drain. -/
def drain (cause : ProcessCause E) (active : List ActiveEntry) : ProcessRun E :=
  { ((run.advance .quiescing).push .quiescing).push .draining with cause := some cause, stage := .draining active false }

/-- After the watchdog a cancelled join is recorded as an abort. -/
def recordedCategory (aborts : Bool) : ProcessRootExit E → ProcessRootExitCategory
  | .joinFailed => if aborts then .aborted else .joinFailed
  | exit => rootExitCategory exit

def recordRootEvent (phase : ProcessRootEventPhase) (aborts : Bool) : RootEvent E → ProcessRun E
  | .exited root exit =>
    { run with timeline := run.timeline.pushRootEvent root phase (recordedCategory aborts exit) }
  | .cleaned _ => run

variable (root : ProcessRootId)

/-- The result of `prepare` where the supervisor was not cancelled. -/
def preparationCause : Caught (PrepareOutcome E) → Option (ProcessCause E)
  | .returned .prepared => none
  | .returned (.failed error) => some (.preparationFailed root error)
  | .returned .cancelled | .panicked => some (.preparationPanicked root)

/-- The result of a preparation that was reaped after cancellation. -/
def reapedFailure : Caught (PrepareOutcome E) → Option (ProcessCleanupFailure E)
  | .returned .prepared | .returned .cancelled => none
  | .returned (.failed error) => some (.rootFailed root error)
  | .panicked => some (.rootPanicked root)

def preparedLate : Caught (PrepareOutcome E) → List ProcessRootId
  | .returned .prepared => [root]
  | _ => []

def activationCause : Caught (Except E Unit) → Option (ProcessCause E)
  | .returned (.ok ()) => none
  | .returned (.error error) => some (.activationFailed root error)
  | .panicked => some (.activationPanicked root)

def finalFailure (prior : Option (ProcessCleanupFailure E)) : Caught (Except E Unit) → Option (ProcessCleanupFailure E)
  | .returned (.ok ()) => prior
  | .returned (.error error) => some (.finalCleanupFailed error prior)
  | .panicked => some (.finalCleanupPanicked prior)

/-- The last part of `finish_report`, with the snapshot taken after the supervisor's own guard went. -/
def stop (supervisor : ProcessSupervisor) (stopped : OwnerSnapshot) : ProcessRun E :=
  let same := supervisor.baseline.hasSameActiveOwners stopped
  let stoppedRun := (run.push .stopped).observe [.owners same]
  { stoppedRun with
    stage := .finished
    cleanupFailure :=
      if run.cleanupFailure.isNone && !same then some (.ownerMismatch supervisor.baseline stopped)
      else run.cleanupFailure }

end ProcessRun

open ProcessRun in
/-- One step of `run_until`: an answer of the roots, the shutdown signal or a timer, and the code up to its next wait. -/
inductive ProcessMove (supervisor : ProcessSupervisor) : ProcessRun E → ProcessRun E → Prop where
  | shutdownPreparing {run index prepared} (here : run.stage = .preparing index prepared)
      (left : supervisor.roots[index]? = some false) :
      ProcessMove supervisor run
        ((run.observe [.shutdown]).unwind .externalShutdown (.rollingPrepared prepared none none (.finish none)))
  | shutdownReaping {run index prepared} (here : run.stage = .preparing index prepared)
      (left : supervisor.roots[index]? = some true) :
      ProcessMove supervisor run ((run.observe [.shutdown]).unwind .externalShutdown (.reaping index prepared))
  | preparedRoot {run index prepared} (here : run.stage = .preparing index prepared)
      (left : index < supervisor.roots.length) :
      ProcessMove supervisor run
        ((run.observe [.preparation index (.returned .prepared)]).goto (.preparing (index + 1) (prepared ++ [index])))
  | preparationEnded {run index prepared outcome cause} (here : run.stage = .preparing index prepared)
      (left : index < supervisor.roots.length) (ended : preparationCause index outcome = some cause) :
      ProcessMove supervisor run
        ((run.observe [.preparation index outcome]).unwind cause (.rollingPrepared prepared none none (.finish none)))
  | reapedPreparation {run index prepared outcome} (here : run.stage = .reaping index prepared) :
      ProcessMove supervisor run
        ((run.observe [.reapedPreparation index outcome]).goto
          (.rollingPrepared (prepared ++ preparedLate index outcome) none none (.finish (reapedFailure index outcome))))
  | allPrepared {run prepared} (here : run.stage = .preparing supervisor.roots.length prepared) :
      ProcessMove supervisor run ((run.push .prepared).goto (.activating 0 prepared))
  | shutdownActivating {run position prepared} (here : run.stage = .activating position prepared) :
      ProcessMove supervisor run
        ((run.observe [.shutdown]).unwind .externalShutdown (.rollingPrepared prepared none none (.finish none)))
  | activatedRoot {run position prepared root} (here : run.stage = .activating position prepared)
      (atPosition : prepared[position]? = some root) :
      ProcessMove supervisor run
        ((run.observe [.activation root (.returned (.ok ()))]).goto (.activating (position + 1) prepared))
  | activationEnded {run position prepared root outcome cause} (here : run.stage = .activating position prepared)
      (atPosition : prepared[position]? = some root) (ended : activationCause root outcome = some cause) :
      ProcessMove supervisor run
        ((run.observe [.activation root outcome]).unwind cause (.rollingPrepared prepared none none (.finish none)))
  | allActivated {run prepared} (here : run.stage = .activating prepared.length prepared) :
      ProcessMove supervisor run (run.goto (.handingOff prepared []))
  -- `take_run_cleanup` unwinds inside the same `catch_unwind`, before `run` could take the root
  | takeCleanupPanicked {run root prepared unstarted} (here : run.stage = .handingOff (root :: prepared) unstarted) :
      ProcessMove supervisor run
        ((run.observe [.abandoned root]).unwind (.activationPanicked root)
          (.rollingPrepared prepared none none (.handOff none unstarted)))
  | runPanicked {run root prepared unstarted} (cleanup : Bool)
      (here : run.stage = .handingOff (root :: prepared) unstarted) :
      ProcessMove supervisor run
        ((run.observe [.ran root true]).unwind (.activationPanicked root)
          (if cleanup then .cleaning root prepared unstarted
            else .rollingPrepared prepared none none (.handOff none unstarted)))
  | constructedRun {run root prepared unstarted} (cleanup : Bool)
      (here : run.stage = .handingOff (root :: prepared) unstarted) :
      ProcessMove supervisor run
        ((run.observe [.ran root false]).goto (.handingOff prepared (unstarted ++ [⟨root, cleanup⟩])))
  | ownedCleanup {run root prepared unstarted} (outcome : Caught (Except E Unit))
      (here : run.stage = .cleaning root prepared unstarted) :
      ProcessMove supervisor run
        ((run.observe [.cleanupEnded root outcome]).goto
          (.rollingPrepared prepared none none (.handOff (rootFailure root outcome) unstarted)))
  | rollback {run prepared root failure next} (here : run.stage = .rollingPrepared (prepared ++ [root]) none failure next) :
      ProcessMove supervisor run
        ((run.observe [.rolledBack root]).goto (.rollingPrepared prepared (some root) failure next))
  | rollbackEnded {run prepared root failure next} (outcome : Caught (Except E Unit))
      (here : run.stage = .rollingPrepared prepared (some root) failure next) :
      ProcessMove supervisor run
        ((run.observe [.rollbackEnded root outcome]).goto
          (.rollingPrepared prepared none (if failure.isNone then rootFailure root outcome else failure) next))
  | rolledBackAll {run failure prior} (here : run.stage = .rollingPrepared [] none failure (.finish prior)) :
      ProcessMove supervisor run
        { run with stage := .finishing, cleanupFailure := if prior.isNone then failure else prior }
  | rolledBackRest {run failure owned unstarted}
      (here : run.stage = .rollingPrepared [] none failure (.handOff owned unstarted)) :
      ProcessMove supervisor run
        { run with
          stage := .rollingUnstarted unstarted none none
          cleanupFailure := if owned.isSome then owned else failure }
  | abortUnstarted {run unstarted entry failure} (here : run.stage = .rollingUnstarted (unstarted ++ [entry]) none failure) :
      ProcessMove supervisor run
        ((run.observe [.aborted entry.id]).goto (.rollingUnstarted unstarted (some entry.spawn) failure))
  | pollUnstarted {run unstarted entry failure entry' event seen} (answer : PollAnswer E)
      (here : run.stage = .rollingUnstarted unstarted (some entry) failure) (running : entry.isRunning = true)
      (polled : entry.pollEvent none answer = (entry', event, seen)) :
      ProcessMove supervisor run
        ((run.observe seen).goto
          (.rollingUnstarted unstarted (some entry')
            (match event with
              | none => failure
              | some event => recordCleanupEvent event.forgive failure)))
  | unstartedEnded {run unstarted entry failure} (here : run.stage = .rollingUnstarted unstarted (some entry) failure)
      (ended : entry.isRunning = false) :
      ProcessMove supervisor run (run.goto (.rollingUnstarted unstarted none failure))
  | rolledBackUnstarted {run failure} (here : run.stage = .rollingUnstarted [] none failure) :
      ProcessMove supervisor run
        { run with
          stage := .finishing
          cleanupFailure := if run.cleanupFailure.isNone then failure else run.cleanupFailure }
  | spawned {run unstarted} (here : run.stage = .handingOff [] unstarted) :
      ProcessMove supervisor run ((run.push .active).goto (.selecting (unstarted.map UnstartedEntry.spawn)))
  | shutdownSelecting {run active} (here : run.stage = .selecting active) :
      ProcessMove supervisor run ((run.observe [.shutdown]).drain .externalShutdown active)
  | selectPending {run active active' seen} (answers : ProcessRootId → PollAnswer E) (here : run.stage = .selecting active)
      (polled : pollNextRoot (some .active) answers active = (active', none, seen)) :
      ProcessMove supervisor run ((run.observe seen).goto (.selecting active'))
  | selectExited {run active active' root exit seen} (answers : ProcessRootId → PollAnswer E)
      (here : run.stage = .selecting active)
      (polled : pollNextRoot (some .active) answers active = (active', some (.exited root exit), seen)) :
      ProcessMove supervisor run
        ((((run.observe seen).recordRootEvent .active false (.exited root exit)).push .fatal).drain
          (.rootStopped root exit) active')
  | selectCleaned {run active active' failure seen} (answers : ProcessRootId → PollAnswer E)
      (here : run.stage = .selecting active)
      (polled : pollNextRoot (some .active) answers active = (active', some (.cleaned failure), seen)) :
      ProcessMove supervisor run ((run.observe seen).goto .unreachable)
  | drainPending {run active active' forced seen} (answers : ProcessRootId → PollAnswer E)
      (here : run.stage = .draining active forced) (running : active.any ActiveEntry.isRunning = true)
      (polled : pollNextRoot (some (if forced then .forced else .draining)) answers active = (active', none, seen)) :
      ProcessMove supervisor run ((run.observe seen).goto (.draining active' forced))
  | drainEvent {run active active' forced event seen} (answers : ProcessRootId → PollAnswer E)
      (here : run.stage = .draining active forced) (running : active.any ActiveEntry.isRunning = true)
      (polled : pollNextRoot (some (if forced then .forced else .draining)) answers active = (active', some event, seen)) :
      ProcessMove supervisor run
        { (run.observe seen).recordRootEvent (if forced then .forced else .draining) false event with
          stage := .draining active' forced
          cleanupFailure := recordCleanupEvent event run.cleanupFailure }
  | graceElapsed {run active active' seen} (answers : ProcessRootId → PollAnswer E)
      (here : run.stage = .draining active false) (running : active.any ActiveEntry.isRunning = true)
      (polled : pollNextRoot (some .draining) answers active = (active', none, seen)) :
      ProcessMove supervisor run
        { ((run.observe seen).push .forced).advance .forced with
          stage := .draining active' true
          forcedRoots := active'.countP ActiveEntry.isRunning }
  | watchdogElapsed {run active active' seen} (answers : ProcessRootId → PollAnswer E)
      (here : run.stage = .draining active true) (running : active.any ActiveEntry.isRunning = true)
      (polled : pollNextRoot (some .forced) answers active = (active', none, seen)) :
      ProcessMove supervisor run
        (((run.observe seen).observe [.watchdog ((active'.filter ActiveEntry.isRunning).map (·.id))]).goto
          (.reapingForced active' ((active'.filter ActiveEntry.isRunning).map (·.id)) none))
  | reapPending {run active active' roots failure seen} (answers : ProcessRootId → PollAnswer E)
      (here : run.stage = .reapingForced active roots failure) (running : active.any ActiveEntry.isRunning = true)
      (polled : pollNextRoot (some .watchdogAbort) answers active = (active', none, seen)) :
      ProcessMove supervisor run ((run.observe seen).goto (.reapingForced active' roots failure))
  | reapEvent {run active active' roots failure event seen} (answers : ProcessRootId → PollAnswer E)
      (here : run.stage = .reapingForced active roots failure) (running : active.any ActiveEntry.isRunning = true)
      (polled : pollNextRoot (some .watchdogAbort) answers active = (active', some event, seen)) :
      ProcessMove supervisor run
        (((run.observe seen).recordRootEvent .watchdogAbort true event).goto
          (.reapingForced active' roots (recordCleanupEvent event.forgive failure)))
  | reapedForced {run active roots failure} (here : run.stage = .reapingForced active roots failure)
      (ended : active.any ActiveEntry.isRunning = false) :
      ProcessMove supervisor run
        { run with
          stage := .draining active true
          cleanupFailure :=
            some (.forceReapTimedOut roots (if failure.isSome then failure else run.cleanupFailure)) }
  | drained {run active forced} (here : run.stage = .draining active forced)
      (ended : active.any ActiveEntry.isRunning = false) :
      ProcessMove supervisor run (run.goto .finishing)
  | noFinalCleanup {run} (here : run.stage = .finishing) (none : supervisor.finalCleanup = false) :
      ProcessMove supervisor run (run.goto .stopping)
  | finalCleanup {run} (outcome : Caught (Except E Unit)) (here : run.stage = .finishing)
      (some : supervisor.finalCleanup = true) :
      ProcessMove supervisor run
        { run.observe [.finalCleanup outcome] with
          stage := .stopping
          cleanupFailure := finalFailure run.cleanupFailure outcome }
  | stopped {run} (stopped : OwnerSnapshot) (here : run.stage = .stopping) :
      ProcessMove supervisor run (run.stop supervisor stopped)

/-- The states of the runs of a supervisor. -/
inductive ProcessReach (supervisor : ProcessSupervisor) : ProcessRun E → Prop where
  | start : ProcessReach supervisor (.start supervisor)
  | next {run run'} : ProcessReach supervisor run → ProcessMove supervisor run run' → ProcessReach supervisor run'

end Ferrum.Runtime
