namespace Ferrum.Runtime

open List

variable {E : Type}

abbrev ProcessRootId := Nat

/-- Monotonic process cancellation phase shared by every required root. -/
inductive ProcessCancellationPhase where
  | active
  | quiescing
  | forced
  deriving DecidableEq, Repr

def ProcessCancellationPhase.rank : ProcessCancellationPhase → Nat
  | .active => 0
  | .quiescing => 1
  | .forced => 2

inductive ProcessState where
  | validated
  | preparing
  | prepared
  | active
  | rollback
  | fatal
  | quiescing
  | draining
  | forced
  | stopped
  deriving DecidableEq, Repr

/-- Terminal result returned by a required root while the process was active. -/
inductive ProcessRootExit (E : Type) where
  | completed
  | failed (error : E)
  | panicked
  | joinFailed

/-- First cause that triggered the end of the process. -/
inductive ProcessCause (E : Type) where
  | externalShutdown
  | preparationFailed (root : ProcessRootId) (error : E)
  | preparationPanicked (root : ProcessRootId)
  | activationFailed (root : ProcessRootId) (error : E)
  | activationPanicked (root : ProcessRootId)
  | rootStopped (root : ProcessRootId) (exit : ProcessRootExit E)

/-- The owner counters that the final comparison reads. -/
structure OwnerSnapshot where
  processSupervisors : Nat
  preparedProcessRoots : Nat
  activeProcessRoots : Nat
  activeTunTcpFlows : Nat
  activeTunHandlerTasks : Nat
  activeSupervisorChildren : Nat
  connectionTasks : Nat
  ownedBuffers : Nat
  ownedPermits : Nat
  listeners : Nat
  udpSessions : Nat
  udpSockets : Nat
  udpTasks : Nat
  udpQueuedDatagrams : Nat
  udpBufferedBytes : Nat
  tunUdpBufferedBytes : Nat
  udpScratchBuffers : Nat
  sniffBufferedBytes : Nat
  networkResetHooks : Nat
  networkRuntimeOwners : Nat
  networkResetDrivers : Nat
  networkSocketMonitors : Nat
  networkSnapshotCaptures : Nat
  deriving DecidableEq

/-- The snapshot of the model holds the compared counters only. -/
def OwnerSnapshot.hasSameActiveOwners (baseline stopped : OwnerSnapshot) : Bool := baseline = stopped

/-- Cleanup outcome observed after the primary cause. -/
inductive ProcessCleanupFailure (E : Type) where
  | finalCleanupFailed (error : E) (prior : Option (ProcessCleanupFailure E))
  | finalCleanupPanicked (prior : Option (ProcessCleanupFailure E))
  | rootFailed (root : ProcessRootId) (error : E)
  | rootPanicked (root : ProcessRootId)
  | rootJoinFailed (root : ProcessRootId)
  | forceReapTimedOut (roots : List ProcessRootId) (prior : Option (ProcessCleanupFailure E))
  | ownerMismatch (baseline stopped : OwnerSnapshot)

inductive ProcessRootEventPhase where
  | active
  | draining
  | forced
  | watchdogAbort
  deriving DecidableEq, Repr

inductive ProcessRootExitCategory where
  | completed
  | failed
  | panicked
  | joinFailed
  | aborted
  deriving DecidableEq, Repr

structure ProcessRootEvent where
  root : ProcessRootId
  phase : ProcessRootEventPhase
  exit : ProcessRootExitCategory
  deriving DecidableEq, Repr

/-- The clock readings of the source's timeline are left out. -/
structure ProcessTimeline where
  states : List ProcessState
  rootEvents : List ProcessRootEvent
  rootEventLimit : Nat
  deriving DecidableEq, Repr

namespace ProcessTimeline

def new (rootCount : Nat) : ProcessTimeline := ⟨[.validated, .preparing], [], rootCount⟩

def push (timeline : ProcessTimeline) (state : ProcessState) : ProcessTimeline :=
  { timeline with states := timeline.states ++ [state] }

def pushRootEvent (timeline : ProcessTimeline) (root : ProcessRootId) (phase : ProcessRootEventPhase)
    (exit : ProcessRootExitCategory) : ProcessTimeline :=
  let rootIsNew := timeline.rootEvents.all fun event => event.root ≠ root
  let withinBound := root < timeline.rootEventLimit && timeline.rootEvents.length < timeline.rootEventLimit
  if !rootIsNew || !withinBound then timeline
  else { timeline with rootEvents := timeline.rootEvents ++ [⟨root, phase, exit⟩] }

theorem pushRootEvent_new {timeline : ProcessTimeline} {root : ProcessRootId} {phase : ProcessRootEventPhase}
    {exit : ProcessRootExitCategory} (fresh : root ∉ timeline.rootEvents.map (·.root))
    (known : root < timeline.rootEventLimit) (room : timeline.rootEvents.length < timeline.rootEventLimit) :
    timeline.pushRootEvent root phase exit =
      { timeline with rootEvents := timeline.rootEvents ++ [⟨root, phase, exit⟩] } := by
  have different : (timeline.rootEvents.all fun event => event.root ≠ root) = true := by
    rw [all_eq_true]
    intro event member
    have apart : event.root ≠ root := fun same => fresh (same ▸ mem_map_of_mem member)
    simpa using apart
  unfold pushRootEvent
  simp only [different, known, room, decide_true, Bool.and_self, Bool.not_true, Bool.or_self, Bool.false_eq_true, if_false]

end ProcessTimeline

variable {E α : Type}

/-- What `catch_unwind` makes of a call or of a poll. -/
inductive Caught (α : Type) where
  | returned (value : α)
  | panicked

/-- The cleanup failure of a caught rollback or cleanup of one root. -/
def rootFailure (root : ProcessRootId) : Caught (Except E Unit) → Option (ProcessCleanupFailure E)
  | .returned (.ok ()) => none
  | .returned (.error error) => some (.rootFailed root error)
  | .panicked => some (.rootPanicked root)

inductive PrepareOutcome (E : Type) where
  | prepared
  | failed (error : E)
  | cancelled

structure UnstartedEntry where
  id : ProcessRootId
  cleanup : Bool

/-- Which of its task, its cleanup future and its owner guard an entry still holds. -/
structure ActiveEntry where
  id : ProcessRootId
  task : Bool
  cleanup : Bool
  guard : Bool

def UnstartedEntry.spawn (entry : UnstartedEntry) : ActiveEntry := ⟨entry.id, true, entry.cleanup, true⟩

inductive RootEvent (E : Type) where
  | exited (root : ProcessRootId) (exit : ProcessRootExit E)
  | cleaned (failure : Option (ProcessCleanupFailure E))

/-- What the futures of one root answer to a poll; `none` is pending. -/
structure PollAnswer (E : Type) where
  task : Option (ProcessRootExit E)
  cleanup : Option (Caught (Except E Unit))

/-- What a run of the supervisor does and sees, in its order. -/
inductive Observation (E : Type) where
  | shutdown
  | preparation (root : ProcessRootId) (outcome : Caught (PrepareOutcome E))
  | reapedPreparation (root : ProcessRootId) (outcome : Caught (PrepareOutcome E))
  | activation (root : ProcessRootId) (outcome : Caught (Except E Unit))
  | abandoned (root : ProcessRootId)
  | ran (root : ProcessRootId) (panicked : Bool)
  | rolledBack (root : ProcessRootId)
  | rollbackEnded (root : ProcessRootId) (outcome : Caught (Except E Unit))
  | aborted (root : ProcessRootId)
  | exited (root : ProcessRootId) (phase : Option ProcessRootEventPhase) (exit : ProcessRootExit E)
  | polledCleanup (root : ProcessRootId)
  | cleanupEnded (root : ProcessRootId) (outcome : Caught (Except E Unit))
  | reaped (root : ProcessRootId)
  | watchdog (roots : List ProcessRootId)
  | phase (phase : ProcessCancellationPhase)
  | entered (state : ProcessState)
  | finalCleanup (outcome : Caught (Except E Unit))
  | owners (same : Bool)

def rootExitCategory : ProcessRootExit E → ProcessRootExitCategory
  | .completed => .completed
  | .failed _ => .failed
  | .panicked => .panicked
  | .joinFailed => .joinFailed

def recordCleanupEvent (event : RootEvent E) (cleanupFailure : Option (ProcessCleanupFailure E)) :
    Option (ProcessCleanupFailure E) :=
  match event with
  | .cleaned failure => if failure.isSome then failure else cleanupFailure
  | .exited root exit =>
    if cleanupFailure.isSome then cleanupFailure
    else match exit with
      | .completed => none
      | .failed error => some (.rootFailed root error)
      | .panicked => some (.rootPanicked root)
      | .joinFailed => some (.rootJoinFailed root)

/-- An abort that the supervisor asked for is no failure. -/
def RootEvent.forgive : RootEvent E → RootEvent E
  | .exited root .joinFailed => .exited root .completed
  | event => event

namespace ActiveEntry

def isRunning (entry : ActiveEntry) : Bool := entry.guard

/-- One poll of an entry: the entry after it, the event if ready, and what was seen. A cleanup is polled only after its task was
joined. -/
def pollEvent (entry : ActiveEntry) (phase : Option ProcessRootEventPhase) (answer : PollAnswer E) :
    ActiveEntry × Option (RootEvent E) × List (Observation E) :=
  if entry.task then
    match answer.task with
    | none => (entry, none, [])
    | some exit =>
      ({ entry with task := false, guard := entry.cleanup && entry.guard }, some (.exited entry.id exit),
        [.exited entry.id phase exit])
  else if !entry.guard then (entry, none, [])
  else if !entry.cleanup then ({ entry with guard := false }, some (.cleaned none), [])
  else
    match answer.cleanup with
    | none => (entry, none, [.polledCleanup entry.id])
    | some outcome =>
      ({ entry with cleanup := false, guard := false }, some (.cleaned (rootFailure entry.id outcome)),
        [.polledCleanup entry.id, .cleanupEnded entry.id outcome])

/-- An entry whose task runs holds its guard; a joined one that holds it has its cleanup left. -/
def Whole (entry : ActiveEntry) : Prop :=
  (entry.task = true → entry.guard = true) ∧ (entry.task = false → entry.guard = true → entry.cleanup = true)

end ActiveEntry

/-- `next_root_event` polls the entries in their order up to the first that is ready. -/
def pollNextRoot (phase : Option ProcessRootEventPhase) (answers : ProcessRootId → PollAnswer E) :
    List ActiveEntry → List ActiveEntry × Option (RootEvent E) × List (Observation E)
  | [] => ([], none, [])
  | entry :: rest =>
    match entry.pollEvent phase (answers entry.id) with
    | (entry', some event, seen) =>
      (entry' :: rest, some event, seen ++ if entry'.isRunning then [] else [.reaped entry.id])
    | (entry', none, seen) =>
      let (rest', event, more) := pollNextRoot phase answers rest
      (entry' :: rest', event, seen ++ more)

section

variable {phase : Option ProcessRootEventPhase} {entry entry' : ActiveEntry} {active active' : List ActiveEntry}
  {event : RootEvent E} {seen : List (Observation E)} {answers : ProcessRootId → PollAnswer E}

variable {answer : PollAnswer E}

theorem ActiveEntry.pollEvent_pending (polled : entry.pollEvent phase answer = (entry', none, seen)) :
    entry' = entry ∧ ∀ entry' ∈ seen, entry' = .polledCleanup entry.id ∧ entry.task = false := by
  unfold pollEvent at polled
  cases task : entry.task with
  | true =>
    rw [if_pos task] at polled
    cases joined : answer.task with
    | none =>
      rw [joined] at polled
      cases polled
      exact ⟨rfl, fun _ member => absurd member not_mem_nil⟩
    | some exit =>
      rw [joined] at polled
      cases polled
  | false =>
    rw [task, if_neg Bool.false_ne_true] at polled
    split at polled
    · cases polled
      exact ⟨rfl, fun _ member => absurd member not_mem_nil⟩
    · split at polled
      · cases polled
      · cases ended : answer.cleanup with
        | none =>
          rw [ended] at polled
          cases polled
          exact ⟨rfl, fun _ member => ⟨mem_singleton.mp member, rfl⟩⟩
        | some outcome =>
          rw [ended] at polled
          cases polled

theorem ActiveEntry.pollEvent_ready (whole : entry.Whole)
    (polled : entry.pollEvent phase answer = (entry', some event, seen)) :
    (entry.task = true ∧ ∃ exit, event = .exited entry.id exit ∧ seen = [.exited entry.id phase exit] ∧
        entry' = { entry with task := false, guard := entry.cleanup }) ∨
      (entry.task = false ∧ entry.guard = true ∧ ∃ outcome, event = .cleaned (rootFailure entry.id outcome) ∧
        seen = [.polledCleanup entry.id, .cleanupEnded entry.id outcome] ∧
        entry' = { entry with cleanup := false, guard := false }) := by
  unfold pollEvent at polled
  cases task : entry.task with
  | true =>
    rw [if_pos task] at polled
    cases joined : answer.task with
    | none =>
      rw [joined] at polled
      cases polled
    | some exit =>
      rw [joined] at polled
      cases polled
      rw [whole.1 task, Bool.and_true]
      exact .inl ⟨rfl, exit, rfl, rfl, rfl⟩
  | false =>
    rw [task, if_neg Bool.false_ne_true] at polled
    cases guard : entry.guard with
    | false =>
      rw [guard, if_pos Bool.not_false] at polled
      cases polled
    | true =>
      rw [guard, whole.2 task guard, if_neg (by decide), if_neg (by decide)] at polled
      cases ended : answer.cleanup with
      | none =>
        rw [ended] at polled
        cases polled
      | some outcome =>
        rw [ended] at polled
        cases polled
        exact .inr ⟨rfl, rfl, outcome, rfl, rfl, rfl⟩

/-- The polls of a cleanup, each of an entry whose task was joined. -/
def Polls (active : List ActiveEntry) (seen : List (Observation E)) : Prop :=
  ∀ item ∈ seen, ∃ entry ∈ active, item = .polledCleanup entry.id ∧ entry.task = false

theorem pollNextRoot_pending (polled : pollNextRoot phase answers active = (active', none, seen)) :
    active' = active ∧ Polls active seen := by
  induction active generalizing active' seen with
  | nil =>
    cases polled
    exact ⟨rfl, fun _ member => absurd member not_mem_nil⟩
  | cons entry rest ih =>
    unfold pollNextRoot at polled
    cases here : entry.pollEvent phase (answers entry.id) with
    | mk entry' result =>
      obtain ⟨ready, own⟩ := result
      rw [here] at polled
      cases ready with
      | some event => cases polled
      | none =>
        cases further : pollNextRoot phase answers rest with
        | mk rest' result =>
          obtain ⟨ready, more⟩ := result
          rw [further] at polled
          cases polled
          obtain ⟨same, polls⟩ := ActiveEntry.pollEvent_pending here
          obtain ⟨sameRest, pollsRest⟩ := ih further
          refine ⟨by rw [same, sameRest], fun item member => ?_⟩
          rcases mem_append.mp member with inOwn | inMore
          · exact ⟨entry, mem_cons_self, polls item inOwn⟩
          · obtain ⟨other, inRest, equal⟩ := pollsRest item inMore
            exact ⟨other, mem_cons_of_mem _ inRest, equal⟩

/-- The entries of the log that a poll of an active entry leaves. -/
def Observation.polled : Observation E → Bool
  | .exited .. | .polledCleanup .. | .cleanupEnded .. | .reaped .. => true
  | _ => false

theorem Polls.polled (polls : Polls active seen) : ∀ item ∈ seen, item.polled = true := by
  intro item member
  obtain ⟨entry, -, rfl, -⟩ := polls item member
  rfl

theorem ActiveEntry.pollEvent_polled {event : Option (RootEvent E)} (whole : entry.Whole)
    (polled : entry.pollEvent phase answer = (entry', event, seen)) : ∀ item ∈ seen, item.polled = true := by
  intro item member
  cases event with
  | none =>
    rw [((pollEvent_pending polled).2 item member).1]
    rfl
  | some event =>
    rcases pollEvent_ready whole polled with ⟨-, exit, -, rfl, -⟩ | ⟨-, -, outcome, -, rfl, -⟩
    · rw [mem_singleton.mp member]
      rfl
    · simp only [mem_cons, not_mem_nil, or_false] at member
      rcases member with rfl | rfl <;> rfl

/-- How `next_root_event` can be ready: one entry joined its task or ended its cleanup, and the others
are as before. -/
inductive Ready (phase : Option ProcessRootEventPhase) :
    List ActiveEntry → List ActiveEntry → RootEvent E → List (Observation E) → Prop where
  | exited {before entry after polls} (exit : ProcessRootExit E) (task : entry.task = true)
      (polled : Polls (before ++ entry :: after) polls) :
      Ready phase (before ++ entry :: after)
        (before ++ { entry with task := false, guard := entry.cleanup } :: after) (.exited entry.id exit)
        (polls ++ .exited entry.id phase exit :: if entry.cleanup then [] else [.reaped entry.id])
  | cleaned {before entry after polls} (outcome : Caught (Except E Unit)) (task : entry.task = false)
      (guard : entry.guard = true) (polled : Polls (before ++ entry :: after) polls) :
      Ready phase (before ++ entry :: after) (before ++ { entry with cleanup := false, guard := false } :: after)
        (.cleaned (rootFailure entry.id outcome))
        (polls ++ [.polledCleanup entry.id, .cleanupEnded entry.id outcome, .reaped entry.id])

theorem pollNextRoot_ready (whole : ∀ entry ∈ active, entry.Whole)
    (polled : pollNextRoot phase answers active = (active', some event, seen)) : Ready phase active active' event seen := by
  induction active generalizing active' seen with
  | nil => cases polled
  | cons entry rest ih =>
    unfold pollNextRoot at polled
    cases here : entry.pollEvent phase (answers entry.id) with
    | mk entry' result =>
      obtain ⟨ready, own⟩ := result
      rw [here] at polled
      cases ready with
      | some event =>
        cases polled
        have nothing : Polls (E := E) ([] ++ entry :: rest) [] := fun _ member => absurd member not_mem_nil
        rcases ActiveEntry.pollEvent_ready (whole entry mem_cons_self) here with
          ⟨task, exit, rfl, rfl, rfl⟩ | ⟨task, guard, outcome, rfl, rfl, rfl⟩
        · exact @Ready.exited _ phase [] entry rest [] exit task nothing
        · exact @Ready.cleaned _ phase [] entry rest [] outcome task guard nothing
      | none =>
        cases further : pollNextRoot phase answers rest with
        | mk rest' result =>
          obtain ⟨ready, more⟩ := result
          rw [further] at polled
          cases polled
          obtain ⟨rfl, ownPolls⟩ := ActiveEntry.pollEvent_pending here
          have inner := ih (fun entry member => whole entry (mem_cons_of_mem _ member)) further
          cases inner with
          | @exited before other after polls exit task pollsRest =>
            rw [← append_assoc]
            refine @Ready.exited _ phase (entry' :: before) other after (own ++ polls) exit task fun item member => ?_
            rcases mem_append.mp member with inOwn | inPolls
            · exact ⟨entry', mem_cons_self, ownPolls item inOwn⟩
            · obtain ⟨found, inRest, equal⟩ := pollsRest item inPolls
              exact ⟨found, mem_cons_of_mem _ inRest, equal⟩
          | @cleaned before other after polls outcome task guard pollsRest =>
            rw [← append_assoc]
            refine @Ready.cleaned _ phase (entry' :: before) other after (own ++ polls) outcome task guard
              fun item member => ?_
            rcases mem_append.mp member with inOwn | inPolls
            · exact ⟨entry', mem_cons_self, ownPolls item inOwn⟩
            · obtain ⟨found, inRest, equal⟩ := pollsRest item inPolls
              exact ⟨found, mem_cons_of_mem _ inRest, equal⟩

theorem Ready.ids (ready : Ready phase active active' event seen) : active'.map (·.id) = active.map (·.id) := by
  cases ready with
  | exited | cleaned => rw [map_append, map_append, map_cons, map_cons]

theorem Ready.whole (ready : Ready phase active active' event seen) (whole : ∀ entry ∈ active, entry.Whole) :
    ∀ entry ∈ active', entry.Whole := by
  have replaced {before after : List ActiveEntry} {entry entry' : ActiveEntry}
      (whole : ∀ other ∈ before ++ entry :: after, other.Whole) (wholeHere : entry'.Whole) :
      ∀ other ∈ before ++ entry' :: after, other.Whole := by
    intro other member
    rcases mem_append.mp member with inBefore | inRest
    · exact whole other (mem_append_left _ inBefore)
    · rcases mem_cons.mp inRest with rfl | inAfter
      · exact wholeHere
      · exact whole other (mem_append_right _ (mem_cons_of_mem _ inAfter))
  cases ready with
  | exited exit task =>
    exact replaced whole ⟨fun running => absurd running Bool.false_ne_true, fun _ guard => guard⟩
  | @cleaned before entry after polls outcome task guard =>
    exact replaced whole ⟨fun running => absurd (task.symm.trans running) Bool.false_ne_true,
      fun _ guarded => absurd guarded Bool.false_ne_true⟩

theorem Ready.polled (ready : Ready phase active active' event seen) : ∀ item ∈ seen, item.polled = true := by
  intro item member
  cases ready with
  | @exited before entry after polls exit task polls' =>
    rcases mem_append.mp member with inPolls | inRest
    · exact polls'.polled item inPolls
    · rcases mem_cons.mp inRest with rfl | reaped
      · rfl
      · cases cleanup : entry.cleanup with
        | true =>
          rw [cleanup, if_pos rfl] at reaped
          exact absurd reaped not_mem_nil
        | false =>
          rw [cleanup, if_neg Bool.false_ne_true] at reaped
          rw [mem_singleton.mp reaped]
          rfl
  | cleaned outcome task guard polls' =>
    rcases mem_append.mp member with inPolls | inRest
    · exact polls'.polled item inPolls
    · simp only [mem_cons, not_mem_nil, or_false] at inRest
      rcases inRest with rfl | rfl | rfl <;> rfl

theorem Ready.exits (ready : Ready phase active active' event seen) (running : ∀ entry ∈ active, entry.task = true) :
    ∃ root exit, event = .exited root exit := by
  cases ready with
  | exited exit => exact ⟨_, exit, rfl⟩
  | @cleaned before entry after polls outcome task =>
    have joined := running entry (mem_append_right _ mem_cons_self)
    exact absurd (task.symm.trans joined) Bool.false_ne_true

end

end Ferrum.Runtime
