import Ferrum.Runtime.ProcessCustody

namespace Ferrum.Runtime

open Observation List

variable {E : Type} {supervisor : ProcessSupervisor} {run run' : ProcessRun E}

namespace Observation

def exited? : Observation E → Option ProcessRootId
  | .exited root _ _ => some root
  | _ => none

def reaped? : Observation E → Option ProcessRootId
  | .reaped root => some root
  | _ => none

/-- The root event of an exit in a running phase. -/
def rootEvent? : Observation E → Option ProcessRootEvent
  | .exited root (some .watchdogAbort) .joinFailed => some ⟨root, .watchdogAbort, .aborted⟩
  | .exited root (some within) exit => some ⟨root, within, rootExitCategory exit⟩
  | _ => none

/-- A cleanup is polled after the exit of its own root. -/
def Joined (entry : Observation E) (before : List (Observation E)) : Prop :=
  ∀ root, entry = .polledCleanup root → root ∈ before.filterMap exited?

theorem Joined.grows (entry : Observation E) (before between : List (Observation E)) (joined : entry.Joined before) :
    entry.Joined (before ++ between) := by
  intro root same
  rw [filterMap_append]
  exact mem_append_left _ (joined root same)

end Observation

namespace Stage

def active? : Stage E → Option (List ActiveEntry)
  | .selecting active | .draining active _ | .reapingForced active _ _ => some active
  | _ => none

def current? : Stage E → Option ActiveEntry
  | .rollingUnstarted _ current _ => current
  | _ => none

def ending : Stage E → Bool
  | .finishing | .stopping | .finished => true
  | _ => false

end Stage

def joinedIds (active : List ActiveEntry) : List ProcessRootId := (active.filter fun entry => !entry.task).map (·.id)

def releasedIds (active : List ActiveEntry) : List ProcessRootId := (active.filter fun entry => !entry.guard).map (·.id)

section

variable {phase : Option ProcessRootEventPhase} {entry entry' : ActiveEntry} {active active' before after : List ActiveEntry}
  {event : RootEvent E} {seen : List (Observation E)}

theorem ids_replaced (keep : ActiveEntry → Bool) (same : entry'.id = entry.id) (left : keep entry = false)
    (now : keep entry' = true) :
    (((before ++ entry' :: after).filter keep).map (·.id)).Perm
      (((before ++ entry :: after).filter keep).map (·.id) ++ [entry.id]) := by
  rw [filter_append, filter_append, filter_cons, filter_cons, left, now, if_pos rfl,
    if_neg Bool.false_ne_true, map_append, map_append, map_cons, same]
  exact perm_middle.trans (perm_append_singleton _ _).symm

theorem ids_kept (keep : ActiveEntry → Bool) (same : entry'.id = entry.id) (equal : keep entry' = keep entry) :
    ((before ++ entry' :: after).filter keep).map (·.id) = ((before ++ entry :: after).filter keep).map (·.id) := by
  rw [filter_append, filter_append, filter_cons, filter_cons, equal, map_append, map_append]
  cases keep entry with
  | true => rw [if_pos rfl, if_pos rfl, map_cons, map_cons, same]
  | false => rfl

theorem Polls.views (polls : Polls active seen) :
    seen.filterMap exited? = [] ∧ seen.filterMap reaped? = [] ∧
      seen.filterMap rootEvent? = [] := by
  refine ⟨filterMap_eq_nil_iff.mpr ?_, filterMap_eq_nil_iff.mpr ?_, filterMap_eq_nil_iff.mpr ?_⟩ <;>
  · intro item member
    obtain ⟨entry, -, rfl, -⟩ := polls item member
    rfl

theorem Ready.joins (ready : Ready phase active active' event seen) :
    (joinedIds active').Perm (joinedIds active ++ seen.filterMap exited?) := by
  cases ready with
  | @exited before entry after polls exit task polled =>
    have views : List.filterMap exited?
        (polls ++ .exited entry.id phase exit :: if entry.cleanup then [] else [.reaped entry.id]) = [entry.id] := by
      rw [filterMap_append, polled.views.1]
      cases entry.cleanup <;> rfl
    rw [views]
    refine ids_replaced (fun entry => !entry.task) rfl ?_ rfl
    rw [task]
    rfl
  | @cleaned before entry after polls outcome task guard polled =>
    have views : List.filterMap exited?
        (polls ++ [.polledCleanup entry.id, .cleanupEnded entry.id outcome, .reaped entry.id]) = [] := by
      rw [filterMap_append, polled.views.1]
      rfl
    rw [views, append_nil]
    exact .of_eq (ids_kept (fun entry => !entry.task) rfl rfl)

theorem Ready.reaps (ready : Ready phase active active' event seen) (whole : ∀ entry ∈ active, entry.Whole) :
    (releasedIds active').Perm (releasedIds active ++ seen.filterMap reaped?) := by
  cases ready with
  | @exited before entry after polls exit task polled =>
    have guard := (whole entry (mem_append_right _ mem_cons_self)).1 task
    have views : List.filterMap reaped?
        (polls ++ .exited entry.id phase exit :: if entry.cleanup then [] else [.reaped entry.id]) =
          if entry.cleanup then [] else [entry.id] := by
      rw [filterMap_append, polled.views.2.1]
      cases entry.cleanup <;> rfl
    rw [views]
    cases cleanup : entry.cleanup with
    | true =>
      rw [if_pos rfl, append_nil]
      refine .of_eq (ids_kept (fun entry => !entry.guard) rfl ?_)
      exact congrArg (!·) guard.symm
    | false =>
      rw [if_neg Bool.false_ne_true]
      refine ids_replaced (fun entry => !entry.guard) rfl ?_ rfl
      rw [guard]
      rfl
  | @cleaned before entry after polls outcome task guard polled =>
    have views : List.filterMap reaped?
        (polls ++ [.polledCleanup entry.id, .cleanupEnded entry.id outcome, .reaped entry.id]) = [entry.id] := by
      rw [filterMap_append, polled.views.2.1]
      rfl
    rw [views]
    refine ids_replaced (fun entry => !entry.guard) rfl ?_ rfl
    rw [guard]
    rfl

theorem joinedIds_of_task (task : ∀ entry ∈ active, entry.task = true) : joinedIds active = [] := by
  unfold joinedIds
  rw [map_eq_nil_iff, filter_eq_nil_iff]
  intro entry member
  simp [task entry member]

theorem releasedIds_of_guard (guard : ∀ entry ∈ active, entry.guard = true) : releasedIds active = [] := by
  unfold releasedIds
  rw [map_eq_nil_iff, filter_eq_nil_iff]
  intro entry member
  simp [guard entry member]

theorem ended_ids (whole : ∀ entry ∈ active, entry.Whole) (ended : active.any ActiveEntry.isRunning = false) :
    joinedIds active = active.map (·.id) ∧ releasedIds active = active.map (·.id) := by
  have released : ∀ entry ∈ active, entry.guard = false := by
    intro entry member
    rw [any_eq_false] at ended
    exact Bool.eq_false_iff.mpr (ended entry member)
  have joined : ∀ entry ∈ active, entry.task = false := by
    intro entry member
    cases task : entry.task with
    | false => rfl
    | true => exact absurd ((released entry member).symm.trans ((whole entry member).1 task)) Bool.false_ne_true
  refine ⟨?_, ?_⟩
  · unfold joinedIds
    rw [filter_eq_self.mpr fun entry member => by simp [joined entry member]]
  · unfold releasedIds
    rw [filter_eq_self.mpr fun entry member => by simp [released entry member]]

end

namespace ProcessRun

/-- The timeline holds the exits of the running phases, each entry's flags follow the log, and a cleanup is polled after its
root's exit. -/
structure Exits (count : Nat) (run : ProcessRun E) : Prop where
  events : run.timeline.rootEvents = run.log.filterMap rootEvent?
  limit : run.timeline.rootEventLimit = count
  running : ∀ active, run.stage.active? = some active → .entered .active ∈ run.log ∧
    (run.timeline.rootEvents.map (·.root)).Perm (joinedIds active) ∧
      (run.log.filterMap reaped?).Perm (releasedIds active) ∧
        (∀ root ∈ joinedIds active, root ∈ run.log.filterMap exited?)
  startup : run.stage.active? = none → run.stage.ending = false →
    .entered .active ∉ run.log ∧ run.timeline.rootEvents = [] ∧ run.log.filterMap reaped? = []
  ended : run.stage.ending = true →
    (.entered .active ∉ run.log ∧ run.timeline.rootEvents = [] ∧ run.log.filterMap reaped? = []) ∨
      (.entered .active ∈ run.log ∧ (run.timeline.rootEvents.map (·.root)).Perm (List.range count) ∧
        (run.log.filterMap reaped?).Perm (List.range count))
  current : ∀ entry, run.stage.current? = some entry → entry.task = false →
    entry.id ∈ run.log.filterMap exited?
  joined : Founded Observation.Joined run.log

end ProcessRun

/-- The entries that neither exit nor reap a root, nor enter the running phase. -/
def Observation.Still (item : Observation E) : Prop :=
  item.exited? = none ∧ item.reaped? = none ∧ item.rootEvent? = none ∧ item ≠ .entered .active

theorem Polls.still {active : List ActiveEntry} {seen : List (Observation E)} (polls : Polls active seen) :
    ∀ item ∈ seen, item.Still := by
  intro item member
  obtain ⟨entry, -, rfl, -⟩ := polls item member
  exact ⟨rfl, rfl, rfl, by simp⟩

open ProcessRun

section

variable {count : Nat} {active active' : List ActiveEntry} {seen : List (Observation E)}

theorem still_views (still : ∀ item ∈ seen, item.Still) :
    seen.filterMap exited? = [] ∧ seen.filterMap reaped? = [] ∧
      seen.filterMap rootEvent? = [] ∧ .entered .active ∉ seen :=
  ⟨filterMap_eq_nil_iff.mpr fun item member => (still item member).1,
    filterMap_eq_nil_iff.mpr fun item member => (still item member).2.1,
    filterMap_eq_nil_iff.mpr fun item member => (still item member).2.2.1,
    fun member => (still _ member).2.2.2 rfl⟩

theorem ProcessRun.Exits.still (exits : run.Exits count) (log : run'.log = run.log ++ seen)
    (calm : ∀ item ∈ seen, item.Still ∧ item.Joined run.log)
    (timeline : run'.timeline.rootEvents = run.timeline.rootEvents ∧
      run'.timeline.rootEventLimit = run.timeline.rootEventLimit)
    (activeSame : run'.stage.active? = run.stage.active?) (ending : run'.stage.ending = run.stage.ending)
    (current : run'.stage.current? = none ∨ run'.stage.current? = run.stage.current? ∨
      ∀ entry, run'.stage.current? = some entry → entry.task = true) : run'.Exits count := by
  obtain ⟨exitedNil, reapedNil, eventNil, notEntered⟩ := still_views fun item member => (calm item member).1
  have exited : run'.log.filterMap exited? = run.log.filterMap exited? := by
    rw [log, filterMap_append, exitedNil, append_nil]
  have reaped : run'.log.filterMap reaped? = run.log.filterMap reaped? := by
    rw [log, filterMap_append, reapedNil, append_nil]
  have entered : .entered .active ∈ run'.log ↔ .entered .active ∈ run.log := by
    rw [log, mem_append]
    exact ⟨fun either => either.resolve_right notEntered, .inl⟩
  refine ⟨?_, timeline.2.trans exits.limit, fun active here => ?_, fun none early => ?_, fun late => ?_,
    fun entry here task => ?_, ?_⟩
  · rw [timeline.1, exits.events, log, filterMap_append, eventNil, append_nil]
  · rw [entered, timeline.1, reaped, exited]
    exact exits.running active (activeSame ▸ here)
  · rw [entered, timeline.1, reaped]
    exact exits.startup (activeSame ▸ none) (ending ▸ early)
  · rw [entered, timeline.1, reaped]
    exact exits.ended (ending ▸ late)
  · rw [exited]
    rcases current with none | same | running
    · exact absurd (none.symm.trans here) (by simp)
    · exact exits.current entry (same ▸ here) task
    · exact absurd (task.symm.trans (running entry here)) Bool.false_ne_true
  · rw [log]
    exact exits.joined.append Observation.Joined.grows fun item member => (calm item member).2

theorem joined_of_other {item : Observation E} (other : ∀ root, item ≠ .polledCleanup root) (before : List (Observation E)) :
    item.Joined before := fun root same => absurd same (other root)

theorem noted_calm (noted : seen.all noted = true) (before : List (Observation E)) :
    ∀ item ∈ seen, item.Still ∧ item.Joined before := by
  intro item member
  have known := all_eq_true.mp noted item member
  cases item with
  | entered state =>
    cases state <;> first | exact absurd known Bool.false_ne_true | exact ⟨⟨rfl, rfl, rfl, by simp⟩, joined_of_other (by simp) _⟩
  | _ => first | exact absurd known Bool.false_ne_true | exact ⟨⟨rfl, rfl, rfl, by simp⟩, joined_of_other (by simp) _⟩

variable {log : List (Observation E)}

theorem Polls.joined (polls : Polls active seen)
    (known : ∀ root ∈ joinedIds active, root ∈ log.filterMap exited?) : ∀ item ∈ seen, item.Joined log := by
  intro item member root same
  obtain ⟨entry, inActive, rfl, task⟩ := polls item member
  cases same
  exact known _ (mem_map_of_mem (mem_filter.mpr ⟨inActive, by simp [task]⟩))

theorem Polls.calm (polls : Polls active seen) (known : ∀ root ∈ joinedIds active, root ∈ log.filterMap exited?) :
    ∀ item ∈ seen, item.Still ∧ item.Joined log :=
  fun item member => ⟨polls.still item member, polls.joined known item member⟩

theorem rootEvent_recorded (root : ProcessRootId) {phase : ProcessRootEventPhase} {aborts : Bool}
    (flag : aborts = decide (phase = .watchdogAbort)) (exit : ProcessRootExit E) :
    (exited root (some phase) exit).rootEvent? =
      some ⟨root, phase, recordedCategory aborts exit⟩ := by
  subst flag
  cases phase <;> cases exit <;> rfl

theorem ProcessRun.Exits.event (exits : run.Exits count) {phase : ProcessRootEventPhase} {aborts : Bool}
    {event : RootEvent E} {extra : List (Observation E)} (flag : aborts = decide (phase = .watchdogAbort))
    (here : run.stage.active? = some active) (ids : active.map (·.id) = List.range count)
    (whole : ∀ entry ∈ active, entry.Whole) (ready : Ready (some phase) active active' event seen)
    (log : run'.log = run.log ++ (seen ++ extra)) (noted : extra.all noted = true)
    (timeline : run'.timeline.rootEvents = ((run.observe seen).recordRootEvent phase aborts event).timeline.rootEvents ∧
      run'.timeline.rootEventLimit = run.timeline.rootEventLimit)
    (here' : run'.stage.active? = some active') (ending : run'.stage.ending = false)
    (current : run'.stage.current? = none) : run'.Exits count := by
  obtain ⟨entered, roots, reaped, known⟩ := exits.running active here
  obtain ⟨exitedNil, reapedNil, eventNil, -⟩ := still_views fun item member => (noted_calm noted [] item member).1
  have recorded : ((run.observe seen).recordRootEvent phase aborts event).timeline.rootEvents =
      run.timeline.rootEvents ++ seen.filterMap rootEvent? ∧
        (seen.filterMap rootEvent?).map (·.root) = seen.filterMap exited? := by
    cases ready with
    | @exited before entry after polls exit task polled =>
      have views : List.filterMap rootEvent?
          (polls ++ .exited entry.id (some phase) exit :: if entry.cleanup then [] else [.reaped entry.id]) =
            ((exited entry.id (some phase) exit).rootEvent?).toList := by
        rw [filterMap_append, polled.views.2.2, filterMap_cons]
        cases (exited entry.id (some phase) exit).rootEvent? <;> cases entry.cleanup <;> rfl
      have exitViews : List.filterMap exited?
          (polls ++ .exited entry.id (some phase) exit :: if entry.cleanup then [] else [.reaped entry.id]) = [entry.id] := by
        rw [filterMap_append, polled.views.1]
        cases entry.cleanup <;> rfl
      rw [views, exitViews, rootEvent_recorded entry.id flag exit]
      refine ⟨?_, rfl⟩
      have inActive : entry ∈ before ++ entry :: after := mem_append_right _ mem_cons_self
      have nodup : ((before ++ entry :: after).map (·.id)).Nodup := ids ▸ nodup_range
      have fresh : entry.id ∉ joinedIds (before ++ entry :: after) := by
        intro member
        obtain ⟨other, inFilter, same⟩ := mem_map.mp member
        obtain ⟨inOthers, joined⟩ := mem_filter.mp inFilter
        rw [inj_on_of_nodup_map nodup inOthers inActive same, task] at joined
        exact absurd joined (by decide)
      have bound : entry.id < count := by
        have inIds : entry.id ∈ (before ++ entry :: after).map (·.id) := mem_map_of_mem inActive
        rw [ids] at inIds
        exact mem_range.mp inIds
      have room : run.timeline.rootEvents.length < count := by
        have lengths := roots.length_eq
        rw [length_map] at lengths
        have fewer : (joinedIds (before ++ entry :: after)).length < (before ++ entry :: after).length := by
          rw [joinedIds, length_map]
          exact length_filter_lt_length_iff_exists.mpr ⟨entry, inActive, by simp [task]⟩
        have total : (before ++ entry :: after).length = count := by
          rw [← length_map (·.id), ids, length_range]
        omega
      refine congrArg ProcessTimeline.rootEvents (ProcessTimeline.pushRootEvent_new ?_ ?_ ?_)
      · exact fun member => fresh (roots.mem_iff.mp member)
      · exact exits.limit.symm ▸ bound
      · exact exits.limit.symm ▸ room
    | @cleaned before entry after polls outcome task guard polled =>
      have views : List.filterMap rootEvent?
          (polls ++ [.polledCleanup entry.id, .cleanupEnded entry.id outcome, .reaped entry.id]) = [] := by
        rw [filterMap_append, polled.views.2.2]
        rfl
      have exitViews : List.filterMap exited?
          (polls ++ [.polledCleanup entry.id, .cleanupEnded entry.id outcome, .reaped entry.id]) = [] := by
        rw [filterMap_append, polled.views.1]
        rfl
      rw [views, exitViews, append_nil]
      exact ⟨rfl, rfl⟩
  refine ⟨?_, timeline.2.trans exits.limit, fun now same => ?_, fun none => ?_, fun late => ?_, fun entry same => ?_, ?_⟩
  · rw [timeline.1, recorded.1, exits.events, log, filterMap_append, filterMap_append, eventNil, append_nil]
  · rw [here'] at same
    cases same
    refine ⟨?_, ?_, ?_, fun root member => ?_⟩
    · rw [log]
      exact mem_append_left _ entered
    · rw [timeline.1, recorded.1, map_append, recorded.2]
      exact (roots.append_right _).trans ready.joins.symm
    · rw [log, filterMap_append, filterMap_append, reapedNil, append_nil]
      exact (reaped.append_right _).trans (ready.reaps whole).symm
    · rw [log, filterMap_append, filterMap_append, exitedNil, append_nil]
      rcases mem_append.mp (ready.joins.mem_iff.mp member) with before | now
      · exact mem_append_left _ (known root before)
      · exact mem_append_right _ now
  · exact absurd (none.symm.trans here') (by simp)
  · exact absurd (ending.symm.trans late) Bool.false_ne_true
  · exact absurd (current.symm.trans same) (by simp)
  · rw [log, ← append_assoc]
    refine Founded.append (exits.joined.append Observation.Joined.grows ?_) Observation.Joined.grows
      fun item member => (noted_calm noted _ item member).2
    cases ready with
    | @exited before entry after polls exit task polled =>
      intro item member
      rcases mem_append.mp member with inPolls | inRest
      · exact polled.joined known item inPolls
      · refine joined_of_other (fun root same => ?_) _
        cases cleanup : entry.cleanup <;> simp [cleanup, same] at inRest
    | @cleaned before entry after polls outcome task guard polled =>
      intro item member
      rcases mem_append.mp member with inPolls | inRest
      · exact polled.joined known item inPolls
      · intro root same
        have own : root = entry.id := by simpa [same] using inRest
        rw [own]
        exact known _ (mem_map_of_mem (mem_filter.mpr
          ⟨mem_append_right _ mem_cons_self, by simp [task]⟩))

theorem ProcessRun.Exits.unstarted (exits : run.Exits count) {entry entry' : ActiveEntry} {answer : PollAnswer E}
    {event : Option (RootEvent E)} (whole : entry.Whole) (polled : entry.pollEvent none answer = (entry', event, seen))
    (log : run'.log = run.log ++ seen) (timeline : run'.timeline = run.timeline) (here : run.stage.current? = some entry)
    (startup : run.stage.active? = none ∧ run.stage.ending = false)
    (startup' : run'.stage.active? = none ∧ run'.stage.ending = false) (here' : run'.stage.current? = some entry') :
    run'.Exits count := by
  obtain ⟨notEntered, noEvents, noReaps⟩ := exits.startup startup.1 startup.2
  have shape : seen.filterMap rootEvent? = [] ∧ seen.filterMap reaped? = [] ∧
      .entered .active ∉ seen ∧ (∀ item ∈ seen, item.Joined run.log) ∧
        (entry'.task = false → entry'.id ∈ run.log.filterMap exited? ∨
          entry'.id ∈ seen.filterMap exited?) := by
    have ownJoined (task : entry.task = false) (root : ProcessRootId) (same : root = entry.id) :
        root ∈ run.log.filterMap exited? := same ▸ exits.current entry here task
    cases event with
    | none =>
      obtain ⟨rfl, polls⟩ := ActiveEntry.pollEvent_pending polled
      have all : Polls [entry'] seen := fun item member =>
        ⟨entry', mem_singleton_self _, polls item member⟩
      obtain ⟨-, reapedNil, eventNil, notHere⟩ := still_views all.still
      refine ⟨eventNil, reapedNil, notHere, fun item member root same => ?_, fun task => .inl (exits.current entry' here task)⟩
      obtain ⟨equal, task⟩ := polls item member
      rw [equal] at same
      cases same
      exact ownJoined task _ rfl
    | some event =>
      rcases ActiveEntry.pollEvent_ready whole polled with ⟨-, exit, -, rfl, rfl⟩ | ⟨task, -, outcome, -, rfl, rfl⟩
      · refine ⟨rfl, rfl, by simp, ?_, fun _ => .inr (mem_singleton_self _)⟩
        intro item member root same
        rw [mem_singleton.mp member] at same
        cases same
      · refine ⟨rfl, rfl, by simp, fun item member root same => ?_, fun _ => .inl (exits.current entry here task)⟩
        rw [same] at member
        exact ownJoined task root (by simpa using member)
  obtain ⟨eventNil, reapedNil, notHere, joined, known⟩ := shape
  refine ⟨?_, by rw [timeline]; exact exits.limit, fun active same => ?_, fun _ _ => ?_, fun late => ?_, fun other same task => ?_, ?_⟩
  · rw [timeline, exits.events, log, filterMap_append, eventNil, append_nil]
  · exact absurd (startup'.1.symm.trans same) (by simp)
  · rw [timeline, log, filterMap_append, noReaps, reapedNil]
    refine ⟨fun member => ?_, noEvents, rfl⟩
    exact (mem_append.mp member).elim notEntered notHere
  · exact absurd (startup'.2.symm.trans late) Bool.false_ne_true
  · rw [here'] at same
    cases same
    rw [log, filterMap_append]
    exact mem_append.mpr (known task)
  · rw [log]
    exact exits.joined.append Observation.Joined.grows joined

theorem ProcessRun.Exits.finish (exits : run.Exits count) (log : run'.log = run.log) (timeline : run'.timeline = run.timeline)
    (startup : run.stage.active? = none ∧ run.stage.ending = false)
    (ended : run'.stage.active? = none ∧ run'.stage.ending = true ∧ run'.stage.current? = none) : run'.Exits count := by
  have calm := exits.startup startup.1 startup.2
  refine ⟨?_, by rw [timeline]; exact exits.limit, fun active same => ?_, fun _ early => ?_, fun _ => .inl ?_,
    fun entry same => ?_, ?_⟩
  · rw [timeline, log, exits.events]
  · exact absurd (ended.1.symm.trans same) (by simp)
  · exact absurd (early.symm.trans ended.2.1) Bool.false_ne_true
  · rw [timeline, log]
    exact calm
  · exact absurd (ended.2.2.symm.trans same) (by simp)
  · rw [log]
    exact exits.joined

theorem ProcessRun.Exits.drained (exits : run.Exits count) (log : run'.log = run.log) (timeline : run'.timeline = run.timeline)
    (here : run.stage.active? = some active) (ids : active.map (·.id) = List.range count)
    (whole : ∀ entry ∈ active, entry.Whole) (none : active.any ActiveEntry.isRunning = false)
    (ended : run'.stage.active? = .none ∧ run'.stage.ending = true ∧ run'.stage.current? = .none) : run'.Exits count := by
  obtain ⟨entered, roots, reaped, -⟩ := exits.running active here
  obtain ⟨joined, released⟩ := ended_ids whole none
  refine ⟨?_, by rw [timeline]; exact exits.limit, fun active same => ?_, fun _ early => ?_, fun _ => .inr ?_,
    fun entry same => ?_, ?_⟩
  · rw [timeline, log, exits.events]
  · exact absurd (ended.1.symm.trans same) (by simp)
  · exact absurd (early.symm.trans ended.2.1) Bool.false_ne_true
  · rw [timeline, log, ← ids]
    exact ⟨entered, joined ▸ roots, released ▸ reaped⟩
  · exact absurd (ended.2.2.symm.trans same) (by simp)
  · rw [log]
    exact exits.joined

theorem ProcessRun.Exits.spawn (exits : run.Exits count) (log : run'.log = run.log ++ [.entered .active])
    (timeline : run'.timeline.rootEvents = run.timeline.rootEvents ∧ run'.timeline.rootEventLimit = run.timeline.rootEventLimit)
    (startup : run.stage.active? = none ∧ run.stage.ending = false) (here' : run'.stage.active? = some active)
    (fresh : ∀ entry ∈ active, entry.task = true ∧ entry.guard = true)
    (rest : run'.stage.ending = false ∧ run'.stage.current? = none) : run'.Exits count := by
  obtain ⟨-, noEvents, noReaps⟩ := exits.startup startup.1 startup.2
  have joined := joinedIds_of_task fun entry member => (fresh entry member).1
  have released := releasedIds_of_guard fun entry member => (fresh entry member).2
  refine ⟨?_, timeline.2.trans exits.limit, fun now same => ?_, fun none => ?_, fun late => ?_, fun entry same => ?_, ?_⟩
  · rw [timeline.1, log, exits.events, filterMap_append]
    exact (append_nil _).symm
  · rw [here'] at same
    cases same
    rw [timeline.1, log, filterMap_append, filterMap_append, noEvents, noReaps, joined, released]
    exact ⟨mem_append_right _ (mem_singleton_self _), List.Perm.refl _, List.Perm.refl _,
      fun root member => absurd member not_mem_nil⟩
  · exact absurd (none.symm.trans here') (by simp)
  · exact absurd (rest.1.symm.trans late) Bool.false_ne_true
  · exact absurd (rest.2.symm.trans same) (by simp)
  · rw [log]
    refine exits.joined.append Observation.Joined.grows fun item member => joined_of_other (fun root same => ?_) _
    rw [mem_singleton.mp member] at same
    cases same

end

variable {item : Observation E}

theorem calm_one (still : item.Still) (other : ∀ root, item ≠ .polledCleanup root)
    (before : List (Observation E)) : ∀ entry ∈ [item], entry.Still ∧ entry.Joined before := by
  intro entry member
  rw [mem_singleton.mp member]
  exact ⟨still, joined_of_other other before⟩

theorem ProcessRun.Exits.unwind {count : Nat} (exits : run.Exits count) (phased : run.Phased) (early : run.stage.early = true)
    {cause : ProcessCause E} {stage : Stage E} (still : item.Still)
    (other : ∀ root, item ≠ .polledCleanup root) (calm : run.stage.active? = none ∧ run.stage.ending = false)
    (calm' : stage.active? = none ∧ stage.ending = false) (current : stage.current? = none) :
    ((run.observe [item]).unwind cause stage).Exits count := by
  have timeline : ((run.observe [item]).unwind cause stage).timeline = run.timeline.push .rollback := by
    have quiet : (run.observe [item]).phase = .active := (phased.early early).1
    unfold ProcessRun.unwind
    rw [advance_quiescing quiet]
    rfl
  refine exits.still (unwind_seen phased early item cause stage) (forall_mem_cons.mpr ⟨?_, ?_⟩)
    (by rw [timeline]; exact ⟨rfl, rfl⟩) (calm'.1.trans calm.1.symm) (calm'.2.trans calm.2.symm) (.inl current)
  · exact ⟨still, joined_of_other other _⟩
  · exact forall_mem_cons.mpr ⟨⟨⟨rfl, rfl, rfl, by simp⟩, joined_of_other (by simp) _⟩,
      calm_one ⟨rfl, rfl, rfl, by simp⟩ (by simp) _⟩

theorem drain_timeline (active : run.phase = .active) (cause : ProcessCause E) (entries : List ActiveEntry) :
    (run.drain cause entries).timeline.rootEvents = run.timeline.rootEvents ∧
      (run.drain cause entries).timeline.rootEventLimit = run.timeline.rootEventLimit := by
  unfold ProcessRun.drain
  rw [advance_quiescing active]
  exact ⟨rfl, rfl⟩

theorem recordRootEvent_limit (run : ProcessRun E) (phase : ProcessRootEventPhase) (aborts : Bool) (event : RootEvent E) :
    (run.recordRootEvent phase aborts event).timeline.rootEventLimit = run.timeline.rootEventLimit := by
  cases event with
  | cleaned => rfl
  | exited root exit =>
    unfold ProcessRun.recordRootEvent ProcessTimeline.pushRootEvent
    simp only
    split <;> rfl

theorem ProcessMove.exits (move : ProcessMove supervisor run run') (lined : run.stage.Lined supervisor.roots.length)
    (phased : run.Phased) (exits : run.Exits supervisor.roots.length) : run'.Exits supervisor.roots.length := by
  have same : run.log = run.log ++ [] := (append_nil _).symm
  have nothing : ∀ item ∈ ([] : List (Observation E)), item.Still ∧ item.Joined run.log :=
    fun _ member => absurd member not_mem_nil
  cases move with
  | shutdownPreparing here | shutdownReaping here | preparationEnded here | shutdownActivating here | activationEnded here
  | takeCleanupPanicked here =>
    exact exits.unwind phased (by rw [here]; rfl) ⟨rfl, rfl, rfl, by simp⟩ (by simp) (by rw [here]; exact ⟨rfl, rfl⟩)
      ⟨rfl, rfl⟩ rfl
  | preparedRoot here | reapedPreparation here | allPrepared here | activatedRoot here | constructedRun cleanup here
  | ownedCleanup outcome here | rollback here | rollbackEnded outcome here | finalCleanup outcome here =>
    exact exits.still rfl (calm_one ⟨rfl, rfl, rfl, by simp⟩ (by simp) _) ⟨rfl, rfl⟩ (by rw [here]; rfl) (by rw [here]; rfl)
      (.inl rfl)
  | allActivated here | rolledBackRest here | unstartedEnded here | reapedForced here | noFinalCleanup here =>
    exact exits.still same nothing ⟨rfl, rfl⟩ (by rw [here]; rfl) (by rw [here]; rfl) (.inl rfl)
  | runPanicked cleanup here =>
    exact exits.unwind phased (by rw [here]; rfl) ⟨rfl, rfl, rfl, by simp⟩ (by simp) (by rw [here]; exact ⟨rfl, rfl⟩)
      (by cases cleanup <;> exact ⟨rfl, rfl⟩) (by cases cleanup <;> rfl)
  | rolledBackAll here | rolledBackUnstarted here => exact exits.finish rfl rfl (by rw [here]; exact ⟨rfl, rfl⟩) ⟨rfl, rfl, rfl⟩
  | abortUnstarted here =>
    refine exits.still rfl (calm_one ⟨rfl, rfl, rfl, by simp⟩ (by simp) _) ⟨rfl, rfl⟩ (by rw [here]; rfl)
      (by rw [here]; rfl) (.inr (.inr fun entry spawned => ?_))
    cases spawned
    rfl
  | pollUnstarted answer here running polled =>
    rw [here] at lined
    exact exits.unstarted (lined _ rfl) polled rfl rfl (by rw [here]; rfl) (by rw [here]; exact ⟨rfl, rfl⟩) ⟨rfl, rfl⟩ rfl
  | spawned here =>
    refine exits.spawn rfl ⟨rfl, rfl⟩ (by rw [here]; exact ⟨rfl, rfl⟩) rfl (fun entry member => ?_) ⟨rfl, rfl⟩
    obtain ⟨unstarted, -, rfl⟩ := mem_map.mp member
    exact ⟨rfl, rfl⟩
  | @shutdownSelecting active here =>
    have quiet : (run.observe [.shutdown]).phase = .active := (phased.early (by rw [here]; rfl)).1
    exact exits.still (@drain_seen _ run (run.observe [.shutdown]) quiet [.shutdown] rfl _ _) (noted_calm rfl _)
      (drain_timeline quiet _ _) (by rw [here]; rfl) (by rw [here]; rfl) (.inl rfl)
  | @selectPending active active' seen answers here polled
  | @drainPending active active' forced seen answers here running polled
  | @reapPending active active' roots failure seen answers here running polled =>
    obtain ⟨rfl, polls⟩ := pollNextRoot_pending polled
    have known := (exits.running active' (by rw [here]; rfl)).2.2.2
    exact exits.still rfl (polls.calm known) ⟨rfl, rfl⟩ (by rw [here]; rfl) (by rw [here]; rfl) (.inl rfl)
  | @selectExited active active' root exit seen answers here polled =>
    have quiet : run.phase = .active := (phased.early (by rw [here]; rfl)).1
    rw [here] at lined
    have quiet' : (((run.observe seen).recordRootEvent .active false (.exited root exit)).push .fatal).phase = .active := quiet
    have timeline := drain_timeline quiet' (.rootStopped root exit) active'
    refine @ProcessRun.Exits.event _ run _ _ active active' seen exits .active false (.exited root exit)
      ([.entered .fatal] ++ [.phase .quiescing, .entered .quiescing, .entered .draining]) rfl (by rw [here]; rfl) lined.1
      lined.whole (pollNextRoot_ready lined.whole polled) ?_ rfl ⟨timeline.1, timeline.2.trans (recordRootEvent_limit ..)⟩ rfl rfl rfl
    rw [← append_assoc seen]
    exact drain_seen quiet' (append_assoc ..) _ _
  | selectCleaned answers here polled => exact absurd polled (lined.no_cleaned here)
  | @drainEvent active active' forced event seen answers here running polled =>
    rw [here] at lined
    exact @ProcessRun.Exits.event _ run _ _ active active' seen exits _ false event [] (by cases forced <;> rfl)
      (by rw [here]; rfl) lined.1 lined.2 (pollNextRoot_ready lined.2 polled)
      (by rw [append_nil]; exact recordRootEvent_log ..) rfl ⟨rfl, recordRootEvent_limit ..⟩ rfl rfl rfl
  | @graceElapsed active active' seen answers here running polled =>
    obtain ⟨rfl, polls⟩ := pollNextRoot_pending polled
    have known := (exits.running active' (by rw [here]; rfl)).2.2.2
    rw [advance_forced (phased.grace active' here)]
    exact @ProcessRun.Exits.still _ run _ _ (seen ++ [.entered .forced, .phase .forced]) exits
      ((append_assoc ..).trans (append_assoc ..))
      (forall_mem_append.mpr ⟨polls.calm known, noted_calm rfl _⟩) ⟨rfl, rfl⟩ (by rw [here]; rfl) (by rw [here]; rfl)
      (.inl rfl)
  | @watchdogElapsed active active' seen answers here running polled =>
    obtain ⟨rfl, polls⟩ := pollNextRoot_pending polled
    have known := (exits.running active' (by rw [here]; rfl)).2.2.2
    exact exits.still (append_assoc ..) (forall_mem_append.mpr ⟨polls.calm known, noted_calm rfl _⟩) ⟨rfl, rfl⟩
      (by rw [here]; rfl) (by rw [here]; rfl) (.inl rfl)
  | @reapEvent active active' roots failure event seen answers here running polled =>
    rw [here] at lined
    exact @ProcessRun.Exits.event _ run _ _ active active' seen exits _ true event [] rfl (by rw [here]; rfl) lined.1
      lined.2 (pollNextRoot_ready lined.2 polled) (by rw [append_nil]; exact recordRootEvent_log ..) rfl
      ⟨rfl, recordRootEvent_limit ..⟩ rfl rfl rfl
  | drained here ended =>
    rw [here] at lined
    exact exits.drained rfl rfl (by rw [here]; rfl) lined.1 lined.2 ended ⟨rfl, rfl, rfl⟩
  | stopped stopped here =>
    exact exits.still (append_assoc ..) (noted_calm rfl _) ⟨rfl, rfl⟩ (by rw [here]; rfl) (by rw [here]; rfl) (.inl rfl)

theorem ProcessReach.exits (reach : ProcessReach supervisor run) : run.Exits supervisor.roots.length := by
  induction reach with
  | start =>
    refine ⟨rfl, rfl, fun active here => ?_, fun _ _ => ⟨not_mem_nil, rfl, rfl⟩, fun late => ?_, fun entry here => ?_,
      Founded.nil⟩
    · cases here
    · cases late
    · cases here
  | next reach move ih => exact move.exits reach.lined reach.phased ih

theorem advance_grows (run : ProcessRun E) (phase : ProcessCancellationPhase) : run.log <+: (run.advance phase).log := by
  unfold ProcessRun.advance
  split
  · exact prefix_append ..
  · exact prefix_rfl

theorem unwind_grows (run : ProcessRun E) (cause : ProcessCause E) (stage : Stage E) :
    run.log <+: (run.unwind cause stage).log :=
  (advance_grows run .quiescing).trans (prefix_append ..)

theorem drain_grows (run : ProcessRun E) (cause : ProcessCause E) (entries : List ActiveEntry) :
    run.log <+: (run.drain cause entries).log :=
  ((advance_grows run .quiescing).trans (prefix_append ..)).trans (prefix_append ..)

theorem ProcessMove.log_grows (move : ProcessMove supervisor run run') : run.log <+: run'.log := by
  have unwound (seen : List (Observation E)) (cause : ProcessCause E) (stage : Stage E) :
      run.log <+: ((run.observe seen).unwind cause stage).log :=
    (prefix_append run.log seen).trans (unwind_grows (run.observe seen) cause stage)
  cases move with
  | shutdownPreparing | shutdownReaping | preparationEnded | shutdownActivating | activationEnded | takeCleanupPanicked
  | runPanicked => exact unwound ..
  | @shutdownSelecting active =>
    exact (prefix_append run.log [.shutdown]).trans (drain_grows (run.observe [.shutdown]) .externalShutdown active)
  | @selectExited active active' root exit seen =>
    have toFatal := (prefix_append run.log seen).trans (prefix_append _ [.entered .fatal])
    exact toFatal.trans (drain_grows (((run.observe seen).recordRootEvent .active false (.exited root exit)).push .fatal)
      (.rootStopped root exit) active')
  | drainEvent | reapEvent => exact recordRootEvent_log run .. ▸ prefix_append ..
  | @graceElapsed active active' seen =>
    have toForced := (prefix_append run.log seen).trans (prefix_append _ [.entered .forced])
    exact toForced.trans (advance_grows ((run.observe seen).push .forced) .forced)
  | @watchdogElapsed active active' seen => exact (prefix_append run.log seen).trans (prefix_append ..)
  | stopped => exact (prefix_append run.log [.entered .stopped]).trans (prefix_append ..)
  | preparedRoot | reapedPreparation | allPrepared | activatedRoot | constructedRun | ownedCleanup | rollback | rollbackEnded
  | abortUnstarted | pollUnstarted | spawned | selectPending | selectCleaned | drainPending | reapPending | finalCleanup =>
    exact prefix_append ..
  | allActivated | rolledBackAll | rolledBackRest | unstartedEnded | rolledBackUnstarted | reapedForced | drained
  | noFinalCleanup =>
    exact prefix_rfl

end Ferrum.Runtime
