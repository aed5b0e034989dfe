import Mathlib.Data.List.Nodup
import Ferrum.Runtime.ProcessPhases

namespace Ferrum.Runtime

open Option Observation List

variable {E : Type} {supervisor : ProcessSupervisor} {run run' : ProcessRun E}

namespace Observation

/-- The roots whose preparation succeeded. -/
def prepared? : Observation E → Option ProcessRootId
  | .preparation root (.returned .prepared) | .reapedPreparation root (.returned .prepared) => some root
  | _ => none

/-- A prepared root is consumed by the call of its `rollback` or of its `run`. -/
def consumed? : Observation E → Option ProcessRootId
  | .rolledBack root | .ran root _ => some root
  | _ => none

def abandoned? : Observation E → Option ProcessRootId
  | .abandoned root => some root
  | _ => none

def rolledBack? : Observation E → Option ProcessRootId
  | .rolledBack root => some root
  | _ => none

def aborted? : Observation E → Option ProcessRootId
  | .aborted root => some root
  | _ => none

/-- What the supervisor does for all roots at once. -/
def noted : Observation E → Bool
  | .shutdown | .watchdog _ | .phase _ | .owners _ => true
  | .entered .fatal | .entered .quiescing | .entered .draining | .entered .forced | .entered .stopped => true
  | _ => false

/-- The entries that say nothing of the custody of a root. -/
def Idle (item : Observation E) : Prop :=
  item.prepared? = none ∧ item.consumed? = none ∧ item.abandoned? = none ∧ item.rolledBack? = none ∧ item.aborted? = none

theorem idle_of_seen {item : Observation E} (seen : item.polled = true ∨ item.noted = true) : item.Idle := by
  cases item <;> first | exact ⟨rfl, rfl, rfl, rfl, rfl⟩ | exact absurd seen (by simp [polled, noted])

theorem idle_of_preparationCause {root : ProcessRootId} {outcome : Caught (PrepareOutcome E)} {cause : ProcessCause E}
    (ended : ProcessRun.preparationCause root outcome = some cause) : (preparation root outcome).Idle := by
  cases outcome with
  | panicked => exact ⟨rfl, rfl, rfl, rfl, rfl⟩
  | returned outcome =>
    cases outcome with
    | prepared => cases ended
    | failed | cancelled => exact ⟨rfl, rfl, rfl, rfl, rfl⟩

end Observation

namespace Stage

/-- The prepared roots that the supervisor still holds as such. -/
def held : Stage E → List ProcessRootId
  | .preparing _ prepared | .reaping _ prepared | .activating _ prepared | .handingOff prepared _
  | .cleaning _ prepared _ | .rollingPrepared prepared _ _ _ => prepared
  | _ => []

/-- The constructed runs that are neither spawned nor aborted. -/
def waiting : Stage E → List ProcessRootId
  | .handingOff _ unstarted | .cleaning _ _ unstarted | .rollingPrepared _ _ _ (.handOff _ unstarted)
  | .rollingUnstarted unstarted _ _ => unstarted.map (·.id)
  | _ => []

/-- The stages before any rollback. -/
def building : Stage E → Bool
  | .preparing .. | .reaping .. | .activating .. | .handingOff .. => true
  | _ => false

/-- The stages at which the spawned roots are polled, and the last one. -/
def served : Stage E → Bool
  | .selecting _ | .draining .. | .reapingForced .. | .stopping => true
  | _ => false

/-- How many roots have been prepared while one more is. -/
def next? : Stage E → Option Nat
  | .preparing index _ | .reaping index _ => some index
  | _ => none

end Stage

namespace ProcessRun

/-- Each prepared root is held, consumed or abandoned once; rollbacks and aborts took the greatest root left. -/
structure Custody (count : Nat) (run : ProcessRun E) : Prop where
  prepared : ∃ known ≤ count, run.log.filterMap prepared? = List.range known ∧
    ∀ index, run.stage.next? = some index → known = index
  custody : (run.log.filterMap prepared?).Perm
    (run.stage.held ++ (run.log.filterMap consumed? ++ run.log.filterMap abandoned?))
  rolledBack : (run.stage.held ++ (run.log.filterMap rolledBack?).reverse).Pairwise (· < ·)
  aborted : (run.stage.waiting ++ (run.log.filterMap aborted?).reverse).Pairwise (· < ·)
  untouched : run.stage.building = true →
    run.log.filterMap rolledBack? = [] ∧ run.log.filterMap aborted? = []

variable {count : Nat} {seen : List (Observation E)}

theorem Custody.idle (custody : run.Custody count)
    (log : run'.log = run.log ++ seen) (idle : ∀ item ∈ seen, item.Idle) (held : run'.stage.held = run.stage.held)
    (waiting : run'.stage.waiting = run.stage.waiting ∨ run'.stage.waiting = [])
    (building : run'.stage.building = true → run.stage.building = true)
    (next : run'.stage.next? = run.stage.next? ∨ run'.stage.next? = none) : run'.Custody count := by
  have unchanged (view : Observation E → Option ProcessRootId) (none : ∀ item : Observation E, item.Idle → view item = none) :
      run'.log.filterMap view = run.log.filterMap view := by
    have nothing : seen.filterMap view = [] := filterMap_eq_nil_iff.mpr fun item member => none item (idle item member)
    rw [log, filterMap_append, nothing, append_nil]
  have prepared := unchanged prepared? fun _ idle => idle.1
  have consumed := unchanged consumed? fun _ idle => idle.2.1
  have abandoned := unchanged abandoned? fun _ idle => idle.2.2.1
  have rolledBack := unchanged rolledBack? fun _ idle => idle.2.2.2.1
  have aborted := unchanged aborted? fun _ idle => idle.2.2.2.2
  refine ⟨?_, ?_, ?_, ?_, fun early => ?_⟩
  · obtain ⟨known, bound, equal, here⟩ := custody.prepared
    refine ⟨known, bound, prepared.trans equal, fun index same => ?_⟩
    rcases next with kept | gone
    · exact here index (kept ▸ same)
    · exact absurd (gone.symm.trans same) (by simp)
  · rw [prepared, consumed, abandoned, held]
    exact custody.custody
  · rw [held, rolledBack]
    exact custody.rolledBack
  · rw [aborted]
    rcases waiting with kept | gone
    · rw [kept]
      exact custody.aborted
    · rw [gone]
      exact custody.aborted.sublist (sublist_append_right ..)
  · rw [rolledBack, aborted]
    exact custody.untouched (building early)

theorem Custody.past (custody : run.Custody count) (log : run'.log = run.log ++ seen)
    (idle : ∀ item ∈ seen, item.Idle) (held : run'.stage.held = run.stage.held)
    (waiting : run'.stage.waiting = run.stage.waiting ∨ run'.stage.waiting = []) (built : run'.stage.building = false) :
    run'.Custody count := by
  refine custody.idle log idle held waiting (fun building => absurd (built.symm.trans building) Bool.false_ne_true) (.inr ?_)
  cases here : run'.stage <;> rw [here] at built <;> first | rfl | cases built

end ProcessRun

open ProcessRun

variable {item : Observation E}

theorem idle_one (idle : item.Idle) : ∀ entry ∈ [item], entry.Idle := by
  intro entry member
  rw [mem_singleton.mp member]
  exact idle

theorem unwind_seen (phased : run.Phased) (early : run.stage.early = true) (item : Observation E) (cause : ProcessCause E)
    (stage : Stage E) :
    ((run.observe [item]).unwind cause stage).log = run.log ++ [item, .phase .quiescing, .entered .rollback] := by
  have active : (run.observe [item]).phase = .active := (phased.early early).1
  rw [(unwind_log active cause stage).1]
  exact append_assoc ..

theorem idle_unwind (idle : item.Idle) : ∀ entry ∈ [item, .phase .quiescing, .entered .rollback], entry.Idle := by
  intro entry member
  simp only [mem_cons, not_mem_nil, or_false] at member
  rcases member with rfl | rfl | rfl
  · exact idle
  · exact ⟨rfl, rfl, rfl, rfl, rfl⟩
  · exact ⟨rfl, rfl, rfl, rfl, rfl⟩

section

variable {count : Nat}

section

variable (custody : run.Custody count)
include custody

theorem Custody.prepare {item : Observation E} {index : Nat}
    (prepared : item.prepared? = some index) (others : item.consumed? = none ∧ item.abandoned? = none ∧
      item.rolledBack? = none ∧ item.aborted? = none)
    (next : run.stage.next? = some index) (bound : index < count) (building : run.stage.building = true)
    (held : run.stage.held = List.range index)
    (log : run'.log = run.log ++ [item]) (held' : run'.stage.held = List.range (index + 1)) (waiting' : run'.stage.waiting = [])
    (next' : ∀ after, run'.stage.next? = some after → after = index + 1) : run'.Custody count := by
  obtain ⟨known, -, equal, here⟩ := custody.prepared
  obtain ⟨unrolled, unaborted⟩ := custody.untouched building
  obtain ⟨notConsumed, notAbandoned, notRolled, notAborted⟩ := others
  have prepared' : run'.log.filterMap prepared? = List.range (index + 1) := by
    rw [log, filterMap_append, equal, here index next, List.range_succ]
    simp only [filterMap_cons, prepared, filterMap_nil]
  have rolled' : run'.log.filterMap rolledBack? = [] := by
    rw [log, filterMap_append, unrolled]
    simp only [filterMap_cons, notRolled, filterMap_nil, append_nil]
  have aborted' : run'.log.filterMap aborted? = [] := by
    rw [log, filterMap_append, unaborted]
    simp only [filterMap_cons, notAborted, filterMap_nil, append_nil]
  have nothing : run.log.filterMap consumed? ++ run.log.filterMap abandoned? = [] := by
    have perm := custody.custody
    rw [equal, here index next, held] at perm
    have lengths := perm.length_eq
    rw [length_append] at lengths
    exact eq_nil_of_length_eq_zero (by omega)
  refine ⟨⟨index + 1, bound, prepared', fun after same => (next' after same).symm⟩, ?_, ?_, ?_, fun _ => ⟨rolled', aborted'⟩⟩
  · rw [prepared', held', log, filterMap_append, filterMap_append]
    obtain ⟨consumedNil, abandonedNil⟩ := append_eq_nil_iff.mp nothing
    rw [consumedNil, abandonedNil]
    simp only [filterMap_cons, notConsumed, notAbandoned, filterMap_nil, append_nil]
    exact .refl _
  · rw [held', rolled', reverse_nil, append_nil]
    exact pairwise_lt_range
  · rw [waiting', aborted']
    exact List.Pairwise.nil

theorem Custody.handOff {item : Observation E} {extra : List (Observation E)}
    {root : ProcessRootId} {rest : List ProcessRootId} (held : run.stage.held = root :: rest)
    (held' : run'.stage.held = rest) (log : run'.log = run.log ++ item :: extra) (idle : ∀ item ∈ extra, item.Idle)
    (others : item.prepared? = none ∧ item.rolledBack? = none ∧ item.aborted? = none)
    (taken : item.consumed? = some root ∧ item.abandoned? = none ∨ item.consumed? = none ∧ item.abandoned? = some root)
    (waiting : (run'.stage.waiting ++ (run.log.filterMap aborted?).reverse).Pairwise (· < ·))
    (building : run'.stage.building = true → run.stage.building = true) (next : run'.stage.next? = none) :
    run'.Custody count := by
  have unchanged (view : Observation E → Option ProcessRootId) (none : ∀ item : Observation E, item.Idle → view item = none) :
      run'.log.filterMap view = run.log.filterMap view ++ (view item).toList := by
    have nothing : extra.filterMap view = [] := filterMap_eq_nil_iff.mpr fun item member => none item (idle item member)
    rw [log, filterMap_append, filterMap_cons, nothing]
    cases view item <;> rfl
  have prepared := unchanged prepared? fun _ idle => idle.1
  have consumed := unchanged consumed? fun _ idle => idle.2.1
  have abandoned := unchanged abandoned? fun _ idle => idle.2.2.1
  have rolledBack := unchanged rolledBack? fun _ idle => idle.2.2.2.1
  have aborted := unchanged aborted? fun _ idle => idle.2.2.2.2
  rw [others.1, toList_none, append_nil] at prepared
  rw [others.2.1, toList_none, append_nil] at rolledBack
  rw [others.2.2, toList_none, append_nil] at aborted
  refine ⟨?_, ?_, ?_, ?_, fun early => ?_⟩
  · obtain ⟨known, bound, equal, -⟩ := custody.prepared
    exact ⟨known, bound, prepared.trans equal, fun index same => absurd (next.symm.trans same) (by simp)⟩
  · have perm := custody.custody
    rw [held] at perm
    rw [prepared, consumed, abandoned, held']
    refine perm.trans (perm_middle.symm.trans ((perm_append_left_iff rest).mpr ?_))
    rcases taken with ⟨now, not⟩ | ⟨not, now⟩
    · rw [now, not, toList_some, toList_none, append_nil, append_assoc]
      exact perm_middle.symm
    · rw [now, not, toList_some, toList_none, append_nil, ← append_assoc]
      exact (perm_append_singleton root _).symm
  · rw [held', rolledBack]
    have ordered := custody.rolledBack
    rw [held] at ordered
    exact ordered.sublist (sublist_cons_self root _)
  · rw [aborted]
    exact waiting
  · rw [rolledBack, aborted]
    exact custody.untouched (building early)

theorem Custody.rollBack {root : ProcessRootId} {rest : List ProcessRootId}
    (held : run.stage.held = rest ++ [root]) (held' : run'.stage.held = rest)
    (log : run'.log = run.log ++ [.rolledBack root]) (waiting : run'.stage.waiting = run.stage.waiting)
    (building : run'.stage.building = false) (next : run'.stage.next? = none) : run'.Custody count := by
  have view (view : Observation E → Option ProcessRootId) :
      run'.log.filterMap view = run.log.filterMap view ++ (view (.rolledBack root)).toList := by
    rw [log, filterMap_append, filterMap_cons]
    cases view (.rolledBack root) <;> rfl
  refine ⟨?_, ?_, ?_, ?_, fun early => absurd (building.symm.trans early) Bool.false_ne_true⟩
  · obtain ⟨known, bound, equal, -⟩ := custody.prepared
    refine ⟨known, bound, ?_, fun index same => absurd (next.symm.trans same) (by simp)⟩
    rw [view]
    exact (append_nil _).trans equal
  · have perm := custody.custody
    rw [held, append_assoc] at perm
    rw [view, view consumed?, view abandoned?, held']
    simp only [prepared?, consumed?, abandoned?, toList_none,
      toList_some, append_nil]
    refine perm.trans ((perm_append_left_iff rest).mpr ?_)
    rw [append_assoc, singleton_append, singleton_append]
    exact perm_middle.symm
  · rw [view, held']
    have ordered := custody.rolledBack
    rw [held] at ordered
    simpa [rolledBack?] using ordered
  · rw [view, waiting]
    exact (congrArg (fun aborted => (run.stage.waiting ++ List.reverse aborted).Pairwise (· < ·))
      (append_nil _)).mpr custody.aborted

theorem Custody.abort {root : ProcessRootId} {rest : List ProcessRootId}
    (waiting : run.stage.waiting = rest ++ [root]) (waiting' : run'.stage.waiting = rest)
    (log : run'.log = run.log ++ [.aborted root]) (held : run'.stage.held = run.stage.held)
    (building : run'.stage.building = false) (next : run'.stage.next? = none) : run'.Custody count := by
  have view (view : Observation E → Option ProcessRootId) :
      run'.log.filterMap view = run.log.filterMap view ++ (view (.aborted root)).toList := by
    rw [log, filterMap_append, filterMap_cons]
    cases view (.aborted root) <;> rfl
  refine ⟨?_, ?_, ?_, ?_, fun early => absurd (building.symm.trans early) Bool.false_ne_true⟩
  · obtain ⟨known, bound, equal, -⟩ := custody.prepared
    refine ⟨known, bound, ?_, fun index same => absurd (next.symm.trans same) (by simp)⟩
    rw [view]
    exact (append_nil _).trans equal
  · rw [view, view consumed?, view abandoned?, held]
    simpa [prepared?, consumed?, abandoned?] using custody.custody
  · rw [view, held]
    simpa [rolledBack?] using custody.rolledBack
  · rw [view, waiting']
    have ordered := custody.aborted
    rw [waiting] at ordered
    simpa [aborted?] using ordered

end

end

/-- While the roots are served, a move records its polls and what the supervisor does for all of them. -/
theorem ProcessMove.sees (move : ProcessMove supervisor run run') (lined : run.stage.Lined supervisor.roots.length)
    (phased : run.Phased) (served : run.stage.served = true) :
    ∃ seen, run'.log = run.log ++ seen ∧ ∀ item ∈ seen, item.polled = true ∨ item.noted = true := by
  have notes {rest : List (Observation E)} (all : rest.all noted = true) (item : Observation E)
      (member : item ∈ rest) : item.polled = true ∨ item.noted = true := .inr (all_eq_true.mp all item member)
  have both {seen rest : List (Observation E)} (polls : ∀ item ∈ seen, item.polled = true)
      (all : rest.all noted = true) : ∀ item ∈ seen ++ rest, item.polled = true ∨ item.noted = true :=
    forall_mem_append.mpr ⟨fun item member => .inl (polls item member), notes all⟩
  have only {seen : List (Observation E)} (polls : ∀ item ∈ seen, item.polled = true) (item : Observation E)
      (member : item ∈ seen) : item.polled = true ∨ item.noted = true := .inl (polls item member)
  cases move with
  | @shutdownSelecting active here =>
    have quiet : (run.observe [.shutdown]).phase = .active := (phased.early (by rw [here]; rfl)).1
    exact ⟨_, @drain_seen _ run (run.observe [.shutdown]) quiet [.shutdown] rfl _ _, notes rfl⟩
  | @selectExited active active' root exit seen answers here polled =>
    have quiet : (((run.observe seen).recordRootEvent .active false (.exited root exit)).push .fatal).phase = .active :=
      (phased.early (by rw [here]; rfl)).1
    rw [here] at lined
    refine ⟨_, (drain_seen quiet (append_assoc run.log seen [.entered .fatal]) _ _).trans (congrArg _ (append_assoc ..)), ?_⟩
    exact both (pollNextRoot_ready lined.whole polled).polled rfl
  | selectPending answers here polled | drainPending answers here running polled | reapPending answers here running polled =>
    exact ⟨_, rfl, only (pollNextRoot_pending polled).2.polled⟩
  | selectCleaned answers here polled => exact absurd polled (lined.no_cleaned here)
  | drainEvent answers here running polled | reapEvent answers here running polled =>
    rw [here] at lined
    exact ⟨_, recordRootEvent_log .., only (pollNextRoot_ready lined.2 polled).polled⟩
  | graceElapsed answers here running polled =>
    exact ⟨_, grace_log (phased.grace _ here) _, both (pollNextRoot_pending polled).2.polled rfl⟩
  | watchdogElapsed answers here running polled =>
    exact ⟨_, append_assoc .., both (pollNextRoot_pending polled).2.polled rfl⟩
  | reapedForced | drained => exact ⟨[], (append_nil _).symm, fun _ member => absurd member not_mem_nil⟩
  | stopped => exact ⟨_, append_assoc .., notes rfl⟩
  | shutdownPreparing here | shutdownReaping here | preparedRoot here | preparationEnded here | reapedPreparation here
  | allPrepared here | shutdownActivating here | activatedRoot here | activationEnded here | allActivated here
  | takeCleanupPanicked here | runPanicked cleanup here | constructedRun cleanup here | ownedCleanup outcome here
  | rollback here | rollbackEnded outcome here | rolledBackAll here | rolledBackRest here | abortUnstarted here
  | pollUnstarted answer here | unstartedEnded here | rolledBackUnstarted here | spawned here | noFinalCleanup here
  | finalCleanup outcome here =>
    rw [here] at served
    cases served

theorem ProcessMove.custody (move : ProcessMove supervisor run run') (lined : run.stage.Lined supervisor.roots.length)
    (phased : run.Phased) (custody : run.Custody supervisor.roots.length) : run'.Custody supervisor.roots.length := by
  have sees := move.sees lined phased
  have same : run.log = run.log ++ [] := (append_nil _).symm
  have nothing : ∀ item ∈ ([] : List (Observation E)), item.Idle := fun _ member => absurd member not_mem_nil
  have blank : Observation.Idle (E := E) (.entered .rollback) := ⟨rfl, rfl, rfl, rfl, rfl⟩
  cases move with
  | shutdownPreparing here | shutdownActivating here | activationEnded here =>
    have early : run.stage.early = true := by rw [here]; rfl
    exact custody.past (unwind_seen phased early _ _ _) (idle_unwind ⟨rfl, rfl, rfl, rfl, rfl⟩) (by rw [here]; rfl)
      (.inr rfl) rfl
  | shutdownReaping here =>
    have early : run.stage.early = true := by rw [here]; rfl
    exact custody.idle (unwind_seen phased early _ _ _) (idle_unwind ⟨rfl, rfl, rfl, rfl, rfl⟩) (by rw [here]; rfl)
      (.inr rfl) (fun _ => by rw [here]; rfl) (.inl (by rw [here]; rfl))
  | @preparedRoot index prepared here left =>
    rw [here] at lined
    refine @Custody.prepare _ run _ _ custody (.preparation index (.returned .prepared)) index rfl ⟨rfl, rfl, rfl, rfl⟩
      (by rw [here]; rfl) left (by rw [here]; rfl) (by rw [here]; exact lined.1) rfl ?_ rfl ?_
    · rw [List.range_succ, ← lined.1]
      rfl
    · intro after same
      cases same
      rfl
  | @preparationEnded index prepared outcome cause here left ended =>
    have early : run.stage.early = true := by rw [here]; rfl
    exact custody.past (unwind_seen phased early _ _ _) (idle_unwind (idle_of_preparationCause ended))
      (by rw [here]; rfl) (.inr rfl) rfl
  | @reapedPreparation index prepared outcome here =>
    rw [here] at lined
    by_cases late : outcome = .returned .prepared
    · subst late
      refine @Custody.prepare _ run _ _ custody (.reapedPreparation index (.returned .prepared)) index rfl
        ⟨rfl, rfl, rfl, rfl⟩ (by rw [here]; rfl) lined.2 (by rw [here]; rfl) (by rw [here]; exact lined.1) rfl ?_ rfl ?_
      · rw [List.range_succ, ← lined.1]
        rfl
      · intro after same
        cases same
    · have idle : (Observation.reapedPreparation index outcome).Idle ∧ preparedLate index outcome = [] := by
        cases outcome with
        | panicked => exact ⟨⟨rfl, rfl, rfl, rfl, rfl⟩, rfl⟩
        | returned outcome =>
          cases outcome with
          | prepared => exact absurd rfl late
          | failed | cancelled => exact ⟨⟨rfl, rfl, rfl, rfl, rfl⟩, rfl⟩
      refine custody.past rfl (idle_one idle.1) ?_ (.inr rfl) rfl
      rw [here, idle.2, append_nil]
      rfl
  | allPrepared here | activatedRoot here =>
    exact custody.idle rfl (idle_one ⟨rfl, rfl, rfl, rfl, rfl⟩) (by rw [here]; rfl) (.inr rfl)
      (fun _ => by rw [here]; rfl) (.inr rfl)
  | allActivated here =>
    exact custody.idle same nothing (by rw [here]; rfl) (.inr rfl) (fun _ => by rw [here]; rfl) (.inr rfl)
  | @takeCleanupPanicked root prepared unstarted here =>
    have early : run.stage.early = true := by rw [here]; rfl
    have waiting := custody.aborted
    rw [here] at waiting
    exact @Custody.handOff _ run _ _ custody (.abandoned root) _ root prepared (by rw [here]; rfl) rfl
      (unwind_seen phased early _ _ _) (fun item member => idle_unwind blank item (mem_cons_of_mem _ member))
      ⟨rfl, rfl, rfl⟩ (.inr ⟨rfl, rfl⟩) waiting (fun early => absurd early Bool.false_ne_true) rfl
  | @runPanicked root prepared unstarted cleanup here =>
    have early : run.stage.early = true := by rw [here]; rfl
    have waiting := custody.aborted
    rw [here] at waiting
    refine @Custody.handOff _ run _ _ custody (.ran root true) _ root prepared (by rw [here]; rfl) ?_
      (unwind_seen phased early _ _ _) (fun item member => idle_unwind blank item (mem_cons_of_mem _ member))
      ⟨rfl, rfl, rfl⟩ (.inl ⟨rfl, rfl⟩) ?_ (fun early => ?_) ?_
    · cases cleanup <;> rfl
    · cases cleanup <;> exact waiting
    · cases cleanup <;> exact absurd early Bool.false_ne_true
    · cases cleanup <;> rfl
  | @constructedRun root prepared unstarted cleanup here =>
    have building : run.stage.building = true := by rw [here]; rfl
    rw [here] at lined
    refine @Custody.handOff _ run _ _ custody (.ran root false) [] root prepared (by rw [here]; rfl) rfl rfl nothing
      ⟨rfl, rfl, rfl⟩ (.inl ⟨rfl, rfl⟩) ?_ (fun _ => building) rfl
    rw [(custody.untouched building).2, reverse_nil, append_nil]
    have ordered : (unstarted.map (·.id) ++ root :: prepared).Pairwise (· < ·) := lined ▸ pairwise_lt_range
    have waiting : ((run.observe [.ran root false]).goto (.handingOff prepared (unstarted ++ [⟨root, cleanup⟩]))).stage.waiting =
        unstarted.map (·.id) ++ [root] := map_append
    rw [waiting]
    exact ordered.sublist ((singleton_sublist.mpr mem_cons_self).append_left _)
  | ownedCleanup outcome here =>
    exact custody.past rfl (idle_one ⟨rfl, rfl, rfl, rfl, rfl⟩) (by rw [here]; rfl) (.inl (by rw [here]; rfl)) rfl
  | @rollback prepared root failure next here =>
    refine @Custody.rollBack _ run _ _ custody root prepared (by rw [here]; rfl) rfl rfl ?_ rfl rfl
    rw [here]
    cases next <;> rfl
  | @rollbackEnded prepared root failure next outcome here =>
    refine custody.past rfl (idle_one ⟨rfl, rfl, rfl, rfl, rfl⟩) (by rw [here]; rfl) (.inl ?_) rfl
    rw [here]
    cases next <;> rfl
  | rolledBackAll here | rolledBackUnstarted here | reapedForced here | drained here | noFinalCleanup here =>
    exact custody.past same nothing (by rw [here]; rfl) (.inr rfl) rfl
  | rolledBackRest here | unstartedEnded here =>
    exact custody.past same nothing (by rw [here]; rfl) (.inl (by rw [here]; rfl)) rfl
  | @abortUnstarted unstarted entry failure here =>
    refine @Custody.abort _ run _ _ custody entry.id (unstarted.map (·.id)) ?_ rfl rfl (by rw [here]; rfl) rfl rfl
    rw [here]
    exact map_append
  | pollUnstarted answer here running polled =>
    rw [here] at lined
    exact custody.past rfl
      (fun item member => idle_of_seen (.inl (ActiveEntry.pollEvent_polled (lined _ rfl) polled item member)))
      (by rw [here]; rfl) (.inl (by rw [here]; rfl)) rfl
  | spawned here | finalCleanup outcome here =>
    exact custody.past rfl (idle_one ⟨rfl, rfl, rfl, rfl, rfl⟩) (by rw [here]; rfl) (.inr rfl) rfl
  | shutdownSelecting here | selectPending answers here | selectExited answers here | drainPending answers here
  | drainEvent answers here | graceElapsed answers here | watchdogElapsed answers here | reapPending answers here
  | reapEvent answers here | stopped stopped here =>
    obtain ⟨seen, log, all⟩ := sees (by rw [here]; rfl)
    exact custody.past log (fun item member => idle_of_seen (all item member)) (by rw [here]; rfl) (.inr rfl) rfl
  | selectCleaned answers here polled => exact absurd polled (lined.no_cleaned here)

theorem ProcessReach.custody (reach : ProcessReach supervisor run) : run.Custody supervisor.roots.length := by
  induction reach with
  | start =>
    refine ⟨⟨0, Nat.zero_le _, rfl, fun index same => ?_⟩, List.Perm.refl _, List.Pairwise.nil, List.Pairwise.nil,
      fun _ => ⟨rfl, rfl⟩⟩
    cases same
    rfl
  | next reach move ih => exact move.custody reach.lined reach.phased ih

end Ferrum.Runtime
