import Mathlib.Algebra.Order.BigOperators.Group.List
import Ferrum.Config.DependencyStartup
import Ferrum.Config.EgressGraphDerive

namespace Ferrum.Config

open List Checked

namespace AdmittedEgressGraph

variable {graph : AdmittedEgressGraph} {derivation : Derivation}

def Grows (before after : Derivation) : Prop :=
  ∀ selector, state before.states selector ≠ .unvisited → state after.states selector ≠ .unvisited

theorem Grows.refl (derivation : Derivation) : Grows derivation derivation := fun _ entered => entered

theorem Grows.trans {first second third : Derivation} (left : Grows first second) (right : Grows second third) :
    Grows first third := fun selector entered => right selector (left selector entered)

theorem grows_set {before after : Derivation} {selector : Nat} (inside : selector < before.states.length) {value : VisitState}
    (entered : value ≠ .unvisited) (states : after.states = before.states.set selector value) : Grows before after := by
  intro place was
  rw [states, state_set inside]
  split
  · exact entered
  · exact was

variable {node next : Nat} {below : List (Nat × Nat)} {members : List PreparedEgressRef}

theorem turnsLeft_pass
    (pending : derivation.pending = (node, next) :: below) (here : graph.selectors[node]? = some members)
    (more : next < members.length) :
    turnsLeft graph { derivation with pending := (node, next + 1) :: below } < turnsLeft graph derivation := by
  have length : graph.selectors.getD node [] = members := by rw [getD_eq_getElem?_getD, here]; rfl
  unfold turnsLeft
  rw [pending]
  simp only [map_cons, sum_cons, length]
  omega

theorem turnsLeft_finish (going : Deriving graph derivation) (pending : derivation.pending = (node, next) :: below)
    (here : graph.selectors[node]? = some members) (bound : next ≤ members.length) {derivation' : Derivation}
    (pending' : derivation'.pending = below) (states : derivation'.states = derivation.states.set node .complete) :
    turnsLeft graph derivation' < turnsLeft graph derivation := by
  have small : node < derivation.states.length := by
    rw [going.statesLength]
    exact (List.getElem?_eq_some_iff.mp here).1
  have length : graph.selectors.getD node [] = members := by rw [getD_eq_getElem?_getD, here]; rfl
  have active : state derivation.states node = .active := by
    rw [going.opened, pending]
    simp
  have same : ((List.range graph.selectors.length).map fun selector =>
        if state derivation'.states selector = .unvisited then (graph.selectors.getD selector []).length + 1 else 0) =
      (List.range graph.selectors.length).map fun selector =>
        if state derivation.states selector = .unvisited then (graph.selectors.getD selector []).length + 1 else 0 := by
    refine map_congr_left fun selector _ => ?_
    rw [states, state_set small]
    by_cases equal : selector = node
    · subst equal
      simp [active]
    · simp [equal]
  unfold turnsLeft
  rw [same, pending, pending']
  simp only [map_cons, sum_cons, length]
  omega

theorem turnsLeft_open {selector : Nat} (inside : selector < derivation.states.length)
    (small : selector < graph.selectors.length) (unvisited : state derivation.states selector = .unvisited) :
    turnsLeft graph { derivation with
      states := derivation.states.set selector .active, pending := (selector, 0) :: derivation.pending } =
      turnsLeft graph derivation := by
  have moved := @sum_range_update graph.selectors.length
    (fun place => if state (derivation.states.set selector .active) place = .unvisited then
      (graph.selectors.getD place []).length + 1 else 0)
    (fun place => if state derivation.states place = .unvisited then (graph.selectors.getD place []).length + 1 else 0)
    selector small (fun place other => by simp only [state_set inside, if_neg other])
  simp only [state_set inside, if_true, reduceCtorEq, if_false, unvisited, Nat.add_zero] at moved
  unfold turnsLeft
  simp only [map_cons, sum_cons, Nat.sub_zero, state_set inside]
  omega

section

variable (going : Deriving graph derivation)
include going

theorem Deriving.open {selector : Nat} {pending : List (Nat × Nat)}
    (nodes : pending.map Prod.fst = derivation.pending.map Prod.fst) (small : selector < graph.selectors.length)
    (unvisited : state derivation.states selector = .unvisited)
    (explored : Explored graph derivation.states (some selector) pending) :
    Deriving graph { derivation with states := derivation.states.set selector .active, pending := (selector, 0) :: pending } := by
  have inside : selector < derivation.states.length := by rw [going.statesLength]; exact small
  have notOpen : selector ∉ derivation.pending.map Prod.fst := by
    rw [← going.opened, unvisited]
    decide
  have complete : ∀ place, state (derivation.states.set selector .active) place = .complete ↔
      state derivation.states place = .complete := by
    intro place
    rw [state_set inside]
    split
    · rename_i same
      subst same
      simp [unvisited]
    · exact Iff.rfl
  have members := List.getElem?_eq_getElem small
  refine ⟨by simp [going.statesLength], going.hopsLength, going.domainLength,
    going.finished.congr fun place => (complete place).symm, ?_, ?_, ?_, ?_, going.base⟩
  · intro place
    rw [map_cons, mem_cons, nodes, state_set inside]
    by_cases same : place = selector
    · simp [same]
    · rw [if_neg same, going.opened]
      simp [same]
  · rw [map_cons, nodup_cons, nodes]
    exact ⟨notOpen, going.distinct⟩
  · refine ⟨nofun, ⟨_, members, Nat.zero_le _, fun j less => by omega⟩, explored.mono fun place done => (complete place).mpr done⟩
  · intro place done
    exact going.hops place ((complete place).mp done)

theorem Deriving.pass {node next : Nat} {below : List (Nat × Nat)}
    (pending : derivation.pending = (node, next) :: below) {members : List PreparedEgressRef} {member : PreparedEgressRef}
    (here : graph.selectors[node]? = some members) (entry : members[next]? = some member)
    (complete : ∀ child, member = .selector child → state derivation.states child = .complete) :
    Deriving graph { derivation with pending := (node, next + 1) :: below } := by
  have less := (List.getElem?_eq_some_iff.mp entry).1
  have explored := going.explored
  rw [pending] at explored
  obtain ⟨refers, ⟨members', here', bound, passed⟩, rest⟩ := explored
  rw [here] at here'
  cases here'
  refine ⟨going.statesLength, going.hopsLength, going.domainLength, going.finished, ?_, ?_,
    ⟨refers, ⟨members, here, less, ?_⟩, rest⟩, going.hops, going.base⟩
  · intro selector
    rw [going.opened, pending]
    exact Iff.rfl
  · have distinct := going.distinct
    rw [pending] at distinct
    exact distinct
  · intro j small child at_
    rcases Nat.lt_succ_iff_lt_or_eq.mp small with before | rfl
    · exact passed j before child at_
    · rw [entry] at at_
      cases at_
      exact .inl (complete child rfl)

theorem Deriving.turn (admitted : graph.Admitted) {node next : Nat} {below : List (Nat × Nat)}
    (pending : derivation.pending = (node, next) :: below) :
    Outcome graph (fun derivation' => Deriving graph derivation' ∧ turnsLeft graph derivation' < turnsLeft graph derivation ∧
      Grows derivation derivation') (deriveTurn graph derivation node next below) := by
  have explored := going.explored
  rw [pending] at explored
  obtain ⟨-, ⟨members, here, bound, passed⟩, rest⟩ := explored
  have small : node < graph.selectors.length := (List.getElem?_eq_some_iff.mp here).1
  have found : @Checked.index ConfigError _ graph.selectors node = .ok members := by
    unfold Checked.index
    rw [here]
    rfl
  unfold deriveTurn
  rw [found]
  simp only [bind, Except.bind]
  cases entry : members[next]? with
  | none =>
    have done : members.length ≤ next := List.getElem?_eq_none_iff.mp entry
    obtain ⟨derivation', run, going', pending', states⟩ := going.finishSelector admitted pending here done
    refine .inl ⟨derivation', run, going', turnsLeft_finish going pending here bound pending' states, ?_⟩
    exact grows_set (by rw [going.statesLength]; exact small) (by decide) states
  | some member =>
    have less := (List.getElem?_eq_some_iff.mp entry).1
    have fewer := turnsLeft_pass pending here less
    have listed : member ∈ members := mem_of_getElem? entry
    cases member with
    | outbound index | chain index => exact .inl ⟨_, rfl, going.pass pending here entry nofun, fewer, fun _ entered => entered⟩
    | selector child =>
      have childSmall : child < graph.selectors.length := admitted.inside members (mem_of_getElem? here) _ listed
      have childInside : child < derivation.states.length := by rw [going.statesLength]; exact childSmall
      have refers : graph.RefersTo node child := ⟨members, here, listed⟩
      have read : @Checked.index ConfigError _ derivation.states child = .ok (state derivation.states child) := by
        rw [index_of_lt childInside, state, getD_eq_getElem?_getD, List.getElem?_eq_getElem childInside]
        rfl
      simp only [visitMember, read, bind, Except.bind]
      cases visited : state derivation.states child with
      | unvisited =>
        refine .inl ⟨_, rfl, @Deriving.open graph derivation going child ((node, next + 1) :: below) (by rw [pending]; rfl)
          childSmall visited ?_, ?_, ?_⟩
        · refine ⟨?_, ⟨members, here, less, ?_⟩, rest⟩
          · rintro other ⟨⟩
            exact refers
          · intro j within other at_
            rcases Nat.lt_succ_iff_lt_or_eq.mp within with before | rfl
            · rcases passed j before other at_ with done | above
              · exact .inl done
              · cases above
            · rw [entry] at at_
              cases at_
              exact .inr rfl
        · have opened := @turnsLeft_open graph { derivation with pending := (node, next + 1) :: below } child childInside childSmall
            visited
          exact opened.trans_lt fewer
        · exact grows_set childInside (by decide) rfl
      | active =>
        have chain := going.explored.chain
        have distinct := going.distinct
        have met := (going.opened child).mp visited
        rw [pending] at chain distinct met
        obtain ⟨cycle, path, closed⟩ := @cyclePath_spec graph node (next + 1) child below chain distinct met refers
        exact .inr ⟨cycle, by simp only [path], closed⟩
      | complete =>
        refine .inl ⟨_, rfl, going.pass pending here entry ?_, fewer, fun _ entered => entered⟩
        rintro other ⟨⟩
        exact visited

theorem Deriving.loop (admitted : graph.Admitted) {turns : Nat} (enough : turnsLeft graph derivation ≤ turns) :
    Outcome graph (fun derivation' => Deriving graph derivation' ∧ derivation'.pending = [] ∧ Grows derivation derivation')
      (deriveLoop graph turns derivation) := by
  induction turns generalizing derivation with
  | zero =>
    rw [deriveLoop]
    cases pending : derivation.pending with
    | nil => exact .inl ⟨derivation, rfl, going, pending, .refl _⟩
    | cons entry below =>
      obtain ⟨node, next⟩ := entry
      rcases going.turn admitted pending with ⟨derivation', -, -, fewer, -⟩ | ⟨cycle, run, closed⟩
      · omega
      · have explored := going.explored
        rw [pending] at explored
        obtain ⟨-, ⟨members, here, bound, -⟩, -⟩ := explored
        have length : graph.selectors.getD node [] = members := by rw [getD_eq_getElem?_getD, here]; rfl
        unfold turnsLeft at enough
        rw [pending] at enough
        simp only [map_cons, sum_cons, length] at enough
        omega
  | succ turns ih =>
    rw [deriveLoop]
    cases pending : derivation.pending with
    | nil => exact .inl ⟨derivation, rfl, going, pending, .refl _⟩
    | cons entry below =>
      obtain ⟨node, next⟩ := entry
      refine (going.turn admitted pending).bind fun derivation' ⟨going', fewer, grows⟩ => ?_
      refine (ih going' (by omega)).mono fun last ⟨goingLast, empty, later⟩ => ⟨goingLast, empty, grows.trans later⟩

end

theorem turnsLeft_le (empty : derivation.pending = []) :
    turnsLeft graph derivation ≤ graph.turnBound := by
  have whole : (List.range graph.selectors.length).map (fun selector => (graph.selectors.getD selector []).length + 1) =
      graph.selectors.map fun members => members.length + 1 := by
    apply ext_getElem
    · simp
    · intro i left right
      have inside : i < graph.selectors.length := by simpa using right
      simp [getD_eq_getElem?_getD, inside]
  unfold turnsLeft turnBound
  rw [empty, ← whole]
  simp only [map_nil, sum_nil, Nat.add_zero]
  refine sum_le_sum fun selector _ => ?_
  split
  · exact Nat.le_refl _
  · exact Nat.zero_le _

theorem Deriving.roots (going : Deriving graph derivation) (admitted : graph.Admitted) (empty : derivation.pending = [])
    {roots : List Nat} (small : ∀ root ∈ roots, root < graph.selectors.length) :
    Outcome graph (fun derivation' => Deriving graph derivation' ∧ derivation'.pending = [] ∧ Grows derivation derivation' ∧
      ∀ root ∈ roots, state derivation'.states root ≠ .unvisited) (deriveRoots graph roots derivation) := by
  induction roots generalizing derivation with
  | nil => exact .inl ⟨derivation, rfl, going, empty, .refl _, by simp⟩
  | cons root rest ih =>
    have rootSmall := small root mem_cons_self
    have inside : root < derivation.states.length := by rw [going.statesLength]; exact rootSmall
    have smallRest := fun other listed => small other (mem_cons_of_mem _ listed)
    have read : @Checked.index ConfigError _ derivation.states root = .ok (state derivation.states root) := by
      rw [index_of_lt inside, state, getD_eq_getElem?_getD, List.getElem?_eq_getElem inside]
      rfl
    rw [deriveRoots, read]
    simp only [bind, Except.bind]
    cases visited : state derivation.states root with
    | unvisited =>
      have opened := @Deriving.open graph derivation going root derivation.pending rfl rootSmall visited (by rw [empty]; trivial)
      have same := @turnsLeft_open graph derivation root inside rootSmall visited
      have grows : Grows derivation { derivation with
          states := derivation.states.set root .active, pending := (root, 0) :: derivation.pending } :=
        grows_set inside (by decide) rfl
      refine (opened.loop admitted (by rw [same]; exact turnsLeft_le empty)).bind
        fun derivation' ⟨going', empty', later⟩ => ?_
      refine (ih going' empty' smallRest).mono fun last ⟨goingLast, emptyLast, after, entered⟩ =>
        ⟨goingLast, emptyLast, (grows.trans later).trans after, ?_⟩
      intro other listed
      rcases mem_cons.mp listed with rfl | listed
      · refine after _ (later _ ?_)
        rw [state_set inside, if_pos rfl]
        decide
      · exact entered other listed
    | active =>
      have met := (going.opened root).mp visited
      rw [empty] at met
      cases met
    | complete =>
      refine (ih going empty smallRest).mono fun last ⟨goingLast, emptyLast, after, entered⟩ =>
        ⟨goingLast, emptyLast, after, ?_⟩
      intro other listed
      rcases mem_cons.mp listed with rfl | listed
      · refine after _ ?_
        rw [visited]
        decide
      · exact entered other listed

theorem deriving_start (graph : AdmittedEgressGraph) :
    Deriving graph ⟨List.replicate graph.selectors.length .unvisited, [], graph.firstHops, graph.domainTargets⟩ := by
  have untouched : ∀ selector, state (List.replicate graph.selectors.length .unvisited) selector = .unvisited := by
    intro selector
    rw [state, getD_eq_getElem?_getD, List.getElem?_replicate]
    split <;> rfl
  refine ⟨length_replicate, rfl, rfl, DepthFirst.finished_none.congr fun selector => ?_, fun selector => ?_, nodup_nil,
    trivial, fun selector done => ?_, fun _ _ => rfl⟩
  · rw [untouched]
    simp
  · rw [untouched]
    simp
  · rw [untouched] at done
    cases done

def Acyclic (graph : AdmittedEgressGraph) : Prop := ∀ selector, ¬Relation.TransGen graph.RefersTo selector selector

/-- The same declarations with derived bits. -/
structure Derived (graph derived : AdmittedEgressGraph) : Prop where
  tags : derived.tags = graph.tags
  outbounds : derived.outbounds = graph.outbounds
  selectors : derived.selectors = graph.selectors
  chains : derived.chains = graph.chains
  hops : ∀ egress : PreparedEgressRef, egress.Inside graph → ∀ outbound,
    (derived.firstHopsOf egress).getLsbD outbound = true ↔ graph.FirstHop egress outbound

theorem deriveSelectors_cases (admitted : graph.Admitted) :
    (∃ derived, graph.deriveSelectors = .ok derived ∧ graph.Acyclic ∧ Derived graph derived) ∨
      ∃ cycle, graph.deriveSelectors = Checked.fail (.dependencyCycle (cycle.map selectorNode)) ∧
        ClosedPath graph.RefersTo cycle := by
  rcases @Deriving.roots _ _ (deriving_start graph) admitted rfl (List.range graph.selectors.length)
    (fun _ listed => mem_range.mp listed) with ⟨derivation, run, going, empty, -, entered⟩ | ⟨cycle, run, closed⟩
  · have complete : ∀ selector < graph.selectors.length, state derivation.states selector = .complete := by
      intro selector small
      cases visited : state derivation.states selector with
      | unvisited => exact absurd visited (entered selector (mem_range.mpr small))
      | active =>
        have met := (going.opened selector).mp visited
        rw [empty] at met
        cases met
      | complete => rfl
    refine .inl ⟨{ graph with firstHops := derivation.firstHops, domainTargets := derivation.domainTargets },
      by rw [deriveSelectors, run]; rfl, fun selector cycle => ?_, rfl, rfl, rfl, rfl, ?_⟩
    · obtain ⟨next, ⟨members, here, -⟩, -⟩ := Relation.TransGen.head'_iff.mp cycle
      exact going.finished.acyclic selector (complete selector (List.getElem?_eq_some_iff.mp here).1) cycle
    · intro egress inside outbound
      refine going.member_hops admitted inside ?_ outbound
      rintro child rfl
      exact complete child inside
  · exact .inr ⟨cycle, by rw [deriveSelectors, run]; rfl, closed⟩

end AdmittedEgressGraph

end Ferrum.Config
