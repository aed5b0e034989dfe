import Ferrum.Config.DependencyCycle
import Ferrum.Config.EgressGraph

namespace Ferrum.Config

open List Checked

def PreparedEgressRef.Inside (graph : AdmittedEgressGraph) : PreparedEgressRef → Prop
  | .outbound index => index < graph.outbounds
  | .selector index => index < graph.selectors.length
  | .chain index => index < graph.chains.length

namespace AdmittedEgressGraph

/-- The concrete outbounds that can carry the first hop. -/
inductive FirstHop (graph : AdmittedEgressGraph) : PreparedEgressRef → Nat → Prop
  | outbound (index : Nat) : FirstHop graph (.outbound index) index
  | chain {index first : Nat} {rest : List Nat} (here : graph.chains[index]? = some (first :: rest)) :
      FirstHop graph (.chain index) first
  | selector {index outbound : Nat} {members : List PreparedEgressRef} {member : PreparedEgressRef}
      (here : graph.selectors[index]? = some members) (listed : member ∈ members) (hop : FirstHop graph member outbound) :
      FirstHop graph (.selector index) outbound

def RefersTo (graph : AdmittedEgressGraph) (a b : Nat) : Prop :=
  ∃ members, graph.selectors[a]? = some members ∧ .selector b ∈ members

/-- The declarations that `admitGraph` leaves for the derivation. -/
structure Admitted (graph : AdmittedEgressGraph) : Prop where
  few : graph.outbounds ≤ 64
  inside : ∀ members ∈ graph.selectors, ∀ member ∈ members, member.Inside graph
  hops : ∀ chain ∈ graph.chains, ∃ first rest, chain = first :: rest ∧ first < graph.outbounds
  hopsLength : graph.firstHops.length = graph.outbounds + graph.selectors.length + graph.chains.length
  domainLength : graph.domainTargets.length = graph.outbounds + graph.selectors.length + graph.chains.length
  outboundHops : ∀ index < graph.outbounds, graph.firstHops[index]? = some (outboundBit index)
  chainHops : ∀ (index : Nat) (chain : List Nat), graph.chains[index]? = some chain →
    graph.firstHops[graph.outbounds + graph.selectors.length + index]? = some (outboundBit (chain.headD 0))

theorem getLsbD_outboundBit {outbound : Nat} (small : outbound < 64) (i : Nat) :
    (outboundBit outbound).getLsbD i = true ↔ i = outbound := by
  unfold outboundBit
  rw [BitVec.getLsbD_shiftLeft, BitVec.getLsbD_one]
  simp only [Bool.and_eq_true, Bool.not_eq_true', decide_eq_true_eq, decide_eq_false_iff_not]
  omega

variable {graph : AdmittedEgressGraph}

theorem Admitted.node_lt (admitted : graph.Admitted) {egress : PreparedEgressRef} (inside : egress.Inside graph) :
    graph.nodeIndex egress < graph.firstHops.length := by
  rw [admitted.hopsLength]
  cases egress with
  | outbound index =>
    have small : index < graph.outbounds := inside
    simp only [nodeIndex, nodeIndexWithSelectors]
    omega
  | selector index =>
    have small : index < graph.selectors.length := inside
    simp only [nodeIndex, nodeIndexWithSelectors]
    omega
  | chain index =>
    have small : index < graph.chains.length := inside
    simp only [nodeIndex, nodeIndexWithSelectors]
    omega

/-! ### The state of the search -/

def state (states : List VisitState) (selector : Nat) : VisitState := states.getD selector .unvisited

variable {states : List VisitState}

theorem state_set {selector : Nat} (inside : selector < states.length) (value : VisitState) (place : Nat) :
    state (states.set selector value) place = if place = selector then value else state states place := by
  unfold state
  rw [getD_eq_getElem?_getD, getD_eq_getElem?_getD, List.getElem?_set]
  by_cases same : place = selector
  · simp [same, inside]
  · simp [same, Ne.symm same]

/-- The members that the open selectors have passed are complete, but for the one whose selector is open above. -/
def Explored (graph : AdmittedEgressGraph) (states : List VisitState) : Option Nat → List (Nat × Nat) → Prop
  | _, [] => True
  | above, (node, next) :: below =>
    (∀ child, above = some child → graph.RefersTo node child) ∧
      (∃ members, graph.selectors[node]? = some members ∧ next ≤ members.length ∧
        ∀ j < next, ∀ child, members[j]? = some (.selector child) → state states child = .complete ∨ above = some child) ∧
      Explored graph states (some node) below

variable {pending : List (Nat × Nat)} {good good' : Derivation → Prop} {run : Validated Derivation}

theorem Explored.mono {states' : List VisitState} {above : Option Nat}
    (explored : Explored graph states above pending)
    (complete : ∀ selector, state states selector = .complete → state states' selector = .complete) :
    Explored graph states' above pending := by
  induction pending generalizing above with
  | nil => trivial
  | cons entry below ih =>
    obtain ⟨node, next⟩ := entry
    obtain ⟨refers, ⟨members, here, bound, passed⟩, rest⟩ := explored
    exact ⟨refers, ⟨members, here, bound, fun j less child at_ => (passed j less child at_).imp_left (complete child)⟩, ih rest⟩

theorem Explored.settle {above : Nat}
    (explored : Explored graph states (some above) pending) (complete : state states above = .complete) :
    Explored graph states none pending := by
  cases pending with
  | nil => trivial
  | cons entry below =>
    obtain ⟨node, next⟩ := entry
    obtain ⟨-, ⟨members, here, bound, passed⟩, rest⟩ := explored
    refine ⟨nofun, ⟨members, here, bound, fun j less child at_ => .inl ?_⟩, rest⟩
    rcases passed j less child at_ with done | same
    · exact done
    · cases same
      exact complete

theorem Explored.chain {states : List VisitState} {above : Option Nat} {pending : List (Nat × Nat)}
    (explored : Explored graph states above pending) :
    (pending.map Prod.fst).IsChain (fun upper lower => graph.RefersTo lower upper) := by
  induction pending generalizing above with
  | nil => exact .nil
  | cons entry below ih =>
    obtain ⟨node, next⟩ := entry
    obtain ⟨-, -, rest⟩ := explored
    cases below with
    | nil => exact .singleton _
    | cons lower below =>
      obtain ⟨lowerNode, lowerNext⟩ := lower
      exact isChain_cons_cons.mpr ⟨rest.1 node rfl, ih rest⟩

structure Deriving (graph : AdmittedEgressGraph) (derivation : Derivation) : Prop where
  statesLength : derivation.states.length = graph.selectors.length
  hopsLength : derivation.firstHops.length = graph.firstHops.length
  domainLength : derivation.domainTargets.length = graph.domainTargets.length
  finished : DepthFirst.Finished graph.RefersTo fun selector => state derivation.states selector = .complete
  opened : ∀ selector, state derivation.states selector = .active ↔ selector ∈ derivation.pending.map Prod.fst
  distinct : (derivation.pending.map Prod.fst).Nodup
  explored : Explored graph derivation.states none derivation.pending
  hops : ∀ selector, state derivation.states selector = .complete → ∀ outbound,
    (derivation.firstHops.getD (graph.outbounds + selector) 0).getLsbD outbound = true ↔
      graph.FirstHop (.selector selector) outbound
  base : ∀ index, index < graph.outbounds ∨ graph.outbounds + graph.selectors.length ≤ index →
    derivation.firstHops[index]? = graph.firstHops[index]?

/-- The turns that are left: one for each member not passed yet and one for each selector not complete. -/
def turnsLeft (graph : AdmittedEgressGraph) (derivation : Derivation) : Nat :=
  ((List.range graph.selectors.length).map fun selector =>
      if state derivation.states selector = .unvisited then (graph.selectors.getD selector []).length + 1 else 0).sum +
    (derivation.pending.map fun entry => (graph.selectors.getD entry.1 []).length + 1 - entry.2).sum

theorem sum_range_update {count : Nat} {f g : Nat → Nat} {place : Nat} (inside : place < count)
    (others : ∀ a, a ≠ place → f a = g a) :
    ((List.range count).map f).sum + g place = ((List.range count).map g).sum + f place := by
  induction count with
  | zero => omega
  | succ count ih =>
    rw [List.range_succ, map_append, map_append, sum_append, sum_append]
    simp only [map_cons, map_nil, sum_cons, sum_nil, Nat.add_zero]
    by_cases last : place = count
    · subst last
      have same : (List.range place).map f = (List.range place).map g :=
        map_congr_left fun a member => others a (Nat.ne_of_lt (mem_range.mp member))
      rw [same]
      omega
    · have step := ih (by omega)
      have here := others count (Ne.symm last)
      omega

/-! ### One turn -/

theorem dropWhile_ne {α : Type} [DecidableEq α] {values : List α} {a : α} (inside : a ∈ values) :
    ∃ front back, values = front ++ a :: back ∧ (values.dropWhile fun b => b ≠ a) = a :: back := by
  induction values with
  | nil => cases inside
  | cons b rest ih =>
    by_cases same : b = a
    · subst same
      exact ⟨[], rest, rfl, by simp⟩
    · rcases mem_cons.mp inside with rfl | later
      · exact absurd rfl same
      · obtain ⟨front, back, split, dropped⟩ := ih later
        refine ⟨b :: front, back, by rw [split]; rfl, ?_⟩
        rw [dropWhile_cons_of_pos (by simpa using same)]
        exact dropped

theorem cyclePath_spec {node next child : Nat} {below : List (Nat × Nat)}
    (chain : (((node, next) :: below).map Prod.fst).IsChain fun upper lower => graph.RefersTo lower upper)
    (distinct : (((node, next) :: below).map Prod.fst).Nodup) (met : child ∈ ((node, next) :: below).map Prod.fst)
    (refers : graph.RefersTo node child) :
    ∃ cycle, cyclePath ((node, next) :: below) child = .ok (cycle.map selectorNode) ∧ ClosedPath graph.RefersTo cycle := by
  obtain ⟨front, back, split, dropped⟩ := dropWhile_ne (mem_reverse.mpr met)
  have tail : ((((node, next) :: below).reverse.dropWhile fun entry => entry.1 ≠ child).map Prod.fst) = child :: back := by
    rw [← dropped, ← map_reverse, dropWhile_map]
    rfl
  have ordered := isChain_reverse.mpr chain
  have once := nodup_reverse.mpr distinct
  rw [split] at ordered once
  have last : (child :: back).getLast? = some node := by
    have whole : (((node, next) :: below).map Prod.fst).reverse.getLast? = some node := by simp
    rw [split, List.getLast?_append] at whole
    simpa using whole
  refine ⟨child :: back ++ [child], ?_, by simp, by rw [List.getLast?_concat]; rfl, ?_, ?_⟩
  · have nonempty : (((node, next) :: below).reverse.dropWhile fun entry => entry.1 ≠ child) ≠ [] := by
      intro empty
      rw [empty] at tail
      cases tail
    have passed : @Checked.assert ConfigError ((((node, next) :: below).reverse.dropWhile fun entry => entry.1 ≠ child) ≠ []) _ =
        .ok () := if_pos nonempty
    unfold cyclePath
    have names : ∀ entries : List (Nat × Nat), entries.map (fun entry => selectorNode entry.1) = (entries.map Prod.fst).map selectorNode :=
      fun entries => by rw [map_map]; rfl
    simp only [passed, bind, Except.bind, names, tail, map_append, map_cons, map_nil]
  · rw [dropLast_concat]
    exact (nodup_append.mp once).2.1
  · refine isChain_append.mpr ⟨(isChain_append.mp ordered).2.1, .singleton _, ?_⟩
    intro a lastA b firstB
    rw [last] at lastA
    cases lastA
    cases firstB
    exact refers

/-- A turn or a loop goes well, or it reports a cycle of the selectors. -/
def Outcome (graph : AdmittedEgressGraph) (good : Derivation → Prop) (run : Validated Derivation) : Prop :=
  (∃ derivation, run = .ok derivation ∧ good derivation) ∨
    ∃ cycle, run = Checked.fail (.dependencyCycle (cycle.map selectorNode)) ∧ ClosedPath graph.RefersTo cycle

theorem Outcome.bind {next : Derivation → Validated Derivation}
    (first : Outcome graph good run) (rest : ∀ derivation, good derivation → Outcome graph good' (next derivation)) :
    Outcome graph good' (run >>= next) := by
  rcases first with ⟨derivation, rfl, holds⟩ | ⟨cycle, rfl, closed⟩
  · exact rest derivation holds
  · exact .inr ⟨cycle, rfl, closed⟩

theorem Outcome.mono (outcome : Outcome graph good run)
    (implies : ∀ derivation, good derivation → good' derivation) : Outcome graph good' run := by
  rcases outcome with ⟨derivation, done, holds⟩ | cycle
  · exact .inl ⟨derivation, done, implies derivation holds⟩
  · exact .inr cycle

theorem unionFirstHops_spec {firstHops : List (BitVec 64)} {members : List PreparedEgressRef} {first : BitVec 64}
    (inside : ∀ member ∈ members, graph.nodeIndex member < firstHops.length) :
    ∃ hops, unionFirstHops graph firstHops members first = .ok hops ∧
      ∀ i, hops.getLsbD i = true ↔ first.getLsbD i = true ∨
        ∃ member ∈ members, (firstHops.getD (graph.nodeIndex member) 0).getLsbD i = true := by
  induction members generalizing first with
  | nil => exact ⟨first, rfl, by simp⟩
  | cons member rest ih =>
    have here := inside member mem_cons_self
    obtain ⟨hops, run, bits⟩ := @ih (first ||| firstHops[graph.nodeIndex member])
      fun other listed => inside other (mem_cons_of_mem _ listed)
    refine ⟨hops, ?_, fun i => ?_⟩
    · rw [unionFirstHops, index_of_lt here]
      exact run
    · rw [bits, BitVec.getLsbD_or]
      simp [getD_eq_getElem?_getD, here, or_assoc]

theorem allAcceptDomain_spec {domainTargets : List Bool} {members : List PreparedEgressRef} {domain : Bool}
    (inside : ∀ member ∈ members, graph.nodeIndex member < domainTargets.length) :
    ∃ accepts, allAcceptDomain graph domainTargets members domain = .ok accepts := by
  induction members generalizing domain with
  | nil => exact ⟨domain, rfl⟩
  | cons member rest ih =>
    have here := inside member mem_cons_self
    obtain ⟨accepts, run⟩ := @ih (domain && domainTargets[graph.nodeIndex member])
      fun other listed => inside other (mem_cons_of_mem _ listed)
    exact ⟨accepts, by rw [allAcceptDomain, index_of_lt here]; exact run⟩

variable {derivation : Derivation}

theorem Deriving.member_hops (going : Deriving graph derivation) (admitted : graph.Admitted) {member : PreparedEgressRef}
    (inside : member.Inside graph)
    (complete : ∀ child, member = .selector child → state derivation.states child = .complete) (outbound : Nat) :
    (derivation.firstHops.getD (graph.nodeIndex member) 0).getLsbD outbound = true ↔ graph.FirstHop member outbound := by
  have few := admitted.few
  cases member with
  | outbound index =>
    have small : index < graph.outbounds := inside
    rw [getD_eq_getElem?_getD, nodeIndex, nodeIndexWithSelectors, going.base index (.inl small),
      admitted.outboundHops index small, Option.getD_some, getLsbD_outboundBit (by omega)]
    constructor
    · rintro rfl
      exact .outbound _
    · rintro ⟨⟩
      rfl
  | selector index => exact going.hops index (complete index rfl) outbound
  | chain index =>
    have small : index < graph.chains.length := inside
    have here := List.getElem?_eq_getElem small
    obtain ⟨first, rest, shape, bound⟩ := admitted.hops _ (getElem_mem small)
    rw [getD_eq_getElem?_getD, nodeIndex, nodeIndexWithSelectors, going.base _ (.inr (by omega)),
      admitted.chainHops index _ here, Option.getD_some, shape, headD_cons, getLsbD_outboundBit (by omega)]
    constructor
    · rintro rfl
      exact .chain (by rw [here, shape])
    · intro hop
      cases hop with
      | chain at_ =>
        rw [here, shape] at at_
        cases at_
        rfl

theorem Deriving.finishSelector (going : Deriving graph derivation) (admitted : graph.Admitted) {node next : Nat}
    {below : List (Nat × Nat)} (pending : derivation.pending = (node, next) :: below) {members : List PreparedEgressRef}
    (here : graph.selectors[node]? = some members) (passed : members.length ≤ next) :
    ∃ derivation', AdmittedEgressGraph.finishSelector graph derivation node members below = .ok derivation' ∧
      Deriving graph derivation' ∧ derivation'.pending = below ∧
      derivation'.states = derivation.states.set node .complete := by
  have listed : members ∈ graph.selectors := mem_of_getElem? here
  have small : node < graph.selectors.length := (List.getElem?_eq_some_iff.mp here).1
  have bound : node < derivation.states.length := by rw [going.statesLength]; exact small
  have explored := going.explored
  rw [pending] at explored
  obtain ⟨-, ⟨members', here', -, visited⟩, rest⟩ := explored
  rw [here] at here'
  cases here'
  have complete : ∀ child, .selector child ∈ members → state derivation.states child = .complete := by
    intro child member
    obtain ⟨j, at_⟩ := mem_iff_getElem?.mp member
    have less := (List.getElem?_eq_some_iff.mp at_).1
    rcases visited j (by omega) child at_ with done | above
    · exact done
    · cases above
  have active : state derivation.states node = .active := by
    rw [going.opened, pending]
    simp
  have nodes := admitted.inside members listed
  have nodeLt : ∀ member ∈ members, graph.nodeIndex member < derivation.firstHops.length := by
    intro member inside
    rw [going.hopsLength]
    exact admitted.node_lt (nodes member inside)
  have nodeLt' : ∀ member ∈ members, graph.nodeIndex member < derivation.domainTargets.length := by
    intro member inside
    rw [going.domainLength, admitted.domainLength, ← admitted.hopsLength]
    exact admitted.node_lt (nodes member inside)
  obtain ⟨first, union, bits⟩ := @unionFirstHops_spec graph derivation.firstHops members 0 nodeLt
  obtain ⟨domain, all⟩ := @allAcceptDomain_spec graph derivation.domainTargets members true nodeLt'
  have indexLt : graph.outbounds + node < derivation.firstHops.length := by
    rw [going.hopsLength, admitted.hopsLength]
    omega
  have distinct := going.distinct
  rw [pending, map_cons, nodup_cons] at distinct
  refine ⟨⟨derivation.states.set node .complete, below, derivation.firstHops.set (graph.outbounds + node) first,
    derivation.domainTargets.set (graph.outbounds + node) domain⟩, ?_, ?_, rfl, rfl⟩
  · rw [AdmittedEgressGraph.finishSelector, union]
    simp only [bind, Except.bind, all]
    rfl
  have unfinished : ¬state derivation.states node = .complete := by
    rw [active]
    decide
  have needed : ∀ child, graph.RefersTo node child → state derivation.states child = .complete := by
    rintro child ⟨members', at_, member⟩
    rw [here] at at_
    cases at_
    exact complete child member
  refine ⟨?_, ?_, ?_, ?_, ?_, distinct.2, ?_, ?_, ?_⟩
  · simp [going.statesLength]
  · simp [going.hopsLength]
  · simp [going.domainLength]
  · refine (going.finished.finish unfinished needed).congr fun selector => ?_
    rw [state_set bound]
    by_cases same : selector = node
    · simp [same]
    · simp [same]
  · intro selector
    rw [state_set bound]
    by_cases same : selector = node
    · subst same
      simp only [if_true, reduceCtorEq, false_iff]
      exact distinct.1
    · rw [if_neg same, going.opened, pending, map_cons, mem_cons]
      simp [same]
  · have kept : ∀ selector, state derivation.states selector = .complete →
        state (derivation.states.set node .complete) selector = .complete := by
      intro selector done
      rw [state_set bound]
      split
      · rfl
      · exact done
    exact (rest.mono kept).settle (by rw [state_set bound, if_pos rfl])
  · intro selector done outbound
    rw [getD_eq_getElem?_getD, List.getElem?_set]
    by_cases same : selector = node
    · subst same
      rw [if_pos rfl, if_pos indexLt, Option.getD_some, bits]
      have blank : (0 : BitVec 64).getLsbD outbound = false := BitVec.getLsbD_zero
      rw [blank]
      constructor
      · rintro (⟨⟨⟩⟩ | ⟨member, inside, bit⟩)
        refine .selector here inside ((going.member_hops admitted (nodes member inside) ?_ outbound).mp bit)
        rintro child rfl
        exact complete child inside
      · intro hop
        cases hop with
        | selector at_ inside hop =>
          rw [here] at at_
          cases at_
          refine .inr ⟨_, inside, (going.member_hops admitted (nodes _ inside) ?_ outbound).mpr hop⟩
          rintro child rfl
          exact complete child inside
    · rw [state_set bound, if_neg same] at done
      have apart : graph.outbounds + node ≠ graph.outbounds + selector := by omega
      rw [if_neg apart, ← getD_eq_getElem?_getD]
      exact going.hops selector done outbound
  · intro place outside
    rw [List.getElem?_set_ne (by omega)]
    exact going.base place outside

end AdmittedEgressGraph

end Ferrum.Config
