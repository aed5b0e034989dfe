import Ferrum.Config.DependencyCycle

namespace Ferrum.Config

open List TopologicalOrder

namespace DependencyGraph

def DependsOn (graph : DependencyGraph) (source target : DependencyNode) : Prop :=
  ∃ origin, (⟨source, target, origin⟩ : DependencyEdge) ∈ graph.edges

def Acyclic (graph : DependencyGraph) : Prop := ∀ node, ¬Relation.TransGen graph.DependsOn node node

/-- Every node once, each dependency before all its users. -/
structure Schedules (graph : DependencyGraph) (order : List DependencyNode) : Prop where
  distinct : order.Nodup
  all : ∀ node, node ∈ order ↔ node ∈ graph.nodes
  before : ∀ source target, graph.DependsOn source target → order.idxOf target < order.idxOf source

structure WellFormed (graph : DependencyGraph) : Prop where
  distinct : graph.nodes.Nodup
  source : ∀ edge ∈ graph.edges, edge.source ∈ graph.nodes
  target : ∀ edge ∈ graph.edges, edge.target ∈ graph.nodes

variable {graph : DependencyGraph}

theorem WellFormed.tryAddNode (formed : graph.WellFormed) (node : DependencyNode) : (graph.tryAddNode node).WellFormed := by
  unfold DependencyGraph.tryAddNode
  split
  · exact formed
  · rename_i fresh
    refine ⟨?_, fun edge inside => mem_append_left _ (formed.source edge inside),
      fun edge inside => mem_append_left _ (formed.target edge inside)⟩
    exact nodup_append.mpr ⟨formed.distinct, nodup_singleton node, fun a old b new same => by
      rw [mem_singleton] at new
      exact fresh (new ▸ same ▸ old)⟩

theorem mem_pushEdge_nodes {edge : DependencyEdge} {node : DependencyNode} :
    node ∈ (graph.pushEdge edge).nodes ↔ node ∈ graph.nodes ∨ node = edge.source ∨ node = edge.target := by
  unfold pushEdge
  by_cases first : edge.source ∈ graph.nodes <;> by_cases second : edge.target ∈ graph.nodes <;>
    by_cases same : edge.target = edge.source <;> simp_all <;> grind

theorem WellFormed.pushEdge (formed : graph.WellFormed) (edge : DependencyEdge) : (graph.pushEdge edge).WellFormed := by
  have nodes : ∀ node, node ∈ (graph.pushEdge edge).nodes ↔ _ := fun node => mem_pushEdge_nodes
  refine ⟨?_, ?_, ?_⟩
  · unfold DependencyGraph.pushEdge
    have distinct := formed.distinct
    by_cases first : edge.source ∈ graph.nodes <;> by_cases second : edge.target ∈ graph.nodes <;>
      by_cases same : edge.target = edge.source <;> simp_all [nodup_append] <;> grind
  · intro other inside
    rw [nodes]
    rcases mem_append.mp inside with old | new
    · exact .inl (formed.source other old)
    · rw [mem_singleton] at new
      exact .inr (.inl (by rw [new]))
  · intro other inside
    rw [nodes]
    rcases mem_append.mp inside with old | new
    · exact .inl (formed.target other old)
    · rw [mem_singleton] at new
      exact .inr (.inr (by rw [new]))

theorem WellFormed.tryAddEdge {next : DependencyGraph} (formed : graph.WellFormed) {source target : DependencyNode}
    {origin : DependencySource} (added : graph.tryAddEdge source target origin = .ok next) : next.WellFormed := by
  unfold DependencyGraph.tryAddEdge at added
  split at added
  · cases added
  split at added
  · cases added
  split at added
  · cases added
    exact formed
  · cases added
    exact formed.pushEdge _

theorem WellFormed.addTargets {kind : DependencyNodeKind} {owner : DependencyNode} {origin : U32 → DependencySource}
    (targets : List DependencyNode) (position : Nat) (formed : graph.WellFormed) :
    (addTargets kind owner origin targets position graph).2.WellFormed := by
  induction targets generalizing position graph with
  | nil => exact formed
  | cons target rest ih =>
    unfold DependencyGraph.addTargets
    split
    · exact formed
    · split
      · exact formed
      · rename_i next added
        exact ih (position + 1) (formed.tryAddEdge added)

end DependencyGraph

inductive DependencyCall
  | node (node : DependencyNode)
  | edge (source target : DependencyNode) (origin : DependencySource)
  | selectorMembers (index : Nat) (members : List DependencyNode)
  | chainHops (index : Nat) (hops : List DependencyNode)
  deriving DecidableEq, Repr

namespace DependencyGraph

/-- One call, whether it succeeds or not. -/
def call (graph : DependencyGraph) : DependencyCall → DependencyGraph
  | .node node => graph.tryAddNode node
  | .edge source target origin =>
    match graph.tryAddEdge source target origin with
    | .ok next => next
    | .error _ => graph
  | .selectorMembers index members => (graph.tryAddSelectorMembers index members).2
  | .chainHops index hops => (graph.tryAddChainHops index hops).2

def build (calls : List DependencyCall) : DependencyGraph := calls.foldl call {}

variable {graph : DependencyGraph}

theorem WellFormed.call (formed : graph.WellFormed) (made : DependencyCall) : (graph.call made).WellFormed := by
  cases made with
  | node node => exact formed.tryAddNode node
  | edge source target origin =>
    simp only [DependencyGraph.call]
    split
    · rename_i next added
      exact formed.tryAddEdge added
    · exact formed
  | selectorMembers index members =>
    simp only [DependencyGraph.call, tryAddSelectorMembers]
    split
    · exact formed
    · exact (formed.tryAddNode _).addTargets members 0
  | chainHops index hops =>
    simp only [DependencyGraph.call, tryAddChainHops]
    split
    · exact formed
    · exact (formed.tryAddNode _).addTargets hops 0

theorem build_wellFormed (calls : List DependencyCall) : (build calls).WellFormed := by
  unfold build
  have keeps : ∀ graph : DependencyGraph, graph.WellFormed → (calls.foldl DependencyGraph.call graph).WellFormed := by
    induction calls with
    | nil => exact fun _ formed => formed
    | cons made rest ih => exact fun graph formed => ih _ (formed.call made)
  exact keeps {} ⟨nodup_nil, by simp, by simp⟩

variable {node : DependencyNode} {position a b : Nat}

theorem mem_sortedNodes : node ∈ graph.sortedNodes ↔ node ∈ graph.nodes :=
  mem_insertionSort _

theorem WellFormed.sortedNodes (formed : graph.WellFormed) : graph.sortedNodes.Pairwise (· < ·) := by
  have sorted : graph.sortedNodes.Pairwise (· ≤ ·) := pairwise_insertionSort _ _
  have distinct : graph.sortedNodes.Nodup := (perm_insertionSort _ _).nodup_iff.mpr formed.distinct
  exact (sorted.and distinct).imp fun both => lt_of_le_of_ne both.1 both.2

theorem WellFormed.nodup_sortedNodes (formed : graph.WellFormed) : graph.sortedNodes.Nodup :=
  (perm_insertionSort _ _).nodup_iff.mpr formed.distinct

variable {nodes : List DependencyNode}

theorem nodeAt_eq (here : nodes[position]? = some node) : nodeAt nodes position = node := by
  rw [nodeAt, getD_eq_getElem?_getD, here]
  rfl

theorem getElem?_nodeAt (bound : position < nodes.length) : nodes[position]? = some (nodeAt nodes position) := by
  rw [List.getElem?_eq_getElem bound, nodeAt_eq (List.getElem?_eq_getElem bound)]

theorem nodeAt_lt (sorted : nodes.Pairwise (· < ·)) (less : a < b) (bound : b < nodes.length) :
    nodeAt nodes a < nodeAt nodes b := by
  rw [nodeAt_eq (List.getElem?_eq_getElem (Nat.lt_trans less bound)), nodeAt_eq (List.getElem?_eq_getElem bound)]
  exact pairwise_iff_getElem.mp sorted a b (Nat.lt_trans less bound) bound less

theorem nodeAt_injective (sorted : nodes.Pairwise (· < ·)) (boundA : a < nodes.length)
    (boundB : b < nodes.length) (same : nodeAt nodes a = nodeAt nodes b) : a = b := by
  rcases Nat.lt_trichotomy a b with less | equal | more
  · exact absurd same (ne_of_lt (nodeAt_lt sorted less boundB))
  · exact equal
  · exact absurd same.symm (ne_of_lt (nodeAt_lt sorted more boundA))

theorem locate_ok {edge : DependencyEdge} (source : edge.source ∈ nodes) (target : edge.target ∈ nodes) :
    ∃ a b, locate nodes edge = .ok (a, b) ∧ nodes[a]? = some edge.source ∧ nodes[b]? = some edge.target := by
  obtain ⟨a, foundA⟩ := binarySearch_isSome source
  obtain ⟨b, foundB⟩ := binarySearch_isSome target
  refine ⟨a, b, ?_, binarySearch_eq_some foundA, binarySearch_eq_some foundB⟩
  unfold locate
  rw [foundA, foundB]

theorem mapM_locate (distinct : nodes.Nodup) {edges : List DependencyEdge} (source : ∀ edge ∈ edges, edge.source ∈ nodes)
    (target : ∀ edge ∈ edges, edge.target ∈ nodes) :
    ∃ pairs, edges.mapM (locate nodes) = .ok pairs ∧
      ∀ a b, (a, b) ∈ pairs ↔ ∃ edge ∈ edges, nodes[a]? = some edge.source ∧ nodes[b]? = some edge.target := by
  induction edges with
  | nil => exact ⟨[], rfl, by simp⟩
  | cons edge rest ih =>
    obtain ⟨x, y, located, atX, atY⟩ := locate_ok (source edge (by simp)) (target edge (by simp))
    obtain ⟨pairs, mapped, all⟩ := ih (fun e inside => source e (by simp [inside])) (fun e inside => target e (by simp [inside]))
    refine ⟨(x, y) :: pairs, ?_, fun a b => ?_⟩
    · rw [mapM_cons, located, mapped]
      rfl
    · rw [mem_cons, all]
      constructor
      · rintro (same | ⟨other, inside, first, second⟩)
        · cases same
          exact ⟨edge, by simp, atX, atY⟩
        · exact ⟨other, by simp [inside], first, second⟩
      · rintro ⟨other, inside, first, second⟩
        rcases mem_cons.mp inside with same | later
        · subst same
          have sameX := (binarySearch_getElem? distinct atX).symm.trans (binarySearch_getElem? distinct first)
          have sameY := (binarySearch_getElem? distinct atY).symm.trans (binarySearch_getElem? distinct second)
          cases sameX
          cases sameY
          exact .inl rfl
        · exact .inr ⟨other, later, first, second⟩

theorem topologicalOrder_pairs (formed : graph.WellFormed) :
    ∃ forward, graph.topologicalOrder = orderPairs graph.sortedNodes forward ∧ Pairs graph.sortedNodes.length forward ∧
      forward.Pairwise pairLe ∧
      ∀ a b, Needs forward a b ↔ a < graph.sortedNodes.length ∧ b < graph.sortedNodes.length ∧
        graph.DependsOn (nodeAt graph.sortedNodes a) (nodeAt graph.sortedNodes b) := by
  obtain ⟨pairs, mapped, all⟩ := mapM_locate formed.nodup_sortedNodes
    (fun edge inside => mem_sortedNodes.mpr (formed.source edge inside))
    (fun edge inside => mem_sortedNodes.mpr (formed.target edge inside))
  have sorted : (dedupAdjacent (pairs.insertionSort pairLe)).Pairwise pairLe :=
    (pairwise_insertionSort pairLe pairs).sublist (dedupAdjacent_sublist _)
  have needs : ∀ a b, Needs (dedupAdjacent (pairs.insertionSort pairLe)) a b ↔ a < graph.sortedNodes.length ∧
      b < graph.sortedNodes.length ∧ graph.DependsOn (nodeAt graph.sortedNodes a) (nodeAt graph.sortedNodes b) := by
    intro a b
    rw [Needs, mem_dedupAdjacent, mem_insertionSort, all]
    constructor
    · rintro ⟨⟨source, target, origin⟩, inside, first, second⟩
      refine ⟨(List.getElem?_eq_some_iff.mp first).1, (List.getElem?_eq_some_iff.mp second).1, origin, ?_⟩
      rw [nodeAt_eq first, nodeAt_eq second]
      exact inside
    · rintro ⟨boundA, boundB, origin, inside⟩
      exact ⟨_, inside, getElem?_nodeAt boundA, getElem?_nodeAt boundB⟩
  refine ⟨dedupAdjacent (pairs.insertionSort pairLe), ?_, ⟨?_, sorted.imp fst_le_of_pairLe, ?_⟩, sorted, needs⟩
  · unfold topologicalOrder
    rw [mapped]
    rfl
  · exact nodup_dedupAdjacent pairLe_antisymm (pairwise_insertionSort pairLe pairs)
  · rintro ⟨a, b⟩ inside
    have both := (needs a b).mp inside
    exact ⟨both.1, both.2.1⟩

theorem closedPath_map {α β : Type} {needs : α → α → Prop} {needs' : β → β → Prop} {f : α → β} {path : List α}
    (closed : ClosedPath needs path) (injective : ∀ a ∈ path, ∀ b ∈ path, f a = f b → a = b)
    (carry : ∀ a b, needs a b → needs' (f a) (f b)) : ClosedPath needs' (path.map f) := by
  refine ⟨by simpa using closed.long, ?_, ?_, ?_⟩
  · rw [List.head?_map, List.getLast?_map, closed.closed]
  · rw [← map_dropLast]
    exact closed.simple.map_on fun a insideA b insideB same =>
      injective a (mem_of_mem_dropLast insideA) b (mem_of_mem_dropLast insideB) same
  · exact isChain_map_of_isChain f carry closed.linked

theorem ClosedPath.transGen {α : Type} {needs : α → α → Prop} {path : List α} (closed : ClosedPath needs path) :
    ∃ a, Relation.TransGen needs a a := by
  obtain ⟨long, ends, -, linked⟩ := closed
  match path with
  | [] => simp at long
  | [a] => simp at long
  | a :: b :: rest =>
    have reach : ∀ (rest : List α) (b : α), (b :: rest).IsChain needs →
        ∀ c, (b :: rest).getLast? = some c → Relation.ReflTransGen needs b c := by
      intro rest
      induction rest with
      | nil =>
        intro b _ c last
        cases last
        exact .refl
      | cons next rest ih =>
        intro b chain c last
        obtain ⟨need, tail⟩ := isChain_cons_cons.mp chain
        exact .head need (ih next tail c (by rwa [List.getLast?_cons_cons] at last))
    obtain ⟨need, tail⟩ := isChain_cons_cons.mp linked
    refine ⟨a, Relation.TransGen.head' need (reach rest b tail a ?_)⟩
    rw [List.getLast?_cons_cons] at ends
    exact ends.symm

theorem topologicalOrder_cases (formed : graph.WellFormed) :
    (∃ order, graph.topologicalOrder = .ok order ∧ graph.Schedules order ∧
      ∀ other, graph.Schedules other → other = order ∨ List.Lex (· < ·) order other) ∨
    ∃ path, graph.topologicalOrder = .error (.cycle path) ∧ ClosedPath graph.DependsOn path := by
  obtain ⟨forward, unfolds, pairs, -, needs⟩ := topologicalOrder_pairs formed
  have sorted := formed.sortedNodes
  have members : ∀ node, node ∈ graph.nodes → ∃ a, a < graph.sortedNodes.length ∧ nodeAt graph.sortedNodes a = node := by
    intro node inside
    obtain ⟨a, here⟩ := mem_iff_getElem?.mp (mem_sortedNodes.mpr inside)
    exact ⟨a, (List.getElem?_eq_some_iff.mp here).1, nodeAt_eq here⟩
  have targets : ∀ x y, graph.DependsOn x y → y ∈ graph.nodes := fun x y depends => by
    obtain ⟨origin, inside⟩ := depends
    exact formed.target _ inside
  have sources : ∀ x y, graph.DependsOn x y → x ∈ graph.nodes := fun x y depends => by
    obtain ⟨origin, inside⟩ := depends
    exact formed.source _ inside
  rcases orderPairs_cases pairs with ⟨ordered, result, greedy, complete⟩ | ⟨cycle, result, closed⟩
  · left
    have lifted : Greedy (· ∈ graph.nodes) graph.DependsOn [] (ordered.map (nodeAt graph.sortedNodes)) := by
      refine greedy.map ?_ members (fun a b => nodeAt_injective sorted) ?_ targets ?_ ?_
      · intro a bound
        exact mem_sortedNodes.mp (mem_of_getElem? (getElem?_nodeAt bound))
      · intro a b _ boundB le
        rcases Nat.lt_or_eq_of_le le with less | same
        · exact le_of_lt (nodeAt_lt sorted less boundB)
        · exact le_of_eq (by rw [same])
      · exact fun a b need => ((needs a b).mp need).2.1
      · intro a b boundA boundB
        rw [needs]
        exact ⟨fun depends => ⟨boundA, boundB, depends⟩, fun both => both.2.2⟩
    have allIn : ∀ a < graph.sortedNodes.length, a ∈ ordered := by
      intro a bound
      have subset : ordered ⊆ List.range graph.sortedNodes.length := fun b inside =>
        mem_range.mpr (greedy.follows.mem inside)
      have same : ordered.Perm (List.range graph.sortedNodes.length) :=
        (subperm_of_subset greedy.follows.nodup subset).perm_of_length_le (by rw [length_range, complete])
      exact same.mem_iff.mpr (mem_range.mpr bound)
    have all : ∀ node, node ∈ ordered.map (nodeAt graph.sortedNodes) ↔ node ∈ graph.nodes := by
      intro node
      refine ⟨lifted.follows.mem, fun inside => ?_⟩
      obtain ⟨a, bound, equal⟩ := members node inside
      exact mem_map.mpr ⟨a, allIn a bound, equal⟩
    refine ⟨_, unfolds.trans result, ⟨lifted.follows.nodup, all, fun x y depends =>
      lifted.follows.before ((all x).mpr (sources x y depends)) depends⟩, fun other schedules => ?_⟩
    refine lifted.le_of_follows (follows_of_before schedules.distinct schedules.all schedules.before) ?_
    have perm : (ordered.map (nodeAt graph.sortedNodes)).Perm other := by
      refine (perm_ext_iff_of_nodup lifted.follows.nodup schedules.distinct).mpr fun node => ?_
      rw [all, schedules.all]
    exact perm.length_eq
  · right
    refine ⟨_, unfolds.trans result, closedPath_map closed ?_ fun a b need => ((needs a b).mp need).2.2⟩
    have bounds : ∀ a ∈ cycle, a < graph.sortedNodes.length := by
      intro a inside
      obtain ⟨long, ends, -, linked⟩ := closed
      match cycle with
      | [] => simp at long
      | first :: rest =>
        have inner : ∀ (rest : List Nat) (first : Nat), (first :: rest).IsChain (Needs forward) → ∀ a ∈ rest,
            a < graph.sortedNodes.length := by
          intro rest
          induction rest with
          | nil => simp
          | cons next rest ih =>
            intro first chain a inside
            obtain ⟨need, tail⟩ := isChain_cons_cons.mp chain
            rcases mem_cons.mp inside with same | later
            · exact same ▸ (pairs.bounded _ need).2
            · exact ih next tail a later
        rcases mem_cons.mp inside with same | later
        · subst same
          cases rest with
          | nil => simp at long
          | cons next rest => exact (pairs.bounded _ (isChain_cons_cons.mp linked).1).1
        · exact inner rest first linked a later
    exact fun a insideA b insideB same => nodeAt_injective sorted (bounds a insideA) (bounds b insideB) same

theorem topologicalOrder_congr {other : DependencyGraph} (formed : graph.WellFormed) (formed' : other.WellFormed)
    (nodes : ∀ node, node ∈ graph.nodes ↔ node ∈ other.nodes)
    (edges : ∀ source target, graph.DependsOn source target ↔ other.DependsOn source target) :
    graph.topologicalOrder = other.topologicalOrder := by
  have sameNodes : graph.sortedNodes = other.sortedNodes :=
    formed.sortedNodes.eq_of_mem_iff formed'.sortedNodes fun node => by rw [mem_sortedNodes, mem_sortedNodes, nodes]
  obtain ⟨forward, unfolds, pairs, sorted, needs⟩ := topologicalOrder_pairs formed
  obtain ⟨forward', unfolds', pairs', sorted', needs'⟩ := topologicalOrder_pairs formed'
  have same : forward = forward' := by
    have perm : forward.Perm forward' := by
      refine (perm_ext_iff_of_nodup pairs.distinct pairs'.distinct).mpr ?_
      rintro ⟨a, b⟩
      have left := needs a b
      have right := needs' a b
      rw [← sameNodes] at right
      exact left.trans (by rw [edges]; exact right.symm)
    exact perm.eq_of_pairwise (fun a b _ _ => pairLe_antisymm a b) sorted sorted'
  rw [unfolds, unfolds', same, sameNodes]

/-- Built by any calls, a graph has an order exactly without a cycle, which is then the least schedule; otherwise a closed path,
and never an inconsistency. -/
theorem startup_order_exact (calls : List DependencyCall) :
    ((∃ order, (build calls).topologicalOrder = .ok order) ↔ (build calls).Acyclic) ∧
    (∀ order, (build calls).topologicalOrder = .ok order → (build calls).Schedules order ∧
      ∀ other, (build calls).Schedules other → other = order ∨ List.Lex (· < ·) order other) ∧
    (¬(build calls).Acyclic →
      ∃ path, (build calls).topologicalOrder = .error (.cycle path) ∧ ClosedPath (build calls).DependsOn path) ∧
    (build calls).topologicalOrder ≠ .error .inconsistent ∧
    ∀ calls' : List DependencyCall, (∀ node, node ∈ (build calls).nodes ↔ node ∈ (build calls').nodes) →
      (∀ source target, (build calls).DependsOn source target ↔ (build calls').DependsOn source target) →
      (build calls').topologicalOrder = (build calls).topologicalOrder := by
  have formed := build_wellFormed calls
  have same : ∀ calls' : List DependencyCall, (∀ node, node ∈ (build calls).nodes ↔ node ∈ (build calls').nodes) →
      (∀ source target, (build calls).DependsOn source target ↔ (build calls').DependsOn source target) →
      (build calls').topologicalOrder = (build calls).topologicalOrder := fun calls' nodes edges =>
    (topologicalOrder_congr formed (build_wellFormed calls') nodes edges).symm
  rcases topologicalOrder_cases formed with ⟨order, result, schedules, least⟩ | ⟨path, result, closed⟩
  · have acyclic : (build calls).Acyclic := fun node => acyclic_of_before schedules.before node
    refine ⟨⟨fun _ => acyclic, fun _ => ⟨order, result⟩⟩, ?_, fun cyclic => absurd acyclic cyclic, ?_, same⟩
    · intro order' result'
      cases result.symm.trans result'
      exact ⟨schedules, least⟩
    · rw [result]
      nofun
  · obtain ⟨node, loop⟩ := ClosedPath.transGen closed
    refine ⟨⟨?_, fun acyclic => absurd loop (acyclic node)⟩, ?_, fun _ => ⟨path, result, closed⟩, ?_, same⟩
    · rintro ⟨order, other⟩
      cases result.symm.trans other
    · intro order other
      cases result.symm.trans other
    · rw [result]
      nofun

end DependencyGraph

end Ferrum.Config
