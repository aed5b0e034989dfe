import Mathlib.Data.Prod.Lex
import Ferrum.Lib.Bytes
import Ferrum.Lib.SortedSlice
import Ferrum.Lib.TopologicalOrder

namespace Ferrum.Config

open List

inductive DependencyNodeKind
  | systemResolver
  | dnsServer
  | outbound
  | selector
  | chain
  | ruleSet
  deriving DecidableEq, Repr

/-- One dependency node, identified by its category and its list index. -/
inductive DependencyNode
  | systemResolver
  | dnsServer (index : U32)
  | outbound (index : U32)
  | selector (index : U32)
  | chain (index : U32)
  | ruleSet (index : U32)
  deriving DecidableEq, Repr

namespace DependencyNode

/-- The category first, then the index: the derived order of the enumeration. -/
def rank : DependencyNode → Nat ×ₗ Nat
  | systemResolver => toLex (0, 0)
  | dnsServer index => toLex (1, index.val)
  | outbound index => toLex (2, index.val)
  | selector index => toLex (3, index.val)
  | chain index => toLex (4, index.val)
  | ruleSet index => toLex (5, index.val)

theorem rank_injective : Function.Injective rank := by
  intro a b same
  have pair : ofLex (rank a) = ofLex (rank b) := congrArg ofLex same
  cases a <;> cases b <;> simp only [rank, ofLex_toLex, Prod.mk.injEq, Fin.val_inj, reduceCtorEq] at pair ⊢ <;>
    first
      | exact congrArg _ pair.2
      | rfl
      | exact absurd pair.1 (by decide)

instance : LinearOrder DependencyNode := LinearOrder.lift' rank rank_injective

end DependencyNode

/-- `u32::try_from`. -/
def u32TryFrom (value : Nat) : Option U32 := if bound : value < 4294967296 then some ⟨value, bound⟩ else none

/-- Where an edge comes from. -/
inductive DependencySource
  | dnsServerDomainResolver (server : U32)
  | dnsServerDetour (server : U32)
  | outboundDomainResolver (outbound : U32)
  | selectorMember (selector member : U32)
  | chainHop (chain hop : U32)
  | ruleSetDownloadResolver (ruleSet : U32)
  | ruleSetDownloadDetour (ruleSet : U32)
  deriving DecidableEq, Repr

def DependencySource.owner : DependencySource → DependencyNode
  | dnsServerDomainResolver server => .dnsServer server
  | dnsServerDetour server => .dnsServer server
  | outboundDomainResolver outbound => .outbound outbound
  | selectorMember selector _ => .selector selector
  | chainHop chain _ => .chain chain
  | ruleSetDownloadResolver ruleSet => .ruleSet ruleSet
  | ruleSetDownloadDetour ruleSet => .ruleSet ruleSet

structure DependencyEdge where
  source : DependencyNode
  target : DependencyNode
  origin : DependencySource
  deriving DecidableEq, Repr

inductive DependencyGraphError
  | indexOverflow (kind : DependencyNodeKind)
  | systemResolverHasDependency
  | sourceOwnerMismatch (source owner : DependencyNode)
  | cycle (path : List DependencyNode)
  | inconsistent
  deriving DecidableEq, Repr

structure DependencyGraph where
  nodes : List DependencyNode := []
  edges : List DependencyEdge := []
  deriving DecidableEq, Repr

namespace DependencyGraph

variable (graph : DependencyGraph)

def tryAddNode (node : DependencyNode) : DependencyGraph :=
  if node ∈ graph.nodes then graph else { graph with nodes := graph.nodes ++ [node] }

/-- Both endpoints come in with the edge. -/
def pushEdge (edge : DependencyEdge) : DependencyGraph :=
  let sourceMissing := edge.source ∉ graph.nodes
  let targetMissing := edge.target ≠ edge.source ∧ edge.target ∉ graph.nodes
  { nodes := graph.nodes ++ (if sourceMissing then [edge.source] else []) ++ (if targetMissing then [edge.target] else [])
    edges := graph.edges ++ [edge] }

def tryAddEdge (source target : DependencyNode) (origin : DependencySource) : Except DependencyGraphError DependencyGraph :=
  if source = .systemResolver then .error .systemResolverHasDependency
  else if origin.owner ≠ source then .error (.sourceOwnerMismatch source origin.owner)
  else if ⟨source, target, origin⟩ ∈ graph.edges then .ok graph
  else .ok (graph.pushEdge ⟨source, target, origin⟩)

/-- The members of a selector or the hops of a chain, one edge each. A failing one ends the loop and
leaves the earlier ones in. -/
def addTargets (kind : DependencyNodeKind) (owner : DependencyNode) (origin : U32 → DependencySource) :
    List DependencyNode → Nat → DependencyGraph → Except DependencyGraphError Unit × DependencyGraph
  | [], _, graph => (.ok (), graph)
  | target :: rest, position, graph =>
    match u32TryFrom position with
    | none => (.error (.indexOverflow kind), graph)
    | some index =>
      match graph.tryAddEdge owner target (origin index) with
      | .error error => (.error error, graph)
      | .ok graph => addTargets kind owner origin rest (position + 1) graph

def tryAddSelectorMembers (selectorIndex : Nat) (members : List DependencyNode) :
    Except DependencyGraphError Unit × DependencyGraph :=
  match u32TryFrom selectorIndex with
  | none => (.error (.indexOverflow .selector), graph)
  | some index =>
    addTargets .selector (.selector index) (.selectorMember index) members 0 (graph.tryAddNode (.selector index))

def tryAddChainHops (chainIndex : Nat) (hops : List DependencyNode) : Except DependencyGraphError Unit × DependencyGraph :=
  match u32TryFrom chainIndex with
  | none => (.error (.indexOverflow .chain), graph)
  | some index => addTargets .chain (.chain index) (.chainHop index) hops 0 (graph.tryAddNode (.chain index))

end DependencyGraph

def pairLe (a b : Nat × Nat) : Prop := a.1 < b.1 ∨ a.1 = b.1 ∧ a.2 ≤ b.2

instance (a b : Nat × Nat) : Decidable (pairLe a b) := inferInstanceAs (Decidable (_ ∨ _))

/-- The pairs of a sorted list whose first position is the given one. -/
def pairsAt (pairs : List (Nat × Nat)) (node : Nat) : List (Nat × Nat) :=
  (pairs.take (partitionPoint (fun pair => pair.1 ≤ node) pairs)).drop (partitionPoint (fun pair => pair.1 < node) pairs)

/-- The state of the ordering loop: the stack of ready nodes, top first; `ordered` holds positions in the sorted node list. -/
structure Kahn where
  remaining : List Nat
  ready : List Nat
  ordered : List Nat
  deriving DecidableEq, Repr

/-- Keeps the stack sorted, with its smallest node on top. -/
def insertReady (ready : List Nat) (node : Nat) : List Nat :=
  ready.takeWhile (· < node) ++ node :: ready.dropWhile (· < node)

namespace Kahn

/-- One dependent of a node that is now in the order. -/
def release (state : Kahn) (dependent : Nat) : Except DependencyGraphError Kahn :=
  match state.remaining.getD dependent 0 with
  | 0 => .error .inconsistent
  | left + 1 =>
    .ok { state with
      remaining := state.remaining.set dependent left
      ready := if left = 0 then insertReady state.ready dependent else state.ready }

def releaseAll (state : Kahn) (dependents : List Nat) : Except DependencyGraphError Kahn :=
  dependents.foldlM release state

/-- The ordering loop. Fuel that runs out ends as `inconsistent`. -/
def run (reverse : List (Nat × Nat)) : Nat → Kahn → Except DependencyGraphError Kahn
  | fuel, state =>
    match state.ready with
    | [] => .ok state
    | node :: ready =>
      match fuel with
      | 0 => .error .inconsistent
      | fuel + 1 => do
        let state ← releaseAll { state with ready := ready, ordered := state.ordered ++ [node] }
          ((pairsAt reverse node).map Prod.snd)
        run reverse fuel state

end Kahn

structure DfsFrame where
  node : Nat
  next : Nat
  stop : Nat
  deriving DecidableEq, Repr

/-- The state of the cycle search: `none` stands for `usize::MAX`, and the stack of frames has its top first. -/
structure Dfs where
  colors : List Nat
  positions : List (Option Nat)
  path : List Nat
  frames : List DfsFrame
  deriving DecidableEq, Repr

namespace Dfs

def pushFrame (forward : List (Nat × Nat)) (node : Nat) (dfs : Dfs) : Dfs :=
  { colors := dfs.colors.set node 1
    positions := dfs.positions.set node (some dfs.path.length)
    path := dfs.path ++ [node]
    frames := ⟨node, partitionPoint (fun pair => pair.1 < node) forward, partitionPoint (fun pair => pair.1 ≤ node) forward⟩ ::
      dfs.frames }

/-- A frame whose targets are all done. -/
def popFrame (dfs : Dfs) (frame : DfsFrame) (frames : List DfsFrame) : Except DependencyGraphError Dfs :=
  match dfs.path.getLast? with
  | none => .error .inconsistent
  | some popped =>
    if popped ≠ frame.node then .error .inconsistent
    else .ok {
      colors := dfs.colors.set frame.node 2
      positions := dfs.positions.set frame.node none
      path := dfs.path.dropLast
      frames := frames }

def closeCycle (dfs : Dfs) (target : Nat) : Except DependencyGraphError (List Nat) :=
  match dfs.positions.getD target none with
  | none => .error .inconsistent
  | some start => if dfs.path.length ≤ start then .error .inconsistent else .ok (dfs.path.drop start ++ [target])

/-- The search loop below one start node: the cycle it closes, or the state when the stack is empty. -/
def walk (forward : List (Nat × Nat)) : Nat → Dfs → Except DependencyGraphError (List Nat ⊕ Dfs)
  | fuel, dfs =>
    match dfs.frames with
    | [] => .ok (.inr dfs)
    | frame :: frames =>
      match fuel with
      | 0 => .error .inconsistent
      | fuel + 1 =>
        if frame.next = frame.stop then do
          let dfs ← popFrame dfs frame frames
          walk forward fuel dfs
        else
          let target := (forward.getD frame.next (0, 0)).2
          let advanced := { dfs with frames := { frame with next := frame.next + 1 } :: frames }
          match dfs.colors.getD target 0 with
          | 0 => walk forward fuel (pushFrame forward target advanced)
          | 1 => do
            let cycle ← closeCycle dfs target
            .ok (.inl cycle)
          | 2 => walk forward fuel advanced
          | _ => .error .inconsistent

/-- The search from each start node that is still open. -/
def searchFrom (forward : List (Nat × Nat)) (fuel : Nat) : List Nat → Dfs → Except DependencyGraphError (Option (List Nat))
  | [], _ => .ok none
  | start :: starts, dfs =>
    if dfs.colors.getD start 0 ≠ 0 then searchFrom forward fuel starts dfs
    else do
      match ← walk forward fuel (pushFrame forward start dfs) with
      | .inl cycle => .ok (some cycle)
      | .inr dfs => searchFrom forward fuel starts dfs

end Dfs

/-- `find_cycle`, as positions in the sorted node list. -/
def findCycle (count : Nat) (forward : List (Nat × Nat)) (remaining : List Nat) :
    Except DependencyGraphError (Option (List Nat)) :=
  Dfs.searchFrom forward ((count + 1) * (forward.length + 1)) (List.range count)
    { colors := remaining.map (fun left => if left = 0 then 2 else 0)
      positions := List.replicate count none
      path := []
      frames := [] }

namespace DependencyGraph

/-- The node list as the ordering sees it. -/
def sortedNodes (graph : DependencyGraph) : List DependencyNode := graph.nodes.insertionSort (· ≤ ·)

variable (nodes : List DependencyNode)

def locate (edge : DependencyEdge) : Except DependencyGraphError (Nat × Nat) :=
  match binarySearch nodes edge.source, binarySearch nodes edge.target with
  | some source, some target => .ok (source, target)
  | _, _ => .error .inconsistent

def countDependencies (count : Nat) (forward : List (Nat × Nat)) : List Nat :=
  forward.foldl (fun remaining pair => remaining.set pair.1 (remaining.getD pair.1 0 + 1)) (List.replicate count 0)

def initialReady (remaining : List Nat) : List Nat :=
  (List.range remaining.length).filter (fun node => remaining.getD node 0 = 0)

def nodeAt (position : Nat) : DependencyNode := nodes.getD position .systemResolver

/-- The loops over the sorted pairs. -/
def orderPairs (forward : List (Nat × Nat)) : Except DependencyGraphError (List DependencyNode) := do
  let reverse := (forward.map Prod.swap).insertionSort pairLe
  let remaining := countDependencies nodes.length forward
  let state ← Kahn.run reverse nodes.length ⟨remaining, initialReady remaining, []⟩
  if state.ordered.length = nodes.length then .ok (state.ordered.map (nodeAt nodes))
  else
    match ← findCycle nodes.length forward state.remaining with
    | none => .error .inconsistent
    | some cycle => .error (.cycle (cycle.map (nodeAt nodes)))

def topologicalOrder (graph : DependencyGraph) : Except DependencyGraphError (List DependencyNode) := do
  let pairs ← graph.edges.mapM (locate graph.sortedNodes)
  orderPairs graph.sortedNodes (dedupAdjacent (pairs.insertionSort pairLe))

end DependencyGraph

open TopologicalOrder

/-- The pairs of positions as the loops get them. -/
structure Pairs (count : Nat) (forward : List (Nat × Nat)) : Prop where
  distinct : forward.Nodup
  sorted : forward.Pairwise fun a b => a.1 ≤ b.1
  bounded : ∀ pair ∈ forward, pair.1 < count ∧ pair.2 < count

def Needs (forward : List (Nat × Nat)) (a b : Nat) : Prop := (a, b) ∈ forward

def openPairs (forward : List (Nat × Nat)) (ordered : List Nat) (node : Nat) : List (Nat × Nat) :=
  forward.filter (fun pair => pair.1 = node ∧ pair.2 ∉ ordered)

variable {ordered : List Nat} {node : Nat}

variable {forward : List (Nat × Nat)}

theorem mem_openPairs {pair : Nat × Nat} :
    pair ∈ openPairs forward ordered node ↔ pair ∈ forward ∧ pair.1 = node ∧ pair.2 ∉ ordered := by
  simp [openPairs]

theorem openPairs_eq_nil : openPairs forward ordered node = [] ↔ ∀ b, Needs forward node b → b ∈ ordered := by
  rw [eq_nil_iff_forall_not_mem]
  simp only [mem_openPairs]
  constructor
  · intro none b need
    by_contra missing
    exact none (node, b) ⟨need, rfl, missing⟩
  · rintro all ⟨a, b⟩ ⟨inside, rfl, missing⟩
    exact missing (all b inside)

theorem length_openPairs_cons (pair : Nat × Nat) (rest : List (Nat × Nat)) (ordered : List Nat) (node : Nat) :
    (openPairs (pair :: rest) ordered node).length =
      (openPairs rest ordered node).length + if pair.1 = node ∧ pair.2 ∉ ordered then 1 else 0 := by
  unfold openPairs
  rw [filter_cons]
  by_cases kept : pair.1 = node ∧ pair.2 ∉ ordered
  · rw [if_pos (decide_eq_true kept), if_pos kept, length_cons]
  · rw [if_neg (by simpa using kept), if_neg kept, Nat.add_zero]

theorem length_openPairs_snoc (distinct : forward.Nodup) (fresh : node ∉ ordered) (a : Nat) :
    (openPairs forward ordered a).length =
      (openPairs forward (ordered ++ [node]) a).length + if (a, node) ∈ forward then 1 else 0 := by
  induction forward with
  | nil => simp [openPairs]
  | cons pair rest ih =>
    obtain ⟨notIn, distinct'⟩ := nodup_cons.mp distinct
    have step := ih distinct'
    obtain ⟨x, y⟩ := pair
    rw [length_openPairs_cons, length_openPairs_cons, step]
    by_cases first : x = a
    · subst first
      by_cases same : y = node
      · subst same
        simp [fresh, notIn]
      · by_cases old : y ∈ ordered
        · simp [old, same, Ne.symm same]
        · have other : ¬node = y := Ne.symm same
          simp only [old, same, other, true_and, not_false_eq_true, if_true, mem_append, mem_cons, not_mem_nil,
            or_false, Prod.mk.injEq, and_false, false_or]
          omega
    · simp [first, Ne.symm first]

theorem insertReady_perm (ready : List Nat) (node : Nat) : (insertReady ready node).Perm (node :: ready) := by
  unfold insertReady
  refine perm_middle.trans ?_
  rw [takeWhile_append_dropWhile]

theorem mem_insertReady {ready : List Nat} {a : Nat} : a ∈ insertReady ready node ↔ a = node ∨ a ∈ ready := by
  rw [(insertReady_perm ready node).mem_iff, mem_cons]

theorem insertReady_sorted {ready : List Nat} (sorted : ready.Pairwise (· < ·)) (fresh : node ∉ ready) :
    (insertReady ready node).Pairwise (· < ·) := by
  induction ready with
  | nil => simp [insertReady]
  | cons first rest ih =>
    obtain ⟨below, tail⟩ := pairwise_cons.mp sorted
    rw [mem_cons, not_or] at fresh
    by_cases less : first < node
    · have shape : insertReady (first :: rest) node = first :: insertReady rest node := by simp [insertReady, less]
      rw [shape, pairwise_cons]
      refine ⟨fun a inside => ?_, ih tail fresh.2⟩
      rcases mem_insertReady.mp inside with same | old
      · omega
      · exact below a old
    · have shape : insertReady (first :: rest) node = node :: first :: rest := by simp [insertReady, less]
      rw [shape, pairwise_cons]
      refine ⟨fun a inside => ?_, sorted⟩
      rcases mem_cons.mp inside with same | old
      · omega
      · have above := below a old
        omega

namespace Kahn

/-- The loop invariant, while the dependents in `todo` still count the node just taken. -/
structure Sound (count : Nat) (forward : List (Nat × Nat)) (todo : List Nat) (state : Kahn) : Prop where
  length : state.remaining.length = count
  left : ∀ a < count,
    state.remaining.getD a 0 = (openPairs forward state.ordered a).length + if a ∈ todo then 1 else 0
  ready : ∀ a, a ∈ state.ready ↔ Available (· < count) (Needs forward) state.ordered a ∧ a ∉ todo
  sorted : state.ready.Pairwise (· < ·)
  greedy : Greedy (· < count) (Needs forward) [] state.ordered

variable {count : Nat} {forward : List (Nat × Nat)}

variable {state : Kahn} {todo : List Nat}

theorem Sound.release {a : Nat} (sound : Sound count forward (a :: todo) state) (fresh : a ∉ todo) (bound : a < count)
    (waiting : a ∉ state.ordered) :
    ∃ next, state.release a = .ok next ∧ Sound count forward todo next ∧ next.ordered = state.ordered := by
  have value := sound.left a bound
  rw [if_pos (by simp)] at value
  unfold Kahn.release
  rw [value]
  refine ⟨_, rfl, ⟨?_, ?_, ?_, ?_, sound.greedy⟩, rfl⟩
  · simp [sound.length]
  · intro b boundB
    by_cases same : b = a
    · subst same
      simp [sound.length, bound, fresh]
    · have other := sound.left b boundB
      simp only [mem_cons, same, false_or] at other
      simpa [getD_eq_getElem?_getD, List.getElem?_set, Ne.symm same] using other
  · intro b
    have old := sound.ready b
    by_cases none : (openPairs forward state.ordered a).length = 0
    · rw [if_pos none, mem_insertReady, old]
      rw [length_eq_zero_iff, openPairs_eq_nil] at none
      by_cases same : b = a
      · subst same
        simp only [true_or, true_iff]
        exact ⟨⟨bound, waiting, none⟩, fresh⟩
      · simp [same]
    · rw [if_neg none, old]
      by_cases same : b = a
      · subst same
        rw [length_eq_zero_iff, openPairs_eq_nil] at none
        simp only [mem_cons, true_or, not_true_eq_false, and_false, false_iff]
        exact fun both => none both.1.2.2
      · simp [same]
  · dsimp only
    split
    · refine insertReady_sorted sound.sorted fun inside => ?_
      exact ((sound.ready a).mp inside).2 (by simp)
    · exact sound.sorted

theorem Sound.releaseAll (sound : Sound count forward todo state) (distinct : todo.Nodup) (bound : ∀ a ∈ todo, a < count)
    (waiting : ∀ a ∈ todo, a ∉ state.ordered) :
    ∃ next, state.releaseAll todo = .ok next ∧ Sound count forward [] next ∧ next.ordered = state.ordered := by
  induction todo generalizing state with
  | nil => exact ⟨state, rfl, sound, rfl⟩
  | cons a todo ih =>
    obtain ⟨fresh, distinct⟩ := nodup_cons.mp distinct
    obtain ⟨middle, first, soundMiddle, same⟩ := sound.release fresh (bound a (by simp)) (waiting a (by simp))
    obtain ⟨next, rest, soundNext, same'⟩ := ih soundMiddle distinct (fun b inside => bound b (by simp [inside]))
      (fun b inside => by rw [same]; exact waiting b (by simp [inside]))
    refine ⟨next, ?_, soundNext, same'.trans same⟩
    unfold Kahn.releaseAll at rest ⊢
    rw [foldlM_cons, first]
    exact rest

theorem Sound.take {node : Nat} {ready : List Nat} (pairs : Pairs count forward) (sound : Sound count forward [] state)
    (top : state.ready = node :: ready) (dependents : ∀ a, a ∈ todo ↔ Needs forward a node) :
    Sound count forward todo { state with ready := ready, ordered := state.ordered ++ [node] } := by
  have available := ((sound.ready node).mp (by simp [top])).1
  have order := sound.sorted
  rw [top, pairwise_cons] at order
  refine ⟨sound.length, ?_, ?_, order.2, ?_⟩
  · intro a bound
    have old := sound.left a bound
    rw [if_neg (by simp), Nat.add_zero, length_openPairs_snoc pairs.distinct available.2.1 a] at old
    simp only [dependents, Needs]
    exact old
  · intro a
    have old := sound.ready a
    rw [top, mem_cons] at old
    constructor
    · intro inside
      have was := (old.mp (Or.inr inside)).1
      refine ⟨⟨was.1, ?_, fun b need => mem_append_left _ (was.2.2 b need)⟩, fun depends => ?_⟩
      · rw [mem_append, mem_singleton, not_or]
        exact ⟨was.2.1, fun same => absurd (order.1 a inside) (by omega)⟩
      · exact available.2.1 (was.2.2 node ((dependents a).mp depends))
    · rintro ⟨⟨bound, waiting, all⟩, apart⟩
      rw [mem_append, mem_singleton, not_or] at waiting
      refine (old.mpr ⟨⟨bound, waiting.1, fun b need => ?_⟩, by simp⟩).resolve_left waiting.2
      rcases mem_append.mp (all b need) with before | last
      · exact before
      · rw [mem_singleton] at last
        subst last
        exact absurd ((dependents a).mpr need) apart
  · refine sound.greedy.snoc available fun b other => ?_
    have inside := (sound.ready b).mpr ⟨other, by simp⟩
    rw [top, mem_cons] at inside
    rcases inside with same | later
    · exact Nat.le_of_eq same.symm
    · exact Nat.le_of_lt (order.1 b later)

theorem Sound.waiting {node a : Nat} {ready : List Nat} (sound : Sound count forward [] state)
    (top : state.ready = node :: ready) (need : Needs forward a node) : a ∉ state.ordered ++ [node] := by
  have available := ((sound.ready node).mp (by simp [top])).1
  rw [mem_append, mem_singleton, not_or]
  refine ⟨fun inside => available.2.1 (sound.greedy.follows.needed inside need), fun same => ?_⟩
  subst same
  exact available.2.1 (available.2.2 a need)

theorem Sound.length_ordered (sound : Sound count forward todo state) : state.ordered.length ≤ count := by
  have subset : state.ordered ⊆ List.range count := by
    intro a inside
    rw [mem_range]
    exact sound.greedy.follows.mem inside
  have fits := List.Nodup.length_le_of_subset sound.greedy.follows.nodup subset
  rwa [length_range] at fits

theorem Sound.run {reverse : List (Nat × Nat)} (pairs : Pairs count forward)
    (dependents : ∀ node a, a ∈ (pairsAt reverse node).map Prod.snd ↔ Needs forward a node)
    (distinct : ∀ node, ((pairsAt reverse node).map Prod.snd).Nodup) (fuel : Nat) (sound : Sound count forward [] state)
    (enough : count ≤ state.ordered.length + fuel) :
    ∃ final, run reverse fuel state = .ok final ∧ Sound count forward [] final ∧ final.ready = [] := by
  induction fuel generalizing state with
  | zero =>
    unfold Kahn.run
    cases top : state.ready with
    | nil => exact ⟨state, rfl, sound, top⟩
    | cons node ready =>
      have waiting := ((sound.ready node).mp (by simp [top])).1
      have more := (sound.take pairs top (dependents node)).length_ordered
      simp only [length_append, length_singleton] at more
      omega
  | succ fuel ih =>
    unfold Kahn.run
    cases top : state.ready with
    | nil => exact ⟨state, rfl, sound, top⟩
    | cons node ready =>
      obtain ⟨middle, released, soundMiddle, same⟩ := (sound.take pairs top (dependents node)).releaseAll (distinct node)
        (fun a inside => (pairs.bounded _ ((dependents node a).mp inside)).1)
        (fun a inside => sound.waiting top ((dependents node a).mp inside))
      have length : middle.ordered.length = state.ordered.length + 1 := by rw [same]; simp
      obtain ⟨final, rest, soundFinal, empty⟩ := ih soundMiddle (by omega)
      refine ⟨final, ?_, soundFinal, empty⟩
      dsimp only
      rw [released]
      exact rest

end Kahn

end Ferrum.Config
