import Ferrum.Rule.Candidate

namespace Ferrum.Rule

open List

/-- `node` is `top` or below it in the numbering of a binary tree. -/
def Under (top node : Nat) : Prop := ∃ levels, node / 2 ^ levels = top

theorem Under.self (node : Nat) : Under node node := ⟨0, by simp⟩

theorem Under.of_child {top side node : Nat} (small : side < 2) (under : Under (top * 2 + side) node) : Under top node := by
  obtain ⟨levels, same⟩ := under
  refine ⟨levels + 1, ?_⟩
  rw [Nat.pow_succ, ← Nat.div_div_eq_div_mul, same]
  omega

theorem Under.le {top node : Nat} (under : Under top node) : top ≤ node := by
  obtain ⟨levels, rfl⟩ := under
  exact Nat.div_le_self _ _

theorem not_under_both {top node : Nat} (positive : 0 < top) (left : Under (top * 2) node)
    (right : Under (top * 2 + 1) node) : False := by
  obtain ⟨i, atLeft⟩ := left
  obtain ⟨j, atRight⟩ := right
  rcases Nat.lt_trichotomy i j with less | same | more
  · obtain ⟨k, rfl⟩ := Nat.exists_eq_add_of_lt less
    rw [show i + k + 1 = i + (k + 1) by omega, Nat.pow_add, ← Nat.div_div_eq_div_mul, atLeft] at atRight
    have small := Nat.div_le_self (top * 2) (2 ^ (k + 1))
    omega
  · subst same
    omega
  · obtain ⟨k, rfl⟩ := Nat.exists_eq_add_of_lt more
    rw [show j + k + 1 = j + (k + 1) by omega, Nat.pow_add, ← Nat.div_div_eq_div_mul, atRight, Nat.pow_succ,
      Nat.mul_comm (2 ^ k) 2, ← Nat.div_div_eq_div_mul] at atLeft
    have small := Nat.div_le_self ((top * 2 + 1) / 2) (2 ^ k)
    omega

/-- A node of the tree, with the ports of its segment. -/
structure Segment where
  node : Nat
  first : Nat
  last : Nat

/-- The segments of a tree below its top. -/
inductive Below : Nat → Nat → Nat → Segment → Prop
  | top (node first last : Nat) : Below node first last ⟨node, first, last⟩
  | left {node first last : Nat} {segment : Segment} : first < last →
      Below (node * 2) first (first + (last - first) / 2) segment → Below node first last segment
  | right {node first last : Nat} {segment : Segment} : first < last →
      Below (node * 2 + 1) (first + (last - first) / 2 + 1) last segment → Below node first last segment

def Segment.InTree (segment : Segment) : Prop := Below 1 1 65535 segment

def Segment.Has (segment : Segment) (port : Nat) : Prop := segment.first ≤ port ∧ port ≤ segment.last

namespace Below

variable {node first last : Nat} {segment : Segment}

theorem under (below : Below node first last segment) : Under node segment.node := by
  induction below with
  | top => exact .self _
  | left _ _ ih => exact @Under.of_child _ 0 _ (by omega) ih
  | right _ _ ih => exact @Under.of_child _ 1 _ (by omega) ih

theorem within (below : Below node first last segment) (order : first ≤ last) :
    first ≤ segment.first ∧ segment.first ≤ segment.last ∧ segment.last ≤ last := by
  induction below with
  | top => exact ⟨le_rfl, order, le_rfl⟩
  | left _ _ ih =>
    have inner := ih (by omega)
    omega
  | right _ _ ih =>
    have inner := ih (by omega)
    omega

theorem node_lt {depth : Nat} (below : Below node first last segment) (deep : last - first < 2 ^ depth) :
    segment.node < (node + 1) * 2 ^ depth := by
  induction below generalizing depth with
  | top => exact (Nat.lt_succ_self _).trans_le (Nat.le_mul_of_pos_right _ (Nat.pow_pos (by decide)))
  | left proper _ ih | right proper _ ih =>
    cases depth with
    | zero => omega
    | succ depth =>
      rw [Nat.pow_succ] at deep ⊢
      refine (@ih depth (by omega)).trans_le ?_
      rw [Nat.mul_comm (2 ^ depth), ← Nat.mul_assoc]
      exact Nat.mul_le_mul_right _ (by omega)

/-- The number of a node tells its segment. -/
theorem unique {other : Segment} (positive : 0 < node) (below : Below node first last segment)
    (again : Below node first last other) (same : segment.node = other.node) : segment = other := by
  induction below with
  | top node first last =>
    cases again with
    | top => rfl
    | left _ again | right _ again =>
      have above := again.under.le
      simp only at same
      omega
  | left _ below ih =>
    cases again with
    | top =>
      have above := below.under.le
      simp only at same
      omega
    | left _ again => exact ih (by omega) again same
    | right _ again => exact (not_under_both positive below.under (same ▸ again.under)).elim
  | right _ below ih =>
    cases again with
    | top =>
      have above := below.under.le
      simp only at same
      omega
    | left _ again => exact (not_under_both positive again.under (same ▸ below.under)).elim
    | right _ again => exact ih (by omega) again same

end Below

namespace PortRangeCandidateIndex

/-- The nodes that a visit of the port looks up. -/
def pathNodes (port node first last : Nat) : Nat → List Nat
  | 0 => [node]
  | depth + 1 =>
    node :: if first = last then []
      else
        let middle := first + (last - first) / 2
        if port ≤ middle then pathNodes port (node * 2) first middle depth
        else pathNodes port (node * 2 + 1) (middle + 1) last depth

theorem visitFrom_eq (index : PortRangeCandidateIndex) (port node first last depth : Nat) :
    index.visitFrom port node first last depth =
      (pathNodes port node first last depth).flatMap index.nodes.visitCandidateList := by
  induction depth generalizing node first last with
  | zero => simp [visitFrom, pathNodes]
  | succ depth ih =>
    simp only [visitFrom, pathNodes, flatMap_cons]
    split
    · simp
    · split
      · rw [ih]
      · rw [ih]

/-- A visit looks up the nodes whose segments have the port. -/
theorem mem_pathNodes {port node first last depth found : Nat} (deep : last - first < 2 ^ depth) (lower : first ≤ port)
    (upper : port ≤ last) :
    found ∈ pathNodes port node first last depth ↔
      ∃ segment, Below node first last segment ∧ segment.node = found ∧ segment.Has port := by
  induction depth generalizing node first last with
  | zero =>
    simp only [pathNodes, mem_singleton]
    constructor
    · rintro rfl
      exact ⟨_, .top .., rfl, lower, upper⟩
    · rintro ⟨segment, below, rfl, -⟩
      cases below with
      | top => rfl
      | left proper | right proper => omega
  | succ depth ih =>
    rw [Nat.pow_succ] at deep
    simp only [pathNodes, mem_cons]
    constructor
    · rintro (rfl | found)
      · exact ⟨_, .top .., rfl, lower, upper⟩
      · split at found
        · cases found
        · split at found
          · obtain ⟨segment, below, rest⟩ := (ih (by omega) lower ‹_›).mp found
            exact ⟨segment, .left (by omega) below, rest⟩
          · obtain ⟨segment, below, rest⟩ := (ih (by omega) (by omega) upper).mp found
            exact ⟨segment, .right (by omega) below, rest⟩
    · rintro ⟨segment, below, rfl, has⟩
      cases below with
      | top => exact .inl rfl
      | left proper below =>
        have low := has.2.trans (below.within (by omega)).2.2
        rw [if_neg (by omega), if_pos low]
        exact .inr ((ih (by omega) lower low).mpr ⟨segment, below, rfl, has⟩)
      | right proper below =>
        have high := (below.within (by omega)).1.trans has.1
        rw [if_neg (by omega), if_neg (by omega)]
        exact .inr ((ih (by omega) high upper).mpr ⟨segment, below, rfl, has⟩)

end PortRangeCandidateIndex

open PortRangeCandidateIndex (pathNodes mem_pathNodes)

namespace PortRangeCandidateIndexBuilder

variable {node first last queryFirst queryLast candidate : Nat} {builder next : PortRangeCandidateIndexBuilder}

theorem childNode_eq_ok {side child : Nat} :
    childNode node side = .ok child ↔ node * 2 + side < 2 ^ 32 ∧ child = node * 2 + side := by
  unfold childNode
  split <;> simp_all [eq_comm]

/-- What one call adds: the candidate at nodes inside the range, so that each port of the range has one of them. -/
structure Covers (builder next : SparseValueIndexBuilder Nat) (segments : List Segment)
    (node first last queryFirst queryLast candidate : Nat) : Prop where
  entries : next.entries = builder.entries ++ segments.map fun segment => (segment.node, candidate)
  below : ∀ segment ∈ segments, Below node first last segment
  inside : ∀ segment ∈ segments, queryFirst ≤ segment.first ∧ segment.last ≤ queryLast
  once : ∀ port, first ≤ port → port ≤ last → queryFirst ≤ port → port ≤ queryLast →
    ∃! segment, segment ∈ segments ∧ segment.Has port

theorem covers_whole {builder next : SparseValueIndexBuilder Nat}
    (whole : queryFirst ≤ first ∧ last ≤ queryLast) (run : builder.tryAdd node candidate = .ok next) :
    Covers builder next [⟨node, first, last⟩] node first last queryFirst queryLast candidate where
  entries := (SparseValueIndexBuilder.tryAdd_eq_ok run).2
  below := forall_mem_singleton.mpr (.top ..)
  inside := forall_mem_singleton.mpr whole
  once := fun _ lower upper _ _ => ⟨_, ⟨mem_singleton_self _, lower, upper⟩, fun _ other => mem_singleton.mp other.1⟩

theorem covers_none {builder : SparseValueIndexBuilder Nat}
    (outside : ∀ port, first ≤ port → port ≤ last → ¬(queryFirst ≤ port ∧ port ≤ queryLast)) :
    Covers builder builder [] node first last queryFirst queryLast candidate where
  entries := by simp
  below := nofun
  inside := nofun
  once := fun port lower upper low high => absurd ⟨low, high⟩ (outside port lower upper)

theorem tryAddInner_covers {depth : Nat} {builder next : SparseValueIndexBuilder Nat} (order : first ≤ last)
    (deep : last - first < 2 ^ depth) (meets : queryFirst ≤ last ∧ first ≤ queryLast)
    (run : tryAddInner builder node first last queryFirst queryLast candidate depth = .ok next) :
    ∃ segments, Covers builder next segments node first last queryFirst queryLast candidate := by
  induction depth generalizing builder next node first last with
  | zero =>
    rw [tryAddInner] at run
    split at run
    · rename_i whole
      exact ⟨_, covers_whole whole run⟩
    · rename_i outside
      omega
  | succ depth ih =>
    rw [tryAddInner] at run
    split at run
    · rename_i whole
      exact ⟨_, covers_whole whole run⟩
    · rename_i notWhole
      have proper : first < last := by omega
      rw [Nat.pow_succ] at deep
      obtain ⟨middle, atMiddle⟩ : ∃ middle, middle = first + (last - first) / 2 := ⟨_, rfl⟩
      simp only [← atMiddle] at run
      obtain ⟨afterLeft, left, right⟩ := bind_eq_ok.mp run
      have leftSegments : ∃ segments, Covers builder afterLeft segments (node * 2) first middle queryFirst queryLast candidate := by
        unfold intoChild at left
        split at left
        · obtain ⟨child, number, left⟩ := bind_eq_ok.mp left
          obtain ⟨-, rfl⟩ := childNode_eq_ok.mp number
          exact ih (by omega) (by omega) (by omega) left
        · cases left
          exact ⟨[], covers_none fun port lower upper => by omega⟩
      have rightSegments : ∃ segments,
          Covers afterLeft next segments (node * 2 + 1) (middle + 1) last queryFirst queryLast candidate := by
        unfold intoChild at right
        split at right
        · obtain ⟨child, number, right⟩ := bind_eq_ok.mp right
          obtain ⟨-, rfl⟩ := childNode_eq_ok.mp number
          exact ih (by omega) (by omega) (by omega) right
        · cases right
          exact ⟨[], covers_none fun port lower upper => by omega⟩
      obtain ⟨lefts, onLeft⟩ := leftSegments
      obtain ⟨rights, onRight⟩ := rightSegments
      refine ⟨lefts ++ rights, ⟨?_, ?_, ?_, fun port lower upper low high => ?_⟩⟩
      · rw [onRight.entries, onLeft.entries, map_append, append_assoc]
      · intro segment member
        rcases mem_append.mp member with inLeft | inRight
        · exact .left proper (atMiddle ▸ onLeft.below segment inLeft)
        · exact .right proper (atMiddle ▸ onRight.below segment inRight)
      · exact forall_mem_append.mpr ⟨onLeft.inside, onRight.inside⟩
      · simp only [mem_append, or_and_right]
        by_cases side : port ≤ middle
        · obtain ⟨segment, has, only⟩ := onLeft.once port lower side low high
          refine ⟨segment, .inl has, fun other found => found.elim (only other) fun onOther => ?_⟩
          have beyond := (onRight.below other onOther.1).within (by omega)
          exact absurd onOther.2.1 (by omega)
        · obtain ⟨segment, has, only⟩ := onRight.once port (by omega) upper low high
          refine ⟨segment, .inr has, fun other found => found.elim (fun onOther => ?_) (only other)⟩
          have before := (onLeft.below other onOther.1).within (by omega)
          exact absurd onOther.2.2 (by omega)

/-- The numbers of the nodes stay in `u32`. -/
theorem tryAddInner_accepts {depth node candidate : Nat} (small : candidate < 2 ^ 32) (room : (node + 1) * 2 ^ depth ≤ 2 ^ 32)
    (builder : SparseValueIndexBuilder Nat) (first last queryFirst queryLast : Nat) :
    ∃ next, tryAddInner builder node first last queryFirst queryLast candidate depth = .ok next := by
  have added : ∃ next, builder.tryAdd node candidate = .ok next :=
    ⟨_, bind_eq_ok.mpr ⟨candidate, indexU32_eq_ok.mpr ⟨small, rfl⟩, rfl⟩⟩
  induction depth generalizing builder node first last with
  | zero =>
    rw [tryAddInner]
    split
    · exact added
    · exact ⟨_, rfl⟩
  | succ depth ih =>
    rw [tryAddInner]
    split
    · exact added
    · rw [Nat.pow_succ] at room
      have child : ∀ side, side < 2 → (node * 2 + side + 1) * 2 ^ depth ≤ 2 ^ 32 := fun side less =>
        calc (node * 2 + side + 1) * 2 ^ depth
          _ ≤ (node + 1) * 2 * 2 ^ depth := Nat.mul_le_mul_right _ (by omega)
          _ ≤ 2 ^ 32 := by rwa [Nat.mul_assoc, Nat.mul_comm 2]
      have into : ∀ (builder : SparseValueIndexBuilder Nat) (reached : Prop) [Decidable reached] (side low high : Nat), side < 2 →
          ∃ next, (intoChild reached builder node side fun child =>
            tryAddInner builder child low high queryFirst queryLast candidate depth) = .ok next := by
        intro builder reached _ side low high less
        have number : node * 2 + side < 2 ^ 32 := (Nat.le_mul_of_pos_right _ (Nat.pow_pos (by decide))).trans (child side less)
        unfold intoChild
        split
        · obtain ⟨next, run⟩ := ih (child side less) builder low high
            ⟨_, bind_eq_ok.mpr ⟨candidate, indexU32_eq_ok.mpr ⟨small, rfl⟩, rfl⟩⟩
          exact ⟨next, bind_eq_ok.mpr ⟨_, childNode_eq_ok.mpr ⟨number, rfl⟩, run⟩⟩
        · exact ⟨_, rfl⟩
      obtain ⟨afterLeft, left⟩ := into builder (queryFirst ≤ first + (last - first) / 2) 0 first _ (by decide)
      obtain ⟨next, right⟩ := into afterLeft (first + (last - first) / 2 < queryLast) 1 _ last (by decide)
      exact ⟨next, bind_eq_ok.mpr ⟨afterLeft, left, right⟩⟩

/-- One call of `try_add`. -/
structure AddedRange where
  candidate : Nat
  first : Port
  last : Port

def AddedRange.Has (added : AddedRange) (port : Port) : Prop := added.first.val ≤ port.val ∧ port.val ≤ added.last.val

def add (builder : PortRangeCandidateIndexBuilder) (added : AddedRange) :
    Except RuleCompileError PortRangeCandidateIndexBuilder :=
  builder.tryAdd added.first added.last added.candidate

theorem add_covers {added : AddedRange} (run : builder.add added = .ok next) :
    ∃ segments, Covers builder.nodes next.nodes segments 1 1 65535 added.first.val added.last.val added.candidate := by
  unfold add PortRangeCandidateIndexBuilder.tryAdd at run
  split at run
  · cases run
  · rename_i order
    cases inner : tryAddInner builder.nodes 1 1 65535 added.first.val added.last.val added.candidate 16 with
    | error error =>
      rw [inner] at run
      cases run
    | ok nodes =>
      rw [inner] at run
      cases run
      have lowFirst := added.first.bounded
      have positive := added.last.nonzero
      exact tryAddInner_covers (by decide) (by decide) ⟨Nat.le_of_lt_succ lowFirst, positive⟩ inner

theorem add_accepts (builder : PortRangeCandidateIndexBuilder) {added : AddedRange} (order : added.first.val ≤ added.last.val)
    (small : added.candidate < 2 ^ 32) : ∃ next, builder.add added = .ok next := by
  obtain ⟨nodes, run⟩ := @tryAddInner_accepts 16 1 _ small (by decide) builder.nodes 1 65535 added.first.val added.last.val
  unfold add PortRangeCandidateIndexBuilder.tryAdd
  rw [if_neg (by omega), run]
  exact ⟨_, rfl⟩

/-- A port passes a node of a candidate exactly if one of the candidate's ranges has it. -/
def Holds (builder : PortRangeCandidateIndexBuilder) (added : List AddedRange) : Prop :=
  ∀ (port : Port) candidate, (∃ node ∈ pathNodes port.val 1 1 65535 16, (node, candidate) ∈ builder.nodes.entries) ↔
    ∃ one ∈ added, one.candidate = candidate ∧ one.Has port

theorem holds_new : new.Holds [] := by
  intro port candidate
  simp [new, SparseValueIndexBuilder.new]

theorem mem_path_iff (port : Port) :
    node ∈ pathNodes port.val 1 1 65535 16 ↔ ∃ segment : Segment, segment.InTree ∧ segment.node = node ∧ segment.Has port.val :=
  mem_pathNodes (by decide) port.nonzero (Nat.le_of_lt_succ port.bounded)

variable {added : List AddedRange}

theorem Holds.add (holds : builder.Holds added)
    {one : AddedRange} (run : builder.add one = .ok next) : next.Holds (added ++ [one]) := by
  obtain ⟨segments, covers⟩ := add_covers run
  intro port candidate
  simp only [covers.entries, mem_append, mem_map, Prod.mk.injEq, mem_singleton]
  constructor
  · rintro ⟨node, onPath, old | ⟨segment, member, rfl, rfl⟩⟩
    · obtain ⟨other, member, rest⟩ := (holds port candidate).mp ⟨node, onPath, old⟩
      exact ⟨other, .inl member, rest⟩
    · obtain ⟨other, below, same, has⟩ := (mem_path_iff port).mp onPath
      obtain rfl := Below.unique (by decide) below (covers.below segment member) same
      have inside := covers.inside other member
      exact ⟨one, .inr rfl, rfl, inside.1.trans has.1, has.2.trans inside.2⟩
  · rintro ⟨other, old | rfl, rfl, has⟩
    · obtain ⟨node, onPath, inside⟩ := (holds port other.candidate).mpr ⟨other, old, rfl, has⟩
      exact ⟨node, onPath, .inl inside⟩
    · obtain ⟨segment, ⟨member, here⟩, -⟩ := covers.once port.val port.nonzero (Nat.le_of_lt_succ port.bounded) has.1 has.2
      exact ⟨segment.node, (mem_path_iff port).mpr ⟨segment, covers.below segment member, rfl, here⟩,
        .inr ⟨segment, member, rfl, rfl⟩⟩

theorem Holds.visit (holds : builder.Holds added) (port : Port) (candidate : Nat) :
    candidate ∈ builder.build.visit port ↔ ∃ one ∈ added, one.candidate = candidate ∧ one.Has port := by
  unfold PortRangeCandidateIndex.visit PortRangeCandidateIndex.visitCandidateLists
  rw [PortRangeCandidateIndex.visitFrom_eq, ← holds port candidate]
  have visited := fun node => (builder.nodes.visit_build node).2 candidate
  simp only [SparseValueIndex.visit, mem_flatten, mem_flatMap] at visited ⊢
  constructor
  · rintro ⟨list, ⟨node, onPath, inside⟩, here⟩
    exact ⟨node, onPath, (visited node).mp ⟨list, inside, here⟩⟩
  · rintro ⟨node, onPath, inside⟩
    obtain ⟨list, member, here⟩ := (visited node).mpr inside
    exact ⟨list, ⟨node, onPath, member⟩, here⟩

/-- Calls of `try_add` one after the other. -/
def addAll (builder : PortRangeCandidateIndexBuilder) (added : List AddedRange) :
    Except RuleCompileError PortRangeCandidateIndexBuilder := added.foldlM add builder

theorem Holds.addAll {done : List AddedRange} (holds : builder.Holds done)
    (run : builder.addAll added = .ok next) : next.Holds (done ++ added) := by
  induction added generalizing builder done with
  | nil =>
    cases run
    rwa [append_nil]
  | cons one rest ih =>
    obtain ⟨middle, first, run⟩ := bind_eq_ok.mp run
    rw [← singleton_append, ← append_assoc]
    exact ih (holds.add first) run

theorem addAll_accepts
    (fits : ∀ one ∈ added, one.first.val ≤ one.last.val ∧ one.candidate < 2 ^ 32) (builder : PortRangeCandidateIndexBuilder) :
    ∃ next, builder.addAll added = .ok next := by
  induction added generalizing builder with
  | nil => exact ⟨_, rfl⟩
  | cons one rest ih =>
    obtain ⟨⟨order, small⟩, fits⟩ := forall_mem_cons.mp fits
    obtain ⟨middle, first⟩ := builder.add_accepts order small
    obtain ⟨next, run⟩ := ih fits middle
    exact ⟨next, bind_eq_ok.mpr ⟨middle, first, run⟩⟩

/-- For every list of ranges a visit of a port yields the candidates of the ranges that have it. A range is covered by nodes
inside it, one for each port, and all nodes are nodes of the tree. -/
theorem visit_iff_added (added : List AddedRange) :
    ((∀ one ∈ added, one.first.val ≤ one.last.val ∧ one.candidate < 2 ^ 32) → ∃ builder, new.addAll added = .ok builder) ∧
    (∀ builder, new.addAll added = .ok builder → ∀ port candidate,
      candidate ∈ builder.build.visit port ↔ ∃ one ∈ added, one.candidate = candidate ∧ one.Has port) ∧
    (∀ builder next one, add builder one = .ok next →
      ∃ segments, Covers builder.nodes next.nodes segments 1 1 65535 one.first.val one.last.val one.candidate) ∧
    (∀ (port : Port), ∀ node ∈ pathNodes port.val 1 1 65535 16,
      ∃ segment : Segment, segment.InTree ∧ segment.node = node ∧ segment.Has port.val) ∧
    ∀ segment : Segment, segment.InTree → segment.node < 2 ^ 17 :=
  ⟨fun fits => addAll_accepts fits new, fun _ run => (holds_new.addAll run).visit, fun _ _ _ => add_covers,
    fun port _ => (mem_path_iff port).mp, fun _ below => @Below.node_lt 1 1 65535 _ 16 below (by decide)⟩

def sampleRanges : List AddedRange :=
  [⟨7, ⟨1, Nat.one_pos, by decide⟩, ⟨65535, by decide, by decide⟩⟩, ⟨8, ⟨65535, by decide, by decide⟩, ⟨65535, by decide, by decide⟩⟩]

theorem sampleRanges_visited : ∃ builder, new.addAll sampleRanges = .ok builder ∧
    8 ∈ builder.build.visit ⟨65535, by decide, by decide⟩ := by
  obtain ⟨accepted, visited, -⟩ := visit_iff_added sampleRanges
  obtain ⟨builder, run⟩ := accepted (by unfold sampleRanges; simp)
  exact ⟨builder, run, (visited builder run _ _).mpr ⟨_, .tail _ (.head _), rfl, by simp [AddedRange.Has]⟩⟩

end PortRangeCandidateIndexBuilder

end Ferrum.Rule
