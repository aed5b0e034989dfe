import Mathlib.Data.List.Chain
import Ferrum.Config.Dependency

namespace Ferrum.Config

open List

theorem mem_drop_take {α : Type} {values : List α} {start stop : Nat} {a : α} :
    a ∈ (values.take stop).drop start ↔ ∃ k, start ≤ k ∧ k < stop ∧ values[k]? = some a := by
  rw [mem_iff_getElem?]
  simp only [List.getElem?_drop, List.getElem?_take]
  constructor
  · rintro ⟨i, found⟩
    split at found
    · rename_i inside
      exact ⟨start + i, by omega, inside, found⟩
    · cases found
  · rintro ⟨k, above, below, found⟩
    refine ⟨k - start, ?_⟩
    rw [Nat.add_sub_cancel' above, if_pos below, found]

variable {forward : List (Nat × Nat)} {count : Nat}

theorem pairsAt_eq_filter (sorted : forward.Pairwise fun a b => a.1 ≤ b.1) (node : Nat) :
    pairsAt forward node = forward.filter (fun pair => pair.1 = node) :=
  slice_of_key sorted node

theorem mem_pairsAt (sorted : forward.Pairwise fun a b => a.1 ≤ b.1) {node : Nat} {pair : Nat × Nat} :
    (∃ k, partitionPoint (fun pair => pair.1 < node) forward ≤ k ∧ k < partitionPoint (fun pair => pair.1 ≤ node) forward ∧
      forward[k]? = some pair) ↔ pair ∈ forward ∧ pair.1 = node := by
  rw [← mem_drop_take]
  have same : pair ∈ pairsAt forward node ↔ pair ∈ forward ∧ pair.1 = node := by
    rw [pairsAt_eq_filter sorted, mem_filter]
    simp
  exact same

/-- The nodes left over by the ordering: each needs another one of them. -/
structure Stuck (count : Nat) (forward : List (Nat × Nat)) (remaining : List Nat) : Prop where
  length : remaining.length = count
  needs : ∀ a, remaining.getD a 0 ≠ 0 → ∃ b, Needs forward a b ∧ remaining.getD b 0 ≠ 0

theorem Stuck.bound {remaining : List Nat} (stuck : Stuck count forward remaining)
    {a : Nat} (left : remaining.getD a 0 ≠ 0) : a < count := by
  by_contra beyond
  refine left ?_
  rw [getD_eq_getElem?_getD, List.getElem?_eq_none (by rw [stuck.length]; omega)]
  rfl

/-- A path that comes back to its start and repeats nothing else. -/
structure ClosedPath {α : Type} (needs : α → α → Prop) (path : List α) : Prop where
  long : 2 ≤ path.length
  closed : path.head? = path.getLast?
  simple : path.dropLast.Nodup
  linked : path.IsChain needs

namespace Dfs

/-- The search invariant: the open nodes are left over, and the top frame has passed only targets that are not. -/
structure Sound (count : Nat) (forward : List (Nat × Nat)) (remaining : List Nat) (dfs : Dfs) (frame : DfsFrame) : Prop where
  colorsLength : dfs.colors.length = count
  positionsLength : dfs.positions.length = count
  color : ∀ a < count, dfs.colors.getD a 0 = if remaining.getD a 0 = 0 then 2 else if a ∈ dfs.path then 1 else 0
  left : ∀ a ∈ dfs.path, remaining.getD a 0 ≠ 0
  distinct : dfs.path.Nodup
  linked : dfs.path.IsChain (Needs forward)
  position : ∀ i a, dfs.path[i]? = some a → dfs.positions.getD a none = some i
  last : dfs.path.getLast? = some frame.node
  first : partitionPoint (fun pair => pair.1 < frame.node) forward ≤ frame.next
  stop : frame.stop = partitionPoint (fun pair => pair.1 ≤ frame.node) forward
  next : frame.next ≤ frame.stop
  passed : ∀ k pair, partitionPoint (fun pair => pair.1 < frame.node) forward ≤ k → k < frame.next →
    forward[k]? = some pair → remaining.getD pair.2 0 = 0

variable {count : Nat} {forward : List (Nat × Nat)} {remaining : List Nat} {dfs : Dfs} {frame : DfsFrame}

theorem Sound.top_left (sound : Sound count forward remaining dfs frame) : remaining.getD frame.node 0 ≠ 0 :=
  sound.left _ (mem_of_getLast? sound.last)

theorem Sound.more (pairs : Pairs count forward) (stuck : Stuck count forward remaining)
    (sound : Sound count forward remaining dfs frame) : frame.next < frame.stop := by
  rcases Nat.lt_or_eq_of_le sound.next with more | done
  · exact more
  · exfalso
    obtain ⟨b, need, leftB⟩ := stuck.needs frame.node sound.top_left
    obtain ⟨k, above, below, found⟩ := (mem_pairsAt pairs.sorted).mpr ⟨need, rfl⟩
    exact leftB (sound.passed k _ above (by rw [done, sound.stop]; exact below) found)

theorem Sound.current (pairs : Pairs count forward) (sound : Sound count forward remaining dfs frame)
    (more : frame.next < frame.stop) :
    ∃ target, forward[frame.next]? = some (frame.node, target) ∧ Needs forward frame.node target := by
  have inside : frame.next < forward.length := by
    have fits : partitionPoint (fun pair => pair.1 ≤ frame.node) forward ≤ forward.length :=
      (List.takeWhile_prefix _).length_le
    have stop := sound.stop
    omega
  have found := List.getElem?_eq_getElem inside
  obtain ⟨member, same⟩ := (mem_pairsAt pairs.sorted).mp ⟨frame.next, sound.first, by rw [← sound.stop]; exact more, found⟩
  refine ⟨forward[frame.next].2, ?_, ?_⟩
  · rw [found, ← same]
  · rw [Needs, ← same]
    exact member

theorem Sound.skip (sound : Sound count forward remaining dfs frame) (more : frame.next < frame.stop) {target : Nat}
    (found : forward[frame.next]? = some (frame.node, target)) (done : remaining.getD target 0 = 0) (frames : List DfsFrame) :
    Sound count forward remaining { dfs with frames := { frame with next := frame.next + 1 } :: frames }
      { frame with next := frame.next + 1 } := by
  refine ⟨sound.colorsLength, sound.positionsLength, sound.color, sound.left, sound.distinct, sound.linked, sound.position,
    sound.last, Nat.le_succ_of_le sound.first, sound.stop, more, ?_⟩
  intro k pair above below there
  rcases Nat.lt_or_eq_of_le (Nat.le_of_lt_succ below) with earlier | same
  · exact sound.passed k pair above earlier there
  · subst same
    cases found.symm.trans there
    exact done

theorem sound_push {path : List Nat} {colors : List Nat} {positions : List (Option Nat)} {frames : List DfsFrame} {node : Nat}
    (colorsLength : colors.length = count) (positionsLength : positions.length = count)
    (color : ∀ a < count, colors.getD a 0 = if remaining.getD a 0 = 0 then 2 else if a ∈ path then 1 else 0)
    (left : ∀ a ∈ path, remaining.getD a 0 ≠ 0) (distinct : path.Nodup) (linked : path.IsChain (Needs forward))
    (position : ∀ i a, path[i]? = some a → positions.getD a none = some i)
    (bound : node < count) (open_ : remaining.getD node 0 ≠ 0) (fresh : node ∉ path)
    (link : ∀ a ∈ path.getLast?, Needs forward a node) :
    ∃ frame, (pushFrame forward node ⟨colors, positions, path, frames⟩).frames = frame :: frames ∧
      Sound count forward remaining (pushFrame forward node ⟨colors, positions, path, frames⟩) frame := by
  refine ⟨_, rfl, ?_⟩
  refine ⟨by simp [pushFrame, colorsLength], by simp [pushFrame, positionsLength], ?_, ?_, ?_, ?_, ?_, by simp [pushFrame],
    Nat.le_refl _, rfl, ?_, ?_⟩
  · intro a boundA
    by_cases same : a = node
    · subst same
      rw [if_neg open_, if_pos (by simp [pushFrame])]
      simp [pushFrame, colorsLength, bound]
    · have old := color a boundA
      simpa [pushFrame, getD_eq_getElem?_getD, List.getElem?_set, same, Ne.symm same] using old
  · intro a inside
    rcases mem_append.mp inside with old | new
    · exact left a old
    · rw [mem_singleton] at new
      exact new ▸ open_
  · exact nodup_append.mpr ⟨distinct, nodup_singleton node, fun a old b new same => by
      rw [mem_singleton] at new
      exact fresh (new ▸ same ▸ old)⟩
  · refine isChain_append.mpr ⟨linked, isChain_singleton node, ?_⟩
    intro a last b first
    simp only [List.head?_cons, Option.mem_def, Option.some.injEq] at first
    exact first ▸ link a last
  · intro i a found
    simp only [pushFrame] at found ⊢
    rcases Nat.lt_trichotomy i path.length with inside | same | beyond
    · rw [List.getElem?_append_left inside] at found
      have other : node ≠ a := fun same => fresh (same ▸ mem_of_getElem? found)
      have old := position i a found
      simpa [getD_eq_getElem?_getD, List.getElem?_set, other] using old
    · subst same
      rw [List.getElem?_append_right (Nat.le_refl _), Nat.sub_self] at found
      cases found
      simp [positionsLength, bound]
    · rw [List.getElem?_append_right (by omega), List.getElem?_eq_none (by simp; omega)] at found
      cases found
  · have longer : ∀ values : List (Nat × Nat),
        partitionPoint (fun pair => pair.1 < node) values ≤ partitionPoint (fun pair => pair.1 ≤ node) values := by
      intro values
      induction values with
      | nil => exact Nat.le_refl _
      | cons first rest ih =>
        unfold partitionPoint at ih ⊢
        by_cases less : first.1 < node
        · rw [takeWhile_cons_of_pos (by simpa using less), takeWhile_cons_of_pos (by simp; omega)]
          simpa using ih
        · rw [takeWhile_cons_of_neg (by simpa using less)]
          exact Nat.zero_le _
    exact longer forward
  · intro k pair above below _
    exact absurd below (Nat.not_lt.mpr above)

theorem Sound.close (sound : Sound count forward remaining dfs frame) {target : Nat} (inside : target ∈ dfs.path)
    (need : Needs forward frame.node target) :
    ∃ cycle, closeCycle dfs target = .ok cycle ∧ ClosedPath (Needs forward) cycle ∧ ∀ a ∈ cycle, a ∈ dfs.path := by
  obtain ⟨start, found⟩ := mem_iff_getElem?.mp inside
  have within : start < dfs.path.length := (List.getElem?_eq_some_iff.mp found).1
  have here : dfs.path.drop start = target :: dfs.path.drop (start + 1) := by
    rw [drop_eq_getElem_cons within]
    obtain ⟨_, value⟩ := List.getElem?_eq_some_iff.mp found
    rw [value]
  have lastDrop : (dfs.path.drop start).getLast? = some frame.node := by
    rw [List.getLast?_drop, if_neg (by omega), sound.last]
  refine ⟨dfs.path.drop start ++ [target], ?_, ⟨?_, ?_, ?_, ?_⟩, ?_⟩
  · unfold closeCycle
    rw [sound.position start target found]
    exact if_neg (by omega)
  · simp
    omega
  · rw [List.getLast?_concat, here]
    rfl
  · rw [dropLast_concat]
    exact sound.distinct.sublist (drop_sublist _ _)
  · refine isChain_append.mpr ⟨sound.linked.drop start, isChain_singleton target, ?_⟩
    intro a last b first
    rw [lastDrop] at last
    simp only [Option.mem_def, Option.some.injEq, List.head?_cons] at last first
    subst last first
    exact need
  · intro a member
    rcases mem_append.mp member with old | new
    · exact mem_of_mem_drop old
    · rw [mem_singleton] at new
      exact new ▸ inside

theorem Sound.length_path (stuck : Stuck count forward remaining) (sound : Sound count forward remaining dfs frame) :
    dfs.path.length ≤ count := by
  have subset : dfs.path ⊆ List.range count := by
    intro a inside
    rw [mem_range]
    exact stuck.bound (sound.left a inside)
  have fits := List.Nodup.length_le_of_subset sound.distinct subset
  rwa [length_range] at fits

theorem Sound.walk (pairs : Pairs count forward) (stuck : Stuck count forward remaining) (fuel : Nat) {frames : List DfsFrame}
    (sound : Sound count forward remaining dfs frame) (top : dfs.frames = frame :: frames)
    (enough : (count - dfs.path.length) * (forward.length + 1) + (frame.stop - frame.next) < fuel) :
    ∃ cycle, walk forward fuel dfs = .ok (.inl cycle) ∧ ClosedPath (Needs forward) cycle := by
  induction fuel generalizing dfs frame frames with
  | zero => omega
  | succ fuel ih =>
    have more := sound.more pairs stuck
    obtain ⟨target, found, need⟩ := sound.current pairs more
    have boundTarget := (pairs.bounded _ need).2
    have color := sound.color target boundTarget
    have value : (forward.getD frame.next (0, 0)).2 = target := by
      rw [getD_eq_getElem?_getD, found]
      rfl
    unfold Dfs.walk
    rw [top]
    dsimp only
    rw [if_neg (by omega), value, color]
    by_cases done : remaining.getD target 0 = 0
    · rw [if_pos done]
      refine ih (sound.skip more found done frames) rfl ?_
      dsimp only
      omega
    · rw [if_neg done]
      by_cases onPath : target ∈ dfs.path
      · obtain ⟨cycle, closed, shape, -⟩ := sound.close onPath need
        rw [if_pos onPath, closed]
        exact ⟨cycle, rfl, shape⟩
      · rw [if_neg onPath]
        obtain ⟨next, topNext, soundNext⟩ := @sound_push count forward remaining dfs.path dfs.colors dfs.positions
          ({ frame with next := frame.next + 1 } :: frames) target sound.colorsLength sound.positionsLength sound.color sound.left
          sound.distinct sound.linked sound.position boundTarget done onPath (by
            intro a last
            rw [sound.last] at last
            cases last
            exact need)
        refine ih soundNext topNext ?_
        have longer := soundNext.length_path stuck
        have stop := soundNext.stop
        have fits : partitionPoint (fun pair => pair.1 ≤ next.node) forward ≤ forward.length :=
          (List.takeWhile_prefix _).length_le
        simp only [pushFrame, length_append, length_singleton] at longer ⊢
        have product : (count - dfs.path.length) * (forward.length + 1) =
            (count - (dfs.path.length + 1)) * (forward.length + 1) + (forward.length + 1) := by
          have split : count - dfs.path.length = (count - (dfs.path.length + 1)) + 1 := by omega
          rw [split, Nat.add_mul, Nat.one_mul]
        omega

theorem searchFrom_left (pairs : Pairs count forward) (stuck : Stuck count forward remaining) {fuel : Nat}
    (enough : (count + 1) * (forward.length + 1) ≤ fuel) {colors : List Nat} {positions : List (Option Nat)}
    (colorsLength : colors.length = count) (positionsLength : positions.length = count)
    (color : ∀ a < count, colors.getD a 0 = if remaining.getD a 0 = 0 then 2 else 0) (starts : List Nat)
    (bounded : ∀ a ∈ starts, a < count) (left : ∃ a ∈ starts, remaining.getD a 0 ≠ 0) :
    ∃ cycle, searchFrom forward fuel starts ⟨colors, positions, [], []⟩ = .ok (some cycle) ∧
      ClosedPath (Needs forward) cycle := by
  induction starts with
  | nil =>
    obtain ⟨a, inside, -⟩ := left
    simp at inside
  | cons start starts ih =>
    have bound := bounded start (by simp)
    unfold searchFrom
    dsimp only
    rw [color start bound]
    by_cases done : remaining.getD start 0 = 0
    · rw [if_pos done, if_pos (by decide)]
      refine ih (fun a inside => bounded a (by simp [inside])) ?_
      obtain ⟨a, inside, leftA⟩ := left
      rcases mem_cons.mp inside with same | later
      · exact absurd (same ▸ done) leftA
      · exact ⟨a, later, leftA⟩
    · rw [if_neg done, if_neg (by decide)]
      obtain ⟨frame, top, sound⟩ := @sound_push count forward remaining [] colors positions [] start colorsLength
        positionsLength (by simpa using color) (by simp) nodup_nil (by simp) (by simp) bound done (by simp) (by simp)
      have fits : partitionPoint (fun pair => pair.1 ≤ frame.node) forward ≤ forward.length :=
        (List.takeWhile_prefix _).length_le
      have stop := sound.stop
      obtain ⟨cycle, found, shape⟩ := sound.walk pairs stuck fuel top (by
        refine Nat.lt_of_lt_of_le ?_ enough
        have product : (count - (pushFrame forward start ⟨colors, positions, [], []⟩).path.length) * (forward.length + 1) ≤
            count * (forward.length + 1) := Nat.mul_le_mul_right _ (Nat.sub_le _ _)
        rw [Nat.add_mul, Nat.one_mul]
        omega)
      rw [found]
      exact ⟨cycle, rfl, shape⟩

end Dfs

theorem findCycle_left {remaining : List Nat} (pairs : Pairs count forward)
    (stuck : Stuck count forward remaining) (left : ∃ a, remaining.getD a 0 ≠ 0) :
    ∃ cycle, findCycle count forward remaining = .ok (some cycle) ∧ ClosedPath (Needs forward) cycle := by
  refine Dfs.searchFrom_left pairs stuck (Nat.le_refl _) ?_ (by simp) ?_ (List.range count) (by simp) ?_
  · rw [length_map, stuck.length]
  · intro a bound
    have inside : a < remaining.length := by rw [stuck.length]; exact bound
    simp [getD_eq_getElem?_getD, inside]
  · obtain ⟨a, leftA⟩ := left
    exact ⟨a, mem_range.mpr (stuck.bound leftA), leftA⟩

open TopologicalOrder

theorem length_countDependencies (count : Nat) (forward : List (Nat × Nat)) :
    (DependencyGraph.countDependencies count forward).length = count := by
  unfold DependencyGraph.countDependencies
  have keeps : ∀ remaining : List Nat, (forward.foldl
      (fun remaining pair => remaining.set pair.1 (remaining.getD pair.1 0 + 1)) remaining).length = remaining.length := by
    induction forward with
    | nil => exact fun _ => rfl
    | cons pair rest ih =>
      intro remaining
      rw [foldl_cons, ih, length_set]
  rw [keeps, length_replicate]

theorem countDependencies_getD {a : Nat} (bound : a < count) :
    (DependencyGraph.countDependencies count forward).getD a 0 = (openPairs forward [] a).length := by
  unfold DependencyGraph.countDependencies
  have adds : ∀ remaining : List Nat, a < remaining.length → (forward.foldl
      (fun remaining pair => remaining.set pair.1 (remaining.getD pair.1 0 + 1)) remaining).getD a 0 =
        remaining.getD a 0 + (openPairs forward [] a).length := by
    induction forward with
    | nil => exact fun _ _ => rfl
    | cons pair rest ih =>
      intro remaining inside
      rw [foldl_cons, ih _ (by rwa [length_set]), length_openPairs_cons]
      by_cases same : pair.1 = a
      · subst same
        simp [getD_eq_getElem?_getD, inside]
        omega
      · simp [getD_eq_getElem?_getD, same]
  rw [adds _ (by rwa [length_replicate])]
  simp [getD_eq_getElem?_getD, bound]

theorem Kahn.sound_initial : Kahn.Sound count forward [] ⟨DependencyGraph.countDependencies count forward,
      DependencyGraph.initialReady (DependencyGraph.countDependencies count forward), []⟩ := by
  refine ⟨length_countDependencies count forward, ?_, ?_, ?_, Greedy.nil []⟩
  · intro a bound
    rw [countDependencies_getD bound]
    simp
  · intro a
    simp only [DependencyGraph.initialReady, mem_filter, mem_range, length_countDependencies, decide_eq_true_eq,
      Available, not_mem_nil, not_false_eq_true, true_and, and_true]
    constructor
    · rintro ⟨bound, none⟩
      rw [countDependencies_getD bound, length_eq_zero_iff, openPairs_eq_nil] at none
      exact ⟨bound, fun b need => by simpa using none b need⟩
    · rintro ⟨bound, none⟩
      refine ⟨bound, ?_⟩
      rw [countDependencies_getD bound, length_eq_zero_iff, openPairs_eq_nil]
      exact fun b need => (none b need).elim
  · exact List.Pairwise.filter _ pairwise_lt_range

instance : Std.Total pairLe := ⟨fun a b => by unfold pairLe; omega⟩

instance : IsTrans (Nat × Nat) pairLe := ⟨fun a b c => by unfold pairLe; omega⟩

theorem pairLe_antisymm (a b : Nat × Nat) (left : pairLe a b) (right : pairLe b a) : a = b := by
  unfold pairLe at left right
  ext <;> omega

theorem fst_le_of_pairLe {a b : Nat × Nat} (le : pairLe a b) : a.1 ≤ b.1 := by
  unfold pairLe at le
  omega

theorem mem_dependents (forward : List (Nat × Nat)) (node a : Nat) :
    a ∈ (pairsAt ((forward.map Prod.swap).insertionSort pairLe) node).map Prod.snd ↔ Needs forward a node := by
  rw [pairsAt_eq_filter ((pairwise_insertionSort pairLe _).imp fst_le_of_pairLe)]
  simp only [mem_map, mem_filter, mem_insertionSort, decide_eq_true_eq, Needs]
  constructor
  · rintro ⟨pair, ⟨⟨⟨x, y⟩, inside, rfl⟩, same⟩, rfl⟩
    exact same ▸ inside
  · intro need
    exact ⟨(node, a), ⟨⟨(a, node), need, rfl⟩, rfl⟩, rfl⟩

theorem nodup_dependents (pairs : Pairs count forward) (node : Nat) :
    ((pairsAt ((forward.map Prod.swap).insertionSort pairLe) node).map Prod.snd).Nodup := by
  rw [pairsAt_eq_filter ((pairwise_insertionSort pairLe _).imp fst_le_of_pairLe)]
  have swapped : (forward.map Prod.swap).Nodup := (nodup_map_iff Prod.swap_injective).mpr pairs.distinct
  have sorted : ((forward.map Prod.swap).insertionSort pairLe).Nodup := (perm_insertionSort _ _).nodup_iff.mpr swapped
  refine .map_on ?_ (sorted.filter _)
  intro x insideX y insideY same
  simp only [mem_filter, decide_eq_true_eq] at insideX insideY
  ext
  · rw [insideX.2, insideY.2]
  · exact same

theorem orderPairs_cases {nodes : List DependencyNode} (pairs : Pairs nodes.length forward) :
    (∃ ordered, DependencyGraph.orderPairs nodes forward = .ok (ordered.map (DependencyGraph.nodeAt nodes)) ∧
      Greedy (· < nodes.length) (Needs forward) [] ordered ∧ ordered.length = nodes.length) ∨
    ∃ cycle, DependencyGraph.orderPairs nodes forward = .error (.cycle (cycle.map (DependencyGraph.nodeAt nodes))) ∧
      ClosedPath (Needs forward) cycle := by
  obtain ⟨final, ran, sound, empty⟩ := Kahn.sound_initial.run pairs (mem_dependents forward) (nodup_dependents pairs)
    nodes.length (by simp)
  unfold DependencyGraph.orderPairs
  simp only [ran, bind, Except.bind]
  by_cases complete : final.ordered.length = nodes.length
  · rw [if_pos complete]
    exact Or.inl ⟨final.ordered, rfl, sound.greedy, complete⟩
  · rw [if_neg complete]
    have waits : ∀ a, final.remaining.getD a 0 ≠ 0 ↔ a < nodes.length ∧ a ∉ final.ordered := by
      intro a
      rcases Nat.lt_or_ge a nodes.length with bound | beyond
      · rw [sound.left a bound, if_neg (by simp), Nat.add_zero, ← Nat.pos_iff_ne_zero, length_pos_iff, Ne,
          openPairs_eq_nil]
        have none := sound.ready a
        rw [empty] at none
        constructor
        · intro some
          exact ⟨bound, fun inside => some fun b need => sound.greedy.follows.needed inside need⟩
        · rintro ⟨-, outside⟩ all
          have available : Available (· < nodes.length) (Needs forward) final.ordered a := ⟨bound, outside, all⟩
          simp [available] at none
      · rw [getD_eq_getElem?_getD, List.getElem?_eq_none (by rw [sound.length]; exact beyond)]
        simp only [Option.getD_none, ne_eq, not_true_eq_false, false_iff, not_and]
        omega
    have stuck : Stuck nodes.length forward final.remaining := by
      refine ⟨sound.length, fun a left => ?_⟩
      have bound := ((waits a).mp left).1
      rw [sound.left a bound, if_neg (by simp), Nat.add_zero, ← Nat.pos_iff_ne_zero, length_pos_iff] at left
      obtain ⟨pair, inside⟩ := exists_mem_of_ne_nil _ left
      obtain ⟨member, same, outside⟩ := mem_openPairs.mp inside
      subst same
      exact ⟨pair.2, member, (waits _).mpr ⟨(pairs.bounded _ member).2, outside⟩⟩
    have left : ∃ a, final.remaining.getD a 0 ≠ 0 := by
      by_contra all
      refine complete (Nat.le_antisymm sound.length_ordered ?_)
      have covers : List.range nodes.length ⊆ final.ordered := by
        intro a inside
        by_contra outside
        exact all ⟨a, (waits a).mpr ⟨mem_range.mp inside, outside⟩⟩
      have fits := List.Nodup.length_le_of_subset nodup_range covers
      rwa [length_range] at fits
    obtain ⟨cycle, found, shape⟩ := findCycle_left pairs stuck left
    rw [found]
    exact Or.inr ⟨cycle, rfl, shape⟩

end Ferrum.Config
