import Mathlib.Data.List.Sort
import Mathlib.Data.List.Dedup

namespace Ferrum

open List

variable {α : Type}

/-- `slice::partition_point`, on a slice that the test splits in two. -/
def partitionPoint (test : α → Bool) (values : List α) : Nat := (values.takeWhile test).length

/-- `slice::binary_search`, on a sorted slice without repetitions. -/
def binarySearch [DecidableEq α] (values : List α) (value : α) : Option Nat := values.findIdx? (· = value)

/-- `Vec::dedup`: drops an element equal to the one before it. -/
def dedupAdjacent [DecidableEq α] : List α → List α
  | [] => []
  | [value] => [value]
  | first :: second :: rest =>
    if first = second then dedupAdjacent (second :: rest) else first :: dedupAdjacent (second :: rest)

variable {value : α} {values : List α}

theorem mem_dedupAdjacent [DecidableEq α] (values : List α) : value ∈ dedupAdjacent values ↔ value ∈ values := by
  induction values using dedupAdjacent.induct with
  | case1 => rfl
  | case2 first => rfl
  | case3 second rest ih =>
    rw [dedupAdjacent, if_pos rfl, ih]
    simp
  | case4 first second rest different ih =>
    rw [dedupAdjacent, if_neg different, mem_cons, ih, ← mem_cons]

theorem dedupAdjacent_sublist [DecidableEq α] (values : List α) : (dedupAdjacent values).Sublist values := by
  induction values using dedupAdjacent.induct with
  | case1 => exact .slnil
  | case2 first => exact .refl _
  | case3 second rest ih =>
    rw [dedupAdjacent, if_pos rfl]
    exact ih.cons _
  | case4 first second rest different ih =>
    rw [dedupAdjacent, if_neg different]
    exact ih.cons_cons _

theorem nodup_dedupAdjacent [DecidableEq α] {order : α → α → Prop} (antisymm : ∀ a b, order a b → order b a → a = b)
    (sorted : values.Pairwise order) : (dedupAdjacent values).Nodup := by
  induction values using dedupAdjacent.induct with
  | case1 => exact nodup_nil
  | case2 first => exact nodup_singleton first
  | case3 second rest ih =>
    rw [dedupAdjacent, if_pos rfl]
    exact ih (pairwise_cons.mp sorted).2
  | case4 first second rest different ih =>
    obtain ⟨below, tail⟩ := pairwise_cons.mp sorted
    rw [dedupAdjacent, if_neg different, nodup_cons]
    refine ⟨fun member => ?_, ih tail⟩
    rw [mem_dedupAdjacent, mem_cons] at member
    rcases member with same | later
    · exact different same
    · have after := (pairwise_cons.mp tail).1 first later
      exact different (antisymm _ _ (below second (by simp)) after)

theorem slice_of_key {key : α → Nat} (sorted : values.Pairwise fun a b => key a ≤ key b) (at_ : Nat) :
    (values.take (partitionPoint (fun a => key a ≤ at_) values)).drop (partitionPoint (fun a => key a < at_) values) =
      values.filter (fun a => key a = at_) := by
  induction values with
  | nil => rfl
  | cons first rest ih =>
    obtain ⟨below, tail⟩ := pairwise_cons.mp sorted
    have step := ih tail
    simp only [partitionPoint] at step ⊢
    rcases Nat.lt_trichotomy (key first) at_ with less | same | more
    · simp only [takeWhile_cons, Nat.le_of_lt less, less, decide_true, if_true, length_cons, take_succ_cons,
        drop_succ_cons, step, filter_cons, Nat.ne_of_lt less, decide_false, Bool.false_eq_true, if_false]
    · have none : rest.takeWhile (fun a => decide (key a < at_)) = [] := by
        cases rest with
        | nil => rfl
        | cons next rest =>
          have above := below next (by simp)
          rw [takeWhile_cons_of_neg (by simp; omega)]
      rw [none] at step
      simp only [takeWhile_cons, same, le_refl, lt_irrefl, decide_true, decide_false, if_true, Bool.false_eq_true,
        if_false, length_cons, length_nil, take_succ_cons, drop_zero, filter_cons] at step ⊢
      rw [step]
    · have empty : rest.filter (fun a => decide (key a = at_)) = [] := by
        rw [filter_eq_nil_iff]
        intro a member
        have above := below a member
        simp only [decide_eq_true_eq]
        omega
      have notLe : ¬key first ≤ at_ := by omega
      have notLt : ¬key first < at_ := by omega
      have notEq : ¬key first = at_ := by omega
      simp only [takeWhile_cons, notLe, notLt, decide_false, Bool.false_eq_true, if_false, length_nil,
        take_zero, drop_nil, filter_cons, notEq, empty]

theorem binarySearch_eq_some [DecidableEq α] {i : Nat}
    (found : binarySearch values value = some i) : values[i]? = some value := by
  unfold binarySearch at found
  obtain ⟨inside, here, -⟩ := List.findIdx?_eq_some_iff_getElem.mp found
  rw [List.getElem?_eq_getElem inside]
  simpa using here

theorem binarySearch_isSome [DecidableEq α] (member : value ∈ values) : ∃ i, binarySearch values value = some i := by
  rw [← Option.isSome_iff_exists]
  unfold binarySearch
  rw [List.findIdx?_isSome]
  simpa using member

theorem binarySearch_getElem? [DecidableEq α] (distinct : values.Nodup) {i : Nat}
    (here : values[i]? = some value) : binarySearch values value = some i := by
  obtain ⟨j, found⟩ := binarySearch_isSome (mem_of_getElem? here)
  have there := binarySearch_eq_some found
  obtain ⟨inside, at_i⟩ := List.getElem?_eq_some_iff.mp here
  obtain ⟨inside', at_j⟩ := List.getElem?_eq_some_iff.mp there
  have same : i = j := (List.Nodup.getElem_inj_iff distinct).mp (at_i.trans at_j.symm)
  rw [found, same]

variable {α : Type} [LinearOrder α]

/-- The loop of `slice::binary_search`: it halves the window of `size` elements from `base`, in bounded turns. -/
def searchBase (values : List α) (value : α) : Nat → Nat → Nat → Nat
  | 0, base, _ => base
  | fuel + 1, base, size =>
    if 1 < size then
      match values[base + size / 2]? with
      | some middle =>
        searchBase values value fuel (if value < middle then base else base + size / 2) (size - size / 2)
      | none => base
    else base

/-- `slice::binary_search`: the index where the search ends, if it holds the value. -/
def searchSorted (values : List α) (value : α) : Option Nat :=
  let base := searchBase values value values.length 0 values.length
  if values[base]? = some value then some base else none

theorem searchBase_eq {values : List α} (sorted : values.Pairwise (· < ·)) {value : α} {i : Nat}
    (here : values[i]? = some value) (fuel base size : Nat) (enough : size ≤ fuel + 1) (lower : base ≤ i)
    (upper : i < base + size) (bounded : base + size ≤ values.length) : searchBase values value fuel base size = i := by
  induction fuel generalizing base size with
  | zero =>
    rw [searchBase]
    omega
  | succ fuel ih =>
    rw [searchBase]
    split
    · rename_i large
      have inside : base + size / 2 < values.length := by omega
      simp only [List.getElem?_eq_getElem inside]
      obtain ⟨insideI, atI⟩ := List.getElem?_eq_some_iff.mp here
      rcases Nat.lt_or_ge i (base + size / 2) with below | above
      · have less : value < values[base + size / 2] := by
          rw [← atI]
          exact pairwise_iff_getElem.mp sorted i _ insideI inside below
        rw [if_pos less]
        exact ih base (size - size / 2) (by omega) lower (by omega) (by omega)
      · have notLess : ¬value < values[base + size / 2] := by
          rcases Nat.eq_or_lt_of_le above with same | later
          · subst same
            rw [atI]
            exact lt_irrefl _
          · rw [← atI]
            exact lt_asymm (pairwise_iff_getElem.mp sorted _ i inside insideI later)
        rw [if_neg notLess]
        exact ih (base + size / 2) (size - size / 2) (by omega) above (by omega) (by omega)
    · omega

theorem searchSorted_isSome {values : List α} (sorted : values.Pairwise (· < ·)) (value : α) :
    (searchSorted values value).isSome = true ↔ value ∈ values := by
  simp only [searchSorted]
  constructor
  · intro found
    split at found
    · rename_i here
      exact mem_of_getElem? here
    · simp at found
  · intro member
    obtain ⟨i, here⟩ := mem_iff_getElem?.mp member
    obtain ⟨inside, -⟩ := List.getElem?_eq_some_iff.mp here
    rw [searchBase_eq sorted here values.length 0 values.length (by omega) (by omega) (by omega) (by omega), here]
    simp

end Ferrum
