import Mathlib.Data.List.Flatten
import Mathlib.Data.List.Pairwise
import Mathlib.Data.List.Sort

namespace Ferrum

/-- A run of elements at an offset of a larger sequence. -/
structure Extent (α : Type) where
  offset : Nat
  bytes : List α
  deriving DecidableEq

namespace Extent

variable {α : Type}

def stop (extent : Extent α) : Nat := extent.offset + extent.bytes.length

def Holds (extent : Extent α) (i : Nat) : Prop := extent.offset ≤ i ∧ i < extent.stop

/-- The walk over some extents that asks each one to start where the one before it stopped. -/
def coverage : Nat → List (Extent α) → Option Nat
  | cursor, [] => some cursor
  | cursor, extent :: rest => if extent.offset ≠ cursor then none else coverage extent.stop rest

def sortByOffset (extents : List (Extent α)) : List (Extent α) :=
  extents.insertionSort fun first second => first.offset ≤ second.offset

variable {cursor finish : Nat} {extents : List (Extent α)}

theorem coverage_cons {extent : Extent α} {rest : List (Extent α)} :
    coverage cursor (extent :: rest) = some finish ↔ extent.offset = cursor ∧ coverage extent.stop rest = some finish := by
  rw [coverage]
  split
  · rename_i other
    simp [other]
  · rename_i same
    simp [not_not.mp same]

section

variable (covered : coverage cursor extents = some finish)
include covered

theorem coverage_length : cursor + (extents.flatMap bytes).length = finish := by
  induction extents generalizing cursor with
  | nil => simpa [coverage] using covered
  | cons extent rest ih =>
    obtain ⟨start, after⟩ := coverage_cons.mp covered
    have tail := ih after
    rw [List.flatMap_cons, List.length_append]
    unfold stop at tail
    omega

theorem coverage_holds (i : Nat) : (∃ extent ∈ extents, extent.Holds i) ↔ cursor ≤ i ∧ i < finish := by
  induction extents generalizing cursor with
  | nil =>
    have same : cursor = finish := by simpa [coverage] using covered
    simp
    omega
  | cons extent rest ih =>
    obtain ⟨start, after⟩ := coverage_cons.mp covered
    have length := coverage_length after
    have tail := ih after
    rw [List.exists_mem_cons_iff, tail]
    unfold Holds
    unfold stop at length ⊢
    omega

theorem coverage_below {extent : Extent α} (member : extent ∈ extents) : cursor ≤ extent.offset := by
  induction extents generalizing cursor with
  | nil => exact absurd member List.not_mem_nil
  | cons first rest ih =>
    obtain ⟨start, after⟩ := coverage_cons.mp covered
    rcases List.mem_cons.mp member with rfl | later
    · omega
    · have above := ih after later
      unfold stop at above
      omega

theorem coverage_ordered : extents.Pairwise fun first second => first.stop ≤ second.offset := by
  induction extents generalizing cursor with
  | nil => exact .nil
  | cons extent rest ih =>
    obtain ⟨_, after⟩ := coverage_cons.mp covered
    exact .cons (fun other member => coverage_below after member) (ih after)

end

theorem sortByOffset_perm (extents : List (Extent α)) : (sortByOffset extents).Perm extents :=
  List.perm_insertionSort _ extents

theorem sortByOffset_sorted (extents : List (Extent α)) :
    (sortByOffset extents).Pairwise fun first second => first.offset ≤ second.offset := by
  have : Std.Total fun first second : Extent α => first.offset ≤ second.offset := ⟨fun a b => Nat.le_total _ _⟩
  have : IsTrans (Extent α) fun first second => first.offset ≤ second.offset := ⟨fun a b c => Nat.le_trans⟩
  exact List.pairwise_insertionSort _ extents

theorem sortByOffset_ordered (nonempty : ∀ extent ∈ extents, 0 < extent.bytes.length)
    (apart : extents.Pairwise fun first second => first.stop ≤ second.offset ∨ second.stop ≤ first.offset) :
    (sortByOffset extents).Pairwise fun first second => first.stop ≤ second.offset := by
  have perm := sortByOffset_perm extents
  have sortedApart := (perm.pairwise_iff fun either => either.symm).mpr apart
  refine ((sortByOffset_sorted extents).and sortedApart).imp_of_mem fun {first second} _ member both => ?_
  obtain ⟨below, before | after⟩ := both
  · exact before
  · have length := nonempty second (perm.mem_iff.mp member)
    unfold stop at after
    omega

theorem eq_of_sorted {ordered : List (Extent α)} (perm : extents.Perm ordered)
    (sorted : extents.Pairwise fun first second => first.offset ≤ second.offset)
    (increasing : ordered.Pairwise fun first second => first.offset < second.offset) : extents = ordered := by
  have apart : ordered.Pairwise fun first second => first.offset ≠ second.offset := increasing.imp Nat.ne_of_lt
  have : Std.Symm fun first second : Extent α => first.offset ≠ second.offset := ⟨fun a b => Ne.symm⟩
  refine List.Perm.eq_of_pairwise ?_ sorted (increasing.imp Nat.le_of_lt) perm
  intro first second left right below above
  by_contra different
  exact apart.forall (perm.mem_iff.mp left) right different (Nat.le_antisymm below above)

theorem sortByOffset_eq {ordered : List (Extent α)} (perm : extents.Perm ordered)
    (increasing : ordered.Pairwise fun first second => first.offset < second.offset) : sortByOffset extents = ordered :=
  eq_of_sorted ((sortByOffset_perm extents).trans perm) (sortByOffset_sorted extents) increasing

def ofChunks : Nat → List (List α) → List (Extent α)
  | _, [] => []
  | start, chunk :: rest => ⟨start, chunk⟩ :: ofChunks (start + chunk.length) rest

theorem ofChunks_bytes (start : Nat) (chunks : List (List α)) : (ofChunks start chunks).flatMap bytes = chunks.flatten := by
  induction chunks generalizing start with
  | nil => rfl
  | cons chunk rest ih => simp [ofChunks, ih]

theorem ofChunks_coverage (start : Nat) (chunks : List (List α)) :
    coverage start (ofChunks start chunks) = some (start + chunks.flatten.length) := by
  induction chunks generalizing start with
  | nil => rfl
  | cons chunk rest ih =>
    rw [ofChunks, coverage_cons]
    refine ⟨rfl, ?_⟩
    rw [stop, ih, List.flatten_cons, List.length_append]
    simp only [Option.some.injEq]
    omega

end Extent

end Ferrum
