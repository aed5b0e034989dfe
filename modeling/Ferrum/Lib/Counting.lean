import Mathlib.Data.Fintype.Card

namespace Ferrum

open Function

variable {α β : Type} [Fintype α] [DecidableEq α]

/-- The number of indices of a table whose value satisfies `P`. -/
def countWhere (P : β → Prop) [DecidablePred P] (table : α → β) : Nat :=
  (Finset.univ.filter fun a => P (table a)).card

theorem countWhere_update (P : β → Prop) [DecidablePred P] (table : α → β) (a : α) (b : β) :
    countWhere P (update table a b) + (if P (table a) then 1 else 0) =
      countWhere P table + (if P b then 1 else 0) := by
  have split : ∀ f : α → β, countWhere P f =
      ((Finset.univ.erase a).filter fun i => P (f i)).card + (if P (f a) then 1 else 0) := by
    intro f
    unfold countWhere
    rw [← Finset.insert_erase (Finset.mem_univ a), Finset.filter_insert, Finset.erase_insert (by simp)]
    by_cases at_a : P (f a)
    · simp [at_a]
    · simp [at_a]
  have others : (Finset.univ.erase a).filter (fun i => P (update table a b i)) =
      (Finset.univ.erase a).filter fun i => P (table i) := by
    apply Finset.filter_congr
    intro i member
    rw [update_of_ne (Finset.ne_of_mem_erase member)]
  rw [split (update table a b), split table, others, update_self]
  omega

end Ferrum
