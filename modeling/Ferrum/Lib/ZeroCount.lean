import Mathlib.Algebra.Group.Nat.Defs
import Mathlib.Data.List.Basic
import Mathlib.Data.Nat.Log

namespace Ferrum

/-- The zero bits below the lowest one of a word, as `trailing_zeros` counts them. -/
def trailingZerosOf (width value : Nat) : Nat := ((List.range width).find? value.testBit).getD width

/-- The zero bits above the highest one of a word, as `leading_zeros` counts them. -/
def leadingZerosOf (width value : Nat) : Nat := if value = 0 then width else width - 1 - Nat.log2 value

variable {width value : Nat}

theorem trailingZerosOf_le (width value : Nat) : trailingZerosOf width value ≤ width := by
  unfold trailingZerosOf
  cases search : (List.range width).find? value.testBit with
  | none => exact le_rfl
  | some found => exact (List.mem_range.mp (List.mem_of_find?_eq_some search)).le

theorem testBit_of_lt_trailingZerosOf {i : Nat} (below : i < trailingZerosOf width value) : value.testBit i = false := by
  have inside : i < width := below.trans_le (trailingZerosOf_le width value)
  unfold trailingZerosOf at below
  cases search : (List.range width).find? value.testBit with
  | none => simpa using List.find?_eq_none.mp search i (List.mem_range.mpr inside)
  | some found =>
    rw [search, Option.getD_some] at below
    obtain ⟨-, index, indexed, here, before⟩ := List.find?_eq_some_iff_getElem.mp search
    rw [List.getElem_range] at here
    subst here
    simpa using before i below

theorem two_pow_dvd_of_testBit {bits : Nat} (zeros : ∀ i < bits, value.testBit i = false) : 2 ^ bits ∣ value := by
  refine Nat.dvd_of_mod_eq_zero (Nat.eq_of_testBit_eq fun i => ?_)
  rw [Nat.testBit_mod_two_pow, Nat.zero_testBit]
  by_cases inside : i < bits
  · simp [zeros i inside]
  · simp [inside]

theorem two_pow_trailingZerosOf_dvd (width value : Nat) : 2 ^ trailingZerosOf width value ∣ value :=
  two_pow_dvd_of_testBit fun _ below => testBit_of_lt_trailingZerosOf below

theorem leadingZerosOf_spec (positive : 0 < value) (small : value < 2 ^ width) :
    leadingZerosOf width value ≤ width - 1 ∧ 0 < width ∧ 2 ^ (width - 1 - leadingZerosOf width value) ≤ value := by
  have below : Nat.log2 value < width := (Nat.log2_lt positive.ne').mpr small
  have count : leadingZerosOf width value = width - 1 - Nat.log2 value := if_neg positive.ne'
  have same : width - 1 - leadingZerosOf width value = Nat.log2 value := by omega
  refine ⟨by omega, by omega, ?_⟩
  rw [same]
  exact Nat.log2_self_le positive.ne'

end Ferrum
