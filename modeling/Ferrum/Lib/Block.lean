import Mathlib.Data.Nat.Log
import Mathlib.Tactic.Ring

namespace Ferrum

/-- The numbers that agree with `base` above their lowest `bits` bits, when `base` is zero there. -/
structure Block where
  base : Nat
  bits : Nat
  deriving DecidableEq

namespace Block

variable {a b : Block} {x : Nat}

def size (b : Block) : Nat := 2 ^ b.bits

def Holds (b : Block) (x : Nat) : Prop := b.base ≤ x ∧ x < b.base + b.size

instance (b : Block) (x : Nat) : Decidable (b.Holds x) := inferInstanceAs (Decidable (_ ∧ _))

def Aligned (b : Block) : Prop := b.size ∣ b.base

def Within (a b : Block) : Prop := ∀ x, a.Holds x → b.Holds x

def Apart (a b : Block) : Prop := ∀ x, a.Holds x → ¬b.Holds x

theorem size_pos (b : Block) : 0 < b.size := Nat.two_pow_pos b.bits

theorem holds_base (b : Block) : b.Holds b.base := ⟨le_rfl, by have := b.size_pos; omega⟩

theorem Apart.symm (apart : a.Apart b) : b.Apart a := fun x inB inA => apart x inA inB

theorem Aligned.holds_iff (aligned : b.Aligned) : b.Holds x ↔ x / b.size = b.base / b.size := by
  obtain ⟨quotient, base⟩ := aligned
  have positive := b.size_pos
  rw [base, Nat.mul_div_cancel_left _ positive, Nat.div_eq_iff positive, Holds, base]
  constructor
  · rintro ⟨lower, upper⟩
    exact ⟨by rw [Nat.mul_comm]; exact lower, by rw [Nat.mul_comm]; omega⟩
  · rintro ⟨lower, upper⟩
    rw [Nat.mul_comm] at lower upper
    exact ⟨lower, by omega⟩

theorem size_dvd (le : a.bits ≤ b.bits) : a.size ∣ b.size := Nat.pow_dvd_pow 2 le

theorem Aligned.within (alignedA : a.Aligned) (alignedB : b.Aligned) (le : a.bits ≤ b.bits) (inA : a.Holds x)
    (inB : b.Holds x) : a.Within b := by
  obtain ⟨factor, size⟩ := size_dvd le
  intro y inA'
  rw [alignedA.holds_iff] at inA inA'
  rw [alignedB.holds_iff] at inB ⊢
  have same : y / a.size = x / a.size := inA'.trans inA.symm
  rw [← inB, size, ← Nat.div_div_eq_div_mul, ← Nat.div_div_eq_div_mul, same]

theorem Aligned.within_iff (alignedA : a.Aligned) (alignedB : b.Aligned) (le : a.bits ≤ b.bits) :
    a.Within b ↔ b.Holds a.base :=
  ⟨fun within => within _ a.holds_base, fun held => alignedA.within alignedB le a.holds_base held⟩

theorem Aligned.apart (alignedA : a.Aligned) (alignedB : b.Aligned) (le : a.bits ≤ b.bits) (outside : ¬b.Holds a.base) :
    a.Apart b := fun _ inA inB => outside (alignedA.within alignedB le inA inB _ a.holds_base)

def lower (b : Block) : Block := { base := b.base, bits := b.bits - 1 }

def upper (b : Block) : Block := { base := b.base + 2 ^ (b.bits - 1), bits := b.bits - 1 }

theorem size_succ (positive : 0 < b.bits) : b.size = 2 ^ (b.bits - 1) + 2 ^ (b.bits - 1) := by
  have split : b.bits = (b.bits - 1) + 1 := by omega
  rw [size, split, Nat.pow_succ, Nat.add_sub_cancel]
  omega

theorem holds_halves (positive : 0 < b.bits) : b.Holds x ↔ b.lower.Holds x ∨ b.upper.Holds x := by
  have size := size_succ positive
  simp only [Holds, lower, upper, Block.size] at size ⊢
  omega

theorem halves_apart (b : Block) : b.lower.Apart b.upper := by
  intro x inLower inUpper
  simp only [Holds, lower, upper, Block.size] at inLower inUpper
  omega

theorem Aligned.lower (aligned : b.Aligned) : b.lower.Aligned :=
  (Nat.pow_dvd_pow 2 (Nat.sub_le _ 1)).trans aligned

theorem Aligned.upper (aligned : b.Aligned) : b.upper.Aligned :=
  (Nat.dvd_add_right aligned.lower).mpr (dvd_refl _)

def Ascending (blocks : List Block) : Prop := blocks.Pairwise fun a b => a.base + a.size ≤ b.base

theorem apart_of_le (le : a.base + a.size ≤ b.base) : a.Apart b := by
  intro x inA inB
  have upper := inA.2
  have lower := inB.1
  omega

/-- Aligned blocks, one right after the other, from `start` up to `stop`. -/
inductive Tiles : List Block → Nat → Nat → Prop
  | done (start : Nat) : Tiles [] start start
  | next {b : Block} {rest : List Block} {stop : Nat} (aligned : b.Aligned) (tiles : Tiles rest (b.base + b.size) stop) :
      Tiles (b :: rest) b.base stop

namespace Tiles

variable {blocks more : List Block} {start middle stop : Nat}

theorem le (tiles : Tiles blocks start stop) : start ≤ stop := by
  induction tiles with
  | done start => exact le_rfl
  | @next b rest stop aligned tiles ih => omega

theorem aligned (tiles : Tiles blocks start stop) : ∀ b ∈ blocks, b.Aligned := by
  induction tiles with
  | done start => simp
  | @next b rest stop aligned tiles ih =>
    intro other member
    rcases List.mem_cons.mp member with rfl | later
    · exact aligned
    · exact ih other later

theorem holds_iff (tiles : Tiles blocks start stop) (x : Nat) :
    (∃ b ∈ blocks, b.Holds x) ↔ start ≤ x ∧ x < stop := by
  induction tiles with
  | done start => simp
  | @next b rest stop aligned tiles ih =>
    have le := tiles.le
    have positive := b.size_pos
    simp only [List.mem_cons, exists_eq_or_imp]
    rw [ih, Holds]
    omega

theorem start_le (tiles : Tiles blocks start stop) : ∀ b ∈ blocks, start ≤ b.base := by
  intro b member
  exact ((tiles.holds_iff b.base).mp ⟨b, member, b.holds_base⟩).1

theorem ascending (tiles : Tiles blocks start stop) : Ascending blocks := by
  induction tiles with
  | done start => exact .nil
  | @next b rest stop aligned tiles ih => exact List.pairwise_cons.mpr ⟨fun other member => tiles.start_le other member, ih⟩

end Tiles

end Block

end Ferrum
