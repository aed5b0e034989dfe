import Ferrum.Lib.Bytes
import Mathlib.Tactic.Ring

namespace Ferrum

/-- Seven-bit groups, lowest first: every byte but the last has its high bit set. -/
def Groups : List UInt8 → Prop
  | [] => False
  | [last] => last.toNat < 128
  | byte :: next :: rest => 128 ≤ byte.toNat ∧ Groups (next :: rest)

/-- The little-endian number in base 128. -/
def groupsValue : List UInt8 → Nat
  | [] => 0
  | byte :: rest => byte.toNat % 128 + 128 * groupsValue rest

/-- The LEB128 form of a number without trailing zero groups. -/
def leb128 (value : Nat) : List UInt8 :=
  if value < 128 then [UInt8.ofNat value] else UInt8.ofNat (value % 128 + 128) :: leb128 (value / 128)

theorem Groups.cons {byte : UInt8} {rest : List UInt8} (more : 128 ≤ byte.toNat) (groups : Groups rest) :
    Groups (byte :: rest) := by
  cases rest with
  | nil => exact groups.elim
  | cons next rest => exact ⟨more, groups⟩

variable {byte : UInt8} {shift value : Nat}

/-- The turns of a varint loop do not shift a bit out of 64: the tenth group carries one bit only. -/
theorem group_fits (turn : shift ≤ 56 ∨ shift = 63 ∧ byte.toNat ≤ 1) : byte.toNat % 128 * 2 ^ shift < 2 ^ 64 := by
  rcases turn with early | ⟨rfl, bit⟩
  · calc byte.toNat % 128 * 2 ^ shift
      _ ≤ 127 * 2 ^ 56 := Nat.mul_le_mul (by omega) (Nat.pow_le_pow_right (by decide) early)
      _ < 2 ^ 64 := by decide
  · omega

theorem group_lt (byte : UInt8) (below : value < 2 ^ shift) :
    value + byte.toNat % 128 * 2 ^ shift < 2 ^ (shift + 7) := by
  have group : byte.toNat % 128 * 2 ^ shift ≤ 127 * 2 ^ shift := Nat.mul_le_mul_right _ (by omega)
  rw [Nat.pow_add]
  omega

theorem group_sum_lt (below : value < 2 ^ shift)
    (turn : shift ≤ 56 ∨ shift = 63 ∧ byte.toNat ≤ 1) : value + byte.toNat % 128 * 2 ^ shift < 2 ^ 64 := by
  rcases turn with early | ⟨rfl, bit⟩
  · calc value + byte.toNat % 128 * 2 ^ shift
      _ < 2 ^ (shift + 7) := group_lt byte below
      _ ≤ 2 ^ 64 := Nat.pow_le_pow_right (by decide) (by omega)
  · omega

/-- What one turn adds to the groups before. -/
theorem or_group (below : value < 2 ^ shift) (turn : shift ≤ 56 ∨ shift = 63 ∧ byte.toNat ≤ 1) :
    value ||| ((byte &&& 127).toNat <<< shift) % 2 ^ 64 = value + byte.toNat % 128 * 2 ^ shift := by
  have low : (byte &&& 127).toNat = byte.toNat % 128 := by
    rw [UInt8.toNat_and, show (127 : UInt8).toNat = 2 ^ 7 - 1 from rfl, Nat.and_two_pow_sub_one_eq_mod]
  rw [low, Nat.shiftLeft_eq, Nat.mod_eq_of_lt (group_fits turn), Nat.or_comm, Nat.mul_comm,
    ← Nat.two_pow_add_eq_or_of_lt below, Nat.add_comm]

theorem groupsValue_scale (byte : UInt8) (rest : List UInt8) (value shift : Nat) :
    value + groupsValue (byte :: rest) * 2 ^ shift =
      value + byte.toNat % 128 * 2 ^ shift + groupsValue rest * 2 ^ (shift + 7) := by
  rw [groupsValue, Nat.pow_add]
  ring

theorem leb128_small (small : value < 128) : leb128 value = [UInt8.ofNat value] := by
  rw [leb128, if_pos small]

theorem leb128_byte {rest : Nat} (more : 128 ≤ byte.toNat) (positive : rest ≠ 0) :
    leb128 (byte.toNat % 128 + 128 * rest) = byte :: leb128 rest := by
  have low : (byte.toNat % 128 + 128 * rest) % 128 + 128 = byte.toNat := by
    have bound := byte.toNat_lt
    omega
  rw [leb128, if_neg (by omega), low, UInt8.ofNat_toNat, show (byte.toNat % 128 + 128 * rest) / 128 = rest by omega]

/-- The first byte of a LEB128 form. -/
theorem leb128_cons {unread tail : List UInt8} (same : byte :: unread = leb128 value ++ tail) :
    (value < 128 ∧ byte.toNat = value ∧ unread = tail) ∨
      (128 ≤ value ∧ byte.toNat = value % 128 + 128 ∧ unread = leb128 (value / 128) ++ tail) := by
  rw [leb128] at same
  split at same <;> rename_i size <;> obtain ⟨rfl, rfl⟩ := List.cons.inj same
  · exact .inl ⟨size, UInt8.toNat_ofNat_of_lt' (show _ < 256 by omega), rfl⟩
  · exact .inr ⟨by omega, UInt8.toNat_ofNat_of_lt' (show _ < 256 by omega), rfl⟩

/-- No LEB128 form is a prefix of another. -/
theorem leb128_append_inj {other : Nat} {rest tail : List UInt8}
    (same : leb128 value ++ rest = leb128 other ++ tail) : value = other ∧ rest = tail := by
  induction value using Nat.strongRecOn generalizing other with
  | ind value ih =>
    rw [leb128] at same
    split at same
    · rename_i small
      rcases leb128_cons same with ⟨_, number, rfl⟩ | ⟨_, number, -⟩ <;> rw [UInt8.toNat_ofNat'] at number
      · exact ⟨by omega, rfl⟩
      · omega
    · rename_i large
      rcases leb128_cons same with ⟨_, number, -⟩ | ⟨_, number, tails⟩ <;> rw [UInt8.toNat_ofNat'] at number
      · omega
      · obtain ⟨above, rest⟩ := ih (value / 128) (by omega) tails
        exact ⟨by omega, rest⟩

theorem length_leb128_le {turns : Nat} (positive : 0 < turns) (bound : value < 2 ^ (7 * turns)) :
    (leb128 value).length ≤ turns := by
  induction turns generalizing value with
  | zero => omega
  | succ turns ih =>
    rw [leb128]
    split
    · simp
    · rename_i large
      rw [Nat.mul_succ, Nat.pow_add] at bound
      cases turns with
      | zero => omega
      | succ turns => exact Nat.succ_le_succ (ih (Nat.succ_pos _) (Nat.div_lt_of_lt_mul (by omega)))

end Ferrum
