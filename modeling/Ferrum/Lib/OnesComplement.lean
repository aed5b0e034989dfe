import Ferrum.Lib.Bytes

namespace Ferrum

open List

/-- The one's complement of a 16-bit word. -/
def U16.complement (value : U16) : U16 := ⟨65535 - value.val, by omega⟩

/-- The sum of the big-endian 16-bit words of a byte string, a last odd byte padded with zero. -/
def wordSum : List UInt8 → Nat
  | a :: b :: rest => a.toNat * 256 + b.toNat + wordSum rest
  | [a] => a.toNat * 256
  | [] => 0

theorem wordSum_append {front back : List UInt8} (even : front.length % 2 = 0) :
    wordSum (front ++ back) = wordSum front + wordSum back := by
  induction front using wordSum.induct with
  | case1 a b rest ih =>
    simp only [length_cons] at even
    simp only [cons_append, wordSum, ih (by omega)]
    omega
  | case2 a => simp at even
  | case3 => simp [wordSum]

theorem wordSum_le (bytes : List UInt8) : wordSum bytes ≤ 65535 * ((bytes.length + 1) / 2) := by
  induction bytes using wordSum.induct with
  | case1 a b rest ih =>
    have high := a.toNat_lt
    have low := b.toNat_lt
    simp only [wordSum, length_cons]
    omega
  | case2 a =>
    have high := a.toNat_lt
    simp only [wordSum, length_singleton]
    omega
  | case3 => simp [wordSum]

theorem be16_le_wordSum (bytes : List UInt8) : be16 bytes 0 ≤ wordSum bytes := by
  match bytes with
  | a :: b :: rest =>
    simp only [be16, byteAt, wordSum, getD_cons_zero, getD_cons_succ]
    omega
  | [a] => simp [be16, byteAt, wordSum]
  | [] => simp [be16, byteAt, wordSum]

theorem wordSum_slice {bytes : List UInt8} {i : Nat} (fits : i + 2 ≤ bytes.length) :
    wordSum (slice bytes i (i + 2)) = be16 bytes i := by
  have length : (slice bytes i (i + 2)).length = 2 := by
    rw [length_slice]
    omega
  obtain ⟨a, b, pair⟩ := length_eq_two.mp length
  have first : byte bytes i = a := by
    have inside := @byte_slice bytes i (i + 2) 0 (by omega)
    rw [pair] at inside
    exact inside.symm
  have second : byte bytes (i + 1) = b := by
    have inside := @byte_slice bytes i (i + 2) 1 (by omega)
    rw [pair] at inside
    exact inside.symm
  rw [pair, be16, byteAt_eq, byteAt_eq, first, second, wordSum, wordSum, Nat.add_zero]

theorem U16.wordSum_toBeBytes (value : U16) : wordSum value.toBeBytes = value.val := by
  have bound := value.isLt
  rw [toBeBytes, wordSum, wordSum, UInt8.toNat_ofNat', UInt8.toNat_ofNat']
  omega

theorem wordSum_copyFromSlice {bytes source : List UInt8} {start : Nat} (fits : start + source.length ≤ bytes.length)
    (evenStart : start % 2 = 0) (evenLength : source.length % 2 = 0) :
    wordSum (copyFromSlice bytes start source) + wordSum (slice bytes start (start + source.length)) =
      wordSum bytes + wordSum source := by
  have length : (bytes.take start).length = start := length_take_of_le (by omega)
  have lengthSlice : (slice bytes start (start + source.length)).length = source.length := by
    rw [length_slice]
    omega
  have parts : bytes = bytes.take start ++ (slice bytes start (start + source.length) ++ bytes.drop (start + source.length)) :=
    calc bytes = bytes.take (start + source.length) ++ bytes.drop (start + source.length) :=
          (take_append_drop _ _).symm
      _ = (bytes.take (start + source.length)).take start ++ (bytes.take (start + source.length)).drop start ++
            bytes.drop (start + source.length) := by rw [take_append_drop start]
      _ = _ := by
        rw [take_take, Nat.min_eq_left (by omega), append_assoc]
        rfl
  have whole : wordSum bytes = wordSum (bytes.take start) + (wordSum (slice bytes start (start + source.length)) +
      wordSum (bytes.drop (start + source.length))) := by
    conv => lhs; rw [parts]
    rw [wordSum_append (by omega), wordSum_append (by omega)]
  unfold copyFromSlice
  rw [append_assoc, wordSum_append (by omega), wordSum_append evenLength, whole]
  omega

def foldCarry (sum : Nat) : Nat := (sum &&& 0xffff) + (sum >>> 16)

theorem foldCarry_eq (sum : Nat) : foldCarry sum = sum % 65536 + sum / 65536 := by
  unfold foldCarry
  rw [show (0xffff : Nat) = 2 ^ 16 - 1 from rfl, Nat.and_two_pow_sub_one_eq_mod, Nat.shiftRight_eq_div_pow]

theorem foldCarry_mod (sum : Nat) : foldCarry sum % 65535 = sum % 65535 := by
  rw [foldCarry_eq]
  omega

theorem foldCarry_pos {sum : Nat} : 0 < foldCarry sum ↔ 0 < sum := by
  rw [foldCarry_eq]
  omega

/-- The end-around carry, repeated while there is one. -/
def foldCarries : Nat → Nat → Nat
  | 0, sum => sum
  | fuel + 1, sum => if sum >>> 16 = 0 then sum else foldCarries fuel (foldCarry sum)

theorem foldCarries_spec (fuel : Nat) {sum : Nat} (enough : sum ≤ fuel) :
    foldCarries fuel sum % 65535 = sum % 65535 ∧ (0 < foldCarries fuel sum ↔ 0 < sum) ∧
      foldCarries fuel sum < 65536 := by
  induction fuel generalizing sum with
  | zero =>
    obtain rfl : sum = 0 := by omega
    simp [foldCarries]
  | succ fuel ih =>
    unfold foldCarries
    rw [Nat.shiftRight_eq_div_pow]
    split
    · rename_i small
      exact ⟨rfl, Iff.rfl, by omega⟩
    · rename_i large
      have shrinks : foldCarry sum ≤ fuel := by
        rw [foldCarry_eq]
        omega
      obtain ⟨modulo, positive, bound⟩ := ih shrinks
      exact ⟨modulo.trans (foldCarry_mod sum), positive.trans foldCarry_pos, bound⟩

theorem foldCarries_eq_max {sum : Nat} : foldCarries sum sum = 65535 ↔ sum % 65535 = 0 ∧ 0 < sum := by
  obtain ⟨modulo, positive, bound⟩ := foldCarries_spec sum le_rfl
  omega

end Ferrum
