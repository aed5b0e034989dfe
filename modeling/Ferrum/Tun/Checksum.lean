import Ferrum.Tun.Packet

namespace Ferrum.Tun

open List

/-- The longest slices that a checksum is asked for: an IPv6 payload of 65535 bytes and the 40 bytes of its
pseudo-header. -/
def maxChecksumLen : Nat := 65535 + 40

/-- An addition that panics when it overflows. -/
def add32 (sum value : Nat) : Option Nat := if sum + value < 2 ^ 32 then some (sum + value) else none

/-- The four words of a chunk of eight bytes, each as a `u32`. -/
def packedWords (chunk : List UInt8) : List Nat :=
  let packed := beNat chunk
  [(packed >>> 48) % 2 ^ 32, (packed >>> 32 &&& 0xffff) % 2 ^ 32, (packed >>> 16 &&& 0xffff) % 2 ^ 32,
    (packed &&& 0xffff) % 2 ^ 32]

/-- `addPart` with the additions of the code, each checked. -/
def addPartChecked : Nat → List UInt8 → Option Nat
  | sum, a :: b :: c :: d :: e :: f :: g :: h :: rest => do
    let words ← (packedWords [a, b, c, d, e, f, g, h]).foldlM add32 0
    let sum ← add32 sum words
    addPartChecked sum rest
  | sum, a :: b :: rest => do
    let sum ← add32 sum (a.toNat * 256 + b.toNat)
    addPartChecked sum rest
  | sum, [a] => add32 sum (a.toNat * 256)
  | sum, [] => some sum

/-- The big-endian words of a slice, a last odd byte padded with zero. -/
def words : List UInt8 → List Nat
  | a :: b :: rest => (a.toNat * 256 + b.toNat) :: words rest
  | [a] => [a.toNat * 256]
  | [] => []

/-- The one's complement sum of words: every carry out of the 16 bits is added back. -/
def onesComplementSum (values : List Nat) : Nat := values.foldl (fun sum word => foldCarry (sum + word)) 0

theorem wordSum_le_length (bytes : List UInt8) : wordSum bytes ≤ 65280 * bytes.length := by
  induction bytes using wordSum.induct with
  | case1 a b rest ih =>
    have high := a.toNat_lt
    have low := b.toNat_lt
    simp only [wordSum, length_cons]
    omega
  | case2 a =>
    have high := a.toNat_lt
    simp only [wordSum, length_singleton]
    omega
  | case3 => exact Nat.zero_le _

theorem add32_of_lt {sum value : Nat} (fits : sum + value < 2 ^ 32) : add32 sum value = some (sum + value) := if_pos fits

theorem foldlM_add32 {values : List Nat} {sum : Nat} (fits : sum + values.sum < 2 ^ 32) :
    values.foldlM add32 sum = some (sum + values.sum) := by
  induction values generalizing sum with
  | nil => rfl
  | cons value rest ih =>
    rw [sum_cons] at fits ⊢
    have first : sum + value < 2 ^ 32 := by omega
    rw [foldlM_cons, add32_of_lt first, Option.bind_eq_bind, Option.bind_some, ih (by omega), Nat.add_assoc]

theorem packedWords_sum (a b c d e f g h : UInt8) :
    (packedWords [a, b, c, d, e, f, g, h]).foldlM add32 0 =
      some (a.toNat * 256 + b.toNat + (c.toNat * 256 + d.toNat) + (e.toNat * 256 + f.toNat) + (g.toNat * 256 + h.toNat)) := by
  have bounds : a.toNat < 256 ∧ b.toNat < 256 ∧ c.toNat < 256 ∧ d.toNat < 256 ∧ e.toNat < 256 ∧ f.toNat < 256 ∧
      g.toNat < 256 ∧ h.toNat < 256 :=
    ⟨a.toNat_lt, b.toNat_lt, c.toNat_lt, d.toNat_lt, e.toNat_lt, f.toNat_lt, g.toNat_lt, h.toNat_lt⟩
  have split : packedWords [a, b, c, d, e, f, g, h] =
      [a.toNat * 256 + b.toNat, c.toNat * 256 + d.toNat, e.toNat * 256 + f.toNat, g.toNat * 256 + h.toNat] := by
    have low : ∀ value : Nat, value &&& 0xffff = value % 65536 := fun value => Nat.and_two_pow_sub_one_eq_mod value 16
    simp only [packedWords, low, Nat.shiftRight_eq_div_pow, beNat, foldl_cons, foldl_nil, List.cons.injEq, and_true]
    omega
  have total := @foldlM_add32 (packedWords [a, b, c, d, e, f, g, h]) 0
  simp only [split, sum_cons, sum_nil, Nat.zero_add, Nat.add_zero] at total ⊢
  rw [total (by omega)]
  exact congrArg some (by omega)

theorem addPartChecked_eq {sum : Nat} {part : List UInt8} (fits : sum + wordSum part < 2 ^ 32) :
    addPartChecked sum part = some (sum + wordSum part) := by
  induction sum, part using addPart.induct with
  | case1 sum a b c d e f g h rest ih =>
    simp only [wordSum] at fits ⊢
    have first := lt_of_le_of_lt (show sum + (a.toNat * 256 + b.toNat + (c.toNat * 256 + d.toNat) +
      (e.toNat * 256 + f.toNat) + (g.toNat * 256 + h.toNat)) ≤ _ by omega) fits
    rw [Nat.mod_eq_of_lt first] at ih
    rw [addPartChecked, packedWords_sum, Option.bind_eq_bind, Option.bind_some, add32_of_lt first,
      Option.bind_some, ih (lt_of_le_of_lt (by omega) fits)]
    exact congrArg some (by omega)
  | case2 sum a b rest short ih =>
    simp only [wordSum] at fits
    have first := lt_of_le_of_lt (show sum + (a.toNat * 256 + b.toNat) ≤ _ by omega) fits
    rw [Nat.mod_eq_of_lt first] at ih
    rw [addPartChecked, add32_of_lt first, Option.bind_eq_bind, Option.bind_some, ih (lt_of_le_of_lt (by omega) fits),
      wordSum, Nat.add_assoc]
    exact short
  | case3 sum a => exact add32_of_lt fits
  | case4 sum => rfl

theorem foldlM_addPartChecked {parts : List (List UInt8)} {sum : Nat} (fits : sum + (parts.map wordSum).sum < 2 ^ 32) :
    parts.foldlM addPartChecked sum = some (sum + (parts.map wordSum).sum) := by
  induction parts generalizing sum with
  | nil => rfl
  | cons part rest ih =>
    rw [map_cons, sum_cons] at fits ⊢
    have first : sum + wordSum part < 2 ^ 32 := by omega
    rw [foldlM_cons, addPartChecked_eq first, Option.bind_eq_bind, Option.bind_some, ih (by omega), Nat.add_assoc]

theorem words_sum (bytes : List UInt8) : (words bytes).sum = wordSum bytes ∧ ∀ word ∈ words bytes, word < 65536 := by
  induction bytes using wordSum.induct with
  | case1 a b rest ih =>
    have high := a.toNat_lt
    have low := b.toNat_lt
    exact ⟨by rw [words, sum_cons, ih.1, wordSum], forall_mem_cons.mpr ⟨by omega, ih.2⟩⟩
  | case2 a =>
    have high := a.toNat_lt
    exact ⟨by simp [words, wordSum], forall_mem_cons.mpr ⟨by omega, by simp⟩⟩
  | case3 => exact ⟨rfl, by simp [words]⟩

/-- Adding the carries back keeps the sum modulo 65535 and does not make it zero. -/
theorem foldl_foldCarry {values : List Nat} {sum : Nat} (bounded : ∀ value ∈ values, value < 65536) (small : sum < 65536) :
    values.foldl (fun sum word => foldCarry (sum + word)) sum % 65535 = (sum + values.sum) % 65535 ∧
      (0 < values.foldl (fun sum word => foldCarry (sum + word)) sum ↔ 0 < sum + values.sum) ∧
      values.foldl (fun sum word => foldCarry (sum + word)) sum < 65536 := by
  induction values generalizing sum with
  | nil => exact ⟨rfl, Iff.rfl, small⟩
  | cons value rest ih =>
    obtain ⟨first, bounded⟩ := forall_mem_cons.mp bounded
    have carried := foldCarry_eq (sum + value)
    obtain ⟨modulo, positive, below⟩ := ih bounded (show foldCarry (sum + value) < 65536 by omega)
    rw [foldl_cons, sum_cons]
    omega

theorem foldCarries_two {sum : Nat} (small : sum < 2 ^ 32) :
    foldCarries 2 sum = foldCarries sum sum ∧ foldCarries 2 sum >>> 16 = 0 := by
  obtain ⟨modulo, positive, below⟩ := foldCarries_spec sum le_rfl
  have once := foldCarry_eq sum
  have twice := foldCarry_eq (foldCarry sum)
  simp only [foldCarries, Nat.shiftRight_eq_div_pow]
  split
  · omega
  · split <;> omega

/-- For every list of slices that a checksum can be asked for, no addition overflows, two turns of the folding loop are
enough, and the result is the complement of the one's complement sum of the padded words. -/
theorem internetChecksum_rfc1071 (parts : List (List UInt8)) (short : (parts.map List.length).sum ≤ maxChecksumLen) :
    parts.foldlM addPartChecked 0 = some (parts.foldl addPart 0) ∧
    (foldCarries 2 (parts.foldl addPart 0) = foldCarries (parts.foldl addPart 0) (parts.foldl addPart 0) ∧
      foldCarries 2 (parts.foldl addPart 0) >>> 16 = 0) ∧
    (internetChecksum parts).val = 65535 - onesComplementSum (parts.flatMap words) := by
  have fits : (parts.map wordSum).sum < 2 ^ 32 := by
    have each : (parts.map wordSum).sum ≤ 65280 * (parts.map List.length).sum := by
      clear short
      induction parts with
      | nil => exact Nat.zero_le _
      | cons part rest ih =>
        have first := wordSum_le_length part
        simp only [map_cons, sum_cons]
        omega
    unfold maxChecksumLen at short
    omega
  have total : parts.foldl addPart 0 = (parts.map wordSum).sum := by
    rw [foldl_addPart parts 0 (by decide), Nat.zero_add, Nat.mod_eq_of_lt fits]
  rw [total]
  refine ⟨by simpa using @foldlM_addPartChecked parts 0 (by omega), foldCarries_two fits, ?_⟩
  have all : (parts.flatMap words).sum = (parts.map wordSum).sum ∧ ∀ word ∈ parts.flatMap words, word < 65536 := by
    refine ⟨?_, fun word member => ?_⟩
    · rw [flatMap_def, sum_flatten, map_map]
      exact congrArg List.sum (map_congr_left fun part _ => (words_sum part).1)
    · obtain ⟨part, -, member⟩ := mem_flatMap.mp member
      exact (words_sum part).2 word member
  obtain ⟨modulo, positive, below⟩ := foldCarries_spec (parts.map wordSum).sum le_rfl
  obtain ⟨modulo', positive', below'⟩ := foldl_foldCarry all.2 (show 0 < 65536 by decide)
  rw [internetChecksum_val fits]
  unfold onesComplementSum
  rw [all.1] at modulo' positive'
  omega

theorem sampleParts_checksum : (internetChecksum [[1], [255, 255, 1, 2]]).val = 65535 - 514 :=
  (internetChecksum_rfc1071 [[1], [255, 255, 1, 2]] (by decide)).2.2.trans rfl

end Ferrum.Tun
