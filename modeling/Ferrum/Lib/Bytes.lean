import Mathlib.Data.List.Basic
import Mathlib.Data.List.Induction
import Mathlib.Tactic.Ring

namespace Ferrum

open List

abbrev U16 := Fin 65536
abbrev U32 := Fin 4294967296

instance neZeroU16 : NeZero 65536 := ⟨nofun⟩
instance neZeroU32 : NeZero 4294967296 := ⟨nofun⟩

section

variable (bytes : List UInt8)

/-- The byte at an index; zero past the end, where no guarded index of the code reads. -/
def byte (i : Nat) : UInt8 := bytes.getD i 0

def byteAt (i : Nat) : Nat := (bytes.getD i 0).toNat

/-- The big-endian number of a byte string. -/
def beNat : Nat := bytes.foldl (fun value byte => value * 256 + byte.toNat) 0

def be16 (i : Nat) : Nat := byteAt bytes i * 256 + byteAt bytes (i + 1)

def slice (start stop : Nat) : List UInt8 := (bytes.take stop).drop start

theorem byteAt_lt (i : Nat) : byteAt bytes i < 256 := (bytes.getD i 0).toNat_lt

theorem be16_lt (i : Nat) : be16 bytes i < 65536 := by
  have high := byteAt_lt bytes i
  have low := byteAt_lt bytes (i + 1)
  unfold be16
  omega

def u16At (i : Nat) : U16 := ⟨be16 bytes i, be16_lt bytes i⟩

def u32At (i : Nat) : U32 :=
  ⟨be16 bytes i * 65536 + be16 bytes (i + 2), by
    have high := be16_lt bytes i
    have low := be16_lt bytes (i + 2)
    omega⟩

end

variable (value : U16)

def U16.toBeBytes : List UInt8 := [UInt8.ofNat (value.val / 256), UInt8.ofNat (value.val % 256)]

/-- `u16::try_from`. -/
def U16.tryFrom (value : Nat) : Option U16 := if bound : value < 65536 then some ⟨value, bound⟩ else none

/-- `u16::from_be_bytes`. -/
def U16.fromBeBytes (high low : UInt8) : U16 :=
  ⟨high.toNat * 256 + low.toNat, by
    have highLt := high.toNat_lt
    have lowLt := low.toNat_lt
    omega⟩

/-- Overwrites the bytes from `start` on. -/
def copyFromSlice (bytes : List UInt8) (start : Nat) (source : List UInt8) : List UInt8 :=
  bytes.take start ++ source ++ bytes.drop (start + source.length)

theorem byteAt_eq (bytes : List UInt8) (i : Nat) : byteAt bytes i = (byte bytes i).toNat := rfl

variable (front back : List UInt8)

theorem byte_append (i : Nat) :
    byte (front ++ back) i = if i < front.length then byte front i else byte back (i - front.length) := by
  unfold byte
  split
  · rename_i inside
    rw [getD_eq_getElem?_getD, List.getElem?_append_left inside, getD_eq_getElem?_getD]
  · rename_i outside
    rw [getD_eq_getElem?_getD, List.getElem?_append_right (by omega), getD_eq_getElem?_getD]

variable {bytes first second source : List UInt8} {stop i start : Nat}

theorem byte_take (inside : i < stop) : byte (bytes.take stop) i = byte bytes i := by
  simp [byte, getD_eq_getElem?_getD, inside]

theorem byte_drop (bytes : List UInt8) (start i : Nat) : byte (bytes.drop start) i = byte bytes (start + i) := by
  simp [byte, getD_eq_getElem?_getD, List.getElem?_drop]

theorem byte_slice {bytes : List UInt8} {start stop i : Nat} (inside : start + i < stop) :
    byte (slice bytes start stop) i = byte bytes (start + i) := by
  rw [slice, byte_drop, byte_take inside]

@[simp] theorem length_slice (bytes : List UInt8) (start stop : Nat) :
    (slice bytes start stop).length = min stop bytes.length - start := by
  simp [slice]

theorem ext_byte (length : first.length = second.length)
    (same : ∀ i < first.length, byte first i = byte second i) : first = second := by
  refine ext_getElem length ?_
  intro i left right
  have at_i := same i left
  simpa [byte, getD_eq_getElem?_getD, left, right] using at_i

theorem slice_congr (length : first.length = second.length)
    (same : ∀ i, start ≤ i → i < stop → byte first i = byte second i) : slice first start stop = slice second start stop := by
  refine ext_byte (by simp [length]) ?_
  intro i bound
  rw [length_slice] at bound
  rw [byte_slice (by omega), byte_slice (by omega)]
  exact same (start + i) (by omega) (by omega)

theorem slice_take {bytes : List UInt8} {start stop limit : Nat} (within : stop ≤ limit) :
    slice (bytes.take limit) start stop = slice bytes start stop := by
  rw [slice, take_take, Nat.min_eq_left within, slice]

theorem slice_append_left {front : List UInt8} (within : stop ≤ front.length) :
    slice (front ++ back) start stop = slice front start stop := by
  rw [slice, take_append_of_le_length within, slice]

theorem slice_to_length (bytes : List UInt8) (start : Nat) : slice bytes start bytes.length = bytes.drop start := by
  rw [slice, take_length]

theorem slice_single {found : UInt8} (at_i : bytes[i]? = some found) : slice bytes i (i + 1) = [found] := by
  obtain ⟨inside, rfl⟩ := List.getElem?_eq_some_iff.mp at_i
  have taken : (bytes.take i).length = i := length_take_of_le (Nat.le_of_lt inside)
  rw [slice, take_succ_eq_append_getElem inside, drop_append_of_le_length (by omega),
    drop_eq_nil_of_le (by omega), nil_append]

theorem slice_append_slice (bytes : List UInt8) {middle : Nat} (first : start ≤ middle) (second : middle ≤ stop) :
    slice bytes start middle ++ slice bytes middle stop = slice bytes start stop := by
  have front : slice bytes start middle = (slice bytes start stop).take (middle - start) := by
    rw [slice, slice, take_drop, take_take]
    congr 2
    omega
  have back : slice bytes middle stop = (slice bytes start stop).drop (middle - start) := by
    rw [slice, slice, drop_drop]
    congr 1
    omega
  rw [front, back, take_append_drop]

theorem slice_append_middle (middle back : List UInt8) :
    slice (front ++ middle ++ back) front.length (front.length + middle.length) = middle := by
  rw [slice, ← length_append, take_left, drop_left]

theorem slice_append_right : slice (front ++ back) front.length (front ++ back).length = back := by
  rw [slice_to_length, drop_left]

theorem slice_zero : slice (front ++ back) 0 front.length = front := by
  rw [slice, take_left, drop_zero]

theorem slice_parts {front middle : List UInt8} {n k : Nat} (frontLength : front.length = n) (middleLength : middle.length = k)
    (back : List UInt8) :
    slice (front ++ middle ++ back) 0 n = front ∧ slice (front ++ middle ++ back) n (n + k) = middle ∧
      slice (front ++ middle ++ back) (n + k) (front ++ middle ++ back).length = back := by
  subst frontLength middleLength
  refine ⟨?_, slice_append_middle front middle back, ?_⟩
  · rw [append_assoc, slice_zero]
  · rw [← length_append, slice_append_right]

section copyFromSlice

variable {bytes source : List UInt8} {start : Nat}

section

variable (fits : start + source.length ≤ bytes.length)
include fits

@[simp] theorem length_copyFromSlice : (copyFromSlice bytes start source).length = bytes.length := by
  simp [copyFromSlice]
  omega

theorem byte_copyFromSlice (i : Nat) : byte (copyFromSlice bytes start source) i =
      if start ≤ i ∧ i < start + source.length then byte source (i - start) else byte bytes i := by
  unfold copyFromSlice
  rw [append_assoc, byte_append, byte_append, byte_drop, length_take_of_le (by omega)]
  by_cases before : i < start
  · rw [if_pos before, if_neg (by omega), byte_take before]
  · rw [if_neg before]
    by_cases inside : i < start + source.length
    · rw [if_pos (by omega), if_pos ⟨by omega, inside⟩]
    · rw [if_neg (by omega), if_neg (by omega)]
      congr 1
      omega

theorem byte_copyFromSlice_outside {i : Nat}
    (outside : i < start ∨ start + source.length ≤ i) : byte (copyFromSlice bytes start source) i = byte bytes i := by
  rw [byte_copyFromSlice fits, if_neg (by omega)]

theorem slice_copyFromSlice_self :
    slice (copyFromSlice bytes start source) start (start + source.length) = source := by
  refine ext_byte (by simp [fits]) ?_
  intro i bound
  rw [length_slice, length_copyFromSlice fits] at bound
  rw [byte_slice (by omega), byte_copyFromSlice fits, if_pos (by omega)]
  congr 1
  omega

theorem slice_copyFromSlice_outside {first last : Nat}
    (outside : last ≤ start ∨ start + source.length ≤ first) :
    slice (copyFromSlice bytes start source) first last = slice bytes first last := by
  refine slice_congr (length_copyFromSlice fits) ?_
  intro i above below
  exact byte_copyFromSlice_outside fits (by omega)

end

theorem take_copyFromSlice {stop : Nat} (inside : start + source.length ≤ stop) (fits : stop ≤ bytes.length) :
    (copyFromSlice bytes start source).take stop = copyFromSlice (bytes.take stop) start source := by
  have length : (copyFromSlice bytes start source).length = bytes.length := length_copyFromSlice (by omega)
  have lengthTake : (bytes.take stop).length = stop := length_take_of_le fits
  refine ext_byte ?_ ?_
  · rw [length_take, length, length_copyFromSlice (by omega)]
    omega
  · intro i bound
    rw [length_take] at bound
    rw [byte_take (by omega), byte_copyFromSlice (by omega), byte_copyFromSlice (by omega), byte_take (by omega)]

theorem drop_copyFromSlice {first : Nat} (inside : first ≤ start) (fits : start + source.length ≤ bytes.length) :
    (copyFromSlice bytes start source).drop first = copyFromSlice (bytes.drop first) (start - first) source := by
  have fitsDrop : start - first + source.length ≤ (bytes.drop first).length := by
    rw [length_drop]
    omega
  refine ext_byte ?_ ?_
  · rw [length_drop, length_copyFromSlice fits, length_copyFromSlice fitsDrop, length_drop]
  · intro i bound
    rw [byte_drop, byte_copyFromSlice fits, byte_copyFromSlice fitsDrop, byte_drop]
    by_cases written : start ≤ first + i ∧ first + i < start + source.length
    · rw [if_pos written, if_pos (by omega)]
      congr 1
      omega
    · rw [if_neg written, if_neg (by omega)]

theorem drop_copyFromSlice_outside {first : Nat} (outside : start + source.length ≤ first)
    (fits : start + source.length ≤ bytes.length) : (copyFromSlice bytes start source).drop first = bytes.drop first := by
  refine ext_byte ?_ ?_
  · rw [length_drop, length_copyFromSlice fits, length_drop]
  · intro i bound
    rw [byte_drop, byte_drop, byte_copyFromSlice_outside fits (by omega)]

end copyFromSlice

theorem copyFromSlice_append_left {front back : List UInt8} (fits : start + source.length ≤ front.length) :
    copyFromSlice (front ++ back) start source = copyFromSlice front start source ++ back := by
  unfold copyFromSlice
  rw [take_append_of_le_length (by omega), drop_append_of_le_length fits, append_assoc, append_assoc,
    append_assoc]

theorem copyFromSlice_all (length : bytes.length = source.length) : copyFromSlice bytes 0 source = source := by
  unfold copyFromSlice
  rw [Nat.zero_add, drop_of_length_le (by omega)]
  simp

theorem copyFromSlice_end {front back : List UInt8} (length : back.length = source.length) :
    copyFromSlice (front ++ back) front.length source = front ++ source := by
  unfold copyFromSlice
  rw [take_left, drop_of_length_le (by rw [length_append]; omega), append_nil]

theorem be16_append_left {front back : List UInt8} (inside : i + 1 < front.length) :
    be16 (front ++ back) i = be16 front i := by
  unfold be16
  rw [byteAt_eq, byteAt_eq, byte_append, byte_append, if_pos (by omega), if_pos inside]
  rfl

theorem be16_congr (high : byte first i = byte second i)
    (low : byte first (i + 1) = byte second (i + 1)) : be16 first i = be16 second i := by
  unfold be16
  rw [byteAt_eq, byteAt_eq, high, low]
  rfl

theorem be16_drop (bytes : List UInt8) (start i : Nat) : be16 (bytes.drop start) i = be16 bytes (start + i) := by
  unfold be16
  rw [byteAt_eq, byteAt_eq, byte_drop, byte_drop]
  rfl

@[simp] theorem U16.length_toBeBytes : value.toBeBytes.length = 2 := rfl

theorem U16.byteAt_toBeBytes : byteAt value.toBeBytes 0 = value.val / 256 ∧ byteAt value.toBeBytes 1 = value.val % 256 := by
  have bound := value.isLt
  constructor
  · change (UInt8.ofNat (value.val / 256)).toNat = _
    rw [UInt8.toNat_ofNat']
    exact Nat.mod_eq_of_lt (by omega)
  · change (UInt8.ofNat (value.val % 256)).toNat = _
    rw [UInt8.toNat_ofNat']
    exact Nat.mod_eq_of_lt (by omega)

theorem U16.fromBeBytes_toBeBytes :
    U16.fromBeBytes (UInt8.ofNat (value.val / 256)) (UInt8.ofNat (value.val % 256)) = value := by
  have bound := value.isLt
  refine Fin.ext ?_
  simp only [U16.fromBeBytes, UInt8.toNat_ofNat']
  omega

theorem U16.toBeBytes_fromBeBytes (high low : UInt8) : (U16.fromBeBytes high low).toBeBytes = [high, low] := by
  have highLt := high.toNat_lt
  have lowLt := low.toNat_lt
  have first : (high.toNat * 256 + low.toNat) / 256 = high.toNat := by omega
  have second : (high.toNat * 256 + low.toNat) % 256 = low.toNat := by omega
  simp only [U16.toBeBytes, U16.fromBeBytes, first, second, UInt8.ofNat_toNat]

theorem be16_of_slice {bytes : List UInt8} {value : U16} {i : Nat} (stored : slice bytes i (i + 2) = value.toBeBytes)  :
    be16 bytes i = value.val := by
  obtain ⟨high, low⟩ := value.byteAt_toBeBytes
  rw [← stored, byteAt_eq, byte_slice (by omega)] at high
  rw [← stored, byteAt_eq, byte_slice (by omega)] at low
  unfold be16
  rw [byteAt_eq, byteAt_eq, ← Nat.add_zero i, high, Nat.add_zero, low]
  omega

def leNat : List UInt8 → Nat
  | [] => 0
  | byte :: rest => byte.toNat + 256 * leNat rest

def toBeBytes : Nat → Nat → List UInt8
  | 0, _ => []
  | width + 1, value => toBeBytes width (value / 256) ++ [UInt8.ofNat (value % 256)]

theorem leNat_lt (bytes : List UInt8) : leNat bytes < 256 ^ bytes.length := by
  induction bytes with
  | nil => simp [leNat]
  | cons byte rest ih =>
    have low := byte.toNat_lt
    rw [length_cons, Nat.pow_succ, leNat]
    omega

@[simp] theorem leNat_replicate_zero (count : Nat) : leNat (List.replicate count 0) = 0 := by
  induction count with
  | zero => rfl
  | succ count ih => simp [replicate_succ, leNat, ih]

@[simp] theorem length_toBeBytes (width value : Nat) : (toBeBytes width value).length = width := by
  induction width generalizing value with
  | zero => rfl
  | succ width ih => simp [toBeBytes, ih]

theorem beNat_snoc (bytes : List UInt8) (byte : UInt8) : beNat (bytes ++ [byte]) = beNat bytes * 256 + byte.toNat := by
  simp [beNat]

theorem beNat_lt (bytes : List UInt8) : beNat bytes < 256 ^ bytes.length := by
  induction bytes using List.reverseRecOn with
  | nil => decide
  | append_singleton rest byte ih =>
    have low := byte.toNat_lt
    rw [beNat_snoc, length_append, length_singleton, Nat.pow_succ]
    omega

theorem beNat_toBeBytes {width value : Nat} (bound : value < 256 ^ width) : beNat (toBeBytes width value) = value := by
  induction width generalizing value with
  | zero =>
    have zero : value = 0 := by simpa using bound
    subst zero
    rfl
  | succ width ih =>
    have high : value / 256 < 256 ^ width := by
      rw [Nat.pow_succ] at bound
      omega
    rw [toBeBytes, beNat_snoc, ih high, UInt8.toNat_ofNat']
    omega

abbrev U64 := Fin (2 ^ 64)

instance neZeroU64 : NeZero (2 ^ 64) := ⟨nofun⟩

def U64.toBeBytes (value : U64) : List UInt8 := Ferrum.toBeBytes 8 value.val

/-- `u64::from_be_bytes`. -/
def U64.fromBeBytes (bytes : List UInt8) : U64 := Fin.ofNat (2 ^ 64) (beNat bytes)

@[simp] theorem U64.length_toBeBytes (value : U64) : value.toBeBytes.length = 8 := Ferrum.length_toBeBytes 8 value.val

@[simp] theorem U64.fromBeBytes_toBeBytes (value : U64) : U64.fromBeBytes value.toBeBytes = value := by
  have bound : value.val < 256 ^ 8 := value.isLt
  refine Fin.ext ?_
  simp only [U64.fromBeBytes, U64.toBeBytes, beNat_toBeBytes bound, Fin.val_ofNat]
  exact Nat.mod_eq_of_lt value.isLt

end Ferrum
