import Ferrum.Lib.Checked

namespace Ferrum

structure BytesMut where
  bytes : List UInt8
  capacity : Nat
  within : bytes.length ≤ capacity

namespace BytesMut

/-- What a reallocation makes of a capacity that is too small for a length. It may give more. -/
abbrev Growth := Nat → Nat → Nat

/-- The buffer with other contents, for which it grows where they do not fit. -/
def put (growth : Growth) (buffer : BytesMut) (bytes : List UInt8) : BytesMut :=
  if fits : bytes.length ≤ buffer.capacity then ⟨bytes, buffer.capacity, fits⟩
  else ⟨bytes, max bytes.length (growth buffer.capacity bytes.length), Nat.le_max_left _ _⟩

/-- `clear`, which keeps the capacity. -/
def clear (buffer : BytesMut) : BytesMut := ⟨[], buffer.capacity, Nat.zero_le _⟩

def extendFromSlice (growth : Growth) (buffer : BytesMut) (source : List UInt8) : BytesMut :=
  buffer.put growth (buffer.bytes ++ source)

/-- `resize` to a length, with zeros behind what is there. -/
def resize (growth : Growth) (buffer : BytesMut) (length : Nat) : BytesMut :=
  buffer.put growth (buffer.bytes.take length ++ List.replicate (length - buffer.bytes.length) 0)

variable {growth : Growth} {buffer : BytesMut}

@[simp] theorem bytes_put (bytes : List UInt8) : (buffer.put growth bytes).bytes = bytes := by
  unfold put
  split
  · rfl
  · rfl

@[simp] theorem bytes_clear : buffer.clear.bytes = [] := rfl

@[simp] theorem bytes_extendFromSlice (source : List UInt8) :
    (buffer.extendFromSlice growth source).bytes = buffer.bytes ++ source := bytes_put _

@[simp] theorem bytes_resize (length : Nat) :
    (buffer.resize growth length).bytes =
      buffer.bytes.take length ++ List.replicate (length - buffer.bytes.length) 0 := bytes_put _

end BytesMut

namespace Checked

variable {ε : Type}

/-- `bytes[start..stop].copy_from_slice(source)`. -/
def copyRange (bytes : List UInt8) (start stop : Nat) (source : List UInt8) : Checked ε (List UInt8) :=
  if start ≤ stop ∧ stop ≤ bytes.length ∧ source.length = stop - start then .ok (copyFromSlice bytes start source)
  else .error .panic

theorem copyRange_of_le {bytes source : List UInt8} {start stop : Nat} (length : start + source.length = stop)
    (fits : stop ≤ bytes.length) : @copyRange ε bytes start stop source = .ok (copyFromSlice bytes start source) :=
  if_pos ⟨by omega, fits, by omega⟩

theorem copyRange_eq_ok {bytes source result : List UInt8} {start stop : Nat} :
    @copyRange ε bytes start stop source = .ok result ↔
      start ≤ stop ∧ stop ≤ bytes.length ∧ source.length = stop - start ∧ copyFromSlice bytes start source = result := by
  unfold copyRange
  split
  · rename_i fits
    simp [fits]
  · rename_i fits
    simp only [reduceCtorEq, false_iff]
    exact fun all => fits ⟨all.1, all.2.1, all.2.2.1⟩

end Checked

end Ferrum
