import Ferrum.Lib.Bytes

namespace Ferrum

/-- A computation that writes to a slice. It is stuck where the source would panic; an early return leaves the slice as written
so far. -/
abbrev SliceWriter (ε α : Type) := ExceptT ε (StateT (List UInt8) Option) α

namespace SliceWriter

variable {ε α β : Type}

def stuck : SliceWriter ε α := ExceptT.mk fun _ => none

def reject (error : ε) : SliceWriter ε α := throw error

def refuseWhen (bad : Prop) [Decidable bad] (error : ε) : SliceWriter ε Unit := if bad then reject error else pure ()

/-- `ok_or` with the early return. -/
def orReject (value : Option α) (error : ε) : SliceWriter ε α :=
  match value with
  | some value => pure value
  | none => reject error

def expect (value : Option α) : SliceWriter ε α :=
  match value with
  | some value => pure value
  | none => stuck

def length : SliceWriter ε Nat := ExceptT.mk fun bytes => some (.ok bytes.length, bytes)

/-- `copy_from_slice` into the range of the source's length; an assignment writes one byte. -/
def write (start : Nat) (source : List UInt8) : SliceWriter ε Unit :=
  ExceptT.mk fun bytes => if start + source.length ≤ bytes.length then some (.ok (), copyFromSlice bytes start source) else none

/-- `copy_from_slice` into the range `[start..]`, which has to have the source's length. -/
def writeFrom (start : Nat) (source : List UInt8) : SliceWriter ε Unit :=
  ExceptT.mk fun bytes => if start + source.length = bytes.length then some (.ok (), copyFromSlice bytes start source) else none

def fillZeros (stop : Nat) : SliceWriter ε Unit := write 0 (List.replicate stop 0)

/-- The range `[start..stop]`. -/
def read (start stop : Nat) : SliceWriter ε (List UInt8) :=
  ExceptT.mk fun bytes => if start ≤ stop ∧ stop ≤ bytes.length then some (.ok (slice bytes start stop), bytes) else none

/-- The range `[start..]`. -/
def readFrom (start : Nat) : SliceWriter ε (List UInt8) :=
  ExceptT.mk fun bytes => if start ≤ bytes.length then some (.ok (bytes.drop start), bytes) else none

/-- Works on the range `[..stop]`. -/
def onPrefix (stop : Nat) (writer : SliceWriter ε α) : SliceWriter ε α :=
  ExceptT.mk fun bytes =>
    if stop ≤ bytes.length then
      (writer.run (bytes.take stop)).map fun (result, front) => (result, front ++ bytes.drop stop)
    else none

/-- Works on the range `[..stop]`, if there is one. -/
def onPrefixOr (stop : Nat) (error : ε) (writer : SliceWriter ε α) : SliceWriter ε α :=
  ExceptT.mk fun bytes => if stop ≤ bytes.length then (onPrefix stop writer).run bytes else some (.error error, bytes)

/-- The range `[..stop]` of a slice that is only read. -/
def prefixOf (bytes : List UInt8) (stop : Nat) : SliceWriter ε (List UInt8) :=
  if stop ≤ bytes.length then pure (bytes.take stop) else stuck

/-- The computation ends, with this result and this slice. -/
def Runs (writer : SliceWriter ε α) (before after : List UInt8) (result : Except ε α) : Prop :=
  writer.run before = some (result, after)

namespace Runs

variable {before middle after : List UInt8}

theorem pure (value : α) : Runs (ε := ε) (Pure.pure value) before before (.ok value) := rfl

theorem reject (error : ε) : Runs (α := α) (SliceWriter.reject error) before before (.error error) := rfl

variable {value : α} {error : ε} {found : Option α} {start stop : Nat} {writer : SliceWriter ε α}

variable {first : SliceWriter ε α} {next : α → SliceWriter ε β} {result : Except ε β} {source : List UInt8}

theorem bind (runs : first.Runs before middle (.ok value)) (rest : (next value).Runs middle after result) :
    (first >>= next).Runs before after result := by
  change (first.run before >>= fun (found, bytes) => ExceptT.bindCont next found bytes) = _
  rw [runs]
  exact rest

theorem fails
    (runs : first.Runs before after (.error error)) : (first >>= next).Runs before after (.error error) := by
  change (first.run before >>= fun (found, bytes) => ExceptT.bindCont next found bytes) = _
  rw [runs]
  rfl

theorem refused {bad : Prop} [Decidable bad] {error : ε} (held : bad) :
    (SliceWriter.refuseWhen bad error).Runs before before (.error error) := by
  unfold SliceWriter.refuseWhen
  rw [if_pos held]
  rfl

theorem passed {bad : Prop} [Decidable bad] (failed : ¬bad) :
    (SliceWriter.refuseWhen bad error).Runs before before (.ok ()) := by
  unfold SliceWriter.refuseWhen
  rw [if_neg failed]
  rfl

theorem orReject_some (same : found = some value) :
    (SliceWriter.orReject found error).Runs before before (.ok value) := by
  subst same
  rfl

theorem orReject_none (same : found = none) :
    (SliceWriter.orReject found error).Runs before before (.error error) := by
  subst same
  rfl

theorem expect_some (same : found = some value) :
    Runs (ε := ε) (SliceWriter.expect found) before before (.ok value) := by
  subst same
  rfl

theorem length : Runs (ε := ε) SliceWriter.length before before (.ok before.length) := rfl

theorem write {start : Nat} {source : List UInt8} (fits : start + source.length ≤ before.length) :
    Runs (ε := ε) (SliceWriter.write start source) before (copyFromSlice before start source) (.ok ()) := if_pos fits

theorem writeFrom (fits : start + source.length = before.length) :
    Runs (ε := ε) (SliceWriter.writeFrom start source) before (copyFromSlice before start source) (.ok ()) := if_pos fits

theorem read (order : start ≤ stop) (inside : stop ≤ before.length) :
    Runs (ε := ε) (SliceWriter.read start stop) before before (.ok (slice before start stop)) := if_pos ⟨order, inside⟩

theorem readFrom (inside : start ≤ before.length) :
    Runs (ε := ε) (SliceWriter.readFrom start) before before (.ok (before.drop start)) := if_pos inside

theorem onPrefix {result : Except ε α} (inside : stop ≤ before.length)
    (runs : writer.Runs (before.take stop) after result) :
    (SliceWriter.onPrefix stop writer).Runs before (after ++ before.drop stop) result := by
  refine (if_pos inside).trans ?_
  rw [runs]
  rfl

theorem onPrefixOr {result : Except ε α} (inside : stop ≤ before.length)
    (runs : writer.Runs (before.take stop) after result) :
    (SliceWriter.onPrefixOr stop error writer).Runs before (after ++ before.drop stop) result :=
  (if_pos inside).trans (onPrefix inside runs)

theorem onPrefixOr_short (short : ¬stop ≤ before.length) :
    (SliceWriter.onPrefixOr stop error writer).Runs before before (.error error) := if_neg short

theorem prefixOf {bytes : List UInt8} (inside : stop ≤ bytes.length) :
    Runs (ε := ε) (SliceWriter.prefixOf bytes stop) before before (.ok (bytes.take stop)) := by
  unfold SliceWriter.prefixOf
  rw [if_pos inside]
  rfl

theorem extend {written output source : List UInt8} {start stop : Nat} (begins : written.length = start)
    (ends : start + source.length = stop) (fits : stop ≤ output.length) :
    Runs (ε := ε) (SliceWriter.write start source) (written ++ output.drop start) (written ++ source ++ output.drop stop)
      (.ok ()) := by
  subst begins ends
  have grown : copyFromSlice (written ++ output.drop written.length) written.length source =
      written ++ source ++ output.drop (written.length + source.length) := by
    unfold copyFromSlice
    rw [List.take_left, List.drop_append, List.drop_of_length_le (by omega), List.nil_append, List.drop_drop]
    congr 2
    omega
  rw [← grown]
  refine write ?_
  rw [List.length_append, List.length_drop]
  omega

theorem write_front {front back : List UInt8} {start : Nat} {source : List UInt8} (fits : start + source.length ≤ front.length) :
    Runs (ε := ε) (SliceWriter.write start source) (front ++ back) (copyFromSlice front start source ++ back) (.ok ()) := by
  rw [← copyFromSlice_append_left fits]
  exact write (by rw [List.length_append]; omega)

theorem write_next {front back : List UInt8} {n : Nat} {next : Unit → SliceWriter ε β} (size : front.length = n)
    (fits : start + source.length ≤ n)
    (rest : ∀ middle, middle = copyFromSlice front start source → middle.length = n →
      (next ()).Runs (middle ++ back) after result) :
    (SliceWriter.write start source >>= next).Runs (front ++ back) after result := by
  subst size
  exact (write_front fits).bind (rest _ rfl (length_copyFromSlice fits))

end Runs

/-- The computation writes a packet to the front of the slice and returns its length, or fails; the slice keeps its length. -/
def Produces (writer : SliceWriter ε Nat) (output : List UInt8) : Except ε (List UInt8) → Prop
  | .ok packet => packet.length ≤ output.length ∧
      writer.Runs output (packet ++ output.drop packet.length) (.ok packet.length)
  | .error error => ∃ after, after.length = output.length ∧ writer.Runs output after (.error error)

namespace Produces

variable {output : List UInt8}

theorem refused {bad : Prop} [Decidable bad] {error : ε} {next : Unit → SliceWriter ε Nat} (held : bad) :
    (refuseWhen bad error >>= next).Produces output (.error error) := ⟨output, rfl, (Runs.refused held).fails⟩

theorem step {first : SliceWriter ε α} {value : α} {next : α → SliceWriter ε Nat} {result : Except ε (List UInt8)}
    (runs : first.Runs output output (.ok value)) (rest : (next value).Produces output result) :
    (first >>= next).Produces output result := by
  cases result with
  | ok packet => exact ⟨rest.1, runs.bind rest.2⟩
  | error error =>
    obtain ⟨after, length, failed⟩ := rest
    exact ⟨after, length, runs.bind failed⟩

end Produces

end SliceWriter

end Ferrum
