import Ferrum.Lib.Bytes
import Ferrum.Lib.Checks

namespace Ferrum

/-- Why a computation stops early: it panics, or it returns an error. -/
inductive Halt (ε : Type)
  | panic
  | error (error : ε)
  deriving DecidableEq, Repr

/-- A fallible computation whose index, slice, subtraction and `expect` steps can panic. -/
abbrev Checked (ε α : Type) := Except (Halt ε) α

namespace Checked

variable {ε α β : Type}

def fail (error : ε) : Checked ε α := .error (.error error)

def failIf (bad : Prop) [Decidable bad] (error : ε) : Checked ε Unit := if bad then fail error else .ok ()

def okOr (value : Option α) (error : ε) : Checked ε α :=
  match value with
  | some value => .ok value
  | none => fail error

def expect (value : Option α) : Checked ε α :=
  match value with
  | some value => .ok value
  | none => .error .panic

/-- A call that cannot panic. -/
def ofExcept (run : Except ε α) : Checked ε α := Except.mapError .error run

/-- `map_err`, which a panic passes by. -/
def mapError {δ : Type} (run : Checked ε α) (f : ε → δ) : Checked δ α :=
  match run with
  | .ok value => .ok value
  | .error .panic => .error .panic
  | .error (.error error) => fail (f error)

def assert (good : Prop) [Decidable good] : Checked ε Unit := if good then .ok () else .error .panic

def index (values : List α) (i : Nat) : Checked ε α := expect values[i]?

/-- `bytes[start..stop]`. -/
def slicing (bytes : List UInt8) (start stop : Nat) : Checked ε (List UInt8) :=
  if start ≤ stop ∧ stop ≤ bytes.length then .ok (slice bytes start stop) else .error .panic

/-- `bytes.get(start..stop)`. -/
def getRange (bytes : List UInt8) (start stop : Nat) : Option (List UInt8) :=
  if start ≤ stop ∧ stop ≤ bytes.length then some (slice bytes start stop) else none

def Safe (run : Checked ε α) : Prop := run ≠ .error .panic

theorem safe_ok (value : α) : @Safe ε α (.ok value) := nofun

theorem safe_fail (error : ε) : @Safe ε α (fail error) := nofun

theorem safe_failIf (bad : Prop) [Decidable bad] (error : ε) : Safe (failIf bad error) := by
  unfold failIf
  split
  · exact safe_fail error
  · exact safe_ok ()

theorem safe_okOr (value : Option α) (error : ε) : Safe (okOr value error) := by
  cases value with
  | none => exact safe_fail error
  | some value => exact safe_ok value

theorem safe_ofExcept (run : Except ε α) : Safe (ofExcept run) := by
  cases run with
  | error error => exact safe_fail error
  | ok value => exact safe_ok value

variable {values : List α} {i start stop : Nat} {bytes : List UInt8} {run : Checked ε α}

theorem safe_index (fits : i < values.length) : @Safe ε α (index values i) := by
  unfold index
  rw [List.getElem?_eq_getElem fits]
  exact safe_ok _

theorem safe_slicing (order : start ≤ stop) (fits : stop ≤ bytes.length) : @Safe ε _ (slicing bytes start stop) := by
  unfold slicing
  rw [if_pos ⟨order, fits⟩]
  exact safe_ok _

theorem safe_assert {good : Prop} [Decidable good] (held : good) : @Safe ε _ (assert good) := by
  unfold assert
  rw [if_pos held]
  exact safe_ok _

theorem Safe.bind {next : α → Checked ε β} (first : Safe run)
    (rest : ∀ value, run = .ok value → Safe (next value)) : Safe (run >>= next) := by
  cases run with
  | error halt =>
    cases halt with
    | panic => exact absurd rfl first
    | error error => exact safe_fail error
  | ok value => exact rest value rfl

theorem Safe.mapError {δ : Type} (first : Safe run) (f : ε → δ) : Safe (run.mapError f) := by
  cases run with
  | error halt =>
    cases halt with
    | panic => exact absurd rfl first
    | error error => exact safe_fail (f error)
  | ok value => exact safe_ok value

variable {error : ε} {result value : α} {range : List UInt8}

theorem failIf_eq_ok {bad : Prop} [Decidable bad] {result : Unit} : failIf bad error = .ok result ↔ ¬bad := by
  unfold failIf
  split
  · rename_i held
    simp [fail, held]
  · rename_i held
    simp [held]

theorem okOr_eq_ok {value : Option α} : okOr value error = .ok result ↔ value = some result := by
  cases value with
  | none => simp [okOr, fail]
  | some value => simp [okOr]

theorem index_eq_ok : @index ε α values i = .ok value ↔ values[i]? = some value := by
  unfold index expect
  cases values[i]? with
  | none => simp
  | some found => simp

theorem slicing_of_le (order : start ≤ stop) (fits : stop ≤ bytes.length) :
    @slicing ε bytes start stop = .ok (slice bytes start stop) := if_pos ⟨order, fits⟩

theorem index_of_lt (fits : i < values.length) : @index ε α values i = .ok values[i] := by
  unfold index
  rw [List.getElem?_eq_getElem fits]
  rfl

theorem index_append (front back : List α)
    (shape : values = front ++ value :: back) (length : front.length = i) : @index ε α values i = .ok value := by
  subst shape length
  unfold index
  rw [List.getElem?_append_right (Nat.le_refl _), Nat.sub_self, List.getElem?_cons_zero]
  rfl

theorem slicing_append (front middle back : List UInt8)
    (shape : bytes = front ++ middle ++ back) (first : front.length = start) (last : start + middle.length = stop) :
    @slicing ε bytes start stop = .ok middle := by
  subst shape first last
  rw [slicing_of_le (by omega) (by simp), slice_append_middle]

theorem getRange_append (front middle back : List UInt8)
    (shape : bytes = front ++ middle ++ back) (first : front.length = start) (last : start + middle.length = stop) :
    getRange bytes start stop = some middle := by
  subst shape first last
  unfold getRange
  rw [if_pos ⟨by omega, by simp⟩, slice_append_middle]

theorem checked_mapError_eq_ok {δ : Type} {f : ε → δ} : run.mapError f = .ok result ↔ run = .ok result := by
  cases run with
  | error halt =>
    cases halt with
    | panic => simp [mapError]
    | error error => simp [mapError, fail]
  | ok value => simp [mapError]

theorem slicing_eq_ok :
    @slicing ε bytes start stop = .ok range ↔ start ≤ stop ∧ stop ≤ bytes.length ∧ slice bytes start stop = range := by
  unfold slicing
  split
  · rename_i fits
    simp [fits]
  · rename_i fits
    simp only [reduceCtorEq, false_iff]
    exact fun both => fits ⟨both.1, both.2.1⟩

theorem getRange_eq_some :
    getRange bytes start stop = some range ↔ start ≤ stop ∧ stop ≤ bytes.length ∧ slice bytes start stop = range := by
  unfold getRange
  split
  · rename_i fits
    simp [fits]
  · rename_i fits
    simp only [reduceCtorEq, false_iff]
    exact fun both => fits ⟨both.1, both.2.1⟩

end Checked

end Ferrum
