import Mathlib.Order.Basic

namespace Ferrum

variable {ε α β : Type}

def rejectIf (bad : Prop) [Decidable bad] (error : ε) : Except ε Unit := if bad then .error error else .ok ()

/-- `ok_or`. -/
def orError (value : Option α) (error : ε) : Except ε α :=
  match value with
  | some value => .ok value
  | none => .error error

theorem rejectIf_eq_ok {bad : Prop} [Decidable bad] {error : ε} {result : Unit} :
    rejectIf bad error = .ok result ↔ ¬bad := by
  unfold rejectIf
  split
  · rename_i held
    simp [held]
  · rename_i held
    simp [held]

theorem bind_eq_ok {first : Except ε α} {next : α → Except ε β} {result : β} :
    (first >>= next) = .ok result ↔ ∃ value, first = .ok value ∧ next value = .ok result := by
  cases first with
  | error error | ok value => simp [bind, Except.bind]

theorem mapError_eq_ok {δ : Type} {first : Except ε α} {f : ε → δ} {result : α} :
    first.mapError f = .ok result ↔ first = .ok result := by
  cases first with
  | error error | ok value => simp [Except.mapError]

/-- Every error that a computation can end with is an allowed one. -/
def OnlyFails {ε α : Type} (result : Except ε α) (allowed : ε → Prop) : Prop :=
  ∀ error, result = .error error → allowed error

namespace OnlyFails

variable {ε δ α β : Type} {allowed : ε → Prop}

theorem ok (value : α) : OnlyFails (.ok value) allowed := by
  intro error same
  cases same

variable {failure : ε} {first : Except ε α}

theorem error (held : allowed failure) : OnlyFails (α := α) (.error failure) allowed := by
  intro error same
  cases same
  exact held

theorem reject {bad : Prop} [Decidable bad] (held : bad → allowed failure) :
    OnlyFails (rejectIf bad failure) allowed := by
  unfold rejectIf
  split
  · rename_i condition
    exact error (held condition)
  · exact ok ()

theorem bind {next : α → Except ε β} (failsFirst : OnlyFails first allowed)
    (failsNext : ∀ value, first = .ok value → OnlyFails (next value) allowed) : OnlyFails (first >>= next) allowed := by
  cases first with
  | error failure => exact error (failsFirst failure rfl)
  | ok value => exact failsNext value rfl

theorem guarded {bad : Prop} [Decidable bad] {next : Unit → Except ε α} (held : bad → allowed failure)
    (failsNext : ¬bad → OnlyFails (next ()) allowed) : OnlyFails (rejectIf bad failure >>= next) allowed :=
  (reject held).bind fun _ passed => failsNext (rejectIf_eq_ok.mp passed)

theorem map (f : α → β) (fails : OnlyFails first allowed) : OnlyFails (first.map f) allowed := by
  cases first with
  | error failure => exact error (fails failure rfl)
  | ok value => exact ok _

theorem mapError {permitted : δ → Prop} (f : ε → δ)
    (fails : OnlyFails first fun failure => permitted (f failure)) : OnlyFails (first.mapError f) permitted := by
  cases first with
  | error failure => exact error (fails failure rfl)
  | ok value => exact ok value

theorem mono {result : Except ε α} {permitted : ε → Prop} (fails : OnlyFails result allowed)
    (weaker : ∀ failure, allowed failure → permitted failure) : OnlyFails result permitted :=
  fun failure same => weaker failure (fails failure same)

end OnlyFails

theorem rejectIf_bind {ε α : Type} {bad : Prop} [Decidable bad] {failure : ε} {next : Unit → Except ε α} (fine : ¬bad) :
    (rejectIf bad failure >>= next) = next () := by
  unfold rejectIf
  rw [if_neg fine]
  rfl

end Ferrum
