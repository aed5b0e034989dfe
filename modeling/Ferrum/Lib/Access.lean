import Ferrum.Lib.Bytes
import Ferrum.Lib.Checks

namespace Ferrum

/-- A fallible computation that an access out of range stops, as a panic does. -/
abbrev Access (ε α : Type) := ExceptT ε Option α

namespace Access

variable {ε δ α β : Type}

/-- A panic, or a loop that has not ended in its turns. -/
def stuck : Access ε α := ExceptT.mk none

def reject (error : ε) : Access ε α := ExceptT.mk (some (.error error))

def mapError (f : ε → δ) (access : Access ε α) : Access δ α := ExceptT.mk (access.run.map (Except.mapError f))

def readByte (bytes : List UInt8) (i : Nat) : Access ε UInt8 :=
  match bytes[i]? with
  | some byte => pure byte
  | none => stuck

/-- The range `[start..stop]`. -/
def readSlice (bytes : List UInt8) (start stop : Nat) : Access ε (List UInt8) :=
  if start ≤ stop ∧ stop ≤ bytes.length then pure (slice bytes start stop) else stuck

/-- The range `[start..]`. -/
def readFrom (bytes : List UInt8) (start : Nat) : Access ε (List UInt8) :=
  if start ≤ bytes.length then pure (bytes.drop start) else stuck

def readU16 (bytes : List UInt8) (i : Nat) : Access ε U16 := do
  let high ← readByte bytes i
  let low ← readByte bytes (i + 1)
  return U16.fromBeBytes high low

/-- The computation stays in range and ends as the total one does. -/
def Total (access : Access ε α) (result : Except ε α) : Prop := access.run = some result

theorem Total.pure (value : α) : Total (ε := ε) (Pure.pure value) (.ok value) := rfl

theorem Total.reject (error : ε) : Total (α := α) (Access.reject error) (.error error) := rfl

variable {access : Access ε α} {bytes : List UInt8}

variable {result : Except ε α} {next : α → Access ε β} {i start : Nat}

theorem Total.bind {after : α → Except ε β}
    (first : access.Total result) (rest : ∀ value, result = .ok value → (next value).Total (after value)) :
    (access >>= next).Total (result >>= after) := by
  have same : access = ExceptT.mk (some result) := first
  subst same
  cases result with
  | error error => rfl
  | ok value => exact rest value rfl

theorem Total.read {value : α} {after : Except ε β}
    (first : access.Total (.ok value)) (rest : (next value).Total after) : (access >>= next).Total after :=
  (congrArg (fun access : Option (Except ε α) => (ExceptT.mk access >>= next).run) first).trans rest

theorem Total.lift (result : Except ε α) : (liftM result : Access ε α).Total result := rfl

theorem Total.unless {bad : Prop} [Decidable bad] {error : ε} {next : Unit → Access ε β} {after : Unit → Except ε β}
    (rest : ¬bad → (next ()).Total (after ())) :
    ((liftM (rejectIf bad error) : Access ε Unit) >>= next).Total (rejectIf bad error >>= after) :=
  (Total.lift (rejectIf bad error)).bind fun _ passed => rest (rejectIf_eq_ok.mp passed)

theorem Total.ite {condition : Prop} [Decidable condition] {first second : Access ε α} {left right : Except ε α}
    (held : condition → first.Total left) (failed : ¬condition → second.Total right) :
    (if condition then first else second).Total (if condition then left else right) := by
  split
  · rename_i yes
    exact held yes
  · rename_i no
    exact failed no

theorem Total.mapError (f : ε → δ) (total : access.Total result) :
    (access.mapError f).Total (result.mapError f) := congrArg (Option.map (Except.mapError f)) total

theorem Total.readByte (inside : i < bytes.length) :
    Total (ε := ε) (Access.readByte bytes i) (.ok (byte bytes i)) := by
  have found : bytes[i]? = some (byte bytes i) := by
    rw [byte, List.getD_eq_getElem?_getD, List.getElem?_eq_getElem inside]
    rfl
  unfold Access.readByte
  rw [found]
  rfl

theorem Total.readSlice {stop : Nat} (order : start ≤ stop) (inside : stop ≤ bytes.length) :
    Total (ε := ε) (Access.readSlice bytes start stop) (.ok (slice bytes start stop)) := by
  unfold Access.readSlice
  rw [if_pos ⟨order, inside⟩]
  rfl

theorem Total.readFrom (inside : start ≤ bytes.length) :
    Total (ε := ε) (Access.readFrom bytes start) (.ok (bytes.drop start)) := by
  unfold Access.readFrom
  rw [if_pos inside]
  rfl

theorem Total.readU16 (inside : i + 1 < bytes.length) :
    Total (ε := ε) (Access.readU16 bytes i) (.ok (u16At bytes i)) :=
  (Total.readByte (Nat.lt_of_succ_lt inside)).read ((Total.readByte inside).read rfl)

end Access

theorem rejectIf_or {ε α : Type} {first second : Prop} [Decidable first] [Decidable second] (error : ε)
    (next : Unit → Except ε α) :
    (rejectIf (first ∨ second) error >>= next) = (rejectIf first error >>= fun _ => rejectIf second error >>= next) := by
  unfold rejectIf
  by_cases held : first
  · rw [if_pos held, if_pos (.inl held)]
    rfl
  · rw [if_neg held]
    by_cases other : second
    · rw [if_pos other, if_pos (.inr other)]
      rfl
    · rw [if_neg other, if_neg (not_or.mpr ⟨held, other⟩)]
      rfl

end Ferrum
