import Ferrum.Lib.Checked

namespace Ferrum

/-- A fallible computation on a state, which it leaves changed also when it stops early. -/
def Stateful (σ ε α : Type) : Type := σ → Checked ε α × σ

namespace Stateful

variable {σ ε α β : Type}

instance : Monad (Stateful σ ε) where
  pure value := fun state => (.ok value, state)
  bind run next := fun state =>
    match run state with
    | (.ok value, after) => next value after
    | (.error halt, after) => (.error halt, after)

def lift (run : Checked ε α) : Stateful σ ε α := fun state => (run, state)

def fail (error : ε) : Stateful σ ε α := lift (Checked.fail error)

def failIf (bad : Prop) [Decidable bad] (error : ε) : Stateful σ ε Unit := lift (Checked.failIf bad error)

def assert (good : Prop) [Decidable good] : Stateful σ ε Unit := lift (Checked.assert good)

/-- A step made as often as told, each on what the one before left. -/
def iterate (turn : α → Stateful σ ε α) : Nat → α → Stateful σ ε α
  | 0, value => pure value
  | count + 1, value => do
    let next ← turn value
    iterate turn count next

section Equations

variable {run : Stateful σ ε α} {next other : α → Stateful σ ε β} {state after : σ}

theorem bind_apply (run : Stateful σ ε α) (next : α → Stateful σ ε β) (state : σ) : (run >>= next) state =
    match run state with
    | (.ok value, after) => next value after
    | (.error halt, after) => (.error halt, after) := rfl

theorem bind_ok {value : α} (first : run state = (.ok value, after)) : (run >>= next) state = next value after := by
  rw [bind_apply, first]

theorem bind_error {halt : Halt ε} (first : run state = (.error halt, after)) :
    (run >>= next) state = (.error halt, after) := by
  rw [bind_apply, first]

theorem bind_congr (same : ∀ value, next value = other value) : run >>= next = run >>= other := by
  rw [funext same]

theorem pure_bind (value : α) (next : α → Stateful σ ε β) : (pure value : Stateful σ ε α) >>= next = next value := rfl

theorem lift_ok (value : α) : lift (.ok value) = (pure value : Stateful σ ε α) := rfl

theorem assert_of {good : Prop} [Decidable good] (held : good) : assert good = (pure () : Stateful σ ε Unit) := by
  unfold assert Checked.assert
  rw [if_pos held]
  rfl

theorem failIf_not {bad : Prop} [Decidable bad] {error : ε} (fine : ¬bad) :
    failIf bad error = (pure () : Stateful σ ε Unit) := by
  unfold failIf Checked.failIf
  rw [if_neg fine]
  rfl

theorem failIf_of {bad : Prop} [Decidable bad] {error : ε} (held : bad) (state : σ) :
    failIf bad error state = (Checked.fail error, state) := by
  unfold failIf Checked.failIf
  rw [if_pos held]
  rfl

theorem bind_eq_ok {value : β} (done : (run >>= next) state = (.ok value, after)) :
    ∃ first middle, run state = (.ok first, middle) ∧ next first middle = (.ok value, after) := by
  rw [bind_apply] at done
  cases same : run state with
  | mk result middle =>
    rw [same] at done
    cases result with
    | ok first => exact ⟨first, middle, rfl, done⟩
    | error halt => cases done

theorem failIf_eq_ok {bad : Prop} [Decidable bad] {error : ε} {value : Unit}
    (done : failIf bad error state = (.ok value, after)) : ¬bad ∧ state = after := by
  by_cases held : bad
  · cases (failIf_of held state).symm.trans done
  · rw [failIf_not held] at done
    cases done
    exact ⟨held, rfl⟩

end Equations

/-- From the state the computation ends well, or stops early as told. -/
def Ensures (run : Stateful σ ε α) (state : σ) (good : α → σ → Prop) (bad : Halt ε → σ → Prop) : Prop :=
  match run state with
  | (.ok value, after) => good value after
  | (.error halt, after) => bad halt after

section Rules

variable {run : Stateful σ ε α} {next : α → Stateful σ ε β} {state : σ} {good good' : α → σ → Prop}
  {bad bad' : Halt ε → σ → Prop} {last : β → σ → Prop}

theorem Ensures.of_ok (held : ∀ value after, run state = (.ok value, after) → good value after) :
    run.Ensures state good fun _ _ => True := by
  unfold Ensures
  cases same : run state with
  | mk result after =>
    cases result with
    | ok value => exact held value after same
    | error halt => trivial

theorem Ensures.ok {value : α} {after : σ} (ensures : run.Ensures state good bad) (same : run state = (.ok value, after)) :
    good value after := by
  unfold Ensures at ensures
  rwa [same] at ensures

theorem Ensures.error {halt : Halt ε} {after : σ} (ensures : run.Ensures state good bad)
    (same : run state = (.error halt, after)) : bad halt after := by
  unfold Ensures at ensures
  rwa [same] at ensures

theorem Ensures.bind (ensures : run.Ensures state (fun value after => (next value).Ensures after last bad) bad) :
    (run >>= next).Ensures state last bad := by
  unfold Ensures at ensures ⊢
  rw [bind_apply]
  cases same : run state with
  | mk result after =>
    rw [same] at ensures
    cases result with
    | ok value => exact ensures
    | error halt => exact ensures

theorem Ensures.mono (ensures : run.Ensures state good bad) (better : ∀ value after, good value after → good' value after)
    (worse : ∀ halt after, bad halt after → bad' halt after) : run.Ensures state good' bad' := by
  unfold Ensures at ensures ⊢
  cases same : run state with
  | mk result after =>
    rw [same] at ensures
    cases result with
    | ok value => exact better value after ensures
    | error halt => exact worse halt after ensures

theorem Ensures.failIf {wrong : Prop} [Decidable wrong] {error : ε} {good : Unit → σ → Prop}
    (held : ¬wrong → good () state) (stopped : wrong → bad (.error error) state) :
    (Stateful.failIf wrong error).Ensures state good bad := by
  by_cases is : wrong
  · unfold Ensures
    rw [failIf_of is]
    exact stopped is
  · unfold Ensures
    rw [failIf_not is]
    exact held is

end Rules

end Stateful

end Ferrum
