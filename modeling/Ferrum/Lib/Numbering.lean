import Mathlib.Data.List.Range

namespace Ferrum

variable {State Call Outcome : Type}

def outcomes (step : State → Call → State × Outcome) : State → List Call → List Outcome
  | _, [] => []
  | state, call :: rest => (step state call).2 :: outcomes step (step state call).1 rest

def settled (step : State → Call → State × Outcome) (state : State) (calls : List Call) : State :=
  calls.foldl (fun state call => (step state call).1) state

theorem outcomes_append (step : State → Call → State × Outcome) (state : State) (calls more : List Call) :
    outcomes step state (calls ++ more) = outcomes step state calls ++ outcomes step (settled step state calls) more := by
  induction calls generalizing state with
  | nil => rfl
  | cons call rest ih => exact congrArg ((step state call).2 :: ·) (ih (step state call).1)

/-- Each successful call takes the number that the state counts to and moves the count on by
one; a call that fails leaves the state as it was. -/
structure Numbers (step : State → Call → State × Outcome) (count : State → Nat) (number : Outcome → Option Nat) : Prop where
  failed : ∀ state call, number (step state call).2 = none → (step state call).1 = state
  taken : ∀ state call taken, number (step state call).2 = some taken →
    taken = count state ∧ count (step state call).1 = taken + 1

namespace Numbers

variable {step : State → Call → State × Outcome} {count : State → Nat} {number : Outcome → Option Nat}

section

variable (numbers : Numbers step count number)
include numbers

theorem range (state : State) (calls : List Call) : (outcomes step state calls).filterMap number =
      List.range' (count state) ((outcomes step state calls).filterMap number).length := by
  induction calls generalizing state with
  | nil => rfl
  | cons call rest ih =>
    have later := ih (step state call).1
    rw [outcomes]
    cases result : number (step state call).2 with
    | none =>
      rw [numbers.failed state call result] at later ⊢
      rw [List.filterMap_cons_none result]
      exact later
    | some taken =>
      obtain ⟨here, next⟩ := numbers.taken state call taken result
      rw [List.filterMap_cons_some result, List.length_cons, List.range'_succ]
      rw [next] at later
      rw [← here]
      exact congrArg (taken :: ·) later

theorem count_settled (state : State) (calls : List Call) :
    count (settled step state calls) = count state + ((outcomes step state calls).filterMap number).length := by
  induction calls generalizing state with
  | nil => rfl
  | cons call rest ih =>
    have later := ih (step state call).1
    rw [outcomes]
    change count (settled step (step state call).1 rest) = _
    cases result : number (step state call).2 with
    | none =>
      rw [List.filterMap_cons_none result]
      rw [numbers.failed state call result] at later ⊢
      exact later
    | some taken =>
      obtain ⟨here, next⟩ := numbers.taken state call taken result
      rw [List.filterMap_cons_some result, List.length_cons]
      rw [next] at later
      omega

theorem bounds {limit : Nat} (bounded : ∀ state, count state ≤ limit)
    {state : State} {calls : List Call} {taken : Nat}
    (member : taken ∈ (outcomes step state calls).filterMap number) : count state ≤ taken ∧ taken < limit := by
  have below := bounded (settled step state calls)
  rw [numbers.count_settled state calls] at below
  rw [numbers.range state calls, List.mem_range'_1] at member
  omega

theorem exhausted {limit : Nat} (bounded : ∀ state, count state ≤ limit)
    {state : State} (full : count state = limit) (calls : List Call) :
    (outcomes step state calls).filterMap number = [] := by
  refine List.eq_nil_iff_forall_not_mem.mpr ?_
  intro taken member
  have between := numbers.bounds bounded member
  omega

end

end Numbers

end Ferrum
