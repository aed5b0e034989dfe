namespace Ferrum

universe u

variable {α : Type u} {needs : α → List α → Prop} {log more : List α}

/-- Every entry of a log finds among the earlier entries what it needs. -/
def Founded (needs : α → List α → Prop) (log : List α) : Prop :=
  ∀ before entry after, log = before ++ entry :: after → needs entry before

theorem Founded.nil : Founded needs [] := by
  intro before entry after split
  exact absurd split (by simp)

theorem Founded.append (founded : Founded needs log)
    (grows : ∀ entry before between, needs entry before → needs entry (before ++ between))
    (added : ∀ entry ∈ more, needs entry log) : Founded needs (log ++ more) := by
  intro before entry after split
  rcases List.append_eq_append_iff.mp split with ⟨between, atBefore, atMore⟩ | ⟨between, atLog, atAfter⟩
  · rw [atBefore]
    exact grows entry log between (added entry (by rw [atMore]; simp))
  · cases between with
    | nil =>
      rw [List.nil_append] at atAfter
      rw [List.append_nil] at atLog
      rw [← atLog]
      exact added entry (by rw [← atAfter]; simp)
    | cons first rest =>
      rw [List.cons_append, List.cons.injEq] at atAfter
      exact founded before entry rest (by rw [atLog, atAfter.1])

end Ferrum
