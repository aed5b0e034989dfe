import Mathlib.Data.List.Sort

namespace Ferrum

open List

variable {κ ν : Type}

/-- `slice::chunk_by` on the key: the runs of adjacent entries with one key. -/
def groupRuns [DecidableEq κ] : List (κ × ν) → List (κ × List ν)
  | [] => []
  | (key, value) :: rest =>
    match groupRuns rest with
    | [] => [(key, [value])]
    | (next, values) :: runs =>
      if key = next then (next, value :: values) :: runs else (key, [value]) :: (next, values) :: runs

theorem groupRuns_head [DecidableEq κ] (key : κ) (value : ν) (rest : List (κ × ν)) :
    ∃ values runs, groupRuns ((key, value) :: rest) = (key, values) :: runs := by
  rw [groupRuns]
  split
  · exact ⟨[value], [], rfl⟩
  · rename_i next values runs _
    split
    · rename_i same
      subst same
      exact ⟨_, _, rfl⟩
    · exact ⟨_, _, rfl⟩

section Sorted

variable [LinearOrder κ]

/-- On entries ordered by key, the runs have rising keys, each holds all values of its key, and every key has its run. -/
structure RunsOf (entries : List (κ × ν)) (runs : List (κ × List ν)) : Prop where
  ascending : runs.Pairwise fun a b => a.1 < b.1
  values : ∀ run ∈ runs, run.2 = (entries.filter (·.1 = run.1)).map Prod.snd
  keys : ∀ key, (∃ run ∈ runs, run.1 = key) ↔ ∃ entry ∈ entries, entry.1 = key

theorem groupRuns_sorted {entries : List (κ × ν)} (sorted : entries.Pairwise fun a b => a.1 ≤ b.1) :
    RunsOf entries (groupRuns entries) := by
  induction entries with
  | nil => exact ⟨.nil, nofun, by simp [groupRuns]⟩
  | cons entry rest ih =>
    obtain ⟨key, value⟩ := entry
    obtain ⟨below, tail⟩ := pairwise_cons.mp sorted
    have spec := ih tail
    rw [groupRuns]
    split
    · rename_i empty
      have nothing : rest = [] := by
        cases rest with
        | nil => rfl
        | cons entry rest =>
          obtain ⟨values, runs, nonempty⟩ := groupRuns_head entry.1 entry.2 rest
          rw [nonempty] at empty
          cases empty
      subst nothing
      exact ⟨pairwise_singleton _ _, by simp, by simp⟩
    · rename_i next values runs split
      rw [split] at spec
      obtain ⟨above, ascending⟩ := pairwise_cons.mp spec.ascending
      obtain ⟨first, inRest, firstKey⟩ := (spec.keys next).mp ⟨_, mem_cons_self, rfl⟩
      have low : key ≤ next := firstKey ▸ below first inRest
      have atLeast : ∀ other ∈ rest, next ≤ other.1 := by
        intro other member
        obtain ⟨run, inRuns, same⟩ := (spec.keys other.1).mpr ⟨other, member, rfl⟩
        rcases mem_cons.mp inRuns with rfl | later
        · exact same.le
        · exact same ▸ (above run later).le
      split
      · rename_i same
        subst same
        refine ⟨pairwise_cons.mpr ⟨above, ascending⟩, ?_, ?_⟩
        · intro run member
          rcases mem_cons.mp member with rfl | later
          · have old := spec.values (key, values) mem_cons_self
            simpa using old
          · rw [filter_cons_of_neg (by simpa using (above run later).ne)]
            exact spec.values run (mem_cons_of_mem _ later)
        · intro other
          have old := spec.keys other
          simp only [mem_cons, exists_eq_or_imp] at old ⊢
          rw [← old]
          tauto
      · rename_i different
        have less : key < next := lt_of_le_of_ne low different
        have absent : rest.filter (·.1 = key) = [] := by
          rw [filter_eq_nil_iff]
          intro other member
          simpa using (less.trans_le (atLeast other member)).ne'
        refine ⟨pairwise_cons.mpr ⟨?_, pairwise_cons.mpr ⟨above, ascending⟩⟩, ?_, ?_⟩
        · intro run member
          rcases mem_cons.mp member with rfl | later
          · exact less
          · exact less.trans (above run later)
        · intro run member
          rcases mem_cons.mp member with rfl | later
          · simp [absent]
          · have old := spec.values run later
            have bigger : key < run.1 := by
              rcases mem_cons.mp later with rfl | inRuns
              · exact less
              · exact less.trans (above run inRuns)
            rw [filter_cons_of_neg (by simpa using bigger.ne)]
            exact old
        · intro other
          have old := spec.keys other
          simp only [mem_cons, exists_eq_or_imp] at old ⊢
          rw [← old]

end Sorted

end Ferrum
