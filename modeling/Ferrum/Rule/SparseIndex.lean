import Mathlib.Algebra.Group.Nat.Defs
import Ferrum.Lib.GroupRuns
import Ferrum.Lib.SortedSlice

namespace Ferrum.Rule

open List

/-- Closed failures of the compilation of a rule or match set. -/
inductive RuleCompileError where
  | emptyMatcher | emptyField | duplicateField | duplicateValue | conflictingFields | invalidDomain | nonCanonicalCidr
  | allocation | resourceLimit | indexOverflow | invalidId | invalidTag | duplicateRuleSet | invalidGeneration | internal
deriving DecidableEq, Repr

/-- `checked_add` on `usize`. -/
def checkedAdd (total count : Nat) : Except RuleCompileError Nat :=
  if total + count < 2 ^ 64 then .ok (total + count) else .error .resourceLimit

/-- `u32::try_from`. -/
def indexU32 (index : Nat) : Except RuleCompileError Nat :=
  if index < 2 ^ 32 then .ok index else .error .indexOverflow

structure SparsePosting (K : Type) where
  key : K
  candidates : List Nat

/-- Postings of one key each, in the order of the keys. -/
structure SparseValueIndex (K : Type) where
  postings : List (SparsePosting K)

structure SparseValueIndexBuilder (K : Type) where
  entries : List (K × Nat)

namespace SparseValueIndexBuilder

variable {K : Type}

def new : SparseValueIndexBuilder K := ⟨[]⟩

def tryAdd (builder : SparseValueIndexBuilder K) (key : K) (candidate : Nat) :
    Except RuleCompileError (SparseValueIndexBuilder K) := do
  let candidate ← indexU32 candidate
  return ⟨builder.entries ++ [(key, candidate)]⟩

variable [LinearOrder K]

/-- The order that `build` sorts by. -/
def entryLe (left right : K × Nat) : Prop := left.1 < right.1 ∨ left.1 = right.1 ∧ left.2 ≤ right.2

instance : DecidableRel (entryLe (K := K)) := fun _ _ => inferInstanceAs (Decidable (_ ∨ _))

instance : Std.Total (entryLe (K := K)) where
  total left right := by
    rcases lt_trichotomy left.1 right.1 with less | same | more
    · exact .inl (.inl less)
    · rcases Nat.le_total left.2 right.2 with le | ge
      · exact .inl (.inr ⟨same, le⟩)
      · exact .inr (.inr ⟨same.symm, ge⟩)
    · exact .inr (.inl more)

instance : IsTrans (K × Nat) (entryLe (K := K)) where
  trans left middle right := by
    rintro (less | ⟨same, le⟩) (less' | ⟨same', le'⟩)
    · exact .inl (less.trans less')
    · exact .inl (same' ▸ less)
    · exact .inl (same ▸ less')
    · exact .inr ⟨same.trans same', le.trans le'⟩

def build (builder : SparseValueIndexBuilder K) : SparseValueIndex K :=
  ⟨(groupRuns (builder.entries.insertionSort entryLe)).map fun run => ⟨run.1, dedupAdjacent run.2⟩⟩

end SparseValueIndexBuilder

variable {K : Type} [LinearOrder K]

namespace SparseValueIndex

/-- The posting list that a visit of one key is given, if there is one. -/
def visitCandidateList (index : SparseValueIndex K) (key : K) : List (List Nat) :=
  match searchSorted (index.postings.map SparsePosting.key) key with
  | some i => (index.postings[i]?.map SparsePosting.candidates).toList
  | none => []

/-- The candidates that a visit of one key is given. -/
def visit (index : SparseValueIndex K) (key : K) : List Nat := (index.visitCandidateList key).flatten

end SparseValueIndex

def Ascending (candidates : List Nat) : Prop := candidates.Pairwise (· < ·)

theorem ascending_dedupAdjacent {values : List Nat} (sorted : values.Pairwise (· ≤ ·)) : Ascending (dedupAdjacent values) := by
  have distinct := nodup_dedupAdjacent (fun _ _ => Nat.le_antisymm) sorted
  have ordered := sorted.sublist (dedupAdjacent_sublist values)
  exact (ordered.and distinct).imp fun both => lt_of_le_of_ne both.1 both.2

/-- An index that answers for the entries: its keys rise, its lists rise, and the list of a key holds its candidates. -/
structure SparseValueIndex.Answers (index : SparseValueIndex K) (entries : List (K × Nat)) : Prop where
  keys : (index.postings.map SparsePosting.key).Pairwise (· < ·)
  ascending : ∀ posting ∈ index.postings, Ascending posting.candidates
  exact : ∀ posting ∈ index.postings, ∀ candidate,
    candidate ∈ posting.candidates ↔ (posting.key, candidate) ∈ entries
  complete : ∀ entry ∈ entries, ∃ posting ∈ index.postings, posting.key = entry.1

theorem SparseValueIndexBuilder.build_answers (builder : SparseValueIndexBuilder K) :
    builder.build.Answers builder.entries := by
  have order := pairwise_insertionSort (entryLe (K := K)) builder.entries
  have same : ∀ entry, entry ∈ builder.entries.insertionSort entryLe ↔ entry ∈ builder.entries :=
    fun entry => mem_insertionSort entryLe
  have byKey : (builder.entries.insertionSort entryLe).Pairwise fun a b => a.1 ≤ b.1 :=
    order.imp fun le => le.elim le_of_lt fun both => both.1.le
  have runs := groupRuns_sorted byKey
  refine ⟨?_, ?_, ?_, ?_⟩
  · simp only [build, map_map]
    exact pairwise_map.mpr (runs.ascending.imp fun less => less)
  · intro posting member
    obtain ⟨run, inRuns, rfl⟩ := mem_map.mp member
    refine ascending_dedupAdjacent ?_
    rw [runs.values run inRuns, pairwise_map]
    refine (List.Pairwise.and_mem.mp (order.filter (fun entry => entry.1 = run.1))).imp ?_
    rintro a b ⟨inA, inB, less | ⟨-, le⟩⟩
    · have keyA : a.1 = run.1 := by simpa using (mem_filter.mp inA).2
      have keyB : b.1 = run.1 := by simpa using (mem_filter.mp inB).2
      rw [keyA, keyB] at less
      exact absurd less (lt_irrefl _)
    · exact le
  · intro posting member candidate
    obtain ⟨run, inRuns, rfl⟩ := mem_map.mp member
    simp only [mem_dedupAdjacent, runs.values run inRuns, mem_map, mem_filter, same, decide_eq_true_eq]
    constructor
    · rintro ⟨entry, ⟨inside, key⟩, rfl⟩
      rw [← key]
      exact inside
    · intro inside
      exact ⟨_, ⟨inside, rfl⟩, rfl⟩
  · intro entry member
    obtain ⟨run, inRuns, key⟩ := (runs.keys entry.1).mpr ⟨entry, (same entry).mpr member, rfl⟩
    exact ⟨_, mem_map_of_mem inRuns, key⟩

theorem SparseValueIndex.Answers.visitCandidateList {index : SparseValueIndex K} {entries : List (K × Nat)}
    (answers : index.Answers entries) (key : K) :
    (∀ list ∈ index.visitCandidateList key, Ascending list) ∧
      ∀ candidate, candidate ∈ index.visit key ↔ (key, candidate) ∈ entries := by
  have sound := searchSorted_isSome answers.keys key
  unfold SparseValueIndex.visit SparseValueIndex.visitCandidateList
  split
  · rename_i i found
    have here : (index.postings.map SparsePosting.key)[i]? = some key := by
      simp only [searchSorted] at found
      split at found
      · rename_i at_i
        cases found
        exact at_i
      · cases found
    rw [List.getElem?_map, Option.map_eq_some_iff] at here
    obtain ⟨posting, at_i, rfl⟩ := here
    have member := mem_of_getElem? at_i
    rw [at_i]
    refine ⟨?_, ?_⟩
    · simpa using answers.ascending posting member
    · simpa using answers.exact posting member
  · rename_i missing
    refine ⟨fun list absent => absurd absent not_mem_nil, fun candidate => ?_⟩
    rw [missing] at sound
    simp only [flatten_nil, not_mem_nil, false_iff]
    intro inside
    obtain ⟨posting, member, same⟩ := answers.complete _ inside
    exact absurd (sound.mpr (mem_map.mpr ⟨posting, member, same⟩)) (by simp)

theorem SparseValueIndexBuilder.visit_build (builder : SparseValueIndexBuilder K) (key : K) :
    (∀ list ∈ builder.build.visitCandidateList key, Ascending list) ∧
      ∀ candidate, candidate ∈ builder.build.visit key ↔ (key, candidate) ∈ builder.entries :=
  builder.build_answers.visitCandidateList key

end Ferrum.Rule
