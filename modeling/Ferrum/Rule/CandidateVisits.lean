import Ferrum.Rule.MatchSetSpec
import Ferrum.Rule.Snapshot

namespace Ferrum.Rule

open Ferrum.Core (CanonicalDomain labelSuffixes)
open Ferrum.Tun (IpAddr)

variable {Automaton : Type} {engine : AhoCorasick Automaton}

/-- The visit that is given every candidate rather than the posting lists. -/
def KeywordCandidateIndex.visit (engine : AhoCorasick Automaton) (index : KeywordCandidateIndex Automaton)
    (domain : List UInt8) : List Nat :=
  match index.matcher with
  | some automaton =>
      (engine.findOverlapping automaton domain).flatMap fun i => (index.postings[i]?.map SparsePosting.candidates).getD []
  | none => []

def IpCandidateIndex.visit (index : IpCandidateIndex) (address : IpAddr) : List Nat :=
  (List.range ((addressFamily address).width + 1)).flatMap fun length =>
    (index.networks (addressFamily address)).visit
      (toLex (length, addressValue address &&& (addressFamily address).mask length))

/-- `visit_matches`, one candidate after the other. -/
def MatchCandidateIndex.visitEach (engine : AhoCorasick Automaton) (index : MatchCandidateIndex Automaton)
    (domain : Option CanonicalDomain) (address : Option IpAddr) : List Nat :=
  (domain.toList.flatMap fun domain =>
      index.exact.visit domain.asStr ++ (labelSuffixes domain.asStr).flatMap index.suffix.visit ++
        index.keyword.visit engine domain.asStr) ++
    address.toList.flatMap index.ip.visit

theorem flatten_filterMap {α : Type} (indices : List Nat) (lookup : Nat → Option (List α)) :
    (indices.filterMap lookup).flatten = indices.flatMap fun i => (lookup i).getD [] := by
  induction indices with
  | nil => rfl
  | cons i indices ih =>
    rw [List.flatMap_cons, List.filterMap_cons, ← ih]
    cases lookup i with
    | none => rfl
    | some found => rfl

theorem flatten_flatMap {α β : Type} (values : List α) (lists : α → List (List β)) :
    (values.flatMap lists).flatten = values.flatMap fun value => (lists value).flatten := by
  induction values with
  | nil => rfl
  | cons value values ih => rw [List.flatMap_cons, List.flatMap_cons, List.flatten_append, ih]

theorem KeywordCandidateIndex.visit_eq (index : KeywordCandidateIndex Automaton) (domain : List UInt8) :
    index.visit engine domain = (index.visitCandidateLists engine domain).flatten := by
  unfold visit visitCandidateLists
  cases index.matcher with
  | none => rfl
  | some automaton => rw [flatten_filterMap]

theorem IpCandidateIndex.visit_eq (index : IpCandidateIndex) (address : IpAddr) :
    index.visit address = (index.visitCandidateLists address).flatten := by
  unfold visit visitCandidateLists
  rw [flatten_flatMap]
  rfl

theorem MatchCandidateIndex.visitEach_eq (index : MatchCandidateIndex Automaton) (domain : Option CanonicalDomain)
    (address : Option IpAddr) : index.visitEach engine domain address = index.visitMatches engine domain address := by
  unfold visitEach visitMatches visitMatchCandidateLists visitDomain
  rw [List.flatten_append, flatten_flatMap, flatten_flatMap]
  congr 1
  · refine List.flatMap_congr fun known _ => ?_
    rw [List.flatten_append, List.flatten_append, flatten_flatMap, ← KeywordCandidateIndex.visit_eq]
    rfl
  · exact List.flatMap_congr fun known _ => known |> index.ip.visit_eq

/-- A collection of sets, added one after the other. -/
def addMatchSets (builder : MatchCandidateIndexBuilder) (sets : List (AddedSet engine)) :
    Except RuleCompileError MatchCandidateIndexBuilder :=
  sets.foldlM (fun builder one => builder.tryAddMatchSet one.candidate one.set one.categories) builder

theorem MatchCandidateIndexBuilder.Holds.addMatchSets {builder next : MatchCandidateIndexBuilder}
    {before sets : List (AddedSet engine)} (holds : builder.Holds before)
    (run : Rule.addMatchSets builder sets = .ok next) : next.Holds (before ++ sets) := by
  induction sets generalizing builder before with
  | nil =>
    cases run
    simpa using holds
  | cons one sets ih =>
    unfold Rule.addMatchSets at run ih
    rw [List.foldlM_cons] at run
    obtain ⟨middle, added, rest⟩ := bind_eq_ok.mp run
    simpa using ih (holds.tryAddMatchSet added) rest

/-- Both visits of an index report exactly the added sets whose asked categories match, and the index of a snapshot
exactly its rule sets that match. -/
theorem candidates_visited_exactly (exact : engine.Exact) :
    (∀ (added : List (AddedSet engine)) builder index, addMatchSets .new added = .ok builder →
      builder.build engine = .ok index → ∀ domain address,
        (∀ candidate, candidate ∈ index.visitEach engine domain address ↔
          ∃ one ∈ added, one.candidate = candidate ∧ one.Has domain address) ∧
        (∀ candidate, (∃ list ∈ index.visitMatchCandidateLists engine domain address, candidate ∈ list) ↔
          ∃ one ∈ added, one.candidate = candidate ∧ one.Has domain address) ∧
        ((added.map AddedSet.candidate).Nodup → ∀ one ∈ added,
          (one.candidate ∈ index.visitEach engine domain address ↔ one.Has domain address)) ∧
        ∀ one ∈ added, one.categories = .all → (one.Has domain address ↔ one.set.matches domain address = true)) ∧
      ∀ (snapshot : RuleEngineSnapshot engine) id domain address,
        id ∈ snapshot.visitMatchingRuleSets domain address ↔ snapshot.matchesRuleSet id domain address = true := by
  refine ⟨fun added builder index collected built domain address => ?_,
    fun snapshot id domain address => snapshot.visitMatchingRuleSets_iff exact id domain address⟩
  have holds := MatchCandidateIndexBuilder.holds_new.addMatchSets collected
  rw [List.nil_append] at holds
  have visited := (holds.visitMatches exact built domain address).2
  have each : ∀ candidate, candidate ∈ index.visitEach engine domain address ↔
      ∃ one ∈ added, one.candidate = candidate ∧ one.Has domain address := by
    intro candidate
    rw [index.visitEach_eq]
    exact visited candidate
  refine ⟨each, fun candidate => ?_, fun distinct one member => ?_, fun one member all => ?_⟩
  · rw [← visited candidate, MatchCandidateIndex.visitMatches, List.mem_flatten]
  · rw [each]
    constructor
    · rintro ⟨other, inside, same, has⟩
      cases List.inj_on_of_nodup_map distinct inside member same
      exact has
    · intro has
      exact ⟨one, member, rfl, has⟩
  · obtain ⟨candidate, set, categories⟩ := one
    cases all
    exact AddedSet.has_all exact candidate set domain address

/-- The set of the sample. -/
def sampleSet : CompiledMatchSet scanEngine := (sampleBuilder.build scanEngine).toOption.get rfl

theorem sampleSet_visited : ∃ (builder : MatchCandidateIndexBuilder) (index : MatchCandidateIndex (List (List UInt8))),
    addMatchSets .new [(⟨3, sampleSet, .all⟩ : AddedSet scanEngine)] = .ok builder ∧ builder.build scanEngine = .ok index ∧
      3 ∈ index.visitEach scanEngine none (some (.v4 #v[10, 1, 2, 3])) := by
  obtain ⟨builder, index, collected, indexed⟩ : ∃ builder index,
      addMatchSets .new [(⟨3, sampleSet, .all⟩ : AddedSet scanEngine)] = .ok builder ∧
        builder.build scanEngine = .ok index := ⟨_, _, rfl, rfl⟩
  obtain ⟨-, -, own, all⟩ := (candidates_visited_exactly scanEngine_exact).1 [⟨3, sampleSet, .all⟩] builder index collected
    indexed none (some (.v4 #v[10, 1, 2, 3]))
  refine ⟨builder, index, collected, indexed, ?_⟩
  exact (own (List.nodup_singleton 3) _ (List.mem_singleton_self _)).mpr ((all _ (List.mem_singleton_self _) rfl).mpr (by decide +kernel))

end Ferrum.Rule
