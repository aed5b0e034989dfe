import Ferrum.Rule.Candidate

namespace Ferrum.Rule

open Ferrum.Core (CanonicalDomain)
open Ferrum.Tun (IpAddr)

/-- Admission limits: positive and no larger than the defaults. -/
structure RuleEngineSnapshotLimits where
  entries : Nat
  expandedBytes : Nat
  keywordBytes : Nat
  entriesBounded : 0 < entries ∧ entries ≤ 2000000
  expandedBounded : 0 < expandedBytes ∧ expandedBytes ≤ 128 * 1024 * 1024
  keywordBounded : 0 < keywordBytes ∧ keywordBytes ≤ 2 * 1024 * 1024

namespace RuleEngineSnapshotLimits

def default : RuleEngineSnapshotLimits :=
  { entries := 2000000, expandedBytes := 128 * 1024 * 1024, keywordBytes := 2 * 1024 * 1024
    entriesBounded := by decide, expandedBounded := by decide, keywordBounded := by decide }

def new (entries expandedBytes keywordBytes : Nat) : Except RuleCompileError RuleEngineSnapshotLimits :=
  if bounded : (0 < entries ∧ entries ≤ 2000000) ∧ (0 < expandedBytes ∧ expandedBytes ≤ 128 * 1024 * 1024) ∧
      (0 < keywordBytes ∧ keywordBytes ≤ 2 * 1024 * 1024) then
    .ok { entries, expandedBytes, keywordBytes, entriesBounded := bounded.1, expandedBounded := bounded.2.1
          keywordBounded := bounded.2.2 }
  else .error .resourceLimit

/-- Admits one more set, before it is retained. -/
def admitOne (limits : RuleEngineSnapshotLimits) (current additional : MatchSetResourceUsage) :
    Except RuleCompileError MatchSetResourceUsage := do
  let next ← current.checkedAdd additional
  if next.entries > limits.entries ∨ next.expandedBytes > limits.expandedBytes ∨ next.keywordBytes > limits.keywordBytes then
    .error .resourceLimit
  else return next

end RuleEngineSnapshotLimits

structure RuleSetDraft where
  tag : List UInt8
  matchSet : Nat
deriving DecidableEq

structure RuleSetDescriptor where
  tag : List UInt8
  matchSet : Nat
  capabilities : MatchSetCapabilities
deriving DecidableEq

variable {Automaton : Type} {engine : AhoCorasick Automaton}

variable (matchSets : List (CompiledMatchSet engine))

/-- `match_sets.get(id)` or `InvalidId`. -/
def matchSetAt (id : Nat) : Except RuleCompileError (CompiledMatchSet engine) :=
  match matchSets[id]? with
  | some set => .ok set
  | none => .error .invalidId

/-- The candidate index of the rule sets, and the rule sets with networks. -/
structure RuleSetIndex where
  candidates : MatchCandidateIndexBuilder
  ipRuleSets : List Nat

/-- One turn of the loop in `build` over the descriptors. -/
def RuleSetIndex.push (index : RuleSetIndex) (entry : RuleSetDescriptor × Nat) : Except RuleCompileError RuleSetIndex := do
  let set ← matchSetAt matchSets entry.1.matchSet
  let candidates ← index.candidates.tryAddMatchSet entry.2 set .all
  if entry.1.capabilities.ipCidr then
    let id ← indexU32 entry.2
    return { candidates, ipRuleSets := index.ipRuleSets ++ [id] }
  else return { candidates, ipRuleSets := index.ipRuleSets }

def indexRuleSets (descriptors : List RuleSetDescriptor) : Except RuleCompileError RuleSetIndex :=
  descriptors.zipIdx.foldlM (RuleSetIndex.push matchSets) { candidates := .new, ipRuleSets := [] }

/-- A complete view of the match sets; its index is that of its rule sets. -/
structure RuleEngineSnapshot (engine : AhoCorasick Automaton) where
  matchSets : List (CompiledMatchSet engine)
  ruleSets : List RuleSetDescriptor
  ipRuleSets : List Nat
  candidates : MatchCandidateIndex Automaton
  generation : Nat
  limits : RuleEngineSnapshotLimits
  indexed : ∃ index, indexRuleSets matchSets ruleSets = .ok index ∧ index.ipRuleSets = ipRuleSets ∧
    index.candidates.build engine = .ok candidates

structure RuleEngineSnapshotBuilder (engine : AhoCorasick Automaton) where
  matchSets : List (CompiledMatchSet engine)
  ruleSets : List RuleSetDraft
  generation : Nat
  limits : RuleEngineSnapshotLimits

namespace RuleEngineSnapshotBuilder

def withLimits (generation : Nat) (limits : RuleEngineSnapshotLimits) : RuleEngineSnapshotBuilder engine :=
  { matchSets := [], ruleSets := [], generation, limits }

def new (generation : Nat) : RuleEngineSnapshotBuilder engine := withLimits generation .default

variable (builder : RuleEngineSnapshotBuilder engine)

def addMatchSet (set : CompiledMatchSet engine) : Except RuleCompileError (Nat × RuleEngineSnapshotBuilder engine) :=
  if set.isEmpty then .error .emptyField
  else do
    let id ← indexU32 builder.matchSets.length
    return (id, { builder with matchSets := builder.matchSets ++ [set] })

def replaceMatchSet (id : Nat) (set : CompiledMatchSet engine) :
    Except RuleCompileError (RuleEngineSnapshotBuilder engine) :=
  if set.isEmpty then .error .emptyField
  else if id < builder.matchSets.length then .ok { builder with matchSets := builder.matchSets.set id set }
  else .error .invalidId

def replaceRuleSet (id : Nat) (set : CompiledMatchSet engine) :
    Except RuleCompileError (RuleEngineSnapshotBuilder engine) :=
  match builder.ruleSets[id]? with
  | some draft => builder.replaceMatchSet draft.matchSet set
  | none => .error .invalidId

def isTagByte (byte : UInt8) : Bool :=
  48 ≤ byte && byte ≤ 57 || 65 ≤ byte && byte ≤ 90 || 97 ≤ byte && byte ≤ 122 || [46, 95, 45].contains byte

def validTag (tag : List UInt8) : Bool := 1 ≤ tag.length && tag.length ≤ 64 && tag.all isTagByte

def addRuleSet (tag : List UInt8) (matchSet : Nat) : Except RuleCompileError (Nat × RuleEngineSnapshotBuilder engine) :=
  if !validTag tag then .error .invalidTag
  else if builder.ruleSets.any (·.tag = tag) then .error .duplicateRuleSet
  else if builder.matchSets.length ≤ matchSet then .error .invalidId
  else do
    let id ← indexU32 builder.ruleSets.length
    return (id, { builder with ruleSets := builder.ruleSets ++ [{ tag, matchSet }] })

/-- The descriptor of a draft, with the capabilities of its match set. -/
def describe (matchSets : List (CompiledMatchSet engine)) (draft : RuleSetDraft) : Except RuleCompileError RuleSetDescriptor := do
  let set ← matchSetAt matchSets draft.matchSet
  return { tag := draft.tag, matchSet := draft.matchSet, capabilities := set.capabilities }

/-- The admission of all retained sets, and of the set of every descriptor. -/
def admitAll : Except RuleCompileError Unit := do
  let _ ← builder.matchSets.foldlM (fun usage set => builder.limits.admitOne usage set.resourceUsage) .empty
  let _ ← builder.ruleSets.foldlM (fun usage draft => do
    let set ← matchSetAt builder.matchSets draft.matchSet
    builder.limits.admitOne usage set.resourceUsage) .empty
  return ()

def build (builder : RuleEngineSnapshotBuilder engine) : Except RuleCompileError (RuleEngineSnapshot engine) := do
  builder.admitAll
  let descriptors ← builder.ruleSets.mapM (describe builder.matchSets)
  match indexed : indexRuleSets builder.matchSets descriptors with
  | .error error => .error error
  | .ok index =>
    match built : index.candidates.build engine with
    | .error error => .error error
    | .ok candidates =>
      return { matchSets := builder.matchSets, ruleSets := descriptors, ipRuleSets := index.ipRuleSets, candidates
               generation := builder.generation, limits := builder.limits, indexed := ⟨index, indexed, rfl, built⟩ }

end RuleEngineSnapshotBuilder

namespace RuleEngineSnapshot

variable (snapshot : RuleEngineSnapshot engine)

def matchSet (id : Nat) : Option (CompiledMatchSet engine) := snapshot.matchSets[id]?

def ruleSet (id : Nat) : Option RuleSetDescriptor := snapshot.ruleSets[id]?

/-- The match set behind a rule set. -/
def ruleSetMatchSet (id : Nat) : Option (CompiledMatchSet engine) :=
  (snapshot.ruleSet id).bind fun descriptor => snapshot.matchSet descriptor.matchSet

def builderForGeneration (generation : Nat) : Except RuleCompileError (RuleEngineSnapshotBuilder engine) :=
  if generation ≤ snapshot.generation then .error .invalidGeneration
  else .ok { matchSets := snapshot.matchSets
             ruleSets := snapshot.ruleSets.map fun descriptor => { tag := descriptor.tag, matchSet := descriptor.matchSet }
             generation, limits := snapshot.limits }

def builderForNextGeneration : Except RuleCompileError (RuleEngineSnapshotBuilder engine) :=
  if snapshot.generation + 1 < 2 ^ 64 then snapshot.builderForGeneration (snapshot.generation + 1)
  else .error .invalidGeneration

def matchesRuleSet (id : Nat) (domain : Option CanonicalDomain) (address : Option IpAddr) : Bool :=
  (snapshot.ruleSetMatchSet id).any fun set => set.matches domain address

/-- The rule sets whose contents match the input, as the index reports them. -/
def visitMatchingRuleSets (domain : Option CanonicalDomain) (address : Option IpAddr) : List Nat :=
  snapshot.candidates.visitMatches engine domain address

def isCompatibleSuccessor (next : RuleEngineSnapshot engine) : Bool :=
  snapshot.matchSets.length ≤ next.matchSets.length && snapshot.ruleSets.length ≤ next.ruleSets.length &&
    (snapshot.ruleSets.zip next.ruleSets).all fun pair => pair.1.tag = pair.2.tag && pair.1.matchSet = pair.2.matchSet

end RuleEngineSnapshot

inductive RegistryPublishError where
  | staleGeneration | incompatibleLayout
deriving DecidableEq, Repr

/-- The publication point: the current snapshot, under its lock. -/
structure RuleEngineRegistry (engine : AhoCorasick Automaton) where
  current : RuleEngineSnapshot engine

/-- The previous snapshot and the registry with the next one, or a refusal. -/
def RuleEngineRegistry.publish (registry : RuleEngineRegistry engine) (next : RuleEngineSnapshot engine) :
    Except RegistryPublishError (RuleEngineSnapshot engine × RuleEngineRegistry engine) :=
  if next.generation ≤ registry.current.generation then .error .staleGeneration
  else if !registry.current.isCompatibleSuccessor next then .error .incompatibleLayout
  else .ok (registry.current, { current := next })

theorem AddedSet.has_all (exact : engine.Exact) (candidate : Nat) (set : CompiledMatchSet engine)
    (domain : Option CanonicalDomain) (address : Option IpAddr) :
    (AddedSet.mk candidate set .all).Has domain address ↔ set.matches domain address = true := by
  have byDomain : ∀ known : CanonicalDomain, (AddedSet.mk candidate set .all).HasDomain known.asStr ↔
      set.matchesDomain known = true := by
    intro known
    rw [set.matchesDomain_iff exact]
    simp [AddedSet.HasDomain, CompiledMatchSet.HasDomain, MatchCategories.contains, MatchCategories.all,
      MatchCategories.exact, MatchCategories.suffix, MatchCategories.keyword, MatchCategories.ip]
  have byIp : ∀ known, set.HasIp known ↔ set.matchesIp known = true := fun known => (set.matchesIp_iff known).symm
  have asked : MatchCategories.all.contains .ip = true := by decide
  simp only [AddedSet.Has, byDomain, byIp, asked, true_and, CompiledMatchSet.matches, Bool.or_eq_true]
  cases domain <;> cases address <;> simp

theorem indexRuleSets_holds {matchSets : List (CompiledMatchSet engine)} {entries : List (RuleSetDescriptor × Nat)}
    {before after : RuleSetIndex} {added : List (AddedSet engine)} (holds : before.candidates.Holds added)
    (run : entries.foldlM (RuleSetIndex.push matchSets) before = .ok after) :
    ∃ more : List (AddedSet engine), after.candidates.Holds (added ++ more) ∧
      ∀ one, one ∈ more ↔ ∃ entry ∈ entries, matchSets[entry.1.matchSet]? = some one.set ∧ one.candidate = entry.2 ∧
        one.categories = .all := by
  induction entries generalizing before added with
  | nil =>
    cases run
    exact ⟨[], by simpa using holds, by simp⟩
  | cons entry entries ih =>
    rw [List.foldlM_cons] at run
    obtain ⟨middle, first, rest⟩ := bind_eq_ok.mp run
    obtain ⟨set, found, first⟩ := bind_eq_ok.mp first
    obtain ⟨candidates, pushed, first⟩ := bind_eq_ok.mp first
    have here : matchSets[entry.1.matchSet]? = some set := by
      unfold matchSetAt at found
      split at found
      · rename_i set' at_
        cases found
        exact at_
      · cases found
    have same : middle.candidates = candidates := by
      split at first
      · obtain ⟨id, -, first⟩ := bind_eq_ok.mp first
        cases first
        rfl
      · cases first
        rfl
    obtain ⟨more, held, spec⟩ := ih (same ▸ holds.tryAddMatchSet pushed) rest
    refine ⟨⟨entry.2, set, .all⟩ :: more, by simpa using held, fun one => ?_⟩
    rw [List.mem_cons, spec]
    constructor
    · rintro (rfl | ⟨other, member, rest⟩)
      · exact ⟨entry, List.mem_cons_self, here, rfl, rfl⟩
      · exact ⟨other, List.mem_cons_of_mem _ member, rest⟩
    · rintro ⟨other, member, at_, number, all⟩
      rcases List.mem_cons.mp member with rfl | later
      · rw [here] at at_
        cases at_
        obtain ⟨candidate, set, categories⟩ := one
        cases number
        cases all
        exact .inl rfl
      · exact .inr ⟨other, later, at_, number, all⟩

theorem RuleEngineSnapshot.visitMatchingRuleSets_iff (exact : engine.Exact) (snapshot : RuleEngineSnapshot engine) (id : Nat)
    (domain : Option CanonicalDomain) (address : Option IpAddr) :
    id ∈ snapshot.visitMatchingRuleSets domain address ↔ snapshot.matchesRuleSet id domain address = true := by
  obtain ⟨index, pushed, -, built⟩ := snapshot.indexed
  obtain ⟨more, holds, spec⟩ := indexRuleSets_holds MatchCandidateIndexBuilder.holds_new pushed
  rw [List.nil_append] at holds
  rw [visitMatchingRuleSets, (holds.visitMatches exact built domain address).2]
  simp only [matchesRuleSet, ruleSetMatchSet, ruleSet, matchSet, Option.any_eq_true, Option.bind_eq_some_iff]
  constructor
  · rintro ⟨one, member, rfl, has⟩
    obtain ⟨entry, inside, at_, number, all⟩ := (spec one).mp member
    obtain ⟨candidate, set, categories⟩ := one
    cases all
    simp only at number at_
    refine ⟨set, ⟨entry.1, ?_, at_⟩, (AddedSet.has_all exact _ set domain address).mp has⟩
    rw [number]
    exact List.mem_zipIdx_iff_getElem?.mp inside
  · rintro ⟨set, ⟨descriptor, at_, found⟩, has⟩
    refine ⟨⟨id, set, .all⟩, (spec _).mpr ⟨(descriptor, id), List.mem_zipIdx_iff_getElem?.mpr at_, found, rfl, rfl⟩, rfl, ?_⟩
    exact (AddedSet.has_all exact _ set domain address).mpr has

end Ferrum.Rule
