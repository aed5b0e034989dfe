import Mathlib.Data.Prod.Lex
import Ferrum.Lib.Checks
import Ferrum.Rule.MatchSet

namespace Ferrum.Rule

open Ferrum.Core (CanonicalDomain labelSuffixes)
open Ferrum.Tun (IpAddr)

/-- `NonZeroU16`. -/
structure Port where
  val : Nat
  nonzero : 0 < val
  bounded : val < 65536
deriving DecidableEq

/-- The categories of a set to be indexed, as bits. -/
structure MatchCategories where
  bits : Nat

namespace MatchCategories

def exact : MatchCategories := ⟨1 <<< 0⟩
def suffix : MatchCategories := ⟨1 <<< 1⟩
def keyword : MatchCategories := ⟨1 <<< 2⟩
def ip : MatchCategories := ⟨1 <<< 3⟩
def domain : MatchCategories := ⟨exact.bits ||| suffix.bits ||| keyword.bits⟩
def all : MatchCategories := ⟨exact.bits ||| suffix.bits ||| keyword.bits ||| ip.bits⟩

def contains (categories other : MatchCategories) : Bool := categories.bits &&& other.bits != 0

end MatchCategories

structure KeywordCandidateIndex (Automaton : Type) where
  matcher : Option Automaton
  postings : List (SparsePosting (List UInt8))

structure IpCandidateIndex where
  v4 : SparseValueIndex (Lex (Nat × Nat))
  v6 : SparseValueIndex (Lex (Nat × Nat))

structure MatchCandidateIndex (Automaton : Type) where
  exact : SparseValueIndex (List UInt8)
  suffix : SparseValueIndex (List UInt8)
  keyword : KeywordCandidateIndex Automaton
  ip : IpCandidateIndex

structure MatchCandidateIndexBuilder where
  exact : SparseValueIndexBuilder (List UInt8)
  suffix : SparseValueIndexBuilder (List UInt8)
  keyword : SparseValueIndexBuilder (List UInt8)
  v4 : SparseValueIndexBuilder (Lex (Nat × Nat))
  v6 : SparseValueIndexBuilder (Lex (Nat × Nat))

variable {Automaton : Type}

namespace KeywordCandidateIndex

def build (engine : AhoCorasick Automaton) (builder : SparseValueIndexBuilder (List UInt8)) :
    Except RuleCompileError (KeywordCandidateIndex Automaton) := do
  let matcher ← compileKeywords engine (builder.build.postings.map SparsePosting.key)
  return { matcher, postings := builder.build.postings }

/-- The posting list of every pattern that the automaton reports. -/
def visitCandidateLists (engine : AhoCorasick Automaton) (index : KeywordCandidateIndex Automaton) (domain : List UInt8) :
    List (List Nat) :=
  match index.matcher with
  | some automaton =>
      (engine.findOverlapping automaton domain).filterMap fun i => index.postings[i]?.map SparsePosting.candidates
  | none => []

end KeywordCandidateIndex

namespace IpCandidateIndex

def networks (index : IpCandidateIndex) : IpFamily → SparseValueIndex (Lex (Nat × Nat))
  | .v4 => index.v4
  | .v6 => index.v6

/-- One lookup for each prefix length. -/
def visitCandidateLists (index : IpCandidateIndex) (address : IpAddr) : List (List Nat) :=
  (List.range ((addressFamily address).width + 1)).flatMap fun length =>
    (index.networks (addressFamily address)).visitCandidateList
      (toLex (length, addressValue address &&& (addressFamily address).mask length))

end IpCandidateIndex

namespace MatchCandidateIndex

def visitDomain (engine : AhoCorasick Automaton) (index : MatchCandidateIndex Automaton) (domain : List UInt8) :
    List (List Nat) :=
  index.exact.visitCandidateList domain ++ (labelSuffixes domain).flatMap index.suffix.visitCandidateList ++
    index.keyword.visitCandidateLists engine domain

/-- Each posting list whose value matches the input. -/
def visitMatchCandidateLists (engine : AhoCorasick Automaton) (index : MatchCandidateIndex Automaton)
    (domain : Option CanonicalDomain) (address : Option IpAddr) : List (List Nat) :=
  (domain.toList.flatMap fun domain => index.visitDomain engine domain.asStr) ++
    address.toList.flatMap index.ip.visitCandidateLists

/-- Each candidate of these lists. -/
def visitMatches (engine : AhoCorasick Automaton) (index : MatchCandidateIndex Automaton)
    (domain : Option CanonicalDomain) (address : Option IpAddr) : List Nat :=
  (index.visitMatchCandidateLists engine domain address).flatten

end MatchCandidateIndex

namespace MatchCandidateIndexBuilder

def new : MatchCandidateIndexBuilder := ⟨.new, .new, .new, .new, .new⟩

/-- Adds all values under one candidate. -/
def addAll {K : Type} [LinearOrder K] (builder : SparseValueIndexBuilder K) (keys : List K) (candidate : Nat) :
    Except RuleCompileError (SparseValueIndexBuilder K) :=
  keys.foldlM (fun builder key => builder.tryAdd key candidate) builder

/-- Adds the values of a category if it is asked for. -/
def addIf {K : Type} [LinearOrder K] (asked : Bool) (builder : SparseValueIndexBuilder K) (keys : List K)
    (candidate : Nat) : Except RuleCompileError (SparseValueIndexBuilder K) :=
  if asked then addAll builder keys candidate else .ok builder

def prefixKeys (family : IpFamily) (networks : List IpNet) : List (Lex (Nat × Nat)) :=
  (prefixEntries family networks).map toLex

def tryAddMatchSet {engine : AhoCorasick Automaton} (builder : MatchCandidateIndexBuilder) (candidate : Nat)
    (set : CompiledMatchSet engine) (categories : MatchCategories) : Except RuleCompileError MatchCandidateIndexBuilder := do
  let exact ← addIf (categories.contains .exact) builder.exact set.exactDomains candidate
  let suffix ← addIf (categories.contains .suffix) builder.suffix set.suffixDomains candidate
  let keyword ← addIf (categories.contains .keyword) builder.keyword set.domainKeywords candidate
  let v4 ← addIf (categories.contains .ip) builder.v4 (prefixKeys .v4 set.ipCidrs) candidate
  let v6 ← addIf (categories.contains .ip) builder.v6 (prefixKeys .v6 set.ipCidrs) candidate
  return { exact, suffix, keyword, v4, v6 }

def build (engine : AhoCorasick Automaton) (builder : MatchCandidateIndexBuilder) :
    Except RuleCompileError (MatchCandidateIndex Automaton) := do
  let keyword ← KeywordCandidateIndex.build engine builder.keyword
  return { exact := builder.exact.build, suffix := builder.suffix.build, keyword
           ip := { v4 := builder.v4.build, v6 := builder.v6.build } }

end MatchCandidateIndexBuilder

/-- A segment tree over the ports, by node number. -/
structure PortRangeCandidateIndex where
  nodes : SparseValueIndex Nat

structure PortRangeCandidateIndexBuilder where
  nodes : SparseValueIndexBuilder Nat

namespace PortRangeCandidateIndexBuilder

def new : PortRangeCandidateIndexBuilder := ⟨.new⟩

/-- The number of a child in `u32`. -/
def childNode (node side : Nat) : Except RuleCompileError Nat :=
  if node * 2 + side < 2 ^ 32 then .ok (node * 2 + side) else .error .indexOverflow

/-- The recursion into one child, if the range reaches it. -/
def intoChild (reached : Prop) [Decidable reached] (builder : SparseValueIndexBuilder Nat) (node side : Nat)
    (inner : Nat → Except RuleCompileError (SparseValueIndexBuilder Nat)) :
    Except RuleCompileError (SparseValueIndexBuilder Nat) :=
  if reached then childNode node side >>= inner else .ok builder

/-- `try_add_inner` over the ports `first..=last` of `node`; the depth is that of the tree below it. -/
def tryAddInner (builder : SparseValueIndexBuilder Nat) (node first last queryFirst queryLast candidate : Nat) :
    Nat → Except RuleCompileError (SparseValueIndexBuilder Nat)
  | 0 => if queryFirst ≤ first ∧ last ≤ queryLast then builder.tryAdd node candidate else .ok builder
  | depth + 1 =>
    if queryFirst ≤ first ∧ last ≤ queryLast then builder.tryAdd node candidate
    else do
      let middle := first + (last - first) / 2
      let builder ← intoChild (queryFirst ≤ middle) builder node 0 fun child =>
        tryAddInner builder child first middle queryFirst queryLast candidate depth
      intoChild (middle < queryLast) builder node 1 fun child =>
        tryAddInner builder child (middle + 1) last queryFirst queryLast candidate depth

/-- The tree over the 65535 ports has sixteen levels below its root. -/
def tryAdd (builder : PortRangeCandidateIndexBuilder) (first last : Port) (candidate : Nat) :
    Except RuleCompileError PortRangeCandidateIndexBuilder :=
  if last.val < first.val then .error .emptyField
  else (tryAddInner builder.nodes 1 1 65535 first.val last.val candidate 16).map PortRangeCandidateIndexBuilder.mk

def build (builder : PortRangeCandidateIndexBuilder) : PortRangeCandidateIndex := ⟨builder.nodes.build⟩

end PortRangeCandidateIndexBuilder

namespace PortRangeCandidateIndex

/-- The posting lists of the nodes from `node` down to the leaf of the port. -/
def visitFrom (index : PortRangeCandidateIndex) (port node first last : Nat) : Nat → List (List Nat)
  | 0 => index.nodes.visitCandidateList node
  | depth + 1 =>
    index.nodes.visitCandidateList node ++
      if first = last then []
      else
        let middle := first + (last - first) / 2
        if port ≤ middle then index.visitFrom port (node * 2) first middle depth
        else index.visitFrom port (node * 2 + 1) (middle + 1) last depth

def visitCandidateLists (index : PortRangeCandidateIndex) (port : Port) : List (List Nat) :=
  index.visitFrom port.val 1 1 65535 16

def visit (index : PortRangeCandidateIndex) (port : Port) : List Nat := (index.visitCandidateLists port).flatten

end PortRangeCandidateIndex

theorem indexU32_eq_ok {index result : Nat} : indexU32 index = .ok result ↔ index < 2 ^ 32 ∧ index = result := by
  unfold indexU32
  split <;> simp_all

section Sparse

variable {K : Type}

variable {builder next : SparseValueIndexBuilder K} {candidate : Nat}

theorem SparseValueIndexBuilder.tryAdd_eq_ok {key : K} (run : builder.tryAdd key candidate = .ok next) :
    candidate < 2 ^ 32 ∧ next.entries = builder.entries ++ [(key, candidate)] := by
  obtain ⟨index, checked, run⟩ := bind_eq_ok.mp run
  obtain ⟨small, rfl⟩ := indexU32_eq_ok.mp checked
  cases run
  exact ⟨small, rfl⟩

variable [LinearOrder K]

theorem MatchCandidateIndexBuilder.addAll_eq_ok {keys : List K} (run : addAll builder keys candidate = .ok next) :
    next.entries = builder.entries ++ keys.map fun key => (key, candidate) := by
  induction keys generalizing builder with
  | nil =>
    cases run
    simp
  | cons key keys ih =>
    unfold addAll at run ih
    rw [List.foldlM_cons] at run
    obtain ⟨middle, first, rest⟩ := bind_eq_ok.mp run
    obtain ⟨-, added⟩ := SparseValueIndexBuilder.tryAdd_eq_ok first
    rw [ih rest, added, List.append_assoc]
    rfl

theorem MatchCandidateIndexBuilder.addIf_eq_ok {asked : Bool} {keys : List K}
    (run : addIf asked builder keys candidate = .ok next) (key : K) (other : Nat) :
    (key, other) ∈ next.entries ↔ (key, other) ∈ builder.entries ∨ asked = true ∧ key ∈ keys ∧ other = candidate := by
  unfold addIf at run
  split at run
  · rename_i yes
    rw [addAll_eq_ok run, List.mem_append, List.mem_map]
    refine or_congr_right ?_
    constructor
    · rintro ⟨added, member, same⟩
      obtain ⟨rfl, rfl⟩ := Prod.mk.inj same
      exact ⟨yes, member, rfl⟩
    · rintro ⟨-, member, rfl⟩
      exact ⟨key, member, rfl⟩
  · rename_i no
    cases run
    simp [no]

end Sparse

section MatchIndex

open MatchCandidateIndexBuilder (prefixKeys)

variable {Automaton : Type} {engine : AhoCorasick Automaton}

/-- One call of `try_add_match_set`. -/
structure AddedSet (engine : AhoCorasick Automaton) where
  candidate : Nat
  set : CompiledMatchSet engine
  categories : MatchCategories

/-- The asked categories of the set say that it matches the domain. -/
def AddedSet.HasDomain (added : AddedSet engine) (domain : List UInt8) : Prop :=
  added.categories.contains .exact = true ∧ domain ∈ added.set.exactDomains ∨
    added.categories.contains .suffix = true ∧ (∃ suffix ∈ labelSuffixes domain, suffix ∈ added.set.suffixDomains) ∨
      added.categories.contains .keyword = true ∧ ∃ keyword ∈ added.set.domainKeywords, keyword <:+: domain

/-- The asked categories of the set say that it matches the input. -/
def AddedSet.Has (added : AddedSet engine) (domain : Option CanonicalDomain) (address : Option IpAddr) : Prop :=
  (∃ known, domain = some known ∧ added.HasDomain known.asStr) ∨
    ∃ known, address = some known ∧ added.categories.contains .ip = true ∧ added.set.HasIp known

/-- The builder holds the values of the sets that were added. -/
structure MatchCandidateIndexBuilder.Holds (builder : MatchCandidateIndexBuilder) (added : List (AddedSet engine)) : Prop where
  exact : ∀ key candidate, (key, candidate) ∈ builder.exact.entries ↔
    ∃ one ∈ added, one.candidate = candidate ∧ one.categories.contains .exact = true ∧ key ∈ one.set.exactDomains
  suffix : ∀ key candidate, (key, candidate) ∈ builder.suffix.entries ↔
    ∃ one ∈ added, one.candidate = candidate ∧ one.categories.contains .suffix = true ∧ key ∈ one.set.suffixDomains
  keyword : ∀ key candidate, (key, candidate) ∈ builder.keyword.entries ↔
    ∃ one ∈ added, one.candidate = candidate ∧ one.categories.contains .keyword = true ∧ key ∈ one.set.domainKeywords
  v4 : ∀ key candidate, (key, candidate) ∈ builder.v4.entries ↔
    ∃ one ∈ added, one.candidate = candidate ∧ one.categories.contains .ip = true ∧ key ∈ prefixKeys .v4 one.set.ipCidrs
  v6 : ∀ key candidate, (key, candidate) ∈ builder.v6.entries ↔
    ∃ one ∈ added, one.candidate = candidate ∧ one.categories.contains .ip = true ∧ key ∈ prefixKeys .v6 one.set.ipCidrs

namespace MatchCandidateIndexBuilder

theorem holds_new : (new.Holds ([] : List (AddedSet engine))) := by
  constructor <;> intro key candidate <;> simp [new, SparseValueIndexBuilder.new]

theorem holds_snoc {K : Type} {entries next : List (K × Nat)} {added : List (AddedSet engine)} {one : AddedSet engine}
    {asked : AddedSet engine → Bool} {keys : AddedSet engine → List K}
    (before : ∀ key candidate, (key, candidate) ∈ entries ↔
      ∃ old ∈ added, old.candidate = candidate ∧ asked old = true ∧ key ∈ keys old)
    (step : ∀ key candidate, (key, candidate) ∈ next ↔
      (key, candidate) ∈ entries ∨ asked one = true ∧ key ∈ keys one ∧ candidate = one.candidate) (key : K) (candidate : Nat) :
    (key, candidate) ∈ next ↔ ∃ old ∈ added ++ [one], old.candidate = candidate ∧ asked old = true ∧ key ∈ keys old := by
  rw [step, before]
  constructor
  · rintro (⟨old, member, rest⟩ | ⟨yes, inside, rfl⟩)
    · exact ⟨old, List.mem_append_left _ member, rest⟩
    · exact ⟨one, by simp, rfl, yes, inside⟩
  · rintro ⟨old, member, same, yes, inside⟩
    rcases List.mem_append.mp member with earlier | last
    · exact .inl ⟨old, earlier, same, yes, inside⟩
    · cases List.mem_singleton.mp last
      exact .inr ⟨yes, inside, same.symm⟩

theorem Holds.tryAddMatchSet {builder next : MatchCandidateIndexBuilder} {added : List (AddedSet engine)}
    (holds : builder.Holds added) {candidate : Nat} {set : CompiledMatchSet engine} {categories : MatchCategories}
    (run : builder.tryAddMatchSet candidate set categories = .ok next) :
    next.Holds (added ++ [⟨candidate, set, categories⟩]) := by
  obtain ⟨exact, runExact, run⟩ := bind_eq_ok.mp run
  obtain ⟨suffix, runSuffix, run⟩ := bind_eq_ok.mp run
  obtain ⟨keyword, runKeyword, run⟩ := bind_eq_ok.mp run
  obtain ⟨v4, runV4, run⟩ := bind_eq_ok.mp run
  obtain ⟨v6, runV6, run⟩ := bind_eq_ok.mp run
  cases run
  exact ⟨holds_snoc holds.exact (addIf_eq_ok runExact), holds_snoc holds.suffix (addIf_eq_ok runSuffix),
    holds_snoc holds.keyword (addIf_eq_ok runKeyword), holds_snoc holds.v4 (addIf_eq_ok runV4),
    holds_snoc holds.v6 (addIf_eq_ok runV6)⟩

end MatchCandidateIndexBuilder

theorem KeywordCandidateIndex.visit_build (exact : engine.Exact) {builder : SparseValueIndexBuilder (List UInt8)}
    {index : KeywordCandidateIndex Automaton} (run : KeywordCandidateIndex.build engine builder = .ok index)
    (nonempty : ∀ entry ∈ builder.entries, entry.1 ≠ []) (domain : List UInt8) :
    (∀ list ∈ index.visitCandidateLists engine domain, Ascending list) ∧
      ∀ candidate, candidate ∈ (index.visitCandidateLists engine domain).flatten ↔
        ∃ keyword, (keyword, candidate) ∈ builder.entries ∧ keyword <:+: domain := by
  have answers := builder.build_answers
  obtain ⟨matcher, compiled, run⟩ := bind_eq_ok.mp run
  cases run
  unfold visitCandidateLists
  rcases compileKeywords_ok compiled with ⟨rfl, empty⟩ | ⟨automaton, rfl, built⟩
  · refine ⟨nofun, fun candidate => ?_⟩
    simp only [List.flatten_nil, List.not_mem_nil, false_iff, not_exists, not_and]
    intro keyword inside
    obtain ⟨posting, member, same⟩ := answers.complete _ inside
    have blank := empty posting.key (List.mem_map_of_mem member)
    exact absurd (same.symm.trans blank) (nonempty _ inside)
  · have reported : ∀ posting, (∃ i ∈ engine.findOverlapping automaton domain, builder.build.postings[i]? = some posting) ↔
        posting ∈ builder.build.postings ∧ posting.key <:+: domain := by
      intro posting
      constructor
      · rintro ⟨i, found, here⟩
        obtain ⟨pattern, at_i, infix_⟩ := (exact.findOverlapping _ _ _ i built).mp found
        rw [List.getElem?_map, here] at at_i
        cases at_i
        exact ⟨List.mem_of_getElem? here, infix_⟩
      · rintro ⟨member, infix_⟩
        obtain ⟨i, here⟩ := List.mem_iff_getElem?.mp member
        refine ⟨i, (exact.findOverlapping _ _ _ i built).mpr ⟨posting.key, ?_, infix_⟩, here⟩
        rw [List.getElem?_map, here]
        rfl
    have lists : ∀ list, list ∈ (engine.findOverlapping automaton domain).filterMap
        (fun i => builder.build.postings[i]?.map SparsePosting.candidates) ↔
        ∃ posting ∈ builder.build.postings, posting.key <:+: domain ∧ posting.candidates = list := by
      intro list
      simp only [List.mem_filterMap, Option.map_eq_some_iff]
      constructor
      · rintro ⟨i, found, posting, here, rfl⟩
        obtain ⟨member, infix_⟩ := (reported posting).mp ⟨i, found, here⟩
        exact ⟨posting, member, infix_, rfl⟩
      · rintro ⟨posting, member, infix_, rfl⟩
        obtain ⟨i, found, here⟩ := (reported posting).mpr ⟨member, infix_⟩
        exact ⟨i, found, posting, here, rfl⟩
    refine ⟨fun list member => ?_, fun candidate => ?_⟩
    · obtain ⟨posting, inside, -, rfl⟩ := (lists list).mp member
      exact answers.ascending posting inside
    · rw [List.mem_flatten]
      constructor
      · rintro ⟨list, member, inside⟩
        obtain ⟨posting, inPostings, infix_, rfl⟩ := (lists list).mp member
        exact ⟨posting.key, (answers.exact posting inPostings candidate).mp inside, infix_⟩
      · rintro ⟨keyword, inside, infix_⟩
        obtain ⟨posting, member, same⟩ := answers.complete _ inside
        simp only at same
        subst same
        exact ⟨_, (lists _).mpr ⟨posting, member, infix_, rfl⟩, (answers.exact posting member candidate).mpr inside⟩

theorem mem_prefixKeys {family : IpFamily} {networks : List IpNet} {length network : Nat} :
    toLex (length, network) ∈ prefixKeys family networks ↔
      ∃ net ∈ networks, net.family = family ∧ net.prefixLen = length ∧ net.network = network := by
  rw [prefixKeys, List.mem_map_of_injective toLex.injective, CompiledMatchSet.mem_prefixEntries]

theorem hasIp_iff (set : CompiledMatchSet engine) (address : IpAddr) :
    set.HasIp address ↔ ∃ length ∈ List.range ((addressFamily address).width + 1),
      toLex (length, addressValue address &&& (addressFamily address).mask length) ∈
        prefixKeys (addressFamily address) set.ipCidrs := by
  simp only [CompiledMatchSet.HasIp, mem_prefixKeys, List.mem_range]
  constructor
  · rintro ⟨net, member, family, network⟩
    have bounded := net.bounded
    rw [family] at bounded network
    exact ⟨net.prefixLen, by omega, net, member, family, rfl, network⟩
  · rintro ⟨length, -, net, member, family, rfl, network⟩
    exact ⟨net, member, family, by rw [family]; exact network⟩

section Built

variable {builder : MatchCandidateIndexBuilder} {index : MatchCandidateIndex Automaton} {added : List (AddedSet engine)}

theorem MatchCandidateIndexBuilder.build_eq_ok (run : builder.build engine = .ok index) :
    index.exact = builder.exact.build ∧ index.suffix = builder.suffix.build ∧
      KeywordCandidateIndex.build engine builder.keyword = .ok index.keyword ∧
        index.ip = { v4 := builder.v4.build, v6 := builder.v6.build } := by
  obtain ⟨keyword, compiled, run⟩ := bind_eq_ok.mp run
  cases run
  exact ⟨rfl, rfl, compiled, rfl⟩

theorem MatchCandidateIndexBuilder.Holds.visitDomain (holds : builder.Holds added) (exact : engine.Exact)
    (run : builder.build engine = .ok index) (domain : List UInt8) :
    (∀ list ∈ index.visitDomain engine domain, Ascending list) ∧
      ∀ candidate, candidate ∈ (index.visitDomain engine domain).flatten ↔
        ∃ one ∈ added, one.candidate = candidate ∧ one.HasDomain domain := by
  obtain ⟨sameExact, sameSuffix, compiled, -⟩ := build_eq_ok run
  have nonempty : ∀ entry ∈ builder.keyword.entries, entry.1 ≠ [] := by
    rintro ⟨keyword, candidate⟩ member
    obtain ⟨one, -, -, -, inside⟩ := (holds.keyword keyword candidate).mp member
    exact one.set.keywordsNonempty keyword inside
  obtain ⟨keywordLists, keywordExact⟩ := KeywordCandidateIndex.visit_build exact compiled nonempty domain
  have whole := builder.exact.visit_build domain
  have parts := fun suffix => builder.suffix.visit_build suffix
  unfold MatchCandidateIndex.visitDomain
  rw [sameExact, sameSuffix]
  refine ⟨fun list member => ?_, fun candidate => ?_⟩
  · rcases List.mem_append.mp member with early | late
    · rcases List.mem_append.mp early with inExact | inSuffix
      · exact whole.1 list inExact
      · obtain ⟨suffix, -, inside⟩ := List.mem_flatMap.mp inSuffix
        exact (parts suffix).1 list inside
    · exact keywordLists list late
  · have suffixes : candidate ∈ ((labelSuffixes domain).flatMap builder.suffix.build.visitCandidateList).flatten ↔
        ∃ suffix ∈ labelSuffixes domain, (suffix, candidate) ∈ builder.suffix.entries := by
      simp only [← (parts _).2, SparseValueIndex.visit, List.mem_flatten, List.mem_flatMap]
      constructor
      · rintro ⟨list, ⟨suffix, member, inside⟩, here⟩
        exact ⟨suffix, member, list, inside, here⟩
      · rintro ⟨suffix, member, list, inside, here⟩
        exact ⟨list, ⟨suffix, member, inside⟩, here⟩
    rw [List.flatten_append, List.flatten_append, List.mem_append, List.mem_append, suffixes, keywordExact]
    rw [← SparseValueIndex.visit, whole.2, holds.exact]
    simp only [holds.suffix, holds.keyword, AddedSet.HasDomain]
    constructor
    · rintro ((⟨one, member, same, yes, inside⟩ | ⟨suffix, label, one, member, same, yes, inside⟩) |
        ⟨keyword, ⟨one, member, same, yes, inside⟩, infix_⟩)
      · exact ⟨one, member, same, .inl ⟨yes, inside⟩⟩
      · exact ⟨one, member, same, .inr (.inl ⟨yes, suffix, label, inside⟩)⟩
      · exact ⟨one, member, same, .inr (.inr ⟨yes, keyword, inside, infix_⟩)⟩
    · rintro ⟨one, member, same, ⟨yes, inside⟩ | ⟨yes, suffix, label, inside⟩ | ⟨yes, keyword, inside, infix_⟩⟩
      · exact .inl (.inl ⟨one, member, same, yes, inside⟩)
      · exact .inl (.inr ⟨suffix, label, one, member, same, yes, inside⟩)
      · exact .inr ⟨keyword, ⟨one, member, same, yes, inside⟩, infix_⟩

theorem MatchCandidateIndexBuilder.Holds.visitIp (holds : builder.Holds added) (run : builder.build engine = .ok index)
    (address : IpAddr) :
    (∀ list ∈ index.ip.visitCandidateLists address, Ascending list) ∧
      ∀ candidate, candidate ∈ (index.ip.visitCandidateLists address).flatten ↔
        ∃ one ∈ added, one.candidate = candidate ∧ one.categories.contains .ip = true ∧ one.set.HasIp address := by
  obtain ⟨-, -, -, sameIp⟩ := build_eq_ok run
  have entries : ∀ family key candidate,
      (∀ list ∈ (index.ip.networks family).visitCandidateList key, Ascending list) ∧
        (candidate ∈ (index.ip.networks family).visit key ↔
          ∃ one ∈ added, one.candidate = candidate ∧ one.categories.contains .ip = true ∧
            key ∈ prefixKeys family one.set.ipCidrs) := by
    intro family key candidate
    rw [sameIp]
    cases family with
    | v4 => exact ⟨(builder.v4.visit_build key).1, ((builder.v4.visit_build key).2 candidate).trans (holds.v4 key candidate)⟩
    | v6 => exact ⟨(builder.v6.visit_build key).1, ((builder.v6.visit_build key).2 candidate).trans (holds.v6 key candidate)⟩
  unfold IpCandidateIndex.visitCandidateLists
  refine ⟨fun list member => ?_, fun candidate => ?_⟩
  · obtain ⟨length, -, inside⟩ := List.mem_flatMap.mp member
    exact (entries _ _ 0).1 list inside
  · simp only [List.mem_flatten, List.mem_flatMap, hasIp_iff]
    constructor
    · rintro ⟨list, ⟨length, bounded, inside⟩, here⟩
      obtain ⟨one, member, same, yes, key⟩ := (entries _ _ candidate).2.mp (List.mem_flatten.mpr ⟨list, inside, here⟩)
      exact ⟨one, member, same, yes, length, bounded, key⟩
    · rintro ⟨one, member, same, yes, length, bounded, key⟩
      obtain ⟨list, inside, here⟩ := List.mem_flatten.mp ((entries _ _ candidate).2.mpr ⟨one, member, same, yes, key⟩)
      exact ⟨list, ⟨length, bounded, inside⟩, here⟩

theorem MatchCandidateIndexBuilder.Holds.visitMatches (holds : builder.Holds added) (exact : engine.Exact)
    (run : builder.build engine = .ok index) (domain : Option CanonicalDomain) (address : Option IpAddr) :
    (∀ list ∈ index.visitMatchCandidateLists engine domain address, Ascending list) ∧
      ∀ candidate, candidate ∈ index.visitMatches engine domain address ↔
        ∃ one ∈ added, one.candidate = candidate ∧ one.Has domain address := by
  have byDomain := fun domain => holds.visitDomain exact run domain
  have byIp := holds.visitIp run
  unfold MatchCandidateIndex.visitMatches MatchCandidateIndex.visitMatchCandidateLists
  refine ⟨fun list member => ?_, fun candidate => ?_⟩
  · rcases List.mem_append.mp member with early | late
    · obtain ⟨known, -, inside⟩ := List.mem_flatMap.mp early
      exact (byDomain known.asStr).1 list inside
    · obtain ⟨known, -, inside⟩ := List.mem_flatMap.mp late
      exact (byIp known).1 list inside
  · rw [List.flatten_append, List.mem_append]
    have left : candidate ∈ (domain.toList.flatMap fun domain => index.visitDomain engine domain.asStr).flatten ↔
        ∃ one ∈ added, one.candidate = candidate ∧ ∃ known, domain = some known ∧ one.HasDomain known.asStr := by
      cases domain with
      | none => simp
      | some known => simpa using (byDomain known.asStr).2 candidate
    have right : candidate ∈ (address.toList.flatMap index.ip.visitCandidateLists).flatten ↔
        ∃ one ∈ added, one.candidate = candidate ∧
          ∃ known, address = some known ∧ one.categories.contains .ip = true ∧ one.set.HasIp known := by
      cases address with
      | none => simp
      | some known => simpa using (byIp known).2 candidate
    rw [left, right]
    simp only [AddedSet.Has]
    constructor
    · rintro (⟨one, member, same, has⟩ | ⟨one, member, same, has⟩)
      · exact ⟨one, member, same, .inl has⟩
      · exact ⟨one, member, same, .inr has⟩
    · rintro ⟨one, member, same, has | has⟩
      · exact .inl ⟨one, member, same, has⟩
      · exact .inr ⟨one, member, same, has⟩

end Built

end MatchIndex

end Ferrum.Rule
