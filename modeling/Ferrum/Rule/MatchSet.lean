import Ferrum.Core.Target
import Ferrum.Rule.SparseIndex

namespace Ferrum.Rule

open Ferrum.Core (CanonicalDomain labelSuffixes DomainName isAscii)
open Ferrum.Tun (IpAddr)

/-- The `aho-corasick` package: an automaton over patterns, whether it finds one, and the numbers of those it reports with
overlaps. -/
structure AhoCorasick (Automaton : Type) where
  build : List (List UInt8) → Option Automaton
  isMatch : Automaton → List UInt8 → Bool
  findOverlapping : Automaton → List UInt8 → List Nat

/-- The package reports exactly the patterns that the haystack contains. -/
structure AhoCorasick.Exact {Automaton : Type} (engine : AhoCorasick Automaton) : Prop where
  isMatch : ∀ patterns automaton haystack, engine.build patterns = some automaton →
    (engine.isMatch automaton haystack = true ↔ ∃ pattern ∈ patterns, pattern <:+: haystack)
  findOverlapping : ∀ patterns automaton haystack i, engine.build patterns = some automaton →
    (i ∈ engine.findOverlapping automaton haystack ↔ ∃ pattern, patterns[i]? = some pattern ∧ pattern <:+: haystack)

/-- The bounds of `compile_keywords`, and the bytes of all patterns. -/
def keywordBytes (patterns : List (List UInt8)) : Except RuleCompileError Nat :=
  patterns.foldlM (fun bytes pattern =>
    if pattern.length > 255 then .error .resourceLimit
    else if bytes + pattern.length ≥ 2 ^ 64 then .error .resourceLimit
    else if bytes + pattern.length > 2 * 1024 * 1024 then .error .resourceLimit
    else .ok (bytes + pattern.length)) 0

def buildKeywords {Automaton : Type} (engine : AhoCorasick Automaton) (patterns : List (List UInt8)) :
    Except RuleCompileError (Option Automaton) :=
  match engine.build patterns with
  | some automaton => .ok (some automaton)
  | none => .error .internal

def compileKeywords {Automaton : Type} (engine : AhoCorasick Automaton) (patterns : List (List UInt8)) :
    Except RuleCompileError (Option Automaton) := do
  let bytes ← keywordBytes patterns
  if bytes = 0 then return none else buildKeywords engine patterns

inductive IpFamily where
  | v4 | v6
deriving DecidableEq, Repr

def IpFamily.width : IpFamily → Nat
  | .v4 => 32
  | .v6 => 128

/-- The bits of a network prefix; a shift by the full width is not made. -/
def prefixMask (width length : Nat) : Nat := if length = 0 then 0 else (2 ^ width - 1) <<< (width - length) % 2 ^ width

def maskV4 : Nat → Nat := prefixMask 32

def maskV6 : Nat → Nat := prefixMask 128

def IpFamily.mask : IpFamily → Nat → Nat
  | .v4 => maskV4
  | .v6 => maskV6

structure IpNet where
  family : IpFamily
  addr : Nat
  prefixLen : Nat
  bounded : prefixLen ≤ family.width
deriving DecidableEq

def IpNet.network (net : IpNet) : Nat := net.addr &&& net.family.mask net.prefixLen

def addressFamily : IpAddr → IpFamily
  | .v4 _ => .v4
  | .v6 _ => .v6

/-- `u32::from` or `u128::from` of the address. -/
def addressValue (address : IpAddr) : Nat := beNat address.octets

/-- The builder shared by inline fields and RuleSets; domains by their canonical bytes. -/
structure MatchSetBuilder where
  exactDomains : List (List UInt8)
  suffixDomains : List (List UInt8)
  domainKeywords : List (List UInt8)
  ipCidrs : List IpNet
  keywordsNonempty : ∀ keyword ∈ domainKeywords, keyword ≠ []
  canonical : ∀ net ∈ ipCidrs, net.addr = net.network

namespace MatchSetBuilder

def new : MatchSetBuilder := ⟨[], [], [], [], nofun, nofun⟩

variable (builder : MatchSetBuilder)

def pushExact (domain : CanonicalDomain) : MatchSetBuilder :=
  { builder with exactDomains := builder.exactDomains ++ [domain.asStr] }

def pushSuffix (domain : CanonicalDomain) : MatchSetBuilder :=
  { builder with suffixDomains := builder.suffixDomains ++ [domain.asStr] }

def addExactDomain (value : List UInt8) : Except RuleCompileError MatchSetBuilder :=
  match CanonicalDomain.new value with
  | .ok domain => .ok (builder.pushExact domain)
  | .error _ => .error .invalidDomain

def addDomain (value : DomainName) : Except RuleCompileError MatchSetBuilder :=
  match value.canonical with
  | some domain => .ok (builder.pushExact domain)
  | none => .error .invalidDomain

def addDomainSuffix (value : List UInt8) : Except RuleCompileError MatchSetBuilder :=
  match CanonicalDomain.new value with
  | .ok domain => .ok (builder.pushSuffix domain)
  | .error _ => .error .invalidDomain

def addDomainSuffixName (value : DomainName) : Except RuleCompileError MatchSetBuilder :=
  match value.canonical with
  | some domain => .ok (builder.pushSuffix domain)
  | none => .error .invalidDomain

def addDomainKeyword (value : List UInt8) : Except RuleCompileError MatchSetBuilder :=
  if accepted : value ≠ [] ∧ isAscii value = true then
    .ok { builder with
      domainKeywords := builder.domainKeywords ++ [value.map Core.toAsciiLowercase]
      keywordsNonempty := by
        intro keyword member
        rcases List.mem_append.mp member with old | last
        · exact builder.keywordsNonempty keyword old
        · rw [List.mem_singleton.mp last]
          simpa using accepted.1 }
  else .error .invalidDomain

def addIpCidr (value : IpNet) : Except RuleCompileError MatchSetBuilder :=
  if canonical : value.addr = value.network then
    .ok { builder with
      ipCidrs := builder.ipCidrs ++ [value]
      canonical := by
        intro net member
        rcases List.mem_append.mp member with old | last
        · exact builder.canonical net old
        · rw [List.mem_singleton.mp last]
          exact canonical }
  else .error .nonCanonicalCidr

def addIp (value : IpAddr) : Except RuleCompileError MatchSetBuilder :=
  builder.addIpCidr
    { family := addressFamily value, addr := addressValue value, prefixLen := (addressFamily value).width, bounded := le_rfl }

end MatchSetBuilder

/-- `windows(2).any(|pair| pair[0] == pair[1])`. -/
def hasAdjacentEqual {α : Type} [DecidableEq α] : List α → Bool
  | first :: second :: rest => first = second || hasAdjacentEqual (second :: rest)
  | _ => false

theorem pairwise_ne_of_not_hasAdjacentEqual {α : Type} [DecidableEq α] {order : α → α → Prop} {values : List α}
    (antisymm : ∀ a ∈ values, ∀ b ∈ values, order a b → order b a → a = b) (sorted : values.Pairwise order)
    (distinct : hasAdjacentEqual values = false) : values.Pairwise fun a b => order a b ∧ a ≠ b := by
  induction values with
  | nil => exact .nil
  | cons first rest ih =>
    obtain ⟨below, tail⟩ := List.pairwise_cons.mp sorted
    cases rest with
    | nil => exact List.pairwise_singleton _ _
    | cons second rest =>
      simp only [hasAdjacentEqual, Bool.or_eq_false_iff, decide_eq_false_iff_not] at distinct
      refine List.pairwise_cons.mpr ⟨fun other member => ⟨below other member, ?_⟩, ?_⟩
      · rintro rfl
        rcases List.mem_cons.mp member with same | later
        · exact distinct.1 same
        · have before := below second List.mem_cons_self
          have after := (List.pairwise_cons.mp tail).1 first later
          exact distinct.1 (antisymm first List.mem_cons_self second (by simp) before after)
      · exact ih (fun a inA b inB => antisymm a (List.mem_cons_of_mem _ inA) b (List.mem_cons_of_mem _ inB)) tail distinct.2

/-- `sort_unique`: the values in order, or a duplicate. -/
def sortUnique {T : Type} [LinearOrder T] (values : List T) :
    Except RuleCompileError { sorted : List T // sorted.Pairwise (· < ·) ∧ ∀ value, value ∈ sorted ↔ value ∈ values } :=
  if distinct : hasAdjacentEqual (values.insertionSort (· ≤ ·)) = false then
    .ok ⟨values.insertionSort (· ≤ ·),
      (pairwise_ne_of_not_hasAdjacentEqual (fun _ _ _ _ => le_antisymm) (List.pairwise_insertionSort _ _) distinct).imp
        fun both => lt_of_le_of_ne both.1 both.2,
      fun _ => List.mem_insertionSort _⟩
  else .error .duplicateValue

/-- The order of `sort_by_key` on the networks: family, prefix length, network. -/
def IpNet.sortKeyLe (left right : IpNet) : Prop :=
  (left.family = .v4 ∧ right.family = .v6) ∨ left.family = right.family ∧
    (left.prefixLen < right.prefixLen ∨ left.prefixLen = right.prefixLen ∧ left.network ≤ right.network)

instance : DecidableRel IpNet.sortKeyLe := fun _ _ => inferInstanceAs (Decidable (_ ∨ _))

instance : Std.Total IpNet.sortKeyLe where
  total left right := by
    unfold IpNet.sortKeyLe
    cases left.family <;> cases right.family <;> simp <;> omega

instance : IsTrans IpNet IpNet.sortKeyLe where
  trans left middle right := by
    unfold IpNet.sortKeyLe
    cases left.family <;> cases middle.family <;> cases right.family <;> simp <;> omega

theorem IpNet.eq_of_sortKeyLe {left right : IpNet} (canonical : left.addr = left.network)
    (canonical' : right.addr = right.network) (le : left.sortKeyLe right) (ge : right.sortKeyLe left) : left = right := by
  obtain ⟨family, addr, prefixLen, bounded⟩ := left
  obtain ⟨family', addr', prefixLen', bounded'⟩ := right
  unfold IpNet.sortKeyLe at le ge
  rw [← canonical, ← canonical'] at le ge
  have families : family = family' := by
    cases family <;> cases family' <;> first | rfl | simp at le ge
  subst families
  have values : prefixLen = prefixLen' ∧ addr = addr' := by
    cases family <;> simp only [reduceCtorEq, and_false, false_and, true_and, false_or] at le ge <;> omega
  obtain ⟨rfl, rfl⟩ := values
  rfl

structure PrefixGroup where
  length : Nat
  networks : List Nat

structure IpPrefixIndex where
  v4 : List PrefixGroup
  v6 : List PrefixGroup

/-- `group_v4` and `group_v6`: the entries in order, cut where the length changes. -/
def groupPrefixes (entries : List (Nat × Nat)) : List PrefixGroup :=
  (groupRuns (entries.insertionSort SparseValueIndexBuilder.entryLe)).map fun run => ⟨run.1, run.2⟩

def prefixEntries (family : IpFamily) (networks : List IpNet) : List (Nat × Nat) :=
  (networks.filter (·.family = family)).map fun net => (net.prefixLen, net.network)

namespace IpPrefixIndex

def build (networks : List IpNet) : IpPrefixIndex :=
  { v4 := groupPrefixes (prefixEntries .v4 networks), v6 := groupPrefixes (prefixEntries .v6 networks) }

def groups (index : IpPrefixIndex) : IpFamily → List PrefixGroup
  | .v4 => index.v4
  | .v6 => index.v6

def «matches» (index : IpPrefixIndex) (address : IpAddr) : Bool :=
  (index.groups (addressFamily address)).any fun group =>
    (searchSorted group.networks (addressValue address &&& (addressFamily address).mask group.length)).isSome

end IpPrefixIndex

structure MatchSetCapabilities where
  exactDomain : Bool
  domainSuffix : Bool
  domainKeyword : Bool
  ipCidr : Bool
deriving DecidableEq, Repr

inductive DomainMatchType where
  | exact | suffix | keyword
deriving DecidableEq, Repr

structure MatchSetResourceUsage where
  entries : Nat
  expandedBytes : Nat
  keywordBytes : Nat
deriving DecidableEq, Repr

def MatchSetResourceUsage.empty : MatchSetResourceUsage := ⟨0, 0, 0⟩

def MatchSetResourceUsage.checkedAdd (usage additional : MatchSetResourceUsage) :
    Except RuleCompileError MatchSetResourceUsage := do
  let entries ← Rule.checkedAdd usage.entries additional.entries
  let expandedBytes ← Rule.checkedAdd usage.expandedBytes additional.expandedBytes
  let keywordBytes ← Rule.checkedAdd usage.keywordBytes additional.keywordBytes
  return { entries, expandedBytes, keywordBytes }

/-- One composite set, whose categories are ORed; its lists are sorted and its indexes are those of its lists. -/
structure CompiledMatchSet {Automaton : Type} (engine : AhoCorasick Automaton) where
  exactDomains : List (List UInt8)
  suffixDomains : List (List UInt8)
  domainKeywords : List (List UInt8)
  keywordMatcher : Option Automaton
  ipCidrs : List IpNet
  ipPrefixes : IpPrefixIndex
  resourceUsage : MatchSetResourceUsage
  exactSorted : exactDomains.Pairwise (· < ·)
  suffixSorted : suffixDomains.Pairwise (· < ·)
  keywordsSorted : domainKeywords.Pairwise (· < ·)
  keywordsNonempty : ∀ keyword ∈ domainKeywords, keyword ≠ []
  keywordsCompiled : compileKeywords engine domainKeywords = .ok keywordMatcher
  cidrsDistinct : ipCidrs.Nodup
  cidrsCanonical : ∀ net ∈ ipCidrs, net.addr = net.network
  prefixesBuilt : ipPrefixes = .build ipCidrs

/-- The sum of the lengths, with `checked_add`. -/
def addLengths (total : Nat) (values : List (List UInt8)) : Except RuleCompileError Nat :=
  values.foldlM (fun total value => checkedAdd total value.length) total

def matchSetUsage (exact suffix keywords : List (List UInt8)) (cidrs : List IpNet) :
    Except RuleCompileError MatchSetResourceUsage := do
  let keywordBytes ← addLengths 0 keywords
  let expandedBytes ← addLengths keywordBytes (exact ++ suffix)
  let entries ← [exact.length, suffix.length, keywords.length, cidrs.length].foldlM checkedAdd 0
  return { entries, expandedBytes, keywordBytes }

variable {Automaton : Type} {engine : AhoCorasick Automaton}

/-- `MatchSetBuilder::build`: the sorted lists and networks without duplicates, the usage, the keyword automaton and the prefix
index. -/
def MatchSetBuilder.build (engine : AhoCorasick Automaton) (builder : MatchSetBuilder) :
    Except RuleCompileError (CompiledMatchSet engine) := do
  let exact ← sortUnique builder.exactDomains
  let suffix ← sortUnique builder.suffixDomains
  let keywords ← sortUnique builder.domainKeywords
  if distinct : hasAdjacentEqual (builder.ipCidrs.insertionSort IpNet.sortKeyLe) = false then
    let resourceUsage ← matchSetUsage exact.val suffix.val keywords.val (builder.ipCidrs.insertionSort IpNet.sortKeyLe)
    match compiled : compileKeywords engine keywords.val with
    | .error error => .error error
    | .ok keywordMatcher =>
      return {
        exactDomains := exact.val
        suffixDomains := suffix.val
        domainKeywords := keywords.val
        keywordMatcher
        ipCidrs := builder.ipCidrs.insertionSort IpNet.sortKeyLe
        ipPrefixes := .build (builder.ipCidrs.insertionSort IpNet.sortKeyLe)
        resourceUsage
        exactSorted := exact.property.1
        suffixSorted := suffix.property.1
        keywordsSorted := keywords.property.1
        keywordsNonempty := fun keyword member => builder.keywordsNonempty keyword ((keywords.property.2 keyword).mp member)
        keywordsCompiled := compiled
        cidrsDistinct :=
          (pairwise_ne_of_not_hasAdjacentEqual
            (fun _ left _ right => IpNet.eq_of_sortKeyLe (builder.canonical _ ((List.mem_insertionSort _).mp left))
              (builder.canonical _ ((List.mem_insertionSort _).mp right)))
            (List.pairwise_insertionSort IpNet.sortKeyLe builder.ipCidrs) distinct).imp fun both => both.2
        cidrsCanonical := fun net member => builder.canonical net ((List.mem_insertionSort _).mp member)
        prefixesBuilt := rfl }
  else .error .duplicateValue

namespace CompiledMatchSet

variable (set : CompiledMatchSet engine)

def capabilities : MatchSetCapabilities :=
  { exactDomain := !set.exactDomains.isEmpty, domainSuffix := !set.suffixDomains.isEmpty
    domainKeyword := !set.domainKeywords.isEmpty, ipCidr := !set.ipCidrs.isEmpty }

def isEmpty : Bool := set.capabilities = ⟨false, false, false, false⟩

/-- `has_same_content`: the normalized declarations agree. -/
def hasSameContent (other : CompiledMatchSet engine) : Bool :=
  set.exactDomains = other.exactDomains ∧ set.suffixDomains = other.suffixDomains ∧
    set.domainKeywords = other.domainKeywords ∧ set.ipCidrs = other.ipCidrs

def matchesSuffix (domain : List UInt8) : Bool :=
  (labelSuffixes domain).any fun suffix => (searchSorted set.suffixDomains suffix).isSome

def keywordMatch (domain : List UInt8) : Bool :=
  set.keywordMatcher.any fun automaton => engine.isMatch automaton domain

/-- The first category that matches. -/
def domainMatchType (domain : CanonicalDomain) : Option DomainMatchType :=
  if (searchSorted set.exactDomains domain.asStr).isSome then some .exact
  else if set.matchesSuffix domain.asStr then some .suffix
  else if set.keywordMatch domain.asStr then some .keyword
  else none

def matchesDomain (domain : CanonicalDomain) : Bool := (set.domainMatchType domain).isSome

def matchesIp (address : IpAddr) : Bool := set.ipPrefixes.matches address

def «matches» (domain : Option CanonicalDomain) (address : Option IpAddr) : Bool :=
  domain.any set.matchesDomain || address.any set.matchesIp

end CompiledMatchSet

theorem keywordBytes_zero {patterns : List (List UInt8)} {start : Nat}
    (run : patterns.foldlM (fun bytes pattern =>
      if pattern.length > 255 then .error .resourceLimit
      else if bytes + pattern.length ≥ 2 ^ 64 then .error .resourceLimit
      else if bytes + pattern.length > 2 * 1024 * 1024 then .error .resourceLimit
      else .ok (bytes + pattern.length)) start = (.ok 0 : Except RuleCompileError Nat)) :
    start = 0 ∧ ∀ pattern ∈ patterns, pattern = [] := by
  induction patterns generalizing start with
  | nil =>
    cases run
    exact ⟨rfl, nofun⟩
  | cons pattern rest ih =>
    rw [List.foldlM_cons] at run
    split at run
    · cases run
    · split at run
      · cases run
      · split at run
        · cases run
        · obtain ⟨zero, empty⟩ := ih run
          have length : pattern.length = 0 := by omega
          refine ⟨by omega, fun other member => ?_⟩
          rcases List.mem_cons.mp member with rfl | later
          · exact List.length_eq_zero_iff.mp length
          · exact empty other later

theorem compileKeywords_ok {patterns : List (List UInt8)} {matcher : Option Automaton}
    (run : compileKeywords engine patterns = .ok matcher) :
    (matcher = none ∧ ∀ pattern ∈ patterns, pattern = []) ∨
      ∃ automaton, matcher = some automaton ∧ engine.build patterns = some automaton := by
  unfold compileKeywords at run
  cases counted : keywordBytes patterns with
  | error error =>
    rw [counted] at run
    cases run
  | ok bytes =>
    rw [counted] at run
    change (if bytes = 0 then pure none else buildKeywords engine patterns) = _ at run
    split at run
    · rename_i zero
      subst zero
      cases run
      exact .inl ⟨rfl, (keywordBytes_zero counted).2⟩
    · unfold buildKeywords at run
      split at run
      · rename_i automaton built
        cases run
        exact .inr ⟨automaton, rfl, built⟩
      · cases run

namespace CompiledMatchSet

variable (set : CompiledMatchSet engine)

def HasDomain (domain : List UInt8) : Prop :=
  domain ∈ set.exactDomains ∨ (∃ suffix ∈ labelSuffixes domain, suffix ∈ set.suffixDomains) ∨
    ∃ keyword ∈ set.domainKeywords, keyword <:+: domain

def HasIp (address : IpAddr) : Prop :=
  ∃ net ∈ set.ipCidrs, net.family = addressFamily address ∧
    net.network = addressValue address &&& net.family.mask net.prefixLen

theorem matchesSuffix_iff (domain : List UInt8) :
    set.matchesSuffix domain = true ↔ ∃ suffix ∈ labelSuffixes domain, suffix ∈ set.suffixDomains := by
  simp only [matchesSuffix, List.any_eq_true, searchSorted_isSome set.suffixSorted]

theorem keywordMatch_iff (exact : engine.Exact) (set : CompiledMatchSet engine) (domain : List UInt8) :
    set.keywordMatch domain = true ↔ ∃ keyword ∈ set.domainKeywords, keyword <:+: domain := by
  unfold keywordMatch
  rcases compileKeywords_ok set.keywordsCompiled with ⟨absent, empty⟩ | ⟨automaton, present, built⟩
  · rw [absent]
    simp only [Option.any_none, Bool.false_eq_true, false_iff, not_exists, not_and]
    intro keyword member
    exact absurd (empty keyword member) (set.keywordsNonempty keyword member)
  · rw [present, Option.any_some]
    exact exact.isMatch _ _ _ built

theorem matchesDomain_iff (exact : engine.Exact) (set : CompiledMatchSet engine) (domain : CanonicalDomain) :
    set.matchesDomain domain = true ↔ set.HasDomain domain.asStr := by
  have suffix := set.matchesSuffix_iff domain.asStr
  have keyword := set.keywordMatch_iff exact domain.asStr
  have whole := searchSorted_isSome set.exactSorted domain.asStr
  unfold matchesDomain domainMatchType HasDomain
  rw [← suffix, ← keyword, ← whole]
  split
  · rename_i found
    simp [found]
  · rename_i missing
    split
    · rename_i found
      simp [found]
    · rename_i missingSuffix
      split
      · rename_i found
        simp [found]
      · rename_i missingKeyword
        simp [missing, missingSuffix, missingKeyword]

theorem groupPrefixes_spec {entries : List (Nat × Nat)} (distinct : entries.Nodup) :
    (∀ group ∈ groupPrefixes entries, group.networks.Pairwise (· < ·)) ∧
      ∀ length network, (∃ group ∈ groupPrefixes entries, group.length = length ∧ network ∈ group.networks) ↔
        (length, network) ∈ entries := by
  have order := List.pairwise_insertionSort (SparseValueIndexBuilder.entryLe (K := Nat)) entries
  have nodup : (entries.insertionSort SparseValueIndexBuilder.entryLe).Nodup :=
    (List.perm_insertionSort _ entries).nodup_iff.mpr distinct
  have runs := groupRuns_sorted (order.imp fun le => le.elim le_of_lt fun both => both.1.le)
  refine ⟨?_, ?_⟩
  · intro group member
    obtain ⟨run, inRuns, rfl⟩ := List.mem_map.mp member
    simp only
    rw [runs.values run inRuns, List.pairwise_map]
    refine (List.Pairwise.and_mem.mp ((order.and nodup).filter (fun entry => entry.1 = run.1))).imp ?_
    rintro a b ⟨inA, inB, le, different⟩
    have keyA : a.1 = run.1 := by simpa using (List.mem_filter.mp inA).2
    have keyB : b.1 = run.1 := by simpa using (List.mem_filter.mp inB).2
    rcases le with less | ⟨same, le⟩
    · omega
    · exact lt_of_le_of_ne le fun values => different (Prod.ext same values)
  · intro length network
    rw [← List.mem_insertionSort SparseValueIndexBuilder.entryLe]
    constructor
    · rintro ⟨group, member, rfl, inside⟩
      obtain ⟨run, inRuns, rfl⟩ := List.mem_map.mp member
      simp only [runs.values run inRuns, List.mem_map, List.mem_filter, decide_eq_true_eq] at inside
      obtain ⟨entry, ⟨inEntries, key⟩, rfl⟩ := inside
      rw [← key]
      exact inEntries
    · intro inside
      obtain ⟨run, inRuns, key⟩ := (runs.keys length).mpr ⟨_, inside, rfl⟩
      refine ⟨_, List.mem_map_of_mem inRuns, key, ?_⟩
      simp only [runs.values run inRuns, List.mem_map, List.mem_filter, decide_eq_true_eq]
      exact ⟨(length, network), ⟨inside, key.symm⟩, rfl⟩

theorem mem_prefixEntries {family : IpFamily} {networks : List IpNet} {length network : Nat} :
    (length, network) ∈ prefixEntries family networks ↔
      ∃ net ∈ networks, net.family = family ∧ net.prefixLen = length ∧ net.network = network := by
  simp only [prefixEntries, List.mem_map, List.mem_filter, decide_eq_true_eq, Prod.mk.injEq]
  constructor
  · rintro ⟨net, ⟨member, family⟩, length, network⟩
    exact ⟨net, member, family, length, network⟩
  · rintro ⟨net, member, family, length, network⟩
    exact ⟨net, ⟨member, family⟩, length, network⟩

theorem prefixEntries_nodup {family : IpFamily} {networks : List IpNet} (distinct : networks.Nodup)
    (canonical : ∀ net ∈ networks, net.addr = net.network) : (prefixEntries family networks).Nodup := by
  refine .map_on ?_ (distinct.filter _)
  intro left inLeft right inRight same
  obtain ⟨memberLeft, familyLeft⟩ := List.mem_filter.mp inLeft
  obtain ⟨memberRight, familyRight⟩ := List.mem_filter.mp inRight
  have addrLeft := canonical left memberLeft
  have addrRight := canonical right memberRight
  obtain ⟨length, network⟩ := Prod.mk.inj same
  obtain ⟨leftFamily, leftAddr, leftLength, leftBounded⟩ := left
  obtain ⟨rightFamily, rightAddr, rightLength, rightBounded⟩ := right
  simp only [decide_eq_true_eq] at familyLeft familyRight
  rw [network, ← addrRight] at addrLeft
  simp only at addrLeft length
  simp [familyLeft, familyRight, addrLeft, length]

theorem groups_eq (family : IpFamily) :
    set.ipPrefixes.groups family = groupPrefixes (prefixEntries family set.ipCidrs) := by
  rw [set.prefixesBuilt]
  cases family <;> rfl

theorem matchesIp_iff (address : IpAddr) : set.matchesIp address = true ↔ set.HasIp address := by
  obtain ⟨sorted, spec⟩ := groupPrefixes_spec
    (@prefixEntries_nodup (addressFamily address) _ set.cidrsDistinct set.cidrsCanonical)
  simp only [matchesIp, IpPrefixIndex.matches, set.groups_eq, List.any_eq_true]
  constructor
  · rintro ⟨group, member, found⟩
    rw [searchSorted_isSome (sorted group member)] at found
    obtain ⟨net, inside, family, length, network⟩ := mem_prefixEntries.mp ((spec _ _).mp ⟨group, member, rfl, found⟩)
    exact ⟨net, inside, family, by rw [network, length, family]⟩
  · rintro ⟨net, inside, family, network⟩
    obtain ⟨group, member, length, found⟩ := (spec net.prefixLen net.network).mpr
      (mem_prefixEntries.mpr ⟨net, inside, family, rfl, rfl⟩)
    refine ⟨group, member, ?_⟩
    rw [searchSorted_isSome (sorted group member), length, ← family, ← network]
    exact found

end CompiledMatchSet

end Ferrum.Rule
