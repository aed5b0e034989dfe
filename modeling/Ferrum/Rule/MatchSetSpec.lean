import Mathlib.Data.List.Infix
import Ferrum.Lib.Block
import Ferrum.Lib.Checks
import Ferrum.Rule.MatchSet

namespace Ferrum.Rule

open Ferrum.Core (CanonicalDomain labelSuffixes)
open Ferrum.Tun (IpAddr)

theorem mem_labelSuffixes {domain suffix : List UInt8} :
    suffix ∈ labelSuffixes domain ↔ suffix = domain ∨ (46 :: suffix) <:+ domain := by
  rw [labelSuffixes, List.mem_cons]
  refine or_congr_right ?_
  induction domain with
  | nil => simp [labelSuffixes.afterDots]
  | cons byte rest ih =>
    rw [labelSuffixes.afterDots, List.suffix_cons_iff, ← ih, List.cons.injEq]
    split
    · rename_i dot
      simp [dot]
    · rename_i other
      simp [Ne.symm other]

theorem and_prefixMask {width length value : Nat} (bounded : length ≤ width) (small : value < 2 ^ width) :
    value &&& prefixMask width length = value / 2 ^ (width - length) * 2 ^ (width - length) := by
  unfold prefixMask
  split
  · rename_i zero
    subst zero
    rw [Nat.sub_zero, Nat.div_eq_of_lt small, Nat.and_zero, Nat.zero_mul]
  · rw [← Nat.shiftRight_eq_div_pow, ← Nat.shiftLeft_eq]
    refine Nat.eq_of_testBit_eq fun i => ?_
    rw [Nat.testBit_and, Nat.testBit_mod_two_pow, Nat.testBit_shiftLeft, Nat.testBit_shiftLeft, Nat.testBit_shiftRight,
      Nat.testBit_two_pow_sub_one]
    by_cases inside : i < width
    · by_cases above : width - length ≤ i
      · have short : i - (width - length) < width := by omega
        have same : width - length + (i - (width - length)) = i := by omega
        simp [inside, above, short, same]
      · simp [above]
    · have high : value.testBit i = false :=
        Nat.testBit_lt_two_pow (small.trans_le (Nat.pow_le_pow_right (by decide) (by omega)))
      have reach : width - length ≤ i := by omega
      have same : width - length + (i - (width - length)) = i := by omega
      simp [high, same]

theorem prefixMask_lt (width length : Nat) : prefixMask width length < 2 ^ width := by
  unfold prefixMask
  split
  · exact Nat.two_pow_pos width
  · exact Nat.mod_lt _ (Nat.two_pow_pos width)

namespace IpNet

/-- The addresses of the network, as numbers. -/
def block (net : IpNet) : Block := { base := net.addr, bits := net.family.width - net.prefixLen }

/-- The network of the address's own family has it. -/
def Contains (net : IpNet) (address : IpAddr) : Prop :=
  net.family = addressFamily address ∧ net.block.Holds (addressValue address)

instance (net : IpNet) (address : IpAddr) : Decidable (net.Contains address) := inferInstanceAs (Decidable (_ ∧ _))

theorem mask_eq (family : IpFamily) (length : Nat) : family.mask length = prefixMask family.width length := by
  cases family <;> rfl

theorem addr_lt {net : IpNet} (canonical : net.addr = net.network) : net.addr < 2 ^ net.family.width := by
  rw [canonical, network, mask_eq]
  exact Nat.and_lt_two_pow _ (prefixMask_lt _ _)

theorem block_aligned {net : IpNet} (canonical : net.addr = net.network) : net.block.Aligned := by
  have small := addr_lt canonical
  rw [network, mask_eq, and_prefixMask net.bounded small] at canonical
  exact ⟨_, canonical.trans (Nat.mul_comm _ _)⟩

theorem canonical_of_aligned {net : IpNet} (small : net.addr < 2 ^ net.family.width) (aligned : net.block.Aligned) :
    net.addr = net.network := by
  obtain ⟨quotient, base⟩ := aligned
  change net.addr = 2 ^ (net.family.width - net.prefixLen) * quotient at base
  rw [network, mask_eq, and_prefixMask net.bounded small, base, Nat.mul_div_cancel_left _ (Nat.two_pow_pos _),
    Nat.mul_comm]

end IpNet

theorem addressValue_lt (address : IpAddr) : addressValue address < 2 ^ (addressFamily address).width := by
  cases address with
  | v4 address | v6 address =>
    have bound := beNat_lt address.toList
    rw [Vector.length_toList] at bound
    exact bound

theorem contains_iff_masked {net : IpNet} (canonical : net.addr = net.network) (address : IpAddr) :
    net.Contains address ↔ net.family = addressFamily address ∧
      net.network = addressValue address &&& net.family.mask net.prefixLen := by
  refine and_congr_right fun family => ?_
  have small := addressValue_lt address
  rw [← family] at small
  rw [(IpNet.block_aligned canonical).holds_iff, IpNet.mask_eq, and_prefixMask net.bounded small, ← canonical]
  obtain ⟨quotient, base⟩ := IpNet.block_aligned canonical
  have positive := net.block.size_pos
  change net.addr = net.block.size * quotient at base
  change addressValue address / net.block.size = net.addr / net.block.size ↔
    net.addr = addressValue address / net.block.size * net.block.size
  rw [base, Nat.mul_div_cancel_left _ positive, Nat.mul_comm (addressValue address / _), Nat.mul_right_inj positive.ne', eq_comm]

variable {Automaton : Type} {engine : AhoCorasick Automaton}

theorem MatchSetBuilder.build_eq_ok {builder : MatchSetBuilder} {set : CompiledMatchSet engine}
    (built : builder.build engine = .ok set) :
    (∀ domain, domain ∈ set.exactDomains ↔ domain ∈ builder.exactDomains) ∧
      (∀ domain, domain ∈ set.suffixDomains ↔ domain ∈ builder.suffixDomains) ∧
        (∀ keyword, keyword ∈ set.domainKeywords ↔ keyword ∈ builder.domainKeywords) ∧
          ∀ net, net ∈ set.ipCidrs ↔ net ∈ builder.ipCidrs := by
  obtain ⟨exact, -, built⟩ := bind_eq_ok.mp built
  obtain ⟨suffix, -, built⟩ := bind_eq_ok.mp built
  obtain ⟨keywords, -, built⟩ := bind_eq_ok.mp built
  split at built
  · obtain ⟨usage, -, built⟩ := bind_eq_ok.mp built
    split at built
    · cases built
    · cases built
      exact ⟨exact.property.2, suffix.property.2, keywords.property.2, fun _ => List.mem_insertionSort _⟩
  · cases built

/-- The compiled set answers as a scan of the values that it was compiled from. -/
theorem compiled_set_matches_declared (exact : engine.Exact) (builder : MatchSetBuilder) (set : CompiledMatchSet engine)
    (built : builder.build engine = .ok set) :
    (∀ domain : CanonicalDomain, set.matchesDomain domain = true ↔
      domain.asStr ∈ builder.exactDomains ∨
        (∃ suffix ∈ builder.suffixDomains, domain.asStr = suffix ∨ (46 :: suffix) <:+ domain.asStr) ∨
          ∃ keyword ∈ builder.domainKeywords, keyword <:+: domain.asStr) ∧
      ∀ address : IpAddr, set.matchesIp address = true ↔ ∃ net ∈ builder.ipCidrs, net.Contains address := by
  obtain ⟨exactDomains, suffixDomains, keywords, cidrs⟩ := MatchSetBuilder.build_eq_ok built
  refine ⟨fun domain => ?_, fun address => ?_⟩
  · rw [set.matchesDomain_iff exact, CompiledMatchSet.HasDomain]
    simp only [exactDomains, suffixDomains, keywords, mem_labelSuffixes]
    refine or_congr_right (or_congr_left ?_)
    constructor
    · rintro ⟨suffix, labels, member⟩
      exact ⟨suffix, member, labels.imp Eq.symm id⟩
    · rintro ⟨suffix, member, labels⟩
      exact ⟨suffix, labels.imp Eq.symm id, member⟩
  · rw [set.matchesIp_iff]
    constructor
    · rintro ⟨net, member, family, network⟩
      exact ⟨net, (cidrs net).mp member, (contains_iff_masked (set.cidrsCanonical net member) address).mpr ⟨family, network⟩⟩
    · rintro ⟨net, member, contains⟩
      have inside := (cidrs net).mpr member
      obtain ⟨family, network⟩ := (contains_iff_masked (set.cidrsCanonical net inside) address).mp contains
      exact ⟨net, inside, family, network⟩

/-- An engine that keeps the patterns and looks for each of them. -/
def scanEngine : AhoCorasick (List (List UInt8)) where
  build := some
  isMatch patterns haystack := patterns.any fun pattern => pattern <:+: haystack
  findOverlapping patterns haystack := (List.range patterns.length).filter fun i => patterns.getD i [] <:+: haystack

theorem scanEngine_exact : scanEngine.Exact where
  isMatch patterns automaton haystack built := by
    cases built
    simp [scanEngine]
  findOverlapping patterns automaton haystack i built := by
    cases built
    simp only [scanEngine, List.mem_filter, List.mem_range, decide_eq_true_eq]
    constructor
    · rintro ⟨inside, found⟩
      have here := List.getElem?_eq_getElem inside
      rw [List.getD_eq_getElem?_getD, here, Option.getD_some] at found
      exact ⟨_, here, found⟩
    · rintro ⟨pattern, here, found⟩
      obtain ⟨inside, rfl⟩ := List.getElem?_eq_some_iff.mp here
      rw [List.getD_eq_getElem?_getD, here, Option.getD_some]
      exact ⟨inside, found⟩

/-- The suffix "a.b", the keyword "z" and the network 10.0.0.0/8. -/
def sampleBuilder : MatchSetBuilder where
  exactDomains := []
  suffixDomains := [[97, 46, 98]]
  domainKeywords := [[122]]
  ipCidrs := [{ family := .v4, addr := 167772160, prefixLen := 8, bounded := by decide }]
  keywordsNonempty := by decide
  canonical := by decide

theorem sampleBuilder_matches : ∃ set, sampleBuilder.build scanEngine = .ok set ∧
    set.matchesDomain ⟨[120, 46, 97, 46, 98], by decide⟩ = true ∧ ¬set.matchesDomain ⟨[97, 97, 46, 98], by decide⟩ = true ∧
      set.matchesIp (.v4 #v[10, 1, 2, 3]) = true := by
  obtain ⟨set, built⟩ : ∃ set, sampleBuilder.build scanEngine = .ok set := ⟨_, rfl⟩
  obtain ⟨domains, addresses⟩ := compiled_set_matches_declared scanEngine_exact sampleBuilder set built
  exact ⟨set, built, (domains _).mpr (by decide), fun found => absurd ((domains _).mp found) (by decide),
    (addresses _).mpr (by decide)⟩

end Ferrum.Rule
