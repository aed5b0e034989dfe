import Ferrum.Config.CaptureRoutes

namespace Ferrum.Rule.IpNet

variable {net : IpNet}

theorem reach_aligned (net : IpNet) : net.reach.Aligned := by
  change 2 ^ (net.family.width - net.prefixLen) ∣ net.addr &&& net.family.mask net.prefixLen
  refine two_pow_dvd_of_testBit fun i below => ?_
  rw [mask_eq, Nat.testBit_and, prefixMask]
  split
  · rw [Nat.zero_testBit, Bool.and_false]
  · rw [Nat.testBit_mod_two_pow, Nat.testBit_shiftLeft, decide_eq_false (Nat.not_le.mpr below), Bool.false_and,
      Bool.and_false, Bool.and_false]

theorem network_lt (net : IpNet) : net.network < 2 ^ net.family.width := by
  rw [network, mask_eq]
  exact Nat.and_lt_two_pow _ (prefixMask_lt _ _)

theorem reach_end_le (net : IpNet) : net.network + net.reach.size ≤ 2 ^ net.family.width := by
  obtain ⟨quotient, base⟩ := net.reach_aligned
  have split : net.family.width = net.family.width - net.prefixLen + net.prefixLen := by
    have := net.bounded
    omega
  have whole : 2 ^ net.family.width = net.reach.size * 2 ^ net.prefixLen := by
    rw [Block.size, reach, ← Nat.pow_add, ← split]
  have small := net.network_lt
  change net.network = net.reach.size * quotient at base
  rw [whole, base] at small ⊢
  have less : quotient < 2 ^ net.prefixLen := Nat.lt_of_mul_lt_mul_left small
  rw [← Nat.mul_succ]
  exact Nat.mul_le_mul_left _ less

theorem reach_of_aligned {block : Block} (base : net.addr = block.base) (bits : net.family.width - net.prefixLen = block.bits)
    (aligned : block.Aligned) (small : block.base < 2 ^ net.family.width) : net.reach = block := by
  obtain ⟨blockBase, blockBits⟩ := block
  change net.addr = blockBase at base
  change net.family.width - net.prefixLen = blockBits at bits
  subst base bits
  rw [reach, ← canonical_of_aligned small aligned]

theorem subnets_succ (net : IpNet) (short : net.prefixLen < net.family.width) :
    ∃ low high : IpNet, net.subnets (net.prefixLen + 1) = some [low, high] ∧ low.reach = net.reach.lower ∧
      high.reach = net.reach.upper ∧ low.family = net.family ∧ high.family = net.family ∧
        low.prefixLen = net.prefixLen + 1 ∧ high.prefixLen = net.prefixLen + 1 := by
  have valid : net.prefixLen ≤ net.prefixLen + 1 ∧ net.prefixLen + 1 ≤ net.family.width := ⟨Nat.le_succ _, short⟩
  have both : List.range (2 ^ (net.prefixLen + 1 - net.prefixLen)) = [0, 1] := by
    rw [Nat.add_sub_cancel_left]
    rfl
  have bits : net.family.width - (net.prefixLen + 1) = net.family.width - net.prefixLen - 1 := by omega
  have positive : 0 < net.reach.bits := Nat.sub_pos_of_lt short
  have size := Block.size_succ positive
  have ends := net.reach_end_le
  refine ⟨_, _, (dif_pos valid).trans (congrArg some (congrArg (List.map _) both)), ?_, ?_, rfl, rfl, rfl, rfl⟩
  · refine reach_of_aligned ?_ bits net.reach_aligned.lower net.network_lt
    change net.network + 0 * _ = net.network
    omega
  · refine reach_of_aligned ?_ bits net.reach_aligned.upper ?_
    · change net.network + 1 * 2 ^ (net.family.width - (net.prefixLen + 1)) = net.network + 2 ^ (net.reach.bits - 1)
      rw [Nat.one_mul, bits]
      rfl
    · change net.network + 2 ^ (net.reach.bits - 1) < 2 ^ net.family.width
      have half := Nat.two_pow_pos (net.reach.bits - 1)
      omega

theorem reach_cases (route exclude : IpNet) (same : route.family = exclude.family) :
    (exclude.prefixLen ≤ route.prefixLen ∧ exclude.reach.Holds route.network → route.reach.Within exclude.reach) ∧
      (¬(exclude.prefixLen ≤ route.prefixLen ∧ exclude.reach.Holds route.network) →
        ¬route.reach.Holds exclude.network → route.reach.Apart exclude.reach) ∧
      (¬(exclude.prefixLen ≤ route.prefixLen ∧ exclude.reach.Holds route.network) →
        route.reach.Holds exclude.network → route.prefixLen < route.family.width) := by
  have bits : exclude.prefixLen ≤ route.prefixLen → route.reach.bits ≤ exclude.reach.bits := by
    intro le
    unfold reach
    rw [same]
    exact Nat.sub_le_sub_left le _
  refine ⟨fun nested => ?_, fun partly outside => ?_, fun partly inside => ?_⟩
  · exact (Block.Aligned.within_iff route.reach_aligned exclude.reach_aligned (bits nested.1)).mpr nested.2
  · by_cases le : exclude.prefixLen ≤ route.prefixLen
    · exact Block.Aligned.apart route.reach_aligned exclude.reach_aligned (bits le) fun held => partly ⟨le, held⟩
    · have longer : exclude.reach.bits ≤ route.reach.bits := by
        unfold reach
        rw [same]
        exact Nat.sub_le_sub_left (Nat.le_of_not_le le) _
      exact (Block.Aligned.apart exclude.reach_aligned route.reach_aligned longer outside).symm
  · by_contra full
    have length : route.prefixLen = route.family.width := Nat.le_antisymm route.bounded (Nat.le_of_not_lt full)
    refine partly ⟨?_, ?_⟩
    · have bound := exclude.bounded
      rw [length, same]
      exact bound
    · have single : route.reach.size = 1 := by
        rw [Block.size, reach, length, Nat.sub_self]
        rfl
      have equal : exclude.network = route.network := by
        obtain ⟨lower, upper⟩ := inside
        change route.network ≤ _ at lower
        change _ < route.network + _ at upper
        omega
      rw [← equal]
      exact exclude.reach.holds_base

def Has (net : IpNet) (family : IpFamily) (address : Nat) : Prop := net.family = family ∧ net.reach.Holds address

def ApartFrom (a b : IpNet) : Prop := ∀ family address, a.Has family address → ¬b.Has family address

theorem ApartFrom.symm {a b : IpNet} (apart : a.ApartFrom b) : b.ApartFrom a :=
  fun family address inB inA => apart family address inA inB

end Ferrum.Rule.IpNet

namespace Ferrum.Config

open Ferrum.Rule (IpFamily IpNet)

def Covers (nets : List IpNet) (family : IpFamily) (address : Nat) : Prop := ∃ net ∈ nets, net.Has family address

/-- The pieces are apart from each other, and hold what the routes hold of the addresses to keep. -/
structure Carves (routes : List IpNet) (keep : IpFamily → Nat → Prop) (pieces : List IpNet) : Prop where
  covers : ∀ family address, Covers pieces family address ↔ Covers routes family address ∧ keep family address
  apart : pieces.Pairwise IpNet.ApartFrom

theorem covers_cons (net : IpNet) (nets : List IpNet) (family : IpFamily) (address : Nat) :
    Covers (net :: nets) family address ↔ net.Has family address ∨ Covers nets family address := by
  simp [Covers]

theorem covers_append (left right : List IpNet) (family : IpFamily) (address : Nat) :
    Covers (left ++ right) family address ↔ Covers left family address ∨ Covers right family address := by
  simp only [Covers, List.mem_append, or_and_right, exists_or]

theorem covers_singleton (net : IpNet) (family : IpFamily) (address : Nat) :
    Covers [net] family address ↔ net.Has family address := by
  simp [Covers]

theorem Carves.append {left right leftPieces rightPieces : List IpNet} {keep : IpFamily → Nat → Prop}
    (carvesLeft : Carves left keep leftPieces) (carvesRight : Carves right keep rightPieces)
    (apart : ∀ a ∈ left, ∀ b ∈ right, a.ApartFrom b) : Carves (left ++ right) keep (leftPieces ++ rightPieces) := by
  refine ⟨fun family address => ?_, List.pairwise_append.mpr ⟨carvesLeft.apart, carvesRight.apart, ?_⟩⟩
  · rw [covers_append, covers_append, carvesLeft.covers, carvesRight.covers, or_and_right]
  · intro a inLeft b inRight family address hasA hasB
    obtain ⟨⟨one, memberOne, hasOne⟩, -⟩ := (carvesLeft.covers family address).mp ⟨a, inLeft, hasA⟩
    obtain ⟨⟨other, memberOther, hasOther⟩, -⟩ := (carvesRight.covers family address).mp ⟨b, inRight, hasB⟩
    exact apart one memberOne other memberOther family address hasOne hasOther

variable {routes includes : List IpNet} {route exclude : IpNet} {hostBits : Nat}

theorem carves_foldlM (step : List IpNet → IpNet → Checked TunRouteField (List IpNet))
    {keep : IpFamily → Nat → Prop} {good : IpNet → Prop} (apart : routes.Pairwise IpNet.ApartFrom)
    (each : ∀ route ∈ routes, ∃ pieces, Carves [route] keep pieces ∧ (∀ piece ∈ pieces, good piece) ∧
      ∀ output, step output route = .ok (output ++ pieces)) :
    ∃ pieces, Carves routes keep pieces ∧ (∀ piece ∈ pieces, good piece) ∧
      ∀ output, routes.foldlM step output = .ok (output ++ pieces) := by
  induction routes with
  | nil => exact ⟨[], ⟨by simp [Covers], .nil⟩, by simp, fun output => by simp [pure, Except.pure]⟩
  | cons route routes ih =>
    obtain ⟨head, tail⟩ := List.pairwise_cons.mp apart
    obtain ⟨first, carvesFirst, goodFirst, runFirst⟩ := each route List.mem_cons_self
    obtain ⟨rest, carvesRest, goodRest, runRest⟩ := ih tail fun other member => each other (List.mem_cons_of_mem _ member)
    refine ⟨first ++ rest, ?_, ?_, fun output => ?_⟩
    · refine carvesFirst.append carvesRest fun a memberA b memberB => ?_
      rw [List.mem_singleton.mp memberA]
      exact head b memberB
    · exact fun piece member => (List.mem_append.mp member).elim (goodFirst piece) (goodRest piece)
    · rw [List.foldlM_cons, runFirst, ← List.append_assoc, ← runRest]
      rfl

theorem carves_halves {low high : IpNet} (positive : 0 < route.reach.bits) (lower : low.reach = route.reach.lower)
    (upper : high.reach = route.reach.upper) (familyLow : low.family = route.family) (familyHigh : high.family = route.family) :
    low.ApartFrom high ∧ ∀ family address, Covers [low, high] family address ↔ route.Has family address := by
  refine ⟨fun family address inLow inHigh => ?_, fun family address => ?_⟩
  · refine Block.halves_apart route.reach address ?_ ?_
    · rw [← lower]
      exact inLow.2
    · rw [← upper]
      exact inHigh.2
  · rw [covers_cons, covers_singleton, IpNet.Has, IpNet.Has, IpNet.Has, lower, upper, familyLow, familyHigh,
      Block.holds_halves positive, and_or_left]

theorem subtractNet_whole (same : route.family = exclude.family)
    (whole : ¬(¬(exclude.prefixLen ≤ route.prefixLen ∧ exclude.reach.Holds route.network) ∧
      route.reach.Holds exclude.network)) :
    ∃ pieces, Carves [route] (fun family address => ¬exclude.Has family address) pieces ∧
      ∀ output, subtractNet exclude hostBits route output = .ok (output ++ pieces) := by
  obtain ⟨within, outside, -⟩ := IpNet.reach_cases route exclude same
  by_cases nested : exclude.prefixLen ≤ route.prefixLen ∧ exclude.reach.Holds route.network
  · refine ⟨[], ⟨fun family address => ?_, .nil⟩, fun output => ?_⟩
    · rw [covers_singleton]
      constructor
      · rintro ⟨net, member, -⟩
        exact absurd member List.not_mem_nil
      · rintro ⟨has, kept⟩
        exact absurd ⟨same.symm.trans has.1, within nested address has.2⟩ kept
    · unfold subtractNet
      rw [if_pos nested, List.append_nil]
  · have away : ¬route.reach.Holds exclude.network := fun inside => whole ⟨nested, inside⟩
    refine ⟨[route], ⟨fun family address => ?_, List.pairwise_singleton _ _⟩, fun output => ?_⟩
    · rw [covers_singleton]
      exact ⟨fun has => ⟨has, fun excluded => outside nested away address has.2 excluded.2⟩, And.left⟩
    · unfold subtractNet
      rw [if_neg nested, if_pos away]

theorem subtractNet_carves (same : route.family = exclude.family)
    (bits : route.family.width - route.prefixLen = hostBits) :
    ∃ pieces, Carves [route] (fun family address => ¬exclude.Has family address) pieces ∧
      ∀ output, subtractNet exclude hostBits route output = .ok (output ++ pieces) := by
  induction hostBits generalizing route with
  | zero =>
    refine subtractNet_whole same fun partly => ?_
    have short := (IpNet.reach_cases route exclude same).2.2 partly.1 partly.2
    omega
  | succ hostBits ih =>
    by_cases partly : ¬(exclude.prefixLen ≤ route.prefixLen ∧ exclude.reach.Holds route.network) ∧
      route.reach.Holds exclude.network
    · have short := (IpNet.reach_cases route exclude same).2.2 partly.1 partly.2
      obtain ⟨low, high, split, lower, upper, familyLow, familyHigh, lengthLow, lengthHigh⟩ := route.subnets_succ short
      have positive : 0 < route.reach.bits := Nat.sub_pos_of_lt short
      obtain ⟨apart, halves⟩ := carves_halves positive lower upper familyLow familyHigh
      have children : ∀ child ∈ [low, high], ∃ pieces,
          Carves [child] (fun family address => ¬exclude.Has family address) pieces ∧
            (∀ piece ∈ pieces, True) ∧ ∀ output, subtractNet exclude hostBits child output = .ok (output ++ pieces) := by
        intro child member
        have spec : ∃ pieces, Carves [child] (fun family address => ¬exclude.Has family address) pieces ∧
            ∀ output, subtractNet exclude hostBits child output = .ok (output ++ pieces) := by
          rcases List.mem_pair.mp member with rfl | rfl
          · exact ih (familyLow.trans same) (by rw [familyLow, lengthLow]; omega)
          · exact ih (familyHigh.trans same) (by rw [familyHigh, lengthHigh]; omega)
        obtain ⟨pieces, carves, run⟩ := spec
        exact ⟨pieces, carves, fun _ _ => trivial, run⟩
      obtain ⟨pieces, carves, -, run⟩ := carves_foldlM (fun output child => subtractNet exclude hostBits child output)
        (List.pairwise_pair.mpr apart) children
      refine ⟨pieces, ⟨fun family address => ?_, carves.apart⟩, fun output => ?_⟩
      · rw [carves.covers, halves, covers_singleton]
      · unfold subtractNet
        rw [if_neg partly.1, if_neg (not_not_intro partly.2), split]
        exact run output
    · exact subtractNet_whole same partly

theorem subtractIpNet_carves (route exclude : IpNet) :
    ∃ pieces, Carves [route] (fun family address => ¬exclude.Has family address) pieces ∧
      ∀ output, subtractIpNet route exclude output = .ok (output ++ pieces) := by
  by_cases same : route.family = exclude.family
  · obtain ⟨pieces, carves, run⟩ := subtractNet_carves same rfl
    refine ⟨pieces, carves, fun output => (Eq.trans ?_ (run output))⟩
    unfold subtractIpNet
    rw [← same]
    cases family : route.family with
    | v4 => rfl
    | v6 => rfl
  · refine ⟨[route], ⟨fun family address => ?_, List.pairwise_singleton _ _⟩, fun output => ?_⟩
    · rw [covers_singleton]
      exact ⟨fun has => ⟨has, fun excluded => same (has.1.trans excluded.1.symm)⟩, And.left⟩
    · unfold subtractIpNet
      revert same
      cases route.family <;> cases exclude.family <;> simp

theorem excludeNet_carves (apart : includes.Pairwise IpNet.ApartFrom) (exclude : IpNet) :
    ∃ pieces, Carves includes (fun family address => ¬exclude.Has family address) pieces ∧
      excludeNet includes exclude = .ok pieces := by
  have each : ∀ route ∈ includes, ∃ pieces, Carves [route] (fun family address => ¬exclude.Has family address) pieces ∧
      (∀ piece ∈ pieces, True) ∧ ∀ output, subtractIpNet route exclude output = .ok (output ++ pieces) := by
    intro route _
    obtain ⟨pieces, carves, run⟩ := subtractIpNet_carves route exclude
    exact ⟨pieces, carves, fun _ _ => trivial, run⟩
  obtain ⟨pieces, carves, -, run⟩ := carves_foldlM (fun next route => subtractIpNet route exclude next) apart each
  exact ⟨pieces, carves, run []⟩

theorem foldlM_excludeNet_carves (apart : includes.Pairwise IpNet.ApartFrom) (excludes : List IpNet) : ∃ pieces,
    Carves includes (fun family address => ¬Covers excludes family address) pieces ∧
      excludes.foldlM excludeNet includes = .ok pieces := by
  induction excludes generalizing includes with
  | nil => exact ⟨includes, ⟨by simp [Covers], apart⟩, rfl⟩
  | cons exclude excludes ih =>
    obtain ⟨middle, first, run⟩ := excludeNet_carves apart exclude
    obtain ⟨pieces, rest, runs⟩ := ih first.apart
    refine ⟨pieces, ⟨fun family address => ?_, rest.apart⟩, ?_⟩
    · rw [rest.covers, first.covers, covers_cons, not_or, and_assoc]
    · rw [List.foldlM_cons, run, ← runs]
      rfl

theorem splitDefaultRoute_carves (route : IpNet) : ∃ pieces, Carves [route] (fun _ _ => True) pieces ∧
    (∀ piece ∈ pieces, piece.prefixLen ≠ 0) ∧ ∀ output, splitDefaultRoute output route = .ok (output ++ pieces) := by
  by_cases whole : route.prefixLen = 0
  · have short : route.prefixLen < route.family.width := by
      rw [whole]
      cases route.family <;> decide
    obtain ⟨low, high, split, lower, upper, familyLow, familyHigh, lengthLow, lengthHigh⟩ := route.subnets_succ short
    obtain ⟨apart, halves⟩ := carves_halves (Nat.sub_pos_of_lt short) lower upper familyLow familyHigh
    refine ⟨[low, high], ⟨fun family address => ?_, List.pairwise_pair.mpr apart⟩, fun piece member => ?_, fun output => ?_⟩
    · rw [halves, covers_singleton, and_true]
    · rcases List.mem_pair.mp member with rfl | rfl <;> omega
    · rw [whole] at split
      unfold splitDefaultRoute
      rw [if_pos whole, split]
      rfl
  · refine ⟨[route], ⟨fun family address => by rw [and_true], List.pairwise_singleton _ _⟩, ?_, fun output => if_neg whole⟩
    intro piece member
    rw [List.mem_singleton.mp member]
    exact whole

theorem splitDefaultRoutes_carves (apart : routes.Pairwise IpNet.ApartFrom) :
    ∃ pieces, Carves routes (fun _ _ => True) pieces ∧ (∀ piece ∈ pieces, piece.prefixLen ≠ 0) ∧
      splitDefaultRoutes routes = .ok pieces := by
  obtain ⟨pieces, carves, split, run⟩ := carves_foldlM splitDefaultRoute apart fun route _ => splitDefaultRoute_carves route
  exact ⟨pieces, carves, split, run []⟩

variable {package : IpNetPackage}

/-- What the code relies on: an aggregation keeps the addresses, and its prefixes are apart. -/
structure IpNetPackage.Aggregates (package : IpNetPackage) : Prop where
  covers : ∀ family (nets : List (FamilyNet family)) address,
    (∃ net ∈ package.aggregate family nets, net.val.reach.Holds address) ↔ ∃ net ∈ nets, net.val.reach.Holds address
  apart : ∀ family (nets : List (FamilyNet family)),
    (package.aggregate family nets).Pairwise fun a b => a.val.reach.Apart b.val.reach

theorem covers_familyNets (nets : List IpNet) (family : IpFamily) (address : Nat) :
    (∃ net ∈ familyNets family nets, net.val.reach.Holds address) ↔ Covers nets family address := by
  constructor
  · rintro ⟨⟨net, same⟩, member, holds⟩
    obtain ⟨route, inside, here⟩ := List.mem_filterMap.mp member
    split at here
    · cases here
      exact ⟨net, inside, same, holds⟩
    · cases here
  · rintro ⟨net, member, same, holds⟩
    exact ⟨⟨net, same⟩, List.mem_filterMap.mpr ⟨net, member, dif_pos same⟩, holds⟩

theorem aggregateIpNets_carves (aggregates : package.Aggregates) (nets : List IpNet) :
    Carves nets (fun _ _ => True) (aggregateIpNets package nets) := by
  have each : ∀ family other address,
      Covers ((package.aggregate family (familyNets family nets)).map Subtype.val) other address ↔
        family = other ∧ Covers nets family address := by
    intro family other address
    rw [← covers_familyNets nets family, ← aggregates.covers family (familyNets family nets)]
    constructor
    · rintro ⟨net, member, same, holds⟩
      obtain ⟨inner, inside, rfl⟩ := List.mem_map.mp member
      exact ⟨inner.property.symm.trans same, inner, inside, holds⟩
    · rintro ⟨rfl, inner, inside, holds⟩
      exact ⟨inner.val, List.mem_map_of_mem inside, inner.property, holds⟩
  have alone : ∀ family, ((package.aggregate family (familyNets family nets)).map Subtype.val).Pairwise IpNet.ApartFrom := by
    intro family
    refine List.pairwise_map.mpr ((aggregates.apart family _).imp fun apart other address inA inB => ?_)
    exact apart address inA.2 inB.2
  refine ⟨fun family address => ?_, List.pairwise_append.mpr ⟨alone .v4, alone .v6, ?_⟩⟩
  · rw [aggregateIpNets, covers_append, each, each, and_true]
    cases family <;> simp
  · intro a memberA b memberB family address inA inB
    have first := (each .v4 family address).mp ⟨a, memberA, inA⟩
    have second := (each .v6 family address).mp ⟨b, memberB, inB⟩
    exact absurd (first.1.trans second.1.symm) (by decide)

theorem carved_routes (aggregates : package.Aggregates) (included excluded : List IpNet) :
    ∃ rest routes, (aggregateIpNets package excluded).foldlM excludeNet (aggregateIpNets package included) = .ok rest ∧
      splitDefaultRoutes (aggregateIpNets package rest) = .ok routes ∧
      Carves included (fun family address => ¬Covers excluded family address) (routes.insertionSort IpNet.OrdLe) ∧
      ∀ route ∈ routes.insertionSort IpNet.OrdLe, route.prefixLen ≠ 0 := by
  obtain ⟨rest, exclusion, runExclude⟩ := foldlM_excludeNet_carves (aggregateIpNets_carves aggregates included).apart
    (aggregateIpNets package excluded)
  obtain ⟨routes, halving, halves, runSplit⟩ := splitDefaultRoutes_carves (aggregateIpNets_carves aggregates rest).apart
  have order := List.perm_insertionSort IpNet.OrdLe routes
  refine ⟨rest, routes, runExclude, runSplit, ⟨fun family address => ?_, ?_⟩, fun route member => ?_⟩
  · have same : Covers (routes.insertionSort IpNet.OrdLe) family address ↔ Covers routes family address := by
      simp only [Covers, List.mem_insertionSort]
    rw [same, halving.covers, (aggregateIpNets_carves aggregates rest).covers, exclusion.covers,
      (aggregateIpNets_carves aggregates included).covers, (aggregateIpNets_carves aggregates excluded).covers]
    simp only [and_true]
  · exact (order.pairwise_iff IpNet.ApartFrom.symm).mpr halving.apart
  · exact halves route ((List.mem_insertionSort _).mp member)

theorem safe_parseNets (enabled : EnabledFamilies) (values : List String) (field : TunRouteField) :
    Checked.Safe (parseNets package enabled values field) := by
  unfold parseNets
  induction values with
  | nil => exact Checked.safe_ok _
  | cons value values ih =>
    rw [List.mapM_cons]
    refine .bind ?_ fun net _ => Checked.Safe.bind ih fun nets _ => Checked.safe_ok _
    exact .bind (Checked.safe_okOr _ _) fun net _ =>
      Checked.Safe.bind (Checked.safe_failIf _ _) fun _ _ => Checked.safe_ok _

theorem safe_includedNets (enabled : EnabledFamilies) (includes : List String) :
    Checked.Safe (includedNets package enabled includes) := by
  unfold includedNets
  split
  · exact Checked.safe_ok _
  · exact safe_parseNets enabled includes _

theorem safe_compileCaptureRoutes (aggregates : package.Aggregates) (autoRoute : Bool)
    (includes excludes : Option (List String)) (enabled : EnabledFamilies) :
    Checked.Safe (compileCaptureRoutes package autoRoute includes excludes enabled) := by
  unfold compileCaptureRoutes
  split
  · exact .bind (Checked.safe_failIf _ _) fun _ _ =>
      Checked.Safe.bind (Checked.safe_failIf _ _) fun _ _ => Checked.safe_ok _
  · refine .bind (Checked.safe_failIf _ _) fun _ _ => Checked.Safe.bind (Checked.safe_failIf _ _) fun _ _ => ?_
    refine .bind (safe_includedNets enabled _) fun included _ => ?_
    refine .bind (Checked.safe_failIf _ _) fun _ _ => ?_
    refine .bind (safe_parseNets enabled _ _) fun excluded _ => ?_
    obtain ⟨rest, routes, runExclude, runSplit, -⟩ := carved_routes aggregates included excluded
    rw [runExclude]
    refine .bind (Checked.safe_ok _) fun value same => ?_
    cases same
    rw [runSplit]
    refine .bind (Checked.safe_ok _) fun _ _ => ?_
    exact .bind (Checked.safe_failIf _ _) fun _ _ => Checked.safe_ok _

/-- The compiled routes hold what the includes hold outside the excludes, and nothing in the compilation panics. -/
theorem capture_routes_cover (aggregates : package.Aggregates) (autoRoute : Bool) (includes excludes : Option (List String))
    (enabled : EnabledFamilies) :
    Checked.Safe (compileCaptureRoutes package autoRoute includes excludes enabled) ∧
      ∀ routes, compileCaptureRoutes package autoRoute includes excludes enabled = .ok routes →
        (autoRoute = false → includes = none ∧ excludes = none ∧ routes = []) ∧
        (autoRoute = true → ∃ included excluded,
          (includes = none → included = defaultNets enabled) ∧
          (∀ values, includes = some values → parseNets package enabled values .routeAddress = .ok included) ∧
          parseNets package enabled (excludes.getD []) .routeExcludeAddress = .ok excluded ∧
          (∀ family address, Covers routes family address ↔ Covers included family address ∧ ¬Covers excluded family address) ∧
          1 ≤ routes.length ∧ routes.length ≤ 256) ∧
        routes.Pairwise (fun a b => a.OrdLe b ∧ a.ApartFrom b) ∧ ∀ route ∈ routes, route.prefixLen ≠ 0 := by
  refine ⟨safe_compileCaptureRoutes aggregates autoRoute includes excludes enabled, fun routes compiled => ?_⟩
  unfold compileCaptureRoutes at compiled
  split at compiled
  · rename_i manual
    obtain ⟨_, noIncludes, compiled⟩ := bind_eq_ok.mp compiled
    obtain ⟨_, noExcludes, compiled⟩ := bind_eq_ok.mp compiled
    cases compiled
    refine ⟨fun _ => ⟨?_, ?_, rfl⟩, fun auto => absurd (manual.symm.trans auto) (by decide), .nil, by simp⟩
    · simpa using Checked.failIf_eq_ok.mp noIncludes
    · simpa using Checked.failIf_eq_ok.mp noExcludes
  · rename_i auto
    obtain ⟨_, someIncludes, compiled⟩ := bind_eq_ok.mp compiled
    obtain ⟨-, -, compiled⟩ := bind_eq_ok.mp compiled
    obtain ⟨included, parsedIncludes, compiled⟩ := bind_eq_ok.mp compiled
    obtain ⟨-, -, compiled⟩ := bind_eq_ok.mp compiled
    obtain ⟨excluded, parsedExcludes, compiled⟩ := bind_eq_ok.mp compiled
    obtain ⟨rest, halved, runExclude, runSplit, carves, halves⟩ := carved_routes aggregates included excluded
    obtain ⟨middle, excludes, compiled⟩ := bind_eq_ok.mp compiled
    cases runExclude.symm.trans excludes
    obtain ⟨split, splitting, compiled⟩ := bind_eq_ok.mp compiled
    cases runSplit.symm.trans splitting
    obtain ⟨_, counted, compiled⟩ := bind_eq_ok.mp compiled
    cases compiled
    have count := not_not.mp (Checked.failIf_eq_ok.mp counted)
    refine ⟨fun manual => absurd manual auto, fun _ => ⟨included, excluded, fun noIncludes => ?_, fun values given => ?_,
      parsedExcludes, carves.covers, count.1, count.2⟩, ?_, halves⟩
    · subst noIncludes
      cases parsedIncludes
      rfl
    · subst given
      have given : values ≠ [] := fun empty => Checked.failIf_eq_ok.mp someIncludes (congrArg some empty)
      exact (if_neg given).symm.trans parsedIncludes
    · exact (List.pairwise_insertionSort _ _).and carves.apart

section Sample

variable {family : IpFamily}

def Inside (a b : FamilyNet family) : Prop := a.val.reach.bits ≤ b.val.reach.bits ∧ b.val.reach.Holds a.val.reach.base

instance (a b : FamilyNet family) : Decidable (Inside a b) := inferInstanceAs (Decidable (_ ∧ _))

/-- Keeps the largest of nested prefixes. -/
def absorb (net : FamilyNet family) (nets : List (FamilyNet family)) : List (FamilyNet family) :=
  if ∃ other ∈ nets, Inside net other then nets else net :: nets.filter fun other => ¬Inside other net

variable {a b : FamilyNet family}

theorem Inside.within (inside : Inside a b) : a.val.reach.Within b.val.reach :=
  (Block.Aligned.within_iff a.val.reach_aligned b.val.reach_aligned inside.1).mpr inside.2

theorem apart_of_not_inside (left : ¬Inside a b) (right : ¬Inside b a) : a.val.reach.Apart b.val.reach := by
  rcases Nat.le_total a.val.reach.bits b.val.reach.bits with le | ge
  · exact Block.Aligned.apart a.val.reach_aligned b.val.reach_aligned le fun held => left ⟨le, held⟩
  · exact (Block.Aligned.apart b.val.reach_aligned a.val.reach_aligned ge fun held => right ⟨ge, held⟩).symm

theorem absorb_spec (net : FamilyNet family) {nets : List (FamilyNet family)}
    (apart : nets.Pairwise fun a b => a.val.reach.Apart b.val.reach) :
    (absorb net nets).Pairwise (fun a b => a.val.reach.Apart b.val.reach) ∧
      ∀ address, (∃ one ∈ absorb net nets, one.val.reach.Holds address) ↔
        net.val.reach.Holds address ∨ ∃ one ∈ nets, one.val.reach.Holds address := by
  unfold absorb
  split
  · rename_i covered
    obtain ⟨other, member, inside⟩ := covered
    refine ⟨apart, fun address => ⟨.inr, ?_⟩⟩
    rintro (held | held)
    · exact ⟨other, member, inside.within address held⟩
    · exact held
  · rename_i uncovered
    refine ⟨List.pairwise_cons.mpr ⟨fun other member => ?_, apart.filter _⟩, fun address => ?_⟩
    · obtain ⟨old, outside⟩ := List.mem_filter.mp member
      exact apart_of_not_inside (fun inside => uncovered ⟨other, old, inside⟩) (by simpa using outside)
    · simp only [List.mem_cons, exists_eq_or_imp, List.mem_filter, decide_not, Bool.not_eq_eq_eq_not, Bool.not_true,
        decide_eq_false_iff_not]
      constructor
      · rintro (held | ⟨one, ⟨old, -⟩, held⟩)
        · exact .inl held
        · exact .inr ⟨one, old, held⟩
      · rintro (held | ⟨one, old, held⟩)
        · exact .inl held
        · by_cases inside : Inside one net
          · exact .inl (inside.within address held)
          · exact .inr ⟨one, ⟨old, inside⟩, held⟩

/-- A package that knows one prefix. -/
def samplePackage : IpNetPackage where
  parse value := if value = "128.0.0.0/1" then some ⟨.v4, 2147483648, 1, by decide⟩ else none
  aggregate _ nets := nets.foldr absorb []

theorem samplePackage_aggregates : samplePackage.Aggregates := by
  have both : ∀ family (nets : List (FamilyNet family)),
      (nets.foldr absorb []).Pairwise (fun a b => a.val.reach.Apart b.val.reach) ∧
        ∀ address, (∃ one ∈ nets.foldr absorb [], one.val.reach.Holds address) ↔
          ∃ one ∈ nets, one.val.reach.Holds address := by
    intro family nets
    induction nets with
    | nil => exact ⟨.nil, fun _ => Iff.rfl⟩
    | cons net nets ih =>
      obtain ⟨apart, holds⟩ := absorb_spec net ih.1
      refine ⟨apart, fun address => ?_⟩
      rw [List.foldr_cons, holds, ih.2]
      simp only [List.mem_cons, exists_eq_or_imp]
  exact ⟨fun family nets => (both family nets).2, fun family nets => (both family nets).1⟩

theorem samplePackage_routes : ∃ routes,
    compileCaptureRoutes samplePackage true none (some ["128.0.0.0/1"]) ⟨true, false⟩ = .ok routes ∧
      ∀ route ∈ routes, route.prefixLen ≠ 0 := by
  obtain ⟨routes, compiled⟩ : ∃ routes,
      compileCaptureRoutes samplePackage true none (some ["128.0.0.0/1"]) ⟨true, false⟩ = .ok routes := ⟨_, rfl⟩
  exact ⟨routes, compiled, ((capture_routes_cover samplePackage_aggregates _ _ _ _).2 routes compiled).2.2.2⟩

end Sample

end Ferrum.Config
