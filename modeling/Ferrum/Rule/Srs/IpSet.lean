import Ferrum.Lib.ZeroCount
import Ferrum.Rule.MatchSetSpec
import Ferrum.Rule.Srs.Primitives

namespace Ferrum.Rule.Srs

/-- One end of a range. -/
structure IpNumber where
  family : IpFamily
  value : Nat
  bounded : value < 2 ^ family.width
deriving DecidableEq

/-- The derived order: every IPv4 number before every IPv6 number. -/
def IpNumber.Before (a b : IpNumber) : Prop :=
  a.family = .v4 ∧ b.family = .v6 ∨ a.family = b.family ∧ a.value < b.value

instance (a b : IpNumber) : Decidable (a.Before b) := inferInstanceAs (Decidable (_ ∨ _))

/-- `family()`. -/
def IpNumber.familyNumber (number : IpNumber) : Nat :=
  match number.family with
  | .v4 => 4
  | .v6 => 6

/-- `Ipv4Net::new` and `Ipv6Net::new`. -/
def newNet (family : IpFamily) (addr prefixLen : Nat) : Checked SrsError IpNet :=
  if bounded : prefixLen ≤ family.width then .ok { family, addr, prefixLen, bounded }
  else Checked.fail (.new .invalidIpSet)

variable {R : Type}

/-- The IPv4 loop: the largest aligned block that fits, and on after it. -/
def decomposeV4 (current stop : Nat) (networks : List IpNet) : Decode R (List IpNet) := do
  let alignment := trailingZerosOf 32 current
  Stateful.assert (current ≤ stop)
  let remaining := stop - current + 1
  Stateful.assert (leadingZerosOf 64 remaining ≤ 63)
  let size := 63 - leadingZerosOf 64 remaining
  let hostBits := min alignment size
  entry 0
  Stateful.assert (hostBits ≤ 32)
  let network ← Stateful.lift (newNet .v4 current (32 - hostBits))
  Stateful.assert (hostBits < 64 ∧ current + 2 ^ hostBits < 2 ^ 64)
  if stop < current + 2 ^ hostBits then return networks ++ [network]
  else do
    Stateful.failIf (2 ^ 32 ≤ current + 2 ^ hostBits) (.new .invalidIpSet)
    decomposeV4 (current + 2 ^ hostBits) stop (networks ++ [network])
termination_by stop + 1 - current
decreasing_by
  have positive := Nat.two_pow_pos hostBits
  have same : 2 ^ hostBits = 2 ^ min (trailingZerosOf 32 current) (63 - leadingZerosOf 64 (stop - current + 1)) := rfl
  omega

/-- The bits of the largest block that the rest of a range has room for. -/
def sizeV6 (current stop : Nat) : Decode R Nat :=
  if current = 0 ∧ stop = 2 ^ 128 - 1 then pure 128
  else do
    Stateful.failIf (stop < current ∨ 2 ^ 128 ≤ stop - current + 1) (.new .invalidIpSet)
    Stateful.assert (leadingZerosOf 128 (stop - current + 1) ≤ 127)
    return 127 - leadingZerosOf 128 (stop - current + 1)

/-- The IPv6 loop, which may not add one to its largest number. -/
def decomposeV6 (current stop : Nat) (networks : List IpNet) : Decode R (List IpNet) := do
  let alignment := trailingZerosOf 128 current
  let size ← sizeV6 current stop
  let hostBits := min alignment size
  entry 0
  Stateful.assert (hostBits ≤ 128)
  let network ← Stateful.lift (newNet .v6 current (128 - hostBits))
  if hostBits = 128 then return networks ++ [network]
  else do
    Stateful.assert (hostBits < 128)
    let last := current ||| (2 ^ hostBits - 1)
    if last = stop then return networks ++ [network]
    else do
      Stateful.failIf (2 ^ 128 ≤ current + 2 ^ hostBits) (.new .invalidIpSet)
      if stop < current + 2 ^ hostBits then return networks ++ [network]
      else decomposeV6 (current + 2 ^ hostBits) stop (networks ++ [network])
termination_by stop + 1 - current
decreasing_by
  have positive := Nat.two_pow_pos hostBits
  have same : 2 ^ hostBits = 2 ^ min (trailingZerosOf 128 current) size := rfl
  omega

def decomposeIpRange (first last : IpNumber) (networks : List IpNet) : Decode R (List IpNet) :=
  match first.family, last.family with
  | .v4, .v4 => decomposeV4 first.value last.value networks
  | .v6, .v6 => decomposeV6 first.value last.value networks
  | _, _ => Stateful.fail (.new .invalidIpSet)

section Ranges

/-- One turn of a loop: an aligned network that starts here and does not reach beyond the end. -/
def Turn (family : IpFamily) (loop : Nat → List IpNet → Decode R (List IpNet)) (current stop : Nat) : Prop :=
  ∃ net : IpNet, net.family = family ∧ net.addr = current ∧ net.block.Aligned ∧ current + net.block.size ≤ stop + 1 ∧
    ∀ networks, loop current networks = do
      entry 0
      if current + net.block.size = stop + 1 then pure (networks ++ [net])
      else loop (current + net.block.size) (networks ++ [net])

/-- The networks of a whole loop, which it returns if their entries are admitted. -/
def Emits (family : IpFamily) (loop : Nat → List IpNet → Decode R (List IpNet)) (current stop : Nat) : Prop :=
  ∃ added : List IpNet, (∀ net ∈ added, net.family = family) ∧ Block.Tiles (added.map IpNet.block) current (stop + 1) ∧
    ∀ networks (context : DecodeContext R),
      (context.Admits added.length → ∃ after, loop current networks context = (.ok (networks ++ added), after)) ∧
        (¬context.Admits added.length → ∃ kind after, (kind = .entries ∨ kind = .work) ∧
          loop current networks context = (Checked.fail (.ofLimit kind), after))

theorem emits_of_turns {family : IpFamily} {loop : Nat → List IpNet → Decode R (List IpNet)} {stop : Nat}
    (turns : ∀ current ≤ stop, Turn family loop current stop) {current : Nat} (le : current ≤ stop) :
    Emits family loop current stop := by
  induction size : stop + 1 - current using Nat.strong_induction_on generalizing current with
  | _ size ih =>
    obtain ⟨net, ofFamily, here, aligned, fits, run⟩ := turns current le
    have positive := net.block.size_pos
    have base : net.block.base = current := here
    by_cases last : current + net.block.size = stop + 1
    · refine ⟨[net], by simpa using ofFamily, ?_, fun networks context => ⟨fun admits => ?_, fun refused => ?_⟩⟩
      · rw [← last, ← base]
        exact .next aligned (.done _)
      · obtain ⟨after, counted, -⟩ := entry_admitted admits
        refine ⟨after, ?_⟩
        rw [run, Stateful.bind_ok counted, if_pos last]
        rfl
      · obtain ⟨kind, after, limit, counted⟩ := entry_refused refused
        refine ⟨kind, after, limit, ?_⟩
        rw [run, Stateful.bind_error counted]
        rfl
    · have later : current + net.block.size ≤ stop := by omega
      obtain ⟨added, families, tiles, rest⟩ := ih (stop + 1 - (current + net.block.size)) (by omega) later rfl
      refine ⟨net :: added, ?_, ?_, fun networks context => ?_⟩
      · simpa using ⟨ofFamily, families⟩
      · rw [← base] at tiles ⊢
        exact .next aligned tiles
      · by_cases first : context.Admits 1
        · obtain ⟨after, counted, admits⟩ := entry_admitted first
          have step : loop current networks context = loop (current + net.block.size) (networks ++ [net]) after := by
            rw [run, Stateful.bind_ok counted, if_neg last]
          obtain ⟨done, limited⟩ := rest (networks ++ [net]) after
          rw [List.append_assoc, List.singleton_append] at done
          rw [step, List.length_cons, ← admits]
          exact ⟨done, limited⟩
        · obtain ⟨kind, after, limit, counted⟩ := entry_refused first
          have stops : loop current networks context = (Checked.fail (.ofLimit kind), after) := by
            rw [run, Stateful.bind_error counted]
            rfl
          refine ⟨fun admits => absurd ?_ first, fun _ => ⟨kind, after, limit, stops⟩⟩
          unfold DecodeContext.Admits at admits ⊢
          rw [List.length_cons] at admits
          omega

theorem hostBits_spec (width wide current : Nat) {remaining : Nat} (small : remaining < 2 ^ wide) (positive : 0 < remaining) :
    2 ^ min (trailingZerosOf width current) (wide - 1 - leadingZerosOf wide remaining) ∣ current ∧
      2 ^ min (trailingZerosOf width current) (wide - 1 - leadingZerosOf wide remaining) ≤ remaining := by
  constructor
  · exact (Nat.pow_dvd_pow 2 (Nat.min_le_left _ _)).trans (two_pow_trailingZerosOf_dvd width current)
  · exact (Nat.pow_le_pow_right (by decide) (Nat.min_le_right _ _)).trans (leadingZerosOf_spec positive small).2.2

theorem newNet_ok {family : IpFamily} {addr prefixLen : Nat} (bounded : prefixLen ≤ family.width) :
    newNet family addr prefixLen = .ok { family, addr, prefixLen, bounded } := dif_pos bounded

theorem decomposeV4_turn {current stop : Nat} (le : current ≤ stop) (small : stop < 2 ^ 32) :
    Turn (R := R) .v4 (fun current => decomposeV4 current stop) current stop := by
  have wide : stop - current + 1 < 2 ^ 64 := by omega
  obtain ⟨divides, fits⟩ := hostBits_spec 32 64 current wide (Nat.succ_pos _)
  have run := fun networks => decomposeV4.eq_def (R := R) current stop networks
  simp only [Stateful.assert_of le, Stateful.assert_of (leadingZerosOf_spec (Nat.succ_pos _) wide).1, Stateful.pure_bind] at run
  have bound := (Nat.min_le_left _ (63 - leadingZerosOf 64 (stop - current + 1))).trans (trailingZerosOf_le 32 current)
  generalize min (trailingZerosOf 32 current) (63 - leadingZerosOf 64 (stop - current + 1)) = bits at *
  have short : 32 - bits ≤ IpFamily.v4.width := Nat.sub_le _ _
  have size : 32 - (32 - bits) = bits := by omega
  refine ⟨{ family := .v4, addr := current, prefixLen := 32 - bits, bounded := short }, rfl, rfl, ?_, ?_, fun networks => ?_⟩
  · change 2 ^ (32 - (32 - bits)) ∣ current
    rwa [size]
  · change current + 2 ^ (32 - (32 - bits)) ≤ stop + 1
    rw [size]
    omega
  · have fine : bits < 64 ∧ current + 2 ^ bits < 2 ^ 64 := by omega
    change decomposeV4 current stop networks = (do
      entry 0
      if current + 2 ^ (32 - (32 - bits)) = stop + 1 then pure (networks ++ [_])
      else decomposeV4 (current + 2 ^ (32 - (32 - bits))) stop (networks ++ [_]))
    rw [run, size]
    refine Stateful.bind_congr fun _ => ?_
    simp only [Stateful.assert_of bound, newNet_ok short, Stateful.lift_ok, Stateful.assert_of fine, Stateful.pure_bind]
    by_cases last : current + 2 ^ bits = stop + 1
    · rw [if_pos last, if_pos (by omega)]
    · rw [if_neg last, if_neg (by omega), Stateful.failIf_not (by omega)]
      rfl

theorem sizeV6_eq {current stop : Nat} (le : current ≤ stop) (small : stop < 2 ^ 128) :
    ∃ size, sizeV6 (R := R) current stop = pure size ∧
      2 ^ min (trailingZerosOf 128 current) size ≤ stop - current + 1 := by
  unfold sizeV6
  by_cases whole : current = 0 ∧ stop = 2 ^ 128 - 1
  · refine ⟨128, if_pos whole, ?_⟩
    obtain ⟨rfl, rfl⟩ := whole
    exact Nat.pow_le_pow_right (by decide) (Nat.min_le_right _ 128)
  · have fits : stop - current + 1 < 2 ^ 128 := by omega
    have leading := (leadingZerosOf_spec (Nat.succ_pos _) fits).1
    refine ⟨127 - leadingZerosOf 128 (stop - current + 1), ?_, (hostBits_spec 128 128 current fits (Nat.succ_pos _)).2⟩
    rw [if_neg whole, Stateful.failIf_not (by omega), Stateful.assert_of leading]
    rfl

theorem or_low_bits {current bits : Nat} (divides : 2 ^ bits ∣ current) :
    current ||| (2 ^ bits - 1) = current + (2 ^ bits - 1) := by
  obtain ⟨quotient, rfl⟩ := divides
  exact (Nat.two_pow_add_eq_or_of_lt (Nat.sub_lt (Nat.two_pow_pos bits) Nat.one_pos) quotient).symm

theorem decomposeV6_turn {current stop : Nat} (le : current ≤ stop) (small : stop < 2 ^ 128) :
    Turn (R := R) .v6 (fun current => decomposeV6 current stop) current stop := by
  have run := fun networks => decomposeV6.eq_def (R := R) current stop networks
  obtain ⟨size, sized, fits⟩ := sizeV6_eq (R := R) le small
  have divides := (Nat.pow_dvd_pow 2 (Nat.min_le_left _ size)).trans (two_pow_trailingZerosOf_dvd 128 current)
  have bound := (Nat.min_le_left _ size).trans (trailingZerosOf_le 128 current)
  simp only [sized, Stateful.pure_bind] at run
  generalize min (trailingZerosOf 128 current) size = bits at *
  have short : 128 - bits ≤ IpFamily.v6.width := Nat.sub_le _ _
  have same : 128 - (128 - bits) = bits := by omega
  refine ⟨{ family := .v6, addr := current, prefixLen := 128 - bits, bounded := short }, rfl, rfl, ?_, ?_, fun networks => ?_⟩
  · change 2 ^ (128 - (128 - bits)) ∣ current
    rwa [same]
  · change current + 2 ^ (128 - (128 - bits)) ≤ stop + 1
    rw [same]
    omega
  · change decomposeV6 current stop networks = (do
      entry 0
      if current + 2 ^ (128 - (128 - bits)) = stop + 1 then pure (networks ++ [_])
      else decomposeV6 (current + 2 ^ (128 - (128 - bits))) stop (networks ++ [_]))
    rw [run, same]
    refine Stateful.bind_congr fun _ => ?_
    simp only [Stateful.assert_of bound, newNet_ok short, Stateful.lift_ok, Stateful.pure_bind, or_low_bits divides]
    have positive := Nat.two_pow_pos bits
    by_cases last : current + 2 ^ bits = stop + 1
    · rw [if_pos last]
      by_cases whole : bits = 128
      · rw [if_pos whole]
      · have less : bits < 128 := by omega
        rw [if_neg whole, Stateful.assert_of less, if_pos (by omega)]
        rfl
    · have less : bits < 128 := by
        refine lt_of_le_of_ne bound fun whole => last ?_
        subst whole
        omega
      rw [if_neg last, if_neg less.ne, Stateful.assert_of less, Stateful.pure_bind, if_neg (by omega),
        Stateful.failIf_not (by omega), Stateful.pure_bind, if_neg (by omega)]

theorem decomposeIpRange_emits {first last : IpNumber} (sameFamily : first.family = last.family)
    (le : first.value ≤ last.value) :
    Emits (R := R) first.family (fun _ => decomposeIpRange first last) first.value last.value := by
  have small := last.bounded
  unfold decomposeIpRange
  rw [← sameFamily] at small ⊢
  cases family : first.family with
  | v4 =>
    rw [family] at small
    exact emits_of_turns (fun current below => decomposeV4_turn below (lt_of_lt_of_le small le_rfl)) le
  | v6 =>
    rw [family] at small
    exact emits_of_turns (fun current below => decomposeV6_turn below (lt_of_lt_of_le small le_rfl)) le

end Ranges

variable [Read R]

/-- `from_be_bytes` of an address. -/
def IpNumber.ofBytes (family : IpFamily) (bytes : Vector UInt8 (family.width / 8)) : IpNumber where
  family
  value := beNat bytes.toList
  bounded := by
    have small := beNat_lt bytes.toList
    rw [Vector.length_toList] at small
    cases family with
    | v4 => exact small
    | v6 => exact small

def readIpNumber : Decode R IpNumber := do
  let length ← readUvarint
  if length = 4 then do
    let bytes ← readExact 4
    return .ofBytes .v4 bytes
  else if length = 16 then do
    let bytes ← readExact 16
    return .ofBytes .v6 bytes
  else Stateful.fail (.new .invalidIpSet)

/-- One range: its ends, their order, and the end of the range before it. -/
def readRange (previous : Option IpNumber) (networks : List IpNet) : Decode R (Option IpNumber × List IpNet) := do
  let first ← readIpNumber
  let last ← readIpNumber
  Stateful.failIf (first.family ≠ last.family ∨ last.Before first) (.new .invalidIpSet)
  Stateful.failIf (∃ stop ∈ previous, first.familyNumber < stop.familyNumber ∨ ¬stop.Before first) (.new .invalidIpSet)
  let networks ← decomposeIpRange first last networks
  return (some last, networks)

def readIpSet : Decode R (List IpNet) := do
  let version ← readByte
  Stateful.failIf (version ≠ 1) (.new .invalidIpSet)
  let rangeCount ← readBeU64
  let rangeCount ← collection rangeCount 10
  let (_, networks) ← Stateful.iterate (fun (previous, networks) => readRange previous networks) rangeCount (none, [])
  return networks


/-- A range of one family becomes aligned networks, apart from each other and in increasing order, that hold exactly its
addresses, unless the accounting has too few entries left for them; any other pair of ends is refused. -/
theorem ip_range_becomes_its_networks :
    (∀ first last : IpNumber, first.family = last.family → first.value ≤ last.value →
      ∃ added : List IpNet, (∀ net ∈ added, net.family = first.family ∧ net.addr = net.network) ∧
        (added.map IpNet.block).Pairwise Block.Apart ∧ Block.Ascending (added.map IpNet.block) ∧
        (∀ x, (∃ net ∈ added, net.block.Holds x) ↔ first.value ≤ x ∧ x ≤ last.value) ∧
        ∀ networks (context : DecodeContext R),
          (context.Admits added.length →
            ∃ after, decomposeIpRange first last networks context = (.ok (networks ++ added), after)) ∧
          (¬context.Admits added.length → ∃ kind after, (kind = .entries ∨ kind = .work) ∧
            decomposeIpRange first last networks context = (Checked.fail (.ofLimit kind), after))) ∧
      ∀ previous networks (context middle after : DecodeContext R) first last,
        readIpNumber context = (.ok first, middle) → readIpNumber middle = (.ok last, after) →
          (first.family ≠ last.family ∨ last.value < first.value) →
            readRange previous networks context = (Checked.fail (.new .invalidIpSet), after) := by
  refine ⟨fun first last sameFamily le => ?_, fun previous networks context middle after first last readFirst readLast bad => ?_⟩
  · obtain ⟨added, families, tiles, runs⟩ := decomposeIpRange_emits (R := R) sameFamily le
    refine ⟨added, fun net member => ⟨families net member, ?_⟩, ?_, tiles.ascending, fun x => ?_, runs⟩
    · have aligned := tiles.aligned _ (List.mem_map_of_mem member)
      refine IpNet.canonical_of_aligned ?_ aligned
      have inside := (tiles.holds_iff net.addr).mp ⟨_, List.mem_map_of_mem member, net.block.holds_base⟩
      have bound := last.bounded
      rw [families net member, sameFamily]
      omega
    · exact tiles.ascending.imp Block.apart_of_le
    · have holds := tiles.holds_iff x
      simp only [List.mem_map, exists_exists_and_eq_and] at holds
      rw [holds]
      omega
  · have refused : first.family ≠ last.family ∨ last.Before first := by
      by_cases same : first.family = last.family
      · exact .inr (.inr ⟨same.symm, bad.resolve_left (not_not_intro same)⟩)
      · exact .inl same
    unfold readRange
    rw [Stateful.bind_ok readFirst, Stateful.bind_ok readLast, Stateful.bind_error (Stateful.failIf_of refused after)]
    rfl

/-- All of IPv4 is one network. -/
theorem whole_ipv4_becomes_its_networks : ∃ added : List IpNet,
    (∀ x, (∃ net ∈ added, net.block.Holds x) ↔ 0 ≤ x ∧ x ≤ 2 ^ 32 - 1) ∧
      ∀ context : DecodeContext (List UInt8), context.Admits added.length →
        ∃ after, decomposeIpRange ⟨.v4, 0, by decide⟩ ⟨.v4, 2 ^ 32 - 1, by decide⟩ [] context = (.ok added, after) := by
  obtain ⟨added, -, -, -, holds, runs⟩ := (ip_range_becomes_its_networks (R := List UInt8)).1 ⟨.v4, 0, by decide⟩
    ⟨.v4, 2 ^ 32 - 1, by decide⟩ rfl (Nat.zero_le _)
  exact ⟨added, holds, fun context admits => (runs [] context).1 admits⟩

theorem IpNumber.Before.less {a b : IpNumber} (before : a.Before b) (family : a.family = b.family) : a.value < b.value := by
  rcases before with ⟨four, six⟩ | both
  · rw [four, six] at family
    cases family
  · exact both.2

theorem IpNumber.Before.trans {a b c : IpNumber} (first : a.Before b) (second : b.Before c) : a.Before c := by
  obtain ⟨a, x, small⟩ := a
  obtain ⟨b, y, small⟩ := b
  obtain ⟨c, z, small⟩ := c
  unfold Before at first second ⊢
  cases a <;> cases b <;> cases c <;> simp_all <;> omega

/-- The ends that are read one after another, while the ranges between them are decomposed. -/
inductive RangesRead : DecodeContext R → List (IpNumber × IpNumber) → DecodeContext R → Prop
  | done (context : DecodeContext R) : RangesRead context [] context
  | next {context middle decoded after last : DecodeContext R} {first stop : IpNumber} {networks more : List IpNet}
      {ranges : List (IpNumber × IpNumber)} (start : readIpNumber context = (.ok first, middle))
      (finish : readIpNumber middle = (.ok stop, decoded))
      (decomposed : decomposeIpRange first stop networks decoded = (.ok more, after)) (rest : RangesRead after ranges last) :
      RangesRead context ((first, stop) :: ranges) last

/-- Rising ranges, and canonical networks apart from each other that hold exactly the addresses of the ranges. -/
structure Covers (ranges : List (IpNumber × IpNumber)) (networks : List IpNet) : Prop where
  rising : ranges.Pairwise fun a b => a.2.Before b.1
  canonical : ∀ net ∈ networks, net.addr = net.network
  apart : networks.Pairwise fun a b => a.family = b.family → a.block.Apart b.block
  holds : ∀ family x, (∃ net ∈ networks, net.family = family ∧ net.block.Holds x) ↔
    ∃ range ∈ ranges, range.1.family = family ∧ range.2.family = family ∧ range.1.value ≤ x ∧ x ≤ range.2.value

theorem Covers.push {ranges : List (IpNumber × IpNumber)} {networks added : List IpNet} {first stop : IpNumber}
    (covers : Covers ranges networks) (later : ∀ range ∈ ranges, range.2.Before first) (family : first.family = stop.family)
    (families : ∀ net ∈ added, net.family = first.family)
    (tiles : Block.Tiles (added.map IpNet.block) first.value (stop.value + 1)) :
    Covers (ranges ++ [(first, stop)]) (networks ++ added) where
  rising := by
    refine List.pairwise_append.mpr ⟨covers.rising, List.pairwise_singleton _ _, fun range member other one => ?_⟩
    rw [List.mem_singleton.mp one]
    exact later range member
  canonical := by
    refine List.forall_mem_append.mpr ⟨covers.canonical, fun net member => ?_⟩
    have inside := (tiles.holds_iff net.addr).mp ⟨_, List.mem_map_of_mem member, net.block.holds_base⟩
    have bound := stop.bounded
    refine IpNet.canonical_of_aligned ?_ (tiles.aligned _ (List.mem_map_of_mem member))
    rw [families net member, family]
    omega
  apart := by
    refine List.pairwise_append.mpr ⟨covers.apart, ?_, fun old member new fresh same x inOld inNew => ?_⟩
    · refine List.Pairwise.imp ?_ (List.pairwise_map.mp tiles.ascending)
      exact fun le _ => Block.apart_of_le le
    · obtain ⟨range, inside, -, ofFamily, -, upper⟩ := (covers.holds _ x).mp ⟨old, member, rfl, inOld⟩
      have lower := ((tiles.holds_iff x).mp ⟨_, List.mem_map_of_mem fresh, inNew⟩).1
      have less := (later range inside).less (ofFamily.trans (same.trans (families new fresh)))
      omega
  holds := by
    intro of x
    have new := tiles.holds_iff x
    simp only [List.mem_map, exists_exists_and_eq_and] at new
    simp only [List.mem_append, or_and_right, exists_or, List.mem_singleton, exists_eq_left, covers.holds]
    refine or_congr_right ?_
    constructor
    · rintro ⟨net, member, rfl, held⟩
      have inside := new.mp ⟨net, member, held⟩
      exact ⟨(families net member).symm, (family.symm.trans (families net member).symm), inside.1, by omega⟩
    · rintro ⟨rfl, -, lower, upper⟩
      obtain ⟨net, member, held⟩ := new.mpr ⟨lower, by omega⟩
      exact ⟨net, member, families net member, held⟩

/-- None of the ranges ends behind the end of the last one. -/
def Ends (ranges : List (IpNumber × IpNumber)) (previous : Option IpNumber) : Prop :=
  ∀ range ∈ ranges, ∃ stop ∈ previous, range.2 = stop ∨ range.2.Before stop

theorem readRange_covers {ranges : List (IpNumber × IpNumber)} {previous : Option IpNumber} {networks : List IpNet}
    {context after : DecodeContext R} {result : Option IpNumber × List IpNet} (covers : Covers ranges networks)
    (latest : Ends ranges previous) (read : readRange previous networks context = (.ok result, after)) :
    ∃ range, Covers (ranges ++ [range]) result.2 ∧ Ends (ranges ++ [range]) result.1 ∧
      ∀ {more last}, RangesRead after more last → RangesRead context (range :: more) last := by
  obtain ⟨first, middle, start, read⟩ := Stateful.bind_eq_ok read
  obtain ⟨stop, decoded, finish, read⟩ := Stateful.bind_eq_ok read
  obtain ⟨_, _, ordered, read⟩ := Stateful.bind_eq_ok read
  obtain ⟨proper, rfl⟩ := Stateful.failIf_eq_ok ordered
  obtain ⟨_, _, follows, read⟩ := Stateful.bind_eq_ok read
  obtain ⟨rising, rfl⟩ := Stateful.failIf_eq_ok follows
  obtain ⟨more, last, decomposed, read⟩ := Stateful.bind_eq_ok read
  cases read
  obtain ⟨family, le⟩ := not_or.mp proper
  rw [not_not] at family
  have upward : first.value ≤ stop.value := not_lt.mp fun less => le (.inr ⟨family.symm, less⟩)
  obtain ⟨added, families, tiles, runs⟩ := decomposeIpRange_emits (R := R) family upward
  have same : networks ++ added = more := by
    by_cases admits : decoded.Admits added.length
    · obtain ⟨after, run⟩ := (runs networks decoded).1 admits
      cases run.symm.trans decomposed
      rfl
    · obtain ⟨kind, after, -, run⟩ := (runs networks decoded).2 admits
      cases run.symm.trans decomposed
  subst same
  have later : ∀ range ∈ ranges, range.2.Before first := by
    intro range member
    obtain ⟨latest, known, before⟩ := latest range member
    have here : latest.Before first := by
      by_contra not
      exact rising ⟨latest, known, .inr not⟩
    rcases before with same | before
    · exact same ▸ here
    · exact before.trans here
  refine ⟨(first, stop), covers.push later family families tiles, ?_, fun rest => .next start finish decomposed rest⟩
  refine List.forall_mem_append.mpr ⟨fun range member => ⟨stop, rfl, .inr ?_⟩, by simp⟩
  rcases later range member with ⟨four, six⟩ | ⟨of, less⟩
  · exact .inl ⟨four, family ▸ six⟩
  · exact .inr ⟨of.trans family, less.trans_le upward⟩

theorem readRanges_cover (count : Nat) : ∀ {ranges : List (IpNumber × IpNumber)} {previous : Option IpNumber}
    {networks : List IpNet} {context after : DecodeContext R} {result : Option IpNumber × List IpNet},
    Covers ranges networks → Ends ranges previous →
    Stateful.iterate (fun (previous, networks) => readRange previous networks) count (previous, networks) context =
      (.ok result, after) → ∃ more, more.length = count ∧ RangesRead context more after ∧ Covers (ranges ++ more) result.2 := by
  induction count with
  | zero =>
    intro ranges previous networks context after result covers latest run
    cases run
    exact ⟨[], rfl, .done context, by simpa using covers⟩
  | succ count ih =>
    intro ranges previous networks context after result covers latest run
    obtain ⟨middle, between, turn, run⟩ := Stateful.bind_eq_ok run
    obtain ⟨range, grown, latest, reads⟩ := readRange_covers covers latest turn
    obtain ⟨more, length, read, whole⟩ := ih grown latest run
    exact ⟨range :: more, by simp [length], reads read, by simpa using whole⟩

theorem not_hasAdjacentEqual {α : Type} [DecidableEq α] {values : List α} (distinct : values.Nodup) :
    hasAdjacentEqual values = false := by
  induction values with
  | nil => rfl
  | cons first rest ih =>
    cases rest with
    | nil => rfl
    | cons second rest =>
      obtain ⟨fresh, tail⟩ := List.nodup_cons.mp distinct
      have apart : first ≠ second := fun same => fresh (same ▸ List.mem_cons_self)
      simpa [hasAdjacentEqual, apart] using ih tail

/-- The version and the number of ranges. -/
def ipSetHeader : Decode R Nat := do
  let version ← readByte
  Stateful.failIf (version ≠ 1) (.new .invalidIpSet)
  let rangeCount ← readBeU64
  collection rangeCount 10

/-- The networks of an address set, put in a builder, never count as duplicates, and the set compiled from them has exactly the
addresses of the ranges that were read, which rise. -/
theorem ip_set_compiles_to_its_ranges (context : DecodeContext R) :
    readIpSet.Ensures context
      (fun networks after => ∃ start ranges, ipSetHeader context = (.ok ranges.length, start) ∧ RangesRead start ranges after ∧
        (ranges.Pairwise fun a b => a.2.Before b.1) ∧
        ∀ {Automaton : Type} (engine : AhoCorasick Automaton) (builder : MatchSetBuilder), builder.ipCidrs = networks →
          hasAdjacentEqual (networks.insertionSort IpNet.sortKeyLe) = false ∧
          ∀ set, builder.build engine = .ok set → ∀ address, set.matchesIp address = true ↔ ∃ range ∈ ranges,
            range.1.family = addressFamily address ∧ range.2.family = addressFamily address ∧
              range.1.value ≤ addressValue address ∧ addressValue address ≤ range.2.value)
      (fun _ _ => True) := by
  refine .of_ok fun networks after read => ?_
  obtain ⟨version, _, first, read⟩ := Stateful.bind_eq_ok read
  obtain ⟨_, _, second, read⟩ := Stateful.bind_eq_ok read
  obtain ⟨declared, _, third, read⟩ := Stateful.bind_eq_ok read
  obtain ⟨count, start, fourth, read⟩ := Stateful.bind_eq_ok read
  obtain ⟨result, last, run, read⟩ := Stateful.bind_eq_ok read
  cases read
  obtain ⟨ranges, rfl, reads, covers⟩ := readRanges_cover count ⟨.nil, by simp, .nil, by simp⟩ (by simp [Ends]) run
  rw [List.nil_append] at covers
  have header : ipSetHeader context = (.ok ranges.length, start) :=
    (Stateful.bind_ok first).trans ((Stateful.bind_ok second).trans ((Stateful.bind_ok third).trans fourth))
  refine ⟨start, ranges, header, reads, covers.rising, fun engine builder given => ⟨?_, fun set built address => ?_⟩⟩
  · refine not_hasAdjacentEqual ((List.perm_insertionSort _ _).nodup_iff.mpr (covers.apart.imp fun apart same => ?_))
    subst same
    exact apart rfl _ (Block.holds_base _) (Block.holds_base _)
  · rw [set.matchesIp_iff, ← covers.holds, ← given]
    obtain ⟨-, -, -, cidrs⟩ := builder.build_eq_ok built
    constructor
    · rintro ⟨net, member, masked⟩
      obtain ⟨family, held⟩ := (contains_iff_masked (set.cidrsCanonical net member) address).mpr masked
      exact ⟨net, (cidrs net).mp member, family, held⟩
    · rintro ⟨net, member, held⟩
      have inside := (cidrs net).mpr member
      exact ⟨net, inside, (contains_iff_masked (set.cidrsCanonical net inside) address).mp held⟩

end Ferrum.Rule.Srs
