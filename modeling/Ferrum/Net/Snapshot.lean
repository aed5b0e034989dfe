import Mathlib.Data.Prod.Lex
import Mathlib.Data.List.Lex
import Mathlib.Data.List.MinMax
import Ferrum.Lib.SortedSlice
import Ferrum.Tun.Packet

namespace Ferrum.Net

open Ferrum.Tun (IpAddr)

inductive NetworkFamily
  | ipv4 | ipv6
  deriving DecidableEq, Repr

namespace NetworkFamily

/-- The place of a family in the derived order. -/
def rank : NetworkFamily → Nat
  | ipv4 => 0
  | ipv6 => 1

def of : IpAddr → NetworkFamily
  | .v4 _ => ipv4
  | .v6 _ => ipv6

end NetworkFamily

/-- The order of `IpAddr`: IPv4 before IPv6, then by octets. -/
def addressKey (address : IpAddr) : Nat ×ₗ List Nat :=
  toLex ((NetworkFamily.of address).rank, address.octets.map UInt8.toNat)

theorem addressKey_injective : Function.Injective addressKey := by
  intro left right same
  have parts := congrArg ofLex same
  simp only [addressKey, ofLex_toLex, Prod.mk.injEq] at parts
  obtain ⟨family, octets⟩ := parts
  have bytes : left.octets = right.octets := List.map_injective_iff.mpr (fun a b => UInt8.toNat_inj.mp) octets
  cases left with
  | v4 left =>
    cases right with
    | v4 right => exact congrArg IpAddr.v4 (Vector.toList_inj.mp bytes)
    | v6 right => simp [NetworkFamily.of, NetworkFamily.rank] at family
  | v6 left =>
    cases right with
    | v4 right => simp [NetworkFamily.of, NetworkFamily.rank] at family
    | v6 right => exact congrArg IpAddr.v6 (Vector.toList_inj.mp bytes)

instance : LinearOrder IpAddr := LinearOrder.lift' addressKey addressKey_injective

inductive InterfaceBindingError
  | incomplete
  deriving DecidableEq, Repr

/-- Stable identity and usable source addresses for one underlay interface. A name is given by its
UTF-8 bytes. -/
@[ext] structure InterfaceBinding where
  name : List UInt8
  stableId : Nat
  index : Nat
  addresses : List IpAddr
  named : name ≠ []
  identified : stableId ≠ 0 ∧ index ≠ 0
  addressesSorted : addresses.Pairwise (· < ·)

instance : DecidableEq InterfaceBinding := fun first second =>
  decidable_of_iff (first.name = second.name ∧ first.stableId = second.stableId ∧ first.index = second.index ∧
    first.addresses = second.addresses) InterfaceBinding.ext_iff.symm

section Sorting

variable {α : Type} [LinearOrder α]

/-- `sort` and then `dedup`. -/
def sortDedup (values : List α) : List α := dedupAdjacent (values.insertionSort (· ≤ ·))

theorem sortDedup_sorted (values : List α) : (sortDedup values).Pairwise (· < ·) := by
  have sorted : (values.insertionSort (· ≤ ·)).Pairwise (· ≤ ·) := List.pairwise_insertionSort _ _
  have distinct : (sortDedup values).Nodup := nodup_dedupAdjacent (fun _ _ => le_antisymm) sorted
  have weakly : (sortDedup values).Pairwise (· ≤ ·) := sorted.sublist (dedupAdjacent_sublist _)
  exact (weakly.and distinct).imp fun both => lt_of_le_of_ne both.1 both.2

end Sorting

def InterfaceBinding.new (name : List UInt8) (stableId index : Nat) (addresses : List IpAddr) :
    Except InterfaceBindingError InterfaceBinding :=
  if named : name = [] then .error .incomplete
  else if identified : stableId ≠ 0 ∧ index ≠ 0 then
    .ok ⟨name, stableId, index, sortDedup addresses, named, identified, sortDedup_sorted addresses⟩
  else .error .incomplete

def InterfaceBinding.supports (binding : InterfaceBinding) (family : NetworkFamily) : Bool :=
  binding.addresses.any fun address => NetworkFamily.of address == family

inductive NetworkInterfaceKind
  | underlay | loopback | managedTun
  deriving DecidableEq, Repr

inductive InterfaceOperationalState
  | operational | unavailable
  deriving DecidableEq, Repr

inductive InterfaceLinkState
  | connected | disconnected
  deriving DecidableEq, Repr

inductive NetworkInterfaceObservationError
  | mixedFamilies
  deriving DecidableEq, Repr

/-- One family-specific interface row captured by a read-only platform adapter. -/
structure NetworkInterfaceObservation where
  binding : InterfaceBinding
  family : NetworkFamily
  operational : InterfaceOperationalState
  connected : InterfaceLinkState
  kind : NetworkInterfaceKind
  interfaceMetric : Nat
  defaultRouteMetric : Option Nat
  usable : binding.addresses ≠ [] ∧ ∀ address ∈ binding.addresses, NetworkFamily.of address = family
  deriving DecidableEq

namespace NetworkInterfaceObservation

def new (binding : InterfaceBinding) (family : NetworkFamily) (operation : InterfaceOperationalState)
    (link : InterfaceLinkState) (kind : NetworkInterfaceKind) (interfaceMetric : Nat)
    (defaultRouteMetric : Option Nat) : Except NetworkInterfaceObservationError NetworkInterfaceObservation :=
  if usable : binding.addresses ≠ [] ∧ ∀ address ∈ binding.addresses, NetworkFamily.of address = family then
    .ok ⟨binding, family, operation, link, kind, interfaceMetric, defaultRouteMetric, usable⟩
  else .error .mixedFamilies

variable (row : NetworkInterfaceObservation)

def isAvailable : Bool :=
  row.operational == .operational && row.connected == .connected

def identity : NetworkFamily × Nat × Nat :=
  (row.family, row.binding.stableId, row.binding.index)

def nameKey : List Nat := row.binding.name.map UInt8.toNat

/-- The rank of an available underlay row with a default route. -/
def automaticRank : Option (Nat ×ₗ Nat ×ₗ Nat ×ₗ List Nat) :=
  match row.defaultRouteMetric with
  | some metric =>
    if row.isAvailable ∧ row.kind = .underlay then
      some (toLex (row.interfaceMetric + metric, toLex (row.binding.stableId, toLex (row.binding.index, row.nameKey))))
    else none
  | none => none

/-- The order of the rows in a snapshot. -/
def sortKey : Nat ×ₗ Nat ×ₗ Nat ×ₗ List Nat :=
  toLex (row.family.rank, toLex (row.binding.stableId, toLex (row.binding.index, row.nameKey)))

end NetworkInterfaceObservation

/-- Stable routing state; it excludes lifetimes that tick without routing changes. -/
structure NetworkRouteObservation where
  stableId : Nat
  index : Nat
  destination : IpAddr
  prefixLength : Nat
  nextHop : IpAddr
  metric : Nat
  deriving DecidableEq

namespace NetworkRouteObservation

variable (route : NetworkRouteObservation)

/-- The derived order compares the fields in turn. -/
def sortKey : Nat ×ₗ Nat ×ₗ IpAddr ×ₗ Nat ×ₗ IpAddr ×ₗ Nat :=
  toLex (route.stableId, toLex (route.index, toLex (route.destination, toLex (route.prefixLength,
    toLex (route.nextHop, route.metric)))))

theorem sortKey_injective : Function.Injective sortKey := by
  intro left right same
  simp only [sortKey, EmbeddingLike.apply_eq_iff_eq, Prod.mk.injEq] at same
  obtain ⟨stableId, index, destination, prefixLength, nextHop, metric⟩ := same
  cases left
  cases right
  simp only at *
  subst stableId index destination prefixLength nextHop metric
  rfl

instance : LinearOrder NetworkRouteObservation := LinearOrder.lift' sortKey sortKey_injective

/-- A route that a catalog may not return. -/
def malformed : Bool :=
  route.stableId == 0 || route.index == 0 ||
    NetworkFamily.of route.destination != NetworkFamily.of route.nextHop ||
    decide ((if route.destination.isIpv4 then 32 else 128) < route.prefixLength)

def identity : NetworkFamily × Nat × Nat :=
  (NetworkFamily.of route.destination, route.stableId, route.index)

end NetworkRouteObservation

inductive NetworkSnapshotError
  | invalid
  deriving DecidableEq, Repr

/-- Immutable, family-aware view of the current underlay network. -/
structure NetworkSnapshot where
  generation : Nat
  observationId : Nat
  routes : Option (List NetworkRouteObservation)
  ipv4Default : Option InterfaceBinding
  ipv6Default : Option InterfaceBinding
  interfaces : List NetworkInterfaceObservation
  routesSorted : ∀ rows, routes = some rows → rows.Pairwise (· < ·)

namespace NetworkSnapshot

/-- `PartialEq`: the observation token fences cache and admission races, it is no part of equality. -/
def same (left right : NetworkSnapshot) : Bool :=
  left.generation == right.generation && left.ipv4Default == right.ipv4Default &&
    left.ipv6Default == right.ipv6Default && left.interfaces == right.interfaces && left.routes == right.routes

variable {left right first second third : NetworkSnapshot}

theorem same_iff : left.same right = true ↔
    left.generation = right.generation ∧ left.ipv4Default = right.ipv4Default ∧ left.ipv6Default = right.ipv6Default ∧
      left.interfaces = right.interfaces ∧ left.routes = right.routes := by
  simp only [same, Bool.and_eq_true, beq_iff_eq, and_assoc]

variable (snapshot : NetworkSnapshot)

theorem same_refl : snapshot.same snapshot = true := by simp [same_iff]

theorem same_symm (equal : left.same right = true) : right.same left = true := by
  rw [same_iff] at equal ⊢
  obtain ⟨generation, ipv4, ipv6, interfaces, routes⟩ := equal
  exact ⟨generation.symm, ipv4.symm, ipv6.symm, interfaces.symm, routes.symm⟩

/-- No two rows share family, stable id and index. -/
def validateInterfaceIdentities : List NetworkInterfaceObservation → Except NetworkSnapshotError Unit
  | [] => .ok ()
  | row :: rest =>
    if rest.any fun candidate => candidate.identity == row.identity then .error .invalid
    else validateInterfaceIdentities rest

variable (interfaces : List NetworkInterfaceObservation)

/-- The binding of the first row of the family with the least rank. -/
def automaticDefault (family : NetworkFamily) : Option InterfaceBinding :=
  let ranked := (interfaces.filter (·.family = family)).filterMap fun row => row.automaticRank.map fun rank => (rank, row)
  (ranked.argmin Prod.fst).map fun entry => entry.2.binding

variable (generation : Nat)

def fromInterfacesWithDefaults (observationId : Nat) (interfaces : List NetworkInterfaceObservation)
    (ipv4Default ipv6Default : Option InterfaceBinding) : Except NetworkSnapshotError NetworkSnapshot :=
  match validateInterfaceIdentities interfaces with
  | .error error => .error error
  | .ok () =>
    .ok {
      generation, observationId, ipv4Default, ipv6Default
      routes := none
      interfaces := interfaces.insertionSort fun left right => left.sortKey ≤ right.sortKey
      routesSorted := nofun }

def fromInterfaces (observationId : Nat) (interfaces : List NetworkInterfaceObservation) :
    Except NetworkSnapshotError NetworkSnapshot :=
  match validateInterfaceIdentities interfaces with
  | .error error => .error error
  | .ok () =>
    fromInterfacesWithDefaults generation observationId interfaces (automaticDefault interfaces .ipv4)
      (automaticDefault interfaces .ipv6)

/-- The row that stands for a default given without its interface table. -/
def defaultObservation (binding : InterfaceBinding) (family : NetworkFamily) :
    Except NetworkSnapshotError NetworkInterfaceObservation :=
  match InterfaceBinding.new binding.name binding.stableId binding.index
      (binding.addresses.filter fun address => NetworkFamily.of address = family) with
  | .error _ => .error .invalid
  | .ok familyBinding =>
    match NetworkInterfaceObservation.new familyBinding family .operational .connected .underlay 0 (some 0) with
    | .error _ => .error .invalid
    | .ok row => .ok row

def defaultRows (default : Option InterfaceBinding) (family : NetworkFamily) :
    Except NetworkSnapshotError (List NetworkInterfaceObservation) :=
  match default with
  | some binding => (defaultObservation binding family).map fun row => [row]
  | none => .ok []

/-- Builds a snapshot whose automatic defaults are valid for their own families. -/
def new (observationId : Nat) (ipv4Default ipv6Default : Option InterfaceBinding) :
    Except NetworkSnapshotError NetworkSnapshot :=
  if ipv4Default.any (fun binding => !binding.supports .ipv4) || ipv6Default.any fun binding => !binding.supports .ipv6 then
    .error .invalid
  else do
    let ipv4Rows ← defaultRows ipv4Default .ipv4
    let ipv6Rows ← defaultRows ipv6Default .ipv6
    fromInterfacesWithDefaults generation observationId (ipv4Rows ++ ipv6Rows) ipv4Default ipv6Default

/-- The snapshot with the sorted routes of its catalog. -/
def withRoutes (routes : List NetworkRouteObservation) : NetworkSnapshot :=
  { snapshot with
    routes := some (sortDedup routes)
    routesSorted := fun _ here => Option.some.inj here ▸ sortDedup_sorted routes }

/-- Builds a complete observation, including nondefault route metrics and next hops. -/
def fromInterfacesAndRoutes (observationId : Nat) (interfaces : List NetworkInterfaceObservation)
    (routes : List NetworkRouteObservation) : Except NetworkSnapshotError NetworkSnapshot :=
  if routes.any (·.malformed) then .error .invalid
  else match fromInterfaces generation observationId interfaces with
    | .error error => .error error
    | .ok snapshot => .ok (snapshot.withRoutes routes)

/-- Retains the work generation while publishing a newly captured observation. -/
def withGeneration (generation : Nat) : NetworkSnapshot := { snapshot with generation }

def relevant (route : NetworkRouteObservation) : Bool :=
  route.prefixLength == 0 || (interfaces.map (·.identity)).contains route.identity

/-- Whether existing bound work can survive this observation. -/
def preservesWorkFrom (next previous : NetworkSnapshot) : Bool :=
  match next.routes, previous.routes with
  | some routes, some oldRoutes =>
    if next.ipv4Default ≠ previous.ipv4Default ∨ next.ipv6Default ≠ previous.ipv6Default ∨
        previous.interfaces.any fun row => !next.interfaces.contains row then false
    else if oldRoutes.any fun route => (searchSorted routes route).isNone then false
    else routes.all fun route => !relevant previous.interfaces route || (searchSorted oldRoutes route).isSome
  | _, _ => false

/-- What work bound under `previous` needs of `next`: the same defaults, every row and route, and no default route or route on
an interface of `previous` that it did not have. -/
structure PreservesWork (next previous : NetworkSnapshot) (routes oldRoutes : List NetworkRouteObservation) : Prop where
  current : next.routes = some routes
  old : previous.routes = some oldRoutes
  ipv4Default : next.ipv4Default = previous.ipv4Default
  ipv6Default : next.ipv6Default = previous.ipv6Default
  interfaces : ∀ row ∈ previous.interfaces, row ∈ next.interfaces
  kept : ∀ route ∈ oldRoutes, route ∈ routes
  known : ∀ route ∈ routes, route.prefixLength = 0 ∨ (∃ row ∈ previous.interfaces, row.identity = route.identity) →
    route ∈ oldRoutes

theorem relevant_iff {interfaces : List NetworkInterfaceObservation} {route : NetworkRouteObservation} :
    relevant interfaces route = true ↔ route.prefixLength = 0 ∨ ∃ row ∈ interfaces, row.identity = route.identity := by
  simp only [relevant, Bool.or_eq_true, beq_iff_eq, List.contains_iff_mem, List.mem_map]

theorem preservesWorkFrom_iff {next previous : NetworkSnapshot} :
    next.preservesWorkFrom previous = true ↔ ∃ routes oldRoutes, PreservesWork next previous routes oldRoutes := by
  constructor
  · intro preserved
    unfold preservesWorkFrom at preserved
    split at preserved
    · rename_i routes oldRoutes current old
      have sorted := next.routesSorted routes current
      have oldSorted := previous.routesSorted oldRoutes old
      split at preserved
      · simp at preserved
      · rename_i unchanged
        split at preserved
        · simp at preserved
        · rename_i kept
          simp only [not_or, not_not, List.any_eq_true, not_exists, not_and, Bool.not_eq_true', Bool.not_eq_false,
            List.contains_iff_mem] at unchanged
          obtain ⟨ipv4, ipv6, interfaces⟩ := unchanged
          refine ⟨routes, oldRoutes, current, old, ipv4, ipv6, interfaces, ?_, ?_⟩
          · intro route member
            by_contra absent
            rw [← searchSorted_isSome sorted, Option.not_isSome_iff_eq_none, ← Option.isNone_iff_eq_none] at absent
            exact kept (List.any_eq_true.mpr ⟨route, member, absent⟩)
          · intro route member concerns
            have searched := List.all_eq_true.mp preserved route member
            rw [relevant_iff.mpr concerns, Bool.not_true, Bool.false_or] at searched
            exact (searchSorted_isSome oldSorted route).mp searched
    · simp at preserved
  · rintro ⟨routes, oldRoutes, preserved⟩
    have sorted := next.routesSorted routes preserved.current
    have oldSorted := previous.routesSorted oldRoutes preserved.old
    simp only [preservesWorkFrom, preserved.current, preserved.old, preserved.ipv4Default, preserved.ipv6Default,
      ne_eq, not_true_eq_false, false_or]
    rw [if_neg, if_neg]
    · rw [List.all_eq_true]
      intro route member
      rw [Bool.or_eq_true, searchSorted_isSome oldSorted]
      by_cases concerns : relevant previous.interfaces route = true
      · exact Or.inr (preserved.known route member (relevant_iff.mp concerns))
      · exact Or.inl (by simpa using concerns)
    · simp only [List.any_eq_true, not_exists, not_and, Option.isNone_iff_eq_none]
      intro route member missing
      have found := (searchSorted_isSome sorted route).mpr (preserved.kept route member)
      rw [missing] at found
      simp at found
    · simp only [List.any_eq_true, not_exists, not_and, Bool.not_eq_true', Bool.not_eq_false, List.contains_iff_mem]
      exact preserved.interfaces

variable {routes : List NetworkRouteObservation}

theorem PreservesWork.trans {routes' routes'' : List NetworkRouteObservation}
    (later : PreservesWork third second routes'' routes') (earlier : PreservesWork second first routes' routes) :
    PreservesWork third first routes'' routes where
  current := later.current
  old := earlier.old
  ipv4Default := later.ipv4Default.trans earlier.ipv4Default
  ipv6Default := later.ipv6Default.trans earlier.ipv6Default
  interfaces := fun row member => later.interfaces row (earlier.interfaces row member)
  kept := fun route member => later.kept route (earlier.kept route member)
  known := by
    intro route member concerns
    -- The identities only grow along the chain, so the route concerns the middle snapshot too.
    have middle : route ∈ routes' := by
      refine later.known route member ?_
      rcases concerns with default | ⟨row, present, identity⟩
      · exact Or.inl default
      · exact Or.inr ⟨row, earlier.interfaces row present, identity⟩
    exact earlier.known route middle concerns

theorem preservesWorkFrom_trans (later : third.preservesWorkFrom second = true)
    (earlier : second.preservesWorkFrom first = true) : third.preservesWorkFrom first = true := by
  rw [preservesWorkFrom_iff] at later earlier ⊢
  obtain ⟨routes'', routes', later⟩ := later
  obtain ⟨middle, routes, earlier⟩ := earlier
  have agree : middle = routes' := Option.some.inj (earlier.current.symm.trans later.old)
  subst agree
  exact ⟨routes'', routes, later.trans earlier⟩

theorem fromInterfacesAndRoutes_routes {generation observationId : Nat} {interfaces : List NetworkInterfaceObservation}
    {snapshot : NetworkSnapshot}
    (built : fromInterfacesAndRoutes generation observationId interfaces routes = .ok snapshot) :
    snapshot.routes = some (sortDedup routes) := by
  unfold fromInterfacesAndRoutes at built
  split at built
  · simp at built
  · split at built
    · simp at built
    · cases built
      rfl

theorem preservesWorkFrom_self {snapshot : NetworkSnapshot}
    (complete : snapshot.routes = some routes) : snapshot.preservesWorkFrom snapshot = true :=
  preservesWorkFrom_iff.mpr ⟨routes, routes, complete, complete, rfl, rfl, fun _ member => member,
    fun _ member => member, fun _ member _ => member⟩

end NetworkSnapshot

end Ferrum.Net
