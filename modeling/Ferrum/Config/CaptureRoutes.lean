import Ferrum.Lib.Checked
import Ferrum.Lib.ZeroCount
import Ferrum.Rule.MatchSetSpec

namespace Ferrum.Rule.IpNet

/-- The addresses from the network of a prefix to its broadcast address. -/
def reach (net : IpNet) : Block := { base := net.network, bits := net.family.width - net.prefixLen }

def normalized (net : IpNet) : IpNet := { net with addr := net.network }

/-- The prefixes of a longer length inside a prefix, in order; none for a length that is shorter or too long. -/
def subnets (net : IpNet) (newLen : Nat) : Option (List IpNet) :=
  if valid : net.prefixLen ≤ newLen ∧ newLen ≤ net.family.width then
    some ((List.range (2 ^ (newLen - net.prefixLen))).map fun i =>
      { family := net.family, addr := net.network + i * 2 ^ (net.family.width - newLen), prefixLen := newLen,
        bounded := valid.2 })
  else none

/-- The derived order: IPv4 first, then by address and prefix length. -/
def OrdLe (a b : IpNet) : Prop :=
  a.family = .v4 ∧ b.family = .v6 ∨
    a.family = b.family ∧ (a.addr < b.addr ∨ a.addr = b.addr ∧ a.prefixLen ≤ b.prefixLen)

instance : DecidableRel OrdLe := fun _ _ => inferInstanceAs (Decidable (_ ∨ _))

instance : Std.Total OrdLe where
  total a b := by
    unfold OrdLe
    cases a.family <;> cases b.family <;> simp <;> omega

instance : IsTrans IpNet OrdLe where
  trans a b c := by
    unfold OrdLe
    cases a.family <;> cases b.family <;> cases c.family <;> simp <;> omega

end Ferrum.Rule.IpNet

namespace Ferrum.Config

open Ferrum.Rule (IpFamily IpNet)

inductive TunRouteField
  | routeAddress
  | routeExcludeAddress
  deriving DecidableEq, Repr

/-- `Ipv4Net` and `Ipv6Net`. -/
abbrev FamilyNet (family : IpFamily) := { net : IpNet // net.family = family }

/-- The `ipnet` package: its parser, and the aggregation of the prefixes of one family. -/
structure IpNetPackage where
  parse : String → Option IpNet
  aggregate : (family : IpFamily) → List (FamilyNet family) → List (FamilyNet family)

structure EnabledFamilies where
  ipv4 : Bool
  ipv6 : Bool

def EnabledFamilies.has (enabled : EnabledFamilies) : IpFamily → Bool
  | .v4 => enabled.ipv4
  | .v6 => enabled.ipv6

/-- The prefixes of a field without their host bits; the first one that does not parse or has no family is an error. -/
def parseNets (package : IpNetPackage) (enabled : EnabledFamilies) (values : List String) (field : TunRouteField) :
    Checked TunRouteField (List IpNet) :=
  values.mapM fun value => do
    let network ← Checked.okOr (package.parse value) field
    Checked.failIf (enabled.has network.family = false) field
    return network.normalized

def defaultNet (family : IpFamily) : IpNet := { family, addr := 0, prefixLen := 0, bounded := Nat.zero_le _ }

def defaultNets (enabled : EnabledFamilies) : List IpNet :=
  (if enabled.ipv4 then [defaultNet .v4] else []) ++ (if enabled.ipv6 then [defaultNet .v6] else [])

def familyNets (family : IpFamily) (routes : List IpNet) : List (FamilyNet family) :=
  routes.filterMap fun route => if same : route.family = family then some ⟨route, same⟩ else none

def aggregateIpNets (package : IpNetPackage) (routes : List IpNet) : List IpNet :=
  (package.aggregate .v4 (familyNets .v4 routes)).map Subtype.val ++
    (package.aggregate .v6 (familyNets .v6 routes)).map Subtype.val

/-- A route without an excluded prefix of its family, by the host bits that are left to split. -/
def subtractNet (exclude : IpNet) : Nat → IpNet → List IpNet → Checked TunRouteField (List IpNet)
  | hostBits, route, output =>
    if exclude.prefixLen ≤ route.prefixLen ∧ exclude.reach.Holds route.network then .ok output
    else if ¬route.reach.Holds exclude.network then .ok (output ++ [route])
    else do
      let children ← Checked.expect (route.subnets (route.prefixLen + 1))
      match hostBits with
      | 0 => .error .panic
      | hostBits + 1 => children.foldlM (fun output child => subtractNet exclude hostBits child output) output

def subtractIpv4Net (route exclude : IpNet) (output : List IpNet) : Checked TunRouteField (List IpNet) :=
  subtractNet exclude (32 - route.prefixLen) route output

def subtractIpv6Net (route exclude : IpNet) (output : List IpNet) : Checked TunRouteField (List IpNet) :=
  subtractNet exclude (128 - route.prefixLen) route output

def subtractIpNet (route exclude : IpNet) (output : List IpNet) : Checked TunRouteField (List IpNet) :=
  match route.family, exclude.family with
  | .v4, .v4 => subtractIpv4Net route exclude output
  | .v6, .v6 => subtractIpv6Net route exclude output
  | _, _ => .ok (output ++ [route])

def splitDefaultRoute (output : List IpNet) (route : IpNet) : Checked TunRouteField (List IpNet) :=
  if route.prefixLen = 0 then do
    let halves ← Checked.expect (route.subnets 1)
    return output ++ halves
  else .ok (output ++ [route])

def splitDefaultRoutes (routes : List IpNet) : Checked TunRouteField (List IpNet) := routes.foldlM splitDefaultRoute []

def excludeNet (includes : List IpNet) (exclude : IpNet) : Checked TunRouteField (List IpNet) :=
  includes.foldlM (fun next route => subtractIpNet route exclude next) []

def includedNets (package : IpNetPackage) (enabled : EnabledFamilies) (includes : List String) :
    Checked TunRouteField (List IpNet) :=
  if includes = [] then .ok (defaultNets enabled) else parseNets package enabled includes .routeAddress

def compileCaptureRoutes (package : IpNetPackage) (autoRoute : Bool) (includes excludes : Option (List String))
    (enabled : EnabledFamilies) : Checked TunRouteField (List IpNet) :=
  if autoRoute = false then do
    Checked.failIf (includes.isSome = true) .routeAddress
    Checked.failIf (excludes.isSome = true) .routeExcludeAddress
    return []
  else do
    Checked.failIf (includes = some []) .routeAddress
    Checked.failIf (64 < (includes.getD []).length) .routeAddress
    let includes ← includedNets package enabled (includes.getD [])
    Checked.failIf (64 < (excludes.getD []).length) .routeExcludeAddress
    let excludes ← parseNets package enabled (excludes.getD []) .routeExcludeAddress
    let includes ← (aggregateIpNets package excludes).foldlM excludeNet (aggregateIpNets package includes)
    let includes ← splitDefaultRoutes (aggregateIpNets package includes)
    let includes := includes.insertionSort IpNet.OrdLe
    Checked.failIf (¬(1 ≤ includes.length ∧ includes.length ≤ 256)) .routeAddress
    return includes

end Ferrum.Config
