import Ferrum.Config.Dependency
import Ferrum.Core.SelectorCompile
import Ferrum.Lib.Bitmap
import Ferrum.Lib.HashMap

namespace Ferrum.Config

open Ferrum.Core (Tag validTag TaggedInbound TaggedOutbound TaggedPlan SelectorDefinition SelectorCompileError CompiledEgress)

/-- The fields that the egress graph and its compilation name in their errors. -/
inductive ConfigField
  | inbounds
  | inboundsTag
  | inboundsOutbound
  | tunTag
  | outbounds
  | outboundsTag
  | chains
  | chainsTag
  | chainsHops
  | selectors
  | selectorsTag
  | selectorsOutbounds
  | selectorsDefault
  | routeFinal
  | routeRuleSet
  | routeRulesOutbound
  | dnsInbounds
  | dnsServers
  | dnsServersDetour
  deriving DecidableEq, Repr

inductive ConfigError
  | semantic (field : ConfigField)
  | dependencyCycle (path : List DependencyNode)
  deriving DecidableEq, Repr

inductive PreparedEgressRef
  | outbound (index : Nat)
  | selector (index : Nat)
  | chain (index : Nat)
  deriving DecidableEq, Repr

structure RawSelector where
  tag : Tag
  outbounds : List Tag
  default : Option Tag

structure RawChain where
  tag : Option Tag
  hops : Option (List Tag)

structure RawClientInbound where
  tag : Tag

structure RawClientOutbound where
  tag : Tag
  outboundType : Option Tag

structure RawTun where
  tag : Tag

structure RawDns where
  inbounds : Option (List Tag)
  servers : Option (List Tag)

structure RawRoute where
  ruleSet : List Tag

structure RawClientRoot where
  inbounds : Option (List RawClientInbound)
  outbounds : Option (List RawClientOutbound)
  chains : Option (List RawChain)
  selectors : Option (List RawSelector)
  route : Option RawRoute
  dns : Option RawDns
  tun : Option RawTun

/-- A step of the validation; it panics where an index or an `expect` of the source does. -/
abbrev Validated (α : Type) := Checked ConfigError α

def semantic {α : Type} (field : ConfigField) : Validated α := Checked.fail (.semantic field)

def validateCount (count : Nat) (field : ConfigField) : Validated Unit :=
  Checked.failIf (¬(1 ≤ count ∧ count ≤ 64)) (.semantic field)

def validateTag (tag : Tag) (field : ConfigField) : Validated Unit := Checked.failIf (validTag tag = false) (.semantic field)

inductive VisitState
  | unvisited
  | active
  | complete
  deriving DecidableEq, Repr

/-- One bit of `firstHops` for each concrete outbound, one entry for each outbound, selector and chain. -/
structure AdmittedEgressGraph where
  tags : HashMap Tag PreparedEgressRef
  outbounds : Nat
  selectors : List (List PreparedEgressRef)
  chains : List (List Nat)
  firstHops : List (BitVec 64)
  domainTargets : List Bool

namespace AdmittedEgressGraph

/-! ### Cohorts and resources -/

def admitSelectors : List RawSelector → Validated Unit
  | [] => .ok ()
  | selector :: rest => do
    validateCount selector.outbounds.length .selectorsOutbounds
    admitSelectors rest

def admitChains : List RawChain → Validated Unit
  | [] => .ok ()
  | chain :: rest => do
    let hops ← Checked.okOr chain.hops (.semantic .chainsHops)
    Checked.failIf (¬(2 ≤ hops.length ∧ hops.length ≤ 8)) (.semantic .chainsHops)
    admitChains rest

def admitCohorts (selectors : Option (List RawSelector)) (chains : Option (List RawChain)) : Validated Unit := do
  match selectors with
  | some selectors => do
    validateCount selectors.length .selectors
    admitSelectors selectors
  | none => .ok ()
  match chains with
  | some chains => do
    validateCount chains.length .chains
    admitChains chains
  | none => .ok ()

/-- The client's role. -/
def admitResources (dns : Option RawDns) (route : Option RawRoute) : Validated Unit := do
  let ruleSetCount := route.elim 0 fun route => route.ruleSet.length
  if ruleSetCount ≠ 0 then validateCount ruleSetCount .routeRuleSet else .ok ()
  match dns with
  | none => .ok ()
  | some dns => do
    match dns.inbounds with
    | some inbounds => validateCount inbounds.length .dnsInbounds
    | none => semantic .dnsInbounds
    validateCount (dns.servers.elim 0 List.length) .dnsServers

/-! ### Identities -/

structure Registry where
  identities : List Tag
  tags : HashMap Tag PreparedEgressRef

variable (tags : HashMap Tag PreparedEgressRef)

def placeTag (tag : Tag) : Option PreparedEgressRef → HashMap Tag PreparedEgressRef
  | some reference => tags.insert tag reference
  | none => tags

/-- The tags of one cohort, each in its place. An inbound has no place in the map, and a chain can lack its tag. -/
def register (field missing : ConfigField) (reference : Nat → Option PreparedEgressRef) :
    Nat → List (Option Tag) → Registry → Validated Registry
  | _, [], registry => .ok registry
  | index, tag :: rest, registry => do
    let tag ← Checked.okOr tag (.semantic missing)
    validateTag tag field
    Checked.failIf (tag ∈ registry.identities) (.semantic field)
    register field missing reference (index + 1) rest
      ⟨tag :: registry.identities, placeTag registry.tags tag (reference index)⟩

def resolveIn (tag : Tag) (field : ConfigField) : Validated PreparedEgressRef := do
  validateTag tag field
  Checked.okOr (tags.lookup tag) (.semantic field)

variable (graph : AdmittedEgressGraph)

def resolve (tag : Tag) (field : ConfigField) : Validated PreparedEgressRef :=
  resolveIn graph.tags tag field

def nodeIndexWithSelectors (outbounds selectors : Nat) : PreparedEgressRef → Nat
  | .outbound index => index
  | .selector index => outbounds + index
  | .chain index => outbounds + selectors + index

def nodeIndex (egress : PreparedEgressRef) : Nat :=
  nodeIndexWithSelectors graph.outbounds graph.selectors.length egress

def outboundBit (outbound : Nat) : BitVec 64 := 1#64 <<< outbound

/-! ### Members and hops -/

/-- The hops of one chain: concrete outbounds that are not direct, each once. -/
def chainHops (tags : HashMap Tag PreparedEgressRef) (direct : List Bool) : BitVec 64 → List Tag → Validated (List Nat)
  | _, [] => .ok []
  | seen, hop :: rest => do
    match ← resolveIn tags hop .chainsHops with
    | .outbound outbound => do
      let isDirect ← Checked.index direct outbound
      Checked.failIf (isDirect = true ∨ seen &&& outboundBit outbound ≠ 0) (.semantic .chainsHops)
      let hops ← chainHops tags direct (seen ||| outboundBit outbound) rest
      .ok (outbound :: hops)
    | _ => semantic .chainsHops

def buildChains (tags : HashMap Tag PreparedEgressRef) (direct : List Bool) : List RawChain → Validated (List (List Nat))
  | [] => .ok []
  | chain :: rest => do
    let hops ← Checked.okOr chain.hops (.semantic .chainsHops)
    let typed ← chainHops tags direct 0 hops
    let _ ← Checked.index typed 0
    let chains ← buildChains tags direct rest
    .ok (typed :: chains)

/-- The members of one selector, each once. -/
def selectorMembers (tags : HashMap Tag PreparedEgressRef) (outbounds selectors : Nat) :
    Words → List Tag → Validated (List PreparedEgressRef)
  | _, [] => .ok []
  | seen, member :: rest => do
    let reference ← resolveIn tags member .selectorsOutbounds
    let index := nodeIndexWithSelectors outbounds selectors reference
    Checked.assert (index / 64 < seen.length)
    Checked.failIf (seen.bit index = true) (.semantic .selectorsOutbounds)
    let members ← selectorMembers tags outbounds selectors (seen.setBit index) rest
    .ok (reference :: members)

def buildSelectors (tags : HashMap Tag PreparedEgressRef) (outbounds selectors : Nat) :
    List RawSelector → Validated (List (List PreparedEgressRef))
  | [] => .ok []
  | selector :: rest => do
    let members ← selectorMembers tags outbounds selectors (List.replicate 3 0) selector.outbounds
    let default ← Checked.okOr selector.default (.semantic .selectorsDefault)
    let default ← resolveIn tags default .selectorsDefault
    Checked.failIf (default ∉ members) (.semantic .selectorsDefault)
    let others ← buildSelectors tags outbounds selectors rest
    .ok (members :: others)

/-! ### The derivation over the selectors -/

/-- `pending` lists the open selectors and their next members, the last one first. -/
structure Derivation where
  states : List VisitState
  pending : List (Nat × Nat)
  firstHops : List (BitVec 64)
  domainTargets : List Bool

def unionFirstHops (graph : AdmittedEgressGraph) (firstHops : List (BitVec 64)) :
    List PreparedEgressRef → BitVec 64 → Validated (BitVec 64)
  | [], first => .ok first
  | member :: rest, first => do
    let hops ← Checked.index firstHops (graph.nodeIndex member)
    unionFirstHops graph firstHops rest (first ||| hops)

def allAcceptDomain (graph : AdmittedEgressGraph) (domainTargets : List Bool) :
    List PreparedEgressRef → Bool → Validated Bool
  | [], domain => .ok domain
  | member :: rest, domain => do
    let accepts ← Checked.index domainTargets (graph.nodeIndex member)
    allAcceptDomain graph domainTargets rest (domain && accepts)

def selectorNode (index : Nat) : DependencyNode := .selector (Fin.ofNat 4294967296 index)

/-- The open selectors from the one that is met again, and that one once more. -/
def cyclePath (pending : List (Nat × Nat)) (child : Nat) : Validated (List DependencyNode) := do
  let tail := pending.reverse.dropWhile fun entry => entry.1 ≠ child
  Checked.assert (tail ≠ [])
  .ok (tail.map (fun entry => selectorNode entry.1) ++ [selectorNode child])

def finishSelector (derivation : Derivation) (node : Nat) (members : List PreparedEgressRef) (below : List (Nat × Nat)) :
    Validated Derivation := do
  let first ← unionFirstHops graph derivation.firstHops members 0
  let domain ← allAcceptDomain graph derivation.domainTargets members true
  let index := graph.nodeIndex (.selector node)
  .ok
    { states := derivation.states.set node .complete
      pending := below
      firstHops := derivation.firstHops.set index first
      domainTargets := derivation.domainTargets.set index domain }

def visitMember (derivation : Derivation) (child : Nat) : Validated Derivation := do
  match ← Checked.index derivation.states child with
  | .unvisited =>
    .ok { derivation with states := derivation.states.set child .active, pending := (child, 0) :: derivation.pending }
  | .active => do
    let path ← cyclePath derivation.pending child
    Checked.fail (.dependencyCycle path)
  | .complete => .ok derivation

/-- One turn of the `while` loop, for the open selector on top. -/
def deriveTurn (derivation : Derivation) (node memberIndex : Nat) (below : List (Nat × Nat)) : Validated Derivation := do
  let members ← Checked.index graph.selectors node
  match members[memberIndex]? with
  | some (.selector child) => visitMember { derivation with pending := (node, memberIndex + 1) :: below } child
  | some _ => .ok { derivation with pending := (node, memberIndex + 1) :: below }
  | none => finishSelector graph derivation node members below

/-- The `while` loop. The first argument bounds its turns. -/
def deriveLoop (graph : AdmittedEgressGraph) : Nat → Derivation → Validated Derivation
  | turns, derivation =>
    match derivation.pending with
    | [] => .ok derivation
    | (node, memberIndex) :: below =>
      match turns with
      | 0 => .error .panic
      | turns + 1 => do
        let derivation ← deriveTurn graph derivation node memberIndex below
        deriveLoop graph turns derivation

def turnBound : Nat := (graph.selectors.map fun members => members.length + 1).sum

def deriveRoots (graph : AdmittedEgressGraph) : List Nat → Derivation → Validated Derivation
  | [], derivation => .ok derivation
  | root :: rest, derivation => do
    match ← Checked.index derivation.states root with
    | .complete => deriveRoots graph rest derivation
    | _ => do
      let derivation ← deriveLoop graph graph.turnBound
        { derivation with states := derivation.states.set root .active, pending := (root, 0) :: derivation.pending }
      deriveRoots graph rest derivation

def deriveSelectors : Validated AdmittedEgressGraph := do
  let derivation ← deriveRoots graph (List.range graph.selectors.length)
    ⟨List.replicate graph.selectors.length .unvisited, [], graph.firstHops, graph.domainTargets⟩
  .ok { graph with firstHops := derivation.firstHops, domainTargets := derivation.domainTargets }

/-! ### The whole graph -/

def direct : Tag := [100, 105, 114, 101, 99, 116]

/-- The domain flags of the chains: that of the last hop. -/
def chainTargets (outbounds : Nat) : List (List Nat) → Validated (List Bool)
  | [] => .ok []
  | chain :: rest => do
    let terminal ← Checked.expect chain.getLast?
    let accepts ← Checked.index (List.replicate outbounds true) terminal
    let targets ← chainTargets outbounds rest
    .ok (accepts :: targets)

/-- The admitted declarations before `derive_selectors`. -/
def admitGraph (inbounds : List Tag) (outbounds : List RawClientOutbound) (selectors : List RawSelector) (chains : List RawChain) :
    Validated AdmittedEgressGraph := do
  let registry ← register .inboundsTag .inboundsTag (fun _ => none) 0 (inbounds.map some) ⟨[], ∅⟩
  let registry ← register .outboundsTag .outboundsTag (fun index => some (.outbound index)) 0
    (outbounds.map fun outbound => some outbound.tag) registry
  let registry ← register .chainsTag .chains (fun index => some (.chain index)) 0 (chains.map RawChain.tag) registry
  let registry ← register .selectorsTag .selectorsTag (fun index => some (.selector index)) 0
    (selectors.map fun selector => some selector.tag) registry
  let isDirect := outbounds.map fun outbound => decide (outbound.outboundType = some direct)
  let hops ← buildChains registry.tags isDirect chains
  let members ← buildSelectors registry.tags outbounds.length selectors.length selectors
  let targets ← chainTargets outbounds.length hops
  .ok
    { tags := registry.tags
      outbounds := outbounds.length
      selectors := members
      chains := hops
      firstHops := (List.range outbounds.length).map outboundBit ++ List.replicate selectors.length 0 ++
        hops.map fun chain => outboundBit (chain.headD 0)
      domainTargets := List.replicate outbounds.length true ++ List.replicate selectors.length false ++ targets }

def build (inbounds : List Tag) (outbounds : List RawClientOutbound) (selectors : List RawSelector) (chains : List RawChain) :
    Validated AdmittedEgressGraph := do
  let graph ← admitGraph inbounds outbounds selectors chains
  graph.deriveSelectors

def inboundTags (raw : RawClientRoot) : List Tag :=
  (raw.inbounds.getD []).map RawClientInbound.tag ++ raw.tun.toList.map RawTun.tag

/-- The checks before the graph is built. -/
def admitClient (raw : RawClientRoot) : Validated Unit := do
  validateCount (inboundTags raw).length .inbounds
  validateCount (raw.outbounds.getD []).length .outbounds
  admitCohorts raw.selectors raw.chains
  admitResources raw.dns raw.route
  match raw.tun with
  | some tun => validateTag tun.tag .tunTag
  | none => .ok ()

def client (raw : RawClientRoot) : Validated AdmittedEgressGraph := do
  admitClient raw
  build (inboundTags raw) (raw.outbounds.getD []) (raw.selectors.getD []) (raw.chains.getD [])

def firstHopsOf (egress : PreparedEgressRef) : BitVec 64 :=
  graph.firstHops.getD (graph.nodeIndex egress) 0

end AdmittedEgressGraph

/-! ### The compilation of the validated client -/

def selectorErrorField (error : SelectorCompileError) (routed : Bool) : ConfigField :=
  match error with
  | .inbounds => .inboundsTag
  | .outbounds => .outboundsTag
  | .plans => .chains
  | .planTag => .chainsTag
  | .unreachablePlan => .chainsTag
  | .planHops => .chainsHops
  | .selectors => .selectors
  | .selectorTag => .selectorsTag
  | .unreachableSelector => .selectorsTag
  | .selectorOutbounds => .selectorsOutbounds
  | .selectorDefault => .selectorsDefault
  | .extraRoot => .routeRulesOutbound
  | .unreachableOutbound => if routed then .routeRulesOutbound else .outboundsTag

def compileGraphRoots (inbounds outbounds : List Tag) (selectors : List RawSelector) (plans : List TaggedPlan) (roots : List Tag)
    (explicitRoute : Bool) : Validated CompiledEgress :=
  (Core.compileEgressPlansWithRoots (inbounds.zipIdx.map fun (tag, index) => ⟨tag, index⟩)
    (outbounds.zipIdx.map fun (tag, index) => ⟨tag, index⟩) plans
    (selectors.map fun selector => ⟨selector.tag, selector.outbounds, selector.default⟩) roots).mapError fun error =>
      .semantic (if error = .extraRoot then .dnsServersDetour else selectorErrorField error explicitRoute)

def resolveRoots (graph : AdmittedEgressGraph) (field : Nat → ConfigField) : Nat → List Tag → Validated (List PreparedEgressRef)
  | _, [] => .ok []
  | index, tag :: rest => do
    let root ← graph.resolve tag (field index)
    let roots ← resolveRoots graph field (index + 1) rest
    .ok (root :: roots)

def taggedPlans : List RawChain → List (List Nat) → Validated (List TaggedPlan)
  | chain :: rest, hops :: others => do
    let tag ← Checked.expect chain.tag
    let plans ← taggedPlans rest others
    .ok (⟨tag, hops⟩ :: plans)
  | _, _ => .ok []

/-- What an accepted client has for its roots: their places in the graph and the compiled handles. -/
structure ValidatedClientGraph where
  roots : List PreparedEgressRef
  compiled : CompiledEgress

/-- The part of `validate_client_graph` that depends on the graph. -/
def validateClientGraph (raw : RawClientRoot) (graph : AdmittedEgressGraph) (routeRoots detourTags : List Tag)
    (explicitRoute : Bool) : Validated ValidatedClientGraph := do
  Checked.failIf (raw.selectors.elim false List.isEmpty = true) (.semantic .selectors)
  let plans ← taggedPlans (raw.chains.getD []) graph.chains
  let routeEgress ← resolveRoots graph
    (fun index => if explicitRoute then (if index = 0 then .routeFinal else .routeRulesOutbound) else .inboundsOutbound) 0
    routeRoots
  let detourEgress ← resolveRoots graph (fun _ => .dnsServersDetour) 0 detourTags
  let compiled ← compileGraphRoots (AdmittedEgressGraph.inboundTags raw) ((raw.outbounds.getD []).map RawClientOutbound.tag)
    (raw.selectors.getD []) plans (routeRoots ++ detourTags) explicitRoute
  .ok ⟨routeEgress ++ detourEgress, compiled⟩

end Ferrum.Config
