import Ferrum.Core.Target
import Ferrum.Dns.Response
import Ferrum.Lib.Stateful

namespace Ferrum.Dns

open Ferrum.Core (CanonicalDomain)
open Ferrum.Tun (IpAddr Ipv4Addr Ipv6Addr SocketAddr)

inductive DnsError
  | busy | timeout | transport | protocol | nxDomain | noData | shutdown | invalidServer | runtime
  deriving DecidableEq, Repr

inductive DnsStrategy
  | preferIpv4 | preferIpv6 | ipv4Only | ipv6Only
  deriving DecidableEq, Repr

/-- Both families in the order of the strategy, or only one. -/
def DnsStrategy.socketCandidates (strategy : DnsStrategy) (port : U16) (ipv4 : List Ipv4Addr) (ipv6 : List Ipv6Addr) :
    List SocketAddr :=
  let v4 := ipv4.map fun address => ⟨.v4 address, port⟩
  let v6 := ipv6.map fun address => ⟨.v6 address, port⟩
  match strategy with
  | .preferIpv4 => v4 ++ v6
  | .preferIpv6 => v6 ++ v4
  | .ipv4Only => v4
  | .ipv6Only => v6

inductive ResolverRef
  | system
  | dnsServer (server : U32)
  deriving DecidableEq

inductive FixedEndpointKind
  | dnsServer (server : U32)
  | shadowsocks
  | ruleSet
  deriving DecidableEq

inductive FixedEndpointTarget
  | ip (address : SocketAddr)
  | domain (domain : CanonicalDomain) (resolver : ResolverRef) (strategy : DnsStrategy)
  deriving DecidableEq

@[ext] structure FixedEndpointSpec where
  target : FixedEndpointTarget
  port : U16
  nonzero : port ≠ 0

instance : DecidableEq FixedEndpointSpec := fun first second =>
  decidable_of_iff (first.target = second.target ∧ first.port = second.port) FixedEndpointSpec.ext_iff.symm

inductive FixedEndpointSpecError
  | zeroPort
  deriving DecidableEq, Repr

namespace FixedEndpointSpec

def ip (address : SocketAddr) : Except FixedEndpointSpecError FixedEndpointSpec :=
  if zero : address.port = 0 then .error .zeroPort else .ok ⟨.ip address, address.port, zero⟩

def resolver (spec : FixedEndpointSpec) : Option ResolverRef :=
  match spec.target with
  | .ip _ => none
  | .domain _ resolver _ => some resolver

def domainName (spec : FixedEndpointSpec) : Option CanonicalDomain :=
  match spec.target with
  | .ip _ => none
  | .domain domain _ _ => some domain

end FixedEndpointSpec

structure FixedEndpointPlanEntry where
  kind : FixedEndpointKind
  spec : FixedEndpointSpec
  deriving DecidableEq

structure FixedEndpointResolveRequest where
  domain : CanonicalDomain
  qtype : DnsCacheQtype
  deriving DecidableEq

inductive FixedEndpointLookup
  | positive (records : DnsAddressRecords) (ttl : Nat)
  | negative (ttl : Nat)
  deriving DecidableEq

structure MaterializedFixedEndpoint where
  kind : FixedEndpointKind
  spec : FixedEndpointSpec
  candidates : List SocketAddr
  deriving DecidableEq

inductive FixedEndpointMaterializeError
  | duplicateDnsServer
  | missingResolver
  | invalidDependencyOrder
  | resolve (error : DnsError)
  | cache (error : DnsCacheError)
  | invalidAnswer
  | noCandidates
  deriving DecidableEq

def DnsAddressRecords.isEmpty : DnsAddressRecords → Bool
  | a records => records.isEmpty
  | aaaa records => records.isEmpty

/-- What the calls can read and change: the backend, and the cache that is shared with the rest of the process. -/
structure World (B : Type) where
  backend : B
  cache : DnsCacheState

/-- The injected backend and clock. Any call may find the cache changed by others. -/
structure FixedEndpointResolveBackend (B : Type) where
  resolveSystem : FixedEndpointResolveRequest → World B → Except DnsError FixedEndpointLookup × World B
  resolveDnsServer : U32 → MaterializedFixedEndpoint → FixedEndpointResolveRequest → World B →
    Except DnsError FixedEndpointLookup × World B
  endpointMaterialized : MaterializedFixedEndpoint → World B → Except FixedEndpointMaterializeError Unit × World B
  now : World B → Nat × World B

/-- A call on the backend. -/
inductive BackendCall
  | system (request : FixedEndpointResolveRequest) (reply : Except DnsError FixedEndpointLookup)
  | dnsServer (server : U32) (endpoint : MaterializedFixedEndpoint) (request : FixedEndpointResolveRequest)
      (reply : Except DnsError FixedEndpointLookup)
  | materialized (endpoint : MaterializedFixedEndpoint)

/-- The world, and the calls on the backend so far with the plan positions that they are made for. -/
structure Materializing (B : Type) where
  world : World B
  calls : List (Nat × BackendCall)

abbrev Materialize (B α : Type) : Type := Stateful (Materializing B) FixedEndpointMaterializeError α

/-- What a run is given: the backend, a cache or none, the generation of its keys, and the clock's last instant. -/
structure MaterializeContext (B : Type) where
  backend : FixedEndpointResolveBackend B
  cached : Bool
  generation : Nat
  horizon : Nat

/-- The position of every DNS server of the plan. -/
def serverPositions : Nat → List FixedEndpointPlanEntry → HashMap U32 Nat →
    Except FixedEndpointMaterializeError (HashMap U32 Nat)
  | _, [], positions => .ok positions
  | position, entry :: rest, positions =>
    match entry.kind with
    | .dnsServer server =>
      if (positions.lookup server).isSome then .error .duplicateDnsServer
      else serverPositions (position + 1) rest (positions.insert server position)
    | _ => serverPositions (position + 1) rest positions

def checkDependencies (positions : HashMap U32 Nat) :
    Nat → List FixedEndpointPlanEntry → Except FixedEndpointMaterializeError Unit
  | _, [] => .ok ()
  | position, entry :: rest =>
    match entry.spec.resolver with
    | some (.dnsServer server) =>
      match positions.lookup server with
      | none => .error .missingResolver
      | some dependency =>
        if position ≤ dependency then .error .invalidDependencyOrder
        else checkDependencies positions (position + 1) rest
    | _ => checkDependencies positions (position + 1) rest

def validatedDnsServerPositions (plan : List FixedEndpointPlanEntry) :
    Except FixedEndpointMaterializeError (HashMap U32 Nat) := do
  let positions ← serverPositions 0 plan ∅
  checkDependencies positions 0 plan
  return positions

def validateFixedEndpointOrder (plan : List FixedEndpointPlanEntry) : Except FixedEndpointMaterializeError Unit :=
  (validatedDnsServerPositions plan).map fun _ => ()

def strategyQtypes : DnsStrategy → List DnsCacheQtype
  | .preferIpv4 => [.a, .aaaa]
  | .preferIpv6 => [.aaaa, .a]
  | .ipv4Only => [.a]
  | .ipv6Only => [.aaaa]

/-- The new addresses, up to the bound of the candidates. -/
def appendDistinct {α : Type} [DecidableEq α] : List α → List α → List α
  | output, [] => output
  | output, address :: rest =>
    if output.length = maxApplicationResolvedCandidates then output
    else if address ∈ output then appendDistinct output rest
    else appendDistinct (output ++ [address]) rest

def appendIpv4 (output records : List Ipv4Addr) : List Ipv4Addr := appendDistinct output records

def appendIpv6 (output records : List Ipv6Addr) : List Ipv6Addr := appendDistinct output records

section Run

variable {B : Type} (context : MaterializeContext B)

/-- A lookup of the backend, whose error ends the run. -/
def ask (position : Nat) (call : Except DnsError FixedEndpointLookup → BackendCall)
    (effect : World B → Except DnsError FixedEndpointLookup × World B) : Materialize B FixedEndpointLookup := fun state =>
  match effect state.world with
  | (reply, world) =>
    (Checked.ofExcept (reply.mapError .resolve), { world, calls := state.calls ++ [(position, call reply)] })

/-- `cache.get(key, now())`. -/
def cacheGet (key : DnsCacheKey) : Materialize B (Option DnsCacheAnswer) := fun state =>
  match context.backend.now state.world with
  | (now, world) =>
    match world.cache.get key now with
    | none => (.error .panic, { state with world })
    | some (answer, cache) => (.ok answer, { state with world := { world with cache } })

/-- `cache.insert_positive` and `cache.insert_negative`. -/
def cacheInsert (key : DnsCacheKey) (answer : DnsCacheAnswer) (ttl : Nat) : Materialize B Unit := fun state =>
  match context.backend.now state.world with
  | (now, world) =>
    match checkInsert context.horizon key answer ttl now with
    | .error error => (Checked.fail (.cache error), { state with world })
    | .ok expiresAt =>
      match world.cache.insert key answer expiresAt now with
      | none => (.error .panic, { state with world })
      | some cache => (.ok (), { state with world := { world with cache } })

/-- Only a tagged server has a key in the cache. -/
def cacheKey (resolver : ResolverRef) (domain : CanonicalDomain) (qtype : DnsCacheQtype) : Option DnsCacheKey :=
  match resolver with
  | .system => none
  | .dnsServer server => some { server, canonicalName := domain.asStr, qtype, generation := context.generation }

/-- The answer of the cache, when there is a cache and a key. -/
def cachedAnswer (key : Option DnsCacheKey) : Materialize B (Option DnsCacheAnswer) :=
  match key with
  | some key => if context.cached then cacheGet context key else pure none
  | none => pure none

def storeAnswer (key : Option DnsCacheKey) (answer : DnsCacheAnswer) (ttl : Nat) : Materialize B Unit :=
  match key with
  | some key => if context.cached then cacheInsert context key answer ttl else pure ()
  | none => pure ()

/-- The lookup with the resolver that the endpoint names, and with no other. -/
def lookupWith (position : Nat) (resolver : ResolverRef) (endpoint : Option MaterializedFixedEndpoint)
    (request : FixedEndpointResolveRequest) : Materialize B FixedEndpointLookup :=
  match resolver with
  | .system => ask position (.system request) (context.backend.resolveSystem request)
  | .dnsServer server => do
    let endpoint ← Stateful.lift (Checked.okOr endpoint .invalidDependencyOrder)
    ask position (.dnsServer server endpoint request) (context.backend.resolveDnsServer server endpoint request)

def resolveFamily (position : Nat) (resolver : ResolverRef) (endpoint : Option MaterializedFixedEndpoint)
    (domain : CanonicalDomain) (qtype : DnsCacheQtype) : Materialize B (Option DnsAddressRecords) := do
  let known ← cachedAnswer context (cacheKey context resolver domain qtype)
  match known with
  | some (.positive records) => return some records
  | some .negative => return none
  | none => do
    let lookup ← lookupWith context position resolver endpoint { domain, qtype }
    match lookup with
    | .positive records ttl => do
      Stateful.failIf (records.qtype ≠ qtype ∨ records.isEmpty = true) .invalidAnswer
      storeAnswer context (cacheKey context resolver domain qtype) (.positive records) ttl
      return some records
    | .negative ttl => do
      storeAnswer context (cacheKey context resolver domain qtype) .negative ttl
      return none

/-- The families of the strategy, one after the other. -/
def resolveFamilies (position : Nat) (resolver : ResolverRef) (endpoint : Option MaterializedFixedEndpoint)
    (domain : CanonicalDomain) : List DnsCacheQtype → List Ipv4Addr → List Ipv6Addr →
    Materialize B (List Ipv4Addr × List Ipv6Addr)
  | [], ipv4, ipv6 => pure (ipv4, ipv6)
  | qtype :: rest, ipv4, ipv6 => do
    let records ← resolveFamily context position resolver endpoint domain qtype
    match records with
    | some (.a records) => resolveFamilies position resolver endpoint domain rest (appendIpv4 ipv4 records) ipv6
    | some (.aaaa records) => resolveFamilies position resolver endpoint domain rest ipv4 (appendIpv6 ipv6 records)
    | none => resolveFamilies position resolver endpoint domain rest ipv4 ipv6

/-- The endpoint of the server that a lookup goes to. -/
def resolverEndpoint (positions : HashMap U32 Nat) (materialized : List MaterializedFixedEndpoint) :
    ResolverRef → Checked FixedEndpointMaterializeError (Option MaterializedFixedEndpoint)
  | .system => .ok none
  | .dnsServer server => do
    let position ← Checked.okOr (positions.lookup server) .missingResolver
    let endpoint ← Checked.okOr materialized[position]? .invalidDependencyOrder
    return some endpoint

def entryCandidates (positions : HashMap U32 Nat) (materialized : List MaterializedFixedEndpoint) (position : Nat)
    (entry : FixedEndpointPlanEntry) : Materialize B (List SocketAddr) :=
  match entry.spec.target with
  | .ip address => pure [address]
  | .domain domain resolver strategy => do
    let endpoint ← Stateful.lift (resolverEndpoint positions materialized resolver)
    let (ipv4, ipv6) ← resolveFamilies context position resolver endpoint domain (strategyQtypes strategy) [] []
    let candidates := (strategy.socketCandidates entry.spec.port ipv4 ipv6).take maxApplicationResolvedCandidates
    Stateful.failIf (candidates = []) .noCandidates
    return candidates

/-- `endpoint_materialized`, before the next entry. -/
def announce (position : Nat) (endpoint : MaterializedFixedEndpoint) : Materialize B Unit := fun state =>
  match context.backend.endpointMaterialized endpoint state.world with
  | (reply, world) => (Checked.ofExcept reply, { world, calls := state.calls ++ [(position, .materialized endpoint)] })

def materializeEntries (positions : HashMap U32 Nat) :
    Nat → List FixedEndpointPlanEntry → List MaterializedFixedEndpoint → Materialize B (List MaterializedFixedEndpoint)
  | _, [], materialized => pure materialized
  | position, entry :: rest, materialized => do
    let candidates ← entryCandidates context positions materialized position entry
    let endpoint := { kind := entry.kind, spec := entry.spec, candidates }
    announce context position endpoint
    materializeEntries positions (position + 1) rest (materialized ++ [endpoint])

def materializeFixedEndpoints (plan : List FixedEndpointPlanEntry) : Materialize B (List MaterializedFixedEndpoint) := do
  let positions ← Stateful.lift (Checked.ofExcept (validatedDnsServerPositions plan))
  materializeEntries context positions 0 plan []

end Run

end Ferrum.Dns
