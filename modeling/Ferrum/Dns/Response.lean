import Ferrum.Dns.Cache

namespace Ferrum.Dns

open Ferrum.Tun (IpAddr Ipv4Addr Ipv6Addr)

def maxApplicationResolvedCandidates : Nat := 16

inductive RecordType
  | a
  | aaaa
  | other (code : Nat)
  deriving DecidableEq, Repr

inductive ResponseCode
  | noError
  | nxDomain
  | other (code : Nat)
  deriving DecidableEq, Repr

inductive RData (Name : Type)
  | cname (target : Name)
  | a (address : Ipv4Addr)
  | aaaa (address : Ipv6Addr)
  | soa (minimum : Nat)
  | other

structure ResourceRecord (Name : Type) where
  name : Name
  ttl : Nat
  data : RData Name

structure Message (Name : Type) where
  truncation : Bool
  responseCode : ResponseCode
  answers : List (ResourceRecord Name)
  authorities : List (ResourceRecord Name)

def minTtl (ttl : Option Nat) (other : Nat) : Option Nat := some (ttl.elim other fun ttl => min ttl other)

def isAddress {Name : Type} (record : ResourceRecord Name) : Bool :=
  match record.data with
  | .a _ | .aaaa _ => true
  | _ => false

section Walk

variable {Name : Type} [BEq Name]

/-- What the records of one owner say so far. -/
structure OwnerScan (Name : Type) where
  next : Option Name
  hasAddress : Bool
  ttl : Option Nat

/-- One record of the owner; a second target that is not equal to the first one ends the walk. -/
def OwnerScan.record (scan : OwnerScan Name) (record : ResourceRecord Name) : Option (OwnerScan Name) :=
  match record.data with
  | .cname target =>
    if scan.next.any (· != target) then none
    else some { scan with next := some target, ttl := minTtl scan.ttl record.ttl }
  | .a _ | .aaaa _ => some { scan with hasAddress := true }
  | _ => some scan

def scanOwner (answers : List (ResourceRecord Name)) (owner : Name) (ttl : Option Nat) : Option (OwnerScan Name) :=
  (answers.filter fun record => record.name == owner).foldlM OwnerScan.record { next := none, hasAddress := false, ttl }

/-- The turns of the walk that are left, the owner that it is at, and the smallest TTL so far. -/
def walkOwners (answers : List (ResourceRecord Name)) : Nat → Name → Option Nat → Option (Name × Option Nat)
  | 0, _, _ => none
  | turns + 1, owner, ttl => do
    let scan ← scanOwner answers owner ttl
    match scan.next with
    | none => some (owner, scan.ttl)
    | some next => if scan.hasAddress then none else walkOwners answers turns next scan.ttl

def finalOwner (qname : Name) (response : Message Name) : Option (Name × Option Nat) :=
  walkOwners response.answers (response.answers.length + 1) qname none

/-- Answer semantics; an invalid or ambiguous chain has no terminal owner. -/
structure ResponseSemantics (Name : Type) where
  response : Message Name
  qtype : RecordType
  terminal : Option (Name × Option Nat)

namespace ResponseSemantics

def new (qname : Name) (qtype : RecordType) (response : Message Name) : ResponseSemantics Name :=
  { response, qtype, terminal := finalOwner qname response }

def isAddressType : RecordType → Bool
  | .a | .aaaa => true
  | .other _ => false

/-- The address of a record of the terminal owner, with its TTL. -/
def address (semantics : ResponseSemantics Name) (record : ResourceRecord Name) : Option (IpAddr × Nat) := do
  let (owner, _) ← semantics.terminal
  if isAddressType semantics.qtype = false ∨ ¬(record.name == owner) = true then none
  else
    match record.data with
    | .a address => some (.v4 address, record.ttl)
    | .aaaa address => some (.v6 address, record.ttl)
    | _ => none

variable (semantics : ResponseSemantics Name)

def addresses : List (IpAddr × Nat) :=
  semantics.response.answers.filterMap semantics.address

def familyMatches : RecordType → IpAddr → Bool
  | .a, .v4 _ => true
  | .aaaa, .v6 _ => true
  | _, _ => false

/-- The loop of `cache_answer` over the addresses: its TTL and the distinct addresses so far. -/
def collectAddresses (semantics : ResponseSemantics Name) :
    List (IpAddr × Nat) → Option Nat → List IpAddr → Option (Option Nat × List IpAddr)
  | [], ttl, collected => some (ttl, collected)
  | (address, recordTtl) :: rest, ttl, collected =>
    if semantics.response.responseCode ≠ .noError ∨ familyMatches semantics.qtype address = false then none
    else if address ∈ collected then semantics.collectAddresses rest (minTtl ttl recordTtl) collected
    else if collected.length = maxApplicationResolvedCandidates then none
    else semantics.collectAddresses rest (minTtl ttl recordTtl) (collected ++ [address])

/-- The TTLs of the SOA records of the authority section, each with its own minimum. -/
def soaTtls : List Nat :=
  semantics.response.authorities.filterMap fun record =>
    match record.data with
    | .soa minimum => some (min record.ttl minimum)
    | _ => none

def v4Address : IpAddr → Option Ipv4Addr
  | .v4 address => some address
  | .v6 _ => none

def v6Address : IpAddr → Option Ipv6Addr
  | .v6 address => some address
  | .v4 _ => none

/-- The answer of the collected addresses, with its TTL; without any, the TTL of the negative answer. -/
def answerOf (ttl : Option Nat) (collected : List IpAddr) : Option (DnsCacheAnswer × Option Nat) :=
  if collected = [] then do
    let soaTtl ← semantics.soaTtls.min?
    some (.negative, minTtl ttl soaTtl)
  else
    match semantics.qtype with
    | .a => some (.positive (.a (collected.filterMap v4Address)), ttl)
    | .aaaa => some (.positive (.aaaa (collected.filterMap v6Address)), ttl)
    | .other _ => none

/-- Only an answer whose whole address set can be rebuilt from the cache; its TTL in seconds. -/
def cacheAnswer : Option (DnsCacheAnswer × Nat) := do
  let (_, ttl) ← semantics.terminal
  if semantics.response.truncation = true ∨ isAddressType semantics.qtype = false ∨
      ¬(semantics.response.responseCode = .noError ∨ semantics.response.responseCode = .nxDomain) then none
  else do
    let (ttl, collected) ← semantics.collectAddresses semantics.addresses ttl []
    if ttl = some 0 then none
    else do
      let (answer, ttl) ← semantics.answerOf ttl collected
      let ttl ← ttl
      if ttl = 0 then none else some (answer, ttl)

end ResponseSemantics

end Walk

end Ferrum.Dns
