import Mathlib.Data.List.Lex
import Ferrum.Tun.Packet

namespace Ferrum.Core

open Ferrum.Tun (IpAddr SocketAddr)

def maxDomainNameBytes : Nat := 255

inductive DomainNameError
  | empty | tooLong | nonAscii
  deriving DecidableEq, Repr

inductive TargetAddrError
  | domain (error : DomainNameError)
  | portZero
  deriving DecidableEq, Repr

def isAscii (bytes : List UInt8) : Bool := bytes.all (· < 128)

/-- A bounded domain name, by the bytes that a protocol sends. -/
structure DomainName where
  original : List UInt8
  nonempty : original ≠ []
  bounded : original.length ≤ maxDomainNameBytes
  ascii : isAscii original = true
  deriving DecidableEq

/-- The order of the checks: an empty name, then one that is too long, then its characters. -/
def DomainName.new (value : List UInt8) : Except DomainNameError DomainName :=
  if empty : value = [] then .error .empty
  else if bounded : value.length ≤ maxDomainNameBytes then
    if ascii : isAscii value = true then .ok ⟨value, empty, bounded, ascii⟩ else .error .nonAscii
  else .error .tooLong

inductive TargetHost
  | ip (address : IpAddr)
  | domain (name : DomainName)
  deriving DecidableEq

/-- A validated target; port zero is never one. -/
structure TargetAddr where
  host : TargetHost
  port : U16
  nonzero : port ≠ 0
  deriving DecidableEq

def TargetAddr.ip (address : SocketAddr) : Except TargetAddrError TargetAddr :=
  if zero : address.port = 0 then .error .portZero else .ok ⟨.ip address.ip, address.port, zero⟩

def TargetAddr.domain (host : List UInt8) (port : U16) : Except TargetAddrError TargetAddr :=
  if zero : port = 0 then .error .portZero
  else
    match DomainName.new host with
    | .error error => .error (.domain error)
    | .ok name => .ok ⟨.domain name, port, zero⟩

structure Datagram where
  target : TargetAddr
  payload : List UInt8
  deriving DecidableEq

def Datagram.new (target : TargetAddr) (payload : List UInt8) (maxPayloadBytes : Nat) : Option Datagram :=
  if maxPayloadBytes < payload.length then none else some ⟨target, payload⟩

instance linearOrderUInt8 : LinearOrder UInt8 where
  le_refl := UInt8.le_refl
  le_trans := fun _ _ _ => UInt8.le_trans
  le_antisymm := fun _ _ => UInt8.le_antisymm
  le_total := UInt8.le_total
  lt_iff_le_not_ge := fun _ _ => by
    rw [UInt8.lt_iff_toNat_lt, UInt8.le_iff_toNat_le, UInt8.le_iff_toNat_le]
    omega
  toDecidableLE := inferInstance
  toDecidableEq := inferInstance
  toDecidableLT := inferInstance

def toAsciiLowercase (byte : UInt8) : UInt8 := if 65 ≤ byte ∧ byte ≤ 90 then byte + 32 else byte

/-- `strip_suffix('.')`, or the value itself. -/
def stripTrailingDot (value : List UInt8) : List UInt8 := if value.getLast? = some 46 then value.dropLast else value

/-- A lowercase ASCII domain without its trailing dot, by its bytes. -/
structure CanonicalDomain where
  asStr : List UInt8
  nonempty : asStr ≠ []
  deriving DecidableEq

def CanonicalDomain.new (value : List UInt8) : Except DomainNameError CanonicalDomain :=
  if value = [] then .error .empty
  else if value.length ≤ maxDomainNameBytes then
    if isAscii value = true then
      if nonempty : stripTrailingDot value ≠ [] then
        .ok ⟨(stripTrailingDot value).map toAsciiLowercase, by simpa using nonempty⟩
      else .error .empty
    else .error .nonAscii
  else .error .tooLong

/-- A root-only name has no canonical form. -/
def DomainName.canonical (name : DomainName) : Option CanonicalDomain := (CanonicalDomain.new name.original).toOption

def TargetAddr.canonicalDomain (target : TargetAddr) : Option CanonicalDomain :=
  match target.host with
  | .domain name => name.canonical
  | .ip _ => none

/-- The domain and what follows each of its dots, in the order in which a search for the next dot meets them. -/
def labelSuffixes (domain : List UInt8) : List (List UInt8) := domain :: afterDots domain
where
  afterDots : List UInt8 → List (List UInt8)
    | [] => []
    | byte :: rest => if byte = 46 then rest :: afterDots rest else afterDots rest

end Ferrum.Core
