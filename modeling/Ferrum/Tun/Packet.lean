import Ferrum.Lib.OnesComplement

namespace Ferrum.Tun

inductive IpFamily
  | ipv4 | ipv6
  deriving DecidableEq, Repr

abbrev Ipv4Addr := Vector UInt8 4
abbrev Ipv6Addr := Vector UInt8 16

abbrev Ipv4Addr.new (a b c d : UInt8) : Ipv4Addr := #v[a, b, c, d]

inductive IpAddr
  | v4 (address : Ipv4Addr)
  | v6 (address : Ipv6Addr)
  deriving DecidableEq

namespace IpAddr

def octets : IpAddr → List UInt8
  | v4 address => address.toList
  | v6 address => address.toList

def isIpv4 : IpAddr → Bool
  | v4 _ => true
  | v6 _ => false

end IpAddr

structure SocketAddr where
  ip : IpAddr
  port : U16
  deriving DecidableEq

def ipv4At (bytes : List UInt8) (i : Nat) : Ipv4Addr := Vector.ofFn fun k => byte bytes (i + k)
def ipv6At (bytes : List UInt8) (i : Nat) : Ipv6Addr := Vector.ofFn fun k => byte bytes (i + k)

section address

variable {bytes : List UInt8} {i n : Nat}

theorem byte_toList (octets : Vector UInt8 n) (k : Fin n) : byte octets.toList k = octets[k] := by
  simp [byte, List.getD_eq_getElem?_getD]

theorem toList_ofFn_byte (fits : i + n ≤ bytes.length) :
    (Vector.ofFn fun k : Fin n => byte bytes (i + k)).toList = slice bytes i (i + n) := by
  refine ext_byte (by simp; omega) fun k bound => ?_
  rw [Vector.length_toList] at bound
  rw [byte_slice (by omega), byte_toList _ ⟨k, bound⟩]
  simp

theorem ofFn_byte_eq {octets : Vector UInt8 n} (same : ∀ k < n, byte bytes (i + k) = byte octets.toList k) :
    (Vector.ofFn fun k : Fin n => byte bytes (i + k)) = octets := by
  refine Vector.ext fun k bound => ?_
  have stored := same k bound
  rw [byte_toList _ ⟨k, bound⟩] at stored
  simpa using stored

theorem ipv4At_toList (fits : i + 4 ≤ bytes.length) : (ipv4At bytes i).toList = slice bytes i (i + 4) := toList_ofFn_byte fits

theorem ipv6At_toList (fits : i + 16 ≤ bytes.length) : (ipv6At bytes i).toList = slice bytes i (i + 16) := toList_ofFn_byte fits

theorem ipv4At_eq {address : Ipv4Addr} (same : ∀ k < 4, byte bytes (i + k) = byte address.toList k) :
    ipv4At bytes i = address := ofFn_byte_eq same

theorem ipv6At_eq {address : Ipv6Addr} (same : ∀ k < 16, byte bytes (i + k) = byte address.toList k) :
    ipv6At bytes i = address := ofFn_byte_eq same

end address

open List

/-- Neither unspecified, nor multicast, nor the limited broadcast. -/
def ipv4Unicast (address : Ipv4Addr) : Bool :=
  !(address.toList.all (· == 0)) && !(decide (224 ≤ address[0].toNat ∧ address[0].toNat ≤ 239)) &&
    !(address.toList.all (· == 255))

def ipv6Unicast (address : Ipv6Addr) : Bool := !(address.toList.all (· == 0)) && !(address[0] == 255)

def IpAddr.unicast : IpAddr → Bool
  | v4 address => ipv4Unicast address
  | v6 address => ipv6Unicast address

structure Families where
  ipv4 : Bool
  ipv6 : Bool
  deriving DecidableEq, Repr

/-- What a control reply needs to know about a rejected packet. -/
structure ControlContext where
  family : IpFamily
  source : IpAddr
  destination : IpAddr
  upperProtocol : UInt8
  upperProtocolField : Nat
  transportOffset : Nat
  totalLen : Nat
  suppressReply : Bool
  deriving DecidableEq

structure Ipv4FragmentKey where
  source : Ipv4Addr
  destination : Ipv4Addr
  protocol : UInt8
  identification : U16
  deriving DecidableEq

structure Ipv6FragmentKey where
  source : Ipv6Addr
  destination : Ipv6Addr
  nextHeader : UInt8
  identification : U32
  deriving DecidableEq

inductive FragmentKey
  | ipv4 (key : Ipv4FragmentKey)
  | ipv6 (key : Ipv6FragmentKey)
  deriving DecidableEq

inductive FragmentReconstruction
  | ipv4 (headerLen : Nat)
  | ipv6 (fragmentHeaderOffset previousNextHeaderOffset : Nat)
  deriving DecidableEq, Repr

structure ParsedFragment where
  family : IpFamily
  source : IpAddr
  destination : IpAddr
  upperProtocol : UInt8
  key : FragmentKey
  offset : Nat
  moreFragments : Bool
  payloadOffset : Nat
  payloadLen : Nat
  reconstruction : FragmentReconstruction
  deriving DecidableEq

namespace ParsedFragment

def isAtomic (fragment : ParsedFragment) : Bool :=
  fragment.family == .ipv6 && fragment.offset == 0 && !fragment.moreFragments

def identityMatchesKey (fragment : ParsedFragment) : Bool :=
  match fragment.key, fragment.source, fragment.destination, fragment.family with
  | .ipv4 key, .v4 source, .v4 destination, .ipv4 =>
    key.source == source && key.destination == destination && key.protocol == fragment.upperProtocol
  | .ipv6 key, .v6 source, .v6 destination, .ipv6 =>
    key.source == source && key.destination == destination && key.nextHeader == fragment.upperProtocol
  | _, _, _, _ => false

end ParsedFragment

structure TcpMetadata where
  sourcePort : U16
  destinationPort : U16
  headerLen : Nat
  flags : UInt8
  deriving DecidableEq

structure UdpMetadata where
  sourcePort : U16
  destinationPort : U16
  payloadOffset : Nat
  payloadLen : Nat
  deriving DecidableEq

inductive TransportMetadata
  | tcp (metadata : TcpMetadata)
  | udp (metadata : UdpMetadata)
  deriving DecidableEq

structure ParsedIpPacket where
  family : IpFamily
  source : IpAddr
  destination : IpAddr
  upperProtocol : UInt8
  upperProtocolField : Nat
  transportOffset : Nat
  totalLen : Nat
  transport : TransportMetadata
  deriving DecidableEq

inductive ParsedPacket
  | complete (packet : ParsedIpPacket)
  | fragment (fragment : ParsedFragment)
  deriving DecidableEq

inductive PacketRejectReason
  | empty | disabledFamily | invalidVersion | invalidLength | invalidHeaderChecksum
  | invalidSource | invalidDestination | invalidIpv4Options | sourceRouteOption | invalidFragment
  | extensionLimit | malformedExtension | unsupportedProtocol | icmpEchoUnsupported
  | jumbogramUnsupported | invalidTransport | invalidTransportChecksum
  deriving DecidableEq, Repr

structure PacketReject where
  reason : PacketRejectReason
  fragmentKey : Option FragmentKey
  control : Option ControlContext
  deriving DecidableEq

namespace PacketReject

def new (reason : PacketRejectReason) : PacketReject := ⟨reason, none, none⟩
def ofFragment (reason : PacketRejectReason) (key : FragmentKey) : PacketReject := ⟨reason, some key, none⟩
def ofControl (reason : PacketRejectReason) (control : ControlContext) : PacketReject := ⟨reason, none, some control⟩

end PacketReject

abbrev ParseResult := Except PacketReject ParsedPacket

def ipProtocolTcp : UInt8 := 6
def ipProtocolUdp : UInt8 := 17
def ipProtocolIcmp : UInt8 := 1
def ipProtocolIcmpv6 : UInt8 := 58
def ipv6HopByHop : UInt8 := 0
def ipv6Routing : UInt8 := 43
def ipv6Fragment : UInt8 := 44
def ipv6Esp : UInt8 := 50
def ipv6Ah : UInt8 := 51
def ipv6NoNextHeader : UInt8 := 59
def ipv6DestinationOptions : UInt8 := 60
def maxExtensionHeaders : Nat := 8
def maxExtensionBytes : Nat := 512
def maxReassembledPacket : Nat := 65535

namespace ParsedIpPacket

def metadataMatches (packet : ParsedIpPacket) (packetLen : Nat) : Bool :=
  let addressFamilyMatches := match packet.family, packet.source, packet.destination with
    | .ipv4, .v4 _, .v4 _ | .ipv6, .v6 _, .v6 _ => true
    | _, _, _ => false
  let transportMatches := match packet.transport with
    | .tcp tcp => packet.upperProtocol == ipProtocolTcp && decide (packet.transportOffset + tcp.headerLen ≤ packet.totalLen)
    | .udp udp => packet.upperProtocol == ipProtocolUdp && udp.payloadOffset == packet.transportOffset + 8 &&
        udp.payloadOffset + udp.payloadLen == packet.totalLen
  addressFamilyMatches && transportMatches && decide (packet.upperProtocolField < packet.transportOffset) &&
    packet.totalLen == packetLen

end ParsedIpPacket

/-- The words of one part added to a 32-bit sum: chunks of eight bytes, then the words of the
remainder, then a last odd byte. -/
def addPart : Nat → List UInt8 → Nat
  | sum, a :: b :: c :: d :: e :: f :: g :: h :: rest =>
    addPart ((sum + (a.toNat * 256 + b.toNat + (c.toNat * 256 + d.toNat) + (e.toNat * 256 + f.toNat) +
      (g.toNat * 256 + h.toNat))) % 2 ^ 32) rest
  | sum, a :: b :: rest => addPart ((sum + (a.toNat * 256 + b.toNat)) % 2 ^ 32) rest
  | sum, [a] => (sum + a.toNat * 256) % 2 ^ 32
  | sum, [] => sum

def internetChecksum (parts : List (List UInt8)) : U16 :=
  let sum := parts.foldl addPart 0
  U16.complement ⟨foldCarries sum sum % 65536, Nat.mod_lt _ (by decide)⟩

def transportChecksum (source destination : IpAddr) (protocol : UInt8) (transport : List UInt8) : U16 :=
  let length := transport.length % 2 ^ 32
  let lengthHigh := U16.toBeBytes ⟨length / 65536 % 65536, Nat.mod_lt _ (by decide)⟩
  let lengthLow := U16.toBeBytes ⟨length % 65536, Nat.mod_lt _ (by decide)⟩
  match source, destination with
  | .v4 source, .v4 destination =>
    internetChecksum [source.toList, destination.toList, [0, protocol], lengthLow, transport]
  | .v6 source, .v6 destination =>
    internetChecksum [source.toList, destination.toList, lengthHigh ++ lengthLow, [0, 0, 0, protocol], transport]
  | _, _ => 65535

theorem addPart_eq (sum : Nat) (part : List UInt8) (bound : sum < 2 ^ 32) :
    addPart sum part = (sum + wordSum part) % 2 ^ 32 := by
  induction sum, part using addPart.induct with
  | case1 sum a b c d e f g h rest ih =>
    rw [addPart, ih (Nat.mod_lt _ (by decide)), Nat.mod_add_mod]
    simp only [wordSum]
    congr 1
    omega
  | case2 sum a b rest short ih =>
    rw [addPart, ih (Nat.mod_lt _ (by decide)), Nat.mod_add_mod]
    · simp only [wordSum]
      congr 1
      omega
    · exact short
  | case3 sum a => simp [addPart, wordSum]
  | case4 sum => rw [addPart, wordSum, Nat.add_zero, Nat.mod_eq_of_lt bound]

theorem foldl_addPart (parts : List (List UInt8)) (sum : Nat) (bound : sum < 2 ^ 32) :
    parts.foldl addPart sum = (sum + (parts.map wordSum).sum) % 2 ^ 32 := by
  induction parts generalizing sum with
  | nil => rw [foldl_nil, map_nil, sum_nil, Nat.add_zero, Nat.mod_eq_of_lt bound]
  | cons part rest ih =>
    rw [foldl_cons, addPart_eq sum part bound, ih _ (Nat.mod_lt _ (by decide)), Nat.mod_add_mod, map_cons,
      sum_cons, Nat.add_assoc]

variable {parts : List (List UInt8)}

theorem internetChecksum_eq_zero (bound : (parts.map wordSum).sum < 2 ^ 32) :
    internetChecksum parts = 0 ↔ (parts.map wordSum).sum % 65535 = 0 ∧ 0 < (parts.map wordSum).sum := by
  have sum : parts.foldl addPart 0 = (parts.map wordSum).sum := by
    rw [foldl_addPart parts 0 (by decide), Nat.zero_add, Nat.mod_eq_of_lt bound]
  obtain ⟨_, _, small⟩ := foldCarries_spec (parts.map wordSum).sum le_rfl
  rw [← foldCarries_eq_max]
  unfold internetChecksum U16.complement
  simp only [sum, Nat.mod_eq_of_lt small, Fin.ext_iff, Fin.val_zero]
  omega

theorem wordSum_fill {bytes : List UInt8} {i : Nat} (fits : i + 2 ≤ bytes.length) (even : i % 2 = 0)
    (zero : be16 bytes i = 0) (value : U16) : wordSum (copyFromSlice bytes i value.toBeBytes) = wordSum bytes + value.val := by
  have moved := @wordSum_copyFromSlice bytes value.toBeBytes i fits even (by rw [U16.length_toBeBytes])
  rw [U16.length_toBeBytes, wordSum_slice fits, zero, U16.wordSum_toBeBytes] at moved
  exact moved

theorem internetChecksum_val (bound : (parts.map wordSum).sum < 2 ^ 32) :
    (internetChecksum parts).val = 65535 - foldCarries (parts.map wordSum).sum (parts.map wordSum).sum := by
  have folded : parts.foldl addPart 0 = (parts.map wordSum).sum := by
    rw [foldl_addPart parts 0 (by decide), Nat.zero_add, Nat.mod_eq_of_lt bound]
  obtain ⟨-, -, small⟩ := foldCarries_spec (parts.map wordSum).sum le_rfl
  unfold internetChecksum U16.complement
  simp only [folded, Nat.mod_eq_of_lt small]

theorem internetChecksum_filled {filled : List (List UInt8)} {value : U16}
    (same : value.val % 65535 = (internetChecksum parts).val % 65535) (positive : 0 < value.val ∨ 0 < (parts.map wordSum).sum)
    (sum : (filled.map wordSum).sum = (parts.map wordSum).sum + value.val) (bound : (filled.map wordSum).sum < 2 ^ 32) :
    internetChecksum filled = 0 := by
  obtain ⟨modulo, -, small⟩ := foldCarries_spec (parts.map wordSum).sum le_rfl
  rw [internetChecksum_val (by omega)] at same
  rw [internetChecksum_eq_zero bound, sum]
  omega

theorem internetChecksum_verifies {parts filled : List (List UInt8)}
    (sum : (filled.map wordSum).sum = (parts.map wordSum).sum + (internetChecksum parts).val)
    (bound : (filled.map wordSum).sum < 2 ^ 32) : internetChecksum filled = 0 := by
  have value := internetChecksum_val (show (parts.map wordSum).sum < 2 ^ 32 by omega)
  obtain ⟨-, zero, -⟩ := foldCarries_spec (parts.map wordSum).sum le_rfl
  exact internetChecksum_filled rfl (by omega) sum bound

theorem internetChecksum_fill {bytes : List UInt8} {i : Nat} (fits : i + 2 ≤ bytes.length) (even : i % 2 = 0)
    (zero : be16 bytes i = 0) (short : bytes.length ≤ 65535) :
    internetChecksum [copyFromSlice bytes i (internetChecksum [bytes]).toBeBytes] = 0 := by
  have sum := wordSum_fill fits even zero (internetChecksum [bytes])
  have small := wordSum_le (copyFromSlice bytes i (internetChecksum [bytes]).toBeBytes)
  rw [length_copyFromSlice (by rw [U16.length_toBeBytes]; omega)] at small
  refine @internetChecksum_verifies [bytes] _ (by simpa using sum) ?_
  simp only [map_cons, map_nil, sum_cons, sum_nil]
  omega

/-- The parts that the checksum of a transport sums before it. -/
def pseudoHeader (source destination : IpAddr) (protocol : UInt8) (length : Nat) : List (List UInt8) :=
  let high := U16.toBeBytes ⟨length % 2 ^ 32 / 65536 % 65536, Nat.mod_lt _ (by decide)⟩
  let low := U16.toBeBytes ⟨length % 2 ^ 32 % 65536, Nat.mod_lt _ (by decide)⟩
  if source.isIpv4 then [source.octets, destination.octets, [0, protocol], low]
  else [source.octets, destination.octets, high ++ low, [0, 0, 0, protocol]]

theorem transportChecksum_eq {source destination : IpAddr} (family : source.isIpv4 = destination.isIpv4) (protocol : UInt8)
    (transport : List UInt8) : transportChecksum source destination protocol transport =
      internetChecksum (pseudoHeader source destination protocol transport.length ++ [transport]) := by
  cases source <;> cases destination
  case v4.v4 => rfl
  case v6.v6 => rfl
  all_goals cases family

theorem pseudoHeader_sum (source destination : IpAddr) (protocol : UInt8) (length : Nat) :
    ((pseudoHeader source destination protocol length).map wordSum).sum ≤ 65535 * 20 := by
  have octets : ∀ address : IpAddr, wordSum address.octets ≤ 65535 * 8 := by
    intro address
    refine (wordSum_le address.octets).trans ?_
    cases address <;> simp [IpAddr.octets]
  have first := octets source
  have second := octets destination
  have third := wordSum_le [0, protocol]
  have fourth := wordSum_le [0, 0, 0, protocol]
  have low := wordSum_le (U16.toBeBytes ⟨length % 2 ^ 32 % 65536, Nat.mod_lt _ (by decide)⟩)
  have both := wordSum_le (U16.toBeBytes ⟨length % 2 ^ 32 / 65536 % 65536, Nat.mod_lt _ (by decide)⟩ ++
    U16.toBeBytes ⟨length % 2 ^ 32 % 65536, Nat.mod_lt _ (by decide)⟩)
  simp only [length_append, U16.length_toBeBytes, length_cons, length_nil] at third fourth low both
  unfold pseudoHeader
  by_cases ipv4 : source.isIpv4
  all_goals simp only [ipv4, if_true, if_false, Bool.false_eq_true, map_cons, map_nil, sum_cons, sum_nil]
  all_goals omega

theorem transportChecksum_filled {source destination : IpAddr} {protocol : UInt8} {transport filled : List UInt8} {value : U16}
    (family : source.isIpv4 = destination.isIpv4) (short : transport.length ≤ 65535) (length : filled.length = transport.length)
    (sum : wordSum filled = wordSum transport + value.val)
    (same : value.val % 65535 = (transportChecksum source destination protocol transport).val % 65535)
    (positive : 0 < value.val) : transportChecksum source destination protocol filled = 0 := by
  have small := wordSum_le filled
  have pseudo := pseudoHeader_sum source destination protocol transport.length
  rw [transportChecksum_eq family] at same ⊢
  rw [length]
  refine internetChecksum_filled same (Or.inl positive) ?_ ?_
  all_goals simp only [map_append, map_cons, map_nil, sum_append, sum_cons, sum_nil, sum]
  all_goals omega

end Ferrum.Tun
