import Ferrum.Core.Target
import Ferrum.Crypto.UdpOpen
import Ferrum.Shadowsocks.TcpReplayStore
import Ferrum.Shadowsocks.UdpReplayRing

namespace Ferrum.Shadowsocks

open Checked Core Crypto
open Tun (SocketAddr ipv6At)

def maxUdpWireLen : Nat := 65507
def timestampWidth : Nat := 8
def sessionIdLen : Nat := 8
def paddingWidth : Nat := 2
def commonHeaderLen : Nat := 1 + timestampWidth + paddingWidth
def responseBindingLen : Nat := sessionIdLen
def responseType : Nat := 1
def ipv4Atyp : UInt8 := 1
def domainAtyp : UInt8 := 3
def ipv6Atyp : UInt8 := 4

/-- The closed failures of a frame. -/
inductive FrameError
  | addressUnsupported | keyUnavailable | cipher | nonceExhausted | bounds | paddingBounds | emptyRequest
  | emptyResponse | responseSaltReuse
  deriving DecidableEq, Repr

/-- The direction of a packet; a response names the session that it answers. -/
inductive PacketDirection
  | request
  | response (binding : UdpSessionId)

def PacketDirection.messageType : PacketDirection → UInt8
  | .request => 0
  | .response _ => 1

def PacketDirection.bindingLen : PacketDirection → Nat
  | .request => 0
  | .response _ => responseBindingLen

/-- The bytes that bind a response, which a request has not. -/
def PacketDirection.binding : PacketDirection → List UInt8
  | .request => []
  | .response binding => binding.bytes

/-- A target that passed the checks of its encoding, not yet owned. -/
inductive ValidatedTarget
  | ip (address : SocketAddr)
  | domain (host : List UInt8) (port : U16)

def ValidatedTarget.intoOwned : ValidatedTarget → Except DetectionReason TargetAddr
  | .ip address => (TargetAddr.ip address).mapError fun _ => .addressBounds
  | .domain host port => (TargetAddr.domain host port).mapError fun _ => .addressBounds

/-- The checks of an encoded target, with the width of its encoding. What is not UTF-8 is not
ASCII either, and both are refused with the same reason. -/
def validateTarget (bytes : List UInt8) : Checked DetectionReason (ValidatedTarget × Nat) := do
  let atyp ← okOr bytes.head? .addressBounds
  if atyp = ipv4Atyp then
    failIf (bytes.length < 7) .addressBounds
    let first ← index bytes 1
    let second ← index bytes 2
    let third ← index bytes 3
    let fourth ← index bytes 4
    let high ← index bytes 5
    let low ← index bytes 6
    let port := U16.fromBeBytes high low
    failIf (port = 0) .addressBounds
    return (.ip ⟨.v4 (.new first second third fourth), port⟩, 7)
  else if atyp = ipv6Atyp then
    failIf (bytes.length < 19) .addressBounds
    let octets ← slicing bytes 1 17
    assert (octets.length = 16)
    let high ← index bytes 17
    let low ← index bytes 18
    let port := U16.fromBeBytes high low
    failIf (port = 0) .addressBounds
    return (.ip ⟨.v6 (ipv6At octets 0), port⟩, 19)
  else if atyp = domainAtyp then
    let length ← okOr bytes[1]? .addressBounds
    let hostEnd := 2 + length.toNat
    let portEnd := hostEnd + 2
    failIf (bytes.length < portEnd) .addressBounds
    let host ← slicing bytes 2 hostEnd
    let portBytes ← slicing bytes hostEnd portEnd
    let high ← index portBytes 0
    let low ← index portBytes 1
    let port := U16.fromBeBytes high low
    failIf (host = [] ∨ isAscii host = false ∨ port = 0) .addressBounds
    return (.domain host port, portEnd)
  else fail .addressBounds

def encodedTargetLen (target : TargetAddr) : Nat :=
  match target.host with
  | .ip (.v4 _) => 7
  | .ip (.v6 _) => 19
  | .domain name => 4 + name.original.length

def encodeTarget (target : TargetAddr) : Except FrameError (List UInt8) :=
  match target.host with
  | .ip (.v4 address) => .ok (ipv4Atyp :: address.toList ++ target.port.toBeBytes)
  | .ip (.v6 address) => .ok (ipv6Atyp :: address.toList ++ target.port.toBeBytes)
  | .domain name =>
    if 255 < name.original.length then .error .addressUnsupported
    else .ok (domainAtyp :: UInt8.ofNat name.original.length :: name.original ++ target.port.toBeBytes)

def mapFrame : FrameError → UdpPacketError
  | .addressUnsupported => .address
  | _ => .bounds

def mapTarget : DetectionReason → UdpPacketError
  | .addressBounds => .address
  | _ => .bounds

def mapCrypto : UdpCryptoError → UdpPacketError
  | .ownerMismatch | .ownerExhausted => .generation
  | .authenticationFailed => .authentication
  | .randomUnavailable => .random
  | .counterExhausted => .counter
  | .inputTooShort | .outputTooSmall => .bounds
  | .methodMismatch | .operationFailed => .key

variable (profile : MethodProfile)

/-- The largest payload that fits the wire bound, for the width of an encoded target. Each
`checked_add` of the code fails with the same error, as their sum does here. -/
def maxUdpPayloadLenForEncodedTarget (bindingLen encodedTargetLen paddingLen : Nat) : Except UdpPacketError Nat := do
  let semanticOverhead := commonHeaderLen + bindingLen + paddingLen + encodedTargetLen
  rejectIf (2 ^ 64 ≤ semanticOverhead) .bounds
  rejectIf (65535 < paddingLen) .bounds
  rejectIf (maxUdpWireLen < profile.udpWireOverheadBytes + semanticOverhead) .bounds
  return maxUdpWireLen - profile.udpWireOverheadBytes - semanticOverhead

def maxUdpPayloadLen (direction : PacketDirection) (target : TargetAddr) (paddingLen : Nat) : Except UdpPacketError Nat :=
  maxUdpPayloadLenForEncodedTarget profile direction.bindingLen (encodedTargetLen target) paddingLen

/-- The predicted length of a packet on the wire. -/
def udpWireLen (direction : PacketDirection) (target : TargetAddr) (payloadLen paddingLen : Nat) :
    Except UdpPacketError Nat := do
  let maxPayload ← maxUdpPayloadLen profile direction target paddingLen
  rejectIf (maxPayload < payloadLen) .bounds
  rejectIf (maxUdpWireLen < maxPayload - payloadLen) .bounds
  return maxUdpWireLen - (maxPayload - payloadLen)

/-- The random padding; no random bytes are drawn for an empty one. -/
def fillPadding (random : SecureRandom) (paddingLen : Nat) : Except UdpPacketError (List UInt8) :=
  if paddingLen = 0 then .ok [] else orError (random.fill paddingLen) .random

/-- The plaintext of a packet: type, timestamp, binding, padding, target and payload. -/
def encodeBody (direction : PacketDirection) (timestamp : U64) (random : SecureRandom) (paddingLen : Nat)
    (target : TargetAddr) (payload : List UInt8) : Except UdpPacketError (List UInt8) := do
  let width ← orError (U16.tryFrom paddingLen) .bounds
  let padding ← fillPadding random paddingLen
  let address ← (encodeTarget target).mapError mapFrame
  return direction.messageType :: timestamp.toBeBytes ++ direction.binding ++ width.toBeBytes ++ padding ++
    address ++ payload

/-- What an encoding leaves: the session, the output and its result. -/
structure UdpEncoding where
  outbound : UdpOutboundSession
  output : List UInt8
  result : Except UdpPacketError Nat

/-- The checks before a packet is built; the current time when they pass. -/
def encodeChecks (clock : Option U64) (direction : PacketDirection) (target : TargetAddr) (payload output : List UInt8)
    (paddingLen : Nat) : Except UdpPacketError U64 := do
  let maxPayload ← maxUdpPayloadLen profile direction target paddingLen
  rejectIf (maxPayload < payload.length) .bounds
  let bodyLen := maxUdpWireLen - profile.udpWireOverheadBytes - (maxPayload - payload.length)
  rejectIf (output.length < bodyLen + profile.udpWireOverheadBytes) .bounds
  orError clock .clock

/-- Builds and seals one packet. The source of randomness is asked for the padding and for the
nonce of the method. -/
def encodePacket (crypto : UdpCrypto) (outbound : UdpOutboundSession) (clock : Option U64)
    (paddingRandom nonceRandom : SecureRandom) (direction : PacketDirection) (target : TargetAddr) (payload : List UInt8)
    (paddingLen : Nat) (output : List UInt8) (primitive : Primitive) : UdpEncoding :=
  match encodeChecks crypto.profile clock direction target payload output paddingLen with
  | .error error => ⟨outbound, output, .error error⟩
  | .ok timestamp =>
    match encodeBody direction timestamp paddingRandom paddingLen target payload with
    | .error error => ⟨outbound, output, .error error⟩
    | .ok body =>
      let sealing := crypto.sealUdp outbound body output nonceRandom primitive
      match sealing.result with
      | .error error => ⟨sealing.outbound, sealing.output, .error (mapCrypto error)⟩
      | .ok sealed => ⟨sealing.outbound, sealing.output, .ok sealed.wireLen⟩

variable (body : List UInt8)

/-- The step over the binding, which only a response has. -/
def bindingEnd (timestampEnd : Nat) : PacketDirection → Checked UdpPacketError Nat
  | .request => .ok timestampEnd
  | .response binding => do
    let encoded ← okOr (getRange body timestampEnd (timestampEnd + sessionIdLen)) .bounds
    failIf (binding.matchesWire encoded = false) .binding
    .ok (timestampEnd + sessionIdLen)

/-- The checks of an opened body, with where its payload starts. -/
def parseBody (clock : Option U64) (direction : PacketDirection) : Checked UdpPacketError (ValidatedTarget × Nat) := do
  let messageType ← okOr body.head? .bounds
  failIf (messageType ≠ direction.messageType) .type
  let timestampEnd := 1 + timestampWidth
  let timestampBytes ← okOr (getRange body 1 timestampEnd) .bounds
  assert (timestampBytes.length = 8)
  let now ← okOr clock .clock
  failIf (30 < absDiff now.val (U64.fromBeBytes timestampBytes).val) .timestamp
  let cursor ← bindingEnd body timestampEnd direction
  let paddingEnd := cursor + paddingWidth
  let paddingBytes ← okOr (getRange body cursor paddingEnd) .padding
  let high ← index paddingBytes 0
  let low ← index paddingBytes 1
  let addressStart := paddingEnd + (U16.fromBeBytes high low).val
  let address ← okOr (getRange body addressStart body.length) .padding
  let (target, addressLen) ← (validateTarget address).mapError mapTarget
  return (target, addressStart + addressLen)

/-- An opened packet, whose target and payload still lie in the scratch. -/
structure BorrowedOpenedPacket where
  sessionId : UdpSessionId
  packetId : U64
  target : ValidatedTarget
  payload : List UInt8

structure OpenedPacket where
  sessionId : UdpSessionId
  packetId : U64
  datagram : Datagram
  deriving DecidableEq

section open_

variable {primitives : UdpPrimitives}

/-- Opens one packet; the second part is the cache that the scratch keeps. -/
def openPacketBorrowed (crypto : UdpCrypto) (clock : Option U64) (wire : List UInt8) (cache : UdpOpenCache primitives)
    (direction : PacketDirection) : Checked UdpPacketError (BorrowedOpenedPacket × UdpOpenCache primitives) := do
  failIf (maxUdpWireLen < wire.length) .bounds
  let opened ← (crypto.openWithCache wire (List.replicate wire.length 0) cache).mapError mapCrypto
  let body := opened.plaintextOutput.take opened.result.plaintextLen
  let (target, payloadStart) ← parseBody body clock direction
  let payload ← slicing body payloadStart body.length
  return (⟨opened.result.sessionId, opened.result.packetId, target, payload⟩, opened.cache)

/-- Opens one packet into owned storage, as the server does. -/
def openPacket (crypto : UdpCrypto) (clock : Option U64) (wire : List UInt8) (cache : UdpOpenCache primitives)
    (direction : PacketDirection) : Checked UdpPacketError OpenedPacket := do
  let (opened, _) ← openPacketBorrowed crypto clock wire cache direction
  let target ← (ofExcept opened.target.intoOwned).mapError mapTarget
  let datagram ← okOr (Datagram.new target opened.payload opened.payload.length) .bounds
  return ⟨opened.sessionId, opened.packetId, datagram⟩

/-- Copies an opened response into owned storage, as the client does. -/
def materialize (opened : BorrowedOpenedPacket) : Checked UdpPacketError OpenedPacket := do
  let target ← expect opened.target.intoOwned.toOption
  let datagram ← expect (Datagram.new target opened.payload opened.payload.length)
  return ⟨opened.sessionId, opened.packetId, datagram⟩

end open_

def ValidatedTarget.Owns (target : ValidatedTarget) (owned : TargetAddr) : Prop := target.intoOwned = .ok owned

theorem intoOwned_ip {address : Tun.SocketAddr} (nonzero : address.port ≠ 0) :
    (ValidatedTarget.ip address).Owns ⟨.ip address.ip, address.port, nonzero⟩ := by
  simp only [ValidatedTarget.Owns, ValidatedTarget.intoOwned, TargetAddr.ip, dif_neg nonzero, Except.mapError]

theorem intoOwned_domain {host : List UInt8} {port : U16} (name : DomainName) (same : name.original = host)
    (nonzero : port ≠ 0) : (ValidatedTarget.domain host port).Owns ⟨.domain name, port, nonzero⟩ := by
  subst same
  simp only [ValidatedTarget.Owns, ValidatedTarget.intoOwned, TargetAddr.domain, DomainName.new, dif_neg nonzero,
    dif_neg name.nonempty, dif_pos name.bounded, dif_pos name.ascii, Except.mapError]

theorem validateTarget_safe (bytes : List UInt8) : Safe (validateTarget bytes) := by
  unfold validateTarget
  refine (safe_okOr _ _).bind fun atyp _ => ?_
  split
  · refine (safe_failIf _ _).bind fun _ long => ?_
    rw [failIf_eq_ok] at long
    refine (safe_index (by omega)).bind fun _ _ => ?_
    refine (safe_index (by omega)).bind fun _ _ => ?_
    refine (safe_index (by omega)).bind fun _ _ => ?_
    refine (safe_index (by omega)).bind fun _ _ => ?_
    refine (safe_index (by omega)).bind fun _ _ => ?_
    refine (safe_index (by omega)).bind fun _ _ => ?_
    exact (safe_failIf _ _).bind fun _ _ => safe_ok _
  split
  · refine (safe_failIf _ _).bind fun _ long => ?_
    rw [failIf_eq_ok] at long
    refine (safe_slicing (by omega) (by omega)).bind fun octets sliced => ?_
    obtain ⟨-, -, range⟩ := slicing_eq_ok.mp sliced
    refine (safe_assert ?_).bind fun _ _ => ?_
    · rw [← range, length_slice]
      omega
    refine (safe_index (by omega)).bind fun _ _ => ?_
    refine (safe_index (by omega)).bind fun _ _ => ?_
    exact (safe_failIf _ _).bind fun _ _ => safe_ok _
  split
  · refine (safe_okOr _ _).bind fun length _ => ?_
    refine (safe_failIf _ _).bind fun _ long => ?_
    rw [failIf_eq_ok] at long
    refine (safe_slicing (by omega) (by omega)).bind fun host _ => ?_
    refine (safe_slicing (by omega) (by omega)).bind fun portBytes sliced => ?_
    obtain ⟨-, -, range⟩ := slicing_eq_ok.mp sliced
    have two : portBytes.length = 2 := by
      rw [← range, length_slice]
      omega
    refine (safe_index (by omega)).bind fun _ _ => ?_
    refine (safe_index (by omega)).bind fun _ _ => ?_
    exact (safe_failIf _ _).bind fun _ _ => safe_ok _
  · exact safe_fail _

theorem validateTarget_owned {bytes : List UInt8} {target : ValidatedTarget} {length : Nat}
    (valid : validateTarget bytes = .ok (target, length)) : length ≤ bytes.length ∧ ∃ owned, target.Owns owned := by
  unfold validateTarget at valid
  obtain ⟨atyp, -, valid⟩ := bind_eq_ok.mp valid
  split at valid
  · obtain ⟨_, long, valid⟩ := bind_eq_ok.mp valid
    rw [failIf_eq_ok] at long
    obtain ⟨first, -, valid⟩ := bind_eq_ok.mp valid
    obtain ⟨second, -, valid⟩ := bind_eq_ok.mp valid
    obtain ⟨third, -, valid⟩ := bind_eq_ok.mp valid
    obtain ⟨fourth, -, valid⟩ := bind_eq_ok.mp valid
    obtain ⟨high, -, valid⟩ := bind_eq_ok.mp valid
    obtain ⟨low, -, valid⟩ := bind_eq_ok.mp valid
    obtain ⟨_, nonzero, valid⟩ := bind_eq_ok.mp valid
    rw [failIf_eq_ok] at nonzero
    cases valid
    exact ⟨by omega, _, intoOwned_ip nonzero⟩
  split at valid
  · obtain ⟨_, long, valid⟩ := bind_eq_ok.mp valid
    rw [failIf_eq_ok] at long
    obtain ⟨octets, -, valid⟩ := bind_eq_ok.mp valid
    obtain ⟨_, -, valid⟩ := bind_eq_ok.mp valid
    obtain ⟨high, -, valid⟩ := bind_eq_ok.mp valid
    obtain ⟨low, -, valid⟩ := bind_eq_ok.mp valid
    obtain ⟨_, nonzero, valid⟩ := bind_eq_ok.mp valid
    rw [failIf_eq_ok] at nonzero
    cases valid
    exact ⟨by omega, _, intoOwned_ip nonzero⟩
  split at valid
  · obtain ⟨length, -, valid⟩ := bind_eq_ok.mp valid
    obtain ⟨_, long, valid⟩ := bind_eq_ok.mp valid
    rw [failIf_eq_ok] at long
    obtain ⟨host, sliced, valid⟩ := bind_eq_ok.mp valid
    obtain ⟨-, -, range⟩ := slicing_eq_ok.mp sliced
    obtain ⟨portBytes, -, valid⟩ := bind_eq_ok.mp valid
    obtain ⟨high, -, valid⟩ := bind_eq_ok.mp valid
    obtain ⟨low, -, valid⟩ := bind_eq_ok.mp valid
    obtain ⟨_, checks, valid⟩ := bind_eq_ok.mp valid
    rw [failIf_eq_ok, not_or, not_or] at checks
    obtain ⟨nonempty, ascii, nonzero⟩ := checks
    have bounded : host.length ≤ maxDomainNameBytes := by
      have byte := length.toNat_lt
      have bound : maxDomainNameBytes = 255 := rfl
      rw [← range, length_slice]
      omega
    cases valid
    exact ⟨by omega, _, intoOwned_domain ⟨host, nonempty, bounded, Bool.not_eq_false _ ▸ ascii⟩ rfl nonzero⟩
  · cases valid

theorem bindingEnd_safe (timestampEnd : Nat) (direction : PacketDirection) :
    Safe (bindingEnd body timestampEnd direction) := by
  cases direction with
  | request => exact safe_ok _
  | response binding => exact (safe_okOr _ _).bind fun _ _ => (safe_failIf _ _).bind fun _ _ => safe_ok _

theorem parseBody_safe (clock : Option U64) (direction : PacketDirection) : Safe (parseBody body clock direction) := by
  unfold parseBody
  refine (safe_okOr _ _).bind fun messageType _ => ?_
  refine (safe_failIf _ _).bind fun _ _ => ?_
  refine (safe_okOr _ _).bind fun timestampBytes found => ?_
  obtain ⟨-, fits, range⟩ := getRange_eq_some.mp (okOr_eq_ok.mp found)
  refine (safe_assert ?_).bind fun _ _ => ?_
  · have width : timestampWidth = 8 := rfl
    rw [← range, length_slice]
    omega
  refine (safe_okOr _ _).bind fun now _ => ?_
  refine (safe_failIf _ _).bind fun _ _ => ?_
  refine (bindingEnd_safe _ _ _).bind fun cursor _ => ?_
  refine (safe_okOr _ _).bind fun paddingBytes found => ?_
  obtain ⟨-, fits, range⟩ := getRange_eq_some.mp (okOr_eq_ok.mp found)
  have two : paddingBytes.length = 2 := by
    have width : paddingWidth = 2 := rfl
    rw [← range, length_slice]
    omega
  refine (safe_index (by omega)).bind fun high _ => ?_
  refine (safe_index (by omega)).bind fun low _ => ?_
  refine (safe_okOr _ _).bind fun address _ => ?_
  exact ((validateTarget_safe address).mapError mapTarget).bind fun _ _ => safe_ok _

theorem parseBody_owned {body : List UInt8} {clock : Option U64} {direction : PacketDirection} {target : ValidatedTarget}
    {payloadStart : Nat} (parsed : parseBody body clock direction = .ok (target, payloadStart)) :
    payloadStart ≤ body.length ∧ ∃ owned, target.Owns owned := by
  unfold parseBody at parsed
  obtain ⟨messageType, -, parsed⟩ := bind_eq_ok.mp parsed
  obtain ⟨_, -, parsed⟩ := bind_eq_ok.mp parsed
  obtain ⟨timestampBytes, -, parsed⟩ := bind_eq_ok.mp parsed
  obtain ⟨_, -, parsed⟩ := bind_eq_ok.mp parsed
  obtain ⟨now, -, parsed⟩ := bind_eq_ok.mp parsed
  obtain ⟨_, -, parsed⟩ := bind_eq_ok.mp parsed
  obtain ⟨cursor, -, parsed⟩ := bind_eq_ok.mp parsed
  obtain ⟨paddingBytes, -, parsed⟩ := bind_eq_ok.mp parsed
  obtain ⟨high, -, parsed⟩ := bind_eq_ok.mp parsed
  obtain ⟨low, -, parsed⟩ := bind_eq_ok.mp parsed
  obtain ⟨address, found, parsed⟩ := bind_eq_ok.mp parsed
  obtain ⟨order, -, range⟩ := getRange_eq_some.mp (okOr_eq_ok.mp found)
  obtain ⟨⟨validated, addressLen⟩, valid, parsed⟩ := bind_eq_ok.mp parsed
  obtain ⟨within, owns⟩ := validateTarget_owned (checked_mapError_eq_ok.mp valid)
  cases parsed
  refine ⟨?_, owns⟩
  rw [← range, length_slice] at within
  omega

section open_

variable {primitives : UdpPrimitives}

theorem openPacketBorrowed_safe (crypto : UdpCrypto) (clock : Option U64) (wire : List UInt8)
    (cache : UdpOpenCache primitives) (direction : PacketDirection) :
    Safe (openPacketBorrowed crypto clock wire cache direction) := by
  unfold openPacketBorrowed
  refine (safe_failIf _ _).bind fun _ _ => ?_
  refine ((openWithCache_safe crypto wire _ cache).mapError mapCrypto).bind fun opened _ => ?_
  refine (parseBody_safe _ clock direction).bind fun parts parsed => ?_
  obtain ⟨target, payloadStart⟩ := parts
  have within := (parseBody_owned parsed).1
  exact (safe_slicing within le_rfl).bind fun _ _ => safe_ok _

theorem openPacketBorrowed_owned {crypto : UdpCrypto} {clock : Option U64} {wire : List UInt8}
    {cache after : UdpOpenCache primitives} {direction : PacketDirection} {opened : BorrowedOpenedPacket}
    (returned : openPacketBorrowed crypto clock wire cache direction = .ok (opened, after)) :
    ∃ owned, opened.target.Owns owned := by
  unfold openPacketBorrowed at returned
  obtain ⟨_, -, returned⟩ := bind_eq_ok.mp returned
  obtain ⟨opening, -, returned⟩ := bind_eq_ok.mp returned
  obtain ⟨⟨target, payloadStart⟩, parsed, returned⟩ := bind_eq_ok.mp returned
  obtain ⟨payload, -, returned⟩ := bind_eq_ok.mp returned
  cases returned
  exact (parseBody_owned parsed).2

theorem openPacket_safe (crypto : UdpCrypto) (clock : Option U64) (wire : List UInt8) (cache : UdpOpenCache primitives)
    (direction : PacketDirection) : Safe (openPacket crypto clock wire cache direction) := by
  unfold openPacket
  refine (openPacketBorrowed_safe crypto clock wire cache direction).bind fun opened _ => ?_
  refine ((safe_ofExcept _).mapError mapTarget).bind fun target _ => ?_
  exact (safe_okOr _ _).bind fun _ _ => safe_ok _

theorem materialize_eq {opened : BorrowedOpenedPacket} {owned : TargetAddr} (owns : opened.target.Owns owned) :
    materialize opened = .ok ⟨opened.sessionId, opened.packetId, ⟨owned, opened.payload⟩⟩ := by
  have owns' : opened.target.intoOwned = .ok owned := owns
  have whole : Datagram.new owned opened.payload opened.payload.length = some ⟨owned, opened.payload⟩ :=
    if_neg (Nat.lt_irrefl _)
  unfold materialize
  rw [owns']
  change (expect (Datagram.new owned opened.payload opened.payload.length) >>= _) = _
  rw [whole]
  rfl

end open_

end Ferrum.Shadowsocks
