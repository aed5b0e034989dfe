import Ferrum.Tun.ControlReply
import Ferrum.Tun.UdpResponseWriter

namespace Ferrum.Tun

open PacketReject (new)

theorem validateTransport_datagram {source destination : IpAddr} {offset : Nat} {transport : List UInt8}
    (long : 8 ≤ transport.length) (whole : be16 transport 4 = transport.length) (present : be16 transport 6 ≠ 0)
    (checksum : transportChecksum source destination ipProtocolUdp transport = 0) :
    validateTransport source destination ipProtocolUdp offset transport =
      if u16At transport 0 = 0 ∨ u16At transport 2 = 0 then .error (new .invalidTransport)
      else .ok (.udp ⟨u16At transport 0, u16At transport 2, offset + 8, transport.length - 8⟩) := by
  unfold validateTransport
  refine (rejectIf_bind (by omega)).trans ?_
  by_cases ports : u16At transport 0 = 0 ∨ u16At transport 2 = 0
  · rw [if_pos ports]
    unfold rejectIf
    rw [if_pos ports]
    rfl
  · rw [if_neg ports]
    refine (rejectIf_bind ports).trans ?_
    have metadata : transportMetadata ipProtocolUdp offset transport =
        .ok (.udp ⟨u16At transport 0, u16At transport 2, offset + 8, transport.length - 8⟩) := by
      unfold transportMetadata
      rw [if_neg (by decide), if_pos rfl]
      refine (rejectIf_bind (by omega)).trans ?_
      rw [whole]
      rfl
    rw [metadata]
    refine (if_neg (fun both => present both.2)).trans ?_
    exact rejectIf_bind (not_not.mpr checksum)

theorem sealUdp_sound {header : Nat} {source target : IpAddr} {blank : List UInt8} (family : source.isIpv4 = target.isIpv4)
    (long : header + 8 ≤ blank.length) (short : blank.length ≤ header + 65535) (zero : be16 blank (header + 6) = 0) :
    transportChecksum source target ipProtocolUdp ((sealUdp header source target blank).drop header) = 0 ∧
      be16 (sealUdp header source target blank) (header + 6) ≠ 0 ∧
      ∀ i, i < header + 6 ∨ header + 8 ≤ i → byte (sealUdp header source target blank) i = byte blank i := by
  unfold sealUdp
  have written : (udpChecksumField (transportChecksum source target ipProtocolUdp (blank.drop header))).val % 65535 =
        (transportChecksum source target ipProtocolUdp (blank.drop header)).val % 65535 ∧
      0 < (udpChecksumField (transportChecksum source target ipProtocolUdp (blank.drop header))).val := by
    generalize transportChecksum source target ipProtocolUdp (blank.drop header) = checksum
    unfold udpChecksumField
    by_cases none : checksum = 0
    · rw [if_pos none, none]
      decide
    · rw [if_neg none]
      exact ⟨rfl, Nat.pos_of_ne_zero fun same => none (Fin.ext same)⟩
  generalize udpChecksumField (transportChecksum source target ipProtocolUdp (blank.drop header)) = field at written
  have fits : header + 6 + field.toBeBytes.length ≤ blank.length := by
    rw [U16.length_toBeBytes]
    omega
  have tail : (copyFromSlice blank (header + 6) field.toBeBytes).drop header = copyFromSlice (blank.drop header) 6 field.toBeBytes := by
    rw [drop_copyFromSlice (by omega) fits, Nat.add_sub_cancel_left]
  have inside : 6 + field.toBeBytes.length ≤ (blank.drop header).length := by
    rw [List.length_drop]
    omega
  refine ⟨?_, ?_, fun i outside => byte_copyFromSlice_outside fits (by rw [U16.length_toBeBytes]; omega)⟩
  · rw [tail]
    exact transportChecksum_filled family (by rw [List.length_drop]; omega) (length_copyFromSlice inside)
      (wordSum_fill inside (by decide) ((be16_drop blank header 6).trans zero) field) written.1 written.2
  · have stored := slice_copyFromSlice_self fits
    rw [U16.length_toBeBytes] at stored
    rw [be16_of_slice stored]
    omega

/-- The datagram after the IP header of a packet: its ports, its payload, and a checksum that is there. -/
structure UdpDatagramAt (packet : List UInt8) (header : Nat) (source target : SocketAddr) (payload : List UInt8) : Prop where
  size : packet.length = header + 8 + payload.length
  sourcePort : be16 packet header = source.port.val
  targetPort : be16 packet (header + 2) = target.port.val
  length : be16 packet (header + 4) = 8 + payload.length
  present : be16 packet (header + 6) ≠ 0
  checksum : transportChecksum source.ip target.ip ipProtocolUdp (packet.drop header) = 0
  payload : packet.drop (header + 8) = payload

namespace UdpDatagramAt

variable {packet other payload : List UInt8} {header : Nat} {source target : SocketAddr}

theorem congr (datagram : UdpDatagramAt packet header source target payload) (length : other.length = packet.length)
    (same : other.drop header = packet.drop header) : UdpDatagramAt other header source target payload := by
  have words : ∀ k, be16 other (header + k) = be16 packet (header + k) := fun k => by
    rw [← be16_drop, same, be16_drop]
  have rest : other.drop (header + 8) = packet.drop (header + 8) := by
    rw [← List.drop_drop, same, List.drop_drop]
  exact ⟨length.trans datagram.size, (words 0).trans datagram.sourcePort, (words 2).trans datagram.targetPort,
    (words 4).trans datagram.length, fun zero => datagram.present ((words 6).symm.trans zero), same ▸ datagram.checksum,
    rest.trans datagram.payload⟩

theorem validate (datagram : UdpDatagramAt packet header source target payload) :
    validateTransport source.ip target.ip ipProtocolUdp header (packet.drop header) =
      if source.port = 0 ∨ target.port = 0 then .error (new .invalidTransport)
      else .ok (.udp ⟨source.port, target.port, header + 8, payload.length⟩) := by
  have size := datagram.size
  have long : (packet.drop header).length = 8 + payload.length := by
    rw [List.length_drop]
    omega
  have sourcePort : u16At (packet.drop header) 0 = source.port :=
    Fin.ext ((be16_drop packet header 0).trans datagram.sourcePort)
  have targetPort : u16At (packet.drop header) 2 = target.port :=
    Fin.ext ((be16_drop packet header 2).trans datagram.targetPort)
  rw [validateTransport_datagram (by omega) (by rw [be16_drop, datagram.length, long])
    (by rw [be16_drop]; exact datagram.present) datagram.checksum, sourcePort, targetPort, long, Nat.add_sub_cancel_left]

end UdpDatagramAt

theorem sealUdp_datagram {headers payload : List UInt8} {header : Nat} {source target : SocketAddr} {udpLen : U16}
    (family : source.ip.isIpv4 = target.ip.isIpv4) (size : headers.length = header + 8)
    (sourcePort : slice headers header (header + 2) = source.port.toBeBytes)
    (targetPort : slice headers (header + 2) (header + 2 + 2) = target.port.toBeBytes)
    (length : slice headers (header + 4) (header + 4 + 2) = udpLen.toBeBytes) (zero : be16 headers (header + 6) = 0)
    (value : udpLen.val = 8 + payload.length) :
    UdpDatagramAt (sealUdp header source.ip target.ip (headers ++ payload)) header source target payload := by
  have small := udpLen.isLt
  have whole : (headers ++ payload).length = header + 8 + payload.length := by
    rw [List.length_append, size]
  have total := @length_sealUdp header source.ip target.ip (headers ++ payload) (by omega)
  obtain ⟨checksum, present, kept⟩ := @sealUdp_sound header source.ip target.ip (headers ++ payload) family (by omega)
    (by omega) ((be16_append_left (by omega)).trans zero)
  have words : ∀ i, header ≤ i → i + 2 ≤ header + 6 →
      be16 (sealUdp header source.ip target.ip (headers ++ payload)) i = be16 headers i := fun i above below =>
    (be16_congr (kept i (by omega)) (kept (i + 1) (by omega))).trans (be16_append_left (by omega))
  refine ⟨total.trans whole, ?_, ?_, ?_, present, checksum, ?_⟩
  · exact (words header (by omega) (by omega)).trans (be16_of_slice sourcePort)
  · exact (words (header + 2) (by omega) (by omega)).trans (be16_of_slice targetPort)
  · exact ((words (header + 4) (by omega) (by omega)).trans (be16_of_slice length)).trans value
  · refine ext_byte (by rw [List.length_drop]; omega) fun i inside => ?_
    rw [byte_drop, kept (header + 8 + i) (by omega), byte_append, if_neg (by omega), size, Nat.add_sub_cancel_left]

section ipv4

variable {total udpLen sourcePort targetPort : U16} {source target : Ipv4Addr} {payload : List UInt8}

theorem udpIpv4Front_slices :
    slice (udpIpv4Front total source target sourcePort targetPort udpLen) 2 4 = total.toBeBytes ∧
    slice (udpIpv4Front total source target sourcePort targetPort udpLen) 12 16 = source.toList ∧
    slice (udpIpv4Front total source target sourcePort targetPort udpLen) 16 20 = target.toList ∧
    slice (udpIpv4Front total source target sourcePort targetPort udpLen) 20 22 = sourcePort.toBeBytes ∧
    slice (udpIpv4Front total source target sourcePort targetPort udpLen) 22 24 = targetPort.toBeBytes ∧
    slice (udpIpv4Front total source target sourcePort targetPort udpLen) 24 26 = udpLen.toBeBytes := by
  unfold udpIpv4Front slice
  simp [U16.toBeBytes, List.take_append, List.take_of_length_le, List.drop_append, List.drop_eq_nil_of_le]

theorem udpIpv4Front_bytes : byte (udpIpv4Front total source target sourcePort targetPort udpLen) 0 = 0x45 ∧
    byte (udpIpv4Front total source target sourcePort targetPort udpLen) 9 = ipProtocolUdp ∧
    be16 (udpIpv4Front total source target sourcePort targetPort udpLen) 6 = 0 ∧
    be16 (udpIpv4Front total source target sourcePort targetPort udpLen) 10 = 0 ∧
    be16 (udpIpv4Front total source target sourcePort targetPort udpLen) 26 = 0 := by
  unfold udpIpv4Front
  rw [eq_bytes4 source.length_toList, eq_bytes4 target.length_toList]
  simp [byte, be16, byteAt, U16.toBeBytes, ipProtocolUdp]

/-- A response over IPv4, apart from what its endpoints decide. -/
structure Ipv4Response (packet : List UInt8) (source target : Ipv4Addr) (sourcePort targetPort : U16) (payload : List UInt8) :
    Prop where
  datagram : UdpDatagramAt packet 20 ⟨.v4 source, sourcePort⟩ ⟨.v4 target, targetPort⟩ payload
  version : byte packet 0 = 0x45
  protocol : byte packet 9 = ipProtocolUdp
  total : be16 packet 2 = packet.length
  flags : be16 packet 6 = 0
  sender : ipv4At packet 12 = source
  receiver : ipv4At packet 16 = target
  checksum : internetChecksum [slice packet 0 20] = 0

theorem udpIpv4_response (size : total.val = 28 + payload.length) (length : udpLen.val = 8 + payload.length) :
    Ipv4Response (sealIpv4Header (sealUdp 20 (.v4 source) (.v4 target)
      (udpIpv4Front total source target sourcePort targetPort udpLen ++ payload))) source target sourcePort targetPort payload := by
  have front := @length_udpIpv4Front total source target sourcePort targetPort udpLen
  obtain ⟨totals, sender, receiver, fromPort, toPort, lengths⟩ :=
    @udpIpv4Front_slices total udpLen sourcePort targetPort source target
  obtain ⟨version, protocol, flags, header, message⟩ :=
    @udpIpv4Front_bytes total udpLen sourcePort targetPort source target
  generalize udpIpv4Front total source target sourcePort targetPort udpLen = headers at *
  have datagram := @sealUdp_datagram headers payload 20 ⟨.v4 source, sourcePort⟩ ⟨.v4 target, targetPort⟩ udpLen rfl front
    fromPort toPort lengths message length
  have small := total.isLt
  have whole : (headers ++ payload).length = 28 + payload.length := by
    rw [List.length_append, front]
  obtain ⟨-, -, kept⟩ := @sealUdp_sound 20 (.v4 source) (.v4 target) (headers ++ payload) rfl (by omega) (by omega)
    ((be16_append_left (by omega)).trans message)
  have sized := datagram.size
  dsimp only at datagram sized
  generalize sealUdp 20 (.v4 source) (.v4 target) (headers ++ payload) = packet at *
  obtain ⟨checksum, rest, others⟩ := sealIpv4Header_sound (show 20 ≤ packet.length by omega)
    (((be16_congr (kept 10 (by omega)) (kept 11 (by omega))).trans (be16_append_left (by omega))).trans header)
  have final := length_sealIpv4Header (show 20 ≤ packet.length by omega)
  generalize sealIpv4Header packet = sealed at *
  have bytes : ∀ i, i < 10 ∨ 12 ≤ i ∧ i < 20 → byte sealed i = byte headers i := by
    intro i inside
    rw [others i (by omega), kept i (by omega), byte_append, if_pos (by omega)]
  have words : ∀ i, i < 9 → be16 sealed i = be16 headers i := fun i below => be16_congr (bytes i (by omega)) (bytes (i + 1) (by omega))
  refine ⟨datagram.congr final rest, (bytes 0 (by omega)).trans version, (bytes 9 (by omega)).trans protocol, ?_,
    (words 6 (by omega)).trans flags, ?_, ?_, checksum⟩
  · rw [words 2 (by omega), be16_of_slice totals]
    omega
  · exact ipv4At_eq fun k bound => by rw [bytes _ (by omega), ← sender, byte_slice (by omega)]
  · exact ipv4At_eq fun k bound => by rw [bytes _ (by omega), ← receiver, byte_slice (by omega)]

end ipv4

section ipv6

variable {payloadLen udpLen sourcePort targetPort : U16} {source target : Ipv6Addr} {payload : List UInt8}

theorem udpIpv6Front_slices :
    slice (udpIpv6Front payloadLen source target sourcePort targetPort udpLen) 4 6 = payloadLen.toBeBytes ∧
    slice (udpIpv6Front payloadLen source target sourcePort targetPort udpLen) 8 24 = source.toList ∧
    slice (udpIpv6Front payloadLen source target sourcePort targetPort udpLen) 24 40 = target.toList ∧
    slice (udpIpv6Front payloadLen source target sourcePort targetPort udpLen) 40 42 = sourcePort.toBeBytes ∧
    slice (udpIpv6Front payloadLen source target sourcePort targetPort udpLen) 42 44 = targetPort.toBeBytes ∧
    slice (udpIpv6Front payloadLen source target sourcePort targetPort udpLen) 44 46 = udpLen.toBeBytes := by
  unfold udpIpv6Front slice
  simp [U16.toBeBytes, List.take_append, List.take_of_length_le, List.drop_append, List.drop_eq_nil_of_le]

theorem udpIpv6Front_bytes : byte (udpIpv6Front payloadLen source target sourcePort targetPort udpLen) 0 = 0x60 ∧
    byte (udpIpv6Front payloadLen source target sourcePort targetPort udpLen) 6 = ipProtocolUdp ∧
    be16 (udpIpv6Front payloadLen source target sourcePort targetPort udpLen) 46 = 0 := by
  unfold udpIpv6Front
  simp [byte, be16, byteAt, U16.toBeBytes, ipProtocolUdp]

/-- A response over IPv6, apart from what its endpoints and its length decide. -/
structure Ipv6Response (packet : List UInt8) (source target : Ipv6Addr) (sourcePort targetPort : U16) (payload : List UInt8) :
    Prop where
  datagram : UdpDatagramAt packet 40 ⟨.v6 source, sourcePort⟩ ⟨.v6 target, targetPort⟩ payload
  version : byte packet 0 = 0x60
  protocol : byte packet 6 = ipProtocolUdp
  total : 40 + be16 packet 4 = packet.length
  sender : ipv6At packet 8 = source
  receiver : ipv6At packet 24 = target

theorem udpIpv6_response (length : udpLen.val = 8 + payload.length) :
    Ipv6Response (sealUdp 40 (.v6 source) (.v6 target)
      (udpIpv6Front udpLen source target sourcePort targetPort udpLen ++ payload)) source target sourcePort targetPort payload := by
  have front := @length_udpIpv6Front udpLen source target sourcePort targetPort udpLen
  obtain ⟨totals, sender, receiver, fromPort, toPort, lengths⟩ :=
    @udpIpv6Front_slices udpLen udpLen sourcePort targetPort source target
  obtain ⟨version, protocol, message⟩ := @udpIpv6Front_bytes udpLen udpLen sourcePort targetPort source target
  generalize udpIpv6Front udpLen source target sourcePort targetPort udpLen = headers at *
  have datagram := @sealUdp_datagram headers payload 40 ⟨.v6 source, sourcePort⟩ ⟨.v6 target, targetPort⟩ udpLen rfl front
    fromPort toPort lengths message length
  have small := udpLen.isLt
  have whole : (headers ++ payload).length = 48 + payload.length := by
    rw [List.length_append, front]
  obtain ⟨-, -, kept⟩ := @sealUdp_sound 40 (.v6 source) (.v6 target) (headers ++ payload) rfl (by omega) (by omega)
    ((be16_append_left (by omega)).trans message)
  have sized := datagram.size
  dsimp only at datagram sized
  generalize sealUdp 40 (.v6 source) (.v6 target) (headers ++ payload) = packet at *
  have bytes : ∀ i, i < 40 → byte packet i = byte headers i := by
    intro i inside
    rw [kept i (by omega), byte_append, if_pos (by omega)]
  refine ⟨datagram, (bytes 0 (by omega)).trans version, (bytes 6 (by omega)).trans protocol, ?_, ?_, ?_⟩
  · rw [be16_congr (bytes 4 (by omega)) (bytes 5 (by omega)), be16_of_slice totals]
    omega
  · exact ipv6At_eq fun k bound => by rw [bytes _ (by omega), ← sender, byte_slice (by omega)]
  · exact ipv6At_eq fun k bound => by rw [bytes _ (by omega), ← receiver, byte_slice (by omega)]

end ipv6

namespace PacketParser

variable {parser : PacketParser} {packet payload : List UInt8} {sourcePort targetPort : U16} {result : ParsedPacket}

theorem parse_ipv4Response {source target : Ipv4Addr} (response : Ipv4Response packet source target sourcePort targetPort payload) :
    parser.parse packet = .ok result ↔
      (parser.families.ipv4 = true ∧ ipv4Unicast source = true ∧ ipv4Unicast target = true ∧ ¬(sourcePort = 0 ∨ targetPort = 0)) ∧
        result = .complete ⟨.ipv4, .v4 source, .v4 target, ipProtocolUdp, 9, 20, packet.length,
          .udp ⟨sourcePort, targetPort, 28, payload.length⟩⟩ := by
  have size := response.datagram.size
  have validated := response.datagram.validate
  have first : byteAt packet 0 = 0x45 := congrArg UInt8.toNat response.version
  have header : ipv4HeaderLen packet = 20 := by
    unfold ipv4HeaderLen
    rw [first]
    rfl
  have whole : ¬ipv4Fragmented packet := by
    unfold ipv4Fragmented ipv4MoreFragments ipv4Offset
    rw [response.flags]
    decide
  have other : ∀ allowed, parseIpv6 packet allowed ≠ .ok result := by
    intro allowed accepted
    have version := (parseIpv6_eq_ok.mp accepted).1.version
    rw [first] at version
    exact absurd version (by decide)
  unfold parse
  rw [parseWithFragments_eq_ok, parseIpv4_eq_ok, header, response.sender, response.receiver, response.protocol, validated]
  constructor
  · rintro (⟨enabled, accepted, ⟨fragmented, -⟩ | ⟨-, -, transport, valid, same⟩⟩ | ⟨-, accepted⟩)
    · exact absurd fragmented whole
    · have unicast := And.intro accepted.source accepted.destination
      rw [response.sender, response.receiver] at unicast
      by_cases ports : sourcePort = 0 ∨ targetPort = 0
      · rw [if_pos ports] at valid
        cases valid
      · rw [if_neg ports] at valid
        cases valid
        exact ⟨⟨enabled, unicast.1, unicast.2, ports⟩, same⟩
    · exact absurd accepted (other true)
  · rintro ⟨⟨enabled, sender, receiver, ports⟩, same⟩
    refine .inl ⟨enabled, ?_, .inr ⟨whole, .inr rfl, _, if_neg ports, same⟩⟩
    refine ⟨by omega, by rw [first]; rfl, by omega, by omega, response.total, header ▸ response.checksum, ?_, ?_, ?_, ?_, ?_⟩
    · have none : slice packet 20 20 = [] := List.length_eq_zero_iff.mp (by simp)
      rw [header, none]
      rfl
    · rw [response.sender]
      exact sender
    · rw [response.receiver]
      exact receiver
    · rw [response.flags]
      rfl
    · exact fun _ => whole

theorem parse_ipv6Response {source target : Ipv6Addr} (response : Ipv6Response packet source target sourcePort targetPort payload) :
    parser.parse packet = .ok result ↔
      (parser.families.ipv6 = true ∧ packet.length ≤ maxReassembledPacket ∧ ipv6Unicast source = true ∧
        ipv6Unicast target = true ∧ ¬(sourcePort = 0 ∨ targetPort = 0)) ∧
        result = .complete ⟨.ipv6, .v6 source, .v6 target, ipProtocolUdp, 6, 40, packet.length,
          .udp ⟨sourcePort, targetPort, 48, payload.length⟩⟩ := by
  have size := response.datagram.size
  have total := response.total
  have validated := response.datagram.validate
  have first : byteAt packet 0 = 0x60 := congrArg UInt8.toNat response.version
  have other : ∀ allowed, parseIpv4 packet allowed ≠ .ok result := by
    intro allowed accepted
    have version := (parseIpv4_eq_ok.mp accepted).1.version
    rw [first] at version
    exact absurd version (by decide)
  have extensions : ipv6Extensions packet true = .ok (.inl (.new ipProtocolUdp)) := by
    unfold ipv6Extensions
    rw [response.protocol]
    rfl
  unfold parse
  rw [parseWithFragments_eq_ok, parseIpv6_eq_ok, extensions, response.sender, response.receiver]
  constructor
  · rintro (⟨-, accepted⟩ | ⟨enabled, accepted, ⟨fragment, found, -⟩ | ⟨state, transport, found, valid, same⟩⟩)
    · exact absurd accepted (other true)
    · cases found
    · cases found
      have unicast := And.intro accepted.source accepted.destination
      rw [response.sender, response.receiver] at unicast
      by_cases ports : sourcePort = 0 ∨ targetPort = 0
      · cases (validated.trans (if_pos ports)).symm.trans valid
      · cases (validated.trans (if_neg ports)).symm.trans valid
        exact ⟨⟨enabled, accepted.bound, unicast.1, unicast.2, ports⟩, same⟩
  · rintro ⟨⟨enabled, bound, sender, receiver, ports⟩, same⟩
    refine .inr ⟨enabled, ?_, .inr ⟨_, _, rfl, validated.trans (if_neg ports), same⟩⟩
    refine ⟨by omega, by rw [first]; rfl, by omega, total, bound, ?_, ?_⟩
    · rw [response.sender]
      exact sender
    · rw [response.receiver]
      exact receiver

theorem validateUdpResponse_ipv4 {source target : Ipv4Addr} {packetLen : Nat} (bound : packetLen ≤ maxReassembledPacket) :
    parser.validateUdpResponse ⟨.v4 source, sourcePort⟩ ⟨.v4 target, targetPort⟩ packetLen = .ok () ↔
      parser.families.ipv4 = true ∧ ipv4Unicast source = true ∧ ipv4Unicast target = true ∧ ¬(sourcePort = 0 ∨ targetPort = 0) := by
  unfold validateUdpResponse
  dsimp only [bind, Except.bind]
  change (rejectIf _ _ >>= fun _ => rejectIf _ _ >>= fun _ => rejectIf _ _ >>= fun _ => rejectIf _ _ >>= fun _ => rejectIf _ _) = _ ↔ _
  simp only [bind_eq_ok, rejectIf_eq_ok, exists_const, not_not, Nat.not_lt]
  constructor
  · rintro ⟨enabled, -, sender, receiver, ports⟩
    exact ⟨enabled, sender, receiver, ports⟩
  · rintro ⟨enabled, sender, receiver, ports⟩
    exact ⟨enabled, bound, sender, receiver, ports⟩

theorem validateUdpResponse_ipv6 {source target : Ipv6Addr} {packetLen : Nat} :
    parser.validateUdpResponse ⟨.v6 source, sourcePort⟩ ⟨.v6 target, targetPort⟩ packetLen = .ok () ↔
      parser.families.ipv6 = true ∧ packetLen ≤ maxReassembledPacket ∧ ipv6Unicast source = true ∧ ipv6Unicast target = true ∧
        ¬(sourcePort = 0 ∨ targetPort = 0) := by
  unfold validateUdpResponse
  dsimp only [bind, Except.bind]
  change (rejectIf _ _ >>= fun _ => rejectIf _ _ >>= fun _ => rejectIf _ _ >>= fun _ => rejectIf _ _ >>= fun _ => rejectIf _ _) = _ ↔ _
  simp only [bind_eq_ok, rejectIf_eq_ok, exists_const, not_not, Nat.not_lt]

end PacketParser

/-- The parsed packet is the response for these endpoints: addresses, ports, payload, and a checksum that is there. -/
structure ParsedIpPacket.Responds (parsed : ParsedIpPacket) (endpoints : UdpDatagramEndpoints) (payload packet : List UInt8) :
    Prop where
  source : parsed.source = endpoints.target.ip
  destination : parsed.destination = endpoints.source.ip
  transport : parsed.transport = .udp ⟨endpoints.target.port, endpoints.source.port, parsed.transportOffset + 8, payload.length⟩
  datagram : UdpDatagramAt packet parsed.transportOffset endpoints.target endpoints.source payload

theorem udpResponse_agrees {endpoints : UdpDatagramEndpoints} {payload packet : List UInt8} {outputLen : Nat}
    (made : udpResponse endpoints payload outputLen = .ok packet) (parser : PacketParser) :
    parser.validateUdpResponse endpoints.target endpoints.source packet.length = .ok () ↔
      ∃ parsed, parser.parse packet = .ok (.complete parsed) ∧ parsed.Responds endpoints payload packet := by
  obtain ⟨⟨receiver, targetPort⟩, ⟨sender, sourcePort⟩⟩ := endpoints
  unfold udpResponse at made
  cases sender <;> cases receiver
  case v4.v4 source target =>
    dsimp only at made
    split at made
    · cases made
    split at made
    · rename_i total udpLen foundTotal foundLength
      cases made
      have size := U16.tryFrom_some foundTotal
      have small := total.isLt
      have response := @udpIpv4_response total udpLen sourcePort targetPort source target payload size (U16.tryFrom_some foundLength)
      have length := response.datagram.size
      generalize sealIpv4Header (sealUdp 20 (.v4 source) (.v4 target) _) = packet at *
      rw [parser.validateUdpResponse_ipv4 (by unfold maxReassembledPacket; omega)]
      constructor
      · exact fun valid => ⟨_, (parser.parse_ipv4Response response).mpr ⟨valid, rfl⟩, rfl, rfl, rfl, response.datagram⟩
      · rintro ⟨parsed, accepted, -⟩
        exact ((parser.parse_ipv4Response response).mp accepted).1
    · cases made
  case v6.v6 source target =>
    dsimp only at made
    split at made
    · cases made
    split at made
    · rename_i udpLen foundLength
      cases made
      have response := @udpIpv6_response udpLen sourcePort targetPort source target payload (U16.tryFrom_some foundLength)
      generalize sealUdp 40 (.v6 source) (.v6 target) _ = packet at *
      rw [parser.validateUdpResponse_ipv6]
      constructor
      · exact fun valid => ⟨_, (parser.parse_ipv6Response response).mpr ⟨valid, rfl⟩, rfl, rfl, rfl, response.datagram⟩
      · rintro ⟨parsed, accepted, -⟩
        exact ((parser.parse_ipv6Response response).mp accepted).1
    · cases made
  all_goals cases made

end Ferrum.Tun
