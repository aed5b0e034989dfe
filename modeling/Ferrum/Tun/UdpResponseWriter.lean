import Ferrum.Tun.ControlWriter
import Ferrum.Tun.PacketParser

namespace Ferrum.Tun

open SliceWriter (reject orReject write fillZeros read onPrefixOr)

/-- The local application endpoint and the target of a datagram. A response goes the other way. -/
structure UdpDatagramEndpoints where
  source : SocketAddr
  target : SocketAddr
  deriving DecidableEq

def writeUdpIpv4Header (source target : Ipv4Addr) (length : Nat) : SliceWriter PacketRejectReason Unit := do
  fillZeros 28
  write 0 [0x45]
  let total ← orReject (U16.tryFrom length) .invalidLength
  write 2 total.toBeBytes
  write 8 [64]
  write 9 [17]
  write 12 source.toList
  write 16 target.toList

def writeUdpIpv6Header (source target : Ipv6Addr) (udpLen : Nat) : SliceWriter PacketRejectReason Unit := do
  fillZeros 48
  write 0 [0x60]
  let payloadLen ← orReject (U16.tryFrom udpLen) .invalidTransport
  write 4 payloadLen.toBeBytes
  write 6 [17]
  write 7 [64]
  write 8 source.toList
  write 24 target.toList

/-- The first match of `write_udp_response`: the length of the IP header, the sender and the receiver. -/
def writeUdpIpHeader (endpoints : UdpDatagramEndpoints) (payload : List UInt8) :
    SliceWriter PacketRejectReason (Nat × IpAddr × IpAddr) :=
  match endpoints.target.ip, endpoints.source.ip with
  | .v4 source, .v4 target => do
    let length := 28 + payload.length
    onPrefixOr length .invalidLength (writeUdpIpv4Header source target length)
    return (20, .v4 source, .v4 target)
  | .v6 source, .v6 target => do
    let udpLen := 8 + payload.length
    let length := 40 + udpLen
    onPrefixOr length .invalidLength (writeUdpIpv6Header source target udpLen)
    return (40, .v6 source, .v6 target)
  | _, _ => reject .invalidDestination

/-- The second match: the checksum of a datagram whose length is a `u32` modulo its bound. -/
def udpResponseChecksum (source target : IpAddr) (udpLen : Nat) (datagram : List UInt8) : Option U16 :=
  let lengthBytes := U32.toBeBytes ⟨udpLen % 4294967296, Nat.mod_lt _ (by decide)⟩
  let next : List UInt8 := [0, 0, 0, 17]
  match source, target with
  | .v4 source, .v4 target =>
    some (internetChecksum [source.toList, target.toList, next.drop 2, lengthBytes.drop 2, datagram])
  | .v6 source, .v6 target => some (internetChecksum [source.toList, target.toList, lengthBytes, next, datagram])
  | _, _ => none

/-- A zero checksum is sent as its other representation, since a zero field means none over IPv4. -/
def udpChecksumField (checksum : U16) : U16 := if checksum = 0 then 65535 else checksum

def writeUdpDatagram (header : Nat) (source target : IpAddr) (endpoints : UdpDatagramEndpoints) (payload : List UInt8) :
    SliceWriter PacketRejectReason Unit := do
  let udpLen := 8 + payload.length
  write header endpoints.target.port.toBeBytes
  write (header + 2) endpoints.source.port.toBeBytes
  let length ← orReject (U16.tryFrom udpLen) .invalidTransport
  write (header + 4) length.toBeBytes
  write (header + 8) payload
  let datagram ← read header (header + udpLen)
  let checksum ← orReject (udpResponseChecksum source target udpLen datagram) .invalidDestination
  write (header + 6) (udpChecksumField checksum).toBeBytes

def writeIpv4Checksum : SliceWriter PacketRejectReason Unit := do
  let header ← read 0 20
  write 10 (internetChecksum [header]).toBeBytes

def writeUdpResponse (endpoints : UdpDatagramEndpoints) (payload : List UInt8) : SliceWriter PacketRejectReason Nat := do
  let (header, source, target) ← writeUdpIpHeader endpoints payload
  writeUdpDatagram header source target endpoints payload
  if header = 20 then writeIpv4Checksum else pure ()
  return header + (8 + payload.length)

namespace PacketParser

def validateUdpResponse (parser : PacketParser) (source destination : SocketAddr) (packetLen : Nat) :
    Except PacketRejectReason Unit := do
  let (enabled, validSource, validDestination) ← match source.ip, destination.ip with
    | .v4 source, .v4 destination => .ok (parser.families.ipv4, ipv4Unicast source, ipv4Unicast destination)
    | .v6 source, .v6 destination => .ok (parser.families.ipv6, ipv6Unicast source, ipv6Unicast destination)
    | _, _ => .error .invalidDestination
  rejectIf (¬enabled) .disabledFamily
  rejectIf (maxReassembledPacket < packetLen) .invalidLength
  rejectIf (¬validSource) .invalidSource
  rejectIf (¬validDestination) .invalidDestination
  rejectIf (source.port = 0 ∨ destination.port = 0) .invalidTransport

end PacketParser

open SliceWriter

/-- The headers of a response over IPv4 before the checksums. -/
def udpIpv4Front (total : U16) (source target : Ipv4Addr) (sourcePort targetPort udpLen : U16) : List UInt8 :=
  [0x45, 0] ++ total.toBeBytes ++ [0, 0, 0, 0, 64, 17, 0, 0] ++ source.toList ++ target.toList ++ sourcePort.toBeBytes ++
    targetPort.toBeBytes ++ udpLen.toBeBytes ++ [0, 0]

/-- The headers of a response over IPv6 before the checksum. -/
def udpIpv6Front (payloadLen : U16) (source target : Ipv6Addr) (sourcePort targetPort udpLen : U16) : List UInt8 :=
  [0x60, 0, 0, 0] ++ payloadLen.toBeBytes ++ [17, 64] ++ source.toList ++ target.toList ++ sourcePort.toBeBytes ++
    targetPort.toBeBytes ++ udpLen.toBeBytes ++ [0, 0]

/-- A packet with the checksum of the datagram after its IP header. -/
def sealUdp (header : Nat) (source target : IpAddr) (bytes : List UInt8) : List UInt8 :=
  copyFromSlice bytes (header + 6) (udpChecksumField (transportChecksum source target ipProtocolUdp (bytes.drop header))).toBeBytes

/-- The response that is written, or the reason why there is none. -/
def udpResponse (endpoints : UdpDatagramEndpoints) (payload : List UInt8) (outputLen : Nat) :
    Except PacketRejectReason (List UInt8) :=
  match endpoints.target.ip, endpoints.source.ip with
  | .v4 source, .v4 target =>
    if outputLen < 28 + payload.length then .error .invalidLength
    else
      match U16.tryFrom (28 + payload.length), U16.tryFrom (8 + payload.length) with
      | some total, some udpLen => .ok (sealIpv4Header (sealUdp 20 (.v4 source) (.v4 target)
          (udpIpv4Front total source target endpoints.target.port endpoints.source.port udpLen ++ payload)))
      | _, _ => .error .invalidLength
  | .v6 source, .v6 target =>
    if outputLen < 48 + payload.length then .error .invalidLength
    else
      match U16.tryFrom (8 + payload.length) with
      | some udpLen => .ok (sealUdp 40 (.v6 source) (.v6 target)
          (udpIpv6Front udpLen source target endpoints.target.port endpoints.source.port udpLen ++ payload))
      | none => .error .invalidTransport
  | _, _ => .error .invalidDestination

theorem U16.tryFrom_none {value : Nat} (bound : ¬value < 65536) : U16.tryFrom value = none := dif_neg bound

theorem length_sealUdp {header : Nat} {source target : IpAddr} {bytes : List UInt8} (long : header + 8 ≤ bytes.length) :
    (sealUdp header source target bytes).length = bytes.length :=
  length_copyFromSlice (by rw [U16.length_toBeBytes]; omega)

theorem copyFromSlice_zeros (bytes : List UInt8) (n : Nat) :
    copyFromSlice bytes 0 (List.replicate n 0) = List.replicate n 0 ++ bytes.drop n := by
  unfold copyFromSlice
  rw [Nat.zero_add, List.length_replicate]
  rfl

theorem header_refused {before : List UInt8} {n value : Nat} {version : UInt8} {reason : PacketRejectReason}
    {next : U16 → SliceWriter PacketRejectReason Unit} (long : n ≤ before.length) (positive : 1 ≤ n) (bound : ¬value < 65536) :
    ∃ after, after.length = before.length ∧ (do
      fillZeros n
      write 0 [version]
      let length ← orReject (U16.tryFrom value) reason
      next length : SliceWriter PacketRejectReason Unit).Runs before after (.error reason) := by
  have fits : 0 + (List.replicate n (0 : UInt8)).length ≤ before.length := by
    rw [List.length_replicate]
    omega
  have zeroed := length_copyFromSlice fits
  have room : 0 + [version].length ≤ (copyFromSlice before 0 (List.replicate n 0)).length := by
    rw [zeroed, List.length_singleton]
    omega
  exact ⟨_, (length_copyFromSlice room).trans zeroed,
    Runs.bind (Runs.write fits) (Runs.bind (Runs.write room) (Runs.orReject_none (U16.tryFrom_none bound)).fails)⟩

section ipv4

variable {total : U16} {source target : Ipv4Addr} {sourcePort targetPort udpLen : U16}

theorem length_udpIpv4Front : (udpIpv4Front total source target sourcePort targetPort udpLen).length = 28 := by
  simp [udpIpv4Front]

theorem udpIpv4Front_ports : copyFromSlice (copyFromSlice (copyFromSlice (udpIpv4Front total source target 0 0 0)
      20 sourcePort.toBeBytes) 22 targetPort.toBeBytes) 24 udpLen.toBeBytes =
    udpIpv4Front total source target sourcePort targetPort udpLen := by
  unfold udpIpv4Front
  rw [eq_bytes4 source.length_toList, eq_bytes4 target.length_toList]
  simp [copyFromSlice, U16.toBeBytes]

theorem writeUdpIpv4Header_runs {before : List UInt8} {length : Nat} (long : 28 ≤ before.length) (bound : length < 65536) :
    (writeUdpIpv4Header source target length).Runs before
      (udpIpv4Front ⟨length, bound⟩ source target 0 0 0 ++ before.drop 28) (.ok ()) := by
  unfold writeUdpIpv4Header
  refine Runs.bind (copyFromSlice_zeros before 28 ▸ Runs.write (by rw [List.length_replicate]; omega)) ?_
  refine Runs.write_next (List.length_replicate ..) (by decide) fun front1 made1 size1 => ?_
  refine .bind (.orReject_some (U16.tryFrom_eq bound)) ?_
  refine .write_next size1 (Nat.le_of_ble_eq_true rfl) fun front2 made2 size2 => ?_
  refine .write_next size2 (by decide) fun front3 made3 size3 => ?_
  refine .write_next size3 (by decide) fun front4 made4 size4 => ?_
  refine .write_next size4 (by rw [Vector.length_toList]; decide) fun front5 made5 size5 => ?_
  have written : copyFromSlice front5 16 target.toList = udpIpv4Front ⟨length, bound⟩ source target 0 0 0 := by
    subst made5 made4 made3 made2 made1
    unfold udpIpv4Front
    rw [eq_bytes4 source.length_toList, eq_bytes4 target.length_toList]
    simp [copyFromSlice, List.replicate, U16.toBeBytes]
  rw [← written]
  exact .write_front (by rw [size5, Vector.length_toList]; decide)

end ipv4

section ipv6

variable {payloadLen : U16} {source target : Ipv6Addr} {sourcePort targetPort udpLen : U16}

theorem length_udpIpv6Front : (udpIpv6Front payloadLen source target sourcePort targetPort udpLen).length = 48 := by
  simp [udpIpv6Front]

theorem udpIpv6Front_ports : copyFromSlice (copyFromSlice (copyFromSlice (udpIpv6Front payloadLen source target 0 0 0)
      40 sourcePort.toBeBytes) 42 targetPort.toBeBytes) 44 udpLen.toBeBytes =
    udpIpv6Front payloadLen source target sourcePort targetPort udpLen := by
  have front : ([0x60, 0, 0, 0] ++ payloadLen.toBeBytes ++ [17, 64] ++ source.toList ++ target.toList).length = 40 := by simp
  unfold udpIpv6Front
  generalize [0x60, 0, 0, 0] ++ payloadLen.toBeBytes ++ [17, 64] ++ source.toList ++ target.toList = front' at *
  simp [copyFromSlice, U16.toBeBytes, front, List.take_append, List.drop_append, List.take_of_length_le, List.drop_of_length_le]

theorem writeUdpIpv6Header_runs {before : List UInt8} {length : Nat} (long : 48 ≤ before.length) (bound : length < 65536) :
    (writeUdpIpv6Header source target length).Runs before
      (udpIpv6Front ⟨length, bound⟩ source target 0 0 0 ++ before.drop 48) (.ok ()) := by
  unfold writeUdpIpv6Header
  refine Runs.bind (copyFromSlice_zeros before 48 ▸ Runs.write (by rw [List.length_replicate]; omega)) ?_
  refine Runs.write_next (List.length_replicate ..) (by decide) fun front1 made1 size1 => ?_
  refine .bind (.orReject_some (U16.tryFrom_eq bound)) ?_
  refine .write_next size1 (Nat.le_of_ble_eq_true rfl) fun front2 made2 size2 => ?_
  refine .write_next size2 (by decide) fun front3 made3 size3 => ?_
  refine .write_next size3 (by decide) fun front4 made4 size4 => ?_
  refine .write_next size4 (by rw [Vector.length_toList]; decide) fun front5 made5 size5 => ?_
  have written : copyFromSlice front5 24 target.toList = udpIpv6Front ⟨length, bound⟩ source target 0 0 0 := by
    subst made5 made4 made3 made2 made1
    unfold udpIpv6Front
    simp [copyFromSlice, List.replicate, U16.toBeBytes, List.drop_append, List.drop_eq_nil_of_le]
  rw [← written]
  exact .write_front (by rw [size5, Vector.length_toList]; decide)

end ipv6

section datagram

variable {header : Nat} {source target : IpAddr} {endpoints : UdpDatagramEndpoints} {payload front middle rest : List UInt8}

/-- The headers with the ports and the length of the datagram. -/
def withPorts (header : Nat) (endpoints : UdpDatagramEndpoints) (udpLen : U16) (front : List UInt8) : List UInt8 :=
  copyFromSlice (copyFromSlice (copyFromSlice front header endpoints.target.port.toBeBytes) (header + 2)
    endpoints.source.port.toBeBytes) (header + 4) udpLen.toBeBytes

theorem U32.toBeBytes_mod (value : Nat) : U32.toBeBytes ⟨value % 4294967296, Nat.mod_lt _ (by decide)⟩ =
    U16.toBeBytes ⟨value % 2 ^ 32 / 65536 % 65536, Nat.mod_lt _ (by decide)⟩ ++
      U16.toBeBytes ⟨value % 2 ^ 32 % 65536, Nat.mod_lt _ (by decide)⟩ := by
  have power : value % 2 ^ 32 = value % 4294967296 := rfl
  have small := Nat.mod_lt value (show 0 < 4294967296 by decide)
  have high : value % 4294967296 / 65536 % 65536 = value % 4294967296 / 65536 := Nat.mod_eq_of_lt (by omega)
  unfold U32.toBeBytes
  simp only [power, high]

theorem udpResponseChecksum_eq (same : source.isIpv4 = target.isIpv4) {datagram : List UInt8} :
    udpResponseChecksum source target datagram.length datagram = some (transportChecksum source target ipProtocolUdp datagram) := by
  unfold udpResponseChecksum transportChecksum
  rw [U32.toBeBytes_mod]
  cases source <;> cases target
  case v4.v4 => rfl
  case v6.v6 => rfl
  all_goals cases same

theorem writeUdpDatagram_runs (same : source.isIpv4 = target.isIpv4) (size : front.length = header + 8)
    (old : middle.length = payload.length) (bound : 8 + payload.length < 65536) :
    (writeUdpDatagram header source target endpoints payload).Runs (front ++ (middle ++ rest))
      (sealUdp header source target (withPorts header endpoints ⟨8 + payload.length, bound⟩ front ++ payload) ++ rest)
      (.ok ()) := by
  unfold writeUdpDatagram
  refine .write_next size (by rw [U16.length_toBeBytes]; omega) fun front1 made1 size1 => ?_
  refine .write_next size1 (by rw [U16.length_toBeBytes]; omega) fun front2 made2 size2 => ?_
  refine .bind (.orReject_some (U16.tryFrom_eq bound)) ?_
  refine .write_next size2 (by rw [U16.length_toBeBytes]; omega) fun front3 made3 size3 => ?_
  have ported : withPorts header endpoints ⟨8 + payload.length, bound⟩ front = front3 := by
    rw [made3, made2, made1, withPorts]
  rw [ported]
  have placed : copyFromSlice (front3 ++ (middle ++ rest)) (header + 8) payload = (front3 ++ payload) ++ rest := by
    rw [← List.append_assoc, copyFromSlice_append_left (by rw [List.length_append]; omega), ← size3,
      copyFromSlice_end old]
  have whole : (front3 ++ payload).length = header + (8 + payload.length) := by
    rw [List.length_append]
    omega
  refine Runs.bind (placed ▸ Runs.write (by rw [List.length_append, List.length_append]; omega)) ?_
  refine Runs.bind (Runs.read (by omega) (by rw [List.length_append]; omega)) ?_
  have datagram : slice (front3 ++ payload ++ rest) header (header + (8 + payload.length)) = (front3 ++ payload).drop header := by
    rw [slice_append_left rest (by omega), ← whole, slice_to_length]
  have length : ((front3 ++ payload).drop header).length = 8 + payload.length := by
    rw [List.length_drop]
    omega
  rw [datagram, ← length]
  refine .bind (.orReject_some (udpResponseChecksum_eq same)) ?_
  exact .write_front (by rw [U16.length_toBeBytes]; omega)

theorem writeIpv4Checksum_runs (long : 20 ≤ front.length) :
    writeIpv4Checksum.Runs (front ++ rest) (sealIpv4Header front ++ rest) (.ok ()) := by
  unfold writeIpv4Checksum
  refine .bind (.read (by decide) (by rw [List.length_append]; omega)) ?_
  rw [slice_append_left rest long]
  exact .write_front (by rw [U16.length_toBeBytes]; omega)

end datagram

section response

variable {endpoints : UdpDatagramEndpoints} {payload output : List UInt8}

theorem onHeader_runs {header : SliceWriter PacketRejectReason Unit} {front : List UInt8} {long length : Nat}
    (inside : length ≤ output.length) (runs : header.Runs (output.take length) (front ++ (output.take length).drop long) (.ok ())) :
    (onPrefixOr length .invalidLength header).Runs output (front ++ ((output.take length).drop long ++ output.drop length))
      (.ok ()) := by
  rw [← List.append_assoc]
  exact .onPrefixOr inside runs

theorem writeUdpResponse_produces (endpoints : UdpDatagramEndpoints) (payload output : List UInt8) :
    (writeUdpResponse endpoints payload).Produces output (udpResponse endpoints payload output.length) := by
  unfold writeUdpResponse writeUdpIpHeader udpResponse
  rcases endpoints with ⟨⟨receiver, receiverPort⟩, ⟨sender, senderPort⟩⟩
  cases sender <;> cases receiver
  case v4.v4 source target =>
    dsimp only
    by_cases short : output.length < 28 + payload.length
    · rw [if_pos short]
      exact ⟨output, rfl, (Runs.onPrefixOr_short (by omega)).fails.fails⟩
    rw [if_neg short]
    have taken : (output.take (28 + payload.length)).length = 28 + payload.length := List.length_take_of_le (by omega)
    by_cases bound : 28 + payload.length < 65536
    · rw [U16.tryFrom_eq bound, U16.tryFrom_eq (by omega)]
      dsimp only
      have headed := onHeader_runs (show 28 + payload.length ≤ output.length by omega)
        (@writeUdpIpv4Header_runs source target (output.take (28 + payload.length)) (28 + payload.length) (by omega) bound)
      have sent := @writeUdpDatagram_runs 20 (.v4 source) (.v4 target) ⟨⟨.v4 target, receiverPort⟩, ⟨.v4 source, senderPort⟩⟩
        payload _ _ (output.drop (28 + payload.length)) rfl
        (@length_udpIpv4Front ⟨28 + payload.length, bound⟩ source target 0 0 0)
        (show ((output.take (28 + payload.length)).drop 28).length = payload.length by rw [List.length_drop]; omega) (by omega)
      have ported : withPorts 20 ⟨⟨.v4 target, receiverPort⟩, ⟨.v4 source, senderPort⟩⟩ ⟨8 + payload.length, by omega⟩
          (udpIpv4Front ⟨28 + payload.length, bound⟩ source target 0 0 0) = _ := udpIpv4Front_ports
      rw [ported] at sent
      generalize made : sealUdp 20 (.v4 source) (.v4 target) (udpIpv4Front _ source target senderPort receiverPort _ ++ payload) =
        packet at sent
      have size : packet.length = 28 + payload.length := by
        rw [← made, length_sealUdp (by rw [List.length_append, length_udpIpv4Front]; omega), List.length_append,
          length_udpIpv4Front]
      have whole := length_sealIpv4Header (show 20 ≤ packet.length by omega)
      have total : (sealIpv4Header packet).length = 20 + (8 + payload.length) := by omega
      refine ⟨by omega, .bind (headed.bind (.pure _)) (sent.bind ((writeIpv4Checksum_runs (by omega)).bind ?_))⟩
      rw [total, ← Nat.add_assoc]
      exact .pure _
    · rw [U16.tryFrom_none bound]
      obtain ⟨after, length, refused⟩ := @header_refused (output.take (28 + payload.length)) 28 (28 + payload.length) 0x45
        .invalidLength _ (by omega) (by decide) bound
      exact ⟨_, by rw [List.length_append, List.length_drop]; omega, (Runs.onPrefixOr (by omega) refused).fails.fails⟩
  case v6.v6 source target =>
    dsimp only
    have total : 40 + (8 + payload.length) = 48 + payload.length := by omega
    rw [total]
    by_cases short : output.length < 48 + payload.length
    · rw [if_pos short]
      exact ⟨output, rfl, (Runs.onPrefixOr_short (by omega)).fails.fails⟩
    rw [if_neg short]
    have taken : (output.take (48 + payload.length)).length = 48 + payload.length := List.length_take_of_le (by omega)
    by_cases bound : 8 + payload.length < 65536
    · rw [U16.tryFrom_eq bound]
      dsimp only
      have headed := onHeader_runs (show 48 + payload.length ≤ output.length by omega)
        (@writeUdpIpv6Header_runs source target (output.take (48 + payload.length)) (8 + payload.length) (by omega) bound)
      have sent := @writeUdpDatagram_runs 40 (.v6 source) (.v6 target) ⟨⟨.v6 target, receiverPort⟩, ⟨.v6 source, senderPort⟩⟩
        payload _ _ (output.drop (48 + payload.length)) rfl
        (@length_udpIpv6Front ⟨8 + payload.length, bound⟩ source target 0 0 0)
        (show ((output.take (48 + payload.length)).drop 48).length = payload.length by rw [List.length_drop]; omega) bound
      have ported : withPorts 40 ⟨⟨.v6 target, receiverPort⟩, ⟨.v6 source, senderPort⟩⟩ ⟨8 + payload.length, bound⟩
          (udpIpv6Front ⟨8 + payload.length, bound⟩ source target 0 0 0) = _ := udpIpv6Front_ports
      rw [ported] at sent
      generalize made : sealUdp 40 (.v6 source) (.v6 target) (udpIpv6Front _ source target senderPort receiverPort _ ++ payload) =
        packet at sent
      have size : packet.length = 48 + payload.length := by
        rw [← made, length_sealUdp (by rw [List.length_append, length_udpIpv6Front]; omega), List.length_append,
          length_udpIpv6Front]
      refine ⟨by omega, .bind (headed.bind (.pure _)) (sent.bind ?_)⟩
      rw [size, ← total]
      exact .pure _
    · rw [U16.tryFrom_none bound]
      obtain ⟨after, length, refused⟩ := @header_refused (output.take (48 + payload.length)) 48 (8 + payload.length) 0x60
        .invalidTransport _ (by omega) (by decide) bound
      exact ⟨_, by rw [List.length_append, List.length_drop]; omega, (Runs.onPrefixOr (by omega) refused).fails.fails⟩
  all_goals exact ⟨output, rfl, (Runs.reject _).fails⟩

end response

end Ferrum.Tun
