import Mathlib.Data.Nat.ModEq
import Ferrum.Tun.PacketParser

namespace Ferrum.Tun

open List

/-- Why the TUN owner dropped a packet or a flow. -/
inductive TunRejectReason
  | invalidIpVersion | familyDisabled | invalidIpLength | invalidIpChecksum | invalidExtensionHeader
  | unsupportedIpProtocol | icmpEchoUnsupported | fragmentMalformed | fragmentOverlap | fragmentTimeout
  | fragmentLimit | invalidTransportLength | invalidTransportChecksum | invalidSource | invalidDestination
  | ingressFull | tcpFlowLimit | udpAssociationLimit | udpCandidateTimeout | udpQueueFull
  | udpResponseFiltered | udpResponseClosed | staleGeneration | wintunRingFull
  deriving DecidableEq, Repr

def tcpFin : UInt8 := 0x01
def tcpSyn : UInt8 := 0x02
def tcpRst : UInt8 := 0x04
def tcpAck : UInt8 := 0x10

structure RewritePlan where
  source : SocketAddr
  destination : SocketAddr
  deriving DecidableEq

def isInitialSyn (tcp : TcpMetadata) : Bool := tcp.flags &&& (tcpFin ||| tcpSyn ||| tcpRst ||| tcpAck) == tcpSyn

def tcpSequence (packet : List UInt8) (transportOffset : Nat) : Except TunRejectReason U32 :=
  if packet.length < transportOffset + 8 then .error .invalidTransportLength else .ok (u32At packet (transportOffset + 4))

def readWord (packet : List UInt8) (offset : Nat) : Except TunRejectReason U16 :=
  if packet.length < offset + 2 then .error .invalidTransportLength else .ok (u16At packet offset)

/-- The incremental update of a checksum when one word of the summed data changes. -/
def replaceChecksumWord (checksum old new : U16) : U16 :=
  let sum := (U16.complement checksum).val + (U16.complement old).val + new.val
  U16.complement ⟨foldCarry (foldCarry sum) % 65536, Nat.mod_lt _ (by decide)⟩

/-- The update for every word of an address, in order. -/
def replaceChecksumWords (checksum : U16) : List UInt8 → List UInt8 → U16
  | a :: b :: old, c :: d :: new =>
    replaceChecksumWords (replaceChecksumWord checksum (u16At [a, b] 0) (u16At [c, d] 0)) old new
  | _, _ => checksum

/-- The writes of `rewrite_tuple` to the transport header. -/
def writeTransport (packet : List UInt8) (offset : Nat) (plan : RewritePlan) (checksum : U16) : List UInt8 :=
  let packet := copyFromSlice packet offset plan.source.port.toBeBytes
  let packet := copyFromSlice packet (offset + 2) plan.destination.port.toBeBytes
  copyFromSlice packet (offset + 16) checksum.toBeBytes

/-- The rewritten packet with the result; the checks come before every write. -/
def rewriteTuple (packet : List UInt8) (parsed : ParsedIpPacket) (plan : RewritePlan) :
    List UInt8 × Except TunRejectReason Unit :=
  if parsed.source.isIpv4 ≠ plan.source.ip.isIpv4 ∨ parsed.destination.isIpv4 ≠ plan.destination.ip.isIpv4 then
    (packet, .error .invalidDestination)
  else
    let offset := parsed.transportOffset
    match readWord packet offset, readWord packet (offset + 2), readWord packet (offset + 16) with
    | .ok oldSourcePort, .ok oldDestinationPort, .ok tcpChecksum =>
      let tcpChecksum := replaceChecksumWord tcpChecksum oldSourcePort plan.source.port
      let tcpChecksum := replaceChecksumWord tcpChecksum oldDestinationPort plan.destination.port
      match parsed.source, parsed.destination, plan.source.ip, plan.destination.ip with
      | .v4 oldSource, .v4 oldDestination, .v4 newSource, .v4 newDestination =>
        match readWord packet 10 with
        | .error reason => (packet, .error reason)
        | .ok headerChecksum =>
          let headerChecksum := replaceChecksumWords headerChecksum oldSource.toList newSource.toList
          let headerChecksum := replaceChecksumWords headerChecksum oldDestination.toList newDestination.toList
          let tcpChecksum := replaceChecksumWords tcpChecksum oldSource.toList newSource.toList
          let tcpChecksum := replaceChecksumWords tcpChecksum oldDestination.toList newDestination.toList
          let packet := copyFromSlice packet 12 newSource.toList
          let packet := copyFromSlice packet 16 newDestination.toList
          let packet := copyFromSlice packet 10 headerChecksum.toBeBytes
          (writeTransport packet offset plan tcpChecksum, .ok ())
      | .v6 oldSource, .v6 oldDestination, .v6 newSource, .v6 newDestination =>
        let tcpChecksum := replaceChecksumWords tcpChecksum oldSource.toList newSource.toList
        let tcpChecksum := replaceChecksumWords tcpChecksum oldDestination.toList newDestination.toList
        let packet := copyFromSlice packet 8 newSource.toList
        let packet := copyFromSlice packet 24 newDestination.toList
        (writeTransport packet offset plan tcpChecksum, .ok ())
      | _, _, _, _ => (packet, .error .invalidDestination)
    | .error reason, _, _ => (packet, .error reason)
    | _, .error reason, _ => (packet, .error reason)
    | _, _, .error reason => (packet, .error reason)

theorem replaceChecksumWord_mod (checksum old new : U16) :
    (replaceChecksumWord checksum old new).val + new.val ≡ checksum.val + old.val [MOD 65535] := by
  have boundChecksum := checksum.isLt
  have boundOld := old.isLt
  have boundNew := new.isLt
  generalize total : (U16.complement checksum).val + (U16.complement old).val + new.val = sum
  have first : foldCarry sum ≤ 65536 := by
    rw [foldCarry_eq]
    simp only [U16.complement] at total
    omega
  have second : foldCarry (foldCarry sum) ≤ 65535 := by
    rw [foldCarry_eq (foldCarry sum)]
    omega
  have modulo : foldCarry (foldCarry sum) % 65535 = sum % 65535 := (foldCarry_mod _).trans (foldCarry_mod _)
  have value : (replaceChecksumWord checksum old new).val = 65535 - foldCarry (foldCarry sum) := by
    change 65535 - foldCarry (foldCarry ((U16.complement checksum).val + (U16.complement old).val + new.val)) % 65536 = _
    rw [total, Nat.mod_eq_of_lt (by omega)]
  rw [value]
  simp only [U16.complement] at total
  unfold Nat.ModEq
  omega

theorem replaceChecksumWords_mod (checksum : U16) (old new : List UInt8) (length : old.length = new.length)
    (even : old.length % 2 = 0) :
    (replaceChecksumWords checksum old new).val + wordSum new ≡ checksum.val + wordSum old [MOD 65535] := by
  induction checksum, old, new using replaceChecksumWords.induct with
  | case1 checksum a b old c d new ih =>
    simp only [length_cons] at length even
    have step := ih (by omega) (by omega)
    have word := replaceChecksumWord_mod checksum (u16At [a, b] 0) (u16At [c, d] 0)
    have oldWord : (u16At [a, b] 0).val = a.toNat * 256 + b.toNat := rfl
    have newWord : (u16At [c, d] 0).val = c.toNat * 256 + d.toNat := rfl
    rw [replaceChecksumWords, wordSum, wordSum, ← oldWord, ← newWord]
    generalize replaceChecksumWord checksum (u16At [a, b] 0) (u16At [c, d] 0) = middle at *
    calc (replaceChecksumWords middle old new).val + ((u16At [c, d] 0).val + wordSum new)
        = (replaceChecksumWords middle old new).val + wordSum new + (u16At [c, d] 0).val := by omega
      _ ≡ middle.val + wordSum old + (u16At [c, d] 0).val [MOD 65535] := step.add_right _
      _ = middle.val + (u16At [c, d] 0).val + wordSum old := by omega
      _ ≡ checksum.val + (u16At [a, b] 0).val + wordSum old [MOD 65535] := word.add_right _
      _ = checksum.val + ((u16At [a, b] 0).val + wordSum old) := by omega
  | case2 old checksum new other =>
    rcases old with _ | ⟨a, _ | ⟨b, rest⟩⟩
    · rw [List.length_nil, eq_comm, length_eq_zero_iff] at length
      rw [length]
      exact Nat.ModEq.refl _
    · simp at even
    · rcases new with _ | ⟨c, _ | ⟨d, tail⟩⟩
      · simp at length
      · simp at length
      · exact (other a b rest c d tail rfl rfl).elim

/-- The part of the pseudo-header sum that the addresses and the segment do not decide. -/
def pseudoSum (ipv4 : Bool) (protocol : UInt8) (length : Nat) : Nat :=
  if ipv4 then wordSum [0, protocol] + length else length + wordSum [0, 0, 0, protocol]

theorem wordSum_length {length : Nat} (short : length ≤ 65535) :
    wordSum (U16.toBeBytes ⟨length % 65536, Nat.mod_lt _ (by decide)⟩) = length ∧
      wordSum (U16.toBeBytes ⟨length / 65536 % 65536, Nat.mod_lt _ (by decide)⟩) = 0 := by
  simp only [U16.wordSum_toBeBytes]
  omega

theorem IpAddr.length_octets_le (address : IpAddr) : address.octets.length ≤ 16 ∧ address.octets.length % 2 = 0 := by
  cases address <;> simp [octets]

variable {transport bytes : List UInt8} {i : Nat}

theorem transportChecksum_eq_zero {source destination : IpAddr} {protocol : UInt8}
    (family : source.isIpv4 = destination.isIpv4) (short : transport.length ≤ 65535) :
    transportChecksum source destination protocol transport = 0 ↔
      (wordSum source.octets + wordSum destination.octets + pseudoSum source.isIpv4 protocol transport.length +
        wordSum transport) % 65535 = 0 ∧
      0 < wordSum source.octets + wordSum destination.octets + pseudoSum source.isIpv4 protocol transport.length +
        wordSum transport := by
  have small : transport.length % 2 ^ 32 = transport.length := Nat.mod_eq_of_lt (by omega)
  obtain ⟨low, high⟩ := wordSum_length short
  have boundSource := wordSum_le source.octets
  have boundDestination := wordSum_le destination.octets
  have boundTransport := wordSum_le transport
  have boundProtocol := protocol.toNat_lt
  have sourceLength := source.length_octets_le.1
  have destinationLength := destination.length_octets_le.1
  cases source with
  | v4 first =>
    cases destination with
    | v4 second =>
      simp only [transportChecksum, small, IpAddr.octets, IpAddr.isIpv4, pseudoSum, if_true] at *
      rw [internetChecksum_eq_zero]
      · simp only [map_cons, map_nil, sum_cons, sum_nil, low]
        omega
      · simp only [map_cons, map_nil, sum_cons, sum_nil, low, wordSum, UInt8.toNat_zero]
        omega
    | v6 second => simp [IpAddr.isIpv4] at family
  | v6 first =>
    cases destination with
    | v4 second => simp [IpAddr.isIpv4] at family
    | v6 second =>
      have joined : wordSum (U16.toBeBytes ⟨transport.length / 65536 % 65536, Nat.mod_lt _ (by decide)⟩ ++
          U16.toBeBytes ⟨transport.length % 65536, Nat.mod_lt _ (by decide)⟩) = transport.length := by
        rw [wordSum_append (by simp), low, high, Nat.zero_add]
      simp only [transportChecksum, small, IpAddr.octets, IpAddr.isIpv4, pseudoSum] at *
      rw [internetChecksum_eq_zero]
      · simp only [map_cons, map_nil, sum_cons, sum_nil, joined, Bool.false_eq_true, if_false]
        omega
      · simp only [map_cons, map_nil, sum_cons, sum_nil, joined, wordSum, UInt8.toNat_zero]
        omega

section writeTransport

variable {packet : List UInt8} {offset : Nat} {plan : RewritePlan} {checksum : U16}

section

variable (fits : offset + 18 ≤ packet.length)
include fits

theorem length_writeTransport : (writeTransport packet offset plan checksum).length = packet.length := by
  have first : (copyFromSlice packet offset plan.source.port.toBeBytes).length = packet.length :=
    length_copyFromSlice (by simp; omega)
  have second : (copyFromSlice (copyFromSlice packet offset plan.source.port.toBeBytes) (offset + 2)
      plan.destination.port.toBeBytes).length = packet.length := by
    rw [length_copyFromSlice (by simp [first]; omega), first]
  unfold writeTransport
  rw [length_copyFromSlice (by simp [second]; omega), second]

theorem byte_writeTransport (i : Nat) : byte (writeTransport packet offset plan checksum) i =
      if offset + 16 ≤ i ∧ i < offset + 18 then byte checksum.toBeBytes (i - (offset + 16))
      else if offset + 2 ≤ i ∧ i < offset + 4 then byte plan.destination.port.toBeBytes (i - (offset + 2))
      else if offset ≤ i ∧ i < offset + 2 then byte plan.source.port.toBeBytes (i - offset)
      else byte packet i := by
  have first : (copyFromSlice packet offset plan.source.port.toBeBytes).length = packet.length :=
    length_copyFromSlice (by simp; omega)
  have second : (copyFromSlice (copyFromSlice packet offset plan.source.port.toBeBytes) (offset + 2)
      plan.destination.port.toBeBytes).length = packet.length := by
    rw [length_copyFromSlice (by simp [first]; omega), first]
  unfold writeTransport
  rw [byte_copyFromSlice (by simp [second]; omega), byte_copyFromSlice (by simp [first]; omega),
    byte_copyFromSlice (by simp; omega)]
  rfl

theorem byte_writeTransport_outside {i : Nat}
    (outside : i < offset ∨ offset + 4 ≤ i ∧ i < offset + 16 ∨ offset + 18 ≤ i) :
    byte (writeTransport packet offset plan checksum) i = byte packet i := by
  rw [byte_writeTransport fits, if_neg (by omega), if_neg (by omega), if_neg (by omega)]

theorem drop_writeTransport :
    (writeTransport packet offset plan checksum).drop offset = writeTransport (packet.drop offset) 0 plan checksum := by
  have fitsDrop : 0 + 18 ≤ (packet.drop offset).length := by
    rw [length_drop]
    omega
  refine ext_byte ?_ ?_
  · rw [length_drop, length_writeTransport fits, length_writeTransport fitsDrop, length_drop]
  · intro i bound
    rw [byte_drop, byte_writeTransport fits, byte_writeTransport fitsDrop, byte_drop]
    simp only [Nat.add_le_add_iff_left, Nat.add_lt_add_iff_left, Nat.zero_add, Nat.zero_le, Nat.le_add_right,
      Nat.add_sub_add_left, Nat.add_sub_cancel_left, Nat.sub_zero]

end

end writeTransport

theorem wordSum_writeTransport (fits : 18 ≤ transport.length) (plan : RewritePlan) (checksum : U16) :
    wordSum (writeTransport transport 0 plan checksum) + (be16 transport 0 + be16 transport 2 + be16 transport 16) =
      wordSum transport + (plan.source.port.val + plan.destination.port.val + checksum.val) := by
  have fitsFirst : 0 + plan.source.port.toBeBytes.length ≤ transport.length := by simp; omega
  have first : (copyFromSlice transport 0 plan.source.port.toBeBytes).length = transport.length :=
    length_copyFromSlice fitsFirst
  have fitsSecond : 0 + 2 + plan.destination.port.toBeBytes.length ≤
      (copyFromSlice transport 0 plan.source.port.toBeBytes).length := by simp [first]; omega
  have second : (copyFromSlice (copyFromSlice transport 0 plan.source.port.toBeBytes) (0 + 2)
      plan.destination.port.toBeBytes).length = transport.length := by rw [length_copyFromSlice fitsSecond, first]
  have fitsThird : 0 + 16 + checksum.toBeBytes.length ≤ (copyFromSlice (copyFromSlice transport 0
      plan.source.port.toBeBytes) (0 + 2) plan.destination.port.toBeBytes).length := by simp [second]; omega
  have sumFirst := wordSum_copyFromSlice fitsFirst (by simp) (by simp)
  have sumSecond := wordSum_copyFromSlice fitsSecond (by simp) (by simp)
  have sumThird := wordSum_copyFromSlice fitsThird (by simp) (by simp)
  rw [slice_copyFromSlice_outside fitsFirst (by simp)] at sumSecond
  rw [slice_copyFromSlice_outside fitsSecond (by simp), slice_copyFromSlice_outside fitsFirst (by simp)] at sumThird
  simp only [U16.length_toBeBytes, U16.wordSum_toBeBytes, Nat.zero_add] at sumFirst sumSecond sumThird
  rw [show (2 : Nat) = 0 + 2 from rfl, wordSum_slice (by omega)] at sumFirst
  rw [wordSum_slice (by omega)] at sumSecond sumThird
  unfold writeTransport
  simp only [Nat.zero_add] at *
  omega

/-- The checksum that `rewrite_tuple` writes into the segment. -/
def rewrittenChecksum (source destination : IpAddr) (transport : List UInt8) (plan : RewritePlan) : U16 :=
  let checksum := replaceChecksumWord (u16At transport 16) (u16At transport 0) plan.source.port
  let checksum := replaceChecksumWord checksum (u16At transport 2) plan.destination.port
  let checksum := replaceChecksumWords checksum source.octets plan.source.ip.octets
  replaceChecksumWords checksum destination.octets plan.destination.ip.octets

theorem IpAddr.length_octets_eq {first second : IpAddr} (family : first.isIpv4 = second.isIpv4) :
    first.octets.length = second.octets.length := by
  cases first <;> cases second <;> simp_all [octets, isIpv4]

theorem rewrittenChecksum_mod {source destination : IpAddr} {transport : List UInt8} {plan : RewritePlan}
    (sourceFamily : source.isIpv4 = plan.source.ip.isIpv4)
    (destinationFamily : destination.isIpv4 = plan.destination.ip.isIpv4) :
    (rewrittenChecksum source destination transport plan).val + wordSum plan.destination.ip.octets +
        wordSum plan.source.ip.octets + plan.destination.port.val + plan.source.port.val ≡
      be16 transport 16 + be16 transport 0 + be16 transport 2 + wordSum source.octets + wordSum destination.octets
        [MOD 65535] := by
  unfold rewrittenChecksum
  dsimp only
  generalize atSource : replaceChecksumWord (u16At transport 16) (u16At transport 0) plan.source.port = afterSource
  generalize atDestination : replaceChecksumWord afterSource (u16At transport 2) plan.destination.port = afterPorts
  generalize atAddress : replaceChecksumWords afterPorts source.octets plan.source.ip.octets = afterAddress
  have sourcePort : afterSource.val + plan.source.port.val ≡ be16 transport 16 + be16 transport 0 [MOD 65535] :=
    atSource ▸ replaceChecksumWord_mod (u16At transport 16) (u16At transport 0) plan.source.port
  have destinationPort : afterPorts.val + plan.destination.port.val ≡ afterSource.val + be16 transport 2 [MOD 65535] :=
    atDestination ▸ replaceChecksumWord_mod afterSource (u16At transport 2) plan.destination.port
  have sourceWords : afterAddress.val + wordSum plan.source.ip.octets ≡ afterPorts.val + wordSum source.octets
      [MOD 65535] :=
    atAddress ▸ replaceChecksumWords_mod afterPorts _ _ (IpAddr.length_octets_eq sourceFamily) source.length_octets_le.2
  have destinationWords := replaceChecksumWords_mod afterAddress destination.octets plan.destination.ip.octets
    (IpAddr.length_octets_eq destinationFamily) destination.length_octets_le.2
  calc _ ≡ afterAddress.val + wordSum destination.octets + wordSum plan.source.ip.octets + plan.destination.port.val +
        plan.source.port.val [MOD 65535] := ((destinationWords.add_right _).add_right _).add_right _
    _ = afterAddress.val + wordSum plan.source.ip.octets + wordSum destination.octets + plan.destination.port.val +
        plan.source.port.val := by ring
    _ ≡ afterPorts.val + wordSum source.octets + wordSum destination.octets + plan.destination.port.val +
        plan.source.port.val [MOD 65535] := ((sourceWords.add_right _).add_right _).add_right _
    _ = afterPorts.val + plan.destination.port.val + wordSum source.octets + wordSum destination.octets +
        plan.source.port.val := by ring
    _ ≡ afterSource.val + be16 transport 2 + wordSum source.octets + wordSum destination.octets +
        plan.source.port.val [MOD 65535] := ((destinationPort.add_right _).add_right _).add_right _
    _ = afterSource.val + plan.source.port.val + be16 transport 2 + wordSum source.octets +
        wordSum destination.octets := by ring
    _ ≡ _ [MOD 65535] := ((sourcePort.add_right _).add_right _).add_right _

theorem u16At_of_bytes {value : U16} (high : byte bytes i = byte value.toBeBytes 0)
    (low : byte bytes (i + 1) = byte value.toBeBytes 1) : u16At bytes i = value := by
  obtain ⟨atHigh, atLow⟩ := value.byteAt_toBeBytes
  apply Fin.ext
  change byteAt bytes i * 256 + byteAt bytes (i + 1) = value.val
  rw [byteAt_eq, byteAt_eq, high, low, ← byteAt_eq, ← byteAt_eq, atHigh, atLow]
  omega

theorem TcpSegment.rewrite {source destination : IpAddr} {plan : RewritePlan}
    (segment : TcpSegment source destination transport) (short : transport.length ≤ 65535)
    (family : source.isIpv4 = destination.isIpv4) (sourceFamily : source.isIpv4 = plan.source.ip.isIpv4)
    (destinationFamily : destination.isIpv4 = plan.destination.ip.isIpv4)
    (sourcePort : plan.source.port ≠ 0) (destinationPort : plan.destination.port ≠ 0) :
    let written := writeTransport transport 0 plan (rewrittenChecksum source destination transport plan)
    TcpSegment plan.source.ip plan.destination.ip written ∧ tcpMetadata written = { tcpMetadata transport with
        sourcePort := plan.source.port, destinationPort := plan.destination.port } := by
  intro written
  have long := segment.long
  have fits : 0 + 18 ≤ transport.length := by omega
  have length : written.length = transport.length := length_writeTransport fits
  have kept : ∀ i, 4 ≤ i ∧ i < 16 ∨ 18 ≤ i → byte written i = byte transport i :=
    fun i outside => byte_writeTransport_outside fits (by omega)
  have atSource : u16At written 0 = plan.source.port := by
    refine u16At_of_bytes ?_ ?_
    · exact (byte_writeTransport fits 0).trans rfl
    · exact (byte_writeTransport fits 1).trans rfl
  have atDestination : u16At written 2 = plan.destination.port := by
    refine u16At_of_bytes ?_ ?_
    · exact (byte_writeTransport fits 2).trans rfl
    · exact (byte_writeTransport fits 3).trans rfl
  have sameHeader : tcpHeaderLen written = tcpHeaderLen transport := by
    unfold tcpHeaderLen
    rw [byteAt_eq, byteAt_eq, kept 12 (by omega)]
  refine ⟨⟨by omega, ?_, ?_, ?_, ?_, ?_⟩, ?_⟩
  · rw [atSource]
    exact sourcePort
  · rw [atDestination]
    exact destinationPort
  · rw [sameHeader, length]
    exact segment.header
  · rw [sameHeader, slice_congr length fun i above _ => kept i (by omega)]
    exact segment.options
  · have before := (transportChecksum_eq_zero family short).mp segment.checksum
    have after : wordSum written + (be16 transport 0 + be16 transport 2 + be16 transport 16) = wordSum transport +
        (plan.source.port.val + plan.destination.port.val + (rewrittenChecksum source destination transport plan).val) :=
      wordSum_writeTransport (by omega) plan _
    have modulo := @rewrittenChecksum_mod source destination transport plan sourceFamily destinationFamily
    have first := be16_le_wordSum written
    have nonzero : be16 written 0 ≠ 0 := by
      intro zero
      have same : (u16At written 0).val = 0 := zero
      rw [atSource] at same
      exact sourcePort (Fin.ext same)
    rw [transportChecksum_eq_zero (sourceFamily.symm.trans (family.trans destinationFamily)) (by omega), length,
      ← sourceFamily]
    generalize pseudoSum source.isIpv4 ipProtocolTcp transport.length = pseudo at *
    refine ⟨?_, by omega⟩
    -- both sums differ by the replaced words, whose two sums agree modulo 65535
    have balance : wordSum plan.source.ip.octets + wordSum plan.destination.ip.octets + pseudo + wordSum written +
        (be16 transport 16 + be16 transport 0 + be16 transport 2 + wordSum source.octets + wordSum destination.octets) =
        wordSum source.octets + wordSum destination.octets + pseudo + wordSum transport +
        ((rewrittenChecksum source destination transport plan).val + wordSum plan.destination.ip.octets +
          wordSum plan.source.ip.octets + plan.destination.port.val + plan.source.port.val) := by omega
    have total : wordSum plan.source.ip.octets + wordSum plan.destination.ip.octets + pseudo + wordSum written ≡
        wordSum source.octets + wordSum destination.octets + pseudo + wordSum transport [MOD 65535] :=
      Nat.ModEq.add_right_cancel modulo.symm (balance ▸ Nat.ModEq.refl _)
    exact Eq.trans total before.1
  · unfold tcpMetadata
    rw [atSource, atDestination, sameHeader, kept 13 (by omega)]

theorem u16At_drop (bytes : List UInt8) (start i : Nat) : u16At (bytes.drop start) i = u16At bytes (start + i) := by
  apply Fin.ext
  change byteAt _ i * 256 + byteAt _ (i + 1) = byteAt _ _ * 256 + byteAt _ _
  simp only [byteAt_eq, byte_drop, Nat.add_assoc]

/-- The writes of `rewrite_tuple` to an IPv4 header. -/
def writeIpv4Header (packet : List UInt8) (source destination : Ipv4Addr) (checksum : U16) : List UInt8 :=
  copyFromSlice (copyFromSlice (copyFromSlice packet 12 source.toList) 16 destination.toList) 10 checksum.toBeBytes

def rewrittenHeaderChecksum (packet : List UInt8) (source destination : Ipv4Addr) : U16 :=
  replaceChecksumWords (replaceChecksumWords (u16At packet 10) (ipv4At packet 12).toList source.toList)
    (ipv4At packet 16).toList destination.toList

section writeIpv4Header

variable {packet : List UInt8} {source destination : Ipv4Addr} {checksum : U16}

theorem length_writeIpv4Header (long : 20 ≤ packet.length) :
    (writeIpv4Header packet source destination checksum).length = packet.length := by
  have first : (copyFromSlice packet 12 source.toList).length = packet.length := length_copyFromSlice (by simp; omega)
  have second : (copyFromSlice (copyFromSlice packet 12 source.toList) 16 destination.toList).length = packet.length := by
    rw [length_copyFromSlice (by simp [first]; omega), first]
  unfold writeIpv4Header
  rw [length_copyFromSlice (by simp [second]; omega), second]

theorem byte_writeIpv4Header (long : 20 ≤ packet.length) (i : Nat) :
    byte (writeIpv4Header packet source destination checksum) i =
      if 10 ≤ i ∧ i < 12 then byte checksum.toBeBytes (i - 10)
      else if 16 ≤ i ∧ i < 20 then byte destination.toList (i - 16)
      else if 12 ≤ i ∧ i < 16 then byte source.toList (i - 12)
      else byte packet i := by
  have first : (copyFromSlice packet 12 source.toList).length = packet.length := length_copyFromSlice (by simp; omega)
  have second : (copyFromSlice (copyFromSlice packet 12 source.toList) 16 destination.toList).length = packet.length := by
    rw [length_copyFromSlice (by simp [first]; omega), first]
  unfold writeIpv4Header
  rw [byte_copyFromSlice (by simp [second]; omega), byte_copyFromSlice (by simp [first]; omega),
    byte_copyFromSlice (by simp; omega)]
  simp only [Vector.length_toList, U16.length_toBeBytes]

theorem wordSum_writeIpv4Header (long : 20 ≤ packet.length) :
    wordSum (writeIpv4Header packet source destination (rewrittenHeaderChecksum packet source destination)) ≡
      wordSum packet [MOD 65535] := by
  generalize new : rewrittenHeaderChecksum packet source destination = checksum
  have fitsFirst : 12 + source.toList.length ≤ packet.length := by simp; omega
  have first : (copyFromSlice packet 12 source.toList).length = packet.length := length_copyFromSlice fitsFirst
  have fitsSecond : 16 + destination.toList.length ≤ (copyFromSlice packet 12 source.toList).length := by
    simp [first]; omega
  have second : (copyFromSlice (copyFromSlice packet 12 source.toList) 16 destination.toList).length = packet.length := by
    rw [length_copyFromSlice fitsSecond, first]
  have fitsThird : 10 + checksum.toBeBytes.length ≤
      (copyFromSlice (copyFromSlice packet 12 source.toList) 16 destination.toList).length := by simp [second]; omega
  have sumFirst := wordSum_copyFromSlice fitsFirst (by simp) (by simp)
  have sumSecond := wordSum_copyFromSlice fitsSecond (by simp) (by simp)
  have sumThird := wordSum_copyFromSlice fitsThird (by simp) (by simp)
  rw [slice_copyFromSlice_outside fitsFirst (by simp)] at sumSecond
  rw [slice_copyFromSlice_outside fitsSecond (by simp), slice_copyFromSlice_outside fitsFirst (by simp)] at sumThird
  simp only [U16.length_toBeBytes, U16.wordSum_toBeBytes, Vector.length_toList] at sumFirst sumSecond sumThird
  rw [← ipv4At_toList (by omega)] at sumFirst sumSecond
  rw [wordSum_slice (by omega)] at sumThird
  have sourceWords := replaceChecksumWords_mod (u16At packet 10) (ipv4At packet 12).toList source.toList (by simp) (by simp)
  have destinationWords := replaceChecksumWords_mod
    (replaceChecksumWords (u16At packet 10) (ipv4At packet 12).toList source.toList) (ipv4At packet 16).toList
    destination.toList (by simp) (by simp)
  change (rewrittenHeaderChecksum packet source destination).val + _ ≡ _ [MOD 65535] at destinationWords
  rw [new] at destinationWords
  change _ ≡ be16 packet 10 + _ [MOD 65535] at sourceWords
  generalize replaceChecksumWords (u16At packet 10) (ipv4At packet 12).toList source.toList = middle at *
  have words : checksum.val + wordSum destination.toList + wordSum source.toList ≡
      be16 packet 10 + wordSum (ipv4At packet 12).toList + wordSum (ipv4At packet 16).toList [MOD 65535] :=
    calc checksum.val + wordSum destination.toList + wordSum source.toList
        ≡ middle.val + wordSum (ipv4At packet 16).toList + wordSum source.toList [MOD 65535] :=
          destinationWords.add_right _
      _ = middle.val + wordSum source.toList + wordSum (ipv4At packet 16).toList := by ring
      _ ≡ _ [MOD 65535] := sourceWords.add_right _
  refine Nat.ModEq.add_right_cancel words.symm ?_
  unfold writeIpv4Header
  have balance : wordSum (copyFromSlice (copyFromSlice (copyFromSlice packet 12 source.toList) 16 destination.toList) 10
      checksum.toBeBytes) + (be16 packet 10 + wordSum (ipv4At packet 12).toList + wordSum (ipv4At packet 16).toList) =
      wordSum packet + (checksum.val + wordSum destination.toList + wordSum source.toList) := by omega
  rw [balance]

end writeIpv4Header

theorem rewrittenHeaderChecksum_congr {first second : List UInt8} (same : ∀ i < 20, byte first i = byte second i)
    (source destination : Ipv4Addr) :
    rewrittenHeaderChecksum first source destination = rewrittenHeaderChecksum second source destination := by
  have checksum : u16At first 10 = u16At second 10 := by
    apply Fin.ext
    change byteAt _ _ * 256 + byteAt _ _ = byteAt _ _ * 256 + byteAt _ _
    simp only [byteAt_eq, same 10 (by omega), same (10 + 1) (by omega)]
  have addresses : ∀ i, i + 4 ≤ 20 → ipv4At first i = ipv4At second i := by
    intro i inside
    exact congrArg Vector.ofFn (funext fun k => same _ (by omega))
  unfold rewrittenHeaderChecksum
  rw [checksum, addresses 12 (by omega), addresses 16 (by omega)]

theorem Ipv4Header.rewrite {packet written : List UInt8} (header : Ipv4Header packet) {source destination : Ipv4Addr}
    (length : written.length = packet.length)
    (front : ∀ i < ipv4HeaderLen packet, byte written i =
      byte (writeIpv4Header packet source destination (rewrittenHeaderChecksum packet source destination)) i)
    (sourceUnicast : ipv4Unicast source = true) (destinationUnicast : ipv4Unicast destination = true) :
    Ipv4Header written ∧ ipv4HeaderLen written = ipv4HeaderLen packet ∧ byte written 9 = byte packet 9 ∧
      ipv4At written 12 = source ∧ ipv4At written 16 = destination ∧ (ipv4Fragmented written ↔ ipv4Fragmented packet) := by
  have long := header.long
  have words := header.words
  have fits := header.fits
  have kept : ∀ i, i < 10 ∨ 20 ≤ i → i < ipv4HeaderLen packet → byte written i = byte packet i := by
    intro i outside inside
    rw [front i inside, byte_writeIpv4Header long, if_neg (by omega), if_neg (by omega), if_neg (by omega)]
  have headerLen : ipv4HeaderLen written = ipv4HeaderLen packet := by
    unfold ipv4HeaderLen
    rw [byteAt_eq, byteAt_eq, kept 0 (by omega) (by omega)]
  have field : be16 written 6 = be16 packet 6 := by
    unfold be16
    simp only [byteAt_eq, kept 6 (by omega) (by omega), kept (6 + 1) (by omega) (by omega)]
  have fragmented : ipv4Fragmented written ↔ ipv4Fragmented packet := by
    unfold ipv4Fragmented ipv4MoreFragments ipv4Offset
    rw [field]
  have sourceAt : ipv4At written 12 = source := by
    refine ipv4At_eq ?_
    intro k bound
    rw [front _ (by omega), byte_writeIpv4Header long, if_neg (by omega), if_neg (by omega), if_pos (by omega),
      Nat.add_sub_cancel_left]
  have destinationAt : ipv4At written 16 = destination := by
    refine ipv4At_eq ?_
    intro k bound
    rw [front _ (by omega), byte_writeIpv4Header long, if_neg (by omega), if_pos (by omega), Nat.add_sub_cancel_left]
  -- the header by itself is the old header with the three writes
  have headerBytes : slice written 0 (ipv4HeaderLen packet) = writeIpv4Header (slice packet 0 (ipv4HeaderLen packet)) source
      destination (rewrittenHeaderChecksum (slice packet 0 (ipv4HeaderLen packet)) source destination) := by
    have inner : 20 ≤ (slice packet 0 (ipv4HeaderLen packet)).length := by
      rw [length_slice]
      omega
    have checksum : rewrittenHeaderChecksum (slice packet 0 (ipv4HeaderLen packet)) source destination =
        rewrittenHeaderChecksum packet source destination :=
      rewrittenHeaderChecksum_congr (fun i bound => by rw [byte_slice (by omega), Nat.zero_add]) _ _
    rw [checksum]
    refine ext_byte ?_ ?_
    · rw [length_writeIpv4Header inner, length_slice, length_slice, length]
    · intro i bound
      rw [length_slice] at bound
      rw [byte_slice (by omega), Nat.zero_add, front i (by omega), byte_writeIpv4Header long, byte_writeIpv4Header inner,
        byte_slice (by omega), Nat.zero_add]
  refine ⟨⟨by omega, ?_, by omega, by omega, ?_, ?_, ?_, by rw [sourceAt]; exact sourceUnicast,
    by rw [destinationAt]; exact destinationUnicast, by rw [field]; exact header.reserved, ?_⟩, headerLen,
    kept 9 (by omega) (by omega), sourceAt, destinationAt, fragmented⟩
  · rw [byteAt_eq, kept 0 (by omega) (by omega), ← byteAt_eq]
    exact header.version
  · unfold be16
    rw [byteAt_eq, byteAt_eq, kept 2 (by omega) (by omega), kept (2 + 1) (by omega) (by omega), length]
    exact header.total
  · have total := be16_lt packet 2
    rw [header.total] at total
    have valid := header.checksum
    have bounds : ∀ bytes : List UInt8, bytes.length < 65536 → ([bytes].map wordSum).sum < 2 ^ 32 := by
      intro bytes short
      have bound := wordSum_le bytes
      simp only [map_cons, map_nil, sum_cons, sum_nil]
      omega
    have modulo := @wordSum_writeIpv4Header (slice packet 0 (ipv4HeaderLen packet)) source destination
      (by rw [length_slice]; omega)
    rw [← headerBytes] at modulo
    rw [internetChecksum_eq_zero (bounds _ (by rw [length_slice]; omega))] at valid
    rw [headerLen, internetChecksum_eq_zero (bounds _ (by rw [length_slice]; omega))]
    simp only [map_cons, map_nil, sum_cons, sum_nil, Nat.add_zero] at valid ⊢
    refine ⟨Eq.trans modulo valid.1, ?_⟩
    have first := be16_le_wordSum (slice written 0 (ipv4HeaderLen packet))
    have version : byteAt packet 0 ≠ 0 := by
      intro zero
      have version := header.version
      rw [zero] at version
      simp at version
    unfold be16 at first
    rw [byteAt_eq, byte_slice (by omega), Nat.zero_add, kept 0 (by omega) (by omega), ← byteAt_eq] at first
    omega
  · rw [headerLen, slice_congr length fun i above below => kept i (by omega) below]
    exact header.options
  · rw [field, fragmented]
    exact header.dontFragment

end Ferrum.Tun
