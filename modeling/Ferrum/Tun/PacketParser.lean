import Ferrum.Lib.Checks
import Ferrum.Tun.Packet

namespace Ferrum.Tun

open PacketReject (new ofFragment ofControl)

def unsupportedReject (context : ControlContext) (transport : List UInt8) : PacketReject :=
  let icmp := match context.family with
    | .ipv4 => context.upperProtocol == ipProtocolIcmp
    | .ipv6 => context.upperProtocol == ipProtocolIcmpv6
  let echo := match context.family with
    | .ipv4 => transport.head? == some 8
    | .ipv6 => transport.head? == some 128
  let noPayload := context.family == .ipv6 && context.upperProtocol == ipv6NoNextHeader
  ofControl (if echo then .icmpEchoUnsupported else .unsupportedProtocol)
    { context with suppressReply := icmp || noPayload }

/-- The walk over the options of an IPv4 or TCP header. Each turn moves the cursor, so that one
turn for each byte and one for the end are enough. -/
def optionsLoop (malformed : PacketRejectReason) (refused : UInt8 → Option PacketRejectReason) (options : List UInt8) :
    Nat → Nat → Except PacketRejectReason Unit
  | 0, _ => .ok ()
  | turns + 1, cursor =>
    if options.length ≤ cursor then .ok ()
    else if byte options cursor = 0 then
      if (options.drop (cursor + 1)).any (· != 0) then .error malformed else .ok ()
    else if byte options cursor = 1 then optionsLoop malformed refused options turns (cursor + 1)
    else
      match options[cursor + 1]? with
      | none => .error malformed
      | some length =>
        if length.toNat < 2 ∨ options.length < cursor + length.toNat then .error malformed
        else
          match refused (byte options cursor) with
          | some reason => .error reason
          | none => optionsLoop malformed refused options turns (cursor + length.toNat)

def validateIpv4Options (options : List UInt8) : Except PacketRejectReason Unit :=
  optionsLoop .invalidIpv4Options (fun optionType =>
    if optionType = 131 ∨ optionType = 137 then some .sourceRouteOption else none) options (options.length + 1) 0

def validateTcpOptions (options : List UInt8) : Except PacketRejectReason Unit :=
  optionsLoop .invalidTransport (fun _ => none) options (options.length + 1) 0

def ipv6OptionsLoop (options : List UInt8) : Nat → Nat → Except PacketRejectReason Unit
  | 0, _ => .ok ()
  | turns + 1, cursor =>
    if options.length ≤ cursor then .ok ()
    else if byte options cursor = 0 then ipv6OptionsLoop options turns (cursor + 1)
    else
      match options[cursor + 1]? with
      | none => .error .malformedExtension
      | some dataLen =>
        if options.length < cursor + 2 + dataLen.toNat then .error .malformedExtension
        else if byte options cursor &&& 0b11000000 ≠ 0 then .error .malformedExtension
        else ipv6OptionsLoop options turns (cursor + 2 + dataLen.toNat)

def validateIpv6Options (options : List UInt8) : Except PacketRejectReason Unit :=
  ipv6OptionsLoop options (options.length + 1) 0

/-- The protocol-specific half of `validate_transport`, before the checksum. -/
def transportMetadata (protocol : UInt8) (transportOffset : Nat) (transport : List UInt8) :
    Except PacketReject TransportMetadata :=
  if protocol = ipProtocolTcp then do
    rejectIf (transport.length < 20) (new .invalidTransport)
    let headerLen := byteAt transport 12 >>> 4 * 4
    rejectIf (headerLen < 20 ∨ transport.length < headerLen) (new .invalidTransport)
    (validateTcpOptions (slice transport 20 headerLen)).mapError new
    return .tcp ⟨u16At transport 0, u16At transport 2, headerLen, byte transport 13⟩
  else if protocol = ipProtocolUdp then do
    let udpLen := be16 transport 4
    rejectIf (udpLen < 8 ∨ udpLen ≠ transport.length) (new .invalidTransport)
    return .udp ⟨u16At transport 0, u16At transport 2, transportOffset + 8, udpLen - 8⟩
  else .error (new .unsupportedProtocol)

def validateTransport (source destination : IpAddr) (protocol : UInt8) (transportOffset : Nat) (transport : List UInt8) :
    Except PacketReject TransportMetadata := do
  rejectIf (transport.length < 8) (new .invalidTransport)
  rejectIf (u16At transport 0 = 0 ∨ u16At transport 2 = 0) (new .invalidTransport)
  let metadata ← transportMetadata protocol transportOffset transport
  -- An all-zero field means "checksum omitted" only for IPv4 UDP.
  if protocol = ipProtocolUdp ∧ be16 transport 6 = 0 then
    if source.isIpv4 then return metadata else .error (new .invalidTransportChecksum)
  else
    rejectIf (transportChecksum source destination protocol transport ≠ 0) (new .invalidTransportChecksum)
    return metadata

/-- The fragment branch of `parse_ipv4`. -/
def parseIpv4Fragment (source destination : Ipv4Addr) (protocol : UInt8) (key : FragmentKey) (fragmentsAllowed : Bool)
    (moreFragments : Bool) (offset headerLen totalLen : Nat) : ParseResult := do
  rejectIf (¬fragmentsAllowed ∨ ¬(protocol = ipProtocolTcp ∨ protocol = ipProtocolUdp)) (ofFragment .unsupportedProtocol key)
  let payloadLen := totalLen - headerLen
  rejectIf (payloadLen = 0 ∨ moreFragments ∧ payloadLen % 8 ≠ 0) (ofFragment .invalidFragment key)
  rejectIf (maxReassembledPacket - headerLen < offset + payloadLen) (ofFragment .invalidFragment key)
  return .fragment ⟨.ipv4, .v4 source, .v4 destination, protocol, key, offset, moreFragments, headerLen, payloadLen,
    .ipv4 headerLen⟩

def parseIpv4 (bytes : List UInt8) (fragmentsAllowed : Bool) : ParseResult := do
  rejectIf (bytes.length < 20 ∨ byteAt bytes 0 >>> 4 ≠ 4) (new .invalidLength)
  let ihlWords := byteAt bytes 0 &&& 0x0f
  rejectIf (¬(5 ≤ ihlWords ∧ ihlWords ≤ 15)) (new .invalidLength)
  let headerLen := ihlWords * 4
  let totalLen := be16 bytes 2
  rejectIf (bytes.length < headerLen ∨ totalLen ≠ bytes.length ∨ totalLen < headerLen) (new .invalidLength)
  rejectIf (internetChecksum [slice bytes 0 headerLen] ≠ 0) (new .invalidHeaderChecksum)
  (validateIpv4Options (slice bytes 20 headerLen)).mapError new
  let source := ipv4At bytes 12
  let destination := ipv4At bytes 16
  rejectIf (¬ipv4Unicast source) (new .invalidSource)
  rejectIf (¬ipv4Unicast destination) (new .invalidDestination)
  let protocol := byte bytes 9
  let key := FragmentKey.ipv4 ⟨source, destination, protocol, u16At bytes 4⟩
  let fragmentField := be16 bytes 6
  let reserved := fragmentField &&& 0x8000 ≠ 0
  let dontFragment := fragmentField &&& 0x4000 ≠ 0
  let moreFragments := decide (fragmentField &&& 0x2000 ≠ 0)
  let offset := (fragmentField &&& 0x1fff) * 8
  let fragmented := moreFragments ∨ offset ≠ 0
  rejectIf (reserved ∨ dontFragment ∧ fragmented) (ofFragment .invalidFragment key)
  if fragmented then
    parseIpv4Fragment source destination protocol key fragmentsAllowed moreFragments offset headerLen totalLen
  else if ¬(protocol = ipProtocolTcp ∨ protocol = ipProtocolUdp) then
    .error (unsupportedReject ⟨.ipv4, .v4 source, .v4 destination, protocol, 9, headerLen, totalLen, false⟩
      (bytes.drop headerLen))
  else
    let transport ← validateTransport (.v4 source) (.v4 destination) protocol headerLen (bytes.drop headerLen)
    return .complete ⟨.ipv4, .v4 source, .v4 destination, protocol, 9, headerLen, totalLen, transport⟩

/-- The variables of the extension loop of `parse_ipv6`. -/
structure ExtensionState where
  nextHeader : UInt8
  nextHeaderField : Nat
  cursor : Nat
  extensionBytes : Nat
  seenHopByHop : Bool
  seenRouting : Bool
  destinationHeaders : Nat
  destinationAfterRouting : Bool
  deriving DecidableEq

namespace ExtensionState

def new (nextHeader : UInt8) : ExtensionState := ⟨nextHeader, 6, 40, 0, false, false, 0, false⟩

def isExtension (state : ExtensionState) : Prop :=
  state.nextHeader = ipv6HopByHop ∨ state.nextHeader = ipv6Routing ∨ state.nextHeader = ipv6DestinationOptions

instance (state : ExtensionState) : Decidable state.isExtension :=
  inferInstanceAs (Decidable (state.nextHeader = ipv6HopByHop ∨ state.nextHeader = ipv6Routing ∨
    state.nextHeader = ipv6DestinationOptions))

/-- The order of the extension headers: what each kind records, or the rejection. -/
def record (state : ExtensionState) : Except PacketReject ExtensionState :=
  if state.nextHeader = ipv6HopByHop then do
    rejectIf (state.seenHopByHop ∨ state.cursor ≠ 40) (PacketReject.new .malformedExtension)
    return { state with seenHopByHop := true }
  else if state.nextHeader = ipv6Routing then do
    rejectIf (state.seenRouting ∨ state.destinationAfterRouting) (PacketReject.new .malformedExtension)
    return { state with seenRouting := true }
  else do
    rejectIf (2 < state.destinationHeaders + 1) (PacketReject.new .malformedExtension)
    return { state with
      destinationHeaders := state.destinationHeaders + 1
      destinationAfterRouting := state.destinationAfterRouting || state.seenRouting }

end ExtensionState

/-- The options of the kinds of extension header that have them. -/
def extensionOptions (bytes : List UInt8) (state : ExtensionState) (extensionEnd : Nat) : Except PacketReject Unit :=
  if state.nextHeader = ipv6HopByHop ∨ state.nextHeader = ipv6DestinationOptions then
    (validateIpv6Options (slice bytes (state.cursor + 2) extensionEnd)).mapError new
  else .ok ()

/-- One turn of the extension loop over a hop-by-hop, routing or destination header. -/
def extensionHeader (bytes : List UInt8) (totalLen : Nat) (state : ExtensionState) : Except PacketReject ExtensionState := do
  rejectIf (totalLen < state.cursor + 2) (new .malformedExtension)
  let recorded ← state.record
  let length := (byteAt bytes (state.cursor + 1) + 1) * 8
  let extensionEnd := state.cursor + length
  rejectIf (length < 8 ∨ totalLen < extensionEnd ∨ maxExtensionBytes < state.extensionBytes + length)
    (new .malformedExtension)
  extensionOptions bytes state extensionEnd
  rejectIf (state.nextHeader = ipv6Routing ∧ byte bytes (state.cursor + 3) ≠ 0) (new .malformedExtension)
  return { recorded with
    extensionBytes := state.extensionBytes + length
    nextHeaderField := state.cursor
    nextHeader := byte bytes state.cursor
    cursor := extensionEnd }

/-- The fragment header that ends the extension loop; `remaining` is what is left of the limit on
extension headers. -/
def fragmentHeader (bytes : List UInt8) (totalLen : Nat) (source destination : Ipv6Addr) (fragmentsAllowed : Bool)
    (remaining : Nat) (state : ExtensionState) : Except PacketReject ParsedFragment := do
  let cursor := state.cursor
  rejectIf (remaining = 0 ∨ state.destinationAfterRouting ∨ totalLen < cursor + 8) (new .extensionLimit)
  rejectIf (maxExtensionBytes < state.extensionBytes + 8) (new .extensionLimit)
  let fragmentNext := byte bytes cursor
  let key := FragmentKey.ipv6 ⟨source, destination, fragmentNext, u32At bytes (cursor + 4)⟩
  rejectIf (¬fragmentsAllowed ∨ fragmentNext = ipv6Fragment ∨ fragmentNext = ipv6Esp ∨ fragmentNext = ipv6Ah ∨
    fragmentNext = ipv6NoNextHeader) (ofFragment .unsupportedProtocol key)
  rejectIf (byte bytes (cursor + 1) ≠ 0) (ofFragment .invalidFragment key)
  let offsetFlags := be16 bytes (cursor + 2)
  rejectIf (offsetFlags &&& 0x0006 ≠ 0) (ofFragment .invalidFragment key)
  let offset := (offsetFlags &&& 0xfff8) >>> 3 * 8
  let moreFragments := decide (offsetFlags &&& 1 ≠ 0)
  let payloadOffset := cursor + 8
  let payloadLen := totalLen - payloadOffset
  rejectIf (payloadLen = 0 ∨ moreFragments ∧ payloadLen % 8 ≠ 0) (ofFragment .invalidFragment key)
  rejectIf (maxReassembledPacket < offset + payloadLen) (ofFragment .invalidFragment key)
  return ⟨.ipv6, .v6 source, .v6 destination, fragmentNext, key, offset, moreFragments, payloadOffset, payloadLen,
    .ipv6 cursor state.nextHeaderField⟩

/-- The extension loop of `parse_ipv6`: it ends at a transport header, or at a fragment. The
number of turns left is the limit minus `extension_headers`. -/
def extensionLoop (bytes : List UInt8) (totalLen : Nat) (source destination : Ipv6Addr) (fragmentsAllowed : Bool) :
    Nat → ExtensionState → Except PacketReject (ExtensionState ⊕ ParsedFragment)
  | remaining, state =>
    if state.isExtension then
      match remaining with
      | 0 => .error (new .extensionLimit)
      | remaining + 1 => do
        let next ← extensionHeader bytes totalLen state
        extensionLoop bytes totalLen source destination fragmentsAllowed remaining next
    else if state.nextHeader = ipv6Fragment then
      (fragmentHeader bytes totalLen source destination fragmentsAllowed remaining state).map .inr
    else if state.nextHeader = ipProtocolTcp ∨ state.nextHeader = ipProtocolUdp then .ok (.inl state)
    else
      .error (unsupportedReject ⟨.ipv6, .v6 source, .v6 destination, state.nextHeader, state.nextHeaderField, state.cursor,
        totalLen, false⟩ (bytes.drop state.cursor))

def parseIpv6 (bytes : List UInt8) (fragmentsAllowed : Bool) : ParseResult := do
  rejectIf (bytes.length < 40 ∨ byteAt bytes 0 >>> 4 ≠ 6) (new .invalidLength)
  let payloadLen := be16 bytes 4
  rejectIf (payloadLen = 0) (new .jumbogramUnsupported)
  let totalLen := 40 + payloadLen
  rejectIf (totalLen ≠ bytes.length ∨ maxReassembledPacket < totalLen) (new .invalidLength)
  let source := ipv6At bytes 8
  let destination := ipv6At bytes 24
  rejectIf (¬ipv6Unicast source) (new .invalidSource)
  rejectIf (¬ipv6Unicast destination) (new .invalidDestination)
  match ← extensionLoop bytes totalLen source destination fragmentsAllowed maxExtensionHeaders (.new (byte bytes 6)) with
  | .inr fragment => return .fragment fragment
  | .inl state =>
    let transport ← validateTransport (.v6 source) (.v6 destination) state.nextHeader state.cursor
      (bytes.drop state.cursor)
    return .complete ⟨.ipv6, .v6 source, .v6 destination, state.nextHeader, state.nextHeaderField, state.cursor, totalLen,
      transport⟩

structure PacketParser where
  families : Families
  deriving DecidableEq

namespace PacketParser

def parseWithFragments (parser : PacketParser) (bytes : List UInt8) (fragmentsAllowed : Bool) : ParseResult :=
  match bytes.head? with
  | none => .error (PacketReject.new .empty)
  | some first =>
    let version := first >>> 4
    if version = 4 ∧ parser.families.ipv4 then parseIpv4 bytes fragmentsAllowed
    else if version = 6 ∧ parser.families.ipv6 then parseIpv6 bytes fragmentsAllowed
    else if version = 4 ∨ version = 6 then .error (PacketReject.new .disabledFamily)
    else .error (PacketReject.new .invalidVersion)

def parse (parser : PacketParser) (bytes : List UInt8) : ParseResult := parser.parseWithFragments bytes true

def parseReassembled (parser : PacketParser) (bytes : List UInt8) : ParseResult := parser.parseWithFragments bytes false

end PacketParser

def ipv4HeaderLen (bytes : List UInt8) : Nat := (byteAt bytes 0 &&& 0x0f) * 4

def ipv4MoreFragments (bytes : List UInt8) : Bool := decide (be16 bytes 6 &&& 0x2000 ≠ 0)

def ipv4Offset (bytes : List UInt8) : Nat := (be16 bytes 6 &&& 0x1fff) * 8

def ipv4Fragmented (bytes : List UInt8) : Prop := ipv4MoreFragments bytes ∨ ipv4Offset bytes ≠ 0

instance (bytes : List UInt8) : Decidable (ipv4Fragmented bytes) :=
  inferInstanceAs (Decidable (ipv4MoreFragments bytes ∨ ipv4Offset bytes ≠ 0))

def ipv4Key (bytes : List UInt8) : FragmentKey :=
  .ipv4 ⟨ipv4At bytes 12, ipv4At bytes 16, byte bytes 9, u16At bytes 4⟩

/-- The checks of `parse_ipv4` on the header, which fragments and complete packets share. -/
structure Ipv4Header (bytes : List UInt8) : Prop where
  long : 20 ≤ bytes.length
  version : byteAt bytes 0 >>> 4 = 4
  words : 20 ≤ ipv4HeaderLen bytes ∧ ipv4HeaderLen bytes ≤ 60
  fits : ipv4HeaderLen bytes ≤ bytes.length
  total : be16 bytes 2 = bytes.length
  checksum : internetChecksum [slice bytes 0 (ipv4HeaderLen bytes)] = 0
  options : validateIpv4Options (slice bytes 20 (ipv4HeaderLen bytes)) = .ok ()
  source : ipv4Unicast (ipv4At bytes 12) = true
  destination : ipv4Unicast (ipv4At bytes 16) = true
  reserved : be16 bytes 6 &&& 0x8000 = 0
  dontFragment : be16 bytes 6 &&& 0x4000 ≠ 0 → ¬ipv4Fragmented bytes

variable {bytes : List UInt8} {allowed : Bool} {result : ParsedPacket}

theorem parseIpv4_eq_ok :
    parseIpv4 bytes allowed = .ok result ↔ Ipv4Header bytes ∧
      (ipv4Fragmented bytes ∧ parseIpv4Fragment (ipv4At bytes 12) (ipv4At bytes 16) (byte bytes 9) (ipv4Key bytes) allowed
          (ipv4MoreFragments bytes) (ipv4Offset bytes) (ipv4HeaderLen bytes) bytes.length = .ok result ∨
        ¬ipv4Fragmented bytes ∧ (byte bytes 9 = ipProtocolTcp ∨ byte bytes 9 = ipProtocolUdp) ∧
        ∃ transport, validateTransport (.v4 (ipv4At bytes 12)) (.v4 (ipv4At bytes 16)) (byte bytes 9) (ipv4HeaderLen bytes)
            (bytes.drop (ipv4HeaderLen bytes)) = .ok transport ∧
          result = .complete ⟨.ipv4, .v4 (ipv4At bytes 12), .v4 (ipv4At bytes 16), byte bytes 9, 9, ipv4HeaderLen bytes,
            bytes.length, transport⟩) := by
  unfold parseIpv4
  simp only [bind_eq_ok, rejectIf_eq_ok, mapError_eq_ok, exists_const]
  constructor
  · rintro ⟨first, words, lengths, checksum, _, options, source, destination, flags, rest⟩
    have header : Ipv4Header bytes := by
      refine ⟨by omega, by omega, ?_, ?_, by omega, not_not.mp checksum, options, by simpa using source,
        by simpa using destination, ?_, ?_⟩
      · unfold ipv4HeaderLen
        omega
      · unfold ipv4HeaderLen
        omega
      · exact not_not.mp fun reserved => flags (.inl reserved)
      · exact fun set fragmented => flags (.inr ⟨set, fragmented⟩)
    refine ⟨header, ?_⟩
    rw [header.total] at rest
    split at rest
    · rename_i fragmented
      exact .inl ⟨fragmented, rest⟩
    · rename_i whole
      split at rest
      · simp at rest
      · rename_i protocol
        obtain ⟨transport, valid, same⟩ := bind_eq_ok.mp rest
        exact .inr ⟨whole, not_not.mp protocol, transport, valid, (Except.ok.inj same).symm⟩
  · rintro ⟨header, rest⟩
    have words := header.words
    have fits := header.fits
    unfold ipv4HeaderLen at words fits
    refine ⟨?_, ?_, ?_, ?_, (), header.options, ?_, ?_, ?_, ?_⟩
    · have long := header.long
      have version := header.version
      omega
    · omega
    · have total := header.total
      omega
    · exact not_not.mpr header.checksum
    · simpa using header.source
    · simpa using header.destination
    · rintro (reserved | ⟨set, fragmented⟩)
      · exact reserved header.reserved
      · exact header.dontFragment set fragmented
    · rw [header.total]
      rcases rest with ⟨fragmented, rest⟩ | ⟨whole, protocol, transport, valid, same⟩
      · exact (if_pos fragmented).trans rest
      · refine (if_neg whole).trans ((if_neg (not_not.mpr protocol)).trans ?_)
        exact bind_eq_ok.mpr ⟨transport, valid, congrArg Except.ok same.symm⟩

/-- The checks of `parse_ipv6` on the fixed header. -/
structure Ipv6Header (bytes : List UInt8) : Prop where
  long : 40 ≤ bytes.length
  version : byteAt bytes 0 >>> 4 = 6
  payload : be16 bytes 4 ≠ 0
  total : 40 + be16 bytes 4 = bytes.length
  bound : bytes.length ≤ maxReassembledPacket
  source : ipv6Unicast (ipv6At bytes 8) = true
  destination : ipv6Unicast (ipv6At bytes 24) = true

/-- The extension loop of `parse_ipv6` over a packet, from the fixed header. -/
def ipv6Extensions (bytes : List UInt8) (allowed : Bool) : Except PacketReject (ExtensionState ⊕ ParsedFragment) :=
  extensionLoop bytes bytes.length (ipv6At bytes 8) (ipv6At bytes 24) allowed maxExtensionHeaders (.new (byte bytes 6))

theorem parseIpv6_eq_ok :
    parseIpv6 bytes allowed = .ok result ↔ Ipv6Header bytes ∧
      ((∃ fragment, ipv6Extensions bytes allowed = .ok (.inr fragment) ∧ result = .fragment fragment) ∨
        ∃ state transport, ipv6Extensions bytes allowed = .ok (.inl state) ∧
          validateTransport (.v6 (ipv6At bytes 8)) (.v6 (ipv6At bytes 24)) state.nextHeader state.cursor
            (bytes.drop state.cursor) = .ok transport ∧
          result = .complete ⟨.ipv6, .v6 (ipv6At bytes 8), .v6 (ipv6At bytes 24), state.nextHeader, state.nextHeaderField,
            state.cursor, bytes.length, transport⟩) := by
  unfold parseIpv6 ipv6Extensions
  simp only [bind_eq_ok, rejectIf_eq_ok, exists_const]
  constructor
  · rintro ⟨first, payload, lengths, source, destination, found, loop, rest⟩
    have header : Ipv6Header bytes :=
      ⟨by omega, by omega, payload, by omega, by omega, by simpa using source, by simpa using destination⟩
    refine ⟨header, ?_⟩
    rw [header.total] at loop rest
    cases found with
    | inr fragment => exact .inl ⟨fragment, loop, (Except.ok.inj rest).symm⟩
    | inl state =>
      obtain ⟨transport, valid, same⟩ := bind_eq_ok.mp rest
      exact .inr ⟨state, transport, loop, valid, (Except.ok.inj same).symm⟩
  · rintro ⟨header, rest⟩
    have long := header.long
    have version := header.version
    have total := header.total
    have bound := header.bound
    refine ⟨by omega, header.payload, by omega, by simpa using header.source, by simpa using header.destination, ?_⟩
    rw [header.total]
    rcases rest with ⟨fragment, loop, same⟩ | ⟨state, transport, loop, valid, same⟩
    · exact ⟨.inr fragment, loop, congrArg Except.ok same.symm⟩
    · exact ⟨.inl state, loop, bind_eq_ok.mpr ⟨transport, valid, congrArg Except.ok same.symm⟩⟩

def tcpHeaderLen (transport : List UInt8) : Nat := byteAt transport 12 >>> 4 * 4

/-- The checks of `validate_transport` on a TCP segment. -/
structure TcpSegment (source destination : IpAddr) (transport : List UInt8) : Prop where
  long : 20 ≤ transport.length
  sourcePort : u16At transport 0 ≠ 0
  destinationPort : u16At transport 2 ≠ 0
  header : 20 ≤ tcpHeaderLen transport ∧ tcpHeaderLen transport ≤ transport.length
  options : validateTcpOptions (slice transport 20 (tcpHeaderLen transport)) = .ok ()
  checksum : transportChecksum source destination ipProtocolTcp transport = 0

def tcpMetadata (transport : List UInt8) : TcpMetadata :=
  ⟨u16At transport 0, u16At transport 2, tcpHeaderLen transport, byte transport 13⟩

theorem validateTransport_tcp {source destination : IpAddr} {offset : Nat} {transport : List UInt8}
    {metadata : TransportMetadata} :
    validateTransport source destination ipProtocolTcp offset transport = .ok metadata ↔
      TcpSegment source destination transport ∧ metadata = .tcp (tcpMetadata transport) := by
  unfold validateTransport transportMetadata
  rw [if_pos rfl]
  simp only [bind_eq_ok, rejectIf_eq_ok, mapError_eq_ok, exists_const]
  constructor
  · rintro ⟨_, ports, parsed, ⟨long, header, _, options, same⟩, rest⟩
    obtain ⟨sourcePort, destinationPort⟩ := not_or.mp ports
    rw [if_neg (fun both => absurd both.1 (by decide))] at rest
    simp only [bind_eq_ok, rejectIf_eq_ok, exists_const] at rest
    cases Except.ok.inj same
    cases Except.ok.inj rest.2
    refine ⟨⟨by omega, sourcePort, destinationPort, ?_, options, not_not.mp rest.1⟩, rfl⟩
    unfold tcpHeaderLen
    omega
  · rintro ⟨segment, rfl⟩
    have long := segment.long
    have header := segment.header
    unfold tcpHeaderLen at header
    refine ⟨by omega, not_or.mpr ⟨segment.sourcePort, segment.destinationPort⟩, .tcp (tcpMetadata transport),
      ⟨by omega, by omega, (), segment.options, rfl⟩, ?_⟩
    rw [if_neg (fun both => absurd both.1 (by decide))]
    simp only [bind_eq_ok, rejectIf_eq_ok, exists_const]
    exact ⟨not_not.mpr segment.checksum, rfl⟩

theorem head?_eq_byte (nonempty : bytes.length ≠ 0) : bytes.head? = some (byte bytes 0) := by
  cases bytes with
  | nil => simp at nonempty
  | cons first rest => rfl

theorem shiftRight_eq_iff (first value : UInt8) : first >>> 4 = value ↔ first.toNat >>> 4 = value.toNat := by
  rw [← UInt8.toNat_inj, UInt8.toNat_shiftRight]
  rfl

theorem PacketParser.parseWithFragments_eq_ok {parser : PacketParser} :
    parser.parseWithFragments bytes allowed = .ok result ↔
      parser.families.ipv4 = true ∧ parseIpv4 bytes allowed = .ok result ∨
        parser.families.ipv6 = true ∧ parseIpv6 bytes allowed = .ok result := by
  unfold parseWithFragments
  constructor
  · intro parsed
    split at parsed
    · simp at parsed
    · dsimp only at parsed
      split at parsed
      · rename_i enabled
        exact .inl ⟨enabled.2, parsed⟩
      · split at parsed
        · rename_i enabled
          exact .inr ⟨enabled.2, parsed⟩
        · split at parsed <;> simp at parsed
  · rintro (⟨enabled, parsed⟩ | ⟨enabled, parsed⟩)
    · obtain ⟨header, _⟩ := parseIpv4_eq_ok.mp parsed
      have long := header.long
      rw [head?_eq_byte (by omega)]
      dsimp only
      rw [if_pos ⟨(shiftRight_eq_iff _ 4).mpr header.version, enabled⟩]
      exact parsed
    · obtain ⟨header, _⟩ := parseIpv6_eq_ok.mp parsed
      have long := header.long
      have version : byte bytes 0 >>> 4 = 6 := (shiftRight_eq_iff _ 6).mpr header.version
      rw [head?_eq_byte (by omega)]
      dsimp only
      rw [if_neg (fun both => absurd (version.symm.trans both.1) (by decide)), if_pos ⟨version, enabled⟩]
      exact parsed

def extensionLen (bytes : List UInt8) (cursor : Nat) : Nat := (byteAt bytes (cursor + 1) + 1) * 8

/-- The checks of one turn of the extension loop, apart from the order of the headers. -/
structure ExtensionValid (bytes : List UInt8) (totalLen : Nat) (state : ExtensionState) : Prop where
  inside : state.cursor + extensionLen bytes state.cursor ≤ totalLen
  bound : state.extensionBytes + extensionLen bytes state.cursor ≤ maxExtensionBytes
  options : state.nextHeader = ipv6HopByHop ∨ state.nextHeader = ipv6DestinationOptions →
    validateIpv6Options (slice bytes (state.cursor + 2) (state.cursor + extensionLen bytes state.cursor)) = .ok ()
  segments : state.nextHeader = ipv6Routing → byte bytes (state.cursor + 3) = 0

/-- The state after an extension header whose kind has been recorded. -/
def ExtensionState.advance (state recorded : ExtensionState) (bytes : List UInt8) : ExtensionState :=
  { recorded with
    extensionBytes := state.extensionBytes + extensionLen bytes state.cursor
    nextHeaderField := state.cursor
    nextHeader := byte bytes state.cursor
    cursor := state.cursor + extensionLen bytes state.cursor }

variable {totalLen : Nat} {state next : ExtensionState}

theorem extensionHeader_eq_ok :
    extensionHeader bytes totalLen state = .ok next ↔
      ExtensionValid bytes totalLen state ∧ ∃ recorded, state.record = .ok recorded ∧ next = state.advance recorded bytes := by
  have positive : 8 ≤ extensionLen bytes state.cursor := by
    unfold extensionLen
    omega
  unfold extensionHeader
  simp only [bind_eq_ok, rejectIf_eq_ok, exists_const]
  constructor
  · rintro ⟨_, recorded, record, lengths, _, options, segments, same⟩
    change ¬(extensionLen bytes state.cursor < 8 ∨ totalLen < state.cursor + extensionLen bytes state.cursor ∨
      maxExtensionBytes < state.extensionBytes + extensionLen bytes state.cursor) at lengths
    refine ⟨⟨by omega, by omega, ?_, ?_⟩, recorded, record, (Except.ok.inj same).symm⟩
    · intro kind
      rw [extensionOptions, if_pos kind] at options
      exact mapError_eq_ok.mp options
    · intro kind
      exact not_not.mp fun nonzero => segments ⟨kind, nonzero⟩
  · rintro ⟨valid, recorded, record, same⟩
    have inside := valid.inside
    have bound := valid.bound
    refine ⟨by omega, recorded, record, ?_, (), ?_, ?_, congrArg Except.ok same.symm⟩
    · change ¬(extensionLen bytes state.cursor < 8 ∨ totalLen < state.cursor + extensionLen bytes state.cursor ∨
        maxExtensionBytes < state.extensionBytes + extensionLen bytes state.cursor)
      omega
    · unfold extensionOptions
      split
      · rename_i kind
        exact mapError_eq_ok.mpr (valid.options kind)
      · rfl
    · exact fun both => both.2 (valid.segments both.1)

theorem extensionHeader_congr {first second : List UInt8} (length : first.length = second.length)
    (same : ∀ i, state.cursor ≤ i → i < next.cursor → byte first i = byte second i)
    (turn : extensionHeader first totalLen state = .ok next) : extensionHeader second totalLen state = .ok next := by
  obtain ⟨valid, recorded, record, rfl⟩ := extensionHeader_eq_ok.mp turn
  have inner : ∀ i, state.cursor ≤ i → i < state.cursor + extensionLen first state.cursor → byte first i = byte second i := same
  have positive : 8 ≤ extensionLen first state.cursor := by
    unfold extensionLen
    omega
  have sameLen : extensionLen second state.cursor = extensionLen first state.cursor := by
    unfold extensionLen
    rw [byteAt_eq, byteAt_eq, inner (state.cursor + 1) (by omega) (by omega)]
  have options : slice first (state.cursor + 2) (state.cursor + extensionLen first state.cursor) =
      slice second (state.cursor + 2) (state.cursor + extensionLen first state.cursor) :=
    slice_congr length fun i above below => inner i (by omega) below
  refine extensionHeader_eq_ok.mpr ⟨⟨?_, ?_, ?_, ?_⟩, recorded, record, ?_⟩
  · rw [sameLen]
    exact valid.inside
  · rw [sameLen]
    exact valid.bound
  · rw [sameLen, ← options]
    exact valid.options
  · rw [← inner (state.cursor + 3) (by omega) (by omega)]
    exact valid.segments
  · unfold ExtensionState.advance
    rw [sameLen, inner state.cursor le_rfl (by omega)]

theorem extensionHeader_cursor (turn : extensionHeader bytes totalLen state = .ok next) :
    state.cursor + 8 ≤ next.cursor ∧ next.cursor ≤ totalLen := by
  obtain ⟨valid, recorded, record, rfl⟩ := extensionHeader_eq_ok.mp turn
  have inside := valid.inside
  have positive : 8 ≤ extensionLen bytes state.cursor := by
    unfold extensionLen
    omega
  change state.cursor + 8 ≤ state.cursor + extensionLen bytes state.cursor ∧ state.cursor + _ ≤ totalLen
  omega

variable {source destination : Ipv6Addr} {remaining : Nat} {final : ExtensionState}

theorem extensionLoop_eq_transport :
    extensionLoop bytes totalLen source destination allowed remaining state = .ok (.inl final) ↔
      (state.isExtension ∧ ∃ fewer next, remaining = fewer + 1 ∧ extensionHeader bytes totalLen state = .ok next ∧
        extensionLoop bytes totalLen source destination allowed fewer next = .ok (.inl final)) ∨
      ¬state.isExtension ∧ (state.nextHeader = ipProtocolTcp ∨ state.nextHeader = ipProtocolUdp) ∧ final = state := by
  rw [extensionLoop.eq_def]
  dsimp only
  split
  · rename_i extension
    cases remaining with
    | zero => simp [extension]
    | succ fewer => simp [extension, bind_eq_ok]
  · rename_i plain
    split
    · rename_i fragment
      have other : ¬(state.nextHeader = ipProtocolTcp ∨ state.nextHeader = ipProtocolUdp) := by
        rw [fragment]
        decide
      cases fragmentHeader bytes totalLen source destination allowed remaining state with
      | error reject | ok found => simp [Except.map, plain, other]
    · split
      · rename_i transport
        constructor
        · intro same
          cases same
          exact .inr ⟨plain, transport, rfl⟩
        · rintro (⟨extension, _⟩ | ⟨_, _, rfl⟩)
          · exact absurd extension plain
          · rfl
      · rename_i other
        simp [plain, other]

theorem extensionLoop_cursor
    (loop : extensionLoop bytes totalLen source destination allowed remaining state = .ok (.inl final)) :
    state.cursor ≤ final.cursor ∧ (state.cursor ≤ totalLen → final.cursor ≤ totalLen) := by
  induction remaining generalizing state with
  | zero =>
    rcases extensionLoop_eq_transport.mp loop with ⟨_, _, _, impossible, _⟩ | ⟨_, _, rfl⟩
    · omega
    · exact ⟨le_rfl, id⟩
  | succ remaining ih =>
    rcases extensionLoop_eq_transport.mp loop with ⟨_, fewer, next, same, turn, rest⟩ | ⟨_, _, rfl⟩
    · cases same
      have bounds := extensionHeader_cursor turn
      have after := ih rest
      omega
    · exact ⟨le_rfl, id⟩

theorem extensionLoop_congr {first second : List UInt8} {other another : Ipv6Addr} (length : first.length = second.length)
    (same : ∀ i, state.cursor ≤ i → i < final.cursor → byte first i = byte second i)
    (loop : extensionLoop first totalLen source destination allowed remaining state = .ok (.inl final)) :
    extensionLoop second totalLen other another allowed remaining state = .ok (.inl final) := by
  induction remaining generalizing state with
  | zero =>
    rcases extensionLoop_eq_transport.mp loop with ⟨_, _, _, impossible, _⟩ | plain
    · omega
    · exact extensionLoop_eq_transport.mpr (.inr plain)
  | succ remaining ih =>
    rcases extensionLoop_eq_transport.mp loop with ⟨extension, fewer, next, equal, turn, rest⟩ | plain
    · cases equal
      have bounds := extensionHeader_cursor turn
      have after := (extensionLoop_cursor rest).1
      refine extensionLoop_eq_transport.mpr (.inl ⟨extension, remaining, next, rfl, ?_, ?_⟩)
      · exact extensionHeader_congr length (fun i above below => same i above (by omega)) turn
      · exact ih (fun i above below => same i (by omega) below) rest
    · exact extensionLoop_eq_transport.mpr (.inr plain)

end Ferrum.Tun
