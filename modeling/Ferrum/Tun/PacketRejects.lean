import Ferrum.Tun.PacketAccess

namespace Ferrum.Tun

/-- The chain of the headers of an IPv6 packet: where the next header is named, and where it starts. -/
inductive HeaderChain (bytes : List UInt8) : Nat → Nat → Prop
  | fixed : HeaderChain bytes 6 40
  | extension {field cursor : Nat} (chain : HeaderChain bytes field cursor)
      (kind : byte bytes field = ipv6HopByHop ∨ byte bytes field = ipv6Routing ∨ byte bytes field = ipv6DestinationOptions) :
      HeaderChain bytes cursor (cursor + extensionLen bytes cursor)

variable {cursor : Nat}

variable {bytes : List UInt8}

theorem HeaderChain.field_lt {field : Nat} (chain : HeaderChain bytes field cursor) : field < cursor := by
  cases chain with
  | fixed => decide
  | extension chain =>
    unfold extensionLen
    omega

/-- The metadata of a segment or datagram that starts at an offset. -/
def TransportMetadata.Describes (metadata : TransportMetadata) (protocol : UInt8) (offset : Nat) (bytes : List UInt8) : Prop :=
  match metadata with
  | tcp header => protocol = ipProtocolTcp ∧ header.sourcePort = u16At bytes offset ∧
      header.destinationPort = u16At bytes (offset + 2) ∧ header.headerLen = byteAt bytes (offset + 12) >>> 4 * 4 ∧
      header.flags = byte bytes (offset + 13) ∧ 20 ≤ header.headerLen ∧ offset + header.headerLen ≤ bytes.length
  | udp header => protocol = ipProtocolUdp ∧ header.sourcePort = u16At bytes offset ∧
      header.destinationPort = u16At bytes (offset + 2) ∧ header.payloadOffset = offset + 8 ∧
      header.payloadLen + 8 = be16 bytes (offset + 4) ∧ header.payloadOffset + header.payloadLen = bytes.length

/-- The checksum field of a UDP datagram over IPv4 may be zero, which omits it. -/
def ChecksumOmitted (source : IpAddr) (protocol : UInt8) (transport : List UInt8) : Prop :=
  source.isIpv4 = true ∧ protocol = ipProtocolUdp ∧ be16 transport 6 = 0

/-- What the metadata of a family says of the header in the bytes. -/
def ParsedIpPacket.HeaderOf (packet : ParsedIpPacket) (bytes : List UInt8) : Prop :=
  match packet.family with
  | .ipv4 => byteAt bytes 0 >>> 4 = 4 ∧ be16 bytes 2 = bytes.length ∧ packet.source = .v4 (ipv4At bytes 12) ∧
      packet.destination = .v4 (ipv4At bytes 16) ∧ packet.upperProtocolField = 9 ∧
      packet.transportOffset = ipv4HeaderLen bytes ∧ internetChecksum [slice bytes 0 (ipv4HeaderLen bytes)] = 0
  | .ipv6 => byteAt bytes 0 >>> 4 = 6 ∧ 40 + be16 bytes 4 = bytes.length ∧ packet.source = .v6 (ipv6At bytes 8) ∧
      packet.destination = .v6 (ipv6At bytes 24) ∧ HeaderChain bytes packet.upperProtocolField packet.transportOffset

/-- The metadata of a complete packet are those in its bytes. -/
structure ParsedIpPacket.Describes (packet : ParsedIpPacket) (bytes : List UInt8) : Prop where
  total : packet.totalLen = bytes.length
  header : packet.HeaderOf bytes
  protocol : packet.upperProtocol = byte bytes packet.upperProtocolField
  transport : packet.transport.Describes packet.upperProtocol packet.transportOffset bytes
  checksum : ChecksumOmitted packet.source packet.upperProtocol (bytes.drop packet.transportOffset) ∨
    transportChecksum packet.source packet.destination packet.upperProtocol (bytes.drop packet.transportOffset) = 0
  unicast : packet.source.unicast = true ∧ packet.destination.unicast = true
  agrees : packet.metadataMatches bytes.length = true

/-- What the table relies on in a fragment. -/
structure ParsedFragment.Describes (fragment : ParsedFragment) (bytes : List UInt8) : Prop where
  identity : fragment.identityMatchesKey = true
  payload : fragment.payloadOffset + fragment.payloadLen = bytes.length
  bound : fragment.offset + fragment.payloadLen ≤ 65535

variable {offset : Nat}

variable {transport options : List UInt8} {metadata : TransportMetadata} {protocol : UInt8} {packet : ParsedIpPacket}
  {turns : Nat}

theorem validateTransport_udp {source destination : IpAddr}
    (valid : validateTransport source destination ipProtocolUdp offset transport = .ok metadata) :
    8 ≤ transport.length ∧ be16 transport 4 = transport.length ∧
      metadata = .udp ⟨u16At transport 0, u16At transport 2, offset + 8, be16 transport 4 - 8⟩ ∧
      (ChecksumOmitted source ipProtocolUdp transport ∨
        transportChecksum source destination ipProtocolUdp transport = 0) := by
  unfold validateTransport transportMetadata at valid
  rw [if_neg (by decide), if_pos rfl] at valid
  simp only [bind_eq_ok, rejectIf_eq_ok, exists_const] at valid
  obtain ⟨long, ports, found, ⟨length, same⟩, rest⟩ := valid
  cases Except.ok.inj same
  have whole : be16 transport 4 = transport.length := by omega
  refine ⟨by omega, whole, ?_⟩
  split at rest
  · rename_i zero
    split at rest
    · rename_i ipv4
      exact ⟨(Except.ok.inj rest).symm, .inl ⟨ipv4, rfl, zero.2⟩⟩
    · cases rest
  · simp only [bind_eq_ok, rejectIf_eq_ok, exists_const] at rest
    exact ⟨(Except.ok.inj rest.2).symm, .inr (not_not.mp rest.1)⟩

theorem validateTransport_describes {source destination : IpAddr} (known : protocol = ipProtocolTcp ∨ protocol = ipProtocolUdp)
    (inside : offset ≤ bytes.length)
    (valid : validateTransport source destination protocol offset (bytes.drop offset) = .ok metadata) :
    metadata.Describes protocol offset bytes ∧ (ChecksumOmitted source protocol (bytes.drop offset) ∨
      transportChecksum source destination protocol (bytes.drop offset) = 0) := by
  rcases known with rfl | rfl
  · obtain ⟨segment, rfl⟩ := validateTransport_tcp.mp valid
    have header := segment.header
    rw [List.length_drop] at header
    refine ⟨⟨rfl, u16At_drop bytes offset 0, u16At_drop bytes offset 2, ?_, byte_drop bytes offset 13, header.1, ?_⟩,
      .inr segment.checksum⟩
    · change byteAt (bytes.drop offset) 12 >>> 4 * 4 = _
      rw [byteAt_eq, byte_drop, ← byteAt_eq]
    · change offset + tcpHeaderLen (bytes.drop offset) ≤ bytes.length
      omega
  · obtain ⟨long, whole, rfl, checksum⟩ := validateTransport_udp valid
    rw [be16_drop, List.length_drop] at whole
    rw [List.length_drop] at long
    refine ⟨⟨rfl, u16At_drop bytes offset 0, u16At_drop bytes offset 2, rfl, ?_, ?_⟩, checksum⟩
    · change be16 (bytes.drop offset) 4 - 8 + 8 = _
      rw [be16_drop]
      omega
    · change offset + 8 + (be16 (bytes.drop offset) 4 - 8) = bytes.length
      rw [be16_drop]
      omega

theorem HeaderOf.families (header : packet.HeaderOf bytes) :
    (packet.family = .ipv4 ∧ ∃ source destination, packet.source = .v4 source ∧ packet.destination = .v4 destination) ∨
      packet.family = .ipv6 ∧ ∃ source destination, packet.source = .v6 source ∧ packet.destination = .v6 destination := by
  unfold ParsedIpPacket.HeaderOf at header
  cases family : packet.family with
  | ipv4 =>
    rw [family] at header
    exact .inl ⟨rfl, _, _, header.2.2.1, header.2.2.2.1⟩
  | ipv6 =>
    rw [family] at header
    exact .inr ⟨rfl, _, _, header.2.2.1, header.2.2.2.1⟩

theorem metadataMatches_of (total : packet.totalLen = bytes.length)
    (header : packet.HeaderOf bytes) (field : packet.upperProtocolField < packet.transportOffset)
    (transport : packet.transport.Describes packet.upperProtocol packet.transportOffset bytes) :
    packet.metadataMatches bytes.length = true := by
  have families := HeaderOf.families header
  clear header
  obtain ⟨family, source, destination, upperProtocol, upperProtocolField, transportOffset, totalLen, metadata⟩ := packet
  dsimp only at total field transport families
  unfold ParsedIpPacket.metadataMatches
  cases metadata with
  | tcp metadata =>
    obtain ⟨protocol, -, -, -, -, -, inside⟩ := transport
    rcases families with ⟨rfl, _, _, rfl, rfl⟩ | ⟨rfl, _, _, rfl, rfl⟩ <;> simp [protocol, field, total, inside]
  | udp metadata =>
    obtain ⟨protocol, -, -, offset, -, inside⟩ := transport
    rcases families with ⟨rfl, _, _, rfl, rfl⟩ | ⟨rfl, _, _, rfl, rfl⟩ <;> simp [protocol, field, total, ← offset, inside]

variable {source destination : Ipv6Addr} {totalLen remaining : Nat} {allowed : Bool} {state : ExtensionState}

theorem extensionLoop_chain {final : ExtensionState} (chain : HeaderChain bytes state.nextHeaderField state.cursor)
    (named : state.nextHeader = byte bytes state.nextHeaderField)
    (loop : extensionLoop bytes totalLen source destination allowed remaining state = .ok (.inl final)) :
    HeaderChain bytes final.nextHeaderField final.cursor ∧ final.nextHeader = byte bytes final.nextHeaderField ∧
      (final.nextHeader = ipProtocolTcp ∨ final.nextHeader = ipProtocolUdp) := by
  induction remaining generalizing state with
  | zero =>
    rcases extensionLoop_eq_transport.mp loop with ⟨_, _, _, impossible, _⟩ | ⟨_, transport, rfl⟩
    · omega
    · exact ⟨chain, named, transport⟩
  | succ remaining ih =>
    rcases extensionLoop_eq_transport.mp loop with ⟨extension, fewer, next, same, turn, rest⟩ | ⟨_, transport, rfl⟩
    · cases same
      obtain ⟨-, recorded, -, rfl⟩ := extensionHeader_eq_ok.mp turn
      unfold ExtensionState.isExtension at extension
      rw [named] at extension
      exact ih (.extension chain extension) rfl rest
    · exact ⟨chain, named, transport⟩

variable {fragment : ParsedFragment}

theorem fragmentHeader_describes
    (parsed : fragmentHeader bytes bytes.length source destination allowed remaining state = .ok fragment) :
    fragment.Describes bytes := by
  unfold fragmentHeader at parsed
  simp only [bind_eq_ok, rejectIf_eq_ok, exists_const] at parsed
  obtain ⟨inside, -, -, -, -, -, bound, same⟩ := parsed
  cases Except.ok.inj same
  unfold maxReassembledPacket at bound
  refine ⟨by simp [ParsedFragment.identityMatchesKey], ?_, not_lt.mp bound⟩
  change state.cursor + 8 + (bytes.length - (state.cursor + 8)) = bytes.length
  omega

theorem extensionLoop_eq_fragment
    (loop : extensionLoop bytes totalLen source destination allowed remaining state = .ok (.inr fragment)) :
    (∃ fewer next, remaining = fewer + 1 ∧ extensionHeader bytes totalLen state = .ok next ∧
        extensionLoop bytes totalLen source destination allowed fewer next = .ok (.inr fragment)) ∨
      fragmentHeader bytes totalLen source destination allowed remaining state = .ok fragment := by
  rw [extensionLoop.eq_def] at loop
  dsimp only at loop
  split at loop
  · cases remaining with
    | zero => cases loop
    | succ fewer =>
      obtain ⟨next, turn, rest⟩ := bind_eq_ok.mp loop
      exact .inl ⟨fewer, next, rfl, turn, rest⟩
  · split at loop
    · refine .inr ?_
      cases parsed : fragmentHeader bytes totalLen source destination allowed remaining state with
      | error reject =>
        rw [parsed] at loop
        cases loop
      | ok found =>
        rw [parsed] at loop
        cases loop
        rfl
    · split at loop <;> cases loop

theorem extensionLoop_fragmentHeader {invariant : ExtensionState → Prop}
    (kept : ∀ state next, invariant state → extensionHeader bytes totalLen state = .ok next → invariant next)
    (start : invariant state)
    (loop : extensionLoop bytes totalLen source destination allowed remaining state = .ok (.inr fragment)) :
    ∃ fewer final, invariant final ∧ fragmentHeader bytes totalLen source destination allowed fewer final = .ok fragment := by
  induction remaining generalizing state with
  | zero =>
    rcases extensionLoop_eq_fragment loop with ⟨_, _, impossible, _⟩ | parsed
    · omega
    · exact ⟨0, state, start, parsed⟩
  | succ remaining ih =>
    rcases extensionLoop_eq_fragment loop with ⟨fewer, next, same, turn, rest⟩ | parsed
    · cases same
      exact ih (kept state next start turn) rest
    · exact ⟨remaining + 1, state, start, parsed⟩

variable {result : ParsedPacket}

theorem parseIpv4Fragment_describes {allowed : Bool} {result : ParsedPacket} (header : Ipv4Header bytes)
    (parsed : parseIpv4Fragment (ipv4At bytes 12) (ipv4At bytes 16) (byte bytes 9) (ipv4Key bytes) allowed
      (ipv4MoreFragments bytes) (ipv4Offset bytes) (ipv4HeaderLen bytes) bytes.length = .ok result) :
    ∃ fragment, result = .fragment fragment ∧ fragment.Describes bytes := by
  unfold parseIpv4Fragment at parsed
  simp only [bind_eq_ok, rejectIf_eq_ok, exists_const] at parsed
  obtain ⟨-, -, bound, same⟩ := parsed
  unfold maxReassembledPacket at bound
  refine ⟨_, (Except.ok.inj same).symm, by simp [ParsedFragment.identityMatchesKey, ipv4Key], ?_, ?_⟩
  · exact Nat.add_sub_cancel' header.fits
  · change ipv4Offset bytes + (bytes.length - ipv4HeaderLen bytes) ≤ 65535
    omega

theorem parseIpv4_describes (parsed : parseIpv4 bytes allowed = .ok result) :
    (∃ packet, result = .complete packet ∧ packet.Describes bytes) ∨
      ∃ fragment, result = .fragment fragment ∧ fragment.Describes bytes := by
  obtain ⟨header, ⟨-, fragment⟩ | ⟨-, known, transport, valid, rfl⟩⟩ := parseIpv4_eq_ok.mp parsed
  · exact .inr (parseIpv4Fragment_describes header fragment)
  · obtain ⟨describes, checksum⟩ := validateTransport_describes known header.fits valid
    refine .inl ⟨_, rfl, ?_⟩
    have family : ParsedIpPacket.HeaderOf ⟨.ipv4, .v4 (ipv4At bytes 12), .v4 (ipv4At bytes 16), byte bytes 9, 9,
        ipv4HeaderLen bytes, bytes.length, transport⟩ bytes :=
      ⟨header.version, header.total, rfl, rfl, rfl, rfl, header.checksum⟩
    have words := header.words
    exact ⟨rfl, family, rfl, describes, checksum, ⟨header.source, header.destination⟩,
      metadataMatches_of rfl family (show 9 < ipv4HeaderLen bytes by omega) describes⟩

theorem parseIpv6_describes (parsed : parseIpv6 bytes allowed = .ok result) :
    (∃ packet, result = .complete packet ∧ packet.Describes bytes) ∨
      ∃ fragment, result = .fragment fragment ∧ fragment.Describes bytes := by
  obtain ⟨header, ⟨fragment, loop, rfl⟩ | ⟨state, transport, loop, valid, rfl⟩⟩ := parseIpv6_eq_ok.mp parsed
  · obtain ⟨_, _, _, found⟩ := extensionLoop_fragmentHeader (fun _ _ _ _ => trivial) trivial loop
    exact .inr ⟨fragment, rfl, fragmentHeader_describes found⟩
  · obtain ⟨chain, named, known⟩ := extensionLoop_chain HeaderChain.fixed rfl loop
    have inside : state.cursor ≤ bytes.length := (extensionLoop_cursor loop).2 header.long
    obtain ⟨describes, checksum⟩ := validateTransport_describes known inside valid
    refine .inl ⟨_, rfl, ?_⟩
    have family : ParsedIpPacket.HeaderOf ⟨.ipv6, .v6 (ipv6At bytes 8), .v6 (ipv6At bytes 24), state.nextHeader,
        state.nextHeaderField, state.cursor, bytes.length, transport⟩ bytes :=
      ⟨header.version, header.total, rfl, rfl, chain⟩
    exact ⟨rfl, family, named, describes, checksum, ⟨header.source, header.destination⟩,
      metadataMatches_of rfl family chain.field_lt describes⟩

theorem parseWithFragments_describes {parser : PacketParser}
    (parsed : parser.parseWithFragments bytes allowed = .ok result) :
    (∃ packet, result = .complete packet ∧ packet.Describes bytes) ∨
      ∃ fragment, result = .fragment fragment ∧ fragment.Describes bytes := by
  rcases PacketParser.parseWithFragments_eq_ok.mp parsed with ⟨-, parsed⟩ | ⟨-, parsed⟩
  · exact parseIpv4_describes parsed
  · exact parseIpv6_describes parsed

namespace PacketParser

/-- No access of the parser is out of range, its loops end, and what it accepts is in the bytes. -/
theorem parse_sound (parser : PacketParser) (bytes : List UInt8) :
    (Checked.parseWithFragments parser bytes true).Total (parser.parse bytes) ∧
      (∀ packet, parser.parse bytes = .ok (.complete packet) → packet.Describes bytes) ∧
      ∀ fragment, parser.parse bytes = .ok (.fragment fragment) → fragment.Describes bytes := by
  refine ⟨Checked.parseWithFragments_total parser bytes true, ?_, ?_⟩
  · intro packet parsed
    rcases parseWithFragments_describes parsed with ⟨found, same, describes⟩ | ⟨found, same, -⟩
    · cases same
      exact describes
    · cases same
  · intro fragment parsed
    rcases parseWithFragments_describes parsed with ⟨found, same, -⟩ | ⟨found, same, describes⟩
    · cases same
    · cases same
      exact describes

def omittedSample : List UInt8 :=
  [69, 0, 0, 32, 0, 7, 0, 0, 64, 17, 174, 196, 10, 0, 0, 1, 192, 0, 2, 1, 48, 57, 0, 53, 0, 12, 0, 0, 1, 2, 3, 4]

/-- A datagram over IPv4 is accepted with an empty checksum field, which its payload does not verify. -/
theorem omittedSample_accepted : (⟨⟨true, true⟩⟩ : PacketParser).parse omittedSample =
      .ok (.complete ⟨.ipv4, .v4 #v[10, 0, 0, 1], .v4 #v[192, 0, 2, 1], ipProtocolUdp, 9, 20, 32,
        .udp ⟨12345, 53, 28, 4⟩⟩) ∧
    transportChecksum (.v4 #v[10, 0, 0, 1]) (.v4 #v[192, 0, 2, 1]) ipProtocolUdp (omittedSample.drop 20) ≠ 0 := by
  decide

end PacketParser

open PacketReject (new ofFragment ofControl)

def transportRejects : List PacketRejectReason := [.invalidTransport, .invalidTransportChecksum]
def extensionRejects : List PacketRejectReason := [.extensionLimit, .malformedExtension]
def upperRejects : List PacketRejectReason := [.unsupportedProtocol, .icmpEchoUnsupported]

theorem optionsLoop_fails {malformed : PacketRejectReason} :
    OnlyFails (optionsLoop malformed (fun _ => none) options turns cursor) (· = malformed) := by
  induction turns generalizing cursor with
  | zero => exact .ok ()
  | succ turns ih =>
    unfold optionsLoop
    split
    · exact .ok ()
    · split
      · split
        · exact .error rfl
        · exact .ok ()
      · split
        · exact ih
        · split
          · exact .error rfl
          · split
            · exact .error rfl
            · exact ih

theorem ipv6OptionsLoop_fails : OnlyFails (ipv6OptionsLoop options turns cursor) (· = .malformedExtension) := by
  induction turns generalizing cursor with
  | zero => exact .ok ()
  | succ turns ih =>
    unfold ipv6OptionsLoop
    split
    · exact .ok ()
    · split
      · exact ih
      · split
        · exact .error rfl
        · split
          · exact .error rfl
          · split
            · exact .error rfl
            · exact ih

theorem validateTransport_fails {source destination : IpAddr}
    (known : protocol = ipProtocolTcp ∨ protocol = ipProtocolUdp) :
    OnlyFails (validateTransport source destination protocol offset transport) (·.reason ∈ transportRejects) := by
  have transported : (new .invalidTransport).reason ∈ transportRejects := by decide
  have summed : (new .invalidTransportChecksum).reason ∈ transportRejects := by decide
  have dispatched : OnlyFails (transportMetadata protocol offset transport) (·.reason ∈ transportRejects) := by
    unfold transportMetadata
    split
    · refine .guarded (fun _ => transported) fun _ => .guarded (fun _ => transported) fun _ => .bind ?_ fun _ _ => .ok _
      refine .mapError _ (optionsLoop_fails.mono ?_)
      rintro reason rfl
      exact transported
    · rename_i notTcp
      rw [if_pos (known.resolve_left notTcp)]
      exact .guarded (fun _ => transported) fun _ => .ok _
  unfold validateTransport
  refine .guarded (fun _ => transported) fun _ => .guarded (fun _ => transported) fun _ => .bind dispatched fun _ _ => ?_
  split
  · split
    · exact .ok _
    · exact .error summed
  · exact .guarded (fun _ => summed) fun _ => .ok _

theorem extensionHeader_fails (bytes : List UInt8) (totalLen : Nat) (state : ExtensionState) :
    OnlyFails (extensionHeader bytes totalLen state) (·.reason ∈ extensionRejects) := by
  have malformed : (new .malformedExtension).reason ∈ extensionRejects := by decide
  have recorded : OnlyFails state.record (·.reason ∈ extensionRejects) := by
    unfold ExtensionState.record
    split
    · exact .guarded (fun _ => malformed) fun _ => .ok _
    · split
      · exact .guarded (fun _ => malformed) fun _ => .ok _
      · exact .guarded (fun _ => malformed) fun _ => .ok _
  unfold extensionHeader
  refine .guarded (fun _ => malformed) fun _ => .bind recorded fun _ _ => .guarded (fun _ => malformed) fun _ =>
    .bind ?_ fun _ _ => .guarded (fun _ => malformed) fun _ => .ok _
  unfold extensionOptions
  split
  · refine .mapError _ (ipv6OptionsLoop_fails.mono ?_)
    rintro reason rfl
    exact malformed
  · exact .ok ()

theorem unsupportedReject_reason (context : ControlContext) (transport : List UInt8) :
    (unsupportedReject context transport).reason ∈ upperRejects := by
  have either : ∀ echo : Bool, (if echo then .icmpEchoUnsupported else .unsupportedProtocol : PacketRejectReason) ∈
      upperRejects := by decide
  exact either _

theorem fragmentHeader_refused (bytes : List UInt8) (totalLen : Nat) (source destination : Ipv6Addr) (remaining : Nat)
    (state : ExtensionState) : ∃ reject, fragmentHeader bytes totalLen source destination false remaining state = .error reject ∧
      reject.reason ∈ extensionRejects ++ upperRejects := by
  unfold fragmentHeader
  by_cases limit : remaining = 0 ∨ state.destinationAfterRouting ∨ totalLen < state.cursor + 8
  · refine ⟨new .extensionLimit, ?_, by decide⟩
    dsimp only
    unfold rejectIf
    rw [if_pos limit]
    rfl
  · by_cases long : maxExtensionBytes < state.extensionBytes + 8
    · refine ⟨new .extensionLimit, ?_, by decide⟩
      dsimp only
      rw [rejectIf_bind limit]
      unfold rejectIf
      rw [if_pos long]
      rfl
    · refine ⟨ofFragment .unsupportedProtocol (.ipv6 ⟨source, destination, byte bytes state.cursor,
        u32At bytes (state.cursor + 4)⟩), ?_, (by decide : PacketRejectReason.unsupportedProtocol ∈ extensionRejects ++ upperRejects)⟩
      dsimp only
      rw [rejectIf_bind limit, rejectIf_bind long]
      unfold rejectIf
      rw [if_pos (.inl (by decide))]
      rfl

theorem refusedEnd (bytes : List UInt8) (totalLen : Nat) (source destination : Ipv6Addr) (remaining : Nat)
    (state : ExtensionState) :
    let ending : Except PacketReject (ExtensionState ⊕ ParsedFragment) :=
      if state.nextHeader = ipv6Fragment then
        (fragmentHeader bytes totalLen source destination false remaining state).map .inr
      else if state.nextHeader = ipProtocolTcp ∨ state.nextHeader = ipProtocolUdp then .ok (.inl state)
      else
        .error (unsupportedReject ⟨.ipv6, .v6 source, .v6 destination, state.nextHeader, state.nextHeaderField,
          state.cursor, totalLen, false⟩ (bytes.drop state.cursor))
    (∃ final, ending = .ok (.inl final) ∧ (final.nextHeader = ipProtocolTcp ∨ final.nextHeader = ipProtocolUdp)) ∨
      ∃ reject, ending = .error reject ∧ reject.reason ∈ extensionRejects ++ upperRejects := by
  dsimp only
  split
  · obtain ⟨reject, refused, reason⟩ := fragmentHeader_refused bytes totalLen source destination remaining state
    exact .inr ⟨reject, by rw [refused]; rfl, reason⟩
  · split
    · rename_i transport
      exact .inl ⟨state, rfl, transport⟩
    · exact .inr ⟨_, rfl, List.mem_append_right _ (unsupportedReject_reason _ _)⟩

theorem extensionLoop_refused (bytes : List UInt8) (totalLen : Nat) (source destination : Ipv6Addr) (remaining : Nat)
    (state : ExtensionState) :
    (∃ final, extensionLoop bytes totalLen source destination false remaining state = .ok (.inl final) ∧
        (final.nextHeader = ipProtocolTcp ∨ final.nextHeader = ipProtocolUdp)) ∨
      ∃ reject, extensionLoop bytes totalLen source destination false remaining state = .error reject ∧
        reject.reason ∈ extensionRejects ++ upperRejects := by
  induction remaining generalizing state with
  | zero =>
    rw [extensionLoop.eq_def]
    dsimp only
    split
    · exact .inr ⟨_, rfl, by decide⟩
    · exact refusedEnd _ _ _ _ _ _
  | succ remaining ih =>
    rw [extensionLoop.eq_def]
    dsimp only
    split
    · cases turn : extensionHeader bytes totalLen state with
      | error reject =>
        exact .inr ⟨reject, rfl, List.mem_append_left _ (extensionHeader_fails bytes totalLen state reject turn)⟩
      | ok next => exact ih next
    · exact refusedEnd _ _ _ _ _ _

theorem parseIpv4_of_header (header : Ipv4Header bytes) (allowed : Bool) : parseIpv4 bytes allowed =
      if ipv4Fragmented bytes then
        parseIpv4Fragment (ipv4At bytes 12) (ipv4At bytes 16) (byte bytes 9) (ipv4Key bytes) allowed
          (ipv4MoreFragments bytes) (ipv4Offset bytes) (ipv4HeaderLen bytes) bytes.length
      else if ¬(byte bytes 9 = ipProtocolTcp ∨ byte bytes 9 = ipProtocolUdp) then
        .error (unsupportedReject ⟨.ipv4, .v4 (ipv4At bytes 12), .v4 (ipv4At bytes 16), byte bytes 9, 9,
          ipv4HeaderLen bytes, bytes.length, false⟩ (bytes.drop (ipv4HeaderLen bytes))) else
        (validateTransport (.v4 (ipv4At bytes 12)) (.v4 (ipv4At bytes 16)) (byte bytes 9) (ipv4HeaderLen bytes)
            (bytes.drop (ipv4HeaderLen bytes))).map fun transport =>
          .complete ⟨.ipv4, .v4 (ipv4At bytes 12), .v4 (ipv4At bytes 16), byte bytes 9, 9, ipv4HeaderLen bytes,
            bytes.length, transport⟩ := by
  have long := header.long
  have version := header.version
  have total := header.total
  have words := header.words
  have fits := header.fits
  unfold ipv4HeaderLen at words fits
  unfold parseIpv4
  refine (rejectIf_bind (by omega)).trans ?_
  refine (rejectIf_bind (by omega)).trans ?_
  refine (rejectIf_bind (by omega)).trans ?_
  refine (rejectIf_bind (not_not.mpr header.checksum)).trans ?_
  have options : (validateIpv4Options (slice bytes 20 ((byteAt bytes 0 &&& 0x0f) * 4))).mapError new = .ok () :=
    congrArg (Except.mapError new) header.options
  rw [options]
  refine (rejectIf_bind (by simpa using header.source)).trans ?_
  refine (rejectIf_bind (by simpa using header.destination)).trans ?_
  refine (rejectIf_bind ?_).trans ?_
  · rintro (reserved | ⟨set, fragmented⟩)
    · exact reserved header.reserved
    · exact header.dontFragment set fragmented
  · rw [total]
    change (if ipv4Fragmented bytes then _ else _) = _
    by_cases fragmented : ipv4Fragmented bytes
    · rw [if_pos fragmented, if_pos fragmented]
      rfl
    · rw [if_neg fragmented, if_neg fragmented]
      by_cases known : byte bytes 9 = ipProtocolTcp ∨ byte bytes 9 = ipProtocolUdp
      · rw [if_neg (not_not.mpr known), if_neg (not_not.mpr known)]
        change (validateTransport _ _ _ (ipv4HeaderLen bytes) (bytes.drop (ipv4HeaderLen bytes)) >>= _) = _
        cases validateTransport (.v4 (ipv4At bytes 12)) (.v4 (ipv4At bytes 16)) (byte bytes 9) (ipv4HeaderLen bytes)
          (bytes.drop (ipv4HeaderLen bytes)) <;> rfl
      · rw [if_pos known, if_pos known]
        rfl

theorem parseIpv6_of_header {bytes : List UInt8} (header : Ipv6Header bytes) (allowed : Bool) :
    parseIpv6 bytes allowed =
      match ipv6Extensions bytes allowed with
      | .error reject => .error reject
      | .ok (.inr fragment) => .ok (.fragment fragment)
      | .ok (.inl state) =>
        (validateTransport (.v6 (ipv6At bytes 8)) (.v6 (ipv6At bytes 24)) state.nextHeader state.cursor
            (bytes.drop state.cursor)).map fun transport =>
          .complete ⟨.ipv6, .v6 (ipv6At bytes 8), .v6 (ipv6At bytes 24), state.nextHeader, state.nextHeaderField, state.cursor,
            bytes.length, transport⟩ := by
  have long := header.long
  have version := header.version
  have total := header.total
  have bound := header.bound
  unfold parseIpv6
  refine (rejectIf_bind (by omega)).trans ?_
  refine (rejectIf_bind header.payload).trans ?_
  refine (rejectIf_bind (by omega)).trans ?_
  refine (rejectIf_bind (by simpa using header.source)).trans ?_
  refine (rejectIf_bind (by simpa using header.destination)).trans ?_
  rw [total]
  change (ipv6Extensions bytes allowed >>= _) = _
  cases ipv6Extensions bytes allowed with
  | error reject => rfl
  | ok found =>
    cases found with
    | inr fragment => rfl
    | inl state =>
      dsimp only [bind, Except.bind]
      cases validateTransport (.v6 (ipv6At bytes 8)) (.v6 (ipv6At bytes 24)) state.nextHeader state.cursor
        (bytes.drop state.cursor) <;> rfl

namespace PacketParser

variable {parser : PacketParser} {bytes : List UInt8}

theorem parseWithFragments_ipv4 (enabled : parser.families.ipv4 = true) (header : Ipv4Header bytes) (allowed : Bool) :
    parser.parseWithFragments bytes allowed = parseIpv4 bytes allowed := by
  have long := header.long
  unfold parseWithFragments
  rw [head?_eq_byte (by omega)]
  exact if_pos ⟨(shiftRight_eq_iff _ 4).mpr header.version, enabled⟩

theorem parseWithFragments_ipv6 (enabled : parser.families.ipv6 = true) (header : Ipv6Header bytes) (allowed : Bool) :
    parser.parseWithFragments bytes allowed = parseIpv6 bytes allowed := by
  have long := header.long
  have version : byte bytes 0 >>> 4 = 6 := (shiftRight_eq_iff _ 6).mpr header.version
  unfold parseWithFragments
  rw [head?_eq_byte (by omega)]
  dsimp only
  rw [if_neg (fun both => absurd (version.symm.trans both.1) (by decide)), if_pos ⟨version, enabled⟩]

end PacketParser

end Ferrum.Tun
