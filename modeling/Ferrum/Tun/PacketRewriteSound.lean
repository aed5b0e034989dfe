import Ferrum.Tun.PacketRewrite

namespace Ferrum.Tun

/-- The writes of `rewrite_tuple` to an IPv6 header. -/
def writeIpv6Header (packet : List UInt8) (source destination : Ipv6Addr) : List UInt8 :=
  copyFromSlice (copyFromSlice packet 8 source.toList) 24 destination.toList

section writeIpv6Header

variable {packet : List UInt8} {source destination : Ipv6Addr}

theorem length_writeIpv6Header (long : 40 ≤ packet.length) :
    (writeIpv6Header packet source destination).length = packet.length := by
  have first : (copyFromSlice packet 8 source.toList).length = packet.length := length_copyFromSlice (by simp; omega)
  unfold writeIpv6Header
  rw [length_copyFromSlice (by simp [first]; omega), first]

theorem byte_writeIpv6Header (long : 40 ≤ packet.length) (i : Nat) :
    byte (writeIpv6Header packet source destination) i =
      if 24 ≤ i ∧ i < 40 then byte destination.toList (i - 24)
      else if 8 ≤ i ∧ i < 24 then byte source.toList (i - 8)
      else byte packet i := by
  have first : (copyFromSlice packet 8 source.toList).length = packet.length := length_copyFromSlice (by simp; omega)
  unfold writeIpv6Header
  rw [byte_copyFromSlice (by simp [first]; omega), byte_copyFromSlice (by simp; omega)]
  simp only [Vector.length_toList]

end writeIpv6Header

theorem readWord_eq_ok {packet : List UInt8} {offset : Nat} (fits : offset + 2 ≤ packet.length) :
    readWord packet offset = .ok (u16At packet offset) := if_neg (by omega)

variable {packet : List UInt8} {parsed : ParsedIpPacket} {plan : RewritePlan} {source destination : Ipv4Addr}
  {offset : Nat} {tcp : TcpMetadata}

theorem rewriteTuple_ipv4 {newSource newDestination : Ipv4Addr} (atSource : parsed.source = .v4 source)
    (atDestination : parsed.destination = .v4 destination) (planSource : plan.source.ip = .v4 newSource)
    (planDestination : plan.destination.ip = .v4 newDestination) (long : 12 ≤ packet.length)
    (fits : parsed.transportOffset + 18 ≤ packet.length) (oldSource : source = ipv4At packet 12)
    (oldDestination : destination = ipv4At packet 16) : rewriteTuple packet parsed plan =
      (writeTransport (writeIpv4Header packet newSource newDestination
        (rewrittenHeaderChecksum packet newSource newDestination)) parsed.transportOffset plan
        (rewrittenChecksum parsed.source parsed.destination (packet.drop parsed.transportOffset) plan), .ok ()) := by
  have sourceWord := @readWord_eq_ok packet parsed.transportOffset (by omega)
  have destinationWord := @readWord_eq_ok packet (parsed.transportOffset + 2) (by omega)
  have checksumWord := @readWord_eq_ok packet (parsed.transportOffset + 16) (by omega)
  have headerWord := @readWord_eq_ok packet 10 (by omega)
  subst oldSource oldDestination
  unfold rewriteTuple rewrittenChecksum
  simp only [atSource, atDestination, planSource, planDestination, IpAddr.isIpv4, sourceWord, destinationWord, checksumWord,
    headerWord, u16At_drop]
  rfl

theorem rewriteTuple_ipv6
    {source destination newSource newDestination : Ipv6Addr} (atSource : parsed.source = .v6 source)
    (atDestination : parsed.destination = .v6 destination) (planSource : plan.source.ip = .v6 newSource)
    (planDestination : plan.destination.ip = .v6 newDestination) (fits : parsed.transportOffset + 18 ≤ packet.length) :
    rewriteTuple packet parsed plan =
      (writeTransport (writeIpv6Header packet newSource newDestination) parsed.transportOffset plan
        (rewrittenChecksum parsed.source parsed.destination (packet.drop parsed.transportOffset) plan), .ok ()) := by
  have sourceWord := @readWord_eq_ok packet parsed.transportOffset (by omega)
  have destinationWord := @readWord_eq_ok packet (parsed.transportOffset + 2) (by omega)
  have checksumWord := @readWord_eq_ok packet (parsed.transportOffset + 16) (by omega)
  unfold rewriteTuple rewrittenChecksum
  simp only [atSource, atDestination, planSource, planDestination, IpAddr.isIpv4, sourceWord, destinationWord, checksumWord,
    u16At_drop]
  rfl

theorem rewriteTuple_error {reason : TunRejectReason}
    (failed : (rewriteTuple packet parsed plan).2 = .error reason) : (rewriteTuple packet parsed plan).1 = packet := by
  unfold rewriteTuple at failed ⊢
  dsimp only at failed ⊢
  split at failed
  · rename_i mixed
    rw [if_pos mixed]
  · rename_i same
    rw [if_neg same]
    split at failed
    · split at failed
      · split at failed
        · rfl
        · simp at failed
      · simp at failed
      · rfl
    · rfl
    · rfl
    · rfl

variable {protocol : UInt8} {address : IpAddr}

theorem parseIpv4Fragment_eq_ok {key : FragmentKey} {allowed more : Bool}
    {headerLen totalLen : Nat} {result : ParsedPacket}
    (parsed : parseIpv4Fragment source destination protocol key allowed more offset headerLen totalLen = .ok result) :
    ∃ fragment, result = .fragment fragment := by
  unfold parseIpv4Fragment at parsed
  simp only [bind_eq_ok, rejectIf_eq_ok, exists_const] at parsed
  exact ⟨_, (Except.ok.inj parsed.2.2.2).symm⟩

theorem validateTransport_protocol {source destination : IpAddr} {transport : List UInt8}
    (valid : validateTransport source destination protocol offset transport = .ok (.tcp tcp)) :
    protocol = ipProtocolTcp := by
  by_contra other
  unfold validateTransport transportMetadata at valid
  rw [if_neg other] at valid
  simp only [bind_eq_ok, rejectIf_eq_ok, exists_const] at valid
  obtain ⟨_, _, metadata, parsed, rest⟩ := valid
  have udp : ∃ udp, metadata = .udp udp := by
    split at parsed
    · simp only [bind_eq_ok, rejectIf_eq_ok, exists_const] at parsed
      exact ⟨_, (Except.ok.inj parsed.2).symm⟩
    · simp at parsed
  obtain ⟨udp, rfl⟩ := udp
  split at rest
  · split at rest
    · cases Except.ok.inj rest
    · simp at rest
  · simp only [bind_eq_ok, rejectIf_eq_ok, exists_const] at rest
    cases Except.ok.inj rest.2

/-- The metadata of the rewritten packet. -/
def ParsedIpPacket.rewritten (parsed : ParsedIpPacket) (tcp : TcpMetadata) (plan : RewritePlan) : ParsedIpPacket :=
  { parsed with
    source := plan.source.ip
    destination := plan.destination.ip
    transport := .tcp { tcp with sourcePort := plan.source.port, destinationPort := plan.destination.port } }

/-- The bytes that a rewrite may change: the addresses, the ports and the checksums. -/
def ParsedIpPacket.Rewrites (parsed : ParsedIpPacket) (i : Nat) : Prop :=
  (match parsed.family with
    | .ipv4 => 10 ≤ i ∧ i < 20
    | .ipv6 => 8 ≤ i ∧ i < 40) ∨
  parsed.transportOffset ≤ i ∧ i < parsed.transportOffset + 4 ∨
  parsed.transportOffset + 16 ≤ i ∧ i < parsed.transportOffset + 18

/-- What the rewrite of an accepted TCP packet achieves. -/
def RewriteSound (parse : List UInt8 → ParseResult) (packet : List UInt8) (parsed : ParsedIpPacket) (tcp : TcpMetadata)
    (plan : RewritePlan) : Prop :=
  ∃ written, rewriteTuple packet parsed plan = (written, .ok ()) ∧
    parse written = .ok (.complete (parsed.rewritten tcp plan)) ∧ written.length = packet.length ∧
    ∀ i, ¬parsed.Rewrites i → byte written i = byte packet i

theorem drop_writeIpv4Header {checksum : U16} (long : 20 ≤ packet.length) (behind : 20 ≤ offset) :
    (writeIpv4Header packet source destination checksum).drop offset = packet.drop offset := by
  refine ext_byte ?_ ?_
  · rw [List.length_drop, List.length_drop, length_writeIpv4Header long]
  · intro i _
    rw [byte_drop, byte_drop, byte_writeIpv4Header long, if_neg (by omega), if_neg (by omega), if_neg (by omega)]

theorem drop_writeIpv6Header {source destination : Ipv6Addr} (long : 40 ≤ packet.length) (behind : 40 ≤ offset) :
    (writeIpv6Header packet source destination).drop offset = packet.drop offset := by
  refine ext_byte ?_ ?_
  · rw [List.length_drop, List.length_drop, length_writeIpv6Header long]
  · intro i _
    rw [byte_drop, byte_drop, byte_writeIpv6Header long, if_neg (by omega), if_neg (by omega)]

theorem IpAddr.isIpv4_eq_true (family : address.isIpv4 = true) : ∃ octets, address = .v4 octets := by
  cases address with
  | v4 octets => exact ⟨octets, rfl⟩
  | v6 octets => simp [isIpv4] at family

theorem IpAddr.isIpv4_eq_false (family : address.isIpv4 = false) : ∃ octets, address = .v6 octets := by
  cases address with
  | v4 octets => simp [isIpv4] at family
  | v6 octets => exact ⟨octets, rfl⟩

/-- A plan that can replace the endpoints of a parsed packet. -/
structure RewritePlan.Suits (plan : RewritePlan) (parsed : ParsedIpPacket) : Prop where
  sourceFamily : parsed.source.isIpv4 = plan.source.ip.isIpv4
  destinationFamily : parsed.destination.isIpv4 = plan.destination.ip.isIpv4
  sourceUnicast : plan.source.ip.unicast = true
  destinationUnicast : plan.destination.ip.unicast = true
  sourcePort : plan.source.port ≠ 0
  destinationPort : plan.destination.port ≠ 0

/-- The TCP segment behind a rewritten header. -/
theorem RewritePlan.Suits.segment {front : List UInt8} {place : Nat} (suits : plan.Suits parsed)
    (family : parsed.source.isIpv4 = parsed.destination.isIpv4) (bound : packet.length ≤ 65535)
    (valid : validateTransport parsed.source parsed.destination protocol place (packet.drop parsed.transportOffset) =
      .ok (.tcp tcp)) (length : front.length = packet.length)
    (behind : front.drop parsed.transportOffset = packet.drop parsed.transportOffset) :
    protocol = ipProtocolTcp ∧ parsed.transportOffset + 18 ≤ packet.length ∧
    ∃ written, writeTransport front parsed.transportOffset plan
        (rewrittenChecksum parsed.source parsed.destination (packet.drop parsed.transportOffset) plan) = written ∧
      written.length = packet.length ∧
      (∀ i, i < parsed.transportOffset ∨ parsed.transportOffset + 4 ≤ i ∧ i < parsed.transportOffset + 16 ∨
        parsed.transportOffset + 18 ≤ i → byte written i = byte front i) ∧
      ∀ place, validateTransport plan.source.ip plan.destination.ip protocol place (written.drop parsed.transportOffset) =
        .ok (.tcp { tcp with sourcePort := plan.source.port, destinationPort := plan.destination.port }) := by
  obtain rfl := validateTransport_protocol valid
  obtain ⟨segment, metadata⟩ := validateTransport_tcp.mp valid
  obtain rfl := TransportMetadata.tcp.inj metadata
  have long := segment.long
  rw [List.length_drop] at long
  refine ⟨rfl, by omega, _, rfl, by rw [length_writeTransport (by omega), length], fun i outside => byte_writeTransport_outside (by omega) outside,
    fun place => ?_⟩
  obtain ⟨newSegment, newMetadata⟩ := segment.rewrite (by rw [List.length_drop]; omega) family suits.sourceFamily
    suits.destinationFamily suits.sourcePort suits.destinationPort
  rw [drop_writeTransport (by omega), behind, ← newMetadata]
  exact validateTransport_tcp.mpr ⟨newSegment, rfl⟩

theorem parseIpv4_rewrite (accepted : parseIpv4 packet true = .ok (.complete parsed)) (isTcp : parsed.transport = .tcp tcp)
    (suits : plan.Suits parsed) : RewriteSound (parseIpv4 · true) packet parsed tcp plan := by
  obtain ⟨header, ⟨_, fragment⟩ | ⟨whole, known, transport, valid, same⟩⟩ := parseIpv4_eq_ok.mp accepted
  · obtain ⟨_, impossible⟩ := parseIpv4Fragment_eq_ok fragment
    cases impossible
  · obtain rfl := ParsedPacket.complete.inj same
    obtain rfl : transport = .tcp tcp := isTcp
    obtain ⟨newSource, planSource⟩ := IpAddr.isIpv4_eq_true suits.sourceFamily.symm
    obtain ⟨newDestination, planDestination⟩ := IpAddr.isIpv4_eq_true suits.destinationFamily.symm
    have long := header.long
    have words := header.words
    have total := be16_lt packet 2
    rw [header.total] at total
    have inner : (writeIpv4Header packet newSource newDestination
        (rewrittenHeaderChecksum packet newSource newDestination)).length = packet.length := length_writeIpv4Header long
    obtain ⟨tcpProtocol, fits, output, written, length, kept, validated⟩ :=
      suits.segment rfl (by omega) valid inner (drop_writeIpv4Header long (by dsimp only; omega))
    dsimp only at kept
    obtain ⟨newHeader, headerLen, protocol, sourceAt, destinationAt, fragmented⟩ :=
      header.rewrite length (fun i inside => kept i (by omega))
        (by simpa [planSource, IpAddr.unicast] using suits.sourceUnicast)
        (by simpa [planDestination, IpAddr.unicast] using suits.destinationUnicast)
    refine ⟨output, (rewriteTuple_ipv4 rfl rfl planSource planDestination (by omega) fits rfl rfl).trans
      (congrArg (·, _) written), parseIpv4_eq_ok.mpr ⟨newHeader, .inr ⟨fragmented.not.mpr whole, by rwa [protocol],
      .tcp { tcp with sourcePort := plan.source.port, destinationPort := plan.destination.port }, ?_, ?_⟩⟩, length, ?_⟩
    · rw [protocol, sourceAt, destinationAt, headerLen, ← planSource, ← planDestination]
      exact validated _
    · rw [sourceAt, destinationAt, protocol, headerLen, length, ← planSource, ← planDestination]
      rfl
    · intro i outside
      unfold ParsedIpPacket.Rewrites at outside
      dsimp only at outside
      rw [kept i (by omega), byte_writeIpv4Header long, if_neg (by omega), if_neg (by omega), if_neg (by omega)]

theorem Ipv6Header.rewrite {written : List UInt8} (header : Ipv6Header packet) {source destination : Ipv6Addr}
    {state : ExtensionState} (found : ipv6Extensions packet true = .ok (.inl state)) (length : written.length = packet.length)
    (front : ∀ i < state.cursor, byte written i = byte (writeIpv6Header packet source destination) i)
    (sourceUnicast : ipv6Unicast source = true) (destinationUnicast : ipv6Unicast destination = true) :
    Ipv6Header written ∧ ipv6Extensions written true = .ok (.inl state) ∧ ipv6At written 8 = source ∧
      ipv6At written 24 = destination := by
  have long := header.long
  have behind : 40 ≤ state.cursor := (extensionLoop_cursor found).1
  have kept : ∀ i, i < 8 ∨ 40 ≤ i → i < state.cursor → byte written i = byte packet i := by
    intro i outside inside
    rw [front i inside, byte_writeIpv6Header long, if_neg (by omega), if_neg (by omega)]
  have sourceAt : ipv6At written 8 = source := by
    refine ipv6At_eq ?_
    intro k bound
    rw [front _ (by omega), byte_writeIpv6Header long, if_neg (by omega), if_pos (by omega), Nat.add_sub_cancel_left]
  have destinationAt : ipv6At written 24 = destination := by
    refine ipv6At_eq ?_
    intro k bound
    rw [front _ (by omega), byte_writeIpv6Header long, if_pos (by omega), Nat.add_sub_cancel_left]
  have payload : be16 written 4 = be16 packet 4 := by
    unfold be16
    simp only [byteAt_eq, kept 4 (by omega) (by omega), kept (4 + 1) (by omega) (by omega)]
  refine ⟨⟨by omega, ?_, by rw [payload]; exact header.payload, by rw [payload, length]; exact header.total,
    by rw [length]; exact header.bound, by rw [sourceAt]; exact sourceUnicast,
    by rw [destinationAt]; exact destinationUnicast⟩, ?_, sourceAt, destinationAt⟩
  · rw [byteAt_eq, kept 0 (by omega) (by omega), ← byteAt_eq]
    exact header.version
  · unfold ipv6Extensions
    rw [kept 6 (by omega) (by omega), length]
    exact extensionLoop_congr length.symm (fun i above below => (kept i (.inr above) below).symm) found

theorem parseIpv6_rewrite (accepted : parseIpv6 packet true = .ok (.complete parsed)) (isTcp : parsed.transport = .tcp tcp)
    (suits : plan.Suits parsed) : RewriteSound (parseIpv6 · true) packet parsed tcp plan := by
  obtain ⟨header, ⟨_, _, impossible⟩ | ⟨state, transport, found, valid, same⟩⟩ := parseIpv6_eq_ok.mp accepted
  · cases impossible
  · obtain rfl := ParsedPacket.complete.inj same
    obtain rfl : transport = .tcp tcp := isTcp
    obtain ⟨newSource, planSource⟩ := IpAddr.isIpv4_eq_false suits.sourceFamily.symm
    obtain ⟨newDestination, planDestination⟩ := IpAddr.isIpv4_eq_false suits.destinationFamily.symm
    have long := header.long
    have behind : 40 ≤ state.cursor := (extensionLoop_cursor found).1
    have inner : (writeIpv6Header packet newSource newDestination).length = packet.length := length_writeIpv6Header long
    obtain ⟨-, fits, output, written, length, kept, validated⟩ :=
      suits.segment (by simp only [IpAddr.isIpv4]) header.bound valid inner (drop_writeIpv6Header long (by omega))
    dsimp only at kept
    obtain ⟨newHeader, extensions, sourceAt, destinationAt⟩ :=
      header.rewrite found length (fun i inside => kept i (by omega))
        (by simpa [planSource, IpAddr.unicast] using suits.sourceUnicast)
        (by simpa [planDestination, IpAddr.unicast] using suits.destinationUnicast)
    refine ⟨output, (rewriteTuple_ipv6 rfl rfl planSource planDestination fits).trans (congrArg (·, _) written),
      parseIpv6_eq_ok.mpr ⟨newHeader, .inr ⟨state,
        .tcp { tcp with sourcePort := plan.source.port, destinationPort := plan.destination.port }, extensions, ?_, ?_⟩⟩, length, ?_⟩
    · rw [sourceAt, destinationAt, ← planSource, ← planDestination]
      exact validated _
    · rw [sourceAt, destinationAt, length, ← planSource, ← planDestination]
      rfl
    · intro i outside
      unfold ParsedIpPacket.Rewrites at outside
      dsimp only at outside
      rw [kept i (by omega), byte_writeIpv6Header long, if_neg (by omega), if_neg (by omega)]

/-- A TCP packet that the parser accepts is rewritten to every suitable plan, and the parser
accepts the result with the endpoints of the plan; only addresses, ports and checksums change.
A rewrite that fails leaves the packet alone. -/
theorem rewriteTuple_sound (parser : PacketParser) :
    (∀ packet parsed tcp plan, parser.parse packet = .ok (.complete parsed) → parsed.transport = .tcp tcp →
      plan.Suits parsed → RewriteSound parser.parse packet parsed tcp plan) ∧
    ∀ packet parsed plan reason, (rewriteTuple packet parsed plan).2 = .error reason →
      (rewriteTuple packet parsed plan).1 = packet := by
  refine ⟨?_, fun packet parsed plan reason failed => rewriteTuple_error failed⟩
  intro packet parsed tcp plan accepted isTcp suits
  rcases PacketParser.parseWithFragments_eq_ok.mp accepted with ⟨enabled, byFamily⟩ | ⟨enabled, byFamily⟩
  · obtain ⟨written, result, again, rest⟩ := parseIpv4_rewrite byFamily isTcp suits
    have accepted : parseIpv4 written true = .ok (.complete (parsed.rewritten tcp plan)) := again
    refine ⟨written, result, ?_, rest⟩
    rw [PacketParser.parse, PacketParser.parseWithFragments_eq_ok]
    exact .inl ⟨enabled, accepted⟩
  · obtain ⟨written, result, again, rest⟩ := parseIpv6_rewrite byFamily isTcp suits
    have accepted : parseIpv6 written true = .ok (.complete (parsed.rewritten tcp plan)) := again
    refine ⟨written, result, ?_, rest⟩
    rw [PacketParser.parse, PacketParser.parseWithFragments_eq_ok]
    exact .inr ⟨enabled, accepted⟩

/-- A SYN from 10.0.0.2, port 40000, to port 80 of 93.184.216.34. -/
def sampleSyn : List UInt8 :=
  [69, 0, 0, 40, 0, 0, 0, 0, 64, 6, 58, 244, 10, 0, 0, 2, 93, 184, 216, 34,
    156, 64, 0, 80, 0, 0, 0, 1, 0, 0, 0, 0, 80, 2, 4, 0, 207, 116, 0, 0]

def sampleSynMetadata : TcpMetadata := ⟨40000, 80, 20, tcpSyn⟩

def sampleSynParsed : ParsedIpPacket :=
  ⟨.ipv4, .v4 (.new 10 0 0 2), .v4 (.new 93 184 216 34), ipProtocolTcp, 9, 20, 40, .tcp sampleSynMetadata⟩

/-- Towards a listener on 10.0.0.2, from the synthetic peer 10.0.0.1. -/
def samplePlan : RewritePlan := ⟨⟨.v4 (.new 10 0 0 1), 50000⟩, ⟨.v4 (.new 10 0 0 2), 8080⟩⟩

theorem sampleSyn_rewrite_sound :
    (PacketParser.mk ⟨true, true⟩).parse sampleSyn = .ok (.complete sampleSynParsed) ∧
      RewriteSound (PacketParser.mk ⟨true, true⟩).parse sampleSyn sampleSynParsed sampleSynMetadata samplePlan := by
  have accepted : (PacketParser.mk ⟨true, true⟩).parse sampleSyn = .ok (.complete sampleSynParsed) := by decide
  have suits : samplePlan.Suits sampleSynParsed := ⟨rfl, rfl, by decide, by decide, by decide, by decide⟩
  exact ⟨accepted, (rewriteTuple_sound _).1 _ _ _ _ accepted rfl suits⟩

end Ferrum.Tun
