import Ferrum.Tun.MemoryDevice
import Ferrum.Tun.Reassembly
import Ferrum.Tun.UdpResponseParse

namespace Ferrum.Tun

def udpHeadersLen (target : SocketAddr) : Nat := if target.ip.isIpv4 then 28 else 48

/-- The response of these endpoints fits: they are of one family and the packet is within the buffer and
the lengths that IP can name. -/
def UdpResponseFits (endpoints : UdpDatagramEndpoints) (payload output : List UInt8) : Prop :=
  endpoints.target.ip.isIpv4 = endpoints.source.ip.isIpv4 ∧ udpHeadersLen endpoints.target + payload.length ≤ output.length ∧
    udpHeadersLen endpoints.target + payload.length ≤ maxReassembledPacket

theorem udpResponse_fits {endpoints : UdpDatagramEndpoints} {payload output : List UInt8}
    (fits : UdpResponseFits endpoints payload output) : ∃ packet, udpResponse endpoints payload output.length = .ok packet := by
  obtain ⟨family, room, bound⟩ := fits
  obtain ⟨⟨receiver, targetPort⟩, ⟨sender, sourcePort⟩⟩ := endpoints
  unfold udpResponse
  unfold udpHeadersLen at room bound
  unfold maxReassembledPacket at bound
  cases sender <;> cases receiver
  case v4.v4 source target =>
    change 28 + payload.length ≤ output.length at room
    change 28 + payload.length ≤ 65535 at bound
    dsimp only
    rw [if_neg (by omega), U16.tryFrom_eq (by omega), U16.tryFrom_eq (by omega)]
    exact ⟨_, rfl⟩
  case v6.v6 source target =>
    change 48 + payload.length ≤ output.length at room
    change 48 + payload.length ≤ 65535 at bound
    dsimp only
    rw [if_neg (by omega), U16.tryFrom_eq (by omega)]
    exact ⟨_, rfl⟩
  all_goals cases family

/-- The writer of responses agrees with the parser: what it writes passes the cheap check exactly when
the full parser takes it for this response, and a failure leaves the buffer's length and the queues. -/
theorem writeUdpResponse_agrees (endpoints : UdpDatagramEndpoints) (payload output : List UInt8) :
    ((∃ packet, packet.length ≤ output.length ∧
        (writeUdpResponse endpoints payload).Runs output (packet ++ output.drop packet.length) (.ok packet.length) ∧
        ∀ parser : PacketParser, parser.validateUdpResponse endpoints.target endpoints.source packet.length = .ok () ↔
          ∃ parsed, parser.parse packet = .ok (.complete parsed) ∧ parsed.Responds endpoints payload packet) ∨
      ¬UdpResponseFits endpoints payload output ∧ ∃ reason after, after.length = output.length ∧
        (writeUdpResponse endpoints payload).Runs output after (.error reason)) ∧
      ∀ (device : MemoryDevice) (queues : DeviceQueues), device.Holds queues →
        ∃ after outcome, device.injectUdpResponse endpoints payload = some (after, outcome) ∧
          (outcome ≠ .injected → after.Holds queues ∧ after.SameIndices device) := by
  refine ⟨?_, fun device queues holds => ?_⟩
  · have produces := writeUdpResponse_produces endpoints payload output
    cases made : udpResponse endpoints payload output.length with
    | ok packet =>
      rw [made] at produces
      exact .inl ⟨packet, produces.1, produces.2, udpResponse_agrees made⟩
    | error reason =>
      rw [made] at produces
      obtain ⟨after, length, runs⟩ := produces
      refine .inr ⟨fun fits => ?_, reason, after, length, runs⟩
      obtain ⟨packet, found⟩ := udpResponse_fits fits
      cases made.symm.trans found
  · obtain ⟨after, outcome, call, -, ⟨rfl, -⟩ | ⟨-, kept, indices⟩⟩ :=
      MemoryDevice.injectUdpResponse_spec holds endpoints payload
    · exact ⟨after, .injected, call, fun failed => absurd rfl failed⟩
    · exact ⟨after, outcome, call, fun _ => ⟨kept, indices⟩⟩

/-- For every context that the parser hands to the control path, every kind and every limit, the injection
ends, and either the output is one packet that answers the original or the queues stay as they are. -/
theorem injectControlError_answers (device : MemoryDevice) (queues : DeviceQueues) (original : List UInt8)
    (context : ControlContext) (kind : LocalControlKind) (nowMillis : Int) (limiter : ControlRateLimiter)
    (holds : device.Holds queues) (handed : HandedToControl device.validator.parser original context) :
    ∃ after limited injected, device.injectControlError original context kind nowMillis limiter = some (after, limited, injected) ∧
      (injected = true ∧ queues.output = [] ∧ (∃ reply, after.Holds ⟨queues.ingress, [reply]⟩ ∧
          ControlAnswer original context kind device.validator.mtu reply ∧ context.NamesEndsOf original) ∨
        injected = false ∧ after.Holds queues ∧ after.SameIndices device) := by
  obtain ⟨after, limited, injected, call, -, ⟨rfl, empty, reply, made, -, later⟩ | ⟨rfl, kept, indices, -⟩⟩ :=
    MemoryDevice.injectControlError_spec holds original context kind nowMillis limiter
  · exact ⟨after, limited, true, call, .inl ⟨rfl, empty, reply, later, controlReply_sound made, handed.namesEnds⟩⟩
  · exact ⟨after, limited, false, call, .inr ⟨rfl, kept, indices⟩⟩

/-- A GRE packet over IPv4. -/
def greSample : List UInt8 := [69, 0, 0, 21, 0, 0, 0, 0, 64, 47, 174, 184, 10, 0, 0, 1, 192, 0, 2, 1, 1]

def greContext : ControlContext :=
  ⟨.ipv4, .v4 (.new 10 0 0 1), .v4 (.new 192 0 2 1), 47, 9, 20, 21, false⟩

def freshDevice : MemoryDevice :=
  ⟨List.replicate ingressSlots ⟨0, []⟩, 0, 0, List.replicate 1 ⟨0, []⟩, 0, 0, ⟨1280, ⟨⟨true, true⟩⟩⟩⟩

theorem greSample_answers : ∃ after limited injected,
    freshDevice.injectControlError greSample greContext .protocolUnreachable 0 .new = some (after, limited, injected) ∧
      (injected = true ∧ ([] : List (List UInt8)) = [] ∧ (∃ reply, after.Holds ⟨[], [reply]⟩ ∧
          ControlAnswer greSample greContext .protocolUnreachable 1280 reply ∧ greContext.NamesEndsOf greSample) ∨
        injected = false ∧ after.Holds ⟨[], []⟩ ∧ after.SameIndices freshDevice) :=
  injectControlError_answers freshDevice ⟨[], []⟩ greSample greContext .protocolUnreachable 0 .new
    (@MemoryDevice.withOutputSlots_holds freshDevice 1280 1 ⟨true, true⟩ rfl).1
    (@HandedToControl.rejected _ _ true ⟨.unsupportedProtocol, none, some greContext⟩ _ (by decide) rfl)

/-- The part of the stack that a rejected packet works on. -/
structure Stack where
  device : MemoryDevice
  reassembly : ReassemblyTable
  controlLimiter : ControlRateLimiter

namespace Stack

def emitLocalControl (stack : Stack) (original : List UInt8) (context : ControlContext) (kind : LocalControlKind)
    (nowMillis : Int) : Option Stack :=
  (stack.device.injectControlError original context kind nowMillis stack.controlLimiter).map fun (device, limiter, _) =>
    { stack with device := device, controlLimiter := limiter }

/-- The arm of `enqueue_at` for a packet that the parser rejects. -/
def enqueueRejected (stack : Stack) (packet : List UInt8) (rejected : PacketReject) (nowMillis : Int) : Option Stack :=
  let stack := match rejected.fragmentKey with
    | some key => { stack with reassembly := (stack.reassembly.dropKey key).1 }
    | none => stack
  match rejected.reason, rejected.control with
  | .unsupportedProtocol, some context => stack.emitLocalControl packet context .protocolUnreachable nowMillis
  | _, _ => some stack

end Stack

/-- The extension headers that lead from one state of the loop to the state of the header after them. -/
inductive ExtensionWalk (bytes : List UInt8) (totalLen : Nat) : Nat → ExtensionState → ExtensionState → Prop
  | done {remaining : Nat} {state : ExtensionState} (ended : ¬state.isExtension) : ExtensionWalk bytes totalLen remaining state state
  | next {remaining : Nat} {state after final : ExtensionState} (extension : state.isExtension)
      (turn : extensionHeader bytes totalLen state = .ok after) (rest : ExtensionWalk bytes totalLen remaining after final) :
      ExtensionWalk bytes totalLen (remaining + 1) state final

/-- A whole packet of an enabled family whose headers are well formed and lead to an upper protocol that is
neither TCP nor UDP, with what the parser then knows of it. -/
inductive UpperProtocol (parser : PacketParser) (bytes : List UInt8) : ControlContext → Prop
  | ipv4 (enabled : parser.families.ipv4 = true) (header : Ipv4Header bytes) (whole : ¬ipv4Fragmented bytes)
      (other : ¬(byte bytes 9 = ipProtocolTcp ∨ byte bytes 9 = ipProtocolUdp)) :
      UpperProtocol parser bytes ⟨.ipv4, .v4 (ipv4At bytes 12), .v4 (ipv4At bytes 16), byte bytes 9, 9, ipv4HeaderLen bytes,
        bytes.length, false⟩
  | ipv6 {final : ExtensionState} (enabled : parser.families.ipv6 = true) (header : Ipv6Header bytes)
      (walk : ExtensionWalk bytes bytes.length maxExtensionHeaders (.new (byte bytes 6)) final)
      (whole : final.nextHeader ≠ ipv6Fragment) (other : ¬(final.nextHeader = ipProtocolTcp ∨ final.nextHeader = ipProtocolUdp)) :
      UpperProtocol parser bytes ⟨.ipv6, .v6 (ipv6At bytes 8), .v6 (ipv6At bytes 24), final.nextHeader, final.nextHeaderField,
        final.cursor, bytes.length, false⟩

namespace ControlContext

def isIcmp (context : ControlContext) : Prop :=
  match context.family with
  | .ipv4 => context.upperProtocol = ipProtocolIcmp
  | .ipv6 => context.upperProtocol = ipProtocolIcmpv6

/-- The first byte after the headers is the type of an echo request of the family. -/
def startsAsEcho (context : ControlContext) (bytes : List UInt8) : Prop :=
  match context.family with
  | .ipv4 => (bytes.drop context.transportOffset).head? = some 8
  | .ipv6 => (bytes.drop context.transportOffset).head? = some 128

/-- Replies to the messages of ICMP itself, and to packets without an upper protocol, are suppressed. -/
def suppressed (context : ControlContext) : Prop :=
  context.isIcmp ∨ context.family = .ipv6 ∧ context.upperProtocol = ipv6NoNextHeader

instance (context : ControlContext) : Decidable context.isIcmp := by
  unfold isIcmp
  cases context.family <;> exact inferInstance

instance (context : ControlContext) (bytes : List UInt8) : Decidable (context.startsAsEcho bytes) := by
  unfold startsAsEcho
  cases context.family <;> exact inferInstance

instance (context : ControlContext) : Decidable context.suppressed :=
  inferInstanceAs (Decidable (context.isIcmp ∨ context.family = .ipv6 ∧ context.upperProtocol = ipv6NoNextHeader))

end ControlContext

theorem unsupportedReject_eq (context : ControlContext) (bytes : List UInt8) :
    unsupportedReject context (bytes.drop context.transportOffset) =
      ⟨if context.startsAsEcho bytes then .icmpEchoUnsupported else .unsupportedProtocol, none,
        some { context with suppressReply := decide context.suppressed }⟩ := by
  obtain ⟨family, source, destination, protocol, field, offset, total, suppress⟩ := context
  cases family <;>
    simp [unsupportedReject, PacketReject.ofControl, ControlContext.startsAsEcho, ControlContext.suppressed,
      ControlContext.isIcmp, beq_eq_decide]

theorem extensionLoop_walk {bytes : List UInt8} {totalLen remaining : Nat} {source destination : Ipv6Addr} {allowed : Bool}
    {state final : ExtensionState} (walk : ExtensionWalk bytes totalLen remaining state final)
    (whole : final.nextHeader ≠ ipv6Fragment) (other : ¬(final.nextHeader = ipProtocolTcp ∨ final.nextHeader = ipProtocolUdp)) :
    extensionLoop bytes totalLen source destination allowed remaining state =
      .error (unsupportedReject ⟨.ipv6, .v6 source, .v6 destination, final.nextHeader, final.nextHeaderField, final.cursor,
        totalLen, false⟩ (bytes.drop final.cursor)) := by
  induction walk with
  | done ended =>
    rw [extensionLoop.eq_def]
    dsimp only
    rw [if_neg ended, if_neg whole, if_neg other]
  | next extension turn rest ih =>
    rw [extensionLoop.eq_def]
    dsimp only
    rw [if_pos extension, turn]
    exact ih whole other

theorem ExtensionWalk.chain {bytes : List UInt8} {totalLen remaining : Nat} {state final : ExtensionState}
    (walk : ExtensionWalk bytes totalLen remaining state final) (chain : HeaderChain bytes state.nextHeaderField state.cursor)
    (named : state.nextHeader = byte bytes state.nextHeaderField) (inside : state.cursor ≤ totalLen) :
    HeaderChain bytes final.nextHeaderField final.cursor ∧ final.nextHeader = byte bytes final.nextHeaderField ∧
      final.cursor ≤ totalLen := by
  induction walk with
  | done ended => exact ⟨chain, named, inside⟩
  | next extension turn rest ih =>
    have within := (extensionHeader_cursor turn).2
    obtain ⟨-, recorded, -, rfl⟩ := extensionHeader_eq_ok.mp turn
    unfold ExtensionState.isExtension at extension
    rw [named] at extension
    exact ih (.extension chain extension) rfl within

namespace UpperProtocol

variable {parser : PacketParser} {bytes : List UInt8} {context : ControlContext}

theorem parse_eq (upper : UpperProtocol parser bytes context) (allowed : Bool) :
    parser.parseWithFragments bytes allowed = .error (unsupportedReject context (bytes.drop context.transportOffset)) := by
  cases upper with
  | ipv4 enabled header whole other =>
    rw [PacketParser.parseWithFragments_ipv4 enabled header, parseIpv4_of_header header, if_neg whole, if_pos other]
  | ipv6 enabled header walk whole other =>
    rw [PacketParser.parseWithFragments_ipv6 enabled header, parseIpv6_of_header header]
    unfold ipv6Extensions
    rw [extensionLoop_walk walk whole other]

theorem checks (upper : UpperProtocol parser bytes context) : bytes.length = context.totalLen ∧
    context.upperProtocolField < context.transportOffset ∧ context.transportOffset ≤ bytes.length ∧
    context.upperProtocol = byte bytes context.upperProtocolField ∧ bytes.length ≤ 65535 ∧
    (context.family = .ipv4 ∧ context.transportOffset ≤ 60 ∧ (∃ source destination, context.source = .v4 source ∧
        context.destination = .v4 destination ∧ ipv4Unicast source = true ∧ ipv4Unicast destination = true) ∨
      context.family = .ipv6 ∧ ∃ source destination, context.source = .v6 source ∧ context.destination = .v6 destination ∧
        ipv6Unicast source = true ∧ ipv6Unicast destination = true) := by
  cases upper with
  | ipv4 enabled header whole other =>
    have words := header.words
    have fits := header.fits
    have bound := be16_lt bytes 2
    rw [header.total] at bound
    refine ⟨rfl, ?_, fits, rfl, by omega, .inl ⟨rfl, words.2, _, _, rfl, rfl, header.source, header.destination⟩⟩
    dsimp only
    omega
  | @ipv6 final enabled header walk whole other =>
    have long := header.long
    obtain ⟨chain, named, inside⟩ := walk.chain .fixed rfl long
    exact ⟨rfl, chain.field_lt, inside, named, header.bound, .inr ⟨rfl, _, _, rfl, rfl, header.source, header.destination⟩⟩

theorem controlReply_ok {mtu : Nat} (upper : UpperProtocol parser bytes context) (long : 96 ≤ mtu) (short : mtu ≤ 65535) :
    ∃ reply, controlReply bytes { context with suppressReply := false } .protocolUnreachable mtu mtu = .ok reply := by
  obtain ⟨total, field, offset, named, bound, rest⟩ := upper.checks
  have there : bytes[context.upperProtocolField]? = some context.upperProtocol := by
    rw [named, List.getElem?_eq_getElem (by omega)]
    simp [byte, show context.upperProtocolField < bytes.length by omega]
  unfold controlReply
  dsimp only
  rw [if_neg (by
    rintro (suppressed | other | later | absent | large)
    · cases suppressed
    · exact other total
    · omega
    · exact absent there
    · omega)]
  rcases rest with ⟨family, words, source, destination, atSource, atDestination, unicastSource, unicastDestination⟩ |
    ⟨family, source, destination, atSource, atDestination, unicastSource, unicastDestination⟩
  · rw [family, atSource, atDestination]
    have quote : min bytes.length (context.transportOffset + 8) ≤ 68 := (Nat.min_le_right ..).trans (by omega)
    unfold icmpv4Reply
    dsimp only
    rw [if_neg (by simp [unicastSource, unicastDestination])]
    dsimp only [icmpv4Code]
    rw [if_neg (by omega), U16.tryFrom_eq (by omega)]
    exact ⟨_, rfl⟩
  · rw [family, atSource, atDestination]
    have quote : min bytes.length (mtu - 48) ≤ mtu - 48 := Nat.min_le_right ..
    unfold icmpv6Reply
    dsimp only
    rw [if_neg (by simp [unicastSource, unicastDestination]; omega)]
    dsimp only [icmpv6Code]
    rw [if_neg (by unfold maxReassembledPacket; omega), U16.tryFrom_eq (by omega), U32.tryFrom_eq (by omega)]
    dsimp only [parameterField]
    rw [U32.tryFrom_eq (by omega)]
    exact ⟨_, rfl⟩

end UpperProtocol

/-- The classification of a packet whose upper protocol is neither TCP nor UDP, and the reply that it gets. -/
structure EchoClassified (parser : PacketParser) (bytes : List UInt8) (context : ControlContext) : Prop where
  echo : (∃ reject, parser.parse bytes = .error reject ∧ reject.reason = .icmpEchoUnsupported) ↔
    context.isIcmp ∧ context.startsAsEcho bytes
  other : ¬(context.isIcmp ∧ context.startsAsEcho bytes) →
    ∃ reject, parser.parse bytes = .error reject ∧ reject.reason = .unsupportedProtocol
  reply : ¬(context.isIcmp ∧ context.startsAsEcho bytes) → ¬context.suppressed →
    ∀ (stack : Stack) (queues : DeviceQueues) (nowMillis : Int) (reject : PacketReject), stack.device.Holds queues →
      stack.device.validator.parser = parser → 1280 ≤ stack.device.validator.mtu → stack.device.validator.mtu ≤ 1500 →
      queues.output = [] → (stack.controlLimiter.allow nowMillis).2 = true → parser.parse bytes = .error reject →
      ∃ after reply, stack.enqueueRejected bytes reject nowMillis = some after ∧
        after.device.Holds ⟨queues.ingress, [reply]⟩ ∧
        ControlAnswer bytes { context with suppressReply := false } .protocolUnreachable stack.device.validator.mtu reply

theorem Stack.enqueueRejected_replies {stack : Stack} {queues : DeviceQueues} {bytes : List UInt8} {context : ControlContext}
    {nowMillis : Int} {packet : List UInt8} (holds : stack.device.Holds queues) (empty : queues.output = [])
    (admitted : (stack.controlLimiter.allow nowMillis).2 = true)
    (made : controlReply bytes context .protocolUnreachable stack.device.validator.mtu stack.device.validator.mtu = .ok packet) :
    ∃ after, stack.enqueueRejected bytes ⟨.unsupportedProtocol, none, some context⟩ nowMillis = some after ∧
      after.device.Holds ⟨queues.ingress, [packet]⟩ := by
  obtain ⟨device, limited, injected, call, -, ⟨rfl, -, found, same, -, later⟩ | ⟨rfl, -, -, refused⟩⟩ :=
    MemoryDevice.injectControlError_spec holds bytes context .protocolUnreachable nowMillis stack.controlLimiter
  · cases made.symm.trans same
    refine ⟨{ stack with device := device, controlLimiter := limited }, ?_, later⟩
    change stack.emitLocalControl bytes context .protocolUnreachable nowMillis = _
    unfold Stack.emitLocalControl
    rw [call]
    rfl
  · have stopped := congrArg Prod.snd (refused ⟨packet, made⟩ empty)
    cases admitted.symm.trans stopped

/-- The parser classifies a packet by its family and the first byte after the headers alone: right exactly when
that byte is not the type of an echo request, or the protocol is the family's ICMP. -/
theorem echoClassified_iff {parser : PacketParser} {bytes : List UInt8} {context : ControlContext}
    (upper : UpperProtocol parser bytes context) :
    EchoClassified parser bytes context ↔ (context.startsAsEcho bytes → context.isIcmp) := by
  have rejected := upper.parse_eq true
  rw [unsupportedReject_eq] at rejected
  change parser.parse bytes = _ at rejected
  constructor
  · intro classified starts
    rw [if_pos starts] at rejected
    exact (classified.echo.mp ⟨_, rejected, rfl⟩).1
  · intro condition
    by_cases starts : context.startsAsEcho bytes
    · rw [if_pos starts] at rejected
      have icmp := condition starts
      exact ⟨⟨fun _ => ⟨icmp, starts⟩, fun _ => ⟨_, rejected, rfl⟩⟩, fun other => absurd ⟨icmp, starts⟩ other,
        fun other => absurd ⟨icmp, starts⟩ other⟩
    · rw [if_neg starts] at rejected
      refine ⟨⟨?_, fun echo => absurd echo.2 starts⟩, fun _ => ⟨_, rejected, rfl⟩, ?_⟩
      · rintro ⟨reject, same, reason⟩
        cases rejected.symm.trans same
        cases reason
      · intro _ answered stack queues nowMillis reject holds sameParser long short empty admitted same
        cases rejected.symm.trans same
        rw [decide_eq_false answered]
        obtain ⟨packet, made⟩ := @UpperProtocol.controlReply_ok parser bytes context stack.device.validator.mtu upper
          (by omega) (by omega)
        obtain ⟨after, call, later⟩ := Stack.enqueueRejected_replies holds empty admitted made
        exact ⟨after, packet, call, later, controlReply_sound made⟩

/-- The same GRE packet with a payload that starts with the type of an echo request. -/
def greEchoSample : List UInt8 := [69, 0, 0, 21, 0, 0, 0, 0, 64, 47, 174, 184, 10, 0, 0, 1, 192, 0, 2, 1, 8]

theorem greSample_upper : UpperProtocol ⟨⟨true, true⟩⟩ greSample greContext :=
  @UpperProtocol.ipv4 ⟨⟨true, true⟩⟩ greSample rfl
    ⟨by decide, by decide, by decide, by decide, by decide, by decide, by decide, by decide, by decide, by decide, by decide⟩
    (by decide) (by decide)

theorem greSample_classified : EchoClassified ⟨⟨true, true⟩⟩ greSample greContext :=
  (echoClassified_iff greSample_upper).mpr (by decide)

/-- A GRE packet is taken for an ICMP echo request and gets no reply. -/
theorem greEchoSample_misclassified : UpperProtocol ⟨⟨true, true⟩⟩ greEchoSample greContext ∧
    (⟨⟨true, true⟩⟩ : PacketParser).parse greEchoSample = .error ⟨.icmpEchoUnsupported, none, some greContext⟩ ∧
    ¬EchoClassified ⟨⟨true, true⟩⟩ greEchoSample greContext := by
  refine ⟨@UpperProtocol.ipv4 ⟨⟨true, true⟩⟩ greEchoSample rfl
    ⟨by decide, by decide, by decide, by decide, by decide, by decide, by decide, by decide, by decide, by decide, by decide⟩
    (by decide) (by decide), by decide, fun classified => ?_⟩
  obtain ⟨icmp, -⟩ := classified.echo.mp ⟨⟨.icmpEchoUnsupported, none, some greContext⟩, by decide, rfl⟩
  revert icmp
  decide

end Ferrum.Tun
