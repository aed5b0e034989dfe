import Ferrum.Lib.RingQueue
import Ferrum.Tun.PacketRewrite
import Ferrum.Tun.UdpResponseWriter

namespace Ferrum.Tun

open Option List

def ingressSlots : Nat := 16

def mapPacketReject : PacketRejectReason → TunRejectReason
  | .empty | .invalidVersion => .invalidIpVersion
  | .disabledFamily => .familyDisabled
  | .invalidLength | .jumbogramUnsupported => .invalidIpLength
  | .invalidHeaderChecksum => .invalidIpChecksum
  | .invalidSource => .invalidSource
  | .invalidDestination => .invalidDestination
  | .invalidIpv4Options | .sourceRouteOption | .extensionLimit | .malformedExtension => .invalidExtensionHeader
  | .invalidFragment => .fragmentMalformed
  | .unsupportedProtocol => .unsupportedIpProtocol
  | .icmpEchoUnsupported => .icmpEchoUnsupported
  | .invalidTransport => .invalidTransportLength
  | .invalidTransportChecksum => .invalidTransportChecksum

structure PacketValidator where
  mtu : Nat
  parser : PacketParser

/-- A slot of the ingress or of the output, with the length of its packet beside the buffer. -/
structure PacketSlot where
  len : Nat
  bytes : List UInt8

inductive OutputSendOutcome
  | sent | droppedRingFull | fatal
  deriving DecidableEq, Repr

inductive OutputFlushOutcome
  | empty | sent | droppedRingFull | fatal
  deriving DecidableEq, Repr

inductive UdpInjectOutcome
  | injected | backpressured | rejected (reason : TunRejectReason)
  deriving DecidableEq

structure MemoryDevice where
  ingress : List PacketSlot
  ingressHead : Nat
  ingressLen : Nat
  output : List PacketSlot
  outputHead : Nat
  outputCount : Nat
  validator : PacketValidator

/-- A change of a packet in place, which keeps the length of the slice. -/
structure SliceRewrite where
  run : List UInt8 → ParsedIpPacket → List UInt8 × Except TunRejectReason Unit
  length : ∀ bytes parsed, (run bytes parsed).1.length = bytes.length

namespace MemoryDevice

/-- The device with a number of output slots, which must not be zero. The operations below are
`none` where the source would panic. -/
def withOutputSlots (mtu : Nat) (families : Families) (outputSlots : Nat) : Option MemoryDevice :=
  if outputSlots = 0 then none
  else
    some {
      ingress := List.replicate ingressSlots ⟨0, []⟩
      ingressHead := 0
      ingressLen := 0
      output := List.replicate outputSlots ⟨0, []⟩
      outputHead := 0
      outputCount := 0
      validator := ⟨mtu, ⟨families⟩⟩ }

def enqueueRewritten (device : MemoryDevice) (packet : List UInt8) (parsed : ParsedIpPacket) (rewrite : SliceRewrite) :
    Option (MemoryDevice × Except TunRejectReason Bool) :=
  if device.ingressLen = ingressSlots then some (device, .ok false)
  else
    let tail := (device.ingressHead + device.ingressLen) % ingressSlots
    match device.ingress[tail]? with
    | none => none
    | some _ =>
      match rewrite.run packet parsed with
      | (bytes, .ok ()) =>
        some ({ device with
          ingress := device.ingress.set tail ⟨packet.length, bytes⟩
          ingressLen := device.ingressLen + 1 }, .ok true)
      | (_, .error reason) => some ({ device with ingress := device.ingress.set tail ⟨0, []⟩ }, .error reason)

def outputTailIndex (device : MemoryDevice) : Option Nat :=
  if device.outputCount ≠ device.output.length then some ((device.outputHead + device.outputCount) % device.output.length)
  else none

def resize (bytes : List UInt8) (length : Nat) : List UInt8 := bytes.take length ++ List.replicate (length - bytes.length) 0

section

variable (device : MemoryDevice)

def prepareOutputSlot (index : Nat) : Option MemoryDevice :=
  device.output[index]?.map fun slot =>
    let bytes := if slot.bytes.length ≠ device.validator.mtu then resize slot.bytes device.validator.mtu else slot.bytes
    { device with output := device.output.set index ⟨0, bytes⟩ }

/-- The first packet, if there is one; its range of the buffer must be there. -/
def frontOutput : Option (Option (List UInt8)) :=
  match device.output[device.outputHead]? with
  | none => some none
  | some slot =>
    if device.outputCount ≠ 0 then
      if slot.len ≤ slot.bytes.length then some (some (slot.bytes.take slot.len)) else none
    else some none

def popOutput : Option MemoryDevice :=
  if device.outputCount = 0 then none
  else
    device.output[device.outputHead]?.map fun slot =>
      { device with
        output := device.output.set device.outputHead { slot with len := 0 }
        outputHead := if device.outputCount - 1 = 0 then 0 else (device.outputHead + 1) % device.output.length
        outputCount := device.outputCount - 1 }

def clearSessionBuffers : MemoryDevice :=
  { device with
    ingress := device.ingress.map fun _ => ⟨0, []⟩
    ingressHead := 0
    ingressLen := 0
    output := device.output.map fun slot => { slot with len := 0 }
    outputHead := 0
    outputCount := 0 }

def promoteOneIngress : Option (MemoryDevice × Bool) :=
  match device.outputTailIndex with
  | none => some (device, false)
  | some outputIndex =>
    if device.ingressLen = 0 then some (device, false)
    else
      match device.ingress[device.ingressHead]?, device.output[outputIndex]? with
      | some input, some _ =>
        some ({ device with
          ingress := device.ingress.set device.ingressHead ⟨0, []⟩
          ingressHead := (device.ingressHead + 1) % ingressSlots
          ingressLen := device.ingressLen - 1
          output := device.output.set outputIndex input
          outputCount := device.outputCount + 1 }, true)
      | _, _ => none

/-- The sink is a closure with a state of its own. -/
def flushOutput {σ : Type} (send : List UInt8 → σ → OutputSendOutcome × σ) (sink : σ) :
    Option (MemoryDevice × OutputFlushOutcome × σ) :=
  match device.frontOutput with
  | none => none
  | some none => some (device, .empty, sink)
  | some (some packet) =>
    match send packet sink with
    | (.sent, sink) => device.popOutput.map fun device => (device, .sent, sink)
    | (.droppedRingFull, sink) => device.popOutput.map fun device => (device, .droppedRingFull, sink)
    | (.fatal, sink) => some (device, .fatal, sink)

/-- Writes to the buffer of an output slot. -/
def writeOutput {ε α : Type} (index : Nat) (writer : SliceWriter ε α) :
    Option (MemoryDevice × Except ε α) :=
  match device.output[index]? with
  | none => none
  | some slot => (writer.run slot.bytes).map fun (result, bytes) =>
      ({ device with output := device.output.set index { slot with bytes := bytes } }, result)

/-- The written packet becomes the only one of the output. -/
def publishOutput (index length : Nat) : Option MemoryDevice :=
  device.output[index]?.map fun slot =>
    { device with output := device.output.set index { slot with len := length }, outputCount := 1 }

def injectUdpResponse (endpoints : UdpDatagramEndpoints) (payload : List UInt8) :
    Option (MemoryDevice × UdpInjectOutcome) :=
  if device.outputCount ≠ 0 then some (device, .backpressured)
  else do
    let index ← device.outputTailIndex
    let device ← device.prepareOutputSlot index
    match ← device.writeOutput index (writeUdpResponse endpoints payload) with
    | (device, .error reason) => return (device, .rejected (mapPacketReject reason))
    | (device, .ok length) =>
      match device.validator.parser.validateUdpResponse endpoints.target endpoints.source length with
      | .error reason => return (device, .rejected (mapPacketReject reason))
      | .ok () => return (← device.publishOutput index length, .injected)

def injectControlError (original : List UInt8) (context : ControlContext) (kind : LocalControlKind)
    (nowMillis : Int) (limiter : ControlRateLimiter) : Option (MemoryDevice × ControlRateLimiter × Bool) :=
  if device.outputCount ≠ 0 then some (device, limiter, false)
  else do
    let index ← device.outputTailIndex
    let device ← device.prepareOutputSlot index
    match ← device.writeOutput index (writeLocalControlError original context kind device.validator.mtu) with
    | (device, .error ()) => return (device, limiter, false)
    | (device, .ok length) =>
      match limiter.allow nowMillis with
      | (limiter, false) => return (device, limiter, false)
      | (limiter, true) => return (← device.publishOutput index length, limiter, true)

end

end MemoryDevice

/-- The packets of a device: those that wait for the output, and those that wait for the sink. -/
structure DeviceQueues where
  ingress : List (List UInt8)
  output : List (List UInt8)

/-- The range of the buffer that a slot's length names is the packet. -/
def PacketSlot.Stands (slot : PacketSlot) (packet : List UInt8) : Prop :=
  slot.len = packet.length ∧ slot.bytes.take slot.len = packet

namespace MemoryDevice

/-- The rings of a device stand for these queues, with its indices and counts in range. -/
structure Holds (device : MemoryDevice) (queues : DeviceQueues) : Prop where
  slots : device.ingress.length = ingressSlots
  ingress : SlotRing PacketSlot.Stands device.ingress device.ingressHead queues.ingress
  ingressLen : device.ingressLen = queues.ingress.length
  output : SlotRing PacketSlot.Stands device.output device.outputHead queues.output
  outputCount : device.outputCount = queues.output.length

/-- The indices, counts and limits are those of another device. -/
def SameIndices (device other : MemoryDevice) : Prop :=
  device.ingressHead = other.ingressHead ∧ device.ingressLen = other.ingressLen ∧ device.outputHead = other.outputHead ∧
    device.outputCount = other.outputCount

variable {device : MemoryDevice} {queues : DeviceQueues}

theorem withOutputSlots_holds {mtu outputSlots : Nat} {families : Families}
    (made : withOutputSlots mtu families outputSlots = some device) :
    device.Holds ⟨[], []⟩ ∧ device.validator = ⟨mtu, ⟨families⟩⟩ := by
  unfold withOutputSlots at made
  by_cases none : outputSlots = 0
  · rw [if_pos none] at made
    cases made
  · rw [if_neg none] at made
    cases made
    have positive : 0 < outputSlots := Nat.pos_of_ne_zero none
    refine ⟨⟨length_replicate .., .empty ?_, rfl, .empty ?_, rfl⟩, rfl⟩
    · rw [length_replicate]
      exact (by decide : 0 < ingressSlots)
    · rw [length_replicate]
      exact positive

theorem tail_getElem? {slots : List PacketSlot} {index : Nat} (inside : index < slots.length) :
    ∃ slot, slots[index]? = some slot := ⟨slots[index], List.getElem?_eq_getElem inside⟩

section

variable (holds : device.Holds queues)
include holds

theorem outputTailIndex_eq : device.outputTailIndex = if queues.output.length = device.output.length then none
    else some ((device.outputHead + queues.output.length) % device.output.length) := by
  unfold outputTailIndex
  rw [holds.outputCount]
  by_cases full : queues.output.length = device.output.length
  · rw [if_pos full, if_neg (not_not.mpr full)]
  · rw [if_neg full, if_pos full]

end

theorem length_resize (bytes : List UInt8) (length : Nat) : (resize bytes length).length = length := by
  unfold resize
  rw [length_append, length_take, length_replicate]
  omega

/-- What an injection does up to the publication, for a writer that produces a packet or fails. -/
structure Written {ε : Type} (device : MemoryDevice) (queues : DeviceQueues) (writer : SliceWriter ε Nat)
    (result : Except ε (List UInt8)) (index : Nat) (prepared written : MemoryDevice) : Prop where
  tail : device.outputTailIndex = some index
  prepare : device.prepareOutputSlot index = some prepared
  write : prepared.writeOutput index writer = some (written, result.map List.length)
  holds : written.Holds queues
  validator : prepared.validator = device.validator ∧ written.validator = device.validator
  indices : written.SameIndices device
  publish : ∀ packet, result = .ok packet → ∃ published, written.publishOutput index packet.length = some published ∧
    published.Holds ⟨queues.ingress, [packet]⟩ ∧ published.validator = device.validator

theorem written_of_produces {ε : Type} {writer : SliceWriter ε Nat} {result : Nat → Except ε (List UInt8)}
    (holds : device.Holds queues) (empty : queues.output = [])
    (produces : ∀ output, writer.Produces output (result output.length)) :
    ∃ index prepared written, Written device queues writer (result device.validator.mtu) index prepared written := by
  have ring := holds.output
  have tailEq := outputTailIndex_eq holds
  have count := holds.outputCount
  obtain ⟨ingress, output⟩ := queues
  dsimp only at empty
  subst empty
  dsimp only at ring
  have room : ([] : List (List UInt8)).length < device.output.length := Nat.zero_lt_of_lt ring.inside
  rw [if_neg (Nat.ne_of_lt room)] at tailEq
  have inside := ring.tail_lt
  have pushed := fun slot packet => @SlotRing.push _ _ _ _ _ _ ring slot packet room
  generalize (device.outputHead + ([] : List (List UInt8)).length) % device.output.length = index at tailEq inside pushed
  have changed : ∀ slot, SlotRing PacketSlot.Stands (device.output.set index slot) device.outputHead [] := fun slot =>
    .empty (by rw [length_set]; exact ring.inside)
  obtain ⟨old, found⟩ := tail_getElem? inside
  obtain ⟨buffer, size, prepared⟩ : ∃ buffer : List UInt8, buffer.length = device.validator.mtu ∧
      device.prepareOutputSlot index = some { device with output := device.output.set index ⟨0, buffer⟩ } := by
    unfold prepareOutputSlot
    rw [found]
    by_cases same : old.bytes.length ≠ device.validator.mtu
    · exact ⟨_, length_resize .., by rw [map_some, if_pos same]⟩
    · exact ⟨_, not_not.mp same, by rw [map_some, if_neg same]⟩
  have slotAt : (device.output.set index ⟨0, buffer⟩)[index]? = some ⟨0, buffer⟩ := List.getElem?_set_self inside
  have produced := produces buffer
  rw [size] at produced
  generalize result device.validator.mtu = reply at *
  cases reply with
  | error error =>
    obtain ⟨after, -, runs⟩ := produced
    refine ⟨index, _, { device with output := device.output.set index ⟨0, after⟩ }, tailEq, prepared, ?_,
      ⟨holds.slots, holds.ingress, holds.ingressLen, changed _, count⟩, ⟨rfl, rfl⟩, ⟨rfl, rfl, rfl, rfl⟩, fun packet made => by cases made⟩
    unfold writeOutput
    rw [slotAt]
    dsimp only
    rw [runs, map_some, set_set]
    rfl
  | ok packet =>
    obtain ⟨fits, runs⟩ := produced
    refine ⟨index, _, { device with output := device.output.set index ⟨0, packet ++ buffer.drop packet.length⟩ }, tailEq, prepared,
      ?_, ⟨holds.slots, holds.ingress, holds.ingressLen, changed _, count⟩, ⟨rfl, rfl⟩, ⟨rfl, rfl, rfl, rfl⟩, fun written made => ?_⟩
    · unfold writeOutput
      rw [slotAt]
      dsimp only
      rw [runs, map_some, set_set]
      rfl
    · cases made
      have stands : PacketSlot.Stands ⟨packet.length, packet ++ buffer.drop packet.length⟩ packet := ⟨rfl, take_left⟩
      unfold publishOutput
      rw [List.getElem?_set_self inside, map_some, set_set]
      exact ⟨_, rfl, ⟨holds.slots, holds.ingress, holds.ingressLen, pushed _ packet stands, rfl⟩, rfl⟩

theorem SameIndices.refl (device : MemoryDevice) : device.SameIndices device := ⟨rfl, rfl, rfl, rfl⟩

theorem Holds.output_nil (holds : device.Holds queues) (none : device.outputCount = 0) : queues.output = [] :=
  length_eq_zero_iff.mp (holds.outputCount.symm.trans none)

theorem injectUdpResponse_spec (holds : device.Holds queues) (endpoints : UdpDatagramEndpoints) (payload : List UInt8) :
    ∃ after outcome, device.injectUdpResponse endpoints payload = some (after, outcome) ∧ after.validator = device.validator ∧
      (outcome = .injected ∧ queues.output = [] ∧ (∃ packet, udpResponse endpoints payload device.validator.mtu = .ok packet ∧
          device.validator.parser.validateUdpResponse endpoints.target endpoints.source packet.length = .ok () ∧
          after.Holds ⟨queues.ingress, [packet]⟩) ∨
        outcome ≠ .injected ∧ after.Holds queues ∧ after.SameIndices device) := by
  unfold injectUdpResponse
  by_cases none : device.outputCount = 0
  · rw [if_neg (not_not.mpr none)]
    obtain ⟨index, prepared, written, facts⟩ := written_of_produces holds (holds.output_nil none)
      (writeUdpResponse_produces endpoints payload)
    have publish := facts.publish
    simp only [facts.tail, facts.prepare, facts.write, bind_eq_bind, bind_some]
    cases made : udpResponse endpoints payload device.validator.mtu with
    | error reason =>
      exact ⟨written, _, rfl, facts.validator.2, .inr ⟨by simp, facts.holds, facts.indices⟩⟩
    | ok packet =>
      dsimp only [Except.map]
      rw [facts.validator.2]
      cases valid : device.validator.parser.validateUdpResponse endpoints.target endpoints.source packet.length with
      | error reason => exact ⟨written, _, rfl, facts.validator.2, .inr ⟨by simp, facts.holds, facts.indices⟩⟩
      | ok done =>
        obtain ⟨published, publishing, after, validator⟩ := publish packet made
        dsimp only
        rw [publishing]
        exact ⟨published, .injected, rfl, validator, .inl ⟨rfl, holds.output_nil none, packet, rfl, valid, after⟩⟩
  · rw [if_pos none]
    exact ⟨device, .backpressured, rfl, rfl, .inr ⟨by simp, holds, .refl device⟩⟩

theorem injectControlError_spec (holds : device.Holds queues) (original : List UInt8) (context : ControlContext)
    (kind : LocalControlKind) (nowMillis : Int) (limiter : ControlRateLimiter) :
    ∃ after limited injected, device.injectControlError original context kind nowMillis limiter = some (after, limited, injected) ∧
      after.validator = device.validator ∧
      (injected = true ∧ queues.output = [] ∧ (∃ packet,
          controlReply original context kind device.validator.mtu device.validator.mtu = .ok packet ∧
          limiter.allow nowMillis = (limited, true) ∧ after.Holds ⟨queues.ingress, [packet]⟩) ∨
        injected = false ∧ after.Holds queues ∧ after.SameIndices device ∧
          ((∃ packet, controlReply original context kind device.validator.mtu device.validator.mtu = .ok packet) →
            queues.output = [] → limiter.allow nowMillis = (limited, false))) := by
  unfold injectControlError
  by_cases none : device.outputCount = 0
  · rw [if_neg (not_not.mpr none)]
    obtain ⟨index, prepared, written, facts⟩ := written_of_produces holds (holds.output_nil none)
      fun output => writeLocalControlError_produces original context kind device.validator.mtu output
    have publish := facts.publish
    have write := facts.write
    rw [← facts.validator.1] at write
    simp only [facts.tail, facts.prepare, write, bind_eq_bind, bind_some]
    rw [facts.validator.1]
    cases made : controlReply original context kind device.validator.mtu device.validator.mtu with
    | error reason =>
      refine ⟨written, limiter, false, rfl, facts.validator.2, .inr ⟨rfl, facts.holds, facts.indices, ?_⟩⟩
      rintro ⟨packet, found⟩
      cases found
    | ok packet =>
      dsimp only [Except.map]
      cases allowed : limiter.allow nowMillis with
      | mk limited admitted =>
        cases admitted with
        | false => exact ⟨written, limited, false, rfl, facts.validator.2, .inr ⟨rfl, facts.holds, facts.indices, fun _ _ => rfl⟩⟩
        | true =>
          obtain ⟨published, publishing, after, validator⟩ := publish packet made
          dsimp only
          rw [publishing]
          exact ⟨published, limited, true, rfl, validator, .inl ⟨rfl, holds.output_nil none, packet, rfl, rfl, after⟩⟩
  · rw [if_pos none]
    refine ⟨device, limiter, false, rfl, rfl, .inr ⟨rfl, holds, .refl device, fun _ empty => ?_⟩⟩
    exact absurd (holds.outputCount.trans (congrArg List.length empty)) none

end MemoryDevice

end Ferrum.Tun
