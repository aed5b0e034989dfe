import Ferrum.Shadowsocks.TcpFlowReceiving

namespace Ferrum.Shadowsocks

open Option List Checked Crypto

theorem safe_encodeResponseStateInto (keys : TcpKeyProvider) (responseSalt : MethodTcpSalt) (timestamp : U64)
    (requestSalt : MethodTcpSalt) (firstPayload : List UInt8) (fixedPrimitive payloadPrimitive : Primitive) :
    Safe (encodeResponseStateInto keys responseSalt timestamp requestSalt firstPayload fixedPrimitive payloadPrimitive) := by
  obtain ⟨-, parts, within⟩ := responseFixed_bounds responseSalt.profile
  unfold encodeResponseStateInto
  refine (safe_failIf _ _).bind fun _ _ => (safe_failIf _ _).bind fun _ _ => (safe_failIf _ _).bind fun _ _ =>
    (safe_failIf _ _).bind fun _ profiles => (safe_okOr _ _).bind fun payloadLen _ => (safe_okOr _ _).bind fun sealer _ =>
    (safe_sealFrame _ _ _ _).bind ?_
  rintro ⟨between, sealed⟩ isSealed
  obtain ⟨_, _, _, bytes⟩ := sealFrame_zero_eq_ok isSealed
  rw [failIf_eq_ok, not_or, not_not] at profiles
  have sealedLength : sealed.length = responseFixedPlaintextLen responseSalt.profile + tagLen := by
    rw [bytes, Aead.length_sealed, responseFixedPlaintextLen, profiles.1]
    simp only [length_append, length_singleton, U64.length_toBeBytes, U16.length_toBeBytes, requestSalt.width, tagLen,
      aeadTagBytes]
    omega
  have zeros : (List.replicate (maxResponseFixedPlaintextLen + tagLen) (0 : UInt8)).length =
      maxResponseFixedPlaintextLen + tagLen := length_replicate
  have fixedLength : (copyFromSlice (List.replicate (maxResponseFixedPlaintextLen + tagLen) (0 : UInt8)) 0 sealed).length =
      maxResponseFixedPlaintextLen + tagLen := by
    rw [length_copyFromSlice (by omega), zeros]
  simp only
  rw [copyRange_of_le (by omega) (by omega)]
  refine (safe_ok _).bind fun fixed isFixed => ?_
  cases isFixed
  refine (safe_sealFrame _ _ _ _).bind ?_
  rintro ⟨last, body⟩ -
  refine (safe_failIf _ _).bind fun _ _ => ?_
  have whole : (body ++ List.replicate (responseSalt.profile.initialResponseReadBytes + body.length - body.length)
      (0 : UInt8)).length = responseSalt.profile.initialResponseReadBytes + body.length := by
    rw [length_append, length_replicate]
    omega
  simp only
  rw [copyRange_of_le (by omega) (by omega)]
  refine (safe_ok _).bind fun moved isMoved => ?_
  cases isMoved
  have movedLength : (copyFromSlice (body ++ List.replicate
      (responseSalt.profile.initialResponseReadBytes + body.length - body.length) (0 : UInt8))
      responseSalt.profile.initialResponseReadBytes body).length = _ := length_copyFromSlice (by omega)
  rw [copyRange_of_le (by rw [responseSalt.width]; omega) (by omega)]
  refine (safe_ok _).bind fun salted isSalted => ?_
  cases isSalted
  refine (safe_slicing (Nat.zero_le _) (by omega)).bind fun fixedWire isFixed => ?_
  obtain ⟨_, _, rfl⟩ := slicing_eq_ok.mp isFixed
  have saltedLength : (copyFromSlice (copyFromSlice (body ++ List.replicate
      (responseSalt.profile.initialResponseReadBytes + body.length - body.length) (0 : UInt8))
      responseSalt.profile.initialResponseReadBytes body) 0 responseSalt.bytes).length = _ :=
    length_copyFromSlice (by rw [responseSalt.width]; omega)
  rw [copyRange_of_le (by rw [length_slice]; omega) (by omega)]
  exact (safe_ok _).bind fun _ _ => safe_ok _

variable {cipher : Aead} {nonce : NonceCounter} {responseSalt requestSalt : MethodTcpSalt} {timestamp : U64}
  {firstPayload wire : List UInt8} {sealer : TcpSealer}

theorem EncodedResponse.length
    (encoded : EncodedResponse cipher nonce responseSalt timestamp requestSalt firstPayload sealer wire) :
    wire.length = responseSalt.profile.initialResponseReadBytes + firstPayload.length + tagLen := by
  obtain ⟨payloadLen, next, -, -, -, bytes⟩ := encoded.parts
  obtain ⟨-, parts, -⟩ := responseFixed_bounds responseSalt.profile
  rw [bytes, length_append, length_append, Aead.length_sealed, Aead.length_sealed, responseSalt.width, parts,
    responseFixedPlaintextLen, encoded.sameProfile]
  simp only [responseFixed, length_append, length_cons, length_nil, U64.length_toBeBytes,
    U16.length_toBeBytes, requestSalt.width, tagLen, aeadTagBytes]
  omega

theorem EncodedResponse.fits
    (encoded : EncodedResponse cipher nonce responseSalt timestamp requestSalt firstPayload sealer wire) :
    0 < wire.length ∧ wire.length ≤ maxPollProgress := by
  have bounded := encoded.bounded
  obtain ⟨fits, -, -⟩ := responseFixed_bounds responseSalt.profile
  rw [encoded.length]
  simp only [maxEncodePayloadLen, maxDecryptWireLen, tagLen, maxPollProgress] at *
  omega

namespace ServerFlow

structure Sound (flow : ServerFlow) : Prop where
  sending : flow.toSending.Sound
  rx : flow.rx.Sound flow.decrypt
  sealer : flow.tx ≠ .responsePending → flow.lifecycle.txClosed ∨ flow.responseSealer.isSome

def Left (flow : ServerFlow) : Prop := flow.lifecycle.fatalError = none → flow.Sound

variable {flow : ServerFlow}

theorem pollRead_left (alive : flow.lifecycle.fatalError = none) (sound : flow.Sound) (destinationLen : Nat)
    (answers : List ReadAnswer) : ∃ polled, flow.pollRead destinationLen answers = some polled ∧ polled.state.Left := by
  unfold pollRead
  rw [alive]
  simp only
  split
  · exact ⟨_, rfl, fun _ => sound⟩
  split
  · exact ⟨_, rfl, fun _ => sound⟩
  · rename_i ongoing
    have fresh := Lifecycle.terminal_of_fatalError alive (not_or.mp ongoing).1
    obtain ⟨polled, run, left, txClosed, -⟩ := pollDataRead_left
      ⟨flow.requestOpener, flow.decrypt, flow.rx, flow.lifecycle⟩ fresh sound.rx destinationLen answers .default
    simp only [run, map_some]
    refine ⟨_, rfl, fun alive => ⟨sound.sending, left alive, fun later => ?_⟩⟩
    rw [txClosed]
    exact sound.sealer later

/-- What a write of a server leaves: it accepts nothing, it stages the response, or it stages a
chunk behind it. -/
inductive Wrote (flow : ServerFlow) (source : List UInt8) (environment : WriteEnvironment) :
    Option TcpSealer → List UInt8 → Nat → Prop
  | nothing : Wrote flow source environment flow.responseSealer [] 0
  | response {responseSalt : MethodTcpSalt} {timestamp : U64} {chunk wire : List UInt8} {sealer : TcpSealer}
      (tx : flow.tx = .responsePending) (front : chunk <+: source)
      (encoded : encodeResponseStateInto flow.keys responseSalt timestamp flow.requestSalt chunk environment.firstPrimitive
        environment.secondPrimitive = .ok (sealer, wire)) : Wrote flow source environment (some sealer) wire chunk.length
  | chunk {before after : TcpSealer} {chunk wire : List UInt8} (tx : flow.tx ≠ .responsePending)
      (sealer : flow.responseSealer = some before) (front : chunk <+: source) (nonempty : chunk ≠ [])
      (encoded : sealDataChunkInto before chunk environment.firstPrimitive environment.secondPrimitive = .ok (after, wire)) :
      Wrote flow source environment (some after) wire chunk.length

/-- What a write leaves of the whole flow. -/
def Written (flow : ServerFlow) (source : List UInt8) (environment : WriteEnvironment) (after : ServerFlow)
    (calls : List TransportCall) (poll : Poll Nat) : Prop :=
  ∃ sending sealer added, after = { flow with toSending := sending, responseSealer := sealer } ∧
    Sending.Advanced flow.toSending sending calls added ∧ Wrote flow source environment sealer added poll.accepted

section staging

variable {now : Sending} {calls : List TransportCall} (fresh : flow.lifecycle.terminal = none) (sameTx : now.tx = flow.tx)
  (sameLifecycle : now.lifecycle = flow.lifecycle) (unclosed : ¬flow.lifecycle.txClosed)
  (whole : sentBytes calls = flow.pending) (silent : receivedBytes calls = [])
include fresh sameTx sameLifecycle unclosed whole silent

omit unclosed in
theorem detected_written (source : List UInt8) (environment : WriteEnvironment) (reason : DetectionReason) :
    ∃ polled, (now.detected reason).map (sent { flow with toSending := now }) = some polled ∧
      flow.Written source environment polled.state (calls ++ polled.calls) polled.poll := by
  obtain ⟨error, installed, recorded⟩ := Lifecycle.install_of_none (sameLifecycle.symm ▸ fresh : now.lifecycle.terminal = none)
    (.detection reason) nofun
  unfold Sending.detected Lifecycle.installDetection
  rw [installed]
  refine ⟨_, rfl, _, _, [], rfl, ⟨?_, ?_, ?_, ?_, ?_, ?_, fun _ => rfl, fun later => ⟨sameTx ▸ later, rfl⟩, ?_⟩, .nothing⟩
  · intro later
    exact .inl (sameTx ▸ later)
  · intro closed
    simpa only [sent, sameLifecycle] using closed
  · simp only [sent, sentBytes_append, sentBytes_detectionCalls, append_nil, whole, prefix_rfl]
  · simp only [sent, receivedBytes_append, receivedBytes_detectionCalls, append_nil]
    exact silent
  · intro alive
    simp only at alive
    rw [recorded] at alive
    cases alive
  · intro closed
    exact .inl (sameLifecycle ▸ closed)
  · intro alive
    simp only at alive
    rw [recorded] at alive
    cases alive

variable {source : List UInt8}

theorem stageResponse_written (pending : flow.tx = .responsePending) (environment : WriteEnvironment) :
    ∃ polled, stageResponse { flow with toSending := now } (source.take maxEncodePayloadLen) environment = some polled ∧
      flow.Written source environment polled.state (calls ++ polled.calls) polled.poll := by
  unfold stageResponse
  simp only
  split
  · exact detected_written fresh sameTx sameLifecycle whole silent source environment _
  split
  · exact detected_written fresh sameTx sameLifecycle whole silent source environment _
  · rename_i responseSalt _ _ timestamp _
    have safe := safe_encodeResponseStateInto flow.keys responseSalt timestamp flow.requestSalt
      (source.take maxEncodePayloadLen) environment.firstPrimitive environment.secondPrimitive
    split
    · rename_i panics
      exact absurd panics safe
    · exact detected_written fresh sameTx sameLifecycle whole silent source environment _
    · rename_i sealer wire encoded
      obtain ⟨-, before, -, response⟩ := encodeResponseStateInto_eq_ok encoded
      obtain ⟨positive, fits⟩ := response.fits
      refine ⟨_, rfl, _, _, wire, rfl, ⟨?_, ?_, ?_, ?_, ?_, ?_, ?_, nofun, fun _ => .inl sameLifecycle⟩,
        .response pending (List.take_prefix _ _) encoded⟩
      · exact fun _ => .inr (.inr (ne_nil_of_length_pos positive))
      · intro closed
        simpa only [sameLifecycle] using closed
      · simp only [append_nil, whole, prefix_rfl]
      · rw [append_nil, silent]
      · refine fun _ => ⟨?_, ?_⟩
        · rintro current ⟨⟩
          exact ⟨Nat.zero_le _, fun _ => ⟨rfl, fits⟩⟩
        · rw [append_nil, whole]
          rfl
      · intro closed
        exact .inl (sameLifecycle ▸ closed)
      · intro closed
        refine absurd ?_ unclosed
        rcases closed with closed | closed
        · exact closed
        · exact sameLifecycle ▸ closed

theorem stageWrite_written (sound : flow.Sound) (nonempty : source ≠ []) (environment : WriteEnvironment) :
    ∃ polled, stageWrite { flow with toSending := now } (source.take maxEncodePayloadLen) environment = some polled ∧
      flow.Written source environment polled.state (calls ++ polled.calls) polled.poll := by
  unfold stageWrite
  simp only
  by_cases pending : flow.tx = .responsePending
  · rw [if_pos (sameTx.trans pending)]
    exact stageResponse_written fresh sameTx sameLifecycle unclosed whole silent pending environment
  · rw [if_neg (sameTx ▸ pending)]
    obtain ⟨sealer, isSealer⟩ := isSome_iff_exists.mp ((sound.sealer pending).resolve_left unclosed)
    rw [isSealer]
    simp only
    obtain ⟨polled, added, staged, advanced, wrote⟩ := Sending.stageChunk_advanced (sameLifecycle ▸ fresh) sameTx sameLifecycle
      unclosed whole silent sealer now.tx (sameTx ▸ pending) nonempty environment.firstPrimitive environment.secondPrimitive
    refine ⟨_, by rw [staged]; rfl, polled.state.2, some polled.state.1, added, rfl, advanced, ?_⟩
    rcases wrote with ⟨nothing, rfl, same⟩ | ⟨chunk, front, chunkNonempty, accepted, encoded⟩
    · rw [same, ← isSealer, nothing]
      exact .nothing
    · rw [accepted]
      exact .chunk pending isSealer front chunkNonempty encoded

end staging

theorem pollWrite_written (alive : flow.lifecycle.fatalError = none) (sound : flow.Sound) (source : List UInt8)
    (answers : List WriteAnswer) (environment : WriteEnvironment) :
    ∃ polled, flow.pollWrite source answers environment = some polled ∧
      flow.Written source environment polled.state polled.calls polled.poll := by
  have unchanged (accepted : Poll Nat) (zero : accepted.accepted = 0) : flow.Written source environment flow [] accepted :=
    ⟨flow.toSending, flow.responseSealer, [], rfl, Sending.advanced_refl sound.sending, zero ▸ .nothing⟩
  unfold pollWrite
  rw [alive]
  simp only
  by_cases empty : source = []
  · rw [if_pos empty]
    exact ⟨_, rfl, unchanged _ rfl⟩
  rw [if_neg empty]
  by_cases normal : flow.lifecycle.terminal = some .normal
  · rw [if_pos normal]
    exact ⟨_, rfl, unchanged _ rfl⟩
  rw [if_neg normal]
  have fresh := Lifecycle.terminal_of_fatalError alive normal
  by_cases closed : flow.lifecycle.txClosed
  · rw [if_pos closed]
    obtain ⟨error, after, -, -, run, advanced⟩ := Sending.failed_advanced Nat [] [] fresh (.transport .write) nofun
      rfl rfl nil_prefix rfl
    exact ⟨_, by rw [Lifecycle.installTransport, run]; rfl, _, _, [], rfl, advanced, .nothing⟩
  rw [if_neg closed]
  refine Sending.drainThen_left fresh sound.sending answers _ _ (flow.Written source environment) ?_ ?_
  · intro now calls poll advanced refused
    exact ⟨now, flow.responseSealer, [], rfl, advanced, Sending.accepted_of_ne refused ▸ .nothing⟩
  · intro now calls tx lifecycle _ whole silent
    exact stageWrite_written fresh tx lifecycle closed whole silent sound empty environment

theorem pollWrite_left (alive : flow.lifecycle.fatalError = none) (sound : flow.Sound) (source : List UInt8)
    (answers : List WriteAnswer) (environment : WriteEnvironment) :
    ∃ polled, flow.pollWrite source answers environment = some polled ∧ polled.state.Left := by
  obtain ⟨polled, run, sending, sealer, added, state, advanced, wrote⟩ := pollWrite_written alive sound source answers environment
  refine ⟨polled, run, ?_⟩
  rw [state]
  intro alive
  generalize polled.poll.accepted = accepted at wrote
  refine ⟨(advanced.alive alive).1, sound.rx, fun later => ?_⟩
  cases wrote with
  | nothing =>
    rcases advanced.tx later with before | closed | nonempty
    · exact (sound.sealer before).imp advanced.txClosed id
    · exact .inl closed
    · exact absurd rfl nonempty
  | response => exact .inr rfl
  | chunk => exact .inr rfl

end ServerFlow

/-- What a finished handshake hands to the flow of either side, with the two scratches. -/
inductive FlowStart
  | client (keys : TcpKeyProvider) (requestSalt : MethodTcpSalt) (requestSealer : TcpSealer) (encrypt decrypt : List UInt8)
  | server (keys : TcpKeyProvider) (requestSalt : MethodTcpSalt) (requestOpener : TcpOpener) (encrypt decrypt : List UInt8)

/-- The error that a call returns. -/
def FlowResult.error : FlowResult → Option ShadowsocksError
  | .read (.ready (.error error)) | .write (.ready (.error error)) => some error
  | .flush (.ready (.error error)) | .shutdown (.ready (.error error)) => some error
  | _ => none

namespace Flow

def fromHandshake : FlowStart → Flow
  | .client keys requestSalt requestSealer encrypt decrypt =>
    .client (.fromHandshake keys requestSalt requestSealer encrypt decrypt)
  | .server keys requestSalt requestOpener encrypt decrypt =>
    .server (.fromHandshake keys requestSalt requestOpener encrypt decrypt)

/-- No placeholder stands in the receive state. -/
def Unpoisoned : Flow → Prop
  | client flow => flow.rx ≠ .poison ∧ flow.rx ≠ .data .poison
  | server flow => flow.rx ≠ .poison

def Sound : Flow → Prop
  | client flow => flow.Sound
  | server flow => flow.Sound

def Left (flow : Flow) : Prop := flow.lifecycle.fatalError = none → flow.Sound

theorem sound_fromHandshake (handshake : FlowStart) : (fromHandshake handshake).Sound := by
  cases handshake with
  | client keys requestSalt requestSealer encrypt decrypt => exact ⟨nofun, trivial⟩
  | server keys requestSalt requestOpener encrypt decrypt => exact ⟨nofun, .inl rfl, fun later => absurd rfl later⟩

variable {flow : Flow}

theorem Sound.unpoisoned (sound : flow.Sound) : flow.Unpoisoned := by
  cases flow with
  | client flow =>
    have rx : flow.rx.Sound flow.responseOpener flow.decrypt := ClientFlow.Sound.rx sound
    constructor
    · intro poison
      rw [poison] at rx
      cases rx
    · intro poison
      rw [poison] at rx
      cases rx.2
  | server flow =>
    intro poison
    have rx : flow.rx.Sound flow.decrypt := ServerFlow.Sound.rx sound
    rw [poison] at rx
    cases rx

theorem left_withSending (sound : flow.Sound) {sending : Sending} {calls : List TransportCall}
    (advanced : Sending.Advanced flow.sending sending calls []) : (flow.withSending sending).Left := by
  cases flow with
  | client flow =>
    have rx := ClientFlow.Sound.rx sound
    exact fun alive => ⟨(advanced.alive alive).1, rx⟩
  | server flow =>
    intro alive
    have rx := ServerFlow.Sound.rx sound
    refine ⟨(advanced.alive alive).1, rx, fun later => ?_⟩
    rcases advanced.tx later with before | closed | nonempty
    · exact (ServerFlow.Sound.sealer sound before).imp advanced.txClosed id
    · exact .inl closed
    · exact absurd rfl nonempty

theorem sending_sound (sound : flow.Sound) : flow.sending.Sound := by
  cases flow with
  | client flow => exact ClientFlow.Sound.sending sound
  | server flow => exact ServerFlow.Sound.sending sound

theorem call_left (alive : flow.lifecycle.fatalError = none) (sound : flow.Sound) (call : FlowCall) :
    ∃ next outcome, flow.call call = some (next, outcome) ∧ next.Left := by
  cases call with
  | read clock destinationLen answers =>
    cases flow with
    | client flow =>
      obtain ⟨polled, run, left⟩ := ClientFlow.pollRead_left alive sound clock destinationLen answers
      exact ⟨.client polled.state, ⟨.read polled.poll, polled.calls⟩, by simp only [Flow.call, pollRead, run, map_some], left⟩
    | server flow =>
      obtain ⟨polled, run, left⟩ := ServerFlow.pollRead_left alive sound destinationLen answers
      exact ⟨.server polled.state, ⟨.read polled.poll, polled.calls⟩, by simp only [Flow.call, pollRead, run, map_some], left⟩
  | write source answers environment =>
    cases flow with
    | client flow =>
      obtain ⟨polled, run, left⟩ := ClientFlow.pollWrite_left alive sound source answers environment.firstPrimitive
        environment.secondPrimitive
      exact ⟨.client polled.state, ⟨.write polled.poll, polled.calls⟩, by simp only [Flow.call, pollWrite, run, map_some], left⟩
    | server flow =>
      obtain ⟨polled, run, left⟩ := ServerFlow.pollWrite_left alive sound source answers environment
      exact ⟨.server polled.state, ⟨.write polled.poll, polled.calls⟩, by simp only [Flow.call, pollWrite, run, map_some], left⟩
  | flush answers close =>
    obtain ⟨polled, run, advanced⟩ := Sending.pollFlush_advanced alive (sending_sound sound) answers close
    exact ⟨flow.withSending polled.state, ⟨.flush polled.poll, polled.calls⟩, by simp only [Flow.call, run, map_some],
      left_withSending sound advanced⟩
  | shutdown answers close =>
    obtain ⟨polled, run, advanced, -⟩ := Sending.pollShutdown_advanced alive (sending_sound sound) answers close
    exact ⟨flow.withSending polled.state, ⟨.shutdown polled.poll, polled.calls⟩, by simp only [Flow.call, run, map_some],
      left_withSending sound advanced⟩

variable {error : ShadowsocksError}

theorem call_latched (recorded : flow.lifecycle.fatalError = some error)
    (call : FlowCall) : ∃ result, flow.call call = some (flow, ⟨result, []⟩) ∧ result.error = some error := by
  cases flow with
  | client flow =>
    have fatal : flow.lifecycle.fatalError = some error := recorded
    cases call with
    | read clock destinationLen answers =>
      exact ⟨.read (.ready (.error error)), by simp only [Flow.call, pollRead, ClientFlow.pollRead, fatal, map_some], rfl⟩
    | write source answers environment =>
      refine ⟨.write (.ready (.error error)), ?_, rfl⟩
      simp only [Flow.call, pollWrite, ClientFlow.pollWrite, pollWriteOpen, fatal, map_some]
    | flush answers close =>
      refine ⟨.flush (.ready (.error error)), ?_, rfl⟩
      simp only [Flow.call, pollFlush, sending, fatal, map_some, withSending]
    | shutdown answers close =>
      refine ⟨.shutdown (.ready (.error error)), ?_, rfl⟩
      simp only [Flow.call, pollShutdown, sending, fatal, map_some, withSending]
  | server flow =>
    have fatal : flow.lifecycle.fatalError = some error := recorded
    cases call with
    | read clock destinationLen answers =>
      exact ⟨.read (.ready (.error error)), by simp only [Flow.call, pollRead, ServerFlow.pollRead, fatal, map_some], rfl⟩
    | write source answers environment =>
      refine ⟨.write (.ready (.error error)), ?_, rfl⟩
      simp only [Flow.call, pollWrite, ServerFlow.pollWrite, fatal, map_some]
    | flush answers close =>
      refine ⟨.flush (.ready (.error error)), ?_, rfl⟩
      simp only [Flow.call, pollFlush, sending, fatal, map_some, withSending]
    | shutdown answers close =>
      refine ⟨.shutdown (.ready (.error error)), ?_, rfl⟩
      simp only [Flow.call, pollShutdown, sending, fatal, map_some, withSending]

theorem call_left_always (left : flow.Left) (call : FlowCall) :
    ∃ next outcome, flow.call call = some (next, outcome) ∧ next.Left := by
  cases fatal : flow.lifecycle.fatalError with
  | none => exact call_left fatal (left fatal) call
  | some error =>
    obtain ⟨result, run, -⟩ := call_latched fatal call
    exact ⟨flow, ⟨result, []⟩, run, left⟩

theorem run_latched (recorded : flow.lifecycle.fatalError = some error)
    (calls : List FlowCall) : ∃ outcomes, flow.run calls = some (flow, outcomes) ∧
      ∀ outcome ∈ outcomes, outcome.result.error = some error ∧ outcome.calls = [] := by
  induction calls with
  | nil => exact ⟨[], rfl, nofun⟩
  | cons call rest ih =>
    obtain ⟨outcomes, later, all⟩ := ih
    obtain ⟨result, run, shown⟩ := call_latched recorded call
    refine ⟨⟨result, []⟩ :: outcomes, by simp only [Flow.run, run, later, map_some], ?_⟩
    intro outcome member
    rcases mem_cons.mp member with rfl | member
    · exact ⟨shown, rfl⟩
    · exact all outcome member

theorem run_left (left : flow.Left) (calls : List FlowCall) :
    ∃ final outcomes, flow.run calls = some (final, outcomes) ∧ final.Left := by
  induction calls generalizing flow with
  | nil => exact ⟨flow, [], rfl, left⟩
  | cons call rest ih =>
    obtain ⟨next, outcome, run, nextLeft⟩ := call_left_always left call
    obtain ⟨final, outcomes, later, finalLeft⟩ := ih nextLeft
    exact ⟨final, outcome :: outcomes, by simp only [Flow.run, run, later, map_some], finalLeft⟩

/-- For every flow, every sequence of calls and every transport: no call panics, the receive state
is no placeholder while no error is recorded, and a recorded error stays: every later call
returns it, without a call on the transport. -/
theorem terminal_latched (handshake : FlowStart) (earlier later : List FlowCall) :
    ∃ between final before after, (fromHandshake handshake).run earlier = some (between, before) ∧
      between.run later = some (final, after) ∧ (between.lifecycle.fatalError = none → between.Unpoisoned) ∧
      ∀ error, between.lifecycle.fatalError = some error → final = between ∧
        ∀ outcome ∈ after, outcome.result.error = some error ∧ outcome.calls = [] := by
  obtain ⟨between, before, first, left⟩ := run_left (fun _ => sound_fromHandshake handshake) earlier
  obtain ⟨final, after, second, -⟩ := run_left left later
  refine ⟨between, final, before, after, first, second, fun alive => (left alive).unpoisoned, fun error recorded => ?_⟩
  obtain ⟨outcomes, latched, all⟩ := run_latched recorded later
  rw [second] at latched
  cases latched
  exact ⟨rfl, all⟩

end Flow

end Ferrum.Shadowsocks
