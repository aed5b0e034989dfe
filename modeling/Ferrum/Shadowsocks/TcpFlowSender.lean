import Ferrum.Shadowsocks.TcpFlowStream

namespace Ferrum.Shadowsocks

open Option List Checked Crypto

theorem Lifecycle.install_eq_some {lifecycle after : Lifecycle} (fresh : lifecycle.terminal = none) {terminal : FlowTerminal}
    (fatal : terminal ≠ .normal) {error : ShadowsocksError} (installed : lifecycle.install terminal = some (after, error)) :
    after.txClosed = lifecycle.txClosed ∧ after.Sound := by
  obtain ⟨shown, run, recorded⟩ := install_of_none fresh terminal fatal
  rw [run] at installed
  cases installed
  exact ⟨rfl, sound_of_fatalError recorded⟩

namespace ClientFlow

/-- What a read keeps of the sending side. -/
structure Kept (before after : ClientFlow) (calls : List TransportCall) : Prop where
  sending : after.toSending = { before.toSending with lifecycle := after.lifecycle }
  sealer : after.requestSealer = before.requestSealer
  txClosed : after.lifecycle.txClosed = before.lifecycle.txClosed
  lifecycle : before.lifecycle.Sound → after.lifecycle.Sound
  silent : sentBytes calls = []

variable {before : ClientFlow} (flow : ClientFlow) {polled : Polled ClientFlow (List UInt8)}

theorem kept_refl : flow.Kept flow [] := ⟨rfl, rfl, rfl, id, rfl⟩

section kept

variable (same : flow.toSending = before.toSending) (sealer : flow.requestSealer = before.requestSealer)
include same sealer

theorem kept_of_eq : before.Kept flow [] := by
  have lifecycle : flow.lifecycle = before.lifecycle := congrArg Sending.lifecycle same
  refine ⟨?_, sealer, by rw [lifecycle], fun sound => lifecycle ▸ sound, rfl⟩
  rw [same]

section

variable (fresh : before.lifecycle.terminal = none)
include fresh

theorem detected_kept {reason : DetectionReason}
    (run : flow.detected reason = some polled) : before.Kept polled.state polled.calls := by
  have lifecycle : flow.lifecycle = before.lifecycle := congrArg Sending.lifecycle same
  obtain ⟨⟨after, error⟩, installed, rfl⟩ := map_eq_some_iff.mp run
  have fatal : FlowTerminal.detection reason ≠ .normal := nofun
  obtain ⟨txClosed, sound⟩ := Lifecycle.install_eq_some (lifecycle ▸ fresh) fatal installed
  refine ⟨?_, sealer, txClosed.trans (congrArg Lifecycle.txClosed lifecycle), fun _ => sound, sentBytes_detectionCalls _⟩
  simp only [← same]

variable {answer : ReadAnswer} {wireLen destinationLen : Nat}

theorem responseFixedAnswered_kept {clock : Option U64}
    (run : flow.responseFixedAnswered clock answer = some polled) : before.Kept polled.state polled.calls := by
  unfold responseFixedAnswered at run
  cases answer with
  | pending =>
    cases run
    exact kept_of_eq _ same sealer
  | failed => exact detected_kept _ same sealer fresh run
  | ready count content =>
    simp only at run
    split at run
    · exact detected_kept _ same sealer fresh run
    split at run
    · cases run
    · exact detected_kept _ same sealer fresh run
    · cases run
      exact kept_of_eq _ same sealer

theorem openResponsePayload_kept
    (run : flow.openResponsePayload wireLen destinationLen = some polled) : before.Kept polled.state polled.calls := by
  unfold openResponsePayload at run
  split at run
  · cases run
  simp only at run
  split at run
  · exact detected_kept _ same sealer fresh run
  · obtain ⟨⟨bytes, position⟩, copied, after⟩ := map_eq_some_iff.mp run
    simp only at after
    split at after
    · cases after
      exact kept_of_eq _ same sealer
    · cases after
      exact kept_of_eq _ same sealer

theorem responsePayloadAnswered_kept {filled : Nat} (run : flow.responsePayloadAnswered wireLen filled destinationLen answer = some polled) :
    before.Kept polled.state polled.calls := by
  unfold responsePayloadAnswered at run
  cases answer with
  | pending =>
    cases run
    exact kept_of_eq _ same sealer
  | failed => exact detected_kept _ same sealer fresh run
  | ready count content =>
    simp only at run
    split at run
    · exact detected_kept _ same sealer fresh run
    split at run
    · exact detected_kept { flow with decrypt := readInto flow.decrypt filled wireLen content } same sealer fresh run
    split at run
    · cases run
      exact kept_of_eq _ same sealer
    · exact openResponsePayload_kept { flow with decrypt := readInto flow.decrypt filled wireLen content } same sealer
        fresh run

end

end kept

variable {flow}

theorem asks_kept {filled readEnd : Nat} {answered : ReadAnswer → Option (Polled ClientFlow (List UInt8))} {answer : ReadAnswer}
    (inner : ∀ polled, answered answer = some polled → before.Kept polled.state polled.calls)
    (run : flow.asks filled readEnd answered answer = some polled) : before.Kept polled.state polled.calls := by
  unfold asks at run
  split at run
  · obtain ⟨answered, isAnswered, rfl⟩ := map_eq_some_iff.mp run
    have kept := inner answered isAnswered
    exact ⟨kept.sending, kept.sealer, kept.txClosed, kept.lifecycle, kept.silent⟩
  · cases run

theorem pollRead_kept (alive : flow.lifecycle.fatalError = none) (sound : flow.Sound) {clock : Option U64}
    {destinationLen : Nat} {answers : List ReadAnswer} (run : flow.pollRead clock destinationLen answers = some polled) :
    flow.Kept polled.state polled.calls := by
  unfold pollRead at run
  rw [alive] at run
  simp only at run
  split at run
  · cases run
    exact kept_refl flow
  split at run
  · cases run
    exact kept_refl flow
  rename_i ongoing
  have fresh := Lifecycle.terminal_of_fatalError alive (not_or.mp ongoing).1
  have rx := sound.rx
  split at run
  · exact asks_kept (fun polled inner =>
      responseFixedAnswered_kept { flow with rx := .poison, decrypt := resetDecrypt } rfl rfl fresh inner) run
  · exact asks_kept (fun polled inner => responsePayloadAnswered_kept { flow with rx := .poison } rfl rfl fresh inner)
      run
  · rename_i state isState
    rw [isState] at rx
    obtain ⟨opener, isOpener⟩ := isSome_iff_exists.mp rx.1
    obtain ⟨read, done, -, txClosed, lifecycle, silent⟩ := pollDataRead_left
      ⟨opener, flow.decrypt, state, flow.lifecycle⟩ fresh rx.2 destinationLen answers .default
    unfold readData at run
    simp only [isOpener, done, map_some, some.injEq] at run
    cases run
    exact ⟨rfl, rfl, txClosed, lifecycle, silent⟩
  · cases run

end ClientFlow

namespace ServerFlow

/-- What a read keeps of the sending side. -/
structure Kept (before after : ServerFlow) (calls : List TransportCall) : Prop where
  sending : after.toSending = { before.toSending with lifecycle := after.lifecycle }
  sealer : after.responseSealer = before.responseSealer
  keys : after.keys = before.keys
  requestSalt : after.requestSalt = before.requestSalt
  txClosed : after.lifecycle.txClosed = before.lifecycle.txClosed
  lifecycle : before.lifecycle.Sound → after.lifecycle.Sound
  silent : sentBytes calls = []

theorem kept_refl (flow : ServerFlow) : flow.Kept flow [] := ⟨rfl, rfl, rfl, rfl, rfl, id, rfl⟩

theorem pollRead_kept {flow : ServerFlow} {polled : Polled ServerFlow (List UInt8)} (alive : flow.lifecycle.fatalError = none)
    (sound : flow.Sound) {destinationLen : Nat} {answers : List ReadAnswer}
    (run : flow.pollRead destinationLen answers = some polled) : flow.Kept polled.state polled.calls := by
  unfold pollRead at run
  rw [alive] at run
  simp only at run
  split at run
  · cases run
    exact kept_refl flow
  split at run
  · cases run
    exact kept_refl flow
  rename_i ongoing
  have fresh := Lifecycle.terminal_of_fatalError alive (not_or.mp ongoing).1
  obtain ⟨read, done, -, txClosed, lifecycle, silent⟩ := pollDataRead_left
    ⟨flow.requestOpener, flow.decrypt, flow.rx, flow.lifecycle⟩ fresh sound.rx destinationLen answers .default
  simp only [done, map_some, some.injEq] at run
  cases run
  exact ⟨rfl, rfl, rfl, rfl, txClosed, lifecycle, silent⟩

end ServerFlow

/-- Which wire stands for the chunks that a sending side accepted, and the sealer behind it. -/
abbrev WireOf := List (List UInt8) → List UInt8 → Option TcpSealer → Prop

/-- The wire of a client: frames from the sealer of its request on. -/
def requestWire (sealer : TcpSealer) : WireOf := fun chunks wire after =>
  ∃ last, Frames sealer.cipher sealer.nonce chunks wire last ∧ after = some ⟨sealer.cipher, last⟩

/-- The wire of a server: nothing, or a response with the first chunk and frames behind it. -/
inductive ResponseWire (primitives : TcpPrimitives) (psk : MethodPskBytes) (requestSalt : MethodTcpSalt) : WireOf
  | nothing : ResponseWire primitives psk requestSalt [] [] none
  | response {responseSalt : MethodTcpSalt} {timestamp : U64} {first wire wires : List UInt8} {chunks : List (List UInt8)}
      {sealer : TcpSealer} {last : NonceCounter} (profile : psk.profile = responseSalt.profile)
      (encoded : EncodedResponse (primitives.derive psk responseSalt.bytes) .new responseSalt timestamp requestSalt first sealer
        wire)
      (frames : Frames (primitives.derive psk responseSalt.bytes) sealer.nonce chunks wires last) :
      ResponseWire primitives psk requestSalt (first :: chunks) (wire ++ wires)
        (some ⟨primitives.derive psk responseSalt.bytes, last⟩)

/-- What a sending side has accepted, and what of it the transport has taken. -/
structure Sends (wireOf : WireOf) (sending : Sending) (sealer : Option TcpSealer) (accepted sent : List UInt8) : Prop where
  stream : ∃ chunks wire behind, wireOf chunks wire behind ∧ accepted = chunks.flatten ∧ sent <+: wire ∧
    (sending.lifecycle.fatalError = none → sent ++ sending.pending = wire ∧ behind = sealer) ∧
    (sending.lifecycle.txClosed → sent = wire)
  lifecycle : sending.lifecycle.Sound

namespace Sends

variable {wireOf : WireOf} {before after : Sending} {sealer afterSealer : Option TcpSealer} {accepted sent : List UInt8}

section

variable (sends : Sends wireOf before sealer accepted sent)
include sends

section

variable (alive : before.lifecycle.fatalError = none)
include alive

variable {calls : List TransportCall}

theorem advance {added more : List UInt8} (advanced : Sending.Advanced before after calls added)
    (extends_ : ∀ chunks wire, wireOf chunks wire sealer →
      ∃ others, wireOf (chunks ++ others) (wire ++ added) afterSealer ∧ more = others.flatten) :
    Sends wireOf after afterSealer (accepted ++ more) (sent ++ sentBytes calls) := by
  obtain ⟨chunks, wire, behind, isWire, rfl, front, whole, closed⟩ := sends.stream
  obtain ⟨staged, rfl⟩ := whole alive
  obtain ⟨others, longer, rfl⟩ := extends_ chunks wire isWire
  refine ⟨⟨chunks ++ others, wire ++ added, afterSealer, longer, flatten_append.symm, ?_, ?_, ?_⟩, ?_⟩
  · have taken : sent ++ sentBytes calls <+: wire := by
      rw [← staged]
      exact (prefix_append_right_inj _).mpr advanced.sent
    exact taken.trans (prefix_append _ _)
  · intro stillAlive
    refine ⟨?_, rfl⟩
    rw [append_assoc, (advanced.alive stillAlive).2, ← append_assoc, staged]
  · intro afterClosed
    rw [advanced.closed (.inr afterClosed), append_nil]
    rcases advanced.whole afterClosed with beforeClosed | all
    · have sentAll := closed beforeClosed
      have nothing : before.pending = [] := by
        rw [← sentAll] at staged
        exact append_right_eq_self.mp staged
      have taken := advanced.sent
      rw [nothing, prefix_nil] at taken
      rw [taken, append_nil, sentAll]
    · rw [all, staged]
  · cases fatal : after.lifecycle.fatalError with
    | some error => exact Lifecycle.sound_of_fatalError fatal
    | none =>
      rcases advanced.lifecycle fatal with same | closedTx
      · exact same ▸ sends.lifecycle
      · exact closedTx ▸ sends.lifecycle.closeTx

theorem advance_nothing (advanced : Sending.Advanced before after calls []) :
    Sends wireOf after sealer accepted (sent ++ sentBytes calls) := by
  have sends := sends.advance alive advanced fun chunks wire isWire =>
    ⟨[], by rw [append_nil, append_nil]; exact isWire, (rfl : [] = _)⟩
  rwa [append_nil] at sends

theorem keep (same : after = { before with lifecycle := after.lifecycle })
    (txClosed : after.lifecycle.txClosed = before.lifecycle.txClosed)
    (lifecycle : before.lifecycle.Sound → after.lifecycle.Sound) : Sends wireOf after sealer accepted sent := by
  obtain ⟨chunks, wire, behind, isWire, plain, front, whole, closed⟩ := sends.stream
  have pending : after.pending = before.pending := by
    rw [same]
    rfl
  refine ⟨⟨chunks, wire, behind, isWire, plain, front, fun _ => ?_, fun afterClosed => closed (txClosed ▸ afterClosed)⟩,
    lifecycle sends.lifecycle⟩
  rw [pending]
  exact whole alive

end

end

end Sends

theorem requestWire_chunk {start before after : TcpSealer} {chunks : List (List UInt8)} {wire chunk added : List UInt8}
    {lengthPrimitive payloadPrimitive : Primitive} (isWire : requestWire start chunks wire (some before))
    (encoded : sealDataChunkInto before chunk lengthPrimitive payloadPrimitive = .ok (after, added)) :
    requestWire start (chunks ++ [chunk]) (wire ++ added) (some after) := by
  obtain ⟨last, frames, same⟩ := isWire
  cases same
  have isChunk := sealDataChunkInto_eq_ok encoded
  refine ⟨after.nonce, frames.snoc isChunk, ?_⟩
  rw [← isChunk.sameCipher]

section response

variable {primitives : TcpPrimitives} {psk : MethodPskBytes} {requestSalt : MethodTcpSalt}

variable {chunks : List (List UInt8)} {wire chunk added : List UInt8} {payloadPrimitive : Primitive}

theorem responseWire_chunk {before after : TcpSealer}
    {lengthPrimitive : Primitive} (isWire : ResponseWire primitives psk requestSalt chunks wire (some before))
    (encoded : sealDataChunkInto before chunk lengthPrimitive payloadPrimitive = .ok (after, added)) :
    ResponseWire primitives psk requestSalt (chunks ++ [chunk]) (wire ++ added) (some after) := by
  cases isWire with
  | @response responseSalt timestamp first wire wires chunks sealer last profile response frames =>
    have isChunk := sealDataChunkInto_eq_ok encoded
    obtain ⟨cipher, nonce⟩ := after
    obtain rfl : cipher = primitives.derive psk responseSalt.bytes := isChunk.sameCipher
    rw [cons_append, append_assoc]
    exact .response profile response (frames.snoc isChunk)

theorem responseWire_first {sealer : TcpSealer} {responseSalt : MethodTcpSalt} {timestamp : U64} {fixedPrimitive : Primitive}
    (isWire : ResponseWire primitives psk requestSalt chunks wire none)
    (encoded : encodeResponseStateInto (methodKeyAdapter primitives psk) responseSalt timestamp requestSalt chunk fixedPrimitive
      payloadPrimitive = .ok (sealer, added)) :
    ResponseWire primitives psk requestSalt (chunks ++ [chunk]) (wire ++ added) (some sealer) := by
  cases isWire with
  | nothing =>
    obtain ⟨-, fresh, available, response⟩ := encodeResponseStateInto_eq_ok encoded
    obtain ⟨profile, rfl⟩ := tcpSealer_eq_some available
    obtain ⟨cipher, nonce⟩ := sealer
    obtain rfl : cipher = primitives.derive psk responseSalt.bytes := response.sameCipher
    have wire := ResponseWire.response profile response (.nil nonce)
    rw [append_nil] at wire
    exact wire

end response

def FlowOutcome.accepted (outcome : FlowOutcome) : FlowCall → List UInt8
  | .write source _ _ =>
    match outcome.result with
    | .write poll => source.take poll.accepted
    | _ => []
  | _ => []

def acceptedBytes (calls : List FlowCall) (outcomes : List FlowOutcome) : List UInt8 :=
  (List.zipWith (fun call outcome => outcome.accepted call) calls outcomes).flatten

def wireSent (outcomes : List FlowOutcome) : List UInt8 := outcomes.flatMap fun outcome => sentBytes outcome.calls

namespace Flow

/-- What a flow has sent, as the sending side of its direction. -/
def Sends (wireOf : WireOf) (accepted sent : List UInt8) : Flow → Prop
  | client flow => Shadowsocks.Sends wireOf flow.toSending (some flow.requestSealer) accepted sent ∧
    ∃ start, wireOf = requestWire start
  | server flow => Shadowsocks.Sends wireOf flow.toSending flow.responseSealer accepted sent ∧
    (flow.tx = .responsePending → flow.responseSealer = none) ∧ ∃ primitives psk,
      flow.keys = methodKeyAdapter primitives psk ∧ wireOf = ResponseWire primitives psk flow.requestSalt

variable {flow next : Flow} {wireOf : WireOf} {accepted sent : List UInt8} {outcome : FlowOutcome}

section

variable (alive : flow.lifecycle.fatalError = none)
include alive

theorem read_sends (sound : flow.Sound) (sends : flow.Sends wireOf accepted sent)
    {clock : Option U64} {destinationLen : Nat} {answers : List ReadAnswer}
    (run : flow.call (.read clock destinationLen answers) = some (next, outcome)) :
    next.Sends wireOf accepted (sent ++ sentBytes outcome.calls) := by
  obtain ⟨polled, inner, made⟩ := map_eq_some_iff.mp run
  cases made
  cases flow with
  | client flow =>
    obtain ⟨polled, done, rfl⟩ := map_eq_some_iff.mp inner
    obtain ⟨sends, start, isWire⟩ := sends
    have kept := ClientFlow.pollRead_kept alive sound done
    refine ⟨?_, start, isWire⟩
    simp only [kept.silent, append_nil]
    rw [kept.sealer]
    exact sends.keep alive kept.sending kept.txClosed kept.lifecycle
  | server flow =>
    obtain ⟨polled, done, rfl⟩ := map_eq_some_iff.mp inner
    obtain ⟨sends, unanswered, primitives, psk, keys, isWire⟩ := sends
    have kept := ServerFlow.pollRead_kept alive sound done
    refine ⟨?_, ?_, primitives, psk, ?_, ?_⟩
    · simp only [kept.silent, append_nil]
      rw [kept.sealer]
      exact sends.keep alive kept.sending kept.txClosed kept.lifecycle
    · intro pending
      rw [kept.sealer]
      apply unanswered
      rw [kept.sending] at pending
      exact pending
    · rw [kept.keys, keys]
    · rw [kept.requestSalt, isWire]

theorem withSending_sends (sends : flow.Sends wireOf accepted sent)
    {sending : Sending} {calls : List TransportCall} (advanced : Sending.Advanced flow.sending sending calls []) :
    (flow.withSending sending).Sends wireOf accepted (sent ++ sentBytes calls) := by
  cases flow with
  | client flow =>
    obtain ⟨sends, start, isWire⟩ := sends
    exact ⟨sends.advance_nothing alive advanced, start, isWire⟩
  | server flow =>
    obtain ⟨sends, unanswered, primitives, psk, keys, isWire⟩ := sends
    exact ⟨sends.advance_nothing alive advanced, fun pending => unanswered (advanced.unanswered pending).1, primitives, psk, keys,
      isWire⟩

theorem write_sends (sound : flow.Sound) (sends : flow.Sends wireOf accepted sent)
    {source : List UInt8} {answers : List WriteAnswer} {environment : WriteEnvironment}
    (run : flow.call (.write source answers environment) = some (next, outcome)) :
    next.Sends wireOf (accepted ++ outcome.accepted (.write source answers environment))
      (sent ++ sentBytes outcome.calls) := by
  obtain ⟨polled, inner, made⟩ := map_eq_some_iff.mp run
  cases made
  have taken {chunk : List UInt8} (front : chunk <+: source) : source.take chunk.length = chunk :=
    (prefix_iff_eq_take.mp front).symm
  cases flow with
  | client flow =>
    obtain ⟨polled, done, rfl⟩ := map_eq_some_iff.mp inner
    obtain ⟨sends, start, rfl⟩ := sends
    have stillAlive : flow.toSending.lifecycle.fatalError = none := alive
    obtain ⟨written, added, wrote, advanced, what⟩ := Sending.pollWriteOpen_advanced stillAlive
      (ClientFlow.Sound.sending sound) flow.requestSealer source answers
      environment.firstPrimitive environment.secondPrimitive
    unfold ClientFlow.pollWrite at done
    simp only [wrote, map_some, some.injEq] at done
    subst done
    refine ⟨sends.advance alive advanced ?_, start, rfl⟩
    intro chunks wire isWire
    simp only [FlowOutcome.accepted]
    rcases what with ⟨nothing, rfl, same⟩ | ⟨chunk, front, -, count, encoded⟩
    · refine ⟨[], ?_, ?_⟩
      · rw [append_nil, append_nil, same]
        exact isWire
      · rw [nothing]
        rfl
    · refine ⟨[chunk], requestWire_chunk isWire encoded, ?_⟩
      rw [count, taken front]
      exact (append_nil _).symm
  | server flow =>
    obtain ⟨polled, done, rfl⟩ := map_eq_some_iff.mp inner
    obtain ⟨sends, unanswered, primitives, psk, keys, rfl⟩ := sends
    obtain ⟨written, wrote, sending, sealer, added, state, advanced, what⟩ := ServerFlow.pollWrite_written alive sound source
      answers environment
    rw [wrote] at done
    cases done
    rw [state]
    generalize count : polled.poll.accepted = amount at what
    refine ⟨sends.advance alive advanced ?_, ?_, primitives, psk, keys, rfl⟩
    · intro chunks wire isWire
      simp only [FlowOutcome.accepted, count]
      cases what with
      | nothing =>
        refine ⟨[], ?_, rfl⟩
        rw [append_nil, append_nil]
        exact isWire
      | @response responseSalt timestamp chunk wire sealer pending front encoded =>
        rw [unanswered pending] at isWire
        rw [keys] at encoded
        refine ⟨[chunk], responseWire_first isWire encoded, ?_⟩
        rw [taken front]
        exact (append_nil _).symm
      | @chunk before after chunk wire answered isSealer front nonempty encoded =>
        rw [isSealer] at isWire
        refine ⟨[chunk], responseWire_chunk isWire encoded, ?_⟩
        rw [taken front]
        exact (append_nil _).symm
    · intro pending
      obtain ⟨before, nothing⟩ := advanced.unanswered pending
      cases what with
      | nothing => exact unanswered before
      | response tx front encoded =>
        obtain ⟨-, _, -, response⟩ := encodeResponseStateInto_eq_ok encoded
        rw [nothing] at response
        exact absurd response.fits.1 (Nat.lt_irrefl 0)
      | chunk answered => exact absurd before answered

end

theorem lifecycle_sound (sends : flow.Sends wireOf accepted sent) : flow.lifecycle.Sound := by
  cases flow with
  | client flow => exact sends.1.lifecycle
  | server flow => exact sends.1.lifecycle

def Closes (flow : Flow) (outcome : FlowOutcome) : Prop :=
  flow.lifecycle.txClosed ∨ outcome.result = .shutdown (.ready (.ok ()))

theorem lifecycle_withSending (flow : Flow) (sending : Sending) : (flow.withSending sending).lifecycle = sending.lifecycle := by
  cases flow with
  | client flow => rfl
  | server flow => rfl

theorem read_txClosed (alive : flow.lifecycle.fatalError = none) (sound : flow.Sound) {clock : Option U64} {destinationLen : Nat}
    {answers : List ReadAnswer} (run : flow.call (.read clock destinationLen answers) = some (next, outcome)) :
    flow.Closes outcome → next.lifecycle.txClosed := by
  obtain ⟨polled, inner, made⟩ := map_eq_some_iff.mp run
  cases made
  rintro (closed | shut)
  · cases flow with
    | client flow =>
      obtain ⟨polled, done, rfl⟩ := map_eq_some_iff.mp inner
      exact (ClientFlow.pollRead_kept alive sound done).txClosed.trans closed
    | server flow =>
      obtain ⟨polled, done, rfl⟩ := map_eq_some_iff.mp inner
      exact (ServerFlow.pollRead_kept alive sound done).txClosed.trans closed
  · cases shut

theorem write_txClosed (alive : flow.lifecycle.fatalError = none) (sound : flow.Sound) {source : List UInt8}
    {answers : List WriteAnswer} {environment : WriteEnvironment}
    (run : flow.call (.write source answers environment) = some (next, outcome)) :
    flow.Closes outcome → next.lifecycle.txClosed := by
  obtain ⟨polled, inner, made⟩ := map_eq_some_iff.mp run
  cases made
  rintro (closed | shut)
  · cases flow with
    | client flow =>
      obtain ⟨polled, done, rfl⟩ := map_eq_some_iff.mp inner
      have stillAlive : flow.toSending.lifecycle.fatalError = none := alive
      obtain ⟨written, added, wrote, advanced, -⟩ := Sending.pollWriteOpen_advanced stillAlive
        (ClientFlow.Sound.sending sound) flow.requestSealer source answers
        environment.firstPrimitive environment.secondPrimitive
      unfold ClientFlow.pollWrite at done
      simp only [wrote, map_some, some.injEq] at done
      subst done
      exact advanced.txClosed closed
    | server flow =>
      obtain ⟨polled, done, rfl⟩ := map_eq_some_iff.mp inner
      obtain ⟨written, wrote, sending, sealer, added, state, advanced, -⟩ := ServerFlow.pollWrite_written alive sound source
        answers environment
      rw [wrote] at done
      cases done
      simp only [state]
      exact advanced.txClosed closed
  · cases shut

theorem accepted_of_error {error : ShadowsocksError} (failed : outcome.result.error = some error) (call : FlowCall) :
    outcome.accepted call = [] := by
  obtain ⟨result, calls⟩ := outcome
  cases call with
  | read clock destinationLen answers => rfl
  | flush answers close => rfl
  | shutdown answers close => rfl
  | write source answers environment =>
    cases result with
    | read poll => rfl
    | flush poll => rfl
    | shutdown poll => rfl
    | write poll =>
      rcases poll with _ | ⟨error | count⟩
      · cases failed
      · rfl
      · cases failed

theorem call_sends (left : flow.Left) (sends : flow.Sends wireOf accepted sent) {call : FlowCall}
    (run : flow.call call = some (next, outcome)) :
    next.Sends wireOf (accepted ++ outcome.accepted call) (sent ++ sentBytes outcome.calls) ∧
      (flow.Closes outcome → next.lifecycle.txClosed) := by
  cases fatal : flow.lifecycle.fatalError with
  | some error =>
    obtain ⟨result, latched, shown⟩ := call_latched fatal call
    rw [run] at latched
    cases latched
    rw [accepted_of_error shown, sentBytes_nil, append_nil, append_nil]
    refine ⟨sends, ?_⟩
    rintro (closed | shut)
    · exact closed
    · rw [show result = _ from shut] at shown
      cases shown
  | none =>
    have sound := left fatal
    cases call with
    | read clock destinationLen answers =>
      rw [show outcome.accepted (.read clock destinationLen answers) = [] from rfl, append_nil]
      exact ⟨read_sends fatal sound sends run, read_txClosed fatal sound run⟩
    | write source answers environment => exact ⟨write_sends fatal sound sends run, write_txClosed fatal sound run⟩
    | flush answers close =>
      obtain ⟨polled, done, made⟩ := map_eq_some_iff.mp run
      cases made
      obtain ⟨again, flushed, advanced⟩ := Sending.pollFlush_advanced fatal (sending_sound sound) answers close
      rw [done] at flushed
      cases flushed
      rw [show FlowOutcome.accepted _ (.flush answers close) = [] from rfl, append_nil, lifecycle_withSending]
      refine ⟨withSending_sends fatal sends advanced, ?_⟩
      rintro (closed | shut)
      · exact advanced.txClosed closed
      · cases shut
    | shutdown answers close =>
      obtain ⟨polled, done, made⟩ := map_eq_some_iff.mp run
      cases made
      obtain ⟨again, shut, advanced, closes⟩ := Sending.pollShutdown_advanced fatal (sending_sound sound) answers close
      rw [done] at shut
      cases shut
      rw [show FlowOutcome.accepted _ (.shutdown answers close) = [] from rfl, append_nil]
      have after := withSending_sends fatal sends advanced
      refine ⟨after, ?_⟩
      have lifecycleSound := lifecycle_sound after
      rw [lifecycle_withSending] at lifecycleSound ⊢
      rintro (closed | ok)
      · exact advanced.txClosed closed
      · injection ok with ok
        rcases closes ok with normal | closed
        · exact (lifecycleSound normal).2
        · exact closed

def ShutDown (outcomes : List FlowOutcome) : Prop := ∃ outcome ∈ outcomes, outcome.result = .shutdown (.ready (.ok ()))

theorem run_sends {calls : List FlowCall} {outcomes : List FlowOutcome} {final : Flow} (left : flow.Left)
    (sends : flow.Sends wireOf accepted sent) (run : flow.run calls = some (final, outcomes)) :
    final.Sends wireOf (accepted ++ acceptedBytes calls outcomes) (sent ++ wireSent outcomes) ∧
      (flow.lifecycle.txClosed ∨ ShutDown outcomes → final.lifecycle.txClosed) := by
  induction calls generalizing flow accepted sent outcomes with
  | nil =>
    cases run
    refine ⟨?_, ?_⟩
    · rw [show acceptedBytes [] [] = [] from rfl, show wireSent [] = [] from rfl, append_nil, append_nil]
      exact sends
    · rintro (closed | ⟨outcome, member, -⟩)
      · exact closed
      · cases member
  | cons call rest ih =>
    unfold Flow.run at run
    split at run
    · cases run
    rename_i next outcome first
    obtain ⟨⟨last, others⟩, later, made⟩ := map_eq_some_iff.mp run
    cases made
    obtain ⟨nextSends, nextClosed⟩ := call_sends left sends first
    obtain ⟨_, _, again, nextLeft⟩ := call_left_always left call
    rw [first] at again
    cases again
    obtain ⟨finalSends, finalClosed⟩ := ih nextLeft nextSends later
    refine ⟨?_, ?_⟩
    · rw [append_assoc, append_assoc] at finalSends
      exact finalSends
    · rintro (closed | ⟨found, member, shut⟩)
      · exact finalClosed (.inl (nextClosed (.inl closed)))
      · rcases mem_cons.mp member with rfl | member
        · exact finalClosed (.inl (nextClosed (.inr shut)))
        · exact finalClosed (.inr ⟨found, member, shut⟩)

end Flow

end Ferrum.Shadowsocks
