import Ferrum.Shadowsocks.TcpFlowReceiver

namespace Ferrum.Shadowsocks

open Option List Checked Crypto

def FlowOutcome.returned (outcome : FlowOutcome) : List UInt8 :=
  match outcome.result with
  | .read (.ready (.ok bytes)) => bytes
  | _ => []

def returnedBytes (outcomes : List FlowOutcome) : List UInt8 := outcomes.flatMap FlowOutcome.returned

def wireReceived (outcomes : List FlowOutcome) : List UInt8 := outcomes.flatMap fun outcome => receivedBytes outcome.calls

def HonestRun (outcomes : List FlowOutcome) : Prop := ∀ outcome ∈ outcomes, ∀ call ∈ outcome.calls, call.Honest

/-- What a receiver is sent: the frames of a request, or the answer to its own request. -/
inductive Incoming
  | request (cipher : Aead)
  | response (answer : Answer)

variable {error : ShadowsocksError} {todo left : List UInt8} {primitives : TcpPrimitives}

theorem returned_of_error {outcome : FlowOutcome} (failed : outcome.result.error = some error) :
    outcome.returned = [] := by
  obtain ⟨result, calls⟩ := outcome
  unfold FlowOutcome.returned
  cases result with
  | read poll =>
    rcases poll with _ | ⟨error | bytes⟩
    · rfl
    · rfl
    · cases failed
  | write poll => rfl
  | flush poll => rfl
  | shutdown poll => rfl

theorem ClientFlow.Stands.sending {answer : Answer} {flow : ClientFlow}
    (stands : Stands answer flow todo left) (sealer : TcpSealer) (sending : Sending) :
    Stands answer { flow with requestSealer := sealer, toSending := sending } todo left := by
  cases stands with
  | before rx keys requestSalt plain wire => exact .before rx keys requestSalt plain wire
  | behind rx isOpener opens expecting => exact .behind rx isOpener opens ⟨expecting.same, expecting.state⟩

namespace Flow

/-- Where a receiver stands in what it is sent: of the plaintext `todo` comes next, of the wire `left`. -/
def Stands : Incoming → Flow → List UInt8 → List UInt8 → Prop
  | .request cipher, server flow, todo, left => cipher.Opens ∧ DataRead.Expecting cipher flow.data todo left
  | .response answer, client flow, todo, left => ClientFlow.Stands answer flow todo left
  | _, _, _, _ => False

/-- The errors that a read may return though the transport delivers: those of the first read of an answer. -/
def Excused (clock : Option U64) (calls : List TransportCall) : Incoming → Flow → ShadowsocksError → Prop
  | .response answer, client flow, error => flow.rx = .responseFixed ∧ ClientFlow.Detects answer clock calls error
  | _, _, _ => False

variable {incoming : Incoming} {flow next : Flow} {outcome : FlowOutcome} {todo left : List UInt8}

theorem read_takes (alive : flow.lifecycle.fatalError = none) (sound : flow.Sound) (stands : flow.Stands incoming todo left)
    {clock : Option U64} {destinationLen : Nat} {answers : List ReadAnswer}
    (run : flow.call (.read clock destinationLen answers) = some (next, outcome))
    (honest : ∀ call ∈ outcome.calls, call.Honest) {rest : List UInt8} (split : left = receivedBytes outcome.calls ++ rest) :
    ∃ poll, outcome.result = .read poll ∧ Takes (next.Stands incoming) (Excused clock outcome.calls incoming flow)
      next.lifecycle outcome.calls todo rest poll := by
  obtain ⟨polled, inner, made⟩ := map_eq_some_iff.mp run
  cases made
  refine ⟨polled.poll, rfl, ?_⟩
  cases flow with
  | client flow =>
    obtain ⟨polled, done, rfl⟩ := map_eq_some_iff.mp inner
    cases incoming with
    | request cipher => cases stands
    | response answer => exact ClientFlow.pollRead_takes alive sound done honest stands split
  | server flow =>
    obtain ⟨polled, done, rfl⟩ := map_eq_some_iff.mp inner
    cases incoming with
    | response answer => cases stands
    | request cipher =>
      obtain ⟨opens, expecting⟩ := stands
      exact (ServerFlow.pollRead_takes opens alive sound done honest expecting split).mono (fun _ _ expecting => ⟨opens, expecting⟩)
        fun _ => False.elim

theorem withSending_stands (stands : flow.Stands incoming todo left) (sending : Sending) :
    (flow.withSending sending).Stands incoming todo left := by
  cases incoming with
  | request cipher =>
    cases flow with
    | client flow => cases stands
    | server flow => exact ⟨stands.1, stands.2.same, stands.2.state⟩
  | response answer =>
    cases flow with
    | client flow => exact ClientFlow.Stands.sending stands flow.requestSealer sending
    | server flow => cases stands

theorem write_stands (alive : flow.lifecycle.fatalError = none) (sound : flow.Sound) (stands : flow.Stands incoming todo left)
    {source : List UInt8} {answers : List WriteAnswer} {environment : WriteEnvironment}
    (run : flow.call (.write source answers environment) = some (next, outcome)) :
    next.Stands incoming todo left ∧ receivedBytes outcome.calls = [] := by
  obtain ⟨polled, inner, made⟩ := map_eq_some_iff.mp run
  cases made
  cases flow with
  | client flow =>
    obtain ⟨polled, done, rfl⟩ := map_eq_some_iff.mp inner
    have stillAlive : flow.toSending.lifecycle.fatalError = none := alive
    obtain ⟨written, added, wrote, advanced, -⟩ := Sending.pollWriteOpen_advanced stillAlive
      (ClientFlow.Sound.sending sound) flow.requestSealer source answers
      environment.firstPrimitive environment.secondPrimitive
    unfold ClientFlow.pollWrite at done
    simp only [wrote, map_some, some.injEq] at done
    subst done
    refine ⟨?_, advanced.silent⟩
    cases incoming with
    | request cipher => cases stands
    | response answer => exact ClientFlow.Stands.sending stands _ _
  | server flow =>
    obtain ⟨polled, done, rfl⟩ := map_eq_some_iff.mp inner
    obtain ⟨written, wrote, sending, sealer, added, state, advanced, -⟩ := ServerFlow.pollWrite_written alive sound source
      answers environment
    rw [wrote] at done
    cases done
    refine ⟨?_, advanced.silent⟩
    simp only [state]
    cases incoming with
    | request cipher => exact ⟨stands.1, stands.2.same, stands.2.state⟩
    | response answer => cases stands

/-- What a receiver has returned of a plaintext, and got of the wire that stands for it. -/
structure Receives (incoming : Incoming) (plain wire returned received : List UInt8) (flow : Flow) : Prop where
  front : returned <+: plain
  stands : flow.lifecycle.fatalError = none →
    ∃ todo left, plain = returned ++ todo ∧ wire = received ++ left ∧ flow.Stands incoming todo left

variable {plain wire returned received : List UInt8}

theorem call_receives (soundness : flow.Left) (receives : flow.Receives incoming plain wire returned received) {call : FlowCall}
    (run : flow.call call = some (next, outcome)) (honest : ∀ call ∈ outcome.calls, call.Honest)
    (delivered : received ++ receivedBytes outcome.calls <+: wire) :
    next.Receives incoming plain wire (returned ++ outcome.returned) (received ++ receivedBytes outcome.calls) := by
  cases fatal : flow.lifecycle.fatalError with
  | some error =>
    obtain ⟨result, latched, shown⟩ := call_latched fatal call
    rw [run] at latched
    cases latched
    rw [returned_of_error shown, receivedBytes_nil, append_nil, append_nil]
    exact receives
  | none =>
    have sound := soundness fatal
    obtain ⟨todo, left, rfl, rfl, stands⟩ := receives.stands fatal
    have quiet (nothing : outcome.returned = []) (silent : receivedBytes outcome.calls = [])
        (still : next.Stands incoming todo left) : next.Receives incoming (returned ++ todo) (received ++ left)
          (returned ++ outcome.returned) (received ++ receivedBytes outcome.calls) := by
      rw [nothing, silent, append_nil, append_nil]
      exact ⟨receives.front, fun _ => ⟨todo, left, rfl, rfl, still⟩⟩
    cases call with
    | read clock destinationLen answers =>
      obtain ⟨rest, split⟩ := delivered
      rw [append_assoc, append_cancel_left_eq] at split
      obtain ⟨poll, isPoll, takes⟩ := read_takes fatal sound stands run honest split.symm
      have isReturned : outcome.returned = match FlowResult.read poll with
          | .read (.ready (.ok bytes)) => bytes
          | _ => [] := by rw [← isPoll]; rfl
      rw [isReturned, ← split, ← append_assoc]
      rcases poll with _ | ⟨error | bytes⟩
      · rw [append_nil]
        exact ⟨receives.front, fun _ => ⟨todo, rest, rfl, rfl, takes.1⟩⟩
      · rw [append_nil]
        refine ⟨receives.front, fun alive => ?_⟩
        rw [takes.1] at alive
        cases alive
      · obtain ⟨later, rfl, still, -⟩ := takes
        rw [← append_assoc]
        exact ⟨prefix_append _ _, fun _ => ⟨later, rest, rfl, rfl, still⟩⟩
    | write source answers environment =>
      obtain ⟨still, silent⟩ := write_stands fatal sound stands run
      obtain ⟨polled, -, made⟩ := map_eq_some_iff.mp run
      cases made
      exact quiet rfl silent still
    | flush answers close =>
      obtain ⟨polled, done, made⟩ := map_eq_some_iff.mp run
      cases made
      obtain ⟨again, flushed, advanced⟩ := Sending.pollFlush_advanced fatal (sending_sound sound) answers close
      rw [done] at flushed
      cases flushed
      exact quiet rfl advanced.silent (withSending_stands stands _)
    | shutdown answers close =>
      obtain ⟨polled, done, made⟩ := map_eq_some_iff.mp run
      cases made
      obtain ⟨again, shut, advanced, -⟩ := Sending.pollShutdown_advanced fatal (sending_sound sound) answers close
      rw [done] at shut
      cases shut
      exact quiet rfl advanced.silent (withSending_stands stands _)

theorem run_receives {calls : List FlowCall} {outcomes : List FlowOutcome} {final : Flow} (soundness : flow.Left)
    (receives : flow.Receives incoming plain wire returned received) (run : flow.run calls = some (final, outcomes))
    (honest : HonestRun outcomes) (delivered : received ++ wireReceived outcomes <+: wire) :
    final.Left ∧
      final.Receives incoming plain wire (returned ++ returnedBytes outcomes) (received ++ wireReceived outcomes) := by
  induction calls generalizing flow returned received outcomes with
  | nil =>
    cases run
    rw [show returnedBytes [] = [] from rfl, show wireReceived [] = [] from rfl, append_nil, append_nil]
    exact ⟨soundness, receives⟩
  | cons call rest ih =>
    unfold Flow.run at run
    split at run
    · cases run
    rename_i next outcome first
    obtain ⟨⟨last, others⟩, later, made⟩ := map_eq_some_iff.mp run
    cases made
    obtain ⟨honestFirst, honestRest⟩ := forall_mem_cons.mp honest
    rw [show wireReceived (outcome :: others) = receivedBytes outcome.calls ++ wireReceived others from rfl,
      ← append_assoc] at delivered ⊢
    rw [show returnedBytes (outcome :: others) = outcome.returned ++ returnedBytes others from rfl, ← append_assoc]
    obtain ⟨_, _, again, nextLeft⟩ := call_left_always soundness call
    rw [first] at again
    cases again
    exact ih nextLeft
      (call_receives soundness receives first honestFirst ((prefix_append _ _).trans delivered)) later honestRest delivered

end Flow

/-- The two ends of one direction of a stream, as the handshake leaves them: the client seals and
the server opens from the same nonce of the request cipher on, and both have the same keys for the
response. -/
inductive Peers (primitives : TcpPrimitives) (psk : MethodPskBytes) : FlowStart → FlowStart → Prop
  | request {clientKeys serverKeys : TcpKeyProvider} {requestSalt : MethodTcpSalt} {nonce : NonceCounter}
      {clientEncrypt clientDecrypt serverEncrypt serverDecrypt : List UInt8} :
      Peers primitives psk
        (.client clientKeys requestSalt ⟨primitives.derive psk requestSalt.bytes, nonce⟩ clientEncrypt clientDecrypt)
        (.server serverKeys requestSalt ⟨primitives.derive psk requestSalt.bytes, nonce⟩ serverEncrypt serverDecrypt)
  | response {requestSalt : MethodTcpSalt} {requestSealer : TcpSealer} {requestOpener : TcpOpener}
      {clientEncrypt clientDecrypt serverEncrypt serverDecrypt : List UInt8} :
      Peers primitives psk
        (.server (methodKeyAdapter primitives psk) requestSalt requestOpener serverEncrypt serverDecrypt)
        (.client (methodKeyAdapter primitives psk) requestSalt requestSealer clientEncrypt clientDecrypt)

namespace Flow

theorem sends_client (keys : TcpKeyProvider) (requestSalt : MethodTcpSalt) (requestSealer : TcpSealer)
    (encrypt decrypt : List UInt8) :
    (fromHandshake (.client keys requestSalt requestSealer encrypt decrypt)).Sends (requestWire requestSealer) [] [] :=
  ⟨⟨⟨[], [], _, ⟨_, .nil _, rfl⟩, rfl, nil_prefix, fun _ => ⟨rfl, rfl⟩, nofun⟩, nofun⟩, _, rfl⟩

theorem sends_server (primitives : TcpPrimitives) (psk : MethodPskBytes) (requestSalt : MethodTcpSalt)
    (requestOpener : TcpOpener) (encrypt decrypt : List UInt8) :
    (fromHandshake (.server (methodKeyAdapter primitives psk) requestSalt requestOpener encrypt decrypt)).Sends
      (ResponseWire primitives psk requestSalt) [] [] :=
  ⟨⟨⟨[], [], none, .nothing, rfl, nil_prefix, fun _ => ⟨rfl, rfl⟩, nofun⟩, nofun⟩, fun _ => rfl, primitives, psk, rfl, rfl⟩

theorem run_wire {flow final : Flow} {wireOf : WireOf} (left : flow.Left) (sends : flow.Sends wireOf [] []) {calls : List FlowCall}
    {outcomes : List FlowOutcome} (run : flow.run calls = some (final, outcomes)) :
    ∃ chunks wire behind, wireOf chunks wire behind ∧ acceptedBytes calls outcomes = chunks.flatten ∧
      wireSent outcomes <+: wire ∧ (ShutDown outcomes → wireSent outcomes = wire) := by
  obtain ⟨ends, closed⟩ := run_sends left sends run
  cases final with
  | client flow | server flow =>
    obtain ⟨chunks, wire, behind, isWire, plain, front, -, whole⟩ := ends.1.stream
    exact ⟨chunks, wire, behind, isWire, plain, front, fun shut => whole (closed (.inr shut))⟩

end Flow

theorem ResponseWire.chunks_eq_nil {psk : MethodPskBytes} {requestSalt : MethodTcpSalt}
    {chunks : List (List UInt8)} {wire : List UInt8} {behind : Option TcpSealer}
    (isWire : ResponseWire primitives psk requestSalt chunks wire behind) (empty : wire = []) : chunks = [] := by
  cases isWire with
  | nothing => rfl
  | response profile encoded frames =>
    have positive := encoded.fits.1
    rw [(append_eq_nil_iff.mp empty).1] at positive
    exact absurd positive (Nat.lt_irrefl 0)

/-- What a receiver is sent by a run of the sender. -/
structure Incoming.Of (incoming : Incoming) (receiver : FlowStart) (plain : List UInt8) : Prop where
  client : ∀ answer, incoming = .response answer → ∃ keys requestSalt requestSealer encrypt decrypt,
    receiver = .client keys requestSalt requestSealer encrypt decrypt
  empty : ∀ answer, incoming = .response answer → answer.wire = [] → plain = []

section peers

variable {primitives : TcpPrimitives} {psk : MethodPskBytes} {sender receiver : FlowStart} {writes reads : List FlowCall}
  {senderFinal receiverFinal : Flow} {sent received : List FlowOutcome}

theorem Peers.receives (opens : primitives.Opens) (peers : Peers primitives psk sender receiver)
    (run : (Flow.fromHandshake sender).run writes = some (senderFinal, sent)) :
    ∃ incoming wire, incoming.Of receiver (acceptedBytes writes sent) ∧ wireSent sent <+: wire ∧
      (Flow.ShutDown sent → wireSent sent = wire) ∧
      (Flow.fromHandshake receiver).Receives incoming (acceptedBytes writes sent) wire [] [] := by
  have left : (Flow.fromHandshake sender).Left := fun _ => Flow.sound_fromHandshake sender
  cases peers with
  | request =>
    obtain ⟨chunks, wire, behind, ⟨last, frames, -⟩, plain, front, whole⟩ := Flow.run_wire left (Flow.sends_client ..) run
    refine ⟨.request _, wire, ⟨nofun, nofun⟩, front, whole, nil_prefix, fun _ => ⟨_, wire, rfl, rfl, opens psk _, rfl, ?_⟩⟩
    exact ⟨chunks, last, frames, plain⟩
  | @response requestSalt =>
    obtain ⟨chunks, wire, behind, isWire, plain, front, whole⟩ := Flow.run_wire left (Flow.sends_server ..) run
    refine ⟨.response ⟨primitives, psk, requestSalt, chunks, wire, behind, isWire, opens⟩, wire, ⟨?_, ?_⟩, front, whole,
      nil_prefix, fun _ => ⟨_, wire, rfl, rfl, .before rfl rfl rfl plain rfl⟩⟩
    · rintro answer -
      exact ⟨_, _, _, _, _, rfl⟩
    · rintro answer ⟨⟩ empty
      rw [plain, isWire.chunks_eq_nil empty]
      rfl

theorem Peers.returned_prefix (opens : primitives.Opens) (peers : Peers primitives psk sender receiver)
    (senderRun : (Flow.fromHandshake sender).run writes = some (senderFinal, sent))
    (receiverRun : (Flow.fromHandshake receiver).run reads = some (receiverFinal, received)) (honest : HonestRun received)
    (front : wireReceived received <+: wireSent sent) : returnedBytes received <+: acceptedBytes writes sent := by
  obtain ⟨incoming, wire, -, sentFront, -, receives⟩ := peers.receives opens senderRun
  obtain ⟨-, ends⟩ := Flow.run_receives (fun _ => Flow.sound_fromHandshake receiver) receives receiverRun honest
    (front.trans sentFront)
  exact ends.front

end peers

/-- How the wire of a sender gets to a receiver: a transport delivers it in order, or another stream
carries it, behind what that stream carried before it. -/
inductive Carried (primitives : TcpPrimitives) : List UInt8 → List UInt8 → Prop
  | transport {sent received : List UInt8} (front : received <+: sent) : Carried primitives sent received
  | hop {psk : MethodPskBytes} {sender receiver : FlowStart} {writes reads : List FlowCall} {senderFinal receiverFinal : Flow}
      {hopSent hopReceived : List FlowOutcome} {before sent received : List UInt8} (peers : Peers primitives psk sender receiver)
      (senderRun : (Flow.fromHandshake sender).run writes = some (senderFinal, hopSent))
      (receiverRun : (Flow.fromHandshake receiver).run reads = some (receiverFinal, hopReceived))
      (honest : HonestRun hopReceived) (carried : Carried primitives (wireSent hopSent) (wireReceived hopReceived))
      (accepted : acceptedBytes writes hopSent <+: before ++ sent) (returned : before ++ received <+: returnedBytes hopReceived) :
      Carried primitives sent received

theorem Carried.isPrefix (opens : primitives.Opens) {sent received : List UInt8}
    (carried : Carried primitives sent received) : received <+: sent := by
  induction carried with
  | transport front => exact front
  | hop peers senderRun receiverRun honest _ accepted returned ih =>
    have through := peers.returned_prefix opens senderRun receiverRun honest ih
    exact (prefix_append_right_inj _).mp ((returned.trans through).trans accepted)

/-- A detection of a client at the first read of a response. -/
def Flow.Detection (clock : Option U64) (calls : List TransportCall) : Flow → ShadowsocksError → Prop
  | client flow, error => flow.rx = .responseFixed ∧ ClientFlow.Detection flow.requestSalt.profile clock calls error
  | server _, _ => False

/-- A client gets a response only once the server accepted a byte for it. -/
def FlowStart.Answered (accepted : List UInt8) : FlowStart → Prop
  | .client .. => accepted ≠ []
  | .server .. => True

theorem Flow.Excused.detection {incoming : Incoming} {flow : Flow} {clock : Option U64}
    {calls : List TransportCall} (excused : Excused clock calls incoming flow error)
    (stands : flow.Stands incoming todo left) :
    flow.Detection clock calls error ∧ ∃ answer, incoming = .response answer ∧ (Ended calls → answer.wire = []) := by
  cases incoming with
  | request cipher => cases excused
  | response answer =>
    cases flow with
    | server flow => cases excused
    | client flow =>
      obtain ⟨rx, empty, detection⟩ := excused
      refine ⟨⟨rx, ?_⟩, answer, rfl, empty⟩
      cases stands with
      | before _ _ requestSalt => exact requestSalt ▸ detection
      | behind isData =>
        rw [rx] at isData
        cases isData

/-- Over every honest delivery of the wire the reads return a front of what the writes accepted, and all of it where the
end is met after a shutdown; a read fails only with the transport, at an early end or with a detection. -/
theorem stream_integrity {primitives : TcpPrimitives} (opens : primitives.Opens) {psk : MethodPskBytes}
    {sender receiver : FlowStart} (peers : Peers primitives psk sender receiver) {writes reads : List FlowCall}
    {senderFinal receiverFinal : Flow} {sent received : List FlowOutcome}
    (senderRun : (Flow.fromHandshake sender).run writes = some (senderFinal, sent))
    (receiverRun : (Flow.fromHandshake receiver).run reads = some (receiverFinal, received)) (honest : HonestRun received)
    (carried : Carried primitives (wireSent sent) (wireReceived received)) :
    returnedBytes received <+: acceptedBytes writes sent ∧
      ∀ clock destinationLen answers next outcome,
        receiverFinal.call (.read clock destinationLen answers) = some (next, outcome) →
        (∀ call ∈ outcome.calls, call.Honest) →
        Carried primitives (wireSent sent) (wireReceived received ++ receivedBytes outcome.calls) →
        ¬ReadFailed outcome.calls →
        (Ended outcome.calls → Flow.ShutDown sent ∧ wireReceived received ++ receivedBytes outcome.calls = wireSent sent) →
        (∀ error, receiverFinal.lifecycle.fatalError = none → outcome.result = .read (.ready (.error error)) →
          receiverFinal.Detection clock outcome.calls error) ∧
        (Ended outcome.calls → receiver.Answered (acceptedBytes writes sent) →
          outcome.result = .read (.ready (.ok [])) ∧ returnedBytes received = acceptedBytes writes sent) := by
  obtain ⟨incoming, wire, isOf, sentFront, whole, receives⟩ := peers.receives opens senderRun
  obtain ⟨left, ends⟩ := Flow.run_receives (fun _ => Flow.sound_fromHandshake receiver) receives receiverRun honest
    ((carried.isPrefix opens).trans sentFront)
  refine ⟨ends.front, ?_⟩
  intro clock destinationLen answers next outcome run honest carried unfailed everything
  cases fatal : receiverFinal.lifecycle.fatalError with
  | some error =>
    obtain ⟨result, latched, -⟩ := Flow.call_latched fatal (.read clock destinationLen answers)
    rw [run] at latched
    cases latched
    exact ⟨nofun, nofun⟩
  | none =>
    obtain ⟨todo, after, plain, isWire, stands⟩ := ends.stands fatal
    obtain ⟨rest, split⟩ := (carried.isPrefix opens).trans sentFront
    rw [nil_append] at plain isWire
    rw [isWire, append_assoc, append_cancel_left_eq] at split
    obtain ⟨poll, isPoll, takes⟩ := Flow.read_takes fatal (left fatal) stands run honest split.symm
    have nothingLeft (ended : Ended outcome.calls) : rest = [] := by
      obtain ⟨shut, delivered⟩ := everything ended
      rw [← whole shut, ← delivered, append_cancel_left_eq, ← split] at isWire
      exact self_eq_append_right.mp isWire
    have cause {error : ShadowsocksError} (failed : poll = .ready (.error error)) :
        Flow.Excused clock outcome.calls incoming receiverFinal error := by
      subst failed
      rcases takes.2 with failed | ⟨ended, more⟩ | excused
      · exact absurd failed unfailed
      · exact absurd (nothingLeft ended) more
      · exact excused
    rw [isPoll]
    constructor
    · rintro error - failed
      cases failed
      exact ((cause rfl).detection stands).1
    · intro ended answered
      rcases poll with _ | ⟨error | bytes⟩
      · exact absurd ended takes.2
      · obtain ⟨-, answer, isAnswer, empty⟩ := (cause rfl).detection stands
        obtain ⟨_, _, _, _, _, rfl⟩ := isOf.client answer isAnswer
        exact absurd (isOf.empty answer isAnswer (empty ended)) answered
      · obtain ⟨later, rfl, -, last⟩ := takes
        obtain ⟨rfl, nothing⟩ := last ended
        refine ⟨rfl, ?_⟩
        rw [plain, nothing (nothingLeft ended), append_nil, append_nil]

def sampleFlowClient : FlowStart :=
  .client (methodKeyAdapter sampleTcpPrimitives sampleTcpPsk) sampleTcpSalt
    ⟨sampleTcpPrimitives.derive sampleTcpPsk sampleTcpSalt.bytes, .new⟩ [] []

def sampleFlowServer : FlowStart :=
  .server (methodKeyAdapter sampleTcpPrimitives sampleTcpPsk) sampleTcpSalt
    ⟨sampleTcpPrimitives.derive sampleTcpPsk sampleTcpSalt.bytes, .new⟩ [] []

def sampleWriteEnvironment : WriteEnvironment := ⟨fun _ => sampleRandom, some 1000, .encrypts, .encrypts⟩

/-- The frame of the bytes 1, 2 and 3. -/
def sampleFrame : List UInt8 := [0, 3] ++ List.replicate 16 0 ++ [1, 2, 3, 1] ++ List.replicate 15 0

/-- A client writes three bytes and shuts down, and the transport takes the frame in two parts. -/
def sampleFlowWrites : List FlowCall :=
  [.write [1, 2, 3] [] sampleWriteEnvironment, .shutdown [.ready 20, .ready 17] .done]

/-- The server reads two bytes and then one; the transport delivers the frame in three parts. -/
def sampleFlowReads : List FlowCall :=
  [.read none 2 [.ready 10 (sampleFrame.take 10), .pending],
    .read none 2 [.ready 8 ((sampleFrame.drop 10).take 8), .ready 19 (sampleFrame.drop 18)], .read none 2 []]

def sampleSent : List FlowOutcome :=
  [⟨.write (.ready (.ok 3)), []⟩,
    ⟨.shutdown (.ready (.ok ())), [.write sampleFrame (.ready 20), .write (sampleFrame.drop 20) (.ready 17), .shutdown .done]⟩]

def sampleReceived : List FlowOutcome :=
  [⟨.read .pending, [.read 18 (.ready 10 (sampleFrame.take 10)), .read 8 .pending]⟩,
    ⟨.read (.ready (.ok [1, 2])), [.read 8 (.ready 8 ((sampleFrame.drop 10).take 8)), .read 19 (.ready 19 (sampleFrame.drop 18))]⟩,
    ⟨.read (.ready (.ok [3])), []⟩]

theorem stream_integrity_sample : ∃ senderFinal receiverFinal next outcome,
    (Flow.fromHandshake sampleFlowClient).run sampleFlowWrites = some (senderFinal, sampleSent) ∧
      (Flow.fromHandshake sampleFlowServer).run sampleFlowReads = some (receiverFinal, sampleReceived) ∧
      receiverFinal.call (.read none 2 [.ready 0 []]) = some (next, outcome) ∧
      outcome.result = .read (.ready (.ok [])) ∧ returnedBytes sampleReceived = acceptedBytes sampleFlowWrites sampleSent := by
  have peers : Peers sampleTcpPrimitives sampleTcpPsk sampleFlowClient sampleFlowServer := .request
  obtain ⟨senderFinal, senderRun⟩ : ∃ final, (Flow.fromHandshake sampleFlowClient).run sampleFlowWrites =
    some (final, sampleSent) := ⟨_, rfl⟩
  obtain ⟨receiverFinal, next, outcome, receiverRun, last, calls⟩ : ∃ final next outcome,
    (Flow.fromHandshake sampleFlowServer).run sampleFlowReads = some (final, sampleReceived) ∧
      final.call (.read none 2 [.ready 0 []]) = some (next, outcome) ∧ outcome.calls = [.read 18 (.ready 0 [])] :=
    ⟨_, _, _, rfl, rfl, rfl⟩
  have honest : HonestRun sampleReceived := by
    simp [HonestRun, sampleReceived, TransportCall.Honest, sampleFrame]
  have carried : Carried sampleTcpPrimitives (wireSent sampleSent) (wireReceived sampleReceived) := .transport prefix_rfl
  have shut : Flow.ShutDown sampleSent := ⟨_, mem_cons_of_mem _ mem_cons_self, rfl⟩
  have ended : Ended outcome.calls := ⟨18, [], by rw [calls]; exact mem_singleton_self _⟩
  have lastHonest : ∀ call ∈ outcome.calls, call.Honest := by simp [calls, TransportCall.Honest]
  have unfailed : ¬ReadFailed outcome.calls := by simp [calls, ReadFailed]
  have all : wireReceived sampleReceived ++ receivedBytes outcome.calls = wireSent sampleSent := by
    rw [calls]
    rfl
  exact ⟨senderFinal, receiverFinal, next, outcome, senderRun, receiverRun, last,
    ((stream_integrity sampleTcpPrimitives_opens peers senderRun receiverRun honest carried).2 none 2 _ next outcome last
      lastHonest (.transport (all ▸ prefix_rfl)) unfailed fun _ => ⟨shut, all⟩).2 ended trivial⟩

theorem first_read_short (count : Nat) (content : List UInt8) (short : count ≠ sampleTcpSalt.profile.initialResponseReadBytes) :
    ∃ final, (Flow.fromHandshake sampleFlowClient).call (.read (some 1000) 16 [.ready count content]) =
      some (final, ⟨.read (.ready (.error (.detection .shortRead))),
        [.read sampleTcpSalt.profile.initialResponseReadBytes (.ready count content), .markAbortive]⟩) := by
  have fits : 0 ≤ sampleTcpSalt.profile.initialResponseReadBytes ∧
      sampleTcpSalt.profile.initialResponseReadBytes ≤ resetDecrypt.length :=
    ⟨Nat.zero_le _, by rw [length_resetDecrypt]; exact (responseFixed_bounds _).1⟩
  unfold Flow.call Flow.pollRead ClientFlow.pollRead
  simp only [Flow.fromHandshake, sampleFlowClient, ClientFlow.fromHandshake]
  rw [show Lifecycle.default.fatalError = none from rfl]
  simp only [ClientFlow.asks]
  rw [if_neg (by decide), if_neg (by decide), if_pos fits]
  simp only [ClientFlow.responseFixedAnswered, headD_cons]
  rw [if_pos short]
  exact ⟨_, rfl⟩

/-- The first read of a client fails though the transport delivers: at the end of a response of a server
that accepted nothing, and where the fixed part of a response comes in pieces. -/
theorem response_detected : Peers sampleTcpPrimitives sampleTcpPsk sampleFlowServer sampleFlowClient ∧
    (∃ serverFinal clientFinal sent outcome,
      (Flow.fromHandshake sampleFlowServer).run [.shutdown [] .done] = some (serverFinal, sent) ∧ Flow.ShutDown sent ∧
      (Flow.fromHandshake sampleFlowClient).call (.read (some 1000) 16 [.ready 0 []]) = some (clientFinal, outcome) ∧
      Ended outcome.calls ∧ receivedBytes outcome.calls = wireSent sent ∧
      outcome.result = .read (.ready (.error (.detection .shortRead)))) ∧
    ∃ serverFinal clientFinal sent outcome,
      (Flow.fromHandshake sampleFlowServer).run [.write [1, 2, 3] [] sampleWriteEnvironment, .shutdown [.ready 78] .done] =
        some (serverFinal, sent) ∧ Flow.ShutDown sent ∧
      (Flow.fromHandshake sampleFlowClient).call (.read (some 1000) 16 [.ready 1 [9]]) = some (clientFinal, outcome) ∧
      receivedBytes outcome.calls <+: wireSent sent ∧
      outcome.result = .read (.ready (.error (.detection .shortRead))) := by
  obtain ⟨silentFinal, silent⟩ := first_read_short 0 [] (by decide)
  obtain ⟨pieceFinal, piece⟩ := first_read_short 1 [9] (by decide)
  obtain ⟨serverFinal, sent, run, shut, front⟩ : ∃ final sent, (Flow.fromHandshake sampleFlowServer).run
      [.write [1, 2, 3] [] sampleWriteEnvironment, .shutdown [.ready 78] .done] = some (final, sent) ∧ Flow.ShutDown sent ∧
        (wireSent sent).take 1 = [9] :=
    ⟨_, _, rfl, ⟨_, mem_cons_of_mem _ mem_cons_self, rfl⟩, rfl⟩
  refine ⟨.response, ⟨_, silentFinal, [⟨.shutdown (.ready (.ok ())), [.shutdown .done]⟩], _, rfl, ⟨_, mem_cons_self, rfl⟩,
    silent, ⟨_, _, mem_cons_self⟩, rfl, rfl⟩, serverFinal, pieceFinal, sent, _, run, shut, piece, ?_, rfl⟩
  have first : receivedBytes [.read sampleTcpSalt.profile.initialResponseReadBytes (.ready 1 [9]), .markAbortive] <+:
      wireSent sent := by
    rw [show receivedBytes _ = [9] from rfl, ← front]
    exact take_prefix 1 _
  exact first

end Ferrum.Shadowsocks
