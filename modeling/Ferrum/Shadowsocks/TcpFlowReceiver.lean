import Ferrum.Shadowsocks.TcpFlowSender

namespace Ferrum.Shadowsocks

open Option List Checked Crypto

section takes

variable {stands stands' : List UInt8 → List UInt8 → Prop} {excused excused' : ShadowsocksError → Prop} {calls : List TransportCall}
  {lifecycle : Lifecycle} {todo left : List UInt8} {poll : Poll (List UInt8)}

theorem Takes.mono (takes : Takes stands excused lifecycle calls todo left poll)
    (weaker : ∀ todo left, stands todo left → stands' todo left) (excuses : ∀ error, excused error → excused' error) :
    Takes stands' excused' lifecycle calls todo left poll := by
  rcases poll with _ | ⟨error | bytes⟩
  · exact ⟨weaker _ _ takes.1, takes.2⟩
  · exact takes.imp_right (Or.imp_right (Or.imp_right (excuses error)))
  · obtain ⟨later, plain, expecting, last⟩ := takes
    exact ⟨later, plain, weaker _ _ expecting, last⟩

end takes

namespace ServerFlow

def data (flow : ServerFlow) : DataRead := ⟨flow.requestOpener, flow.decrypt, flow.rx, flow.lifecycle⟩

theorem pollRead_takes {flow : ServerFlow} {polled : Polled ServerFlow (List UInt8)} {cipher : Aead} (opens : cipher.Opens)
    (alive : flow.lifecycle.fatalError = none) (sound : flow.Sound) {destinationLen : Nat} {answers : List ReadAnswer}
    (run : flow.pollRead destinationLen answers = some polled) (honest : ∀ call ∈ polled.calls, call.Honest)
    {todo left rest : List UInt8} (expecting : DataRead.Expecting cipher flow.data todo left)
    (split : left = receivedBytes polled.calls ++ rest) :
    Takes (DataRead.Expecting cipher polled.state.data) (fun _ => False) polled.state.lifecycle polled.calls todo rest
      polled.poll := by
  have idle (same : left = rest) : Takes (DataRead.Expecting cipher flow.data) (fun _ => False) flow.lifecycle [] todo rest
      (.ready (.ok [])) :=
    ⟨todo, (nil_append _).symm, same ▸ expecting, nofun⟩
  unfold pollRead at run
  rw [alive] at run
  simp only at run
  split at run
  · cases run
    exact idle split
  split at run
  · cases run
    exact idle split
  rename_i ongoing
  have fresh := Lifecycle.terminal_of_fatalError alive (not_or.mp ongoing).1
  obtain ⟨read, done, rfl⟩ := map_eq_some_iff.mp run
  exact (pollDataRead_reads opens (show flow.data.lifecycle.terminal = none from fresh) sound.rx expecting destinationLen answers
    .default done honest split).mono (fun _ _ holds => holds) fun _ => id

end ServerFlow

/-- The answer of a peer to a request: its chunks, and the wire that stands for them. -/
structure Answer where
  primitives : TcpPrimitives
  psk : MethodPskBytes
  requestSalt : MethodTcpSalt
  chunks : List (List UInt8)
  wire : List UInt8
  behind : Option TcpSealer
  isWire : ResponseWire primitives psk requestSalt chunks wire behind
  opens : primitives.Opens

theorem Answer.opened (answer : Answer) (clock : Option U64) {decrypt front rest : List UInt8}
    (length : decrypt.length = maxDecryptWireLen) (taken : decrypt.take front.length = front)
    (whole : front.length = answer.requestSalt.profile.initialResponseReadBytes) (split : answer.wire = front ++ rest) :
    ∃ (opener : TcpOpener) (timestamp : U64) (wireLen : Nat), opener.cipher.Opens ∧
      openResponseFixed (methodKeyAdapter answer.primitives answer.psk) clock answer.requestSalt decrypt = (do
        let now ← okOr clock .clockUnavailable
        failIf (30 < absDiff now.val timestamp.val) .timestampSkew
        return (wireLen, opener)) ∧
      ∀ scratch, (DataRx.payload wireLen 0).Expects opener.cipher opener.nonce scratch answer.chunks.flatten rest := by
  obtain ⟨primitives, psk, requestSalt, chunks, wire, behind, isWire, opens⟩ := answer
  simp only at whole split ⊢
  cases isWire with
  | nothing =>
    have empty := congrArg List.length split
    rw [length_append, whole] at empty
    simp only [length_nil, MethodProfile.initialResponseReadBytes] at empty
    omega
  | @response responseSalt timestamp first wire wires chunks sealer last profile encoded frames =>
    obtain ⟨payloadLen, next, width, reserved, reservedNext, bytes⟩ := encoded.parts
    have fixedLength : (responseSalt.bytes ++ (primitives.derive psk responseSalt.bytes).sealed .new
        (responseFixed timestamp requestSalt payloadLen)).length = front.length := by
      rw [length_append, length_sealedFixed, responseSalt.width, encoded.sameProfile, whole]
      simp only [MethodProfile.initialResponseReadBytes, responseFixedPlaintextLen, tagLen]
      omega
    rw [bytes, append_assoc] at split
    obtain ⟨isFront, isRest⟩ := append_inj split fixedLength
    refine ⟨⟨primitives.derive psk responseSalt.bytes, next⟩, timestamp, payloadLen.val + tagLen, opens psk _, ?_, ?_⟩
    · have nonempty : payloadLen.val ≠ 0 := by
        rw [width]
        exact fun empty => encoded.nonempty (length_eq_zero_iff.mp empty)
      have read : FirstRead requestSalt.profile (front ++ rest) decrypt := by
        refine ⟨length, ?_⟩
        rw [← whole, take_left, taken]
      rw [← isFront] at read
      exact openResponseFixed_clock (opens psk _) encoded.sameProfile encoded.different (tcpOpener_eq profile) reserved nonempty
        clock read
    · intro scratch
      refine ⟨first, chunks, wires, sealer.nonce, last, reservedNext, encoded.bounded, by rw [width], ?_, frames, rfl⟩
      rw [take_zero, nil_append, ← isRest]

/-- The receive state of a client as a state of the data behind the fixed part. -/
def ClientRx.asData : ClientRx → Option DataRx
  | .responsePayload wireLen filled => some (.payload wireLen filled)
  | .data state => some state
  | .responseFixed | .poison => none

namespace ClientFlow

/-- Where a client stands in the answer: before it, or behind its fixed part. -/
inductive Stands (answer : Answer) (flow : ClientFlow) (todo left : List UInt8) : Prop
  | before (rx : flow.rx = .responseFixed) (keys : flow.keys = methodKeyAdapter answer.primitives answer.psk)
      (requestSalt : flow.requestSalt = answer.requestSalt) (plain : todo = answer.chunks.flatten) (wire : left = answer.wire)
  | behind {opener : TcpOpener} {state : DataRx} {cipher : Aead} (rx : ClientRx.asData flow.rx = some state)
      (isOpener : flow.responseOpener = some opener) (opens : cipher.Opens)
      (expecting : DataRead.Expecting cipher ⟨opener, flow.decrypt, state, flow.lifecycle⟩ todo left)

/-- The errors that the first read of an answer may detect: the transport did not return exactly the
fixed part, or the clock does not fit. -/
inductive Detection (profile : MethodProfile) (clock : Option U64) (calls : List TransportCall) : ShadowsocksError → Prop
  | shortRead {width count : Nat} {content : List UInt8} (read : .read width (.ready count content) ∈ calls)
      (inexact : count ≠ profile.initialResponseReadBytes) : Detection profile clock calls (.detection .shortRead)
  | clockUnavailable (unavailable : clock = none) : Detection profile clock calls (.detection .clockUnavailable)
  | timestampSkew {now timestamp : U64} (read : clock = some now) (skewed : 30 < absDiff now.val timestamp.val) :
      Detection profile clock calls (.detection .timestampSkew)

def Detects (answer : Answer) (clock : Option U64) (calls : List TransportCall) (error : ShadowsocksError) : Prop :=
  (Ended calls → answer.wire = []) ∧ Detection answer.requestSalt.profile clock calls error

variable {flow : ClientFlow} {polled : Polled ClientFlow (List UInt8)}

variable {filled : Nat} {reply : ReadAnswer}

theorem asks_eq_some {readEnd : Nat} {answered : ReadAnswer → Option (Polled ClientFlow (List UInt8))}
    (run : flow.asks filled readEnd answered reply = some polled) :
    ∃ inner, answered reply = some inner ∧
      polled = { inner with calls := .read (readEnd - filled) reply :: inner.calls } := by
  unfold asks at run
  split at run
  · obtain ⟨inner, isInner, rfl⟩ := map_eq_some_iff.mp run
    exact ⟨inner, isInner, rfl⟩
  · cases run

variable {reason : DetectionReason} {width : Nat} {calls : List TransportCall} {clock : Option U64}
  {opener : TcpOpener} {cipher : Aead}

theorem detected_eq_some (fresh : flow.lifecycle.terminal = none) (run : flow.detected reason = some polled) :
    polled.poll = .ready (.error (.detection reason)) ∧
      polled.state.lifecycle.fatalError = some (.detection reason) ∧ polled.calls = [.markAbortive] := by
  unfold detected Lifecycle.installDetection Lifecycle.install at run
  rw [if_pos fresh] at run
  cases run
  exact ⟨rfl, rfl, by simp only [Lifecycle.detectionCalls, if_pos fresh]⟩

theorem ended_read : Ended [.read width reply, .markAbortive] ↔ Ended [.read width reply] := by
  simp only [Ended, mem_cons, not_mem_nil, or_false, reduceCtorEq]

variable {todo left : List UInt8}

theorem takes_detected {stands : List UInt8 → List UInt8 → Prop} {excused : ShadowsocksError → Prop}
    {inner : Polled ClientFlow (List UInt8)}
    (fresh : flow.lifecycle.terminal = none) (run : flow.detected reason = some inner)
    (cause : inner.calls = [.markAbortive] → ReadFailed calls ∨ Ended calls ∧ left ≠ [] ∨ excused (.detection reason)) :
    Takes stands excused inner.state.lifecycle calls todo left inner.poll := by
  obtain ⟨poll, recorded, marked⟩ := detected_eq_some fresh run
  rw [poll]
  exact ⟨recorded, cause marked⟩

section silent

variable (flow)

theorem detected_silent {reason : DetectionReason} (run : flow.detected reason = some polled) :
    receivedBytes polled.calls = [] := by
  obtain ⟨_, _, rfl⟩ := map_eq_some_iff.mp run
  exact receivedBytes_detectionCalls _

theorem responseFixedAnswered_silent {clock : Option U64} {reply : ReadAnswer}
    (run : flow.responseFixedAnswered clock reply = some polled) : receivedBytes polled.calls = [] := by
  unfold responseFixedAnswered at run
  cases reply with
  | pending =>
    cases run
    rfl
  | failed => exact detected_silent _ run
  | ready count content =>
    simp only at run
    split at run
    · exact detected_silent _ run
    split at run
    · cases run
    · exact detected_silent _ run
    · cases run
      rfl

theorem openResponsePayload_silent {wireLen destinationLen : Nat}
    (run : flow.openResponsePayload wireLen destinationLen = some polled) : receivedBytes polled.calls = [] := by
  unfold openResponsePayload at run
  split at run
  · cases run
  simp only at run
  split at run
  · exact detected_silent _ run
  · obtain ⟨⟨bytes, position⟩, copied, after⟩ := map_eq_some_iff.mp run
    simp only at after
    split at after
    · cases after
      rfl
    · cases after
      rfl

theorem responsePayloadAnswered_silent {wireLen filled destinationLen : Nat} {reply : ReadAnswer}
    (run : flow.responsePayloadAnswered wireLen filled destinationLen reply = some polled) :
    receivedBytes polled.calls = [] := by
  unfold responsePayloadAnswered at run
  cases reply with
  | pending =>
    cases run
    rfl
  | failed => exact detected_silent _ run
  | ready count content =>
    simp only at run
    split at run
    · exact detected_silent _ run
    split at run
    · exact detected_silent _ run
    split at run
    · cases run
      rfl
    · exact openResponsePayload_silent _ run

end silent

variable {rest : List UInt8}

theorem responseFixedAnswered_takes (answer : Answer) (flow : ClientFlow) (fresh : flow.lifecycle.terminal = none)
    (reset : flow.decrypt = resetDecrypt) (keys : flow.keys = methodKeyAdapter answer.primitives answer.psk)
    (requestSalt : flow.requestSalt = answer.requestSalt)
    (isWidth : width = flow.requestSalt.profile.initialResponseReadBytes)
    (run : flow.responseFixedAnswered clock reply = some polled) (honest : TransportCall.Honest (.read width reply))
    (split : answer.wire = receivedBytes [.read width reply] ++ rest) :
    Takes (Stands answer polled.state) (Detects answer clock (.read width reply :: polled.calls)) polled.state.lifecycle
      (.read width reply :: polled.calls) answer.chunks.flatten rest polled.poll := by
  unfold responseFixedAnswered at run
  cases reply with
  | pending =>
    cases run
    refine ⟨.before rfl keys requestSalt rfl ?_, ?_⟩
    · rw [split]
      rfl
    · rintro ⟨_, _, member⟩
      rw [mem_singleton] at member
      cases member
  | failed => exact takes_detected fresh run fun _ => .inl ⟨width, mem_cons_self⟩
  | ready count content =>
    simp only at run
    split at run
    · rename_i short
      refine takes_detected fresh run fun marked => ?_
      have inexact : Detection answer.requestSalt.profile clock (.read width (.ready count content) :: polled.calls)
          (.detection .shortRead) := .shortRead mem_cons_self (requestSalt ▸ short)
      unfold Detects
      rw [marked] at inexact ⊢
      rw [ended_read]
      by_cases zero : count = 0
      · subst zero
        have ended : Ended [.read width (.ready 0 content)] := ⟨width, content, mem_singleton_self _⟩
        have unchanged : answer.wire = rest := split
        by_cases empty : rest = []
        · exact .inr (.inr ⟨fun _ => unchanged.trans empty, inexact⟩)
        · exact .inr (.inl ⟨ended, empty⟩)
      · exact .inr (.inr ⟨fun ended => absurd ended (DataRead.not_ended_ready zero), inexact⟩)
    · rename_i whole
      rw [not_not, ← isWidth] at whole
      obtain rfl := whole.symm
      rw [receivedBytes_read] at split
      obtain ⟨-, delivered⟩ := honest
      have front : (content.take width).length = width := length_take_of_le delivered
      have fits : width ≤ flow.decrypt.length := by
        rw [reset, length_resetDecrypt, isWidth]
        exact (responseFixed_bounds _).1
      have taken : (readInto flow.decrypt 0 width content).take (content.take width).length = content.take width := by
        have bytes := take_readInto_honest (Nat.zero_le flow.decrypt.length) (Nat.le_refl (width - 0)) delivered
        rw [front]
        rwa [Nat.sub_zero, Nat.zero_add, take_zero, nil_append] at bytes
      have length : (readInto flow.decrypt 0 width content).length = maxDecryptWireLen := by
        rw [length_readInto fits (Nat.zero_le _), reset, length_resetDecrypt]
      obtain ⟨opener, timestamp, wireLen, opens, opened, expects⟩ :=
        answer.opened clock length taken (by rw [front, isWidth, requestSalt]) split
      have positive : width ≠ 0 := by
        rw [isWidth]
        exact Nat.succ_ne_zero _
      rw [← isWidth, keys, requestSalt, opened] at run
      have excuse (reason : DetectionReason) (clocks : Detection answer.requestSalt.profile clock
          (.read width (.ready width content) :: polled.calls) (.detection reason))
          (failed : flow.detected reason = some polled) :
          Takes (Stands answer polled.state) (Detects answer clock (.read width (.ready width content) :: polled.calls))
            polled.state.lifecycle (.read width (.ready width content) :: polled.calls) answer.chunks.flatten rest
            polled.poll := by
        refine takes_detected fresh failed fun marked => .inr (.inr ⟨?_, ?_⟩)
        · rw [marked, ended_read]
          exact fun ended => absurd ended (DataRead.not_ended_ready positive)
        · exact clocks
      cases clock with
      | none => exact excuse .clockUnavailable (.clockUnavailable rfl) run
      | some now =>
        by_cases near : 30 < absDiff now.val timestamp.val
        · simp only [okOr, failIf, if_pos near, fail, bind, Except.bind] at run
          exact excuse .timestampSkew (.timestampSkew rfl near) run
        · simp only [okOr, failIf, if_neg near, bind, Except.bind, pure, Except.pure] at run
          cases run
          exact ⟨.behind rfl rfl opens ⟨rfl, expects _⟩, DataRead.not_ended_ready positive⟩

variable {wireLen : Nat}

theorem take_readInto_take {scratch content : List UInt8} (inside : filled ≤ wireLen) (fits : wireLen ≤ scratch.length) :
    (readInto scratch filled wireLen content).take wireLen = readInto (scratch.take wireLen) filled wireLen content := by
  have short : (content.take (wireLen - filled)).length ≤ wireLen - filled := length_take_le _ _
  unfold readInto copyFromSlice
  rw [take_append, take_of_length_le (by rw [length_append, length_take]; omega), take_take,
    Nat.min_eq_left inside, drop_take, length_append, length_take_of_le (by omega), Nat.sub_add_eq]

variable {destinationLen : Nat}

theorem openResponsePayload_takes (answer : Answer) (flow : ClientFlow)
    (isOpener : flow.responseOpener = some opener) (opens : cipher.Opens) {chunk reserved : List UInt8}
    {next last : NonceCounter}
    (opening : opener.openInPlace (flow.decrypt.take wireLen) = ⟨⟨cipher, next⟩, chunk, some reserved, .ok ()⟩)
    {chunks : List (List UInt8)} (frames : Frames cipher next chunks rest last)
    (run : flow.openResponsePayload wireLen destinationLen = some polled) (excused : ShadowsocksError → Prop)
    (quiet : polled.calls = [] → ¬Ended calls) :
    Takes (Stands answer polled.state) excused polled.state.lifecycle calls (chunk ++ chunks.flatten) rest polled.poll := by
  unfold openResponsePayload at run
  simp only [isOpener, opening] at run
  have copied := copyReady_of_le (Nat.zero_le chunk.length) destinationLen
  obtain ⟨later, parts, same, state⟩ := DataRead.expecting_afterCopy
    ⟨⟨cipher, next⟩, chunk, .closed, flow.lifecycle⟩ rfl (Nat.zero_le _) copied frames
  rw [copied, map_some] at run
  unfold DataRx.afterCopy at state
  split at run
  · rename_i whole
    cases run
    rw [if_pos whole] at state
    exact ⟨later, parts, .behind rfl rfl opens ⟨rfl, state⟩, fun ended => absurd ended (quiet rfl)⟩
  · rename_i more
    cases run
    rw [if_neg more] at state
    exact ⟨later, parts, .behind rfl rfl opens ⟨rfl, state⟩, fun ended => absurd ended (quiet rfl)⟩

theorem responsePayloadAnswered_takes (answer : Answer) (flow : ClientFlow) (fresh : flow.lifecycle.terminal = none)
    (isOpener : flow.responseOpener = some opener) (opens : cipher.Opens)
    (length : flow.decrypt.length = maxDecryptWireLen) (inside : filled < wireLen) (fits : wireLen ≤ maxDecryptWireLen)
    (expecting : DataRead.Expecting cipher ⟨opener, flow.decrypt, .payload wireLen filled, flow.lifecycle⟩ todo left)
    (run : flow.responsePayloadAnswered wireLen filled destinationLen reply = some polled)
    (honest : TransportCall.Honest (.read (wireLen - filled) reply))
    (split : left = receivedBytes [.read (wireLen - filled) reply] ++ rest) (excused : ShadowsocksError → Prop) :
    Takes (Stands answer polled.state) excused polled.state.lifecycle (.read (wireLen - filled) reply :: polled.calls) todo rest
      polled.poll := by
  let data : DataRead := ⟨opener, flow.decrypt.take wireLen, .payload wireLen filled, flow.lifecycle⟩
  have filling : (DataRx.filling (some wireLen) filled).Expects cipher opener.nonce flow.decrypt todo left := expecting.state
  have dataLength : data.scratch.length = wireLen := length_take_of_le (by omega)
  have dataExpecting : DataRead.Expecting cipher data todo left := by
    have same : data.scratch.take filled ++ left = flow.decrypt.take filled ++ left := by
      rw [take_take, Nat.min_eq_left (Nat.le_of_lt inside)]
    exact ⟨expecting.same, DataRx.expects_filling same (filling)⟩
  unfold responsePayloadAnswered at run
  cases reply with
  | pending =>
    cases run
    have unchanged : left = rest := split
    subst unchanged
    refine ⟨.behind rfl isOpener opens expecting, ?_⟩
    rintro ⟨_, _, member⟩
    rw [mem_singleton] at member
    cases member
  | failed => exact takes_detected fresh run fun _ => .inl ⟨_, mem_cons_self⟩
  | ready count content =>
    simp only at run
    split at run
    · rename_i zero
      subst zero
      have unchanged : left = rest := split
      refine takes_detected fresh run fun _ => .inr (.inl ⟨⟨_, content, mem_cons_self⟩, ?_⟩)
      rw [← unchanged]
      have isFilling : data.state = .filling (some wireLen) filled := rfl
      have sound : data.state.Sound data.scratch := ⟨dataLength, inside⟩
      exact DataRead.started_left isFilling sound nofun dataExpecting.state
    · rename_i positive
      have received : data.Received (.ready count content) (some wireLen) filled wireLen count content data.scratch :=
        ⟨rfl, rfl, dataLength, inside, Nat.le_of_lt inside, Nat.le_refl _, positive, rfl⟩
      obtain ⟨sum, within, bytes, -⟩ := received.honest honest (received.small dataExpecting)
      rw [receivedBytes_read] at split
      split at run
      · rename_i beyond
        exact absurd within (by rw [← sum]; exact Nat.not_le_of_lt beyond)
      split at run
      · rename_i short
        cases run
        have same : (readInto flow.decrypt filled wireLen content).take (wrappingAdd filled count) ++ rest =
            flow.decrypt.take filled ++ left := by
          obtain ⟨width, delivered⟩ := honest
          rw [sum, take_readInto_honest (by omega) width delivered, split, append_assoc]
        exact ⟨.behind rfl isOpener opens ⟨expecting.same, DataRx.expects_filling same (filling)⟩,
          DataRead.not_ended_ready positive⟩
      · rename_i notBeyond notShort
        have whole : wrappingAdd filled count = wireLen := by omega
        obtain ⟨chunk, chunks, next, last, frames, plain, opening⟩ := received.payload opens dataExpecting honest whole split
        rw [← take_readInto_take (Nat.le_of_lt inside) (by omega)] at opening
        rw [plain]
        exact openResponsePayload_takes answer { flow with decrypt := readInto flow.decrypt filled wireLen content } isOpener
          opens opening frames run excused fun silent => silent ▸ DataRead.not_ended_ready positive

theorem pollRead_takes {answer : Answer} (alive : flow.lifecycle.fatalError = none) (sound : flow.Sound)
    {answers : List ReadAnswer} (run : flow.pollRead clock destinationLen answers = some polled)
    (honest : ∀ call ∈ polled.calls, call.Honest) (stands : Stands answer flow todo left)
    (split : left = receivedBytes polled.calls ++ rest) :
    Takes (Stands answer polled.state) (fun error => flow.rx = .responseFixed ∧ Detects answer clock polled.calls error)
      polled.state.lifecycle polled.calls todo rest polled.poll := by
  have idle (same : left = rest) : Takes (Stands answer flow) (fun error => flow.rx = .responseFixed ∧ Detects answer clock [] error)
      flow.lifecycle [] todo rest (.ready (.ok [])) :=
    ⟨todo, (nil_append _).symm, same ▸ stands, nofun⟩
  unfold pollRead at run
  rw [alive] at run
  simp only at run
  split at run
  · cases run
    exact idle split
  split at run
  · cases run
    exact idle split
  rename_i ongoing
  have fresh := Lifecycle.terminal_of_fatalError alive (not_or.mp ongoing).1
  have rx := sound.rx
  split at run
  · rename_i state
    obtain ⟨inner, isInner, rfl⟩ := asks_eq_some run
    cases stands with
    | before _ keys requestSalt plain wire =>
      subst plain wire
      refine (responseFixedAnswered_takes answer { flow with rx := .poison, decrypt := resetDecrypt } fresh rfl keys requestSalt
        (Nat.sub_zero _) isInner (honest _ mem_cons_self) ?_).mono (fun _ _ => id) fun _ detects => ⟨state, detects⟩
      rw [split, receivedBytes_cons, responseFixedAnswered_silent _ isInner, receivedBytes_cons, receivedBytes_nil]
    | behind isData =>
      rw [state] at isData
      cases isData
  · rename_i wireLen filled state
    obtain ⟨inner, isInner, rfl⟩ := asks_eq_some run
    rw [state] at rx
    obtain ⟨-, length, inside, fits⟩ := rx
    cases stands with
    | before fixed =>
      rw [state] at fixed
      cases fixed
    | behind isData isOpener opens expecting =>
      rw [state] at isData
      cases isData
      refine responsePayloadAnswered_takes answer { flow with rx := .poison } fresh isOpener opens length inside fits expecting
        isInner (honest _ mem_cons_self) ?_ _
      rw [split, receivedBytes_cons, responsePayloadAnswered_silent _ isInner, receivedBytes_cons, receivedBytes_nil]
  · rename_i state isState
    rw [isState] at rx
    cases stands with
    | before fixed =>
      rw [isState] at fixed
      cases fixed
    | @behind opener state cipher isData isOpener opens expecting =>
      rw [isState] at isData
      cases isData
      unfold readData at run
      simp only [isOpener] at run
      obtain ⟨read, done, rfl⟩ := map_eq_some_iff.mp run
      exact (pollDataRead_reads opens fresh rx.2 expecting destinationLen answers .default done honest split).mono
        (fun _ _ expecting => .behind rfl rfl opens expecting) fun _ => False.elim
  · cases run

end ClientFlow

end Ferrum.Shadowsocks
