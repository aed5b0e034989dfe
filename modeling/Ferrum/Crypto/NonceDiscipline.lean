import Mathlib.Data.List.Nodup
import Ferrum.Crypto.TcpAead
import Ferrum.Crypto.UdpAead

namespace Ferrum.Crypto

open List

structure UdpSealCall where
  crypto : UdpCrypto
  plaintextBody : List UInt8
  output : List UInt8
  random : SecureRandom
  primitive : Primitive

namespace UdpOutboundSession

def step (outbound : UdpOutboundSession) (call : UdpSealCall) : UdpOutboundSession × UdpSealing :=
  let sealing := call.crypto.sealUdp outbound call.plaintextBody call.output call.random call.primitive
  (sealing.outbound, sealing)

/-- The identifier that a successful call used. -/
def packetIdOf (sealing : UdpSealing) : Option PacketId :=
  match sealing.result with
  | .ok sealed => some sealed.packetId
  | .error _ => none

def used (outbound : UdpOutboundSession) : Nat :=
  match outbound.counter.next with
  | some packetId => packetId.val
  | none => 2 ^ 64

theorem used_le (outbound : UdpOutboundSession) : outbound.used ≤ 2 ^ 64 := by
  unfold used
  split
  · rename_i packetId _
    exact packetId.isLt.le
  · exact le_rfl

variable {outbound : UdpOutboundSession}

variable {packetId : PacketId} {random : SecureRandom} {error : UdpCryptoError} {sealed : UdpSealResult}

theorem used_commit (counter : outbound.counter = .commit packetId) : outbound.used = packetId.val + 1 := by
  have bound := packetId.isLt
  unfold used
  rw [counter]
  unfold UdpPacketCounter.commit
  split
  · rename_i next found
    split at found
    · cases found
      rfl
    · cases found
  · rename_i found
    split at found
    · cases found
    · omega

/-- The body nonce of an AES session: the last four bytes of its identifier, then the packet
identifier in big-endian order. -/
def aesNonce (sessionId : UdpSessionId) (packetId : PacketId) : List UInt8 :=
  sessionId.bytes.drop 4 ++ packetId.toBeBytes

theorem slice_udpIdentity (sessionId : UdpSessionId) (packetId : PacketId) :
    slice (udpIdentity sessionId packetId) 4 udpIdentityBytes = aesNonce sessionId packetId := by
  have width : sessionId.bytes.length = 8 := sessionId.width
  have length : (udpIdentity sessionId packetId).length = udpIdentityBytes := by
    simp [udpIdentity, sessionId.width, udpIdentityBytes, udpPacketIdBytes]
  unfold slice
  rw [← length, take_length, udpIdentity, drop_append_of_le_length (by omega)]
  rfl

variable {crypto : UdpCrypto}

variable (same : outbound.profile = crypto.profile)

theorem envelope_nonce (aes : outbound.profile ≠ .blake3ChaCha20Poly13052022) (random : SecureRandom) (packetId : PacketId)
    (plaintextBody : List UInt8) (primitive : Primitive) :
    (crypto.envelope outbound same random packetId plaintextBody primitive).nonce =
      some (aesNonce outbound.sessionId packetId) := by
  unfold UdpCrypto.envelope
  split
  · cases primitive with
    | encrypts | fails left => exact congrArg some (slice_udpIdentity outbound.sessionId packetId)
  · rename_i cipher chaCha
    have profile : crypto.profile = .blake3ChaCha20Poly13052022 := by
      unfold UdpCrypto.profile
      rw [chaCha]
    exact absurd (same.trans profile) aes

theorem envelope_error {same : outbound.profile = crypto.profile} {plaintextBody : List UInt8} {primitive : Primitive}
    (failed : (crypto.envelope outbound same random packetId plaintextBody primitive).wire = .error error) :
    error = .operationFailed ∨ error = .randomUnavailable := by
  unfold UdpCrypto.envelope at failed
  split at failed
  · cases primitive with
    | encrypts => cases failed
    | fails left =>
      cases failed
      exact .inl rfl
  · unfold sealXchachaUdp at failed
    split at failed
    · cases failed
      exact .inr rfl
    · cases primitive with
      | encrypts => cases failed
      | fails left =>
        cases failed
        exact .inl rfl

theorem envelope_ok (fills : (random.fill xchachaNonceBytes).isSome) (packetId : PacketId)
    (plaintextBody : List UInt8) :
    ∃ wire, (crypto.envelope outbound same random packetId plaintextBody .encrypts).wire = .ok wire := by
  unfold UdpCrypto.envelope
  split
  · exact ⟨_, rfl⟩
  · obtain ⟨nonce, filled⟩ := Option.isSome_iff_exists.mp fills
    unfold sealXchachaUdp
    rw [filled]
    exact ⟨_, rfl⟩

theorem step_cases (outbound : UdpOutboundSession) (call : UdpSealCall) :
    (∃ error, (outbound.step call).2.result = .error error ∧ (outbound.step call).1 = outbound ∧
      (error = .counterExhausted → outbound.used = 2 ^ 64)) ∨
    ∃ packetId wireLen, (outbound.step call).2.result = .ok ⟨wireLen, packetId⟩ ∧ outbound.counter.next = some packetId ∧
      (outbound.step call).1 = { outbound with counter := .commit packetId } ∧
      (outbound.profile ≠ .blake3ChaCha20Poly13052022 →
        (outbound.step call).2.nonce = some (aesNonce outbound.sessionId packetId)) := by
  unfold step UdpCrypto.sealUdp
  split
  · exact .inl ⟨_, rfl, rfl, nofun⟩
  split
  · exact .inl ⟨_, rfl, rfl, nofun⟩
  rename_i same
  unfold UdpPacketCounter.current
  cases next : outbound.counter.next with
  | none => exact .inl ⟨_, rfl, rfl, fun _ => by simp [used, next]⟩
  | some packetId =>
    dsimp only
    split
    · exact .inl ⟨_, rfl, rfl, nofun⟩
    cases sent : (call.crypto.envelope outbound (not_not.mp same) call.random packetId call.plaintextBody call.primitive).wire with
    | error error =>
      refine .inl ⟨error, rfl, rfl, fun exhausted => ?_⟩
      rcases envelope_error sent with failed | failed
      · cases failed.symm.trans exhausted
      · cases failed.symm.trans exhausted
    | ok wire =>
      exact .inr ⟨packetId, _, rfl, rfl, rfl, fun aes => envelope_nonce (not_not.mp same) aes _ _ _ _⟩

/-- A call that nothing makes fail: its owner is the session's, the output is large enough, randomness and the primitive answer.
-/
structure Admits (outbound : UdpOutboundSession) (call : UdpSealCall) : Prop where
  owner : outbound.owner = call.crypto.owner
  method : outbound.profile = call.crypto.profile
  fits : call.plaintextBody.length + call.crypto.profile.udpWireOverheadBytes ≤ call.output.length
  addressable : call.output.length < 2 ^ 64
  fills : (call.random.fill xchachaNonceBytes).isSome
  encrypts : call.primitive = .encrypts

theorem step_succeeds {call : UdpSealCall} (admits : outbound.Admits call) (room : outbound.used < 2 ^ 64) :
    ∃ sealed, (outbound.step call).2.result = .ok sealed := by
  have fits := admits.fits
  have addressable := admits.addressable
  unfold step UdpCrypto.sealUdp
  rw [if_neg (not_not.mpr admits.owner), dif_neg (not_not.mpr admits.method)]
  unfold UdpPacketCounter.current
  cases next : outbound.counter.next with
  | none =>
    simp [used, next] at room
  | some packetId =>
    dsimp only
    rw [if_neg (by omega), admits.encrypts]
    obtain ⟨wire, sent⟩ := envelope_ok admits.method admits.fills packetId call.plaintextBody
    rw [sent]
    exact ⟨_, rfl⟩

variable {sealing : UdpSealing}

theorem packetIdOf_ok (result : sealing.result = .ok sealed) : packetIdOf sealing = some sealed.packetId := by
  unfold packetIdOf
  rw [result]

theorem packetIdOf_error (result : sealing.result = .error error) : packetIdOf sealing = none := by
  unfold packetIdOf
  rw [result]

theorem numbers : Numbers step used (fun sealing => (packetIdOf sealing).map (·.val)) where
  failed := by
    intro outbound call none
    rcases step_cases outbound call with ⟨error, result, same, -⟩ | ⟨packetId, wireLen, result, -⟩
    · exact same
    · rw [packetIdOf_ok result] at none
      cases none
  taken := by
    intro outbound call taken found
    rcases step_cases outbound call with ⟨error, result, -⟩ | ⟨packetId, wireLen, result, next, after, -⟩
    · rw [packetIdOf_error result] at found
      cases found
    · rw [packetIdOf_ok result] at found
      cases found
      refine ⟨by simp [used, next], used_commit ?_⟩
      rw [after]

theorem packetIds_range (outbound : UdpOutboundSession) (calls : List UdpSealCall) :
    ((outcomes step outbound calls).filterMap packetIdOf).map (·.val) =
      List.range' outbound.used ((outcomes step outbound calls).filterMap packetIdOf).length := by
  have range := numbers.range outbound calls
  rw [← map_filterMap, length_map] at range
  exact range

theorem step_kept (outbound : UdpOutboundSession) (call : UdpSealCall) :
    (outbound.step call).1.sessionId = outbound.sessionId ∧ (outbound.step call).1.profile = outbound.profile := by
  rcases step_cases outbound call with ⟨error, -, same, -⟩ | ⟨packetId, wireLen, -, -, after, -⟩
  · rw [same]
    exact ⟨rfl, rfl⟩
  · rw [after]
    exact ⟨rfl, rfl⟩

theorem nonce_of_mem (aes : outbound.profile ≠ .blake3ChaCha20Poly13052022) {calls : List UdpSealCall}
    (member : sealing ∈ outcomes step outbound calls) (result : sealing.result = .ok sealed) :
    sealing.nonce = some (aesNonce outbound.sessionId sealed.packetId) := by
  induction calls generalizing outbound with
  | nil => cases member
  | cons call rest ih =>
    rcases mem_cons.mp member with here | later
    · subst here
      rcases step_cases outbound call with ⟨error, failed, -⟩ | ⟨packetId, wireLen, found, -, -, nonce⟩
      · cases failed.symm.trans result
      · cases found.symm.trans result
        exact nonce aes
    · obtain ⟨session, profile⟩ := step_kept outbound call
      rw [← session]
      exact ih (profile ▸ aes) later

end UdpOutboundSession

def TcpSealer.after (cipher : Aead) (calls : List TcpSealCall) : TcpSealer := settled step (new cipher) calls

variable (primitives : UdpPrimitives)

def UdpOutboundSession.after (crypto : UdpCrypto) (sessionId : UdpSessionId) (calls : List UdpSealCall) :
    UdpOutboundSession :=
  settled step (crypto.newOutboundSession primitives sessionId) calls

def UdpOutboundSession.usedBy (crypto : UdpCrypto) (sessionId : UdpSessionId) (calls : List UdpSealCall) : List PacketId :=
  (outcomes step (crypto.newOutboundSession primitives sessionId) calls).filterMap packetIdOf

/-- The nonces of one TCP direction over a run of calls on a fresh sealer. -/
structure TcpDiscipline (cipher : Aead) (calls : List TcpSealCall) : Prop where
  numbered : (TcpSealer.sealedBy cipher calls).map (leNat ·.nonce) = List.range (TcpSealer.sealedBy cipher calls).length
  wide : ∀ sealed ∈ TcpSealer.sealedBy cipher calls, sealed.nonce.length = aeadNonceBytes
  distinct : ((TcpSealer.sealedBy cipher calls).map (·.nonce)).Nodup
  exhausted : ∀ before last rest, calls = before ++ last :: rest →
    ((TcpSealer.after cipher before).sealCall last).result = .error .nonceExhausted →
    TcpSealer.sealedBy cipher calls = TcpSealer.sealedBy cipher before
  unchanged : ∀ before last rest error, calls = before ++ last :: rest →
    ((TcpSealer.after cipher before).sealCall last).result = .error error →
    ((TcpSealer.after cipher before).sealCall last).sealer = TcpSealer.after cipher before
  available : ∀ before last rest, calls = before ++ last :: rest → last.plaintextStart ≤ last.buffer.length →
    last.primitive = .encrypts → (TcpSealer.sealedBy cipher before).length < NonceCounter.limit →
    ((TcpSealer.after cipher before).sealCall last).result = .ok ()
  opened : (outcomes TcpOpener.step (TcpOpener.new cipher) ((TcpSealer.sealedBy cipher calls).map (·.wire))).map
      (fun opening => (opening.nonce, opening.buffer, opening.result)) =
    (TcpSealer.sealedBy cipher calls).map (fun sealed => (some sealed.nonce, sealed.plaintext, .ok ()))

/-- The packet identifiers and body nonces of one UDP session over a run of calls, by any
owners, on the fresh session. -/
structure UdpDiscipline (primitives : UdpPrimitives) (crypto : UdpCrypto) (sessionId : UdpSessionId) (calls : List UdpSealCall) : Prop where
  numbered : (UdpOutboundSession.usedBy primitives crypto sessionId calls).map (·.val) =
    List.range (UdpOutboundSession.usedBy primitives crypto sessionId calls).length
  increasing : (UdpOutboundSession.usedBy primitives crypto sessionId calls).Pairwise (· < ·)
  nonces : crypto.profile ≠ .blake3ChaCha20Poly13052022 →
    ∀ sealing ∈ outcomes UdpOutboundSession.step (crypto.newOutboundSession primitives sessionId) calls, ∀ sealed,
      sealing.result = .ok sealed → sealing.nonce = some (sessionId.bytes.drop 4 ++ sealed.packetId.toBeBytes)
  exhausted : ∀ before last rest, calls = before ++ last :: rest →
    ((UdpOutboundSession.after primitives crypto sessionId before).step last).2.result = .error .counterExhausted →
    UdpOutboundSession.usedBy primitives crypto sessionId calls = UdpOutboundSession.usedBy primitives crypto sessionId before
  unchanged : ∀ before last rest error, calls = before ++ last :: rest →
    ((UdpOutboundSession.after primitives crypto sessionId before).step last).2.result = .error error →
    ((UdpOutboundSession.after primitives crypto sessionId before).step last).1 = UdpOutboundSession.after primitives crypto sessionId before
  available : ∀ before last rest, calls = before ++ last :: rest →
    (UdpOutboundSession.after primitives crypto sessionId before).Admits last →
    (UdpOutboundSession.usedBy primitives crypto sessionId before).length < 2 ^ 64 →
    ∃ sealed, ((UdpOutboundSession.after primitives crypto sessionId before).step last).2.result = .ok sealed

theorem TcpSealer.length_sealedBy (cipher : Aead) (calls : List TcpSealCall) :
    (after cipher calls).nonce.value = (sealedBy cipher calls).length := by
  have counted := numbers.count_settled (new cipher) calls
  have fresh : (new cipher).nonce.value = 0 := NonceCounter.value_new
  rw [← map_filterMap, length_map, fresh, Nat.zero_add] at counted
  exact counted

theorem UdpOutboundSession.used_new (crypto : UdpCrypto) (sessionId : UdpSessionId) :
    (crypto.newOutboundSession primitives sessionId).used = 0 := by
  unfold UdpCrypto.newOutboundSession
  split
  · rfl
  · rfl
  · rfl

theorem UdpOutboundSession.length_usedBy (crypto : UdpCrypto) (sessionId : UdpSessionId) (calls : List UdpSealCall) :
    (after primitives crypto sessionId calls).used = (usedBy primitives crypto sessionId calls).length := by
  have counted := numbers.count_settled (crypto.newOutboundSession primitives sessionId) calls
  rw [← map_filterMap, length_map, used_new, Nat.zero_add] at counted
  exact counted

theorem UdpOutboundSession.sessionId_new (crypto : UdpCrypto) (sessionId : UdpSessionId) :
    (crypto.newOutboundSession primitives sessionId).sessionId = sessionId ∧
      (crypto.newOutboundSession primitives sessionId).profile = crypto.profile := by
  obtain ⟨owner, inner⟩ := crypto
  cases inner with
  | aes wide psk header =>
    cases wide with
    | false | true => exact ⟨rfl, rfl⟩
  | chaCha20Poly1305 cipher => exact ⟨rfl, rfl⟩

theorem tcpDiscipline {cipher : Aead} (opens : cipher.Opens) (calls : List TcpSealCall) : TcpDiscipline cipher calls where
  numbered := by
    have range := TcpSealer.nonces_range (.new cipher) calls
    rw [List.range_eq_range']
    simpa [TcpSealer.new, TcpSealer.sealedBy] using range
  wide := fun _ member => TcpSealer.width_of_mem member
  distinct := by
    refine .of_map leNat ?_
    have range := TcpSealer.nonces_range (.new cipher) calls
    rw [map_map]
    exact range ▸ nodup_range'
  exhausted := by
    intro before last rest split result
    have full : (TcpSealer.after cipher before).nonce.value = NonceCounter.limit := by
      rcases TcpSealer.sealCall_cases (TcpSealer.after cipher before) last with ⟨error, failed, -, last⟩ | ⟨next, -, sealing, -⟩
      · cases failed.symm.trans result
        exact last rfl
      · rw [sealing] at result
        cases result
    have nothing := TcpSealer.numbers.exhausted (fun sealer => sealer.nonce.value_le) full (last :: rest)
    rw [← map_filterMap, map_eq_nil_iff] at nothing
    rw [split, TcpSealer.sealedBy, outcomes_append, filterMap_append]
    exact (congrArg _ nothing).trans (append_nil _)
  unchanged := by
    intro before last rest error split result
    rcases TcpSealer.sealCall_cases (TcpSealer.after cipher before) last with ⟨other, -, same, -⟩ | ⟨next, -, sealing, -⟩
    · exact same
    · rw [sealing] at result
      cases result
  available := by
    intro before last rest split inside encrypts room
    rw [← TcpSealer.length_sealedBy] at room
    exact TcpSealer.sealCall_succeeds inside encrypts room
  opened := TcpOpener.openings_sealed opens .new calls

theorem udpDiscipline (crypto : UdpCrypto) (sessionId : UdpSessionId) (calls : List UdpSealCall) :
    UdpDiscipline primitives crypto sessionId calls where
  numbered := by
    have range := UdpOutboundSession.packetIds_range (crypto.newOutboundSession primitives sessionId) calls
    rw [UdpOutboundSession.used_new, ← List.range_eq_range'] at range
    exact range
  increasing := by
    have range := UdpOutboundSession.packetIds_range (crypto.newOutboundSession primitives sessionId) calls
    have sorted := pairwise_map.mp (range ▸ pairwise_lt_range')
    exact sorted
  nonces := by
    intro aes sealing member sealed result
    obtain ⟨session, profile⟩ := UdpOutboundSession.sessionId_new primitives crypto sessionId
    have nonce := UdpOutboundSession.nonce_of_mem (profile ▸ aes) member result
    rwa [session] at nonce
  exhausted := by
    intro before last rest split result
    have full : (UdpOutboundSession.after primitives crypto sessionId before).used = 2 ^ 64 := by
      rcases UdpOutboundSession.step_cases (UdpOutboundSession.after primitives crypto sessionId before) last with
        ⟨error, failed, -, last⟩ | ⟨packetId, wireLen, found, -⟩
      · cases failed.symm.trans result
        exact last rfl
      · cases found.symm.trans result
    have nothing := UdpOutboundSession.numbers.exhausted UdpOutboundSession.used_le full (last :: rest)
    rw [← map_filterMap, map_eq_nil_iff] at nothing
    rw [split, UdpOutboundSession.usedBy, outcomes_append, filterMap_append]
    exact (congrArg _ nothing).trans (append_nil _)
  unchanged := by
    intro before last rest error split result
    rcases UdpOutboundSession.step_cases (UdpOutboundSession.after primitives crypto sessionId before) last with
      ⟨other, -, same, -⟩ | ⟨packetId, wireLen, found, -⟩
    · exact same
    · cases found.symm.trans result
  available := by
    intro before last rest split admits room
    rw [← UdpOutboundSession.length_usedBy] at room
    exact UdpOutboundSession.step_succeeds admits room

/-- The nonce discipline of both transports, over every run of calls with any mixture of
failures. -/
theorem nonces_disciplined {cipher : Aead} (opens : cipher.Opens) (tcpCalls : List TcpSealCall) (primitives : UdpPrimitives)
    (crypto : UdpCrypto) (sessionId : UdpSessionId) (udpCalls : List UdpSealCall) :
    TcpDiscipline cipher tcpCalls ∧ UdpDiscipline primitives crypto sessionId udpCalls :=
  ⟨tcpDiscipline opens tcpCalls, udpDiscipline primitives crypto sessionId udpCalls⟩

/-- A failure of the primitive and a bad start, between two calls that succeed. -/
def sampleTcpCalls : List TcpSealCall :=
  [.suffixInPlace [1, 2, 3] 1 .encrypts, .inPlace [4] (.fails [0]), .suffixInPlace [5] 2 .encrypts, .inPlace [6, 7] .encrypts]

/-- A foreign owner and a short output, between two calls that succeed. -/
def sampleUdpCalls : List UdpSealCall :=
  [⟨sampleCrypto, [1], List.replicate 40 0, sampleRandom, .encrypts⟩,
    ⟨{ sampleCrypto with owner := 8 }, [1], List.replicate 40 0, sampleRandom, .encrypts⟩,
    ⟨sampleCrypto, [1], [], sampleRandom, .encrypts⟩,
    ⟨sampleCrypto, [2], List.replicate 40 0, sampleRandom, .encrypts⟩]

theorem sample_nonces_disciplined :
    Aead.sample.Opens ∧
    (TcpSealer.sealedBy .sample sampleTcpCalls).map (leNat ·.nonce) = [0, 1] ∧
    (UdpOutboundSession.usedBy samplePrimitives sampleCrypto sampleSessionId sampleUdpCalls).map (·.val) = [0, 1] ∧
    TcpDiscipline .sample sampleTcpCalls ∧ UdpDiscipline samplePrimitives sampleCrypto sampleSessionId sampleUdpCalls :=
  ⟨Aead.sample_opens, by decide +kernel, by decide +kernel,
    nonces_disciplined Aead.sample_opens sampleTcpCalls samplePrimitives sampleCrypto sampleSessionId sampleUdpCalls⟩

end Ferrum.Crypto
