import Ferrum.Crypto.Method
import Ferrum.Lib.Checked

namespace Ferrum.Crypto

/-- The closed UDP cryptographic failures. -/
inductive UdpCryptoError
  | outputTooSmall | inputTooShort | authenticationFailed | randomUnavailable | operationFailed
  | counterExhausted | methodMismatch | ownerMismatch | ownerExhausted
  deriving DecidableEq, Repr

/-- The eight bytes of a session identifier. -/
structure UdpSessionId where
  bytes : List UInt8
  width : bytes.length = udpSessionIdBytes
  deriving DecidableEq

abbrev PacketId := U64

/-- The AES permutation over the sixteen bytes of the separate header. -/
structure AesHeaderCipher where
  encrypt : List UInt8 → List UInt8
  decrypt : List UInt8 → List UInt8
  length_encrypt : ∀ header, (encrypt header).length = header.length
  length_decrypt : ∀ header, (decrypt header).length = header.length

def AesHeaderCipher.Opens (header : AesHeaderCipher) : Prop := ∀ block, header.decrypt (header.encrypt block) = block

/-- What the methods expand a key into: header permutation and session body ciphers for AES, the direct cipher for ChaCha. -/
structure UdpPrimitives where
  aesHeader : Bool → List UInt8 → AesHeaderCipher
  aesBody : Bool → List UInt8 → UdpSessionId → Aead
  chaCha : List UInt8 → Aead

/-- Every primitive opens what it sealed. -/
structure UdpPrimitives.Opens (primitives : UdpPrimitives) : Prop where
  header : ∀ wide psk, (primitives.aesHeader wide psk).Opens
  body : ∀ wide psk sessionId, (primitives.aesBody wide psk sessionId).Opens
  chaCha : ∀ psk, (primitives.chaCha psk).Opens

/-- The pre-shared key of one method. -/
inductive MethodPskBytes
  | aes128 (psk : List UInt8) (width : psk.length = aes128KeyBytes)
  | aes256 (psk : List UInt8) (width : psk.length = wideKeyBytes)
  | chaCha20Poly1305 (psk : List UInt8) (width : psk.length = wideKeyBytes)

/-- The method state; an AES owner keeps its key to derive the body cipher of a session. -/
inductive UdpCryptoInner
  | aes (wide : Bool) (psk : List UInt8) (header : AesHeaderCipher)
  | chaCha20Poly1305 (cipher : Aead)

/-- A method-bound owner, named by the identity that it was allocated. -/
structure UdpCrypto where
  owner : Nat
  inner : UdpCryptoInner

/-- The next packet identifier; none once all are used. -/
structure UdpPacketCounter where
  next : Option PacketId
  deriving DecidableEq

/-- An outbound session. An AES session owns the body cipher of its identifier. -/
structure UdpOutboundSession where
  owner : Nat
  profile : MethodProfile
  sessionId : UdpSessionId
  counter : UdpPacketCounter
  aesBodyCipher : Option Aead
  ownsCipher : profile ≠ .blake3ChaCha20Poly13052022 → aesBodyCipher.isSome

structure UdpSealResult where
  wireLen : Nat
  packetId : PacketId

structure UdpOpenResult where
  sessionId : UdpSessionId
  packetId : PacketId
  plaintextLen : Nat

/-- The random source of one call: it fills the whole destination or fails. -/
structure SecureRandom where
  fill : Nat → Option (List UInt8)
  length_fill : ∀ width bytes, fill width = some bytes → bytes.length = width

namespace UdpPacketCounter

def new : UdpPacketCounter := ⟨some 0⟩

def current (counter : UdpPacketCounter) : Except UdpCryptoError PacketId :=
  match counter.next with
  | some packetId => .ok packetId
  | none => .error .counterExhausted

/-- `checked_add(1)`: nothing follows the last identifier. -/
def commit (packetId : PacketId) : UdpPacketCounter :=
  ⟨if bound : packetId.val + 1 < 2 ^ 64 then some ⟨packetId.val + 1, bound⟩ else none⟩

end UdpPacketCounter

def udpIdentity (sessionId : UdpSessionId) (packetId : PacketId) : List UInt8 :=
  sessionId.bytes ++ packetId.toBeBytes

/-- What a call of `seal` leaves: the session, the output, the nonce handed to the body cipher, and its result. -/
structure UdpSealing where
  outbound : UdpOutboundSession
  output : List UInt8
  nonce : Option (List UInt8)
  result : Except UdpCryptoError UdpSealResult

/-- The wire bytes of one packet and the nonce of its body. -/
structure UdpEnvelope where
  nonce : Option (List UInt8)
  wire : Except UdpCryptoError (List UInt8)

def sealAesUdp (header : AesHeaderCipher) (cipher : Aead) (sessionId : UdpSessionId) (packetId : PacketId)
    (plaintextBody : List UInt8) (primitive : Primitive) : UdpEnvelope :=
  let identity := udpIdentity sessionId packetId
  let protectedHeader := header.encrypt identity
  let nonce := slice identity 4 udpIdentityBytes
  match primitive with
  | .fails _ => ⟨some nonce, .error .operationFailed⟩
  | .encrypts =>
    let (body, tag) := cipher.encrypt nonce plaintextBody
    ⟨some nonce, .ok (protectedHeader ++ body ++ tag)⟩

def sealXchachaUdp (cipher : Aead) (random : SecureRandom) (sessionId : UdpSessionId) (packetId : PacketId)
    (plaintextBody : List UInt8) (primitive : Primitive) : UdpEnvelope :=
  match random.fill xchachaNonceBytes with
  | none => ⟨none, .error .randomUnavailable⟩
  | some nonce =>
    match primitive with
    | .fails _ => ⟨some nonce, .error .operationFailed⟩
    | .encrypts =>
      let (body, tag) := cipher.encrypt nonce (sessionId.bytes ++ packetId.toBeBytes ++ plaintextBody)
      ⟨some nonce, .ok (nonce ++ body ++ tag)⟩

namespace UdpOutboundSession

def new (owner : Nat) (profile : MethodProfile) (sessionId : UdpSessionId) (aesBodyCipher : Option Aead)
    (ownsCipher : profile ≠ .blake3ChaCha20Poly13052022 → aesBodyCipher.isSome) : UdpOutboundSession :=
  ⟨owner, profile, sessionId, .new, aesBodyCipher, ownsCipher⟩

end UdpOutboundSession

namespace UdpCrypto

def fromMethodKey (primitives : UdpPrimitives) (owner : Nat) : MethodPskBytes → UdpCrypto
  | .aes128 psk _ => ⟨owner, .aes false psk (primitives.aesHeader false psk)⟩
  | .aes256 psk _ => ⟨owner, .aes true psk (primitives.aesHeader true psk)⟩
  | .chaCha20Poly1305 psk _ => ⟨owner, .chaCha20Poly1305 (primitives.chaCha psk)⟩

def profile (crypto : UdpCrypto) : MethodProfile :=
  match crypto.inner with
  | .aes false _ _ => .blake3Aes128Gcm2022
  | .aes true _ _ => .blake3Aes256Gcm2022
  | .chaCha20Poly1305 _ => .blake3ChaCha20Poly13052022

/-- An AES session gets the body cipher that its identifier gives. -/
def newOutboundSession (primitives : UdpPrimitives) (crypto : UdpCrypto) (sessionId : UdpSessionId) : UdpOutboundSession :=
  match crypto with
  | ⟨owner, .aes false psk _⟩ =>
    .new owner .blake3Aes128Gcm2022 sessionId (some (primitives.aesBody false psk sessionId)) fun _ => rfl
  | ⟨owner, .aes true psk _⟩ =>
    .new owner .blake3Aes256Gcm2022 sessionId (some (primitives.aesBody true psk sessionId)) fun _ => rfl
  | ⟨owner, .chaCha20Poly1305 _⟩ => .new owner .blake3ChaCha20Poly13052022 sessionId none (absurd rfl)

theorem profile_ne_chaCha {crypto : UdpCrypto} {wide : Bool} {psk : List UInt8} {header : AesHeaderCipher}
    (aes : crypto.inner = .aes wide psk header) : crypto.profile ≠ .blake3ChaCha20Poly13052022 := by
  unfold profile
  rw [aes]
  cases wide with
  | false => simp
  | true => simp

/-- The envelope of one packet. The session has the owner's profile, so that an AES owner always meets an AES session. -/
def envelope (crypto : UdpCrypto) (outbound : UdpOutboundSession) (same : outbound.profile = crypto.profile)
    (random : SecureRandom) (packetId : PacketId) (plaintextBody : List UInt8) (primitive : Primitive) : UdpEnvelope :=
  match aes : crypto.inner with
  | .aes _ _ header =>
    let cipher := outbound.aesBodyCipher.get (outbound.ownsCipher (same ▸ profile_ne_chaCha aes))
    sealAesUdp header cipher outbound.sessionId packetId plaintextBody primitive
  | .chaCha20Poly1305 cipher => sealXchachaUdp cipher random outbound.sessionId packetId plaintextBody primitive

/-- Seals one packet. The identifier advances only once the whole wire is in the output; a failing method clears that part. -/
def sealUdp (crypto : UdpCrypto) (outbound : UdpOutboundSession) (plaintextBody output : List UInt8)
    (random : SecureRandom) (primitive : Primitive) : UdpSealing :=
  if outbound.owner ≠ crypto.owner then ⟨outbound, output, none, .error .ownerMismatch⟩
  else if same : outbound.profile ≠ crypto.profile then ⟨outbound, output, none, .error .methodMismatch⟩
  else
    match outbound.counter.current with
    | .error error => ⟨outbound, output, none, .error error⟩
    | .ok packetId =>
      let wireLen := plaintextBody.length + crypto.profile.udpWireOverheadBytes
      if 2 ^ 64 ≤ wireLen ∨ output.length < wireLen then ⟨outbound, output, none, .error .outputTooSmall⟩
      else
        let envelope := crypto.envelope outbound (not_not.mp same) random packetId plaintextBody primitive
        match envelope.wire with
        | .error error => ⟨outbound, List.replicate wireLen 0 ++ output.drop wireLen, envelope.nonce, .error error⟩
        | .ok wire =>
          ⟨{ outbound with counter := .commit packetId }, wire ++ output.drop wireLen, envelope.nonce,
            .ok ⟨wireLen, packetId⟩⟩

end UdpCrypto

def sampleSessionId : UdpSessionId := ⟨[1, 2, 3, 4, 5, 6, 7, 8], rfl⟩

def sampleHeaderCipher : AesHeaderCipher := ⟨List.reverse, List.reverse, fun _ => List.length_reverse, fun _ => List.length_reverse⟩

def samplePrimitives : UdpPrimitives := ⟨fun _ _ => sampleHeaderCipher, fun _ _ _ => .sample, fun _ => .sample⟩

def sampleRandom : SecureRandom := ⟨fun width => some (List.replicate width 9), by
  rintro width bytes ⟨⟩
  exact List.length_replicate⟩

def sampleCrypto : UdpCrypto := .fromMethodKey samplePrimitives 7 (.aes128 (List.replicate 16 1) rfl)

theorem samplePrimitives_opens : samplePrimitives.Opens where
  header _ _ block := List.reverse_reverse block
  body _ _ _ := Aead.sample_opens
  chaCha _ := Aead.sample_opens

end Ferrum.Crypto
