import Ferrum.Crypto.UdpOpen

namespace Ferrum.Crypto

open Checked

/-- `open_aes_udp` without a cache: the body cipher is expanded for this packet alone. -/
def openAesUdpUncached (primitives : UdpPrimitives) (wide : Bool) (psk : List UInt8) (header : AesHeaderCipher)
    (wire plaintextOutput : List UInt8) : Checked UdpCryptoError (UdpOpenResult × List UInt8) := do
  let bodyLen ← aesUdpBodyLen wire plaintextOutput
  let protectedHeader ← slicing wire 0 udpIdentityBytes
  let identity := header.decrypt protectedHeader
  let sessionBytes ← slicing identity 0 udpSessionIdBytes
  let packetBytes ← slicing identity udpSessionIdBytes identity.length
  assert (packetBytes.length = udpPacketIdBytes)
  let nonce ← slicing identity 4 udpIdentityBytes
  let candidateSession ← expect (UdpSessionId.fromSlice sessionBytes)
  let body ← slicing wire udpIdentityBytes (udpIdentityBytes + bodyLen)
  let tag ← slicing wire (udpIdentityBytes + bodyLen) wire.length
  assert (tag.length = aeadTagBytes)
  let plaintext ← okOr ((primitives.aesBody wide psk candidateSession).decrypt nonce body tag) .authenticationFailed
  return (⟨candidateSession, U64.fromBeBytes packetBytes, bodyLen⟩, plaintext ++ plaintextOutput.drop bodyLen)

structure UdpOpened where
  result : Except UdpCryptoError UdpOpenResult
  plaintextOutput : List UInt8

/-- The output after a failure: what was decrypted into it is cleared. -/
def UdpCrypto.clearedOutput (crypto : UdpCrypto) (wire plaintextOutput : List UInt8) : UdpCryptoError → List UInt8
  | .authenticationFailed =>
    let length := match crypto.inner with
      | .aes .. => wire.length - (udpIdentityBytes + aeadTagBytes)
      | .chaCha20Poly1305 _ => wire.length - (xchachaNonceBytes + aeadTagBytes)
    List.replicate length 0 ++ plaintextOutput.drop length
  | _ => plaintextOutput

/-- `open`; none is a panic. ChaCha opens alike with and without a cache. -/
def UdpCrypto.openUncached (primitives : UdpPrimitives) (crypto : UdpCrypto) (wire plaintextOutput : List UInt8) :
    Option UdpOpened :=
  let run := match crypto.inner with
    | .aes wide psk header => openAesUdpUncached primitives wide psk header wire plaintextOutput
    | .chaCha20Poly1305 cipher =>
      (openXchachaUdp cipher wire plaintextOutput .empty).map fun opening : UdpOpening primitives =>
        (opening.result, opening.plaintextOutput)
  match run with
  | .ok (result, plaintextOutput) => some ⟨.ok result, plaintextOutput⟩
  | .error (.error error) => some ⟨.error error, crypto.clearedOutput wire plaintextOutput error⟩
  | .error .panic => none

section cache

variable {primitives : UdpPrimitives}

/-- `open_with_cache` with the cache that it leaves; a failure leaves the cache as it was. -/
def UdpCrypto.openCached (crypto : UdpCrypto) (wire plaintextOutput : List UInt8) (cache : UdpOpenCache primitives) :
    Option (UdpOpened × UdpOpenCache primitives) :=
  match crypto.openWithCache wire plaintextOutput cache with
  | .ok opening => some (⟨.ok opening.result, opening.plaintextOutput⟩, opening.cache)
  | .error (.error error) => some (⟨.error error, crypto.clearedOutput wire plaintextOutput error⟩, cache)
  | .error .panic => none

/-- A packet, the owner that opens it and the output that it is given. -/
structure UdpPacket where
  crypto : UdpCrypto
  wire : List UInt8
  plaintextOutput : List UInt8

/-- The packets of any owners, one after the other through one cache. -/
def openAll (cache : UdpOpenCache primitives) : List UdpPacket → Option (List UdpOpened × UdpOpenCache primitives)
  | [] => some ([], cache)
  | packet :: packets => do
    let (opened, cache) ← packet.crypto.openCached packet.wire packet.plaintextOutput cache
    let (rest, cache) ← openAll cache packets
    return (opened :: rest, cache)

theorem exists_map_bind {ε α β γ κ : Type} {run : Except ε α} {first : α → Except ε β} {second : α → Except ε γ}
    {make : γ → κ → β} (cache : κ) (next : ∀ value, ∃ after, first value = (second value).map (make · after)) :
    ∃ after, run >>= first = (run >>= second).map (make · after) := by
  cases run with
  | error error => exact ⟨cache, rfl⟩
  | ok value => exact next value

theorem openAesUdp_uncached (wide : Bool) (psk : List UInt8) (header : AesHeaderCipher) (wire plaintextOutput : List UInt8)
    (cache : UdpOpenCache primitives) : ∃ after, openAesUdp wide psk header wire plaintextOutput cache =
      (openAesUdpUncached primitives wide psk header wire plaintextOutput).map fun opened => ⟨opened.1, opened.2, after⟩ := by
  unfold openAesUdp openAesUdpUncached
  -- The runs are one until the body is decrypted.
  iterate 10 refine exists_map_bind cache fun _ => ?_
  rename_i nonce session body tag _
  obtain ⟨after, opened⟩ := decryptAesBody_eq wide psk cache session nonce body tag
  refine ⟨after, ?_⟩
  rw [opened]
  cases (primitives.aesBody wide psk session).decrypt nonce body tag with
  | none => rfl
  | some plaintext => rfl

theorem map_bind {ε α β γ : Type} (run : Except ε α) (next : α → Except ε β) (f : β → γ) :
    (run >>= next).map f = run >>= fun value => (next value).map f := by
  cases run <;> rfl

theorem openXchachaUdp_cache (cipher : Aead) (wire plaintextOutput : List UInt8) (first second : UdpOpenCache primitives) :
    openXchachaUdp cipher wire plaintextOutput first =
      (openXchachaUdp cipher wire plaintextOutput second).map fun opening => { opening with cache := first } := by
  unfold openXchachaUdp
  simp only [map_bind]
  rfl

theorem openCached_eq (crypto : UdpCrypto) (wire plaintextOutput : List UInt8) (cache : UdpOpenCache primitives) :
    ∃ opened after, crypto.openUncached primitives wire plaintextOutput = some opened ∧
      crypto.openCached wire plaintextOutput cache = some (opened, after) := by
  have safe := openWithCache_safe crypto wire plaintextOutput cache
  unfold UdpCrypto.openUncached UdpCrypto.openCached
  unfold UdpCrypto.openWithCache at safe ⊢
  cases inner : crypto.inner with
  | aes wide psk header =>
    rw [inner] at safe
    obtain ⟨after, same⟩ := openAesUdp_uncached wide psk header wire plaintextOutput cache
    simp only [same] at safe ⊢
    cases run : openAesUdpUncached primitives wide psk header wire plaintextOutput with
    | ok opened => exact ⟨_, after, rfl, rfl⟩
    | error halt =>
      cases halt with
      | error error => exact ⟨_, cache, rfl, rfl⟩
      | panic =>
        rw [run] at safe
        exact absurd rfl safe
  | chaCha20Poly1305 cipher =>
    rw [inner] at safe
    have same := openXchachaUdp_cache cipher wire plaintextOutput cache .empty
    simp only [same] at safe ⊢
    cases run : openXchachaUdp cipher wire plaintextOutput (.empty : UdpOpenCache primitives) with
    | ok opening => exact ⟨_, cache, rfl, rfl⟩
    | error halt =>
      cases halt with
      | error error => exact ⟨_, cache, rfl, rfl⟩
      | panic =>
        rw [run] at safe
        exact absurd rfl safe

/-- Whatever is in the cache and whatever packets of whatever owners come, each of them opens through
the cache to what it opens to by itself. -/
theorem openAll_transparent (cache : UdpOpenCache primitives) (packets : List UdpPacket) :
    ∃ opened after, openAll cache packets = some (opened, after) ∧
      opened.map some = packets.map fun packet => packet.crypto.openUncached primitives packet.wire packet.plaintextOutput := by
  induction packets generalizing cache with
  | nil => exact ⟨[], cache, rfl, rfl⟩
  | cons packet packets ih =>
    obtain ⟨opened, next, alone, cached⟩ := openCached_eq packet.crypto packet.wire packet.plaintextOutput cache
    obtain ⟨rest, after, ran, same⟩ := ih next
    refine ⟨opened :: rest, after, ?_, ?_⟩
    · simp only [openAll, cached, ran, bind, Option.bind, pure]
    · rw [List.map_cons, List.map_cons, same, alone]

end cache

end Ferrum.Crypto
