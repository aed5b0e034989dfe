import Ferrum.Crypto.UdpAead

namespace Ferrum.Crypto

open List Checked

def aesOpenCacheEntries : Nat := 4

/-- One entry of the cache; its cipher is the one that the key and the session give. -/
structure CachedAesBodyCipher (primitives : UdpPrimitives) where
  wide : Bool
  psk : List UInt8
  sessionId : UdpSessionId
  cipher : Aead
  derived : cipher = primitives.aesBody wide psk sessionId

/-- The bounded cache of authenticated body ciphers, replaced in turn once it is full. -/
structure UdpOpenCache (primitives : UdpPrimitives) where
  aes : List (CachedAesBodyCipher primitives)
  nextAesReplacement : Nat
  bounded : aes.length ≤ aesOpenCacheEntries
  cyclic : nextAesReplacement < aesOpenCacheEntries

/-- The comparison without an early exit. -/
def secretBytesEqual (left right : List UInt8) : Bool :=
  if left.length ≠ right.length then false
  else (left.zip right).foldl (fun difference pair => difference ||| (pair.1 ^^^ pair.2)) 0 == 0

variable (sessionId : UdpSessionId)

def UdpSessionId.matchesWire (encoded : List UInt8) : Bool :=
  secretBytesEqual sessionId.bytes encoded

/-- `copy_from_slice` into the eight bytes of an identifier. -/
def UdpSessionId.fromSlice (bytes : List UInt8) : Option UdpSessionId :=
  if width : bytes.length = udpSessionIdBytes then some ⟨bytes, width⟩ else none

structure UdpOpening (primitives : UdpPrimitives) where
  result : UdpOpenResult
  plaintextOutput : List UInt8
  cache : UdpOpenCache primitives

section open_

variable {primitives : UdpPrimitives}

def UdpOpenCache.empty : UdpOpenCache primitives := ⟨[], 0, Nat.zero_le _, by decide⟩

variable (wide : Bool)

def cachedAesBodyCipher (psk : List UInt8) (cache : UdpOpenCache primitives) (sessionId : UdpSessionId) :
    Option (CachedAesBodyCipher primitives) :=
  cache.aes.find? fun cached => cached.wide == wide && cached.sessionId == sessionId && secretBytesEqual cached.psk psk

def cacheAesBodyCipher (psk : List UInt8) (cache : UdpOpenCache primitives) (sessionId : UdpSessionId) :
    Checked UdpCryptoError (UdpOpenCache primitives) :=
  let entry : CachedAesBodyCipher primitives := ⟨wide, psk, sessionId, primitives.aesBody wide psk sessionId, rfl⟩
  if room : cache.aes.length < aesOpenCacheEntries then
    .ok ⟨cache.aes ++ [entry], cache.nextAesReplacement, by rw [length_append]; exact room, cache.cyclic⟩
  else if cache.nextAesReplacement < cache.aes.length then
    .ok ⟨cache.aes.set cache.nextAesReplacement entry, (cache.nextAesReplacement + 1) % aesOpenCacheEntries,
      by simpa using cache.bounded, Nat.mod_lt _ (by decide)⟩
  else .error .panic

def aesUdpBodyLen (wire plaintextOutput : List UInt8) : Checked UdpCryptoError Nat := do
  failIf (wire.length < udpIdentityBytes + aeadTagBytes) .inputTooShort
  let bodyLen := wire.length - (udpIdentityBytes + aeadTagBytes)
  failIf (plaintextOutput.length < bodyLen) .outputTooSmall
  return bodyLen

/-- Decrypts a body under the session's cached cipher, or a new one that is cached once the body is authenticated. -/
def decryptAesBody (psk : List UInt8) (cache : UdpOpenCache primitives) (sessionId : UdpSessionId)
    (nonce body tag : List UInt8) : Checked UdpCryptoError (List UInt8 × UdpOpenCache primitives) :=
  match cachedAesBodyCipher wide psk cache sessionId with
  | some cached => do
    let plaintext ← okOr (cached.cipher.decrypt nonce body tag) .authenticationFailed
    return (plaintext, cache)
  | none => do
    let plaintext ← okOr ((primitives.aesBody wide psk sessionId).decrypt nonce body tag) .authenticationFailed
    let cache ← cacheAesBodyCipher wide psk cache sessionId
    return (plaintext, cache)

def openAesUdp (psk : List UInt8) (header : AesHeaderCipher) (wire plaintextOutput : List UInt8)
    (cache : UdpOpenCache primitives) : Checked UdpCryptoError (UdpOpening primitives) := do
  let bodyLen ← aesUdpBodyLen wire plaintextOutput
  let protectedHeader ← slicing wire 0 udpIdentityBytes
  let identity := header.decrypt protectedHeader
  let sessionBytes ← slicing identity 0 udpSessionIdBytes
  let packetBytes ← slicing identity udpSessionIdBytes identity.length
  assert (packetBytes.length = udpPacketIdBytes)
  let nonce ← slicing identity 4 udpIdentityBytes
  let candidateSession ← expect (UdpSessionId.fromSlice sessionBytes)
  let body ← slicing wire udpIdentityBytes (udpIdentityBytes + bodyLen)
  let tag ← slicing wire (udpIdentityBytes + bodyLen) wire.length
  assert (tag.length = aeadTagBytes)
  let (plaintext, cache) ← decryptAesBody wide psk cache candidateSession nonce body tag
  return ⟨⟨candidateSession, U64.fromBeBytes packetBytes, bodyLen⟩, plaintext ++ plaintextOutput.drop bodyLen, cache⟩

variable (cipher : Aead)

def openXchachaUdp (wire plaintextOutput : List UInt8) (cache : UdpOpenCache primitives) :
    Checked UdpCryptoError (UdpOpening primitives) := do
  failIf (wire.length < xchachaNonceBytes + aeadTagBytes) .inputTooShort
  let encryptedLen := wire.length - (xchachaNonceBytes + aeadTagBytes)
  failIf (encryptedLen < udpIdentityBytes) .inputTooShort
  failIf (plaintextOutput.length < encryptedLen) .outputTooSmall
  let nonce ← slicing wire 0 xchachaNonceBytes
  let body ← slicing wire xchachaNonceBytes (xchachaNonceBytes + encryptedLen)
  let tag ← slicing wire (xchachaNonceBytes + encryptedLen) wire.length
  assert (tag.length = aeadTagBytes)
  let plaintext ← okOr (cipher.decrypt nonce body tag) .authenticationFailed
  let plaintextOutput := plaintext ++ plaintextOutput.drop encryptedLen
  let sessionBytes ← slicing plaintextOutput 0 udpSessionIdBytes
  let session ← expect (UdpSessionId.fromSlice sessionBytes)
  let packetBytes ← slicing plaintextOutput udpSessionIdBytes udpIdentityBytes
  assert (packetBytes.length = udpPacketIdBytes)
  let moved ← slicing plaintextOutput udpIdentityBytes encryptedLen
  let bodyLen := encryptedLen - udpIdentityBytes
  let plaintextOutput := moved ++ List.replicate udpIdentityBytes 0 ++ plaintextOutput.drop encryptedLen
  return ⟨⟨session, U64.fromBeBytes packetBytes, bodyLen⟩, plaintextOutput, cache⟩

/-- Authenticates and opens one envelope. -/
def UdpCrypto.openWithCache (crypto : UdpCrypto) (wire plaintextOutput : List UInt8) (cache : UdpOpenCache primitives) :
    Checked UdpCryptoError (UdpOpening primitives) :=
  match crypto.inner with
  | .aes wide psk header => openAesUdp wide psk header wire plaintextOutput cache
  | .chaCha20Poly1305 cipher => openXchachaUdp cipher wire plaintextOutput cache

theorem or_foldl_eq_zero (pairs : List (UInt8 × UInt8)) (difference : UInt8) :
    pairs.foldl (fun difference pair => difference ||| (pair.1 ^^^ pair.2)) difference = 0 ↔
      difference = 0 ∧ ∀ pair ∈ pairs, pair.1 = pair.2 := by
  induction pairs generalizing difference with
  | nil => simp
  | cons pair rest ih =>
    rw [foldl_cons, ih, UInt8.or_eq_zero_iff, UInt8.xor_eq_zero_iff, forall_mem_cons, and_assoc]

theorem forall_zip_eq {left right : List UInt8} (length : left.length = right.length) :
    (∀ pair ∈ left.zip right, pair.1 = pair.2) ↔ left = right := by
  induction left generalizing right with
  | nil =>
    cases right with
    | nil => simp
    | cons byte rest => cases length
  | cons byte rest ih =>
    cases right with
    | nil => cases length
    | cons other others =>
      rw [zip_cons_cons, forall_mem_cons, ih (Nat.succ.inj length), List.cons.injEq]

theorem secretBytesEqual_iff {left right : List UInt8} : secretBytesEqual left right = true ↔ left = right := by
  unfold secretBytesEqual
  split
  · rename_i different
    simp only [Bool.false_eq_true, false_iff]
    exact fun same => different (congrArg List.length same)
  · rename_i same
    rw [beq_iff_eq, or_foldl_eq_zero, forall_zip_eq (not_not.mp same)]
    simp

theorem cipher_of_cached {wide : Bool} {psk : List UInt8} {cache : UdpOpenCache primitives} {sessionId : UdpSessionId}
    {cached : CachedAesBodyCipher primitives} (found : cachedAesBodyCipher wide psk cache sessionId = some cached) :
    cached.cipher = primitives.aesBody wide psk sessionId := by
  have passes := List.find?_some found
  simp only [Bool.and_eq_true, beq_iff_eq, secretBytesEqual_iff] at passes
  obtain ⟨⟨sameWide, sameSession⟩, samePsk⟩ := passes
  rw [cached.derived, sameWide, sameSession, samePsk]

variable (psk : List UInt8) (cache : UdpOpenCache primitives)

theorem cacheAesBodyCipher_ok (sessionId : UdpSessionId) :
    ∃ after, cacheAesBodyCipher wide psk cache sessionId = .ok after := by
  have cyclic := cache.cyclic
  unfold cacheAesBodyCipher
  dsimp only
  split
  · exact ⟨_, rfl⟩
  · rw [if_pos (by omega)]
    exact ⟨_, rfl⟩

theorem decryptAesBody_eq (sessionId : UdpSessionId) (nonce body tag : List UInt8) :
    ∃ after, decryptAesBody wide psk cache sessionId nonce body tag =
      okOr (((primitives.aesBody wide psk sessionId).decrypt nonce body tag).map (·, after)) .authenticationFailed := by
  unfold decryptAesBody
  split
  · rename_i cached found
    rw [cipher_of_cached found]
    refine ⟨cache, ?_⟩
    cases (primitives.aesBody wide psk sessionId).decrypt nonce body tag with
    | none => rfl
    | some plaintext => rfl
  · obtain ⟨after, stored⟩ := cacheAesBodyCipher_ok wide psk cache sessionId
    refine ⟨after, ?_⟩
    rw [stored]
    cases (primitives.aesBody wide psk sessionId).decrypt nonce body tag with
    | none => rfl
    | some plaintext => rfl

/-- The identity of a packet: the identifier of the session, then that of the packet. -/
def sessionOf (identity : List UInt8) (width : identity.length = udpIdentityBytes) : UdpSessionId :=
  ⟨slice identity 0 udpSessionIdBytes, by
    rw [length_slice, width]
    rfl⟩

def packetOf (identity : List UInt8) : PacketId := U64.fromBeBytes (slice identity udpSessionIdBytes udpIdentityBytes)

theorem fromSlice_of_length {bytes : List UInt8} (width : bytes.length = udpSessionIdBytes) :
    UdpSessionId.fromSlice bytes = some ⟨bytes, width⟩ := dif_pos width

variable {wire plaintextOutput : List UInt8} {bodyLen : Nat}

theorem aesUdpBodyLen_eq_ok : aesUdpBodyLen wire plaintextOutput = .ok bodyLen ↔
      wire.length = udpIdentityBytes + aeadTagBytes + bodyLen ∧ bodyLen ≤ plaintextOutput.length := by
  simp only [aesUdpBodyLen, bind_eq_ok, failIf_eq_ok, pure, Except.pure, Except.ok.injEq, exists_and_left, exists_const]
  omega

theorem openAesUdp_eq (header : AesHeaderCipher) (cache : UdpOpenCache primitives)
    (measured : aesUdpBodyLen wire plaintextOutput = .ok bodyLen) {identity : List UInt8}
    (width : identity.length = udpIdentityBytes) (decrypted : header.decrypt (slice wire 0 udpIdentityBytes) = identity) :
    openAesUdp wide psk header wire plaintextOutput cache =
      (decryptAesBody wide psk cache (sessionOf identity width) (slice identity 4 udpIdentityBytes)
        (slice wire udpIdentityBytes (udpIdentityBytes + bodyLen)) (slice wire (udpIdentityBytes + bodyLen) wire.length) >>=
      fun opened => .ok ⟨⟨sessionOf identity width, packetOf identity, bodyLen⟩, opened.1 ++ plaintextOutput.drop bodyLen,
        opened.2⟩) := by
  obtain ⟨length, room⟩ := aesUdpBodyLen_eq_ok.mp measured
  have identityLength : udpIdentityBytes = 16 := rfl
  have tagLength : aeadTagBytes = 16 := rfl
  have sessionLength : udpSessionIdBytes = 8 := rfl
  have tagWidth : (slice wire (udpIdentityBytes + bodyLen) wire.length).length = aeadTagBytes := by
    rw [length_slice]
    omega
  have packetWidth : (slice identity udpSessionIdBytes identity.length).length = udpPacketIdBytes := by
    rw [length_slice, width]
    rfl
  have sessionWidth : (slice identity 0 udpSessionIdBytes).length = udpSessionIdBytes := by
    rw [length_slice, width]
    rfl
  unfold openAesUdp
  rw [measured]
  simp only [bind, Except.bind, pure, Except.pure]
  rw [slicing_of_le (by omega) (by omega)]
  simp only [decrypted]
  rw [slicing_of_le (by omega) (by omega), slicing_of_le (by omega) (by omega), slicing_of_le (by omega) (by omega),
    slicing_of_le (by omega) (by omega), slicing_of_le (by omega) (by omega)]
  simp only [assert, packetWidth, tagWidth, if_true, fromSlice_of_length sessionWidth, expect]
  rw [width]
  rfl

/-- The bounds of a ChaCha envelope. -/
structure XchachaFits (wire plaintextOutput : List UInt8) (bodyLen : Nat) : Prop where
  length : wire.length = xchachaNonceBytes + (udpIdentityBytes + bodyLen) + aeadTagBytes
  room : udpIdentityBytes + bodyLen ≤ plaintextOutput.length

/-- What a ChaCha open leaves in the output: the body, then zeros where the identity was. -/
def shifted (plaintext plaintextOutput : List UInt8) : List UInt8 :=
  plaintext.drop udpIdentityBytes ++ List.replicate udpIdentityBytes 0 ++ plaintextOutput.drop plaintext.length

theorem openXchachaUdp_eq (fits : XchachaFits wire plaintextOutput bodyLen) {opened : Option (List UInt8)}
    (decrypted : cipher.decrypt (slice wire 0 xchachaNonceBytes)
      (slice wire xchachaNonceBytes (xchachaNonceBytes + (udpIdentityBytes + bodyLen)))
      (slice wire (xchachaNonceBytes + (udpIdentityBytes + bodyLen)) wire.length) = opened)
    (width : ∀ plaintext ∈ opened, (plaintext.take udpIdentityBytes).length = udpIdentityBytes) :
    openXchachaUdp cipher wire plaintextOutput cache = match opened, width with
      | none, _ => fail .authenticationFailed | some plaintext, width =>
        .ok ⟨⟨sessionOf (plaintext.take udpIdentityBytes) (width plaintext rfl), packetOf (plaintext.take udpIdentityBytes), bodyLen⟩,
          shifted plaintext plaintextOutput, cache⟩ := by
  have length := fits.length
  have room := fits.room
  have encrypted : wire.length - (xchachaNonceBytes + aeadTagBytes) = udpIdentityBytes + bodyLen := by omega
  have tagWidth : (slice wire (xchachaNonceBytes + (udpIdentityBytes + bodyLen)) wire.length).length = aeadTagBytes := by
    rw [length_slice]
    omega
  unfold openXchachaUdp
  simp only [failIf, encrypted]
  rw [if_neg (by omega), if_neg (by omega), if_neg (by omega)]
  simp only [bind, Except.bind, pure, Except.pure]
  rw [slicing_of_le (by omega) (by omega), slicing_of_le (by omega) (by omega), slicing_of_le (by omega) (by omega)]
  simp only [assert, tagWidth, if_true, decrypted]
  cases opened with
  | none => rfl
  | some plaintext =>
    have whole := cipher.length_decrypt _ _ _ _ decrypted
    rw [length_slice] at whole
    have output : (plaintext ++ List.drop (udpIdentityBytes + bodyLen) plaintextOutput).length = plaintextOutput.length := by
      rw [length_append, length_drop]
      omega
    have identityLength : udpIdentityBytes = 16 := rfl
    have sessionLength : udpSessionIdBytes = 8 := rfl
    have front := width plaintext rfl
    have sessionWidth : (slice (plaintext.take udpIdentityBytes) 0 udpSessionIdBytes).length = udpSessionIdBytes := by
      rw [length_slice, front]
      rfl
    have packetWidth :
        (slice (plaintext.take udpIdentityBytes) udpSessionIdBytes udpIdentityBytes).length = udpPacketIdBytes := by
      rw [length_slice, front]
      rfl
    have long : plaintext.length = udpIdentityBytes + bodyLen := by omega
    simp only [okOr]
    rw [slicing_of_le (by omega) (by rw [output]; omega), slicing_of_le (by omega) (by rw [output]; omega),
      slicing_of_le (by omega) (by rw [output]; omega), slice_append_left _ (by omega), slice_append_left _ (by omega),
      slice_append_left _ (by omega), ← long, slice_to_length, drop_left,
      ← @slice_take plaintext 0 udpSessionIdBytes udpIdentityBytes (by omega),
      ← @slice_take plaintext udpSessionIdBytes udpIdentityBytes udpIdentityBytes (by omega)]
    simp only [packetWidth, if_true, fromSlice_of_length sessionWidth, expect]
    rw [shifted, long, Nat.add_sub_cancel_left]
    rfl

theorem openAesUdp_safe (header : AesHeaderCipher) (wire plaintextOutput : List UInt8) (cache : UdpOpenCache primitives) :
    Safe (openAesUdp wide psk header wire plaintextOutput cache) := by
  cases measured : aesUdpBodyLen wire plaintextOutput with
  | error halt =>
    have returned : Safe (aesUdpBodyLen wire plaintextOutput) :=
      (safe_failIf _ _).bind fun _ _ => (safe_failIf _ _).bind fun _ _ => safe_ok _
    cases halt with
    | panic => exact absurd measured returned
    | error error =>
      unfold openAesUdp
      rw [measured]
      exact safe_fail error
  | ok bodyLen =>
    have length := (aesUdpBodyLen_eq_ok.mp measured).1
    have width : (header.decrypt (slice wire 0 udpIdentityBytes)).length = udpIdentityBytes := by
      rw [header.length_decrypt, length_slice]
      omega
    rw [openAesUdp_eq wide psk header cache measured width rfl]
    obtain ⟨after, opened⟩ := decryptAesBody_eq wide psk cache (sessionOf _ width) (slice _ 4 udpIdentityBytes)
      (slice wire udpIdentityBytes (udpIdentityBytes + bodyLen)) (slice wire (udpIdentityBytes + bodyLen) wire.length)
    rw [opened]
    exact (safe_okOr _ _).bind fun _ _ => safe_ok _

theorem openXchachaUdp_safe (wire plaintextOutput : List UInt8) (cache : UdpOpenCache primitives) :
    Safe (openXchachaUdp cipher wire plaintextOutput cache) := by
  by_cases short : wire.length < xchachaNonceBytes + aeadTagBytes
  · unfold openXchachaUdp failIf
    rw [if_pos short]
    exact safe_fail _
  by_cases bare : wire.length - (xchachaNonceBytes + aeadTagBytes) < udpIdentityBytes
  · unfold openXchachaUdp failIf
    rw [if_neg short]
    dsimp only
    rw [if_pos bare]
    exact safe_fail _
  by_cases narrow : plaintextOutput.length < wire.length - (xchachaNonceBytes + aeadTagBytes)
  · unfold openXchachaUdp failIf
    rw [if_neg short]
    dsimp only
    rw [if_neg bare, if_pos narrow]
    exact safe_fail _
  have fits : XchachaFits wire plaintextOutput (wire.length - (xchachaNonceBytes + aeadTagBytes) - udpIdentityBytes) :=
    ⟨by omega, by omega⟩
  rw [openXchachaUdp_eq cipher cache fits rfl (by
    intro plaintext opened
    have whole := cipher.length_decrypt _ _ _ _ opened
    rw [length_slice] at whole
    rw [length_take]
    omega)]
  split
  · exact safe_fail _
  · exact safe_ok _

theorem openWithCache_safe (crypto : UdpCrypto) (wire plaintextOutput : List UInt8) (cache : UdpOpenCache primitives) :
    Safe (crypto.openWithCache wire plaintextOutput cache) := by
  unfold UdpCrypto.openWithCache
  split
  · exact openAesUdp_safe _ _ _ wire plaintextOutput cache
  · exact openXchachaUdp_safe _ wire plaintextOutput cache

end open_

variable {primitives : UdpPrimitives}

variable (packetId : PacketId)

@[simp] theorem length_udpIdentity : (udpIdentity sessionId packetId).length = udpIdentityBytes := by
  simp [udpIdentity, sessionId.width, udpIdentityBytes, udpPacketIdBytes]

theorem sessionOf_udpIdentity :
    sessionOf (udpIdentity sessionId packetId) (length_udpIdentity sessionId packetId) = sessionId := by
  obtain ⟨bytes, width⟩ := sessionId
  simp only [sessionOf, udpIdentity, ← width, slice_zero]

theorem packetOf_udpIdentity : packetOf (udpIdentity sessionId packetId) = packetId := by
  have length := length_udpIdentity sessionId packetId
  unfold packetOf
  rw [← length, udpIdentity, ← sessionId.width, slice_append_right, U64.fromBeBytes_toBeBytes]

/-- What an open recovers from an envelope: the two identifiers, and the body in front of the
output. -/
def UdpOpening.Recovers (opening : UdpOpening primitives) (sessionId : UdpSessionId) (packetId : PacketId)
    (body : List UInt8) : Prop :=
  opening.result = ⟨sessionId, packetId, body.length⟩ ∧ opening.plaintextOutput.take body.length = body

variable {wire : List UInt8} {random : SecureRandom} {crypto : UdpCrypto}

theorem openAesUdp_sealed (opens : primitives.Opens) (wide : Bool) (psk : List UInt8) (sessionId : UdpSessionId)
    (packetId : PacketId) (plaintextBody : List UInt8)
    (sent : (sealAesUdp (primitives.aesHeader wide psk) (primitives.aesBody wide psk sessionId) sessionId packetId
      plaintextBody .encrypts).wire = .ok wire) :
    wire.length = plaintextBody.length + (udpIdentityBytes + aeadTagBytes) ∧
    ∀ (output : List UInt8) (cache : UdpOpenCache primitives), wire.length ≤ output.length →
      ∃ opening, openAesUdp wide psk (primitives.aesHeader wide psk) wire output cache = .ok opening ∧
        opening.Recovers sessionId packetId plaintextBody := by
  let nonce := slice (udpIdentity sessionId packetId) 4 udpIdentityBytes
  let cipher := primitives.aesBody wide psk sessionId
  let protectedHeader := (primitives.aesHeader wide psk).encrypt (udpIdentity sessionId packetId)
  have headerLength : protectedHeader.length = udpIdentityBytes := by
    rw [(primitives.aesHeader wide psk).length_encrypt, length_udpIdentity]
  have bodyLength := cipher.length_encrypt nonce plaintextBody
  have tagLength := cipher.length_tag nonce plaintextBody
  have shape : wire = protectedHeader ++ (cipher.encrypt nonce plaintextBody).1 ++ (cipher.encrypt nonce plaintextBody).2 := by
    cases sent
    rfl
  have length : wire.length = udpIdentityBytes + aeadTagBytes + plaintextBody.length := by
    rw [shape, length_append, length_append, headerLength, bodyLength, tagLength]
    omega
  refine ⟨by omega, fun output cache room => ?_⟩
  have parts := slice_parts headerLength bodyLength (cipher.encrypt nonce plaintextBody).2
  rw [← shape] at parts
  obtain ⟨header, body, tag⟩ := parts
  have measured : aesUdpBodyLen wire output = .ok plaintextBody.length := aesUdpBodyLen_eq_ok.mpr ⟨length, by omega⟩
  have decrypted : (primitives.aesHeader wide psk).decrypt (slice wire 0 udpIdentityBytes) = udpIdentity sessionId packetId := by
    rw [header]
    exact opens.header wide psk (udpIdentity sessionId packetId)
  rw [openAesUdp_eq wide psk (primitives.aesHeader wide psk) cache measured (length_udpIdentity sessionId packetId) decrypted,
    sessionOf_udpIdentity, packetOf_udpIdentity, body, tag]
  obtain ⟨after, opened⟩ := decryptAesBody_eq wide psk cache sessionId nonce (cipher.encrypt nonce plaintextBody).1
    (cipher.encrypt nonce plaintextBody).2
  rw [opened, opens.body wide psk sessionId nonce plaintextBody]
  exact ⟨_, rfl, rfl, take_left⟩

theorem openXchachaUdp_sealed {cipher : Aead} (opens : cipher.Opens) (sessionId : UdpSessionId)
    (packetId : PacketId) (plaintextBody : List UInt8)
    (sent : (sealXchachaUdp cipher random sessionId packetId plaintextBody .encrypts).wire = .ok wire) :
    wire.length = plaintextBody.length + (xchachaNonceBytes + udpIdentityBytes + aeadTagBytes) ∧
    ∀ (output : List UInt8) (cache : UdpOpenCache primitives), wire.length ≤ output.length →
      ∃ opening, openXchachaUdp cipher wire output cache = .ok opening ∧
        opening.Recovers sessionId packetId plaintextBody := by
  unfold sealXchachaUdp at sent
  split at sent
  · cases sent
  rename_i nonce filled
  let plaintext := sessionId.bytes ++ packetId.toBeBytes ++ plaintextBody
  have nonceLength : nonce.length = xchachaNonceBytes := random.length_fill _ _ filled
  have plaintextLength : plaintext.length = udpIdentityBytes + plaintextBody.length := by
    rw [length_append]
    exact congrArg (· + plaintextBody.length) (length_udpIdentity sessionId packetId)
  have bodyLength := cipher.length_encrypt nonce plaintext
  have tagLength := cipher.length_tag nonce plaintext
  have shape : wire = nonce ++ (cipher.encrypt nonce plaintext).1 ++ (cipher.encrypt nonce plaintext).2 := by
    cases sent
    rfl
  have length : wire.length = xchachaNonceBytes + (udpIdentityBytes + plaintextBody.length) + aeadTagBytes := by
    rw [shape, length_append, length_append, nonceLength, bodyLength, tagLength, plaintextLength]
  refine ⟨by omega, fun output cache room => ?_⟩
  have parts := slice_parts nonceLength (bodyLength.trans plaintextLength) (cipher.encrypt nonce plaintext).2
  rw [← shape] at parts
  obtain ⟨front, body, tag⟩ := parts
  have identity : plaintext.take udpIdentityBytes = udpIdentity sessionId packetId := by
    rw [← length_udpIdentity sessionId packetId]
    exact take_left
  have decrypted : cipher.decrypt (slice wire 0 xchachaNonceBytes)
      (slice wire xchachaNonceBytes (xchachaNonceBytes + (udpIdentityBytes + plaintextBody.length)))
      (slice wire (xchachaNonceBytes + (udpIdentityBytes + plaintextBody.length)) wire.length) = some plaintext := by
    rw [front, body, tag, opens nonce plaintext]
  rw [openXchachaUdp_eq cipher cache ⟨length, by omega⟩ decrypted (by
    rintro _ ⟨⟩
    rw [identity, length_udpIdentity])]
  refine ⟨_, rfl, ?_, ?_⟩
  · simp only [identity, sessionOf_udpIdentity, packetOf_udpIdentity]
  · have rest : plaintext.drop udpIdentityBytes = plaintextBody := by
      rw [← length_udpIdentity sessionId packetId]
      exact drop_left
    simp only [shifted, rest, append_assoc, take_left]

/-- A session of an owner, at the packet identifier that it uses next. -/
def UdpCrypto.sessionAt (primitives : UdpPrimitives) (crypto : UdpCrypto) (sessionId : UdpSessionId) (packetId : PacketId) :
    UdpOutboundSession :=
  { crypto.newOutboundSession primitives sessionId with counter := ⟨some packetId⟩ }

theorem sealUdp_of_envelope {outbound : UdpOutboundSession} {packetId : PacketId}
    {body output : List UInt8} (owner : outbound.owner = crypto.owner)
    (same : outbound.profile = crypto.profile) (next : outbound.counter.next = some packetId)
    (small : body.length + crypto.profile.udpWireOverheadBytes < 2 ^ 64)
    (fits : body.length + crypto.profile.udpWireOverheadBytes ≤ output.length)
    (sent : (crypto.envelope outbound same random packetId body .encrypts).wire = .ok wire) :
    (crypto.sealUdp outbound body output random .encrypts).result =
        .ok ⟨body.length + crypto.profile.udpWireOverheadBytes, packetId⟩ ∧
      (crypto.sealUdp outbound body output random .encrypts).output =
        wire ++ output.drop (body.length + crypto.profile.udpWireOverheadBytes) := by
  have current : outbound.counter.current = .ok packetId := by
    unfold UdpPacketCounter.current
    rw [next]
  unfold UdpCrypto.sealUdp
  rw [if_neg (not_not.mpr owner), dif_neg (not_not.mpr same), current]
  dsimp only
  rw [if_neg (by omega), sent]
  exact ⟨rfl, rfl⟩

theorem envelope_opens (opens : primitives.Opens) (key : MethodPskBytes) (sender receiver : Nat) (sessionId : UdpSessionId)
    (packetId : PacketId) (body : List UInt8) (fills : (random.fill xchachaNonceBytes).isSome)
    (owned : crypto = .fromMethodKey primitives sender key)
    (same : (crypto.sessionAt primitives sessionId packetId).profile = crypto.profile) :
    ∃ wire, (crypto.envelope (crypto.sessionAt primitives sessionId packetId) same random packetId body .encrypts).wire = .ok wire ∧
      wire.length = body.length + crypto.profile.udpWireOverheadBytes ∧
      ∀ (output : List UInt8) (cache : UdpOpenCache primitives), wire.length ≤ output.length →
        ∃ opening, (UdpCrypto.fromMethodKey primitives receiver key).openWithCache wire output cache = .ok opening ∧
          opening.Recovers sessionId packetId body := by
  subst owned
  cases key with
  | aes128 psk width =>
    exact ⟨_, rfl, openAesUdp_sealed opens false psk sessionId packetId body rfl⟩
  | aes256 psk width =>
    exact ⟨_, rfl, openAesUdp_sealed opens true psk sessionId packetId body rfl⟩
  | chaCha20Poly1305 psk width =>
    obtain ⟨nonce, filled⟩ := Option.isSome_iff_exists.mp fills
    have sealed : ∃ wire, (sealXchachaUdp (primitives.chaCha psk) random sessionId packetId body .encrypts).wire = .ok wire := by
      unfold sealXchachaUdp
      rw [filled]
      exact ⟨_, rfl⟩
    obtain ⟨wire, sent⟩ := sealed
    exact ⟨wire, sent, openXchachaUdp_sealed (opens.chaCha psk) sessionId packetId body sent⟩

theorem sessionAt_profile (primitives : UdpPrimitives) (crypto : UdpCrypto) (sessionId : UdpSessionId) (packetId : PacketId) :
    (crypto.sessionAt primitives sessionId packetId).owner = crypto.owner ∧
      (crypto.sessionAt primitives sessionId packetId).profile = crypto.profile := by
  obtain ⟨owner, inner⟩ := crypto
  cases inner with
  | aes wide psk header =>
    cases wide with
    | false => exact ⟨rfl, rfl⟩
    | true => exact ⟨rfl, rfl⟩
  | chaCha20Poly1305 cipher => exact ⟨rfl, rfl⟩

theorem sealUdp_opens (opens : primitives.Opens) (key : MethodPskBytes) (sender receiver : Nat) (sessionId : UdpSessionId)
    (packetId : PacketId) {body output : List UInt8} (fills : (random.fill xchachaNonceBytes).isSome)
    (owned : crypto = .fromMethodKey primitives sender key) {wireLen : Nat}
    (measured : body.length + crypto.profile.udpWireOverheadBytes = wireLen) (small : wireLen < 2 ^ 64)
    (fits : wireLen ≤ output.length) :
    ∃ sealing, crypto.sealUdp (crypto.sessionAt primitives sessionId packetId) body output random .encrypts = sealing ∧
      sealing.result = .ok ⟨wireLen, packetId⟩ ∧ (sealing.output.take wireLen).length = wireLen ∧
      ∀ (scratch : List UInt8) (cache : UdpOpenCache primitives), wireLen ≤ scratch.length →
        ∃ opening, (UdpCrypto.fromMethodKey primitives receiver key).openWithCache (sealing.output.take wireLen) scratch cache =
          .ok opening ∧ opening.Recovers sessionId packetId body := by
  subst measured
  obtain ⟨owner, same⟩ := sessionAt_profile primitives crypto sessionId packetId
  obtain ⟨wire, sent, length, opened⟩ := envelope_opens opens key sender receiver sessionId packetId body fills owned same
  obtain ⟨result, left⟩ := sealUdp_of_envelope owner same rfl small fits sent
  have taken : (wire ++ output.drop (body.length + crypto.profile.udpWireOverheadBytes)).take
      (body.length + crypto.profile.udpWireOverheadBytes) = wire := by
    rw [← length]
    exact take_left
  refine ⟨_, rfl, result, ?_, ?_⟩
  · rw [left, taken, length]
  · rw [left, taken, ← length]
    exact opened

end Ferrum.Crypto
