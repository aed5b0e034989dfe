import Ferrum.Shadowsocks.TcpEncode

namespace Ferrum.Shadowsocks

open Option List Checked Core Crypto

theorem length_requestFixed (timestamp : U64) (variableLen : U16) :
    (requestFixed timestamp variableLen).length = requestFixedPlaintextLen := by
  simp [requestFixed, requestFixedPlaintextLen]

variable {timestamp now : U64} {target : TargetAddr} {padding initialPayload : List UInt8} {length size : Nat}
  {keys : TcpKeyProvider} {salt : MethodTcpSalt}

theorem acceptFixed_requestFixed (near : absDiff now.val timestamp.val ≤ 30) (variableLen : U16) :
    acceptFixed (some now) (requestFixed timestamp variableLen) = .ok variableLen.val := by
  have stamped : @slicing DetectionReason (requestFixed timestamp variableLen) 1 9 = .ok timestamp.toBeBytes :=
    slicing_append [UInt8.ofNat requestType] _ variableLen.toBeBytes rfl rfl (by rw [U64.length_toBeBytes])
  have wide : @slicing DetectionReason (requestFixed timestamp variableLen) 9 11 = .ok variableLen.toBeBytes :=
    slicing_append ([UInt8.ofNat requestType] ++ timestamp.toBeBytes) _ [] (by simp [requestFixed]) (by simp) rfl
  have head : @index DetectionReason _ (requestFixed timestamp variableLen) 0 = .ok (UInt8.ofNat requestType) := rfl
  have high : @index DetectionReason _ variableLen.toBeBytes 0 = .ok (UInt8.ofNat (variableLen.val / 256)) := rfl
  have low : @index DetectionReason _ variableLen.toBeBytes 1 = .ok (UInt8.ofNat (variableLen.val % 256)) := rfl
  have bound := variableLen.isLt
  unfold acceptFixed
  simp only [length_requestFixed, stamped, wide, head, high, low, failIf, okOr, assert, bind, Except.bind, pure, Except.pure,
    ne_eq, not_true_eq_false, if_false, if_true, U64.length_toBeBytes, U64.fromBeBytes_toBeBytes, U16.fromBeBytes_toBeBytes,
    if_neg (not_lt.mpr near)]
  rw [if_neg (by simp only [maxDecryptWireLen, tagLen]; omega)]

theorem parseRequestVariable_eq {address : List UInt8} (encoded : encodeTarget target = .ok address)
    {paddingLen : U16} (padded : paddingLen.val = padding.length)
    (bounded : padding.length ≤ maxPaddingLen) (nonempty : ¬(padding = [] ∧ initialPayload = [])) :
    parseRequestVariable (address ++ paddingLen.toBeBytes ++ padding ++ initialPayload) = .ok (target, initialPayload) := by
  obtain ⟨known, isKnown, addressLength, reads⟩ := validateTarget_encodeTarget target
  rw [encoded] at isKnown
  cases isKnown
  obtain ⟨validated, valid, owns⟩ := reads (paddingLen.toBeBytes ++ padding ++ initialPayload)
  have owned : validated.intoOwned = .ok target := owns
  generalize built : address ++ paddingLen.toBeBytes ++ padding ++ initialPayload = plaintext
  have whole : plaintext.length = address.length + 2 + padding.length + initialPayload.length := by
    rw [← built]
    simp only [length_append, U16.length_toBeBytes]
  have parsed : validateTarget plaintext = .ok (validated, address.length) := by
    rw [addressLength, ← valid, ← built]
    simp only [append_assoc]
  have width : @slicing DetectionReason plaintext address.length (address.length + 2) = .ok paddingLen.toBeBytes :=
    slicing_append address _ (padding ++ initialPayload) (by rw [← built]; simp only [append_assoc]) rfl rfl
  have payload : @slicing DetectionReason plaintext (address.length + 2 + padding.length) plaintext.length = .ok initialPayload :=
    slicing_append (address ++ paddingLen.toBeBytes ++ padding) _ []
      (by rw [← built, append_nil]) (by simp only [length_append, U16.length_toBeBytes]) whole.symm
  have high : @index DetectionReason _ paddingLen.toBeBytes 0 = .ok (UInt8.ofNat (paddingLen.val / 256)) := rfl
  have low : @index DetectionReason _ paddingLen.toBeBytes 1 = .ok (UInt8.ofNat (paddingLen.val % 256)) := rfl
  have content : ¬(padding.length = 0 ∧ initialPayload = []) := by
    rwa [length_eq_zero_iff]
  have value : (U16.fromBeBytes (UInt8.ofNat (paddingLen.val / 256)) (UInt8.ofNat (paddingLen.val % 256))).val =
      padding.length := by
    rw [U16.fromBeBytes_toBeBytes, padded]
  have addressed : ¬plaintext.length < address.length + 2 := by omega
  have padsFit : ¬plaintext.length < address.length + 2 + padding.length := by omega
  unfold parseRequestVariable
  simp only [parsed, width, high, low, value, payload, owned, Checked.ofExcept, Except.mapError, failIf, bind, Except.bind,
    pure, Except.pure, if_neg addressed, if_neg (not_lt.mpr bounded), if_neg padsFit, if_neg content]

theorem length_readInto {buffer content : List UInt8} {start stop : Nat} (fits : stop ≤ buffer.length) (order : start ≤ stop) :
    (readInto buffer start stop content).length = buffer.length := by
  unfold readInto
  refine length_copyFromSlice ?_
  rw [length_take]
  omega

theorem take_readInto {buffer filled content : List UInt8} {stop : Nat} (done : buffer.take filled.length = filled)
    (inside : filled.length + content.length ≤ stop) :
    (readInto buffer filled.length stop content).take (filled.length + content.length) = filled ++ content := by
  have whole : content.take (stop - filled.length) = content := take_of_length_le (by omega)
  unfold readInto copyFromSlice
  rw [whole, done, ← length_append, take_left]

theorem Splits.tail {part : Option Nat} {rest : List (Option Nat)} (splits : Splits length (part :: rest)) :
    Splits (length - part.getD 0) rest ∧ part.getD 0 ≤ length := by
  obtain ⟨positive, whole⟩ := splits
  cases part with
  | none =>
    refine ⟨⟨fun size member => positive size (mem_cons_of_mem _ member), ?_⟩, Nat.zero_le _⟩
    simpa using whole
  | some size =>
    have sum : size + (rest.filterMap id).sum = length := by simpa using whole
    refine ⟨⟨fun other member => positive other (mem_cons_of_mem _ member), ?_⟩, ?_⟩
    · simp only [getD_some]
      omega
    · simp only [getD_some]
      omega

theorem readVariable_delivered {wire filled buffer : List UInt8} {parts : List (Option Nat)} (splits : Splits wire.length parts)
    (done : buffer.take filled.length = filled) (fits : filled.length + wire.length ≤ buffer.length) :
    ∃ after, readVariable (filled.length + wire.length) buffer filled.length (delivered wire parts) = .ok after ∧
      after.take (filled.length + wire.length) = filled ++ wire := by
  induction parts generalizing wire filled buffer with
  | nil =>
    have empty : wire = [] := length_eq_zero_iff.mp splits.whole.symm
    subst empty
    refine ⟨buffer, ?_, by simpa using done⟩
    simp [delivered, readVariable]
  | cons part rest ih =>
    obtain ⟨tail, inside⟩ := splits.tail
    by_cases complete : wire = []
    · subst complete
      refine ⟨buffer, ?_, by simpa using done⟩
      cases part with
      | none => simp [delivered, readVariable]
      | some size => simp [delivered, readVariable]
    · have more : filled.length < filled.length + wire.length := by
        have positive := length_pos_of_ne_nil complete
        omega
      cases part with
      | none =>
        obtain ⟨after, read, same⟩ := ih tail done fits
        refine ⟨after, ?_, same⟩
        simp only [delivered, readVariable, if_pos more]
        exact read
      | some size =>
        simp only [getD_some] at tail inside
        have positive := splits.positive size mem_cons_self
        have taken : (wire.take size).length = size := length_take_of_le inside
        have extended := @take_readInto buffer filled (wire.take size) (filled.length + wire.length) done (by omega)
        have length := @length_readInto buffer (wire.take size) filled.length (filled.length + wire.length) fits (by omega)
        have rejoined : filled ++ wire.take size ++ wire.drop size = filled ++ wire := by
          rw [append_assoc, take_append_drop]
        have whole : (filled ++ wire.take size).length + (wire.drop size).length = filled.length + wire.length := by
          rw [← length_append, rejoined, length_append]
        rw [← length_append] at extended
        rw [show wire.length - size = (wire.drop size).length by simp] at tail
        obtain ⟨after, read, same⟩ := ih tail extended (by rw [whole, length]; exact fits)
        rw [whole, rejoined] at same
        rw [whole, length_append, taken] at read
        refine ⟨after, ?_, same⟩
        simp only [delivered, readVariable, if_pos more, failIf, if_neg (Nat.ne_of_gt positive), bind, Except.bind]
        rw [if_neg (by omega)]
        exact read

variable {wire : List UInt8} {parts : List (Option Nat)}

theorem awaitRead_delivered (splits : Splits wire.length parts) (first : (parts.filterMap id).head? = some size) :
    ∃ rest, awaitRead (delivered wire parts) = .ok ((size, wire.take size), delivered (wire.drop size) rest) ∧
      Splits (wire.drop size).length rest := by
  induction parts with
  | nil => cases first
  | cons part rest ih =>
    obtain ⟨tail, inside⟩ := splits.tail
    cases part with
    | none =>
      obtain ⟨after, awaited, left⟩ := ih tail first
      exact ⟨after, awaited, left⟩
    | some found =>
      cases first
      refine ⟨rest, rfl, ?_⟩
      rw [length_drop]
      exact tail

theorem slicing_of_take {ε : Type} {bytes known : List UInt8} (same : bytes.take known.length = known) (start : Nat) {stop : Nat}
    (inside : stop ≤ known.length) : @slicing ε bytes start stop = slicing known start stop := by
  have fits : known.length ≤ bytes.length := by
    have length := congrArg List.length same
    rw [length_take] at length
    omega
  have range : slice known start stop = slice bytes start stop := by
    rw [← same, slice_take inside]
  unfold slicing
  rw [range]
  by_cases order : start ≤ stop
  · rw [if_pos ⟨order, by omega⟩, if_pos ⟨order, inside⟩]
  · rw [if_neg (fun both => order both.1), if_neg (fun both => order both.1)]

theorem saltBytes_le (profile : MethodProfile) : profile.saltBytes ≤ 32 := by
  cases profile with
  | blake3Aes128Gcm2022 => decide
  | blake3Aes256Gcm2022 => decide
  | blake3ChaCha20Poly13052022 => decide

theorem acceptRequest_delivered {cipher : Aead} {nonce : NonceCounter} {sealer : TcpSealer} (opens : cipher.Opens)
    (encoded : EncodedRequest cipher nonce salt timestamp target padding initialPayload sealer wire)
    (profile : keys.tcpProfile = salt.profile) (available : keys.tcpOpener salt = some ⟨cipher, nonce⟩)
    (near : absDiff now.val timestamp.val ≤ 30) (splits : Splits wire.length parts)
    (first : (parts.filterMap id).head? = some salt.profile.initialRequestReadBytes) :
    acceptRequest keys (some now) (delivered wire parts) = .ok ⟨target, initialPayload, salt, ⟨cipher, sealer.nonce⟩⟩ := by
  obtain ⟨address, paddingLen, variableLen, next, isAddress, padded, width, reserved, reservedNext, rfl⟩ := encoded.parts
  obtain ⟨rest, awaited, left⟩ := awaitRead_delivered splits first
  have saltWidth := salt.width
  have saltShort := saltBytes_le salt.profile
  have variableShort := variableLen.isLt
  have fixedLength : (cipher.sealed nonce (requestFixed timestamp variableLen)).length = 27 := by
    rw [Aead.length_sealed, length_requestFixed]
    rfl
  have bodyLength : (cipher.sealed next (address ++ paddingLen.toBeBytes ++ padding ++ initialPayload)).length =
      variableLen.val + tagLen := by
    rw [Aead.length_sealed, ← width]
    rfl
  generalize isFixed : cipher.sealed nonce (requestFixed timestamp variableLen) = fixed at *
  generalize isBody : cipher.sealed next (address ++ paddingLen.toBeBytes ++ padding ++ initialPayload) = body at *
  have size : salt.profile.initialRequestReadBytes = (salt.bytes ++ fixed).length := by
    rw [length_append, fixedLength, saltWidth]
    rfl
  rw [size, take_left, drop_left] at awaited
  rw [size, drop_left] at left
  have known : (readInto (List.replicate maxDecryptWireLen 0) 0 (salt.bytes ++ fixed).length (salt.bytes ++ fixed)).take
      (salt.bytes ++ fixed).length = salt.bytes ++ fixed := by
    have read := @take_readInto (List.replicate maxDecryptWireLen 0) [] (salt.bytes ++ fixed) (salt.bytes ++ fixed).length rfl
      (Nat.le_of_eq (Nat.zero_add _))
    rw [length_nil, Nat.zero_add, nil_append] at read
    exact read
  generalize isDecrypt : readInto (List.replicate maxDecryptWireLen 0) 0 (salt.bytes ++ fixed).length (salt.bytes ++ fixed) =
    decrypt at known
  have salted : @slicing AcceptStop decrypt 0 salt.profile.saltBytes = .ok salt.bytes := by
    rw [slicing_of_take known 0 (by rw [length_append]; omega)]
    exact slicing_append [] salt.bytes fixed rfl rfl (by rw [Nat.zero_add, saltWidth])
  have sealed : @slicing AcceptStop decrypt salt.profile.saltBytes (salt.bytes ++ fixed).length = .ok fixed := by
    rw [slicing_of_take known _ (Nat.le_refl _)]
    exact slicing_append salt.bytes fixed [] (append_nil _).symm saltWidth (by rw [length_append, saltWidth])
  have opened : TcpOpener.openInPlace ⟨cipher, nonce⟩ fixed =
      ⟨⟨cipher, next⟩, requestFixed timestamp variableLen, some nonce.bytes, .ok ()⟩ := by
    rw [← isFixed]
    exact TcpOpener.openInPlace_reserved opens reserved _
  have openedBody : TcpOpener.openInPlace ⟨cipher, next⟩ body = ⟨⟨cipher, sealer.nonce⟩,
      address ++ paddingLen.toBeBytes ++ padding ++ initialPayload, some next.bytes, .ok ()⟩ := by
    rw [← isBody]
    exact TcpOpener.openInPlace_reserved opens reservedNext _
  obtain ⟨after, read, body_eq⟩ := @readVariable_delivered body [] (List.replicate maxDecryptWireLen 0) rest left rfl (by
    rw [length_replicate, bodyLength]
    simp only [maxDecryptWireLen, length_nil, tagLen]
    omega)
  rw [length_nil, Nat.zero_add, bodyLength] at read body_eq
  rw [nil_append] at body_eq
  have fixedWidth : fixed.length = requestFixedPlaintextLen + tagLen := fixedLength
  have bodyPlain := width.symm
  unfold acceptRequest
  simp only [profile, size, awaited, isDecrypt, salted, sealed, MethodTcpSalt.tryFromSlice_bytes, available, opened, fixedWidth,
    acceptFixed_requestFixed near, read, body_eq, openedBody, bodyPlain,
    parseRequestVariable_eq isAddress padded encoded.bounded encoded.nonempty, failIf, okOr, assert, Checked.ofExcept, Except.mapError, mapError, bind, Except.bind, pure, Except.pure, ne_eq,
    not_true_eq_false, if_false, if_true]

theorem acceptRequest_short (splits : Splits wire.length parts) (first : (parts.filterMap id).head? = some size)
    (different : size ≠ keys.tcpProfile.initialRequestReadBytes) (clock : Option U64) :
    acceptRequest keys clock (delivered wire parts) = fail (.detected .shortRead) := by
  obtain ⟨rest, awaited, -⟩ := awaitRead_delivered splits first
  unfold acceptRequest
  simp only [awaited, failIf, if_pos different, bind, Except.bind]
  rfl

theorem length_responseFixed (timestamp : U64) (requestSalt : MethodTcpSalt) (payloadLen : U16) :
    (responseFixed timestamp requestSalt payloadLen).length = responseFixedPlaintextLen requestSalt.profile := by
  have width := requestSalt.width
  simp only [responseFixed, length_append, length_singleton, U64.length_toBeBytes, U16.length_toBeBytes,
    responseFixedPlaintextLen]
  omega

theorem length_sealedFixed (cipher : Aead) (nonce : NonceCounter) (timestamp : U64) (requestSalt : MethodTcpSalt)
    (payloadLen : U16) : (cipher.sealed nonce (responseFixed timestamp requestSalt payloadLen)).length =
      responseFixedPlaintextLen requestSalt.profile + tagLen := by
  rw [Aead.length_sealed, length_responseFixed]
  rfl

theorem responseFixed_ranges (timestamp : U64) (requestSalt : MethodTcpSalt) (payloadLen : U16) :
    @index DetectionReason _ (responseFixed timestamp requestSalt payloadLen) 0 = .ok (UInt8.ofNat responseType) ∧
    @slicing DetectionReason (responseFixed timestamp requestSalt payloadLen) 1 9 = .ok timestamp.toBeBytes ∧
    @slicing DetectionReason (responseFixed timestamp requestSalt payloadLen) 9 (9 + requestSalt.profile.saltBytes) =
      .ok requestSalt.bytes := by
  refine ⟨rfl, ?_, ?_⟩
  · exact slicing_append [UInt8.ofNat responseType] _ (requestSalt.bytes ++ payloadLen.toBeBytes) (by simp [responseFixed]) rfl
      (by rw [U64.length_toBeBytes])
  · exact slicing_append ([UInt8.ofNat responseType] ++ timestamp.toBeBytes) _ payloadLen.toBeBytes rfl (by simp)
      (by rw [requestSalt.width])

/-- The scratch of a client whose first read delivered the front of a response. -/
structure FirstRead (profile : MethodProfile) (wire decrypt : List UInt8) : Prop where
  length : decrypt.length = maxDecryptWireLen
  front : decrypt.take profile.initialResponseReadBytes = wire.take profile.initialResponseReadBytes

section response

variable {keys : TcpKeyProvider} {cipher : Aead} {nonce next : NonceCounter} {responseSalt requestSalt other : MethodTcpSalt}
  {timestamp : U64} {payloadLen : U16} {back decrypt : List UInt8}

theorem slicing_response (sameProfile : responseSalt.profile = requestSalt.profile)
    (read : FirstRead requestSalt.profile
      (responseSalt.bytes ++ cipher.sealed nonce (responseFixed timestamp requestSalt payloadLen) ++ back) decrypt) :
    @slicing DetectionReason decrypt 0 requestSalt.profile.saltBytes = .ok responseSalt.bytes ∧
      @slicing DetectionReason decrypt requestSalt.profile.saltBytes requestSalt.profile.initialResponseReadBytes =
        .ok (cipher.sealed nonce (responseFixed timestamp requestSalt payloadLen)) := by
  have saltWidth : responseSalt.bytes.length = requestSalt.profile.saltBytes := sameProfile ▸ responseSalt.width
  have fixedLength := length_sealedFixed cipher nonce timestamp requestSalt payloadLen
  have front := read.front
  generalize cipher.sealed nonce (responseFixed timestamp requestSalt payloadLen) = fixed at *
  have size : requestSalt.profile.initialResponseReadBytes = (responseSalt.bytes ++ fixed).length := by
    rw [length_append, fixedLength, saltWidth]
    simp only [MethodProfile.initialResponseReadBytes, responseFixedPlaintextLen, tagLen]
    omega
  rw [size, take_left] at front
  rw [size]
  constructor
  · rw [slicing_of_take front 0 (by rw [length_append]; omega)]
    exact slicing_append [] responseSalt.bytes fixed rfl rfl (by rw [Nat.zero_add, saltWidth])
  · rw [slicing_of_take front _ (Nat.le_refl _)]
    exact slicing_append responseSalt.bytes fixed [] (append_nil _).symm saltWidth (by rw [length_append, saltWidth])

theorem fixedWire_eq {sealed : List UInt8} {profile : MethodProfile}
    (length : sealed.length = responseFixedPlaintextLen profile + tagLen) :
    ∃ array, @copyRange DetectionReason (List.replicate (maxResponseFixedPlaintextLen + tagLen) 0) 0
        (responseFixedPlaintextLen profile + tagLen) sealed = .ok array ∧
      @slicing DetectionReason array 0 (responseFixedPlaintextLen profile + tagLen) = .ok sealed := by
  have short := saltBytes_le profile
  have fits : 0 + sealed.length ≤ (List.replicate (maxResponseFixedPlaintextLen + tagLen) (0 : UInt8)).length := by
    rw [length_replicate, length]
    simp only [responseFixedPlaintextLen, maxResponseFixedPlaintextLen]
    omega
  have range := slice_copyFromSlice_self fits
  rw [Nat.zero_add] at range fits
  rw [← length]
  refine ⟨_, copyRange_of_le (Nat.zero_add _) fits, slicing_eq_ok.mpr ⟨Nat.zero_le _, ?_, range⟩⟩
  rw [length_copyFromSlice (by rw [Nat.zero_add]; exact fits)]
  exact fits

theorem openResponseFixed_read (opens : cipher.Opens) (sameProfile : responseSalt.profile = requestSalt.profile)
    (available : keys.tcpOpener responseSalt = some ⟨cipher, nonce⟩) (reserved : nonce.reserve = .ok (nonce.bytes, next))
    (otherProfile : other.profile = requestSalt.profile) (clock : Option U64)
    (read : FirstRead requestSalt.profile
      (responseSalt.bytes ++ cipher.sealed nonce (responseFixed timestamp requestSalt payloadLen) ++ back) decrypt) :
    openResponseFixed keys clock other decrypt = (do
      failIf (responseSalt = other) .responseBinding
      let now ← okOr clock .clockUnavailable
      failIf (30 < absDiff now.val timestamp.val) .timestampSkew
      failIf (requestSalt.bytes ≠ other.bytes) .responseBinding
      failIf (payloadLen.val = 0) .frameBounds
      return (payloadLen.val + tagLen, ⟨cipher, next⟩)) := by
  obtain ⟨salted, sealed⟩ := slicing_response sameProfile read
  have opened := TcpOpener.openInPlace_reserved opens reserved (responseFixed timestamp requestSalt payloadLen)
  obtain ⟨array, copied, wire⟩ := fixedWire_eq (length_sealedFixed cipher nonce timestamp requestSalt payloadLen)
  have made : MethodTcpSalt.tryFromSlice requestSalt.profile responseSalt.bytes = some responseSalt :=
    sameProfile ▸ MethodTcpSalt.tryFromSlice_bytes responseSalt
  have plainLength := length_responseFixed timestamp requestSalt payloadLen
  obtain ⟨head, stamped, binding⟩ := responseFixed_ranges timestamp requestSalt payloadLen
  have wide : @slicing DetectionReason (responseFixed timestamp requestSalt payloadLen) (9 + requestSalt.profile.saltBytes)
      (9 + requestSalt.profile.saltBytes + 2) = .ok payloadLen.toBeBytes :=
    slicing_append ([UInt8.ofNat responseType] ++ timestamp.toBeBytes ++ requestSalt.bytes) _ [] (append_nil _).symm
      (by
        simp only [length_append, length_singleton, U64.length_toBeBytes, requestSalt.width])
      rfl
  have high : @index DetectionReason _ payloadLen.toBeBytes 0 = .ok (UInt8.ofNat (payloadLen.val / 256)) := rfl
  have low : @index DetectionReason _ payloadLen.toBeBytes 1 = .ok (UInt8.ofNat (payloadLen.val % 256)) := rfl
  have bound := payloadLen.isLt
  have fits : ¬maxDecryptWireLen < payloadLen.val + tagLen := by
    simp only [maxDecryptWireLen, tagLen]
    omega
  unfold openResponseFixed
  simp only [otherProfile, salted, made, available, sealed, copied, wire, opened, plainLength, head, stamped, binding, wide, high,
    low, if_neg fits, U64.length_toBeBytes, U64.fromBeBytes_toBeBytes, U16.fromBeBytes_toBeBytes, failIf, okOr, assert,
    Checked.ofExcept, Except.mapError, mapError, bind, Except.bind, pure, Except.pure, ne_eq, not_true_eq_false, if_false, if_true]

theorem openResponseFixed_clock (opens : cipher.Opens) (sameProfile : responseSalt.profile = requestSalt.profile)
    (different : responseSalt ≠ requestSalt) (available : keys.tcpOpener responseSalt = some ⟨cipher, nonce⟩)
    (reserved : nonce.reserve = .ok (nonce.bytes, next)) (nonempty : payloadLen.val ≠ 0) (clock : Option U64)
    (read : FirstRead requestSalt.profile
      (responseSalt.bytes ++ cipher.sealed nonce (responseFixed timestamp requestSalt payloadLen) ++ back) decrypt) :
    openResponseFixed keys clock requestSalt decrypt = (do
      let now ← okOr clock .clockUnavailable
      failIf (30 < absDiff now.val timestamp.val) .timestampSkew
      return (payloadLen.val + tagLen, ⟨cipher, next⟩)) := by
  rw [openResponseFixed_read opens sameProfile available reserved rfl clock read]
  simp only [failIf, if_neg different, if_neg nonempty, ne_eq, not_true_eq_false, if_false, bind, Except.bind]

theorem openResponseFixed_rebound (opens : cipher.Opens) (sameProfile : responseSalt.profile = requestSalt.profile)
    (available : keys.tcpOpener responseSalt = some ⟨cipher, nonce⟩) (reserved : nonce.reserve = .ok (nonce.bytes, next))
    (otherProfile : other.profile = requestSalt.profile) (isOther : other ≠ requestSalt) (clock : Option U64)
    (read : FirstRead requestSalt.profile
      (responseSalt.bytes ++ cipher.sealed nonce (responseFixed timestamp requestSalt payloadLen) ++ back) decrypt) :
    ∃ reason, openResponseFixed keys clock other decrypt = fail reason ∧
      (clock.any (fun now => decide (absDiff now.val timestamp.val ≤ 30)) = true → reason = .responseBinding) := by
  have bytes : requestSalt.bytes ≠ other.bytes := by
    intro same
    obtain ⟨profile, salt, width⟩ := other
    obtain ⟨profile', salt', width'⟩ := requestSalt
    simp only at otherProfile same
    subst otherProfile same
    exact isOther rfl
  rw [openResponseFixed_read opens sameProfile available reserved otherProfile clock read]
  simp only [failIf, okOr, bind, Except.bind]
  by_cases repeated : responseSalt = other
  · exact ⟨.responseBinding, by simp only [if_pos repeated, fail], fun _ => rfl⟩
  simp only [if_neg repeated]
  cases clock with
  | none => exact ⟨.clockUnavailable, rfl, fun near => by cases near⟩
  | some now =>
    by_cases near : absDiff now.val timestamp.val ≤ 30
    · refine ⟨.responseBinding, ?_, fun _ => rfl⟩
      simp only [if_neg (not_lt.mpr near), if_pos bytes, fail]
    · refine ⟨.timestampSkew, ?_, fun close => absurd (by simpa using close) near⟩
      simp only [if_pos (not_le.mp near), fail]

theorem openResponseFixed_otherProfile (unavailable : ∀ salt, salt.profile = other.profile → keys.tcpOpener salt = none)
    (length : decrypt.length = maxDecryptWireLen) (clock : Option U64) :
    ∃ reason, openResponseFixed keys clock other decrypt = fail reason := by
  have short := saltBytes_le other.profile
  have fits : other.profile.saltBytes ≤ decrypt.length := by
    rw [length]
    simp only [maxDecryptWireLen, tagLen]
    omega
  have salted : @slicing DetectionReason decrypt 0 other.profile.saltBytes = .ok (slice decrypt 0 other.profile.saltBytes) :=
    slicing_of_le (Nat.zero_le _) fits
  have width : (slice decrypt 0 other.profile.saltBytes).length = other.profile.saltBytes := by
    rw [length_slice]
    omega
  have made : MethodTcpSalt.tryFromSlice other.profile (slice decrypt 0 other.profile.saltBytes) =
      some ⟨other.profile, slice decrypt 0 other.profile.saltBytes, width⟩ := dif_pos width
  unfold openResponseFixed
  simp only [salted, made, okOr, failIf, bind, Except.bind]
  by_cases repeated : (⟨other.profile, slice decrypt 0 other.profile.saltBytes, width⟩ : MethodTcpSalt) = other
  · exact ⟨.responseBinding, by simp only [if_pos repeated, fail]⟩
  · refine ⟨.keyUnavailable, ?_⟩
    simp only [if_neg repeated, unavailable ⟨other.profile, slice decrypt 0 other.profile.saltBytes, width⟩ rfl, fail]

end response

variable {primitives : TcpPrimitives} {psk : MethodPskBytes}

theorem tcpSealer_eq_some {fresh : TcpSealer}
    (available : (methodKeyAdapter primitives psk).tcpSealer salt = some fresh) :
    psk.profile = salt.profile ∧ fresh = .new (primitives.derive psk salt.bytes) := by
  simp only [methodKeyAdapter] at available
  split at available
  · rename_i same
    exact ⟨same, (some.inj available).symm⟩
  · cases available

theorem tcpOpener_eq {salt : MethodTcpSalt} (same : psk.profile = salt.profile) :
    (methodKeyAdapter primitives psk).tcpOpener salt = some ⟨primitives.derive psk salt.bytes, .new⟩ := if_pos same

theorem head?_isSome_of_splits (splits : Splits length parts) (positive : 0 < length) :
    ∃ size, (parts.filterMap id).head? = some size := by
  cases head : (parts.filterMap id).head? with
  | some size => exact ⟨size, rfl⟩
  | none =>
    have whole := splits.whole
    rw [List.head?_eq_none_iff.mp head] at whole
    exact absurd whole.symm (Nat.ne_of_gt positive)

/-- The handshake of two ends with one key. A request is accepted exactly if its first part is the whole fixed part and its
salt is new to the replay store; a response is opened by the client of its request alone. -/
theorem handshake_round_trip (opens : primitives.Opens) (psk : MethodPskBytes) :
    (∀ growth salt timestamp target padding initialPayload scratch fixedPrimitive variablePrimitive sealer encoded,
      encodeRequestStateInto growth (methodKeyAdapter primitives psk) salt timestamp target padding initialPayload scratch
        fixedPrimitive variablePrimitive = .ok (sealer, encoded) →
      ∀ (now : U64) (parts : List (Option Nat)) (monotonicNow : Nat) (replay : TcpReplayStore MethodTcpSalt),
        absDiff now.val timestamp.val ≤ 30 → Splits encoded.bytes.length parts →
        (acceptStream (methodKeyAdapter primitives psk) (some now) monotonicNow replay (delivered encoded.bytes parts)).2 =
          if (parts.filterMap id).head? = some salt.profile.initialRequestReadBytes then
            match (replay.checkAndInsert salt monotonicNow).2 with
            | .ok () => .ok ⟨target, initialPayload, salt, ⟨sealer.cipher, sealer.nonce⟩⟩
            | .error error => fail (.detected (detectionFromReplay error))
          else fail (.detected .shortRead)) ∧
    ∀ responseSalt timestamp requestSalt firstPayload fixedPrimitive payloadPrimitive sealer wire,
      encodeResponseStateInto (methodKeyAdapter primitives psk) responseSalt timestamp requestSalt firstPayload fixedPrimitive
        payloadPrimitive = .ok (sealer, wire) →
      ∀ decrypt, FirstRead requestSalt.profile wire decrypt →
        (∀ now : U64, absDiff now.val timestamp.val ≤ 30 → ∃ opener,
          openResponseFixed (methodKeyAdapter primitives psk) (some now) requestSalt decrypt =
            .ok (firstPayload.length + tagLen, opener) ∧
          (wire.drop requestSalt.profile.initialResponseReadBytes).length = firstPayload.length + tagLen ∧
          ∃ nonce, opener.openInPlace (wire.drop requestSalt.profile.initialResponseReadBytes) =
            ⟨⟨sealer.cipher, sealer.nonce⟩, firstPayload, some nonce, .ok ()⟩) ∧
        ∀ (other : MethodTcpSalt) (clock : Option U64), other ≠ requestSalt →
          ∃ reason, openResponseFixed (methodKeyAdapter primitives psk) clock other decrypt = fail reason ∧
            (other.profile = requestSalt.profile →
              clock.any (fun now => decide (absDiff now.val timestamp.val ≤ 30)) = true → reason = .responseBinding) := by
  constructor
  · intro growth salt timestamp target padding initialPayload scratch fixedPrimitive variablePrimitive sealer encoded accepted
      now parts monotonicNow replay near splits
    obtain ⟨profile, fresh, available, request⟩ := encodeRequestStateInto_eq_ok accepted
    obtain ⟨sameProfile, rfl⟩ := tcpSealer_eq_some available
    have sameCipher : sealer.cipher = primitives.derive psk salt.bytes := request.sameCipher
    split
    · rename_i first
      have session := acceptRequest_delivered (opens psk salt.bytes) request profile (tcpOpener_eq sameProfile) near splits first
      unfold acceptStream
      rw [session, sameCipher]
      simp only
      cases (replay.checkAndInsert salt monotonicNow).2 with
      | ok => rfl
      | error error => rfl
    · rename_i different
      have positive : 0 < encoded.bytes.length := by
        obtain ⟨_, _, _, _, _, _, _, _, _, wire⟩ := request.parts
        rw [wire]
        simp only [length_append, Aead.length_sealed, aeadTagBytes]
        omega
      obtain ⟨size, first⟩ := head?_isSome_of_splits splits positive
      have short : size ≠ (methodKeyAdapter primitives psk).tcpProfile.initialRequestReadBytes := by
        rintro rfl
        exact different (first.trans (congrArg _ (congrArg _ profile)))
      unfold acceptStream
      rw [acceptRequest_short splits first short]
      rfl
  · intro responseSalt timestamp requestSalt firstPayload fixedPrimitive payloadPrimitive sealer wire accepted decrypt read
    obtain ⟨_, fresh, available, response⟩ := encodeResponseStateInto_eq_ok accepted
    obtain ⟨keyProfile, rfl⟩ := tcpSealer_eq_some available
    obtain ⟨⟨payloadLen, next, width, reserved, reservedNext, rfl⟩, sameCipher, nonempty, _, different, sameProfile⟩ := response
    have cipherOpens := opens psk responseSalt.bytes
    have opener := @tcpOpener_eq primitives psk responseSalt keyProfile
    constructor
    · intro now near
      have nonzero : payloadLen.val ≠ 0 := by
        rw [width]
        exact fun none => nonempty (length_eq_zero_iff.mp none)
      have opened := openResponseFixed_clock cipherOpens sameProfile different opener reserved nonzero (some now) read
      simp only [okOr, failIf, if_neg (not_lt.mpr near), bind, Except.bind, pure, Except.pure] at opened
      have first : requestSalt.profile.initialResponseReadBytes =
          (responseSalt.bytes ++ (primitives.derive psk responseSalt.bytes).sealed .new
            (responseFixed timestamp requestSalt payloadLen)).length := by
        rw [length_append, length_sealedFixed, responseSalt.width, sameProfile]
        simp only [MethodProfile.initialResponseReadBytes, responseFixedPlaintextLen, tagLen]
        omega
      have back := @drop_left _ (responseSalt.bytes ++ (primitives.derive psk responseSalt.bytes).sealed .new
        (responseFixed timestamp requestSalt payloadLen)) ((primitives.derive psk responseSalt.bytes).sealed next firstPayload)
      rw [← first] at back
      rw [width] at opened
      refine ⟨_, opened, ?_, next.bytes, ?_⟩
      · rw [show TcpSealer.new (primitives.derive psk responseSalt.bytes) = ⟨primitives.derive psk responseSalt.bytes, .new⟩
          from rfl, back, Aead.length_sealed]
        rfl
      · rw [show TcpSealer.new (primitives.derive psk responseSalt.bytes) = ⟨primitives.derive psk responseSalt.bytes, .new⟩
          from rfl, back, sameCipher]
        exact TcpOpener.openInPlace_reserved cipherOpens reservedNext firstPayload
    · intro other clock isOther
      by_cases otherProfile : other.profile = requestSalt.profile
      · obtain ⟨reason, refused, binding⟩ := openResponseFixed_rebound cipherOpens sameProfile opener reserved otherProfile isOther
          clock read
        exact ⟨reason, refused, fun _ => binding⟩
      · obtain ⟨reason, refused⟩ := @openResponseFixed_otherProfile (methodKeyAdapter primitives psk) other decrypt (fun salt same =>
          if_neg (by rw [keyProfile, sameProfile, same]; exact fun equal => otherProfile equal.symm)) read.length clock
        exact ⟨reason, refused, fun same => absurd same otherProfile⟩

/-- Ciphers that leave the plaintext as it is. -/
def sampleTcpPrimitives : TcpPrimitives := ⟨fun _ _ => .sample⟩

theorem sampleTcpPrimitives_opens : sampleTcpPrimitives.Opens := fun _ _ => Aead.sample_opens

def sampleTcpPsk : MethodPskBytes := .aes128 (List.replicate 16 3) rfl

def sampleTcpSalt : MethodTcpSalt := ⟨.blake3Aes128Gcm2022, List.replicate 16 2, rfl⟩

/-- A request to `a.b:53` with one byte of padding and three bytes of payload. -/
def sampleTcpRequest : Checked FrameError (TcpSealer × BytesMut) :=
  encodeRequestStateInto (fun _ length => length) (methodKeyAdapter sampleTcpPrimitives sampleTcpPsk) sampleTcpSalt 1000
    ⟨.domain ⟨[97, 46, 98], by decide, by decide, by decide⟩, 53, by decide⟩ [0] [1, 2, 3] ⟨[], 4096, by decide⟩ .encrypts .encrypts

theorem sampleTcpRequest_encoded : ∃ sealer encoded, sampleTcpRequest = .ok (sealer, encoded) ∧ encoded.bytes.length = 72 := by
  have length : sampleTcpRequest.toOption.map (fun encoded => encoded.2.bytes.length) = some 72 := by rfl
  cases encoded : sampleTcpRequest with
  | error error =>
    rw [encoded] at length
    cases length
  | ok pair =>
    rw [encoded] at length
    exact ⟨pair.1, pair.2, rfl, some.inj length⟩

/-- The transport delivers the first byte alone, and then the rest. -/
theorem sampleTcpRequest_short : ∃ sealer encoded, sampleTcpRequest = .ok (sealer, encoded) ∧
    Splits encoded.bytes.length [some 1, some 71] ∧
    (acceptStream (methodKeyAdapter sampleTcpPrimitives sampleTcpPsk) (some 1000) 0 (.new 4)
      (delivered encoded.bytes [some 1, some 71])).2 = fail (.detected .shortRead) := by
  obtain ⟨sealer, encoded, accepted, length⟩ := sampleTcpRequest_encoded
  have splits : Splits encoded.bytes.length [some 1, some 71] := ⟨by simp, length.symm⟩
  refine ⟨sealer, encoded, accepted, splits, ?_⟩
  unfold acceptStream
  rw [acceptRequest_short splits rfl (by decide)]
  rfl

theorem sampleTcpRequest_round_trip : ∃ sealer encoded, sampleTcpRequest = .ok (sealer, encoded) ∧
    (acceptStream (methodKeyAdapter sampleTcpPrimitives sampleTcpPsk) (some 1000) 0 (.new 4)
      (delivered encoded.bytes [none, some 43, some 20, none, some 9])).2 =
      .ok ⟨⟨.domain ⟨[97, 46, 98], by decide, by decide, by decide⟩, 53, by decide⟩, [1, 2, 3], sampleTcpSalt,
        ⟨sealer.cipher, sealer.nonce⟩⟩ := by
  obtain ⟨sealer, encoded, accepted, length⟩ := sampleTcpRequest_encoded
  have splits : Splits encoded.bytes.length [none, some 43, some 20, none, some 9] := ⟨by simp, length.symm⟩
  exact ⟨sealer, encoded, accepted, (handshake_round_trip sampleTcpPrimitives_opens sampleTcpPsk).1 _ _ _ _ _ _ _ _ _ _ _
    accepted 1000 _ 0 (.new 4) (by decide) splits⟩

end Ferrum.Shadowsocks
