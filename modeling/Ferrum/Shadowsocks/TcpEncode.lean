import Ferrum.Shadowsocks.TcpAccept
import Ferrum.Shadowsocks.UdpRoundTrip

namespace Ferrum.Crypto

open List

def Aead.sealed (cipher : Aead) (nonce : NonceCounter) (plaintext : List UInt8) : List UInt8 :=
  (cipher.encrypt nonce.bytes plaintext).1 ++ (cipher.encrypt nonce.bytes plaintext).2

@[simp] theorem Aead.length_sealed (cipher : Aead) (nonce : NonceCounter) (plaintext : List UInt8) :
    (cipher.sealed nonce plaintext).length = plaintext.length + aeadTagBytes := by
  simp [Aead.sealed]

theorem TcpOpener.openInPlace_reserved {cipher : Aead} (opens : cipher.Opens) {nonce next : NonceCounter}
    (reserved : nonce.reserve = .ok (nonce.bytes, next)) (plaintext : List UInt8) :
    openInPlace ⟨cipher, nonce⟩ (cipher.sealed nonce plaintext) = ⟨⟨cipher, next⟩, plaintext, some nonce.bytes, .ok ()⟩ :=
  openInPlace_sealed opens reserved plaintext

end Ferrum.Crypto

namespace Ferrum.Shadowsocks

open List Checked Core Crypto

theorem copyFromSlice_parts {bytes front middle back : List UInt8}
    (length : bytes.length = front.length + middle.length + back.length) :
    copyFromSlice (copyFromSlice (copyFromSlice bytes (front.length + middle.length) back) 0 front) front.length middle =
      front ++ middle ++ back := by
  have moved : copyFromSlice bytes (front.length + middle.length) back = bytes.take (front.length + middle.length) ++ back := by
    unfold copyFromSlice
    rw [drop_of_length_le (by omega), append_nil]
  have salted : copyFromSlice (bytes.take (front.length + middle.length) ++ back) 0 front =
      front ++ ((bytes.take (front.length + middle.length)).drop front.length ++ back) := by
    unfold copyFromSlice
    rw [take_zero, nil_append, Nat.zero_add, drop_append_of_le_length (by rw [length_take]; omega)]
  rw [moved, salted]
  unfold copyFromSlice
  rw [take_left, ← drop_drop, drop_left, drop_left' (by rw [length_drop, length_take]; omega)]

variable {sealer after : TcpSealer}

variable {scratch buffer wire : List UInt8} {primitive fixedPrimitive payloadPrimitive : Primitive}
  {growth : BytesMut.Growth} {target : TargetAddr} {keys : TcpKeyProvider} {timestamp : U64}

theorem sealFrame_eq_ok {plaintextStart : Nat}
    (sealed : sealFrame sealer scratch plaintextStart primitive = .ok (after, buffer)) :
    ∃ next, sealer.nonce.reserve = .ok (sealer.nonce.bytes, next) ∧ after = ⟨sealer.cipher, next⟩ ∧
      buffer = scratch.take plaintextStart ++ sealer.cipher.sealed sealer.nonce (scratch.drop plaintextStart) := by
  unfold sealFrame at sealed
  simp only at sealed
  split at sealed
  · rename_i succeeded
    obtain ⟨next, reserved, _, sealing⟩ := TcpSealer.sealSuffixInPlace_eq_ok succeeded
    rw [sealing] at sealed
    cases sealed
    exact ⟨next, reserved, rfl, append_assoc _ _ _⟩
  · cases sealed

theorem sealFrame_zero_eq_ok (sealed : sealFrame sealer scratch 0 primitive = .ok (after, buffer)) :
    ∃ next, sealer.nonce.reserve = .ok (sealer.nonce.bytes, next) ∧ after = ⟨sealer.cipher, next⟩ ∧
      buffer = sealer.cipher.sealed sealer.nonce scratch := sealFrame_eq_ok sealed

theorem encodeTargetInto_eq_ok {scratch after : BytesMut}
    (encoded : encodeTargetInto growth target scratch = .ok after) :
    ∃ address, encodeTarget target = .ok address ∧ after.bytes = scratch.bytes ++ address := by
  obtain ⟨host, port, nonzero⟩ := target
  cases host with
  | ip ip =>
    cases ip with
    | v4 address | v6 address =>
      cases encoded
      exact ⟨_, rfl, by simp⟩
  | domain name =>
    obtain ⟨_, _, rest⟩ := bind_eq_ok.mp encoded
    cases rest
    exact ⟨_, if_neg (not_lt.mpr name.bounded), by simp⟩

def requestFixed (timestamp : U64) (variableLen : U16) : List UInt8 :=
  [UInt8.ofNat requestType] ++ timestamp.toBeBytes ++ variableLen.toBeBytes

def responseFixed (timestamp : U64) (requestSalt : MethodTcpSalt) (payloadLen : U16) : List UInt8 :=
  [UInt8.ofNat responseType] ++ timestamp.toBeBytes ++ requestSalt.bytes ++ payloadLen.toBeBytes

theorem U16.tryFrom_eq_some {value : Nat} {word : U16} (made : U16.tryFrom value = some word) : word.val = value := by
  unfold U16.tryFrom at made
  split at made
  · cases made
    rfl
  · cases made

/-- A request that was encoded. -/
structure EncodedRequest (cipher : Aead) (nonce : NonceCounter) (salt : MethodTcpSalt) (timestamp : U64) (target : TargetAddr)
    (padding initialPayload : List UInt8) (sealer : TcpSealer) (wire : List UInt8) : Prop where
  parts : ∃ address paddingLen variableLen next, encodeTarget target = .ok address ∧ paddingLen.val = padding.length ∧
    variableLen.val = (address ++ U16.toBeBytes paddingLen ++ padding ++ initialPayload).length ∧
    nonce.reserve = .ok (nonce.bytes, next) ∧ next.reserve = .ok (next.bytes, sealer.nonce) ∧
    wire = salt.bytes ++ cipher.sealed nonce (requestFixed timestamp variableLen) ++
      cipher.sealed next (address ++ U16.toBeBytes paddingLen ++ padding ++ initialPayload)
  sameCipher : sealer.cipher = cipher
  bounded : padding.length ≤ maxPaddingLen
  nonempty : ¬(padding = [] ∧ initialPayload = [])

theorem encodeRequestStateInto_eq_ok {salt : MethodTcpSalt} {padding initialPayload : List UInt8} {scratch encoded : BytesMut}
    {variablePrimitive : Primitive}
    (accepted : encodeRequestStateInto growth keys salt timestamp target padding initialPayload scratch fixedPrimitive
      variablePrimitive = .ok (sealer, encoded)) :
    keys.tcpProfile = salt.profile ∧ ∃ fresh, keys.tcpSealer salt = some fresh ∧
      EncodedRequest fresh.cipher fresh.nonce salt timestamp target padding initialPayload sealer encoded.bytes := by
  unfold encodeRequestStateInto at accepted
  obtain ⟨_, padded, accepted⟩ := bind_eq_ok.mp accepted
  obtain ⟨_, content, accepted⟩ := bind_eq_ok.mp accepted
  obtain ⟨_, profile, accepted⟩ := bind_eq_ok.mp accepted
  obtain ⟨variableU16, width, accepted⟩ := bind_eq_ok.mp accepted
  obtain ⟨fresh, available, accepted⟩ := bind_eq_ok.mp accepted
  obtain ⟨⟨between, fixed⟩, first, accepted⟩ := bind_eq_ok.mp accepted
  obtain ⟨_, _, accepted⟩ := bind_eq_ok.mp accepted
  obtain ⟨addressed, isTarget, accepted⟩ := bind_eq_ok.mp accepted
  obtain ⟨paddingU16, paddingWidth, accepted⟩ := bind_eq_ok.mp accepted
  obtain ⟨⟨last, body⟩, second, accepted⟩ := bind_eq_ok.mp accepted
  obtain ⟨_, _, accepted⟩ := bind_eq_ok.mp accepted
  obtain ⟨moved, isMoved, accepted⟩ := bind_eq_ok.mp accepted
  obtain ⟨salted, isSalted, accepted⟩ := bind_eq_ok.mp accepted
  obtain ⟨whole, isWhole, accepted⟩ := bind_eq_ok.mp accepted
  cases accepted
  rw [failIf_eq_ok] at padded content profile
  rw [okOr_eq_ok] at width available paddingWidth
  obtain ⟨next, reserved, rfl, isFixed⟩ := sealFrame_zero_eq_ok first
  obtain ⟨final, reservedNext, rfl, isBody⟩ := sealFrame_zero_eq_ok second
  obtain ⟨address, isAddress, addressBytes⟩ := encodeTargetInto_eq_ok isTarget
  obtain ⟨_, _, _, rfl⟩ := copyRange_eq_ok.mp isMoved
  obtain ⟨_, _, _, rfl⟩ := copyRange_eq_ok.mp isSalted
  obtain ⟨_, _, _, rfl⟩ := copyRange_eq_ok.mp isWhole
  obtain ⟨known, isKnown, addressLength, -⟩ := validateTarget_encodeTarget target
  rw [isAddress] at isKnown
  cases isKnown
  refine ⟨not_not.mp profile, fresh, available, ?_, rfl, Nat.le_of_not_lt padded, content⟩
  refine ⟨address, paddingU16, variableU16, next, isAddress, U16.tryFrom_eq_some paddingWidth, ?_, reserved, reservedNext, ?_⟩
  · rw [U16.tryFrom_eq_some width]
    simp only [length_append, U16.length_toBeBytes, addressLength]
  · simp only [BytesMut.bytes_extendFromSlice, BytesMut.bytes_clear, nil_append] at isFixed
    simp only [BytesMut.bytes_extendFromSlice, addressBytes, BytesMut.bytes_clear, nil_append] at isBody
    have fixedLength : fixed.length = 27 := by
      rw [isFixed, Aead.length_sealed]
      simp [aeadTagBytes]
    have front : salt.profile.saltBytes = salt.bytes.length := salt.width.symm
    have first : salt.profile.initialRequestReadBytes = salt.bytes.length + fixed.length := by
      rw [fixedLength, salt.width]
      rfl
    rw [BytesMut.bytes_put, BytesMut.bytes_resize, BytesMut.bytes_put, take_of_length_le (by omega), take_left,
      front, first, copyFromSlice_parts, isFixed, isBody]
    · rfl
    · rw [length_append, length_replicate]
      omega

/-- A response that was encoded. -/
structure EncodedResponse (cipher : Aead) (nonce : NonceCounter) (responseSalt : MethodTcpSalt) (timestamp : U64)
    (requestSalt : MethodTcpSalt) (firstPayload : List UInt8) (sealer : TcpSealer) (wire : List UInt8) : Prop where
  parts : ∃ payloadLen next, payloadLen.val = firstPayload.length ∧
    nonce.reserve = .ok (nonce.bytes, next) ∧ next.reserve = .ok (next.bytes, sealer.nonce) ∧
    wire = responseSalt.bytes ++ cipher.sealed nonce (responseFixed timestamp requestSalt payloadLen) ++
      cipher.sealed next firstPayload
  sameCipher : sealer.cipher = cipher
  nonempty : firstPayload ≠ []
  bounded : firstPayload.length ≤ maxEncodePayloadLen
  different : responseSalt ≠ requestSalt
  sameProfile : responseSalt.profile = requestSalt.profile

theorem encodeResponseStateInto_eq_ok {responseSalt requestSalt : MethodTcpSalt} {firstPayload : List UInt8}
    (accepted : encodeResponseStateInto keys responseSalt timestamp requestSalt firstPayload fixedPrimitive payloadPrimitive =
      .ok (sealer, wire)) :
    keys.tcpProfile = responseSalt.profile ∧ ∃ fresh, keys.tcpSealer responseSalt = some fresh ∧
      EncodedResponse fresh.cipher fresh.nonce responseSalt timestamp requestSalt firstPayload sealer wire := by
  unfold encodeResponseStateInto at accepted
  obtain ⟨_, nonempty, accepted⟩ := bind_eq_ok.mp accepted
  obtain ⟨_, bounded, accepted⟩ := bind_eq_ok.mp accepted
  obtain ⟨_, different, accepted⟩ := bind_eq_ok.mp accepted
  obtain ⟨_, profile, accepted⟩ := bind_eq_ok.mp accepted
  obtain ⟨payloadLen, width, accepted⟩ := bind_eq_ok.mp accepted
  obtain ⟨fresh, available, accepted⟩ := bind_eq_ok.mp accepted
  obtain ⟨⟨between, sealed⟩, first, accepted⟩ := bind_eq_ok.mp accepted
  obtain ⟨fixed, isFixed, accepted⟩ := bind_eq_ok.mp accepted
  obtain ⟨⟨last, body⟩, second, accepted⟩ := bind_eq_ok.mp accepted
  obtain ⟨_, _, accepted⟩ := bind_eq_ok.mp accepted
  obtain ⟨moved, isMoved, accepted⟩ := bind_eq_ok.mp accepted
  obtain ⟨salted, isSalted, accepted⟩ := bind_eq_ok.mp accepted
  obtain ⟨fixedWire, isWire, accepted⟩ := bind_eq_ok.mp accepted
  obtain ⟨whole, isWhole, accepted⟩ := bind_eq_ok.mp accepted
  cases accepted
  rw [failIf_eq_ok] at nonempty bounded different profile
  rw [okOr_eq_ok] at width available
  obtain ⟨next, reserved, rfl, isSealed⟩ := sealFrame_zero_eq_ok first
  obtain ⟨final, reservedNext, rfl, isBody⟩ := sealFrame_zero_eq_ok second
  obtain ⟨_, fixedFits, sealedLength, rfl⟩ := copyRange_eq_ok.mp isFixed
  obtain ⟨_, _, _, rfl⟩ := copyRange_eq_ok.mp isMoved
  obtain ⟨_, _, _, rfl⟩ := copyRange_eq_ok.mp isSalted
  obtain ⟨_, _, isWire⟩ := slicing_eq_ok.mp isWire
  obtain ⟨_, _, _, rfl⟩ := copyRange_eq_ok.mp isWhole
  obtain ⟨sameProfile, keyProfile⟩ := not_or.mp profile
  refine ⟨not_not.mp keyProfile, fresh, available, ?_, rfl, nonempty, Nat.le_of_not_lt bounded, different,
    not_not.mp sameProfile⟩
  refine ⟨payloadLen, next, U16.tryFrom_eq_some width, reserved, reservedNext, ?_⟩
  rw [Nat.sub_zero] at sealedLength
  have isSealedWire : fixedWire = sealed := by
    have range := @slice_copyFromSlice_self (List.replicate (maxResponseFixedPlaintextLen + tagLen) 0) sealed 0 (by omega)
    rw [Nat.zero_add, sealedLength] at range
    exact isWire.symm.trans range
  have front : responseSalt.profile.saltBytes = responseSalt.bytes.length := responseSalt.width.symm
  have first : responseSalt.profile.initialResponseReadBytes = responseSalt.bytes.length + sealed.length := by
    rw [sealedLength, responseSalt.width]
    simp only [MethodProfile.initialResponseReadBytes, responseFixedPlaintextLen, tagLen]
    omega
  rw [isSealedWire, front, first, copyFromSlice_parts, isSealed, isBody]
  · rfl
  · rw [length_append, length_replicate]
    omega

/-- A chunk that was encoded. -/
structure EncodedChunk (cipher : Aead) (nonce : NonceCounter) (payload : List UInt8) (sealer : TcpSealer) (wire : List UInt8) :
    Prop where
  parts : ∃ payloadLen next, payloadLen.val = payload.length ∧
    nonce.reserve = .ok (nonce.bytes, next) ∧ next.reserve = .ok (next.bytes, sealer.nonce) ∧
    wire = cipher.sealed nonce (U16.toBeBytes payloadLen) ++ cipher.sealed next payload
  sameCipher : sealer.cipher = cipher
  bounded : payload.length ≤ maxEncodePayloadLen

theorem sealDataChunkInto_eq_ok {payload : List UInt8} {lengthPrimitive : Primitive}
    (accepted : sealDataChunkInto sealer payload lengthPrimitive payloadPrimitive = .ok (after, wire)) :
    EncodedChunk sealer.cipher sealer.nonce payload after wire := by
  unfold sealDataChunkInto at accepted
  obtain ⟨_, bounded, accepted⟩ := bind_eq_ok.mp accepted
  obtain ⟨payloadLen, width, accepted⟩ := bind_eq_ok.mp accepted
  obtain ⟨⟨between, length⟩, first, accepted⟩ := bind_eq_ok.mp accepted
  obtain ⟨_, _, accepted⟩ := bind_eq_ok.mp accepted
  obtain ⟨⟨last, scratch⟩, second, accepted⟩ := bind_eq_ok.mp accepted
  obtain ⟨_, _, accepted⟩ := bind_eq_ok.mp accepted
  cases accepted
  rw [failIf_eq_ok] at bounded
  rw [okOr_eq_ok] at width
  obtain ⟨next, reserved, rfl, isLength⟩ := sealFrame_zero_eq_ok first
  obtain ⟨final, reservedNext, rfl, isWire⟩ := sealFrame_eq_ok second
  have lengthWidth : length.length = encryptedLengthLen := by
    rw [isLength, Aead.length_sealed]
    rfl
  refine ⟨⟨payloadLen, next, U16.tryFrom_eq_some width, reserved, reservedNext, ?_⟩, rfl, Nat.le_of_not_lt bounded⟩
  rw [isWire, ← lengthWidth, take_left, drop_left, isLength]

end Ferrum.Shadowsocks
