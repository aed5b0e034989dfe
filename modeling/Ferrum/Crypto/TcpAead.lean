import Ferrum.Crypto.Method
import Ferrum.Lib.Numbering

namespace Ferrum.Crypto

open Option List

inductive AeadError
  | authenticationFailed | operationFailed | nonceExhausted
  deriving DecidableEq, Repr

/-- The carry loop; nothing when the carry leaves the last byte. -/
def incrementU96Le : List UInt8 → Option (List UInt8)
  | [] => none
  | byte :: rest => if byte = 255 then (incrementU96Le rest).map (0 :: ·) else some ((byte + 1) :: rest)

structure NonceCounter where
  bytes : List UInt8
  width : bytes.length = aeadNonceBytes

theorem incrementU96Le_eq_none {bytes : List UInt8} :
    incrementU96Le bytes = none ↔ leNat bytes + 1 = 256 ^ bytes.length := by
  induction bytes with
  | nil => simp [incrementU96Le, leNat]
  | cons byte rest ih =>
    have low := byte.toNat_lt
    have high := leNat_lt rest
    simp only [incrementU96Le, leNat, length_cons, Nat.pow_succ]
    split
    · rename_i full
      have last : byte.toNat = 255 := by simp [full]
      rw [map_eq_none_iff, ih, last]
      omega
    · rename_i partly
      have room : byte.toNat ≠ 255 := fun last => partly (UInt8.toNat_inj.mp last)
      simp only [reduceCtorEq, false_iff]
      omega

theorem incrementU96Le_eq_some {bytes next : List UInt8} (advances : incrementU96Le bytes = some next) :
    next.length = bytes.length ∧ leNat next = leNat bytes + 1 := by
  induction bytes generalizing next with
  | nil => cases advances
  | cons byte rest ih =>
    unfold incrementU96Le at advances
    split at advances
    · rename_i full
      have last : byte.toNat = 255 := by simp [full]
      obtain ⟨carried, advanced, same⟩ := map_eq_some_iff.mp advances
      obtain ⟨length, value⟩ := ih advanced
      subst same
      refine ⟨by simp [length], ?_⟩
      simp only [leNat, value, last, UInt8.toNat_zero]
      omega
    · rename_i partly
      have room : byte.toNat ≠ 255 := fun last => partly (UInt8.toNat_inj.mp last)
      have low := byte.toNat_lt
      cases advances
      refine ⟨by simp, ?_⟩
      have carried : (byte + 1).toNat = byte.toNat + 1 := by
        rw [UInt8.toNat_add, UInt8.toNat_one]
        omega
      simp only [leNat, carried]
      omega

namespace NonceCounter

def new : NonceCounter := ⟨List.replicate aeadNonceBytes 0, length_replicate⟩

variable (counter : NonceCounter)

/-- The current nonce and the counter after it; no nonce when the counter cannot advance. -/
def reserve : Except AeadError (List UInt8 × NonceCounter) :=
  match advanced : incrementU96Le counter.bytes with
  | none => .error .nonceExhausted
  | some next => .ok (counter.bytes, ⟨next, (incrementU96Le_eq_some advanced).1.trans counter.width⟩)

def value : Nat := leNat counter.bytes

def limit : Nat := 2 ^ 96 - 1

theorem value_le : counter.value ≤ limit := by
  have bound := leNat_lt counter.bytes
  rw [counter.width] at bound
  have power : 256 ^ aeadNonceBytes = 2 ^ 96 := by norm_num [aeadNonceBytes]
  unfold value limit
  omega

theorem reserve_eq_error {counter : NonceCounter} {error : AeadError} :
    counter.reserve = .error error ↔ error = .nonceExhausted ∧ counter.value = limit := by
  have power : 256 ^ aeadNonceBytes = 2 ^ 96 := by norm_num [aeadNonceBytes]
  have stops := @incrementU96Le_eq_none counter.bytes
  rw [counter.width, power] at stops
  unfold reserve
  split
  · rename_i stopped
    have last := stops.mp stopped
    rw [Except.error.injEq, eq_comm]
    refine ⟨fun same => ⟨same, ?_⟩, fun both => both.1⟩
    unfold value limit
    omega
  · rename_i next advanced
    refine ⟨(nomatch ·), fun both => ?_⟩
    have last : leNat counter.bytes + 1 = 2 ^ 96 := by
      have atLimit := both.2
      unfold value limit at atLimit
      omega
    rw [stops.mpr last] at advanced
    cases advanced

theorem reserve_eq_ok {counter next : NonceCounter} {nonce : List UInt8} (reserved : counter.reserve = .ok (nonce, next)) :
    nonce = counter.bytes ∧ next.value = counter.value + 1 := by
  unfold reserve at reserved
  split at reserved
  · cases reserved
  · rename_i advanced
    cases reserved
    exact ⟨rfl, (incrementU96Le_eq_some advanced).2⟩

@[simp] theorem value_new : new.value = 0 := leNat_replicate_zero aeadNonceBytes

end NonceCounter

structure TcpSealer where
  cipher : Aead
  nonce : NonceCounter

structure TcpOpener where
  cipher : Aead
  nonce : NonceCounter

/-- What a call on a sealer leaves: the sealer, the buffer, the nonce handed to the primitive, and its result. -/
structure TcpSealing where
  sealer : TcpSealer
  buffer : List UInt8
  nonce : Option (List UInt8)
  result : Except AeadError Unit

structure TcpOpening where
  opener : TcpOpener
  buffer : List UInt8
  nonce : Option (List UInt8)
  result : Except AeadError Unit

namespace TcpSealer

def new (cipher : Aead) : TcpSealer := ⟨cipher, .new⟩

/-- Encrypts the bytes from `plaintextStart` on and appends their tag. -/
def sealSuffixInPlace (sealer : TcpSealer) (buffer : List UInt8) (plaintextStart : Nat) (primitive : Primitive) : TcpSealing :=
  if buffer.length < plaintextStart then ⟨sealer, buffer, none, .error .operationFailed⟩
  else
    match sealer.nonce.reserve with
    | .error error => ⟨sealer, buffer, none, .error error⟩
    | .ok (nonce, next) =>
      match primitive with
      | .fails left => ⟨sealer, buffer.take plaintextStart ++ left, some nonce, .error .operationFailed⟩
      | .encrypts =>
        let (body, tag) := sealer.cipher.encrypt nonce (buffer.drop plaintextStart)
        ⟨{ sealer with nonce := next }, buffer.take plaintextStart ++ body ++ tag, some nonce, .ok ()⟩

def sealInPlace (sealer : TcpSealer) (buffer : List UInt8) (primitive : Primitive) : TcpSealing :=
  sealer.sealSuffixInPlace buffer 0 primitive

end TcpSealer

namespace TcpOpener

def new (cipher : Aead) : TcpOpener := ⟨cipher, .new⟩

/-- Authenticates and decrypts a body. A failure of the primitive clears the buffer and keeps the nonce. -/
def openInPlace (opener : TcpOpener) (buffer : List UInt8) : TcpOpening :=
  match opener.nonce.reserve with
  | .error error => ⟨opener, buffer, none, .error error⟩
  | .ok (nonce, next) =>
    if buffer.length < aeadTagBytes then ⟨opener, buffer, none, .error .authenticationFailed⟩
    else
      let plaintextLen := buffer.length - aeadTagBytes
      match opener.cipher.decrypt nonce (buffer.take plaintextLen) (buffer.drop plaintextLen) with
      | none => ⟨opener, List.replicate buffer.length 0, some nonce, .error .authenticationFailed⟩
      | some plaintext => ⟨{ opener with nonce := next }, plaintext, some nonce, .ok ()⟩

end TcpOpener

/-- A call on a sealer, with what the primitive does. -/
inductive TcpSealCall
  | inPlace (buffer : List UInt8) (primitive : Primitive)
  | suffixInPlace (buffer : List UInt8) (plaintextStart : Nat) (primitive : Primitive)

/-- A successful call: the plaintext that it took, the wire that it left, and its nonce. -/
structure TcpSealed where
  plaintext : List UInt8
  wire : List UInt8
  nonce : List UInt8
  deriving DecidableEq

def TcpSealCall.buffer : TcpSealCall → List UInt8
  | .inPlace buffer _ => buffer
  | .suffixInPlace buffer _ _ => buffer

def TcpSealCall.plaintextStart : TcpSealCall → Nat
  | .inPlace _ _ => 0
  | .suffixInPlace _ plaintextStart _ => plaintextStart

def TcpSealCall.primitive : TcpSealCall → Primitive
  | .inPlace _ primitive => primitive
  | .suffixInPlace _ _ primitive => primitive

namespace TcpSealer

variable (sealer : TcpSealer)

def sealCall : TcpSealCall → TcpSealing
  | .inPlace buffer primitive => sealer.sealInPlace buffer primitive
  | .suffixInPlace buffer plaintextStart primitive => sealer.sealSuffixInPlace buffer plaintextStart primitive

def step (call : TcpSealCall) : TcpSealer × (TcpSealCall × TcpSealing) :=
  ((sealer.sealCall call).sealer, call, sealer.sealCall call)

def sealedOf : TcpSealCall × TcpSealing → Option TcpSealed
  | (call, ⟨_, buffer, some nonce, .ok ()⟩) =>
    some ⟨call.buffer.drop call.plaintextStart, buffer.drop call.plaintextStart, nonce⟩
  | _ => none

def sealedBy (cipher : Aead) (calls : List TcpSealCall) : List TcpSealed :=
  (outcomes step (new cipher) calls).filterMap sealedOf

variable (call : TcpSealCall)

theorem sealCall_eq : sealer.sealCall call = sealer.sealSuffixInPlace call.buffer call.plaintextStart call.primitive := by
  cases call with
  | inPlace buffer primitive => rfl
  | suffixInPlace buffer plaintextStart primitive => rfl

theorem sealCall_cases :
    (∃ error, (sealer.sealCall call).result = .error error ∧ (sealer.sealCall call).sealer = sealer ∧
      (error = .nonceExhausted → sealer.nonce.value = NonceCounter.limit)) ∨
    ∃ next, sealer.nonce.reserve = .ok (sealer.nonce.bytes, next) ∧
      sealer.sealCall call = ⟨⟨sealer.cipher, next⟩, call.buffer.take call.plaintextStart ++
        (sealer.cipher.encrypt sealer.nonce.bytes (call.buffer.drop call.plaintextStart)).1 ++
        (sealer.cipher.encrypt sealer.nonce.bytes (call.buffer.drop call.plaintextStart)).2,
        some sealer.nonce.bytes, .ok ()⟩ ∧ call.plaintextStart ≤ call.buffer.length := by
  rw [sealCall_eq]
  unfold sealSuffixInPlace
  split
  · exact .inl ⟨_, rfl, rfl, nofun⟩
  · rename_i inside
    cases reserved : sealer.nonce.reserve with
    | error error => exact .inl ⟨error, rfl, rfl, fun _ => (NonceCounter.reserve_eq_error.mp reserved).2⟩
    | ok pair =>
      obtain ⟨nonce, next⟩ := pair
      obtain ⟨here, -⟩ := NonceCounter.reserve_eq_ok reserved
      subst here
      cases call.primitive with
      | fails left => exact .inl ⟨_, rfl, rfl, nofun⟩
      | encrypts => exact .inr ⟨next, rfl, rfl, by omega⟩

theorem sealCall_succeeds {sealer : TcpSealer} {call : TcpSealCall} (inside : call.plaintextStart ≤ call.buffer.length)
    (encrypts : call.primitive = .encrypts) (room : sealer.nonce.value < NonceCounter.limit) :
    (sealer.sealCall call).result = .ok () := by
  rw [sealCall_eq]
  unfold sealSuffixInPlace
  rw [if_neg (by omega), encrypts]
  cases reserved : sealer.nonce.reserve with
  | error error =>
    have full := (NonceCounter.reserve_eq_error.mp reserved).2
    omega
  | ok pair => rfl

theorem sealedOf_error {sealing : TcpSealing} {error : AeadError} (failed : sealing.result = .error error) :
    sealedOf (call, sealing) = none := by
  obtain ⟨sealer, buffer, nonce, result⟩ := sealing
  cases failed
  cases nonce with
  | none => rfl
  | some nonce => rfl

theorem numbers : Numbers step (fun sealer => sealer.nonce.value) (fun outcome => (sealedOf outcome).map (leNat ·.nonce)) where
  failed := by
    intro sealer call none
    rcases sealCall_cases sealer call with ⟨error, result, same, -⟩ | ⟨next, reserved, sealing, -⟩
    · exact same
    · simp [step, sealing, sealedOf] at none
  taken := by
    intro sealer call taken found
    rcases sealCall_cases sealer call with ⟨error, result, same, -⟩ | ⟨next, reserved, sealing, -⟩
    · have nothing : sealedOf (step sealer call).2 = none := sealedOf_error call result
      rw [nothing] at found
      cases found
    · simp only [step, sealing, sealedOf, map_some, some.injEq] at found ⊢
      rw [(NonceCounter.reserve_eq_ok reserved).2, ← found]
      exact ⟨rfl, rfl⟩

theorem nonces_range (calls : List TcpSealCall) :
    ((outcomes step sealer calls).filterMap sealedOf).map (leNat ·.nonce) =
      List.range' sealer.nonce.value ((outcomes step sealer calls).filterMap sealedOf).length := by
  have range := numbers.range sealer calls
  rw [← map_filterMap, length_map] at range
  exact range

theorem width_of_mem {sealer : TcpSealer} {calls : List TcpSealCall} {sealed : TcpSealed}
    (member : sealed ∈ (outcomes step sealer calls).filterMap sealedOf) : sealed.nonce.length = aeadNonceBytes := by
  induction calls generalizing sealer with
  | nil => cases member
  | cons call rest ih =>
    rw [outcomes] at member
    rcases sealCall_cases sealer call with ⟨error, result, -⟩ | ⟨next, reserved, sealing, -⟩
    · have nothing : sealedOf (step sealer call).2 = none := sealedOf_error call result
      rw [filterMap_cons_none nothing] at member
      exact ih member
    · simp only [step, sealing, sealedOf, filterMap_cons, mem_cons] at member
      rcases member with here | later
      · rw [here]
        exact sealer.nonce.width
      · exact ih later

end TcpSealer

namespace TcpOpener

def step (opener : TcpOpener) (wire : List UInt8) : TcpOpener × TcpOpening :=
  ((opener.openInPlace wire).opener, opener.openInPlace wire)

theorem openInPlace_sealed {cipher : Aead} (opens : cipher.Opens) {counter next : NonceCounter} {nonce : List UInt8}
    (reserved : counter.reserve = .ok (nonce, next)) (plaintext : List UInt8) :
    openInPlace ⟨cipher, counter⟩ ((cipher.encrypt nonce plaintext).1 ++ (cipher.encrypt nonce plaintext).2) =
      ⟨⟨cipher, next⟩, plaintext, some nonce, .ok ()⟩ := by
  have split : ((cipher.encrypt nonce plaintext).1 ++ (cipher.encrypt nonce plaintext).2).length - aeadTagBytes =
      (cipher.encrypt nonce plaintext).1.length := by simp
  unfold openInPlace
  rw [reserved]
  simp only
  rw [if_neg (by simp), split, take_left, drop_left, opens nonce plaintext]

theorem openings_sealed {cipher : Aead} (opens : cipher.Opens) (counter : NonceCounter) (calls : List TcpSealCall) :
    (outcomes step ⟨cipher, counter⟩ (((outcomes TcpSealer.step ⟨cipher, counter⟩ calls).filterMap
        TcpSealer.sealedOf).map (·.wire))).map (fun opening => (opening.nonce, opening.buffer, opening.result)) =
      ((outcomes TcpSealer.step ⟨cipher, counter⟩ calls).filterMap TcpSealer.sealedOf).map
        (fun sealed => (some sealed.nonce, sealed.plaintext, .ok ())) := by
  induction calls generalizing counter with
  | nil => rfl
  | cons call rest ih =>
    rw [outcomes]
    rcases TcpSealer.sealCall_cases ⟨cipher, counter⟩ call with ⟨error, result, same, -⟩ | ⟨next, reserved, sealing, inside⟩
    · have nothing : TcpSealer.sealedOf (TcpSealer.step ⟨cipher, counter⟩ call).2 = none :=
        TcpSealer.sealedOf_error call result
      rw [filterMap_cons_none nothing]
      rw [show (TcpSealer.step ⟨cipher, counter⟩ call).1 = ⟨cipher, counter⟩ from same]
      exact ih counter
    · have length : (call.buffer.take call.plaintextStart).length = call.plaintextStart := length_take_of_le inside
      simp only at reserved sealing
      simp only [TcpSealer.step, sealing, TcpSealer.sealedOf, filterMap_cons, map_cons, append_assoc]
      rw [drop_append_of_le_length (by omega), drop_eq_nil_of_le (by omega), nil_append, outcomes]
      have opened := openInPlace_sealed opens reserved (call.buffer.drop call.plaintextStart)
      simp only [step, opened, map_cons]
      exact congrArg _ (ih next)

end TcpOpener

end Ferrum.Crypto
