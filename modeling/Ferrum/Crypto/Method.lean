import Ferrum.Lib.Bytes

namespace Ferrum.Crypto

def aes128KeyBytes : Nat := 16
def wideKeyBytes : Nat := 32
def aeadNonceBytes : Nat := 12
def aeadTagBytes : Nat := 16
def udpSessionIdBytes : Nat := 8
def udpPacketIdBytes : Nat := 8
def udpIdentityBytes : Nat := udpSessionIdBytes + udpPacketIdBytes
def xchachaNonceBytes : Nat := 24

/-- One of the three SIP022 method profiles. -/
inductive MethodProfile
  | blake3Aes128Gcm2022 | blake3Aes256Gcm2022 | blake3ChaCha20Poly13052022
  deriving DecidableEq, Repr

/-- The exact width of the key, the salt and the derived subkey. -/
def MethodProfile.keyBytes : MethodProfile → Nat
  | .blake3Aes128Gcm2022 => aes128KeyBytes
  | .blake3Aes256Gcm2022 | .blake3ChaCha20Poly13052022 => wideKeyBytes

def MethodProfile.saltBytes (profile : MethodProfile) : Nat := profile.keyBytes

/-- What the UDP envelope adds to the body of the caller. -/
def MethodProfile.udpWireOverheadBytes : MethodProfile → Nat
  | .blake3Aes128Gcm2022 | .blake3Aes256Gcm2022 => udpIdentityBytes + aeadTagBytes
  | .blake3ChaCha20Poly13052022 => xchachaNonceBytes + udpIdentityBytes + aeadTagBytes

/-- One expanded AEAD key. It encrypts a body in place and returns the tag beside it. -/
structure Aead where
  encrypt : List UInt8 → List UInt8 → List UInt8 × List UInt8
  decrypt : List UInt8 → List UInt8 → List UInt8 → Option (List UInt8)
  length_encrypt : ∀ nonce plaintext, (encrypt nonce plaintext).1.length = plaintext.length
  length_tag : ∀ nonce plaintext, (encrypt nonce plaintext).2.length = aeadTagBytes
  length_decrypt : ∀ nonce body tag plaintext, decrypt nonce body tag = some plaintext → plaintext.length = body.length

/-- Opening inverts sealing under the same key and nonce. -/
def Aead.Opens (cipher : Aead) : Prop :=
  ∀ nonce plaintext, cipher.decrypt nonce (cipher.encrypt nonce plaintext).1 (cipher.encrypt nonce plaintext).2 = some plaintext

/-- Nothing but what was sealed under the same key and nonce opens. -/
def Aead.Rejects (cipher : Aead) : Prop :=
  ∀ nonce body tag plaintext, cipher.decrypt nonce body tag = some plaintext → cipher.encrypt nonce plaintext = (body, tag)

attribute [simp] Aead.length_encrypt Aead.length_tag

/-- The tag of the sample cipher: the nonce, filled up with zeros. -/
def sampleTag (nonce : List UInt8) : List UInt8 := (nonce ++ List.replicate aeadTagBytes 0).take aeadTagBytes

/-- A sample cipher. It leaves the body as it is and accepts it under its own nonce only. -/
def Aead.sample : Aead where
  encrypt nonce plaintext := (plaintext, sampleTag nonce)
  decrypt nonce body tag := if tag = sampleTag nonce then some body else none
  length_encrypt _ _ := rfl
  length_tag nonce _ := by simp [sampleTag]
  length_decrypt := by
    intro nonce body tag plaintext opened
    split at opened
    · cases opened
      rfl
    · cases opened

theorem Aead.sample_opens : Aead.sample.Opens := by
  intro nonce plaintext
  simp [Aead.sample]

/-- What the primitive does with a call: it encrypts, or it fails and leaves some bytes where
the plaintext was. -/
inductive Primitive
  | encrypts
  | fails (left : List UInt8)

end Ferrum.Crypto
