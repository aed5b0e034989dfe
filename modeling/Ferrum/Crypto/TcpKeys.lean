import Ferrum.Crypto.TcpAead
import Ferrum.Crypto.UdpAead

namespace Ferrum.Crypto

/-- A salt, of the width of its profile. -/
structure MethodTcpSalt where
  profile : MethodProfile
  bytes : List UInt8
  width : bytes.length = profile.saltBytes
  deriving DecidableEq

def MethodProfile.initialRequestReadBytes (profile : MethodProfile) : Nat := profile.saltBytes + 27

def MethodProfile.initialResponseReadBytes (profile : MethodProfile) : Nat := profile.saltBytes * 2 + 27

def MethodPskBytes.profile : MethodPskBytes → MethodProfile
  | .aes128 _ _ => .blake3Aes128Gcm2022
  | .aes256 _ _ => .blake3Aes256Gcm2022
  | .chaCha20Poly1305 _ _ => .blake3ChaCha20Poly13052022

namespace MethodTcpSalt

def tryFromSlice (profile : MethodProfile) (bytes : List UInt8) : Option MethodTcpSalt :=
  if width : bytes.length = profile.saltBytes then some ⟨profile, bytes, width⟩ else none

theorem tryFromSlice_bytes (salt : MethodTcpSalt) : tryFromSlice salt.profile salt.bytes = some salt := dif_pos salt.width

end MethodTcpSalt

def responseSaltAttempts : Nat := 8

inductive RandomError
  | unavailable | repeatedSalt
  deriving DecidableEq, Repr

def generateMethodRequestSalt (profile : MethodProfile) (random : SecureRandom) : Except RandomError MethodTcpSalt :=
  match (random.fill profile.saltBytes).bind (MethodTcpSalt.tryFromSlice profile) with
  | some salt => .ok salt
  | none => .error .unavailable

/-- The loop over the attempts; `draws` is the random source of each. -/
def responseSaltLoop (draws : Nat → SecureRandom) (request : MethodTcpSalt) : Nat → Except RandomError MethodTcpSalt
  | 0 => .error .repeatedSalt
  | left + 1 =>
    match generateMethodRequestSalt request.profile (draws left) with
    | .error error => .error error
    | .ok candidate => if candidate ≠ request then .ok candidate else responseSaltLoop draws request left

def generateMethodResponseSalt (draws : Nat → SecureRandom) (request : MethodTcpSalt) : Except RandomError MethodTcpSalt :=
  responseSaltLoop draws request responseSaltAttempts

/-- The key derivation: the cipher of a key and a salt of its profile. -/
structure TcpPrimitives where
  derive : MethodPskBytes → List UInt8 → Aead

def TcpPrimitives.Opens (primitives : TcpPrimitives) : Prop := ∀ psk salt, (primitives.derive psk salt).Opens

structure TcpKeyProvider where
  tcpProfile : MethodProfile
  tcpSealer : MethodTcpSalt → Option TcpSealer
  tcpOpener : MethodTcpSalt → Option TcpOpener

/-- The capability of one configured key. -/
def methodKeyAdapter (primitives : TcpPrimitives) (psk : MethodPskBytes) : TcpKeyProvider where
  tcpProfile := psk.profile
  tcpSealer salt := if psk.profile = salt.profile then some (.new (primitives.derive psk salt.bytes)) else none
  tcpOpener salt := if psk.profile = salt.profile then some (.new (primitives.derive psk salt.bytes)) else none

theorem TcpSealer.sealSuffixInPlace_eq_ok {sealer : TcpSealer} {buffer : List UInt8} {plaintextStart : Nat}
    {primitive : Primitive} (sealed : (sealer.sealSuffixInPlace buffer plaintextStart primitive).result = .ok ()) :
    ∃ next, sealer.nonce.reserve = .ok (sealer.nonce.bytes, next) ∧ plaintextStart ≤ buffer.length ∧
      sealer.sealSuffixInPlace buffer plaintextStart primitive =
        ⟨⟨sealer.cipher, next⟩, buffer.take plaintextStart ++
          (sealer.cipher.encrypt sealer.nonce.bytes (buffer.drop plaintextStart)).1 ++
          (sealer.cipher.encrypt sealer.nonce.bytes (buffer.drop plaintextStart)).2, some sealer.nonce.bytes, .ok ()⟩ := by
  rcases sealCall_cases sealer (.suffixInPlace buffer plaintextStart primitive) with ⟨error, failed, -⟩ | ⟨next, reserved, sealing, inside⟩
  · rw [show (sealer.sealCall (.suffixInPlace buffer plaintextStart primitive)).result = .ok () from sealed] at failed
    cases failed
  · exact ⟨next, reserved, inside, sealing⟩

end Ferrum.Crypto
