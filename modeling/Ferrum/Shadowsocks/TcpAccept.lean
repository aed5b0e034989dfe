import Ferrum.Crypto.TcpKeys
import Ferrum.Lib.BytesMut
import Ferrum.Shadowsocks.UdpWire

namespace Ferrum.Shadowsocks

open Checked Core Crypto

def maxPayloadLen : Nat := 65535
def maxEncodePayloadLen : Nat := 32768
def maxPaddingLen : Nat := 900
def maxTcpSaltLen : Nat := 32
def maxResponseFixedPlaintextLen : Nat := 43
def encryptedLengthLen : Nat := 2 + tagLen
def maxEncryptWireLen : Nat := maxTcpSaltLen + maxResponseFixedPlaintextLen + tagLen + maxEncodePayloadLen + tagLen

def detectionFromAead : AeadError → DetectionReason
  | .nonceExhausted => .frameBounds
  | .authenticationFailed | .operationFailed => .authentication

def frameFromSealAead : AeadError → FrameError
  | .nonceExhausted => .nonceExhausted
  | .authenticationFailed | .operationFailed => .cipher

def detectionFromFrame : FrameError → DetectionReason
  | .keyUnavailable => .keyUnavailable
  | .cipher => .authentication
  | .nonceExhausted | .bounds | .emptyResponse => .frameBounds
  | .addressUnsupported => .addressBounds
  | .paddingBounds => .paddingBounds
  | .emptyRequest => .emptyRequest
  | .responseSaltReuse => .responseBinding

/-- The variable part of a request: target, padding with its length, and first payload. -/
def parseRequestVariable (plaintext : List UInt8) : Checked DetectionReason (TargetAddr × List UInt8) := do
  let (target, addressLen) ← validateTarget plaintext
  let paddingEnd := addressLen + 2
  failIf (plaintext.length < paddingEnd) .addressBounds
  let width ← slicing plaintext addressLen paddingEnd
  let high ← index width 0
  let low ← index width 1
  let paddingLen := (U16.fromBeBytes high low).val
  failIf (maxPaddingLen < paddingLen) .paddingBounds
  let payloadStart := paddingEnd + paddingLen
  failIf (plaintext.length < payloadStart) .paddingBounds
  let initialPayload ← slicing plaintext payloadStart plaintext.length
  failIf (paddingLen = 0 ∧ initialPayload = []) .emptyRequest
  let target ← ofExcept target.intoOwned
  return (target, initialPayload)

/-- `seal_suffix_in_place`, with the error of a frame. -/
def sealFrame (sealer : TcpSealer) (scratch : List UInt8) (plaintextStart : Nat) (primitive : Primitive) :
    Checked FrameError (TcpSealer × List UInt8) :=
  let sealing := sealer.sealSuffixInPlace scratch plaintextStart primitive
  match sealing.result with
  | .ok () => .ok (sealing.sealer, sealing.buffer)
  | .error error => fail (frameFromSealAead error)

section request

variable (growth : BytesMut.Growth)

def encodeTargetInto (target : TargetAddr) (scratch : BytesMut) : Checked FrameError BytesMut :=
  match target.host with
  | .ip (.v4 address) =>
    .ok (((scratch.extendFromSlice growth [ipv4Atyp]).extendFromSlice growth address.toList).extendFromSlice growth
      target.port.toBeBytes)
  | .ip (.v6 address) =>
    .ok (((scratch.extendFromSlice growth [ipv6Atyp]).extendFromSlice growth address.toList).extendFromSlice growth
      target.port.toBeBytes)
  | .domain name => do
    failIf (255 < name.original.length) .addressUnsupported
    .ok (((scratch.extendFromSlice growth [domainAtyp, UInt8.ofNat name.original.length]).extendFromSlice growth
      name.original).extendFromSlice growth target.port.toBeBytes)

/-- The first write of a client: the salt, the sealed fixed part and the sealed variable part. A
failure leaves a scratch that nobody reads. -/
def encodeRequestStateInto (keys : TcpKeyProvider) (salt : MethodTcpSalt) (timestamp : U64) (target : TargetAddr)
    (padding initialPayload : List UInt8) (scratch : BytesMut) (fixedPrimitive variablePrimitive : Primitive) :
    Checked FrameError (TcpSealer × BytesMut) := do
  failIf (maxPaddingLen < padding.length) .paddingBounds
  failIf (padding = [] ∧ initialPayload = []) .emptyRequest
  failIf (keys.tcpProfile ≠ salt.profile) .keyUnavailable
  let variableU16 ← okOr (U16.tryFrom (encodedTargetLen target + 2 + padding.length + initialPayload.length)) .bounds
  let scratch := scratch.clear.extendFromSlice growth [UInt8.ofNat requestType]
  let scratch := scratch.extendFromSlice growth timestamp.toBeBytes
  let scratch := scratch.extendFromSlice growth variableU16.toBeBytes
  let sealer ← okOr (keys.tcpSealer salt) .keyUnavailable
  let (sealer, fixed) ← sealFrame sealer scratch.bytes 0 fixedPrimitive
  assert (fixed.length = requestFixedPlaintextLen + tagLen)
  let scratch ← encodeTargetInto growth target (scratch.put growth fixed).clear
  let paddingU16 ← okOr (U16.tryFrom padding.length) .paddingBounds
  let scratch := scratch.extendFromSlice growth paddingU16.toBeBytes
  let scratch := (scratch.extendFromSlice growth padding).extendFromSlice growth initialPayload
  let (sealer, body) ← sealFrame sealer scratch.bytes 0 variablePrimitive
  let scratch := scratch.put growth body
  let requestFirstReadLen := salt.profile.initialRequestReadBytes
  let saltLen := salt.profile.saltBytes
  let total := requestFirstReadLen + body.length
  failIf (scratch.capacity < total) .bounds
  let scratch := scratch.resize growth total
  let moved ← copyRange scratch.bytes requestFirstReadLen total (scratch.bytes.take body.length)
  let salted ← copyRange moved 0 saltLen salt.bytes
  let whole ← copyRange salted saltLen requestFirstReadLen fixed
  return (sealer, scratch.put growth whole)

end request

def responseFixedPlaintextLen (profile : MethodProfile) : Nat := 11 + profile.saltBytes

/-- The first write of a server: the salt, the sealed fixed part with the salt of the request,
and the sealed first payload. -/
def encodeResponseStateInto (keys : TcpKeyProvider) (responseSalt : MethodTcpSalt) (timestamp : U64)
    (requestSalt : MethodTcpSalt) (firstPayload : List UInt8) (fixedPrimitive payloadPrimitive : Primitive) :
    Checked FrameError (TcpSealer × List UInt8) := do
  failIf (firstPayload = []) .emptyResponse
  failIf (maxEncodePayloadLen < firstPayload.length) .bounds
  failIf (responseSalt = requestSalt) .responseSaltReuse
  failIf (responseSalt.profile ≠ requestSalt.profile ∨ keys.tcpProfile ≠ responseSalt.profile) .keyUnavailable
  let payloadLen ← okOr (U16.tryFrom firstPayload.length) .bounds
  let scratch := [UInt8.ofNat responseType] ++ timestamp.toBeBytes ++ requestSalt.bytes ++ payloadLen.toBeBytes
  let sealer ← okOr (keys.tcpSealer responseSalt) .keyUnavailable
  let (sealer, scratch) ← sealFrame sealer scratch 0 fixedPrimitive
  let fixedLen := responseFixedPlaintextLen responseSalt.profile + tagLen
  let fixed ← copyRange (List.replicate (maxResponseFixedPlaintextLen + tagLen) 0) 0 fixedLen scratch
  let (sealer, body) ← sealFrame sealer firstPayload 0 payloadPrimitive
  let responseFirstReadLen := responseSalt.profile.initialResponseReadBytes
  let saltLen := responseSalt.profile.saltBytes
  let total := responseFirstReadLen + body.length
  failIf (maxEncryptWireLen < total) .bounds
  let moved ← copyRange (body ++ List.replicate (total - body.length) 0) responseFirstReadLen total body
  let salted ← copyRange moved 0 saltLen responseSalt.bytes
  let fixedWire ← slicing fixed 0 fixedLen
  let whole ← copyRange salted saltLen responseFirstReadLen fixedWire
  return (sealer, whole)

/-- One subsequent chunk: the sealed length and the sealed payload. -/
def sealDataChunkInto (sealer : TcpSealer) (payload : List UInt8) (lengthPrimitive payloadPrimitive : Primitive) :
    Checked FrameError (TcpSealer × List UInt8) := do
  failIf (maxEncodePayloadLen < payload.length) .bounds
  let payloadLen ← okOr (U16.tryFrom payload.length) .bounds
  let (sealer, length) ← sealFrame sealer payloadLen.toBeBytes 0 lengthPrimitive
  assert (length.length = encryptedLengthLen)
  let (sealer, scratch) ← sealFrame sealer (length ++ payload) encryptedLengthLen payloadPrimitive
  failIf (maxEncryptWireLen < scratch.length) .bounds
  return (sealer, scratch)

/-- `open_response_fixed` on the bytes of the first read: the wire length of the first payload,
and the opener that is installed. -/
def openResponseFixed (keys : TcpKeyProvider) (clock : Option U64) (requestSalt : MethodTcpSalt) (decrypt : List UInt8) :
    Checked DetectionReason (Nat × TcpOpener) := do
  let profile := requestSalt.profile
  let saltLen := profile.saltBytes
  let fixedPlaintextLen := responseFixedPlaintextLen profile
  let saltBytes ← slicing decrypt 0 saltLen
  let responseSalt ← okOr (MethodTcpSalt.tryFromSlice profile saltBytes) .frameBounds
  failIf (responseSalt = requestSalt) .responseBinding
  let opener ← okOr (keys.tcpOpener responseSalt) .keyUnavailable
  let sealed ← slicing decrypt saltLen profile.initialResponseReadBytes
  let fixedWire ← copyRange (List.replicate (maxResponseFixedPlaintextLen + tagLen) 0) 0 (fixedPlaintextLen + tagLen) sealed
  let wire ← slicing fixedWire 0 (fixedPlaintextLen + tagLen)
  let opening := opener.openInPlace wire
  (ofExcept opening.result).mapError detectionFromAead
  let plaintext := opening.buffer
  failIf (plaintext.length ≠ fixedPlaintextLen) .frameBounds
  let messageType ← index plaintext 0
  failIf (messageType ≠ UInt8.ofNat responseType) .invalidType
  let timestamp ← slicing plaintext 1 9
  assert (timestamp.length = 8)
  let now ← okOr clock .clockUnavailable
  failIf (30 < absDiff now.val (U64.fromBeBytes timestamp).val) .timestampSkew
  let bindingEnd := 9 + saltLen
  let binding ← slicing plaintext 9 bindingEnd
  failIf (binding ≠ requestSalt.bytes) .responseBinding
  let width ← slicing plaintext bindingEnd (bindingEnd + 2)
  let high ← index width 0
  let low ← index width 1
  let payloadLen := (U16.fromBeBytes high low).val
  failIf (payloadLen = 0) .frameBounds
  let wireLen := payloadLen + tagLen
  failIf (maxDecryptWireLen < wireLen) .frameBounds
  return (wireLen, opening.opener)

/-- What a transport answers to one read: how many bytes it reports, and what it has written
into the destination. -/
inductive ReadAnswer
  | pending
  | failed
  | ready (read : Nat) (content : List UInt8)
  deriving DecidableEq, Repr

/-- Why an accepting server has no session: it still waits for the transport, or it detected a
bad handshake. -/
inductive AcceptStop
  | waiting
  | detected (reason : DetectionReason)
  deriving DecidableEq, Repr

/-- The session that a server accepts. -/
structure AcceptedRequest where
  target : TargetAddr
  initialPayload : List UInt8
  requestSalt : MethodTcpSalt
  opener : TcpOpener

/-- The destination of a read after the transport wrote into it. -/
def readInto (buffer : List UInt8) (start stop : Nat) (content : List UInt8) : List UInt8 :=
  copyFromSlice buffer start (content.take (stop - start))

/-- One read that is awaited. -/
def awaitRead : List ReadAnswer → Checked AcceptStop ((Nat × List UInt8) × List ReadAnswer)
  | [] => fail .waiting
  | .pending :: rest => awaitRead rest
  | .failed :: _ => fail (.detected .readFailed)
  | .ready read content :: rest => .ok ((read, content), rest)

/-- The loop that reads the variable part; `filled` bytes of it are there. -/
def readVariable (wireLen : Nat) (decrypt : List UInt8) (filled : Nat) : List ReadAnswer → Checked AcceptStop (List UInt8)
  | [] => if filled < wireLen then fail .waiting else .ok decrypt
  | answer :: rest =>
    if filled < wireLen then
      match answer with
      | .pending => readVariable wireLen decrypt filled rest
      | .failed => fail (.detected .readFailed)
      | .ready read content => do
        failIf (read = 0) (.detected .shortRead)
        failIf (wireLen < filled + read) (.detected .frameBounds)
        readVariable wireLen (readInto decrypt filled wireLen content) (filled + read) rest
    else .ok decrypt

/-- The checks of the opened fixed part: the length of the variable part on the wire. -/
def acceptFixed (clock : Option U64) (plaintext : List UInt8) : Checked DetectionReason Nat := do
  failIf (plaintext.length ≠ requestFixedPlaintextLen) .frameBounds
  let messageType ← index plaintext 0
  failIf (messageType ≠ UInt8.ofNat requestType) .invalidType
  let timestamp ← slicing plaintext 1 9
  assert (timestamp.length = 8)
  let now ← okOr clock .clockUnavailable
  failIf (30 < absDiff now.val (U64.fromBeBytes timestamp).val) .timestampSkew
  let width ← slicing plaintext 9 11
  let high ← index width 0
  let low ← index width 1
  let variableLen := (U16.fromBeBytes high low).val
  failIf (maxDecryptWireLen < variableLen + tagLen) .frameBounds
  return variableLen

/-- `accept_stream` up to the replay store. -/
def acceptRequest (keys : TcpKeyProvider) (clock : Option U64) (answers : List ReadAnswer) :
    Checked AcceptStop AcceptedRequest := do
  let profile := keys.tcpProfile
  let saltLen := profile.saltBytes
  let requestFirstReadLen := profile.initialRequestReadBytes
  let ((firstRead, content), rest) ← awaitRead answers
  let decrypt := readInto (List.replicate maxDecryptWireLen 0) 0 requestFirstReadLen content
  failIf (firstRead ≠ requestFirstReadLen) (.detected .shortRead)
  let saltBytes ← slicing decrypt 0 saltLen
  let requestSalt ← okOr (MethodTcpSalt.tryFromSlice profile saltBytes) (.detected .frameBounds)
  let opener ← okOr (keys.tcpOpener requestSalt) (.detected .keyUnavailable)
  let fixedWire ← slicing decrypt saltLen requestFirstReadLen
  assert (fixedWire.length = requestFixedPlaintextLen + tagLen)
  let fixed := opener.openInPlace fixedWire
  (ofExcept fixed.result).mapError (.detected ∘ detectionFromAead)
  let variableLen ← (acceptFixed clock fixed.buffer).mapError .detected
  let wireLen := variableLen + tagLen
  let decrypt ← readVariable wireLen (List.replicate maxDecryptWireLen 0) 0 rest
  let body := fixed.opener.openInPlace (decrypt.take wireLen)
  (ofExcept body.result).mapError (.detected ∘ detectionFromAead)
  failIf (body.buffer.length ≠ variableLen) (.detected .frameBounds)
  let (target, initialPayload) ← (parseRequestVariable body.buffer).mapError .detected
  return ⟨target, initialPayload, requestSalt, body.opener⟩

def detectionFromReplay : ReplayInsertError → DetectionReason
  | .duplicate => .replay
  | .capacity => .replayCapacity

/-- `accept_stream`: the store afterwards, and the session. -/
def acceptStream (keys : TcpKeyProvider) (clock : Option U64) (monotonicNow : Nat) (replay : TcpReplayStore MethodTcpSalt)
    (answers : List ReadAnswer) : TcpReplayStore MethodTcpSalt × Checked AcceptStop AcceptedRequest :=
  match acceptRequest keys clock answers with
  | .error stop => (replay, .error stop)
  | .ok accepted =>
    let (replay, answer) := replay.checkAndInsert accepted.requestSalt monotonicNow
    match answer with
    | .ok () => (replay, .ok accepted)
    | .error error => (replay, fail (.detected (detectionFromReplay error)))

/-- The answers of a transport that delivers a byte string in parts; `none` stands for a poll
that finds nothing. -/
def delivered : List UInt8 → List (Option Nat) → List ReadAnswer
  | _, [] => []
  | wire, none :: rest => .pending :: delivered wire rest
  | wire, some size :: rest => .ready size (wire.take size) :: delivered (wire.drop size) rest

/-- The parts are not empty and make up the whole. -/
structure Splits (length : Nat) (parts : List (Option Nat)) : Prop where
  positive : ∀ size, some size ∈ parts → 0 < size
  whole : (parts.filterMap id).sum = length

end Ferrum.Shadowsocks
