import Ferrum.Rocom.Payload

namespace Ferrum.Rocom

/-- Direction of application bytes. -/
inductive Direction
  | upload | download
  deriving DecidableEq, Repr

def headerLen : Nat := 21
def maxPacket : Nat := 16 * 1024 * 1024
def syn : Nat := 0x1001
def ack : Nat := 0x1002
def data : Nat := 0x4013

def be32 (bytes : List UInt8) (offset : Nat) : Nat := be16 bytes offset * 65536 + be16 bytes (offset + 2)

/-- A parsed header; its lengths have passed their checks. -/
structure Header where
  headVersion : Nat
  bodyVersion : Nat
  command : Nat
  encrypted : Nat
  sequence : Nat
  headLen : Nat
  bodyLen : Nat
  long : headerLen ≤ headLen
  bounded : headLen + bodyLen ≤ maxPacket
  deriving DecidableEq, Repr

namespace Header

def parse (bytes : List UInt8) : Except String Header :=
  if bytes.length < headerLen then .error "short_header"
  else if bytes.take 2 ≠ [0x33, 0x66] then .error "invalid_magic"
  else if byteAt bytes 8 > 1 then .error "invalid_encrypted_flag"
  else if long : headerLen ≤ be32 bytes 13 then
    if bounded : be32 bytes 13 + be32 bytes 17 ≤ maxPacket then
      .ok { headVersion := be16 bytes 2, bodyVersion := be16 bytes 4, command := be16 bytes 6, encrypted := byteAt bytes 8
            sequence := be32 bytes 9, headLen := be32 bytes 13, bodyLen := be32 bytes 17, long, bounded }
    else .error "packet_limit"
  else .error "invalid_head_length"

variable (header : Header)

def total : Nat := header.headLen + header.bodyLen

def handshake : Bool := header.command == syn || header.command == ack

def evidence : Nat := min header.headLen (headerLen + 18)

theorem headerLen_le_evidence : headerLen ≤ header.evidence := by
  have long := header.long
  unfold evidence
  omega

theorem evidence_le_total : header.evidence ≤ header.total := by
  unfold evidence total
  omega

end Header

def hexDigit (value : Nat) : Char := "0123456789abcdef".toList.getD value '0'

/-- `hex::encode`. -/
def hexEncode (bytes : List UInt8) : String :=
  String.ofList (bytes.flatMap fun byte => [hexDigit (byte.toNat / 16), hexDigit (byte.toNat % 16)])

structure KeySnapshot where
  direction : Direction
  offset : Nat
  keyMethod : Nat
  encMethod : Option Nat
  sourceSequence : Nat
  keyHex : Option String
  deriving DecidableEq, Repr

structure KeyState where
  method : Nat
  encryption : Option Nat
  key : Option (List UInt8)
  reference : Option (Direction × Nat × Nat)
  deriving DecidableEq, Repr

namespace KeyState

def new : KeyState := ⟨0, none, none, none⟩

def expected (direction : Direction) (header : Header) : Bool :=
  match direction with
  | .upload => header.command == syn
  | .download => header.command == ack

def observe (keys : KeyState) (direction : Direction) (offset : Nat) (header : Header) (extension : List UInt8) :
    KeyState × Option KeySnapshot :=
  if !expected direction header then (keys, none)
  else
    let method := (extension[0]?.getD 0).toNat
    let encryption := if header.command = syn then extension[1]?.map UInt8.toNat else keys.encryption
    let key := if header.command = syn then none
      else if method = 2 ∧ extension[1]? = some 16 ∧ 18 ≤ extension.length then some (slice extension 2 18) else none
    ({ method, encryption, key, reference := some (direction, offset, header.sequence) },
      some { direction, offset, keyMethod := method, encMethod := encryption, sourceSequence := header.sequence
             keyHex := key.map hexEncode })

theorem observe_of_not_handshake (keys : KeyState) (direction : Direction) (offset : Nat) {header : Header}
    (other : header.handshake = false) (extension : List UInt8) : keys.observe direction offset header extension = (keys, none) := by
  have unexpected : expected direction header = false := by
    simp only [Header.handshake, Bool.or_eq_false_iff] at other
    cases direction
    · exact other.1
    · exact other.2
  rw [observe, unexpected]
  rfl

end KeyState

/-- The cipher without padding, and the decoder of named messages, if schemas are loaded. -/
structure Providers where
  decryptCbc : List UInt8 → List UInt8 → Option (List UInt8)
  schemas : Option (Nat → List UInt8 → Except String (String × String))

structure Plaintext where
  bytes : List UInt8
  payload : Option (Nat × Nat)
  error : Option String
  deriving DecidableEq, Repr

/-- The trailer `tsf4g` stands before the count of the bytes to trim. -/
def trailer : List UInt8 := [116, 115, 102, 52, 103]

def decrypt (providers : Providers) (key input : List UInt8) : Plaintext :=
  if input = [] ∨ input.length % 16 ≠ 0 then ⟨[], none, some "ciphertext_alignment"⟩
  else
    match providers.decryptCbc key input with
    | none => ⟨[], none, some "crypto_provider"⟩
    | some bytes =>
      let n := bytes.length
      if n < 22 then ⟨bytes, none, some "plaintext_too_short"⟩
      else
        let trim := byteAt bytes (n - 1)
        if trim < 6 ∨ trim > n - 16 then ⟨bytes, none, some "invalid_trim"⟩
        else if slice bytes (n - 6) (n - 1) ≠ trailer then ⟨bytes, none, some "missing_trailer"⟩
        else ⟨bytes, some (16, n - trim), none⟩

structure AppHeader where
  kind : String
  command : Nat
  sequence : Option Nat
  length : Nat
  deriving DecidableEq, Repr

def appHeader (direction : Direction) (bytes : List UInt8) : Except String AppHeader :=
  match direction with
  | .download =>
    if 10 ≤ bytes.length ∧ slice bytes 4 6 = [0x55, 0xaa] then .ok ⟨"s2c", be32 bytes 0, some (be32 bytes 6), 10⟩
    else .error "unknown_application_header"
  | .upload =>
    if 14 ≤ bytes.length ∧ slice bytes 8 10 = [0x7c, 0xa2] then .ok ⟨"c2s", be32 bytes 4, some (be32 bytes 10), 14⟩
    else if 8 ≤ bytes.length then
      let command := be16 bytes 6
      if command = 0 then .error "unknown_application_header"
      else if (bytes.take 6).any (· != 0) then
        if bytes.length < 14 then .error "short_compact_header" else .ok ⟨"c2s_compact", command, some (be32 bytes 10), 14⟩
      else .ok ⟨"c2s_short", command, none, 8⟩
    else .error "unknown_application_header"

inductive Document
  | nonstandard (bytes : List UInt8)
  | wireFields (fields : List WireField)
  | named (value : String)
  deriving DecidableEq, Repr

/-- What `decode_packet` adds to the message; a failure makes it partial. -/
structure Decoded where
  keyReference : Option (Direction × Nat × Nat)
  keyMethod : Nat
  encMethod : Option Nat
  keyHex : Option (Option String)
  decryption : Option String
  plaintext : Option (List UInt8)
  application : Option AppHeader
  payloadRaw : Option (List UInt8)
  messageName : Option String
  payload : Option Document
  wireFields : Option (List WireField)
  failure : Option (String × String × Nat)
  deriving DecidableEq, Repr

namespace Decoded

variable (decoded : Decoded)

def fail (stage code : String) (offset : Nat) : Decoded :=
  { decoded with failure := some (stage, code, offset) }

def start (keys : KeyState) : Decoded :=
  { keyReference := keys.reference, keyMethod := keys.method, encMethod := keys.encryption, keyHex := none, decryption := none
    plaintext := none, application := none, payloadRaw := none, messageName := none, payload := none, wireFields := none
    failure := none }

def handshake (decoded : Decoded) (direction : Direction) (header : Header) (keys : KeyState) : Decoded :=
  if !KeyState.expected direction header then decoded.fail "handshake" "unexpected_handshake_direction" 6
  else
    let named := { decoded with keyHex := some (keys.key.map hexEncode) }
    let checked :=
      if header.command = syn ∧ keys.encryption = none ∨ header.command = ack ∧ keys.key = none then
        named.fail "handshake" "unsupported_handshake" headerLen
      else named
    if header.bodyLen ≠ 0 then checked.fail "handshake" "unsupported_handshake_body" header.headLen else checked

/-- The payload of a body, or the message as far as it got. -/
def openBody (providers : Providers) (header : Header) (keys : KeyState) (body : List UInt8) :
    Except Decoded (Decoded × List UInt8) :=
  match keys.encryption with
  | some 0 =>
    if header.encrypted = 0 then .ok ({ decoded with decryption := some "plaintext", plaintext := some body }, body)
    else .error (decoded.fail "crypto" "encryption_flag_mismatch" 8)
  | some 3 =>
    match keys.key with
    | none => .error (decoded.fail "crypto" "missing_key" header.headLen)
    | some key =>
      let decrypted := decrypt providers key body
      let shown := { decoded with plaintext := some decrypted.bytes }
      match decrypted.error, decrypted.payload with
      | some code, _ => .error (shown.fail "crypto" code header.headLen)
      | none, some (start, stop) =>
        .ok ({ shown with decryption := some "aes128_cbc_method3" }, slice decrypted.bytes start stop)
      | none, none => .error shown
  | some _ => .error (decoded.fail "crypto" "unsupported_encryption" header.headLen)
  | none => .error (decoded.fail "crypto" "unknown_encryption" header.headLen)

def readApplication (providers : Providers) (direction : Direction) (payload : List UInt8) : Decoded :=
  match appHeader direction payload with
  | .error code => decoded.fail "application" code 0
  | .ok app =>
    let bytes := payload.drop app.length
    let shown := { decoded with application := some app, payloadRaw := some bytes }
    match Payload.fields bytes with
    | .error (code, offset) =>
      { shown with payload := some (.nonstandard bytes) }.fail "payload" code (app.length + offset)
    | .ok found =>
      match providers.schemas with
      | none => { shown with payload := some (.wireFields found) }
      | some schemas =>
        match schemas app.command bytes with
        | .ok (name, value) =>
          { shown with messageName := some name, payload := some (.named value), wireFields := some found }
        | .error code => { shown with payload := some (.wireFields found) }.fail "protobuf" code app.length

end Decoded

def decodePacket (providers : Providers) (direction : Direction) (header : Header) (raw : List UInt8) (keys : KeyState) :
    Decoded :=
  let decoded := Decoded.start keys
  if header.handshake then decoded.handshake direction header keys
  else if header.command ≠ data then decoded.fail "gcp" "unsupported_command" 6
  else
    match decoded.openBody providers header keys (raw.drop header.headLen) with
    | .error stopped => stopped
    | .ok (opened, payload) => opened.readApplication providers direction payload

/-- What a message says of its bytes: a packet with the key state it was decoded with, or a framing failure. -/
inductive Content
  | packet (header : Header) (keys : KeyState) (decoded : Decoded)
  | failure (code : String)
  deriving DecidableEq

/-- A message without the records that it came from. -/
structure Emission where
  direction : Direction
  streamOffset : Nat
  raw : List UInt8
  content : Content
  deriving DecidableEq

structure Message where
  connection : Nat
  sourceEvent : Nat
  completedEvent : Nat
  emission : Emission
  deriving DecidableEq

/-- `status` is `decoded`. -/
def Message.isDecoded (message : Message) : Bool :=
  match message.emission.content with
  | .packet _ _ decoded => decoded.failure.isNone
  | .failure _ => false

/-- Where a direction is in its packets. -/
structure Framing where
  offset : Nat
  buffer : List UInt8
  header : Option Header
  packetKeys : Option KeyState
  observed : Bool
  stopped : Bool
  deriving DecidableEq

structure Stream extends Framing where
  capacity : Nat
  sourceEvent : Nat
  deriving DecidableEq

structure Context where
  connection : Nat
  direction : Direction
  event : Nat
  capacityLimit : Nat
  deriving DecidableEq, Repr

namespace Framing

def new : Framing := ⟨0, [], none, none, false, false⟩

def target (framing : Framing) : Nat :=
  match framing.header with
  | none => headerLen
  | some header => if framing.observed then header.total else header.evidence

/-- What a full buffer leads to: the handshake that was observed is kept beside the message. -/
structure Settled where
  framing : Framing
  keys : KeyState
  seen : List KeySnapshot
  emission : Option Emission

/-- The end of a packet; the next one begins with an empty buffer. -/
def complete (providers : Providers) (framing : Framing) (direction : Direction) (header : Header) (keys : KeyState)
    (seen : List KeySnapshot) : Settled :=
  if framing.buffer.length = header.total then
    let used := framing.packetKeys.getD keys
    { framing :=
        { framing with offset := framing.offset + header.total, buffer := [], header := none, observed := false, packetKeys := none }
      keys, seen
      emission := some { direction, streamOffset := framing.offset, raw := framing.buffer
                         content := .packet header used (decodePacket providers direction header framing.buffer used) } }
  else ⟨framing, keys, seen, none⟩

/-- The observation of a handshake fixes the key state of its packet. -/
def inspect (providers : Providers) (framing : Framing) (direction : Direction) (header : Header) (keys : KeyState) : Settled :=
  if !framing.observed ∧ header.evidence ≤ framing.buffer.length then
    let result := keys.observe direction framing.offset header (framing.buffer.drop headerLen)
    let framing := { framing with
      observed := true, packetKeys := if header.handshake then some result.1 else framing.packetKeys }
    framing.complete providers direction header result.1 result.2.toList
  else framing.complete providers direction header keys []

/-- The header of a packet that is no handshake fixes its key state. -/
def settle (providers : Providers) (framing : Framing) (direction : Direction) (keys : KeyState) : Settled :=
  match framing.header with
  | some header => framing.inspect providers direction header keys
  | none =>
    match Header.parse framing.buffer with
    | .ok header =>
      let packetKeys := if header.handshake then framing.packetKeys else some keys
      inspect providers { framing with header := some header, packetKeys := packetKeys } direction header keys
    | .error code =>
      { framing := { framing with offset := framing.offset + framing.buffer.length, buffer := [], stopped := true }
        keys, seen := []
        emission := some { direction, streamOffset := framing.offset, raw := framing.buffer, content := .failure code } }

end Framing

namespace Stream

def new : Stream := { Framing.new with capacity := 0, sourceEvent := 0 }

def failure (stream : Stream) (context : Context) (bytes : List UInt8) (code : String) : Message where
  connection := context.connection
  sourceEvent := if stream.buffer = [] then context.event else stream.sourceEvent
  completedEvent := context.event
  emission := { direction := context.direction, streamOffset := stream.offset, raw := bytes, content := .failure code }

/-- A packet that the end of the records cuts off. -/
def finish (stream : Stream) (context : Context) : Stream × List Message :=
  if stream.buffer = [] then (stream, [])
  else ({ stream with offset := stream.offset + stream.buffer.length, buffer := [], capacity := 0 },
    [stream.failure context stream.buffer "truncated_packet"])

/-- `u64::saturating_add`. -/
def saturatingAdd (left right : Nat) : Nat := min (left + right) (2 ^ 64 - 1)

def reject (stream : Stream) (context : Context) (bytes : List UInt8) (offset : Nat) (code : String) : Stream × List Message :=
  let finished := stream.finish context
  let placed := { finished.1 with offset := offset }
  ({ placed with offset := saturatingAdd offset bytes.length, stopped := true, header := none, packetKeys := none },
    finished.2 ++ [placed.failure context bytes code])

/-- What feeding leaves: the messages, the handshakes seen, the integrity errors, and the bytes after a full turn. -/
structure Fed where
  stream : Stream
  keys : KeyState
  messages : List Message
  seen : List KeySnapshot
  integrityErrors : Nat
  rest : Option (List UInt8)

def Fed.join (done later : Fed) : Fed :=
  { later with
    messages := done.messages ++ later.messages, seen := done.seen ++ later.seen
    integrityErrors := done.integrityErrors + later.integrityErrors }

/-- The buffer takes its bytes; when it is full, its packet moves on. -/
def fill (providers : Providers) (stream : Stream) (context : Context) (keys : KeyState) (capacity : Nat)
    (taken rest : List UInt8) : Fed :=
  let filled := { stream with buffer := stream.buffer ++ taken, capacity := capacity }
  if filled.buffer.length < stream.target then ⟨filled, keys, [], [], 0, none⟩
  else
    let settled := filled.toFraming.settle providers context.direction keys
    { stream := { settled.framing with
        capacity := if settled.emission.isSome then 0 else capacity, sourceEvent := filled.sourceEvent }
      keys := settled.keys
      messages := settled.emission.toList.map fun emission =>
        { connection := context.connection, sourceEvent := filled.sourceEvent, completedEvent := context.event, emission }
      seen := settled.seen
      integrityErrors := 0
      rest := some rest }

/-- One turn of the loop of `feed`. -/
def turn (providers : Providers) (stream : Stream) (context : Context) (keys : KeyState) (input : List UInt8) : Fed :=
  if stream.stopped then
    ⟨{ stream with offset := stream.offset + input.length }, keys, [stream.failure context input "framing_stopped"], [], 0, none⟩
  else
    let stream := if stream.buffer = [] then { stream with sourceEvent := context.event } else stream
    let take := min (stream.target - stream.buffer.length) input.length
    let needed := stream.buffer.length + take
    if stream.capacity < needed ∧ context.capacityLimit < needed then
      let rejected := stream.reject context input (stream.offset + stream.buffer.length) "buffer_limit"
      ⟨rejected.1, keys, rejected.2, [], 1, none⟩
    else
      let capacity :=
        if stream.capacity < needed then min (max needed (stream.capacity * 2)) context.capacityLimit else stream.capacity
      stream.fill providers context keys capacity (input.take take) (input.drop take)

/-- The loop of `feed`, for so many turns; each takes a byte or is the last. -/
def feedFor (providers : Providers) : Nat → Stream → Context → KeyState → List UInt8 → Fed
  | 0, stream, _, keys, _ => ⟨stream, keys, [], [], 0, none⟩
  | turns + 1, stream, context, keys, input =>
    if input = [] then ⟨stream, keys, [], [], 0, none⟩
    else
      let done := stream.turn providers context keys input
      match done.rest with
      | none => done
      | some rest => done.join (feedFor providers turns done.stream context done.keys rest)

def feed (providers : Providers) (stream : Stream) (context : Context) (keys : KeyState) (input : List UInt8) : Fed :=
  stream.feedFor providers (input.length + 1) context keys input

end Stream

end Ferrum.Rocom
