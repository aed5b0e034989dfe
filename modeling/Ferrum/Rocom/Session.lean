import Ferrum.Rocom.Stream

namespace Ferrum.Rocom

/-- The framer of one direction that only looks for handshakes. `starts` are the offsets at which its packets began. -/
structure TrackerStream where
  pending : List UInt8
  header : Option Header
  position : Nat
  offset : Nat
  stopped : Bool
  observed : Bool
  starts : List Nat
  deriving DecidableEq, Repr

namespace TrackerStream

def new : TrackerStream := ⟨[], none, 0, 0, false, false, []⟩

/-- The position at which a packet with this header is observed. -/
def wanted (header : Header) : Nat := if header.handshake then header.evidence else headerLen

variable (stream : TrackerStream)

/-- The bytes of the header, while it has not been parsed. -/
def fillHeader (bytes : List UInt8) : TrackerStream × List UInt8 :=
  match stream.header with
  | some _ => (stream, bytes)
  | none =>
    let take := min (headerLen - stream.pending.length) bytes.length
    ({ stream with pending := stream.pending ++ bytes.take take, position := stream.position + take }, bytes.drop take)

/-- The bytes of the extension, up to the wanted ones. -/
def fillExtension (header : Header) (bytes : List UInt8) : TrackerStream × List UInt8 :=
  if stream.position < wanted header then
    let take := min (wanted header - stream.position) bytes.length
    ({ stream with pending := stream.pending ++ bytes.take take, position := stream.position + take }, bytes.drop take)
  else (stream, bytes)

/-- The observation of the handshake, once for a packet. -/
def note (direction : Direction) (header : Header) (keys : KeyState) : TrackerStream × KeyState × List KeySnapshot :=
  if stream.observed then (stream, keys, [])
  else
    let seen := keys.observe direction stream.offset header (stream.pending.drop headerLen)
    ({ stream with observed := true, pending := [] }, seen.1, seen.2.toList)

/-- The bytes of the packet are skipped; at its end the next one begins. -/
def skip (header : Header) (bytes : List UInt8) : TrackerStream × List UInt8 :=
  let take := min (header.total - stream.position) bytes.length
  let position := stream.position + take
  (if position = header.total then
      { stream with offset := stream.offset + header.total, position := 0, header := none, observed := false
                    starts := stream.starts ++ [stream.offset] }
    else { stream with position := position }, bytes.drop take)

/-- What a turn of the loop leaves: no bytes after a `break`. -/
structure Turn where
  stream : TrackerStream
  keys : KeyState
  output : List KeySnapshot
  rest : Option (List UInt8)

/-- The second half of a turn, with the header. -/
def turnPacket (direction : Direction) (header : Header) (keys : KeyState) (bytes : List UInt8) : Turn :=
  let filled := stream.fillExtension header bytes
  if filled.1.position < wanted header then ⟨filled.1, keys, [], none⟩
  else
    let noted := filled.1.note direction header keys
    let skipped := noted.1.skip header filled.2
    ⟨skipped.1, noted.2.1, noted.2.2, some skipped.2⟩

def turn (direction : Direction) (keys : KeyState) (bytes : List UInt8) : Turn :=
  let filled := stream.fillHeader bytes
  match filled.1.header with
  | some header => filled.1.turnPacket direction header keys filled.2
  | none =>
    if filled.1.pending.length < headerLen then ⟨filled.1, keys, [], none⟩
    else
      match Header.parse filled.1.pending with
      | .ok header => turnPacket { filled.1 with header := some header } direction header keys filled.2
      | .error _ => ⟨{ filled.1 with stopped := true }, keys, [], none⟩

/-- The loop of `observe`, for so many turns; each takes a byte or is the last. -/
def observeFor : Nat → TrackerStream → Direction → KeyState → List UInt8 → TrackerStream × KeyState × List KeySnapshot
  | 0, stream, _, keys, _ => (stream, keys, [])
  | turns + 1, stream, direction, keys, bytes =>
    if bytes = [] ∨ stream.stopped then (stream, keys, [])
    else
      let done := stream.turn direction keys bytes
      match done.rest with
      | none => (done.stream, done.keys, done.output)
      | some rest =>
        let later := observeFor turns done.stream direction done.keys rest
        (later.1, later.2.1, done.output ++ later.2.2)

def observe (direction : Direction) (bytes : List UInt8) (keys : KeyState) : TrackerStream × KeyState × List KeySnapshot :=
  observeFor (bytes.length + 1) stream direction keys bytes

end TrackerStream

structure KeyTracker where
  upload : TrackerStream
  download : TrackerStream
  keys : KeyState
  deriving DecidableEq, Repr

namespace KeyTracker

def new : KeyTracker := ⟨.new, .new, .new⟩

def stream (tracker : KeyTracker) : Direction → TrackerStream
  | .upload => tracker.upload
  | .download => tracker.download

def observe (tracker : KeyTracker) (direction : Direction) (bytes : List UInt8) : List KeySnapshot × KeyTracker :=
  let done := (tracker.stream direction).observe direction bytes tracker.keys
  (done.2.2, match direction with
    | .upload => { tracker with upload := done.1, keys := done.2.1 }
    | .download => { tracker with download := done.1, keys := done.2.1 })

end KeyTracker

structure Sides (α : Type) where
  upload : α
  download : α
  deriving DecidableEq, Repr

namespace Sides

variable {α : Type}

variable (sides : Sides α)

def get : Direction → α
  | .upload => sides.upload
  | .download => sides.download

def set (direction : Direction) (value : α) : Sides α :=
  match direction with
  | .upload => { sides with upload := value }
  | .download => { sides with download := value }

def both (value : α) : Sides α := ⟨value, value⟩

@[simp] theorem get_set_self (direction : Direction) (value : α) : (sides.set direction value).get direction = value := by
  cases direction <;> rfl

theorem get_set_ne {direction other : Direction} (different : other ≠ direction) (value : α) :
    (sides.set direction value).get other = sides.get other := by
  cases direction <;> cases other <;> first | rfl | exact absurd rfl different

end Sides

/-- The decoder's view of one connection. -/
structure Session where
  streams : Sides Stream
  keys : KeyState
  tracker : KeyTracker
  offsets : Sides Nat
  rejected : Sides Bool
  deriving DecidableEq

/-- A data record, its place in the file and the capacity that the other buffers leave; its bytes are those of a valid text. -/
structure DataRecord where
  event : Nat
  capacityLimit : Nat
  direction : Direction
  offset : Nat
  bytes : Option (List UInt8)
  deriving DecidableEq, Repr

/-- What a record leaves: `fed` are the bytes that the stream got, `evidence` the keys that have to follow. -/
structure Recorded where
  session : Session
  messages : List Message
  seen : List KeySnapshot
  evidence : List KeySnapshot
  integrityErrors : Nat
  fed : List UInt8
  /-- `Error("offset_limit")`. -/
  ended : Bool

namespace Session

def new : Session := ⟨.both .new, .new, .new, .both 0, .both false⟩

/-- `!bytes.is_empty() && bytes.len() <= 32768`. -/
def accepted (record : DataRecord) : Option (List UInt8) :=
  record.bytes.filter fun bytes => bytes ≠ [] ∧ bytes.length ≤ 32768

def context (connection : Nat) (record : DataRecord) : Context :=
  ⟨connection, record.direction, record.event, record.capacityLimit⟩

/-- A rejected record stops its direction, and the key state is not trusted any more. -/
def refuse (session : Session) (connection : Nat) (record : DataRecord) (bytes : List UInt8) (code : String) : Recorded :=
  let rejected := (session.streams.get record.direction).reject (context connection record) bytes record.offset code
  { session := { session with
      streams := session.streams.set record.direction rejected.1, rejected := session.rejected.set record.direction true
      keys := .new }
    messages := rejected.2, seen := [], evidence := [], integrityErrors := 1, fed := bytes, ended := false }

/-- The offset of the next record of the direction. -/
def advance (recorded : Recorded) (record : DataRecord) (bytes : List UInt8) : Recorded :=
  if record.offset + bytes.length < 2 ^ 64 then
    { recorded with session := { recorded.session with
        offsets := recorded.session.offsets.set record.direction (record.offset + bytes.length) } }
  else { recorded with ended := true }

/-- The stream of the record; a rejected one stands wherever the record says. -/
def placed (session : Session) (record : DataRecord) : Stream :=
  if session.rejected.get record.direction then { session.streams.get record.direction with offset := record.offset }
  else session.streams.get record.direction

def feed (providers : Providers) (session : Session) (connection : Nat) (record : DataRecord) (bytes : List UInt8) : Recorded :=
  let tracked :=
    if session.rejected.get record.direction then ([], session.tracker) else session.tracker.observe record.direction bytes
  let fed := (session.placed record).feed providers (context connection record) session.keys bytes
  { session := { session with
      streams := session.streams.set record.direction fed.stream, keys := fed.keys, tracker := tracked.2 }
    messages := fed.messages, seen := fed.seen, evidence := tracked.1, integrityErrors := fed.integrityErrors, fed := bytes
    ended := false }

/-- The arm of `run` for a data record of a known connection. -/
def record (providers : Providers) (session : Session) (connection : Nat) (record : DataRecord) : Recorded :=
  match accepted record with
  | none => session.refuse connection record [] "invalid_data_bytes"
  | some bytes =>
    if session.rejected.get record.direction = false ∧ record.offset ≠ session.offsets.get record.direction then
      advance (session.refuse connection record bytes "offset_gap") record bytes
    else advance (session.feed providers connection record bytes) record bytes

/-- Both directions end, the upload first. -/
def finish (session : Session) (connection event : Nat) : Session × List Message :=
  let upload := session.streams.upload.finish ⟨connection, .upload, event, 0⟩
  let download := session.streams.download.finish ⟨connection, .download, event, 0⟩
  ({ session with streams := ⟨upload.1, download.1⟩ }, upload.2 ++ download.2)

end Session

/-- The records of a connection so far: its session, all messages, and the bytes fed to each direction. -/
structure Replay where
  session : Session
  messages : List Message
  seen : List KeySnapshot
  evidence : List KeySnapshot
  integrityErrors : Nat
  fed : Sides (List UInt8)
  ended : Bool

namespace Replay

def new : Replay := ⟨.new, [], [], [], 0, .both [], false⟩

/-- After the error `offset_limit` no record is read. -/
def record (providers : Providers) (connection : Nat) (replay : Replay) (record : DataRecord) : Replay :=
  if replay.ended then replay
  else
    let recorded := replay.session.record providers connection record
    { session := recorded.session, messages := replay.messages ++ recorded.messages, seen := replay.seen ++ recorded.seen
      evidence := replay.evidence ++ recorded.evidence, integrityErrors := replay.integrityErrors + recorded.integrityErrors
      fed := replay.fed.set record.direction (replay.fed.get record.direction ++ recorded.fed), ended := recorded.ended }

def run (providers : Providers) (connection : Nat) (replay : Replay) (records : List DataRecord) : Replay :=
  records.foldl (record providers connection) replay

def finished (replay : Replay) (connection event : Nat) : List Message :=
  replay.messages ++ (replay.session.finish connection event).2

end Replay

def ofDirection (messages : List Message) (direction : Direction) : List Message :=
  messages.filter fun message => message.emission.direction = direction

def raws (messages : List Message) : List UInt8 := messages.flatMap fun message => message.emission.raw

end Ferrum.Rocom
