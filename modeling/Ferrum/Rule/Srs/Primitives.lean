import Ferrum.Rule.Srs.Context

namespace Ferrum.Rule.Srs

def mapSourceIo : IoError → SrsError
  | .byteLimit kind => .ofLimit kind
  | .unexpectedEof => .new .truncated
  | _ => .new .io

def mapPayloadIo : IoError → SrsError
  | .byteLimit kind => .ofLimit kind
  | .unexpectedEof => .new .truncated
  | .invalidData => .new .compression
  | .other => .new .io

/-- A byte slice as a reader. -/
instance : Read (List UInt8) where
  readExact count bytes :=
    if enough : count ≤ bytes.length then
      (.ok ⟨(bytes.take count).toArray, by simpa using enough⟩, bytes.drop count)
    else (.error .unexpectedEof, [])

variable {R : Type} [Read R]

/-- The reader fills the buffer. -/
def fillExact (count : Nat) : Decode R (Vector UInt8 count) := fun context =>
  match Read.readExact count context.reader with
  | (.ok bytes, reader) => (.ok bytes, context.withReader reader)
  | (.error error, reader) => (Checked.fail (mapPayloadIo error), context.withReader reader)

def readExact (count : Nat) : Decode R (Vector UInt8 count) := do
  requirePayload count
  work count
  let bytes ← fillExact count
  charge .decodedBytes count
  return bytes

def readByte : Decode R UInt8 := do
  let bytes ← readExact 1
  return bytes[0]

def readBeU64 : Decode R Nat := do
  let bytes ← readExact 8
  return beNat bytes.toList

/-- The turns of the loop that are left, and the bits so far. -/
def uvarintTurns : Nat → Nat → Nat → Decode R Nat
  | 0, _, _ => Stateful.fail (.new .integerOverflow)
  | left + 1, index, value => do
    let byte ← readByte
    Stateful.failIf (index = 9 ∧ 1 < byte) (.new .integerOverflow)
    let value := value ||| ((byte &&& 0x7f).toNat <<< (index * 7)) % 2 ^ 64
    if byte < 0x80 then do
      Stateful.failIf (index ≠ 0 ∧ byte = 0) (.new .nonCanonicalVarint)
      return value
    else uvarintTurns left (index + 1) value

def readUvarint : Decode R Nat := uvarintTurns 10 0 0

end Ferrum.Rule.Srs
