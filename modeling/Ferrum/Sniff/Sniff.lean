import Ferrum.Lib.Bytes

namespace Ferrum.Sniff

inductive Protocol
  | dns | tls | http
  deriving DecidableEq, Repr

inductive Transport
  | tcp | udp
  deriving DecidableEq, Repr

inductive Metadata
  | dns (domain : String)
  | tls (domain : Option String)
  | http (domain : Option String)
  deriving DecidableEq, Repr

inductive Progress
  | matched (metadata : Metadata)
  | needMore | noMatch | invalid
  deriving DecidableEq, Repr

inductive MessageType
  | query | response
  deriving DecidableEq, Repr

/-- The operation codes; every one but a query is treated alike. -/
inductive OpCode
  | query | other (code : UInt8)
  deriving DecidableEq, Repr

inductive DnsClass
  | in_ | other (code : U16)
  deriving DecidableEq, Repr

structure DnsHeader where
  messageType : MessageType
  opCode : OpCode
  queries : U16
  answers : U16
  authorities : U16
  additionals : U16

structure DnsQuery where
  name : String
  queryClass : DnsClass

structure DnsMessage where
  messageType : MessageType
  opCode : OpCode
  queries : List DnsQuery

/-- What the TLS acceptor says about the records that it has read. -/
inductive Accepted (State : Type)
  | hello (serverName : Option String)
  | pending (state : State)
  | failed

/-- The end of parsing a request; the domain is the one of the authority or of the only host header. -/
inductive HttpRequest
  | complete (domain : Option String)
  | incomplete | failed

/-- The parsers of the three protocols. A header is read with the index behind it, a message with
whether it ends the input, and a TLS read takes at most what there is. -/
structure Parsers where
  readHeader : List UInt8 → Option (DnsHeader × Nat)
  readMessage : List UInt8 → Option (DnsMessage × Bool)
  State : Type
  acceptor : State
  readTls : State → (input : List UInt8) → Option (Fin (input.length + 1) × State)
  accept : State → Accepted State
  parseRequest : List UInt8 → HttpRequest

/-- `usize::saturating_add`. -/
def saturatingAdd (a b : Nat) : Nat := min (a + b) (2 ^ 64 - 1)

/-- `checked_mul` and `checked_add` of one section, for the sizes that counts of 16 bits lead to. -/
def sectionSize (minimum : Nat) (part : U16 × Nat) : Option Nat :=
  if minimum + part.1.val * part.2 < 2 ^ 64 then some (minimum + part.1.val * part.2) else none

def boundedPartial (length maxBytes : Nat) : Progress := if length < maxBytes then .needMore else .invalid

def dnsIncomplete (length maxBytes : Nat) (destinationPort : U16) : Progress :=
  if destinationPort ≠ 53 then .noMatch
  else if length < maxBytes then .needMore
  else .invalid

def declaredLength (bytes : List UInt8) : Option Nat := if 2 ≤ bytes.length then some (be16 bytes 0) else none

/-- `bytes.get(start..stop)`. -/
def getRange (bytes : List UInt8) (start stop : Nat) : Option (List UInt8) :=
  if start ≤ stop ∧ stop ≤ bytes.length then some (slice bytes start stop) else none

namespace Parsers

variable (parsers : Parsers)

def decodeDns (bytes : List UInt8) : Option DnsMessage := do
  let (header, index) ← parsers.readHeader bytes
  let minimumSize := [(header.queries, 5), (header.answers, 11), (header.authorities, 11), (header.additionals, 11)].foldlM
    sectionSize index
  if header.messageType ≠ .query ∨ header.opCode ≠ .query ∨ header.queries ≠ 1 ∨
      minimumSize.all (bytes.length < ·) = true then none
  else
    let (message, ended) ← parsers.readMessage bytes
    if ended then some message else none

/-- The checks of a decoded message. -/
def classifyDns (message : Option DnsMessage) : Progress :=
  match message with
  | none => .invalid
  | some message =>
    match message.queries with
    | [query] =>
      if message.messageType ≠ .query ∨ message.opCode ≠ .query ∨ query.queryClass ≠ .in_ then .invalid
      else .matched (.dns query.name)
    | _ => .invalid

section

variable (bytes : List UInt8)

def sniffDns (maxBytes : Nat) (transport : Transport) (destinationPort : U16) : Progress :=
  match transport with
  | .udp => classifyDns (parsers.decodeDns bytes)
  | .tcp =>
    match declaredLength bytes with
    | none => dnsIncomplete bytes.length maxBytes destinationPort
    | some length =>
      if length = 0 ∨ maxBytes - 2 < length then .invalid
      else
        match getRange bytes 2 (length + 2) with
        | none => dnsIncomplete bytes.length maxBytes destinationPort
        | some frame => classifyDns (parsers.decodeDns frame)

def plausibleTlsPrefix : Bool :=
  bytes[0]?.all fun first => first == 0x16 && bytes[1]?.all (· == 0x03)

/-- Reads records until one of them decides; `undecided` when there is nothing left to read. -/
def acceptLoop (undecided : Progress) (state : parsers.State) (input : List UInt8) : Progress :=
  match parsers.readTls state input with
  | none => .invalid
  | some (read, state) =>
    match parsers.accept state with
    | .hello serverName => .matched (.tls serverName)
    | .failed => .invalid
    | .pending state => if read.val = 0 then undecided else acceptLoop undecided state (input.drop read.val)
termination_by input.length
decreasing_by
  have bound := read.isLt
  rw [List.length_drop]
  omega

def sniffTls (maxBytes : Nat) (transport : Transport) : Progress :=
  if transport ≠ .tcp ∨ plausibleTlsPrefix bytes = false then .noMatch
  else parsers.acceptLoop (boundedPartial bytes.length maxBytes) parsers.acceptor bytes

def plausibleHttpError : Bool := bytes[0]?.all fun first => 65 ≤ first && first ≤ 90

def sniffHttp (maxBytes : Nat) (transport : Transport) : Progress :=
  if transport ≠ .tcp then .noMatch
  else
    match parsers.parseRequest bytes with
    | .complete domain => .matched (.http domain)
    | .incomplete => boundedPartial bytes.length maxBytes
    | .failed => if plausibleHttpError bytes then .invalid else .noMatch

end

def inspect (bytes : List UInt8) (maxBytes : Nat) (transport : Transport) (destinationPort : U16) : Protocol → Progress
  | .dns => parsers.sniffDns bytes maxBytes transport destinationPort
  | .tls => parsers.sniffTls bytes maxBytes transport
  | .http => parsers.sniffHttp bytes maxBytes transport

/-- The loop over the protocols, with whether one of them was invalid. -/
def sniffLoop (inspect : Protocol → Progress) : List Protocol → Bool → Progress
  | [], invalid => if invalid then .invalid else .noMatch
  | protocol :: rest, invalid =>
    match inspect protocol with
    | .matched metadata => .matched metadata
    | .needMore => .needMore
    | .invalid => sniffLoop inspect rest true
    | .noMatch => sniffLoop inspect rest invalid

def sniff (bytes : List UInt8) (maxBytes : Nat) (transport : Transport) (destinationPort : U16) (order : List Protocol) :
    Progress :=
  if maxBytes < bytes.length then .invalid
  else sniffLoop (parsers.inspect bytes maxBytes transport destinationPort) order false

def sniffTcpPrefix (bytes : List UInt8) (maxBytes : Nat) (destinationPort : U16) (order : List Protocol) : Progress :=
  if maxBytes < bytes.length then .invalid
  else
    let progress := parsers.sniff bytes (saturatingAdd maxBytes 1) .tcp destinationPort order
    if progress = .noMatch ∧ .dns ∈ order ∧ (declaredLength bytes).any (maxBytes - 2 < ·) = true then .invalid
    else progress

end Parsers

end Ferrum.Sniff
