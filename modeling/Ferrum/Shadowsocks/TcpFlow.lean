import Ferrum.Shadowsocks.TcpAccept

namespace Ferrum.Shadowsocks

open Checked Crypto

inductive ProtocolReason
  | authentication | frameBounds | nonceExhausted
  deriving DecidableEq, Repr

inductive TransportPhase
  | read | write | writeZero | flush | shutdown
  deriving DecidableEq, Repr

inductive FlowTerminal
  | normal
  | detection (reason : DetectionReason)
  | protocol (reason : ProtocolReason)
  | transport (phase : TransportPhase)
  deriving DecidableEq, Repr

inductive ShadowsocksError
  | detection (reason : DetectionReason)
  | protocol (reason : ProtocolReason)
  | transport (phase : TransportPhase)
  deriving DecidableEq, Repr

def protocolFromFrame : FrameError → ProtocolReason
  | .nonceExhausted => .nonceExhausted
  | .cipher => .authentication
  | .keyUnavailable | .bounds | .addressUnsupported | .paddingBounds | .emptyRequest | .emptyResponse | .responseSaltReuse =>
    .frameBounds

def frameFromOpenAead : AeadError → FrameError
  | .nonceExhausted => .nonceExhausted
  | .authenticationFailed | .operationFailed => .cipher

inductive Poll (α : Type)
  | pending
  | ready (result : Except ShadowsocksError α)

inductive WriteAnswer
  | pending
  | failed
  | ready (written : Nat)
  deriving DecidableEq, Repr

inductive CloseAnswer
  | pending
  | failed
  | done
  deriving DecidableEq, Repr

/-- A call on the transport with its answer: a read with the width of its destination, a write
with its source. -/
inductive TransportCall
  | read (width : Nat) (answer : ReadAnswer)
  | write (source : List UInt8) (answer : WriteAnswer)
  | flush (answer : CloseAnswer)
  | shutdown (answer : CloseAnswer)
  | markAbortive
  deriving DecidableEq, Repr

/-- The latch of a flow and its closed directions. -/
structure Lifecycle where
  terminal : Option FlowTerminal
  rxClosed : Bool
  txClosed : Bool
  deriving DecidableEq, Repr

namespace Lifecycle

def default : Lifecycle := ⟨none, false, false⟩

section

variable (lifecycle : Lifecycle)

def fatalError : Option ShadowsocksError :=
  match lifecycle.terminal with
  | some (.detection reason) => some (.detection reason)
  | some (.protocol reason) => some (.protocol reason)
  | some (.transport phase) => some (.transport phase)
  | some .normal | none => none

def maybeNormal : Lifecycle :=
  if lifecycle.rxClosed ∧ lifecycle.txClosed ∧ lifecycle.terminal = none then { lifecycle with terminal := some .normal }
  else lifecycle

def closeRx : Lifecycle :=
  if lifecycle.terminal.isSome then lifecycle else { lifecycle with rxClosed := true }.maybeNormal

def closeTx : Lifecycle :=
  if lifecycle.terminal.isSome then lifecycle else { lifecycle with txClosed := true }.maybeNormal

/-- Records a terminal unless there is one, and returns the error that is recorded. It panics if
this is no error. -/
def install (terminal : FlowTerminal) : Option (Lifecycle × ShadowsocksError) :=
  let lifecycle := if lifecycle.terminal = none then { lifecycle with terminal := some terminal } else lifecycle
  lifecycle.fatalError.map fun error => (lifecycle, error)

def installProtocol (reason : ProtocolReason) : Option (Lifecycle × ShadowsocksError) :=
  lifecycle.install (.protocol reason)

def installTransport (phase : TransportPhase) : Option (Lifecycle × ShadowsocksError) :=
  lifecycle.install (.transport phase)

def installDetection (reason : DetectionReason) : Option (Lifecycle × ShadowsocksError) :=
  lifecycle.install (.detection reason)

/-- What `install_detection` does to the transport: it marks it the first time. -/
def detectionCalls : List TransportCall :=
  if lifecycle.terminal = none then [.markAbortive] else []

end

end Lifecycle

/-- Where the receiving side of a data stream stands. -/
inductive DataRx
  | length (filled : Nat)
  | payload (wireLen filled : Nat)
  | ready (position : Nat)
  | closed
  | poison
  deriving DecidableEq, Repr

inductive ClientRx
  | responseFixed
  | responsePayload (wireLen filled : Nat)
  | data (state : DataRx)
  | poison
  deriving DecidableEq, Repr

inductive TxState
  | responsePending | sending | closed
  deriving DecidableEq, Repr

inductive StagedKind
  | first | subsequent
  deriving DecidableEq, Repr

structure StagedWrite where
  kind : StagedKind
  position : Nat
  deriving DecidableEq, Repr

def resetDecrypt : List UInt8 := List.replicate maxDecryptWireLen 0

/-- `resize`, with zeros behind what is there. -/
def resize (scratch : List UInt8) (length : Nat) : List UInt8 :=
  scratch.take length ++ List.replicate (length - scratch.length) 0

/-- `copy_ready`: the bytes that fit into the destination, and the position after them. -/
def copyReady (scratch : List UInt8) (position destinationLen : Nat) : Option (List UInt8 × Nat) :=
  let copied := min (scratch.length - position) destinationLen
  if position + copied ≤ scratch.length then some (slice scratch position (position + copied), position + copied) else none

def DataRx.afterCopy (scratch : List UInt8) (position : Nat) : DataRx :=
  if position = scratch.length then .length 0 else .ready position

/-- The wrapping sum of a place in a buffer and a count from outside. -/
def wrappingAdd (filled read : Nat) : Nat := (filled + read) % 2 ^ 64

def maxPollProgress : Nat := 256 * 1024
def maxPollReadyOperations : Nat := 64

structure PollBudget where
  progress : Nat
  readyOperations : Nat

namespace PollBudget

def default : PollBudget := ⟨0, 0⟩

def exhausted (budget : PollBudget) : Bool :=
  decide (maxPollProgress ≤ budget.progress ∨ maxPollReadyOperations ≤ budget.readyOperations)

def remainingProgress (budget : PollBudget) : Nat := maxPollProgress - budget.progress

def recordTransport (budget : PollBudget) (progress : Nat) : PollBudget :=
  ⟨budget.progress + progress, budget.readyOperations + 1⟩

end PollBudget

/-- What a poll leaves: the state, what it returns, and its calls on the transport. -/
structure Polled (σ α : Type) where
  state : σ
  poll : Poll α
  calls : List TransportCall

/-- What one turn of a loop comes to. -/
inductive Turn (σ α : Type)
  | finished (polled : Polled σ α)
  | again (state : σ) (budget : PollBudget)

/-- A loop over what the transport answers. It answers pending when its answers have run out. Here
and below `none` stands for a panic. -/
def turns {σ α ρ : Type} (turn : σ → PollBudget → ρ → Option (Turn σ α × List TransportCall)) (pending : ρ) :
    List ρ → PollBudget → σ → Option (Polled σ α)
  | [], budget, state =>
    match turn state budget pending with
    | some (.finished polled, calls) => some { polled with calls := calls ++ polled.calls }
    | some (.again state _, calls) => some ⟨state, .pending, calls⟩
    | none => none
  | answer :: rest, budget, state =>
    match turn state budget answer with
    | some (.finished polled, calls) => some { polled with calls := calls ++ polled.calls }
    | some (.again state budget, calls) =>
      (turns turn pending rest budget state).map fun polled => { polled with calls := calls ++ polled.calls }
    | none => none

/-- What a cipher operation gives, or the error that is installed for it. -/
def protocolCipherBoundary {α : Type} (lifecycle : Lifecycle) (operation : Checked FrameError α) :
    Option (Lifecycle × Except ShadowsocksError α) :=
  match lifecycle.fatalError with
  | some error => some (lifecycle, .error error)
  | none =>
    match operation with
    | .ok value => some (lifecycle, .ok value)
    | .error .panic => none
    | .error (.error error) =>
      (lifecycle.installProtocol (protocolFromFrame error)).map fun (lifecycle, error) => (lifecycle, .error error)

/-- What `poll_data_read` works on. -/
structure DataRead where
  opener : TcpOpener
  scratch : List UInt8
  state : DataRx
  lifecycle : Lifecycle

namespace DataRead

/-- The return with an error that was installed. -/
def poisoned (read : DataRead) (installed : Option (Lifecycle × ShadowsocksError)) : Option (Turn DataRead (List UInt8)) :=
  installed.map fun (lifecycle, error) =>
    .finished ⟨{ read with state := .poison, lifecycle := lifecycle }, .ready (.error error), []⟩

/-- The return with bytes from a position on. -/
def copied (read : DataRead) (position destinationLen : Nat) : Option (Polled DataRead (List UInt8)) :=
  (copyReady read.scratch position destinationLen).map fun (bytes, position) =>
    ⟨{ read with state := .afterCopy read.scratch position }, .ready (.ok bytes), []⟩

/-- `open_in_place` on the scratch. A failure leaves a scratch that nobody reads. -/
def opened (read : DataRead) : Option (DataRead × Except ShadowsocksError Unit) :=
  let opening := read.opener.openInPlace read.scratch
  match protocolCipherBoundary read.lifecycle ((ofExcept opening.result).mapError frameFromOpenAead) with
  | none => none
  | some (lifecycle, .error error) => some ({ read with lifecycle := lifecycle }, .error error)
  | some (lifecycle, .ok ()) => some (⟨opening.opener, opening.buffer, read.state, lifecycle⟩, .ok ())

/-- The whole length header is there. -/
def openLength (read : DataRead) (budget : PollBudget) : Option (Turn DataRead (List UInt8)) :=
  match { read with scratch := read.scratch.take encryptedLengthLen }.opened with
  | none => none
  | some (read, .error error) => some (.finished ⟨{ read with state := .poison }, .ready (.error error), []⟩)
  | some (read, .ok ()) =>
    match read.scratch with
    | [high, low] =>
      let wireLen := (U16.fromBeBytes high low).val + tagLen
      if maxDecryptWireLen < wireLen then read.poisoned (read.lifecycle.installProtocol .frameBounds)
      else some (.again { read with scratch := resize read.scratch wireLen, state := .payload wireLen 0 } budget)
    | _ => read.poisoned (read.lifecycle.installProtocol .frameBounds)

/-- The whole payload is there. An empty one is passed over. -/
def openPayload (read : DataRead) (wireLen destinationLen : Nat) (budget : PollBudget) :
    Option (Turn DataRead (List UInt8)) :=
  match { read with scratch := read.scratch.take wireLen }.opened with
  | none => none
  | some (read, .error error) => some (.finished ⟨{ read with state := .poison }, .ready (.error error), []⟩)
  | some (read, .ok ()) =>
    if read.scratch = [] then some (.again { read with state := .length 0 } budget)
    else (read.copied 0 destinationLen).map .finished

/-- The answer to a read of the length header. -/
def lengthAnswered (read : DataRead) (filled readEnd : Nat) (budget : PollBudget) :
    ReadAnswer → Option (Turn DataRead (List UInt8))
  | .pending => some (.finished ⟨{ read with state := .length filled }, .pending, []⟩)
  | .failed => read.poisoned (read.lifecycle.installTransport .read)
  | .ready count content =>
    if count = 0 then
      if filled = 0 then
        some (.finished ⟨{ read with state := .closed, lifecycle := read.lifecycle.closeRx }, .ready (.ok []), []⟩)
      else read.poisoned (read.lifecycle.installProtocol .frameBounds)
    else
      let read := { read with scratch := readInto read.scratch filled readEnd content }
      let filled := wrappingAdd filled count
      if encryptedLengthLen < filled then read.poisoned (read.lifecycle.installProtocol .frameBounds)
      else if filled < encryptedLengthLen then
        some (.again { read with state := .length filled } (budget.recordTransport count))
      else read.openLength (budget.recordTransport count)

/-- The answer to a read of the payload. -/
def payloadAnswered (read : DataRead) (wireLen destinationLen filled readEnd : Nat) (budget : PollBudget) :
    ReadAnswer → Option (Turn DataRead (List UInt8))
  | .pending => some (.finished ⟨{ read with state := .payload wireLen filled }, .pending, []⟩)
  | .failed => read.poisoned (read.lifecycle.installTransport .read)
  | .ready count content =>
    if count = 0 then read.poisoned (read.lifecycle.installProtocol .frameBounds)
    else
      let read := { read with scratch := readInto read.scratch filled readEnd content }
      let filled := wrappingAdd filled count
      if wireLen < filled then read.poisoned (read.lifecycle.installProtocol .frameBounds)
      else if filled < wireLen then
        some (.again { read with state := .payload wireLen filled } (budget.recordTransport count))
      else read.openPayload wireLen destinationLen (budget.recordTransport count)

/-- The turn of a state that wants bytes: it asks for the range from `filled` to `readEnd`. -/
def asks (read : DataRead) (filled readEnd : Nat) (answered : DataRead → ReadAnswer → Option (Turn DataRead (List UInt8)))
    (answer : ReadAnswer) : Option (Turn DataRead (List UInt8) × List TransportCall) :=
  if filled ≤ readEnd ∧ readEnd ≤ read.scratch.length then
    (answered read answer).map fun turn => (turn, [.read (readEnd - filled) answer])
  else none

/-- One turn of the loop. -/
def turn (read : DataRead) (destinationLen : Nat) (budget : PollBudget) (answer : ReadAnswer) :
    Option (Turn DataRead (List UInt8) × List TransportCall) :=
  if budget.exhausted then some (.finished ⟨read, .pending, []⟩, [])
  else
    match read.state with
    | .length filled =>
      let scratch := if filled = 0 then resize read.scratch encryptedLengthLen else read.scratch
      let readEnd := min (filled + budget.remainingProgress) encryptedLengthLen
      { read with scratch := scratch }.asks filled readEnd (·.lengthAnswered filled readEnd budget) answer
    | .payload wireLen filled =>
      let readEnd := min (filled + budget.remainingProgress) wireLen
      read.asks filled readEnd (·.payloadAnswered wireLen destinationLen filled readEnd budget) answer
    | .ready position => (read.copied position destinationLen).map fun polled => (.finished polled, [])
    | .closed => some (.finished ⟨read, .ready (.ok []), []⟩, [])
    | .poison => read.lifecycle.fatalError.map fun error => (.finished ⟨read, .ready (.error error), []⟩, [])

end DataRead

/-- The loop of `poll_data_read` over what the transport answers. -/
def pollDataRead (destinationLen : Nat) (answers : List ReadAnswer) (budget : PollBudget) (read : DataRead) :
    Option (Polled DataRead (List UInt8)) := turns (·.turn destinationLen) .pending answers budget read

structure Sending where
  tx : TxState
  encrypt : List UInt8
  staged : Option StagedWrite
  lifecycle : Lifecycle

namespace Sending

/-- The return with an error that was installed. -/
def failed {α : Type} (sending : Sending) (installed : Option (Lifecycle × ShadowsocksError)) : Option (Polled Sending α) :=
  installed.map fun (lifecycle, error) => ⟨{ sending with lifecycle := lifecycle }, .ready (.error error), []⟩

/-- The return with a detection, which marks the transport. -/
def detected {α : Type} (sending : Sending) (reason : DetectionReason) : Option (Polled Sending α) :=
  (sending.lifecycle.installDetection reason).map fun (lifecycle, error) =>
    ⟨{ sending with lifecycle := lifecycle }, .ready (.error error), sending.lifecycle.detectionCalls⟩

def drained (sending : Sending) : Sending := { sending with encrypt := [], staged := none }

/-- The answer to a write of staged bytes. -/
def writeAnswered (sending : Sending) (current : StagedWrite) (source : List UInt8) (budget : PollBudget) :
    WriteAnswer → Option (Turn Sending Unit)
  | .pending => some (.finished ⟨sending, .pending, []⟩)
  | .failed =>
    if current.kind = .first then (sending.detected .writeFailed).map .finished
    else (sending.failed (sending.lifecycle.installTransport .write)).map .finished
  | .ready written =>
    if current.kind = .first then
      if written ≠ source.length then (sending.detected .shortWrite).map .finished
      else some (.finished ⟨sending.drained, .ready (.ok ()), []⟩)
    else if written = 0 then (sending.failed (sending.lifecycle.installTransport .writeZero)).map .finished
    else if source.length < written then (sending.failed (sending.lifecycle.installTransport .write)).map .finished
    else
      let position := current.position + written
      let budget := budget.recordTransport written
      if sending.encrypt.length < position then (sending.failed (sending.lifecycle.installTransport .write)).map .finished
      else if position = sending.encrypt.length then
        if budget.exhausted then some (.finished ⟨sending.drained, .pending, []⟩)
        else some (.finished ⟨sending.drained, .ready (.ok ()), []⟩)
      else some (.again { sending with staged := some { current with position := position } } budget)

/-- One turn of the loop. -/
def turn (sending : Sending) (budget : PollBudget) (answer : WriteAnswer) : Option (Turn Sending Unit × List TransportCall) :=
  if budget.exhausted then some (.finished ⟨sending, .pending, []⟩, [])
  else
    match sending.staged with
    | none => none
    | some current =>
      let writeEnd := min (current.position + budget.remainingProgress) sending.encrypt.length
      if current.position ≤ writeEnd then
        let source := slice sending.encrypt current.position writeEnd
        (sending.writeAnswered current source budget answer).map fun turn => (turn, [.write source answer])
      else none

end Sending

/-- The loop of `drain_staged`. -/
def drainStaged (answers : List WriteAnswer) (budget : PollBudget) (sending : Sending) : Option (Polled Sending Unit) :=
  turns Sending.turn .pending answers budget sending

/-- The drain before an operation: the operation goes on once nothing is staged. -/
def drainThen {σ α : Type} (sending : Sending) (answers : List WriteAnswer) (after : Sending → σ)
    (operation : Sending → Option (Polled σ α)) : Option (Polled σ α) :=
  if sending.staged.isSome then
    match drainStaged answers .default sending with
    | none => none
    | some ⟨sending, .pending, calls⟩ => some ⟨after sending, .pending, calls⟩
    | some ⟨sending, .ready (.error error), calls⟩ => some ⟨after sending, .ready (.error error), calls⟩
    | some ⟨sending, .ready (.ok ()), calls⟩ =>
      (operation sending).map fun polled => { polled with calls := calls ++ polled.calls }
  else operation sending

/-- The sealing of admitted bytes, which are then staged. A failure leaves a sealer that nobody
uses. -/
def stageChunk (sealer : TcpSealer) (sending : Sending) (tx : TxState) (admitted : List UInt8)
    (lengthPrimitive payloadPrimitive : Primitive) : Option (Polled (TcpSealer × Sending) Nat) :=
  match protocolCipherBoundary sending.lifecycle (sealDataChunkInto sealer admitted lengthPrimitive payloadPrimitive) with
  | none => none
  | some (lifecycle, .error error) => some ⟨(sealer, { sending with lifecycle := lifecycle }), .ready (.error error), []⟩
  | some (lifecycle, .ok (sealer, wire)) =>
    some ⟨(sealer, ⟨tx, wire, some ⟨.subsequent, 0⟩, lifecycle⟩), .ready (.ok admitted.length), []⟩

def pollWriteOpen (sealer : TcpSealer) (sending : Sending) (source : List UInt8) (answers : List WriteAnswer)
    (lengthPrimitive payloadPrimitive : Primitive) : Option (Polled (TcpSealer × Sending) Nat) :=
  match sending.lifecycle.fatalError with
  | some error => some ⟨(sealer, sending), .ready (.error error), []⟩
  | none =>
    if source = [] then some ⟨(sealer, sending), .ready (.ok 0), []⟩
    else if sending.lifecycle.terminal = some .normal then some ⟨(sealer, sending), .ready (.ok 0), []⟩
    else if sending.lifecycle.txClosed then
      (sending.failed (sending.lifecycle.installTransport .write)).map fun polled =>
        ⟨(sealer, polled.state), polled.poll, polled.calls⟩
    else
      drainThen sending answers (sealer, ·) fun sending =>
        stageChunk sealer sending .sending (source.take maxEncodePayloadLen) lengthPrimitive payloadPrimitive

def pollFlush (sending : Sending) (answers : List WriteAnswer) (close : CloseAnswer) : Option (Polled Sending Unit) :=
  match sending.lifecycle.fatalError with
  | some error => some ⟨sending, .ready (.error error), []⟩
  | none =>
    if sending.lifecycle.terminal = some .normal ∨ sending.lifecycle.txClosed then some ⟨sending, .ready (.ok ()), []⟩
    else
      drainThen sending answers id fun sending =>
        if sending.tx = .responsePending then some ⟨sending, .ready (.ok ()), []⟩
        else
          match close with
          | .pending => some ⟨sending, .pending, [.flush close]⟩
          | .done => some ⟨sending, .ready (.ok ()), [.flush close]⟩
          | .failed =>
            (sending.failed (sending.lifecycle.installTransport .flush)).map fun polled =>
              { polled with calls := .flush close :: polled.calls }

def pollShutdown (sending : Sending) (answers : List WriteAnswer) (close : CloseAnswer) : Option (Polled Sending Unit) :=
  match sending.lifecycle.fatalError with
  | some error => some ⟨sending, .ready (.error error), []⟩
  | none =>
    if sending.lifecycle.terminal = some .normal ∨ sending.lifecycle.txClosed then some ⟨sending, .ready (.ok ()), []⟩
    else
      drainThen sending answers id fun sending =>
        match close with
        | .pending => some ⟨sending, .pending, [.shutdown close]⟩
        | .done =>
          some ⟨{ sending with tx := .closed, lifecycle := sending.lifecycle.closeTx }, .ready (.ok ()), [.shutdown close]⟩
        | .failed =>
          (sending.failed (sending.lifecycle.installTransport .shutdown)).map fun polled =>
            { polled with calls := .shutdown close :: polled.calls }

structure ClientFlow extends Sending where
  keys : TcpKeyProvider
  requestSalt : MethodTcpSalt
  requestSealer : TcpSealer
  responseOpener : Option TcpOpener
  rx : ClientRx
  decrypt : List UInt8

namespace ClientFlow

def fromHandshake (keys : TcpKeyProvider) (requestSalt : MethodTcpSalt) (requestSealer : TcpSealer)
    (encrypt decrypt : List UInt8) : ClientFlow :=
  { tx := .sending, encrypt := encrypt, staged := none, lifecycle := .default, keys := keys, requestSalt := requestSalt,
    requestSealer := requestSealer, responseOpener := none, rx := .responseFixed, decrypt := decrypt }

/-- The return with a detection, which marks the transport. -/
def detected (flow : ClientFlow) (reason : DetectionReason) : Option (Polled ClientFlow (List UInt8)) :=
  (flow.lifecycle.installDetection reason).map fun (lifecycle, error) =>
    ⟨{ flow with lifecycle := lifecycle }, .ready (.error error), flow.lifecycle.detectionCalls⟩

/-- The answer to the first read of a response. -/
def responseFixedAnswered (flow : ClientFlow) (clock : Option U64) :
    ReadAnswer → Option (Polled ClientFlow (List UInt8))
  | .pending => some ⟨{ flow with rx := .responseFixed }, .pending, []⟩
  | .failed => flow.detected .readFailed
  | .ready count content =>
    if count ≠ flow.requestSalt.profile.initialResponseReadBytes then flow.detected .shortRead
    else
      let decrypt := readInto flow.decrypt 0 flow.requestSalt.profile.initialResponseReadBytes content
      match openResponseFixed flow.keys clock flow.requestSalt decrypt with
      | .error .panic => none
      | .error (.error reason) => flow.detected reason
      | .ok (wireLen, opener) =>
        some ⟨{ flow with responseOpener := some opener, decrypt := resetDecrypt, rx := .responsePayload wireLen 0 },
          .pending, []⟩

/-- The whole first payload is there. -/
def openResponsePayload (flow : ClientFlow) (wireLen destinationLen : Nat) : Option (Polled ClientFlow (List UInt8)) :=
  match flow.responseOpener with
  | none => none
  | some opener =>
    let opening := opener.openInPlace (flow.decrypt.take wireLen)
    match opening.result with
    | .error error => flow.detected (detectionFromAead error)
    | .ok () =>
      (copyReady opening.buffer 0 destinationLen).map fun (bytes, position) =>
        if position = opening.buffer.length then
          ⟨{ flow with responseOpener := some opening.opener, decrypt := resetDecrypt, rx := .data (.length 0) },
            .ready (.ok bytes), []⟩
        else
          ⟨{ flow with responseOpener := some opening.opener, decrypt := opening.buffer, rx := .data (.ready position) },
            .ready (.ok bytes), []⟩

/-- The answer to a read of the first payload. -/
def responsePayloadAnswered (flow : ClientFlow) (wireLen filled destinationLen : Nat) :
    ReadAnswer → Option (Polled ClientFlow (List UInt8))
  | .pending => some ⟨{ flow with rx := .responsePayload wireLen filled }, .pending, []⟩
  | .failed => flow.detected .readFailed
  | .ready count content =>
    if count = 0 then flow.detected .shortRead
    else
      let flow := { flow with decrypt := readInto flow.decrypt filled wireLen content }
      let filled := wrappingAdd filled count
      if wireLen < filled then flow.detected .frameBounds
      else if filled < wireLen then some ⟨{ flow with rx := .responsePayload wireLen filled }, .pending, []⟩
      else flow.openResponsePayload wireLen destinationLen

/-- A read that asks for the range from `filled` to `readEnd` of the scratch. -/
def asks (flow : ClientFlow) (filled readEnd : Nat) (answered : ReadAnswer → Option (Polled ClientFlow (List UInt8)))
    (answer : ReadAnswer) : Option (Polled ClientFlow (List UInt8)) :=
  if filled ≤ readEnd ∧ readEnd ≤ flow.decrypt.length then
    (answered answer).map fun polled => { polled with calls := .read (readEnd - filled) answer :: polled.calls }
  else none

/-- The read of the data that follow the response. -/
def readData (flow : ClientFlow) (state : DataRx) (destinationLen : Nat) (answers : List ReadAnswer) :
    Option (Polled ClientFlow (List UInt8)) :=
  match flow.responseOpener with
  | none => none
  | some opener =>
    (pollDataRead destinationLen answers .default ⟨opener, flow.decrypt, state, flow.lifecycle⟩).map fun polled =>
      ⟨{ flow with
          responseOpener := some polled.state.opener, decrypt := polled.state.scratch, rx := .data polled.state.state,
          lifecycle := polled.state.lifecycle }, polled.poll, polled.calls⟩

/-- `poll_read` takes the receive state away and leaves `poison` in its place. -/
def pollRead (flow : ClientFlow) (clock : Option U64) (destinationLen : Nat) (answers : List ReadAnswer) :
    Option (Polled ClientFlow (List UInt8)) :=
  match flow.lifecycle.fatalError with
  | some error => some ⟨flow, .ready (.error error), []⟩
  | none =>
    if destinationLen = 0 then some ⟨flow, .ready (.ok []), []⟩
    else if flow.lifecycle.terminal = some .normal ∨ flow.lifecycle.rxClosed then some ⟨flow, .ready (.ok []), []⟩
    else
      let taken := { flow with rx := .poison }
      match flow.rx with
      | .responseFixed =>
        let taken := { taken with decrypt := resetDecrypt }
        taken.asks 0 flow.requestSalt.profile.initialResponseReadBytes (taken.responseFixedAnswered clock)
          (answers.headD .pending)
      | .responsePayload wireLen filled =>
        taken.asks filled wireLen (taken.responsePayloadAnswered wireLen filled destinationLen) (answers.headD .pending)
      | .data state => taken.readData state destinationLen answers
      | .poison => none

/-- `poll_write`. -/
def pollWrite (flow : ClientFlow) (source : List UInt8) (answers : List WriteAnswer)
    (lengthPrimitive payloadPrimitive : Primitive) : Option (Polled ClientFlow Nat) :=
  (pollWriteOpen flow.requestSealer flow.toSending source answers lengthPrimitive payloadPrimitive).map fun polled =>
    ⟨{ flow with requestSealer := polled.state.1, toSending := polled.state.2 }, polled.poll, polled.calls⟩

end ClientFlow

structure ServerFlow extends Sending where
  keys : TcpKeyProvider
  requestSalt : MethodTcpSalt
  requestOpener : TcpOpener
  responseSealer : Option TcpSealer
  rx : DataRx
  decrypt : List UInt8

/-- What a write takes from outside: the draws of the random source, the clock, and what the
primitives do to the first and to the second frame. -/
structure WriteEnvironment where
  draws : Nat → SecureRandom
  clock : Option U64
  firstPrimitive : Primitive
  secondPrimitive : Primitive

namespace ServerFlow

def fromHandshake (keys : TcpKeyProvider) (requestSalt : MethodTcpSalt) (requestOpener : TcpOpener)
    (encrypt decrypt : List UInt8) : ServerFlow :=
  { tx := .responsePending, encrypt := encrypt, staged := none, lifecycle := .default, keys := keys,
    requestSalt := requestSalt, requestOpener := requestOpener, responseSealer := none, rx := .length 0, decrypt := decrypt }

/-- `poll_read` takes the receive state away and puts back the one that the loop comes to. -/
def pollRead (flow : ServerFlow) (destinationLen : Nat) (answers : List ReadAnswer) :
    Option (Polled ServerFlow (List UInt8)) :=
  match flow.lifecycle.fatalError with
  | some error => some ⟨flow, .ready (.error error), []⟩
  | none =>
    if destinationLen = 0 then some ⟨flow, .ready (.ok []), []⟩
    else if flow.lifecycle.terminal = some .normal ∨ flow.lifecycle.rxClosed then some ⟨flow, .ready (.ok []), []⟩
    else
      (pollDataRead destinationLen answers .default ⟨flow.requestOpener, flow.decrypt, flow.rx, flow.lifecycle⟩).map
        fun polled =>
          ⟨{ flow with
              requestOpener := polled.state.opener, decrypt := polled.state.scratch, rx := polled.state.state,
              lifecycle := polled.state.lifecycle }, polled.poll, polled.calls⟩

/-- The flow with what an operation of the sending side left. -/
def sent {α : Type} (flow : ServerFlow) (polled : Polled Sending α) : Polled ServerFlow α :=
  ⟨{ flow with toSending := polled.state }, polled.poll, polled.calls⟩

/-- The first write: the response with its salt is staged whole. -/
def stageResponse (flow : ServerFlow) (admitted : List UInt8) (environment : WriteEnvironment) : Option (Polled ServerFlow Nat) :=
  match generateMethodResponseSalt environment.draws flow.requestSalt with
  | .error _ => (flow.toSending.detected .randomUnavailable).map flow.sent
  | .ok responseSalt =>
    match environment.clock with
    | none => (flow.toSending.detected .clockUnavailable).map flow.sent
    | some timestamp =>
      match encodeResponseStateInto flow.keys responseSalt timestamp flow.requestSalt admitted environment.firstPrimitive
        environment.secondPrimitive with
      | .error .panic => none
      | .error (.error error) => (flow.toSending.detected (detectionFromFrame error)).map flow.sent
      | .ok (sealer, wire) =>
        some ⟨{ flow with responseSealer := some sealer, tx := .sending, encrypt := wire, staged := some ⟨.first, 0⟩ },
          .ready (.ok admitted.length), []⟩

/-- A write once nothing is staged. -/
def stageWrite (flow : ServerFlow) (admitted : List UInt8) (environment : WriteEnvironment) : Option (Polled ServerFlow Nat) :=
  if flow.tx = .responsePending then flow.stageResponse admitted environment
  else
    match flow.responseSealer with
    | none => none
    | some sealer =>
      (stageChunk sealer flow.toSending flow.tx admitted environment.firstPrimitive environment.secondPrimitive).map
        fun polled =>
          ⟨{ flow with responseSealer := some polled.state.1, toSending := polled.state.2 }, polled.poll, polled.calls⟩

def pollWrite (flow : ServerFlow) (source : List UInt8) (answers : List WriteAnswer) (environment : WriteEnvironment) :
    Option (Polled ServerFlow Nat) :=
  match flow.lifecycle.fatalError with
  | some error => some ⟨flow, .ready (.error error), []⟩
  | none =>
    if source = [] then some ⟨flow, .ready (.ok 0), []⟩
    else if flow.lifecycle.terminal = some .normal then some ⟨flow, .ready (.ok 0), []⟩
    else if flow.lifecycle.txClosed then (flow.failed (flow.lifecycle.installTransport .write)).map flow.sent
    else
      drainThen flow.toSending answers (fun sending => { flow with toSending := sending }) fun sending =>
        stageWrite { flow with toSending := sending } (source.take maxEncodePayloadLen) environment

end ServerFlow

inductive Flow
  | client (flow : ClientFlow)
  | server (flow : ServerFlow)

/-- A call on a flow, with what the transport and the environment answer. -/
inductive FlowCall
  | read (clock : Option U64) (destinationLen : Nat) (answers : List ReadAnswer)
  | write (source : List UInt8) (answers : List WriteAnswer) (environment : WriteEnvironment)
  | flush (answers : List WriteAnswer) (close : CloseAnswer)
  | shutdown (answers : List WriteAnswer) (close : CloseAnswer)

inductive FlowResult
  | read (poll : Poll (List UInt8))
  | write (poll : Poll Nat)
  | flush (poll : Poll Unit)
  | shutdown (poll : Poll Unit)

/-- What a call on a flow leaves behind: its result and its calls on the transport. -/
structure FlowOutcome where
  result : FlowResult
  calls : List TransportCall

namespace Flow

def sending : Flow → Sending
  | client flow => flow.toSending
  | server flow => flow.toSending

def lifecycle (flow : Flow) : Lifecycle := flow.sending.lifecycle

def withSending : Flow → Sending → Flow
  | client flow, sending => .client { flow with toSending := sending }
  | server flow, sending => .server { flow with toSending := sending }

def pollRead (flow : Flow) (clock : Option U64) (destinationLen : Nat) (answers : List ReadAnswer) :
    Option (Polled Flow (List UInt8)) :=
  match flow with
  | client flow => (flow.pollRead clock destinationLen answers).map fun polled => { polled with state := .client polled.state }
  | server flow => (flow.pollRead destinationLen answers).map fun polled => { polled with state := .server polled.state }

def pollWrite (flow : Flow) (source : List UInt8) (answers : List WriteAnswer) (environment : WriteEnvironment) :
    Option (Polled Flow Nat) :=
  match flow with
  | client flow =>
    (flow.pollWrite source answers environment.firstPrimitive environment.secondPrimitive).map fun polled =>
      { polled with state := .client polled.state }
  | server flow => (flow.pollWrite source answers environment).map fun polled => { polled with state := .server polled.state }

/-- One call. -/
def call (flow : Flow) : FlowCall → Option (Flow × FlowOutcome)
  | .read clock destinationLen answers =>
    (flow.pollRead clock destinationLen answers).map fun polled => (polled.state, ⟨.read polled.poll, polled.calls⟩)
  | .write source answers environment =>
    (flow.pollWrite source answers environment).map fun polled => (polled.state, ⟨.write polled.poll, polled.calls⟩)
  | .flush answers close =>
    (pollFlush flow.sending answers close).map fun polled =>
      (flow.withSending polled.state, ⟨.flush polled.poll, polled.calls⟩)
  | .shutdown answers close =>
    (pollShutdown flow.sending answers close).map fun polled =>
      (flow.withSending polled.state, ⟨.shutdown polled.poll, polled.calls⟩)

/-- A run of calls, with the outcome of each. -/
def run (flow : Flow) : List FlowCall → Option (Flow × List FlowOutcome)
  | [] => some (flow, [])
  | call :: rest =>
    match flow.call call with
    | none => none
    | some (next, outcome) => (next.run rest).map fun (final, outcomes) => (final, outcome :: outcomes)

end Flow

end Ferrum.Shadowsocks
