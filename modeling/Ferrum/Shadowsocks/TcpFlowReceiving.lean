import Ferrum.Shadowsocks.TcpFlowSending

namespace Ferrum.Shadowsocks

open Option List Checked Crypto

/-- A state that wants bytes: of the length header, or of a payload of some width. -/
def DataRx.filling : Option Nat → Nat → DataRx
  | none, filled => .length filled
  | some wireLen, filled => .payload wireLen filled

def DataRx.wanted : Option Nat → Nat
  | none => encryptedLengthLen
  | some wireLen => wireLen

/-- What a state says about the scratch. The poisoned state is never sound. -/
def DataRx.Sound (scratch : List UInt8) : DataRx → Prop
  | .length filled => filled = 0 ∨ scratch.length = encryptedLengthLen ∧ filled < encryptedLengthLen
  | .payload wireLen filled => scratch.length = wireLen ∧ filled < wireLen
  | .ready position => position ≤ scratch.length
  | .closed => True
  | .poison => False

variable {scratch : List UInt8}

theorem DataRx.sound_filling {part : Option Nat} {filled : Nat}
    (length : scratch.length = DataRx.wanted part) (inside : filled < DataRx.wanted part) :
    (DataRx.filling part filled).Sound scratch := by
  cases part with
  | none => exact .inr ⟨length, inside⟩
  | some wireLen => exact ⟨length, inside⟩

theorem length_resize (scratch : List UInt8) (length : Nat) : (resize scratch length).length = length := by
  unfold resize
  rw [length_append, length_take, length_replicate]
  omega

variable {position : Nat}

theorem copyReady_of_le (inside : position ≤ scratch.length) (destinationLen : Nat) :
    copyReady scratch position destinationLen =
      some ((scratch.drop position).take destinationLen, position + min (scratch.length - position) destinationLen) := by
  unfold copyReady
  simp only
  rw [if_pos (by omega)]
  have range : slice scratch position (position + min (scratch.length - position) destinationLen) =
      (scratch.drop position).take destinationLen := by
    unfold slice
    rw [drop_take, Nat.add_sub_cancel_left, ← length_drop, Nat.min_comm, ← take_take, take_length]
  rw [range]

theorem copyReady_eq_some {bytes : List UInt8} {start destinationLen : Nat} (inside : start ≤ scratch.length)
    (copied : copyReady scratch start destinationLen = some (bytes, position)) :
    bytes = (scratch.drop start).take destinationLen ∧ position ≤ scratch.length ∧
      (scratch.drop start) = bytes ++ scratch.drop position := by
  rw [copyReady_of_le inside] at copied
  cases copied
  refine ⟨rfl, by omega, ?_⟩
  rw [← drop_drop, ← length_drop, Nat.min_comm]
  rcases Nat.le_total destinationLen (scratch.drop start).length with short | long
  · rw [Nat.min_eq_left short, take_append_drop]
  · rw [Nat.min_eq_right long, drop_length, append_nil, take_of_length_le long]

theorem sound_afterCopy (inside : position ≤ scratch.length) : (DataRx.afterCopy scratch position).Sound scratch := by
  unfold DataRx.afterCopy
  split
  · exact .inl rfl
  · exact inside

namespace DataRead

/-- The transport answered a read into the scratch of a state that wants bytes. -/
structure Received (read : DataRead) (answer : ReadAnswer) (part : Option Nat) (filled readEnd count : Nat)
    (content scratch : List UInt8) : Prop where
  state : read.state = .filling part filled
  kept : scratch.take filled = read.scratch.take filled
  length : scratch.length = DataRx.wanted part
  inside : filled < DataRx.wanted part
  order : filled ≤ readEnd
  fits : readEnd ≤ DataRx.wanted part
  positive : count ≠ 0
  answered : answer = .ready count content

/-- Why a turn that reads a range of some width records an error. -/
inductive Broken (read : DataRead) (answer : ReadAnswer) : Nat → Prop
  | transport {width : Nat} (answered : answer = .failed) : Broken read answer width
  | cut (part : Option Nat) {filled width : Nat} {content : List UInt8} (state : read.state = .filling part filled)
      (started : read.state ≠ .length 0) (answered : answer = .ready 0 content) : Broken read answer width
  | overrun {part : Option Nat} {filled readEnd count : Nat} {content scratch : List UInt8}
      (received : read.Received answer part filled readEnd count content scratch)
      (beyond : DataRx.wanted part < wrappingAdd filled count) : Broken read answer (readEnd - filled)
  | header {filled readEnd count : Nat} {content scratch : List UInt8}
      (received : read.Received answer none filled readEnd count content scratch)
      (whole : wrappingAdd filled count = encryptedLengthLen)
      (bad : ∀ high low, (read.opener.openInPlace (readInto scratch filled readEnd content)).result = .ok () →
        (read.opener.openInPlace (readInto scratch filled readEnd content)).buffer = [high, low] →
        maxDecryptWireLen < (U16.fromBeBytes high low).val + tagLen) : Broken read answer (readEnd - filled)
  | payload {filled readEnd count wireLen : Nat} {content scratch : List UInt8}
      (received : read.Received answer (some wireLen) filled readEnd count content scratch)
      (whole : wrappingAdd filled count = wireLen)
      (bad : (read.opener.openInPlace (readInto scratch filled readEnd content)).result ≠ .ok ()) :
      Broken read answer (readEnd - filled)

/-- What one turn can come to. -/
inductive Turned (read : DataRead) (destinationLen : Nat) (answer : ReadAnswer) :
    Turn DataRead (List UInt8) → List TransportCall → Prop
  | exhausted : Turned read destinationLen answer (.finished ⟨read, .pending, []⟩) []
  | waiting (part : Option Nat) {filled width : Nat} {scratch : List UInt8} (state : read.state = .filling part filled)
      (kept : scratch.take filled = read.scratch.take filled) (length : scratch.length = DataRx.wanted part)
      (inside : filled < DataRx.wanted part) (answered : answer = .pending) :
      Turned read destinationLen answer
        (.finished ⟨{ read with scratch := scratch, state := .filling part filled }, .pending, []⟩) [.read width .pending]
  | failed {after : DataRead} {error : ShadowsocksError} {width : Nat} (broken : Broken read answer width)
      (recorded : after.lifecycle.fatalError = some error) (txClosed : after.lifecycle.txClosed = read.lifecycle.txClosed) :
      Turned read destinationLen answer (.finished ⟨after, .ready (.error error), []⟩) [.read width answer]
  | ended {width : Nat} {content scratch : List UInt8} (state : read.state = .length 0) (answered : answer = .ready 0 content) :
      Turned read destinationLen answer
        (.finished ⟨{ read with scratch := scratch, state := .closed, lifecycle := read.lifecycle.closeRx }, .ready (.ok []), []⟩)
        [.read width (.ready 0 content)]
  | part {part : Option Nat} {filled readEnd count : Nat} {content scratch : List UInt8} {budget : PollBudget}
      (received : read.Received answer part filled readEnd count content scratch)
      (short : wrappingAdd filled count < DataRx.wanted part) :
      Turned read destinationLen answer
        (.again { read with
            scratch := readInto scratch filled readEnd content, state := .filling part (wrappingAdd filled count) } budget)
        [.read (readEnd - filled) (.ready count content)]
  | header {filled readEnd count wireLen : Nat} {content scratch : List UInt8} {high low : UInt8} {opening : TcpOpening}
      {budget : PollBudget} (received : read.Received answer none filled readEnd count content scratch)
      (whole : wrappingAdd filled count = encryptedLengthLen)
      (opens : read.opener.openInPlace (readInto scratch filled readEnd content) = opening) (opened : opening.result = .ok ())
      (buffer : opening.buffer = [high, low]) (width : wireLen = (U16.fromBeBytes high low).val + tagLen) :
      Turned read destinationLen answer
        (.again ⟨opening.opener, resize opening.buffer wireLen, .payload wireLen 0, read.lifecycle⟩ budget)
        [.read (readEnd - filled) (.ready count content)]
  | passed {filled readEnd count wireLen : Nat} {content scratch : List UInt8} {opening : TcpOpening} {budget : PollBudget}
      (received : read.Received answer (some wireLen) filled readEnd count content scratch)
      (whole : wrappingAdd filled count = wireLen)
      (opens : read.opener.openInPlace (readInto scratch filled readEnd content) = opening) (opened : opening.result = .ok ())
      (buffer : opening.buffer = []) :
      Turned read destinationLen answer (.again ⟨opening.opener, opening.buffer, .length 0, read.lifecycle⟩ budget)
        [.read (readEnd - filled) (.ready count content)]
  | payload {filled readEnd count wireLen position : Nat} {content scratch bytes : List UInt8} {opening : TcpOpening}
      (received : read.Received answer (some wireLen) filled readEnd count content scratch)
      (whole : wrappingAdd filled count = wireLen)
      (opens : read.opener.openInPlace (readInto scratch filled readEnd content) = opening) (opened : opening.result = .ok ())
      (buffer : opening.buffer ≠ []) (copied : copyReady opening.buffer 0 destinationLen = some (bytes, position)) :
      Turned read destinationLen answer
        (.finished ⟨⟨opening.opener, opening.buffer, .afterCopy opening.buffer position, read.lifecycle⟩,
          .ready (.ok bytes), []⟩)
        [.read (readEnd - filled) (.ready count content)]
  | ready {start position : Nat} {bytes : List UInt8} (state : read.state = .ready start)
      (copied : copyReady read.scratch start destinationLen = some (bytes, position)) :
      Turned read destinationLen answer
        (.finished ⟨{ read with state := .afterCopy read.scratch position }, .ready (.ok bytes), []⟩) []
  | closed (state : read.state = .closed) : Turned read destinationLen answer (.finished ⟨read, .ready (.ok []), []⟩) []

section turned

variable {read now : DataRead} {destinationLen : Nat} {answer : ReadAnswer} {budget : PollBudget}
  (fresh : read.lifecycle.terminal = none)
include fresh

theorem poisoned_turned {width : Nat} (broken : Broken read answer width) (now : DataRead) (terminal : FlowTerminal)
    (fatal : terminal ≠ .normal) : ∃ next, now.poisoned (read.lifecycle.install terminal) = some next ∧
      Turned read destinationLen answer next [.read width answer] := by
  obtain ⟨error, installed, recorded⟩ := Lifecycle.install_of_none fresh terminal fatal
  unfold poisoned
  rw [installed]
  exact ⟨_, rfl, .failed broken recorded rfl⟩

theorem opened_cases (now : DataRead) (same : now.lifecycle = read.lifecycle) :
    ((now.opener.openInPlace now.scratch).result = .ok () ∧ now.opened =
      some (⟨(now.opener.openInPlace now.scratch).opener, (now.opener.openInPlace now.scratch).buffer, now.state,
        now.lifecycle⟩, .ok ())) ∨
    (now.opener.openInPlace now.scratch).result ≠ .ok () ∧
      ∃ after error, now.opened = some ({ now with lifecycle := after }, .error error) ∧ after.fatalError = some error ∧
        after.txClosed = read.lifecycle.txClosed := by
  unfold opened
  simp only
  rcases protocolCipherBoundary_cases (same.symm ▸ fresh : now.lifecycle.terminal = none)
      ((safe_ofExcept (now.opener.openInPlace now.scratch).result).mapError frameFromOpenAead) with
    ⟨⟨⟩, succeeded, boundary⟩ | ⟨after, error, recorded, txClosed, failed, boundary⟩
  · rw [boundary]
    rw [checked_mapError_eq_ok] at succeeded
    refine .inl ⟨?_, rfl⟩
    cases result : (now.opener.openInPlace now.scratch).result with
    | error error =>
      rw [result] at succeeded
      cases succeeded
    | ok value => rfl
  · rw [boundary]
    refine .inr ⟨fun opened => ?_, after, error, rfl, recorded, txClosed.trans (congrArg Lifecycle.txClosed same)⟩
    rw [opened] at failed
    exact failed () rfl

end turned

section answers

variable {read : DataRead} (destinationLen : Nat) {filled readEnd count : Nat} {answer : ReadAnswer} {content scratch : List UInt8}
  {part : Option Nat} (fresh : read.lifecycle.terminal = none)
include fresh

theorem openLength_turned (received : read.Received answer none filled readEnd count content scratch)
    (whole : wrappingAdd filled count = encryptedLengthLen) (state : DataRx) (budget : PollBudget) :
    ∃ next, openLength { read with scratch := readInto scratch filled readEnd content, state := state } budget = some next ∧
      Turned read destinationLen answer next [.read (readEnd - filled) answer] := by
  have length : (readInto scratch filled readEnd content).length = encryptedLengthLen := by
    rw [length_readInto (received.length ▸ received.fits) received.order]
    exact received.length
  have answered := received.answered
  subst answered
  unfold openLength
  simp only
  rw [take_of_length_le (Nat.le_of_eq length)]
  rcases opened_cases fresh { read with scratch := readInto scratch filled readEnd content, state := state } rfl with
    ⟨opened, run⟩ | ⟨failed, after, error, run, recorded, txClosed⟩
  · rw [run]
    simp only at opened ⊢
    split
    · rename_i high low buffer
      split
      · rename_i beyond
        have broken : Broken read (.ready count content) (readEnd - filled) := .header received whole fun high' low' _ same => by
          rw [buffer] at same
          cases same
          exact beyond
        exact poisoned_turned fresh broken _ (.protocol .frameBounds) nofun
      · exact ⟨_, rfl, .header received whole rfl opened buffer rfl⟩
    · rename_i otherwise
      have broken : Broken read (.ready count content) (readEnd - filled) :=
        .header received whole fun high low _ same => absurd same (otherwise high low)
      exact poisoned_turned fresh broken _ (.protocol .frameBounds) nofun
  · rw [run]
    exact ⟨_, rfl, .failed (.header received whole fun _ _ opened => absurd opened failed) recorded txClosed⟩

variable {wireLen : Nat}

theorem openPayload_turned (received : read.Received answer (some wireLen) filled readEnd count content scratch)
    (whole : wrappingAdd filled count = wireLen) (state : DataRx) (budget : PollBudget) :
    ∃ next, openPayload { read with scratch := readInto scratch filled readEnd content, state := state } wireLen destinationLen
        budget = some next ∧ Turned read destinationLen answer next [.read (readEnd - filled) answer] := by
  have length : (readInto scratch filled readEnd content).length = wireLen := by
    rw [length_readInto (received.length ▸ received.fits) received.order]
    exact received.length
  have answered := received.answered
  subst answered
  unfold openPayload
  simp only
  rw [take_of_length_le (Nat.le_of_eq length)]
  rcases opened_cases fresh { read with scratch := readInto scratch filled readEnd content, state := state } rfl with
    ⟨opened, run⟩ | ⟨failed, after, error, run, recorded, txClosed⟩
  · rw [run]
    simp only at opened ⊢
    split
    · rename_i buffer
      exact ⟨_, rfl, .passed received whole rfl opened buffer⟩
    · rename_i buffer
      unfold copied
      simp only
      rw [copyReady_of_le (Nat.zero_le _)]
      exact ⟨_, rfl, .payload received whole rfl opened buffer (copyReady_of_le (Nat.zero_le _) _)⟩
  · rw [run]
    exact ⟨_, rfl, .failed (.payload received whole failed) recorded txClosed⟩

theorem lengthAnswered_turned (state : read.state = .length filled) (kept : scratch.take filled = read.scratch.take filled)
    (length : scratch.length = encryptedLengthLen) (inside : filled < encryptedLengthLen) (readEnd : Nat)
    (order : filled ≤ readEnd) (fits : readEnd ≤ encryptedLengthLen) (budget : PollBudget) (answer : ReadAnswer) :
    ∃ next, lengthAnswered { read with scratch := scratch } filled readEnd budget answer = some next ∧
      Turned read destinationLen answer next [.read (readEnd - filled) answer] := by
  cases answer with
  | pending => exact ⟨_, rfl, .waiting none state kept length inside rfl⟩
  | failed =>
    exact poisoned_turned fresh (.transport rfl) _ (.transport .read) nofun
  | ready count content =>
    unfold lengthAnswered
    simp only
    by_cases zero : count = 0
    · rw [if_pos zero]
      subst zero
      split
      · rename_i start
        rw [start] at state
        exact ⟨_, rfl, .ended state rfl⟩
      · rename_i started
        have broken : Broken read (.ready 0 content) (readEnd - filled) := .cut none state
          (by rw [state]; simpa using started) rfl
        exact poisoned_turned fresh broken _ (.protocol .frameBounds) nofun
    rw [if_neg zero]
    have received : read.Received (.ready count content) none filled readEnd count content scratch :=
      ⟨state, kept, length, inside, order, fits, zero, rfl⟩
    split
    · rename_i beyond
      exact poisoned_turned fresh (.overrun received beyond) _ (.protocol .frameBounds) nofun
    · split
      · rename_i short
        exact ⟨_, rfl, .part received short⟩
      · exact openLength_turned _ fresh received (by omega) _ _

theorem payloadAnswered_turned (state : read.state = .payload wireLen filled)
    (length : read.scratch.length = wireLen) (inside : filled < wireLen) (readEnd : Nat) (order : filled ≤ readEnd)
    (fits : readEnd ≤ wireLen) (budget : PollBudget) (answer : ReadAnswer) :
    ∃ next, payloadAnswered read wireLen destinationLen filled readEnd budget answer = some next ∧
      Turned read destinationLen answer next [.read (readEnd - filled) answer] := by
  cases answer with
  | pending =>
    exact ⟨_, rfl, .waiting (some wireLen) state rfl length inside rfl⟩
  | failed => exact poisoned_turned fresh (.transport rfl) _ (.transport .read) nofun
  | ready count content =>
    unfold payloadAnswered
    simp only
    by_cases zero : count = 0
    · rw [if_pos zero]
      subst zero
      have broken : Broken read (.ready 0 content) (readEnd - filled) := .cut (some wireLen) state
        (by rw [state]; nofun) rfl
      exact poisoned_turned fresh broken _ (.protocol .frameBounds) nofun
    rw [if_neg zero]
    have received : read.Received (.ready count content) (some wireLen) filled readEnd count content read.scratch :=
      ⟨state, rfl, length, inside, order, fits, zero, rfl⟩
    split
    · rename_i beyond
      exact poisoned_turned fresh (.overrun received beyond) _ (.protocol .frameBounds) nofun
    · split
      · rename_i short
        exact ⟨_, rfl, .part received short⟩
      · exact openPayload_turned _ fresh received (by omega) _ _

theorem turn_turned (sound : read.state.Sound read.scratch) (budget : PollBudget) (answer : ReadAnswer) :
    ∃ next calls, read.turn destinationLen budget answer = some (next, calls) ∧
      Turned read destinationLen answer next calls := by
  unfold turn
  split
  · exact ⟨_, _, rfl, .exhausted⟩
  cases state : read.state with
  | length filled =>
    rw [state] at sound
    have inside : filled < encryptedLengthLen := by
      rcases sound with zero | ⟨-, inside⟩
      · rw [zero]
        decide
      · exact inside
    have length : (if filled = 0 then resize read.scratch encryptedLengthLen else read.scratch).length = encryptedLengthLen := by
      split
      · exact length_resize _ _
      · exact (sound.resolve_left ‹_›).1
    have kept : (if filled = 0 then resize read.scratch encryptedLengthLen else read.scratch).take filled =
        read.scratch.take filled := by
      split
      · rename_i zero
        rw [zero, take_zero, take_zero]
      · rfl
    obtain ⟨next, run, turned⟩ := lengthAnswered_turned destinationLen fresh state kept length inside
      (min (filled + budget.remainingProgress) encryptedLengthLen) (by omega) (by omega) budget answer
    refine ⟨next, _, ?_, turned⟩
    simp only [asks]
    rw [if_pos ⟨by omega, by omega⟩, ← state, run]
    rfl
  | payload wireLen filled =>
    rw [state] at sound
    obtain ⟨length, inside⟩ := sound
    obtain ⟨next, run, turned⟩ := payloadAnswered_turned destinationLen fresh state length inside
      (min (filled + budget.remainingProgress) wireLen) (by omega) (by omega) budget answer
    refine ⟨next, _, ?_, turned⟩
    simp only [asks]
    rw [if_pos ⟨by omega, by omega⟩, run]
    rfl
  | ready position =>
    rw [state] at sound
    simp only [copied]
    rw [copyReady_of_le sound]
    exact ⟨_, _, rfl, .ready state (copyReady_of_le sound _)⟩
  | closed => exact ⟨_, _, rfl, .closed state⟩
  | poison =>
    rw [state] at sound
    cases sound

end answers

def Left (read : DataRead) : Prop := read.lifecycle.fatalError = none → read.state.Sound read.scratch

variable {calls : List TransportCall}

variable {read : DataRead} {destinationLen : Nat} {answer : ReadAnswer}

variable {next : Turn DataRead (List UInt8)}

theorem Turned.sound (turned : Turned read destinationLen answer next calls) (sound : read.state.Sound read.scratch) :
    next.Meets (fun _ state => state.lifecycle = read.lifecycle ∧ state.state.Sound state.scratch)
      fun polled => polled.state.Left ∧ polled.state.lifecycle.txClosed = read.lifecycle.txClosed ∧
        (read.lifecycle.Sound → polled.state.lifecycle.Sound) := by
  cases turned with
  | exhausted | closed state => exact ⟨fun _ => sound, rfl, id⟩
  | waiting part state kept length inside answered => exact ⟨fun _ => DataRx.sound_filling length inside, rfl, id⟩
  | failed broken recorded txClosed =>
    refine ⟨fun alive => ?_, txClosed, fun _ => Lifecycle.sound_of_fatalError recorded⟩
    rw [recorded] at alive
    cases alive
  | ended state answered => exact ⟨fun _ => trivial, Lifecycle.closeRx_txClosed, Lifecycle.Sound.closeRx⟩
  | part received short =>
    refine ⟨rfl, DataRx.sound_filling ?_ short⟩
    rw [length_readInto (received.length ▸ received.fits) received.order]
    exact received.length
  | header received whole opens opened buffer width => exact ⟨rfl, length_resize _ _, by rw [width]; exact Nat.succ_pos _⟩
  | passed received whole opens opened buffer => exact ⟨rfl, .inl rfl⟩
  | payload received whole opens opened buffer copied =>
    exact ⟨fun _ => sound_afterCopy (copyReady_eq_some (Nat.zero_le _) copied).2.1, rfl, id⟩
  | ready state copied =>
    rw [state] at sound
    exact ⟨fun _ => sound_afterCopy (copyReady_eq_some sound copied).2.1, rfl, id⟩

theorem Turned.silent (turned : Turned read destinationLen answer next calls) : sentBytes calls = [] := by
  cases turned <;> rfl

theorem Turned.calls_eq
    {polled : Polled DataRead (List UInt8)} (turned : Turned read destinationLen answer (.finished polled) calls) :
    polled.calls = [] := by
  cases turned <;> rfl

end DataRead

theorem pollDataRead_left (read : DataRead) (fresh : read.lifecycle.terminal = none) (sound : read.state.Sound read.scratch)
    (destinationLen : Nat) (answers : List ReadAnswer) (budget : PollBudget) :
    ∃ polled, pollDataRead destinationLen answers budget read = some polled ∧ polled.state.Left ∧
      polled.state.lifecycle.txClosed = read.lifecycle.txClosed ∧ (read.lifecycle.Sound → polled.state.lifecycle.Sound) ∧
      sentBytes polled.calls = [] := by
  obtain ⟨polled, run, left⟩ := turns_left
    (fun before _ now => now.lifecycle = read.lifecycle ∧ now.state.Sound now.scratch ∧ sentBytes before = [])
    (fun before (now : DataRead) (_ : Poll (List UInt8)) => now.Left ∧
      now.lifecycle.txClosed = read.lifecycle.txClosed ∧ (read.lifecycle.Sound → now.lifecycle.Sound) ∧ sentBytes before = [])
    (fun before budget now answer holds => by
      obtain ⟨same, sound, silent⟩ := holds
      obtain ⟨next, calls, run, turned⟩ := DataRead.turn_turned destinationLen (same ▸ fresh) sound budget answer
      have meets := turned.sound sound
      rw [same] at meets
      refine ⟨next, calls, run, ?_⟩
      cases next with
      | finished polled =>
        obtain ⟨left, txClosed, lifecycle⟩ := meets
        refine ⟨left, txClosed, lifecycle, ?_⟩
        rw [turned.calls_eq, append_nil, sentBytes_append, silent, turned.silent]
        rfl
      | again state budget =>
        refine ⟨meets.1, meets.2, ?_⟩
        rw [sentBytes_append, silent, turned.silent]
        rfl)
    (fun _ _ now holds => ⟨fun _ => holds.2.1, by rw [holds.1], fun sound => holds.1 ▸ sound, holds.2.2⟩) answers
    [] budget ⟨rfl, sound, rfl⟩
  exact ⟨polled, run, left⟩

theorem length_resetDecrypt : resetDecrypt.length = maxDecryptWireLen := length_replicate

theorem responseFixed_bounds (profile : MethodProfile) : profile.initialResponseReadBytes ≤ maxDecryptWireLen ∧
    profile.initialResponseReadBytes = profile.saltBytes + (responseFixedPlaintextLen profile + tagLen) ∧
    responseFixedPlaintextLen profile ≤ maxResponseFixedPlaintextLen := by
  cases profile with
  | blake3Aes128Gcm2022 => decide
  | blake3Aes256Gcm2022 => decide
  | blake3ChaCha20Poly13052022 => decide

variable {decrypt : List UInt8}

theorem safe_openResponseFixed (keys : TcpKeyProvider) (clock : Option U64) (requestSalt : MethodTcpSalt)
    (length : decrypt.length = maxDecryptWireLen) :
    Safe (openResponseFixed keys clock requestSalt decrypt) := by
  obtain ⟨fits, parts, within⟩ := responseFixed_bounds requestSalt.profile
  unfold openResponseFixed
  refine (safe_slicing (Nat.zero_le _) (by omega)).bind fun saltBytes _ => (safe_okOr _ _).bind fun responseSalt _ =>
    (safe_failIf _ _).bind fun _ _ => (safe_okOr _ _).bind fun opener _ =>
    (safe_slicing (by omega) (by omega)).bind fun sealed isSealed => ?_
  obtain ⟨_, _, rfl⟩ := slicing_eq_ok.mp isSealed
  have zeros : (List.replicate (maxResponseFixedPlaintextLen + tagLen) (0 : UInt8)).length =
      maxResponseFixedPlaintextLen + tagLen := length_replicate
  rw [copyRange_of_le (by rw [length_slice]; omega) (by omega)]
  refine (safe_ok _).bind fun fixedWire isFixed => ?_
  cases isFixed
  have width : (copyFromSlice (List.replicate (maxResponseFixedPlaintextLen + tagLen) (0 : UInt8)) 0
      (slice decrypt requestSalt.profile.saltBytes requestSalt.profile.initialResponseReadBytes)).length =
      maxResponseFixedPlaintextLen + tagLen := by
    rw [length_copyFromSlice (by rw [length_slice]; omega), zeros]
  refine (safe_slicing (Nat.zero_le _) (by omega)).bind fun wire _ =>
    ((safe_ofExcept _).mapError _).bind fun _ _ => (safe_failIf _ _).bind fun _ exact => ?_
  rw [failIf_eq_ok, not_not] at exact
  have plaintextLen : responseFixedPlaintextLen requestSalt.profile = 11 + requestSalt.profile.saltBytes := rfl
  refine (safe_index (by omega)).bind fun _ _ => (safe_failIf _ _).bind fun _ _ =>
    (safe_slicing (by omega) (by omega)).bind fun timestamp isTimestamp => ?_
  obtain ⟨_, _, rfl⟩ := slicing_eq_ok.mp isTimestamp
  refine (safe_assert (by rw [length_slice]; omega)).bind fun _ _ => (safe_okOr _ _).bind fun _ _ =>
    (safe_failIf _ _).bind fun _ _ => (safe_slicing (by omega) (by omega)).bind fun _ _ => (safe_failIf _ _).bind fun _ _ =>
    (safe_slicing (by omega) (by omega)).bind fun pair isPair => ?_
  obtain ⟨_, _, rfl⟩ := slicing_eq_ok.mp isPair
  refine (safe_index (by rw [length_slice]; omega)).bind fun _ _ => (safe_index (by rw [length_slice]; omega)).bind fun _ _ =>
    (safe_failIf _ _).bind fun _ _ => (safe_failIf _ _).bind fun _ _ => safe_ok _

theorem openResponseFixed_bounds {keys : TcpKeyProvider} {clock : Option U64} {requestSalt : MethodTcpSalt} {wireLen : Nat}
    {opener : TcpOpener}
    (accepted : openResponseFixed keys clock requestSalt decrypt = .ok (wireLen, opener)) :
    0 < wireLen ∧ wireLen ≤ maxDecryptWireLen := by
  unfold openResponseFixed at accepted
  iterate 21 obtain ⟨_, _, accepted⟩ := bind_eq_ok.mp accepted
  obtain ⟨_, fits, accepted⟩ := bind_eq_ok.mp accepted
  cases accepted
  rw [failIf_eq_ok] at fits
  exact ⟨Nat.succ_pos _, Nat.le_of_not_lt fits⟩

/-- The receive state of a client says where the scratch and the opener stand. -/
def ClientRx.Sound (opener : Option TcpOpener) (decrypt : List UInt8) : ClientRx → Prop
  | .responseFixed => True
  | .responsePayload wireLen filled => opener.isSome ∧ decrypt.length = maxDecryptWireLen ∧ filled < wireLen ∧
      wireLen ≤ maxDecryptWireLen
  | .data state => opener.isSome ∧ state.Sound decrypt
  | .poison => False

namespace ClientFlow

structure Sound (flow : ClientFlow) : Prop where
  sending : flow.toSending.Sound
  rx : flow.rx.Sound flow.responseOpener flow.decrypt

def Left (flow : ClientFlow) : Prop := flow.lifecycle.fatalError = none → flow.Sound

variable (flow : ClientFlow)

theorem detected_left (fresh : flow.lifecycle.terminal = none) (reason : DetectionReason) :
    ∃ polled, flow.detected reason = some polled ∧ polled.state.Left := by
  obtain ⟨error, installed, recorded⟩ := Lifecycle.install_of_none fresh (.detection reason) nofun
  unfold detected Lifecycle.installDetection
  rw [installed]
  refine ⟨_, rfl, fun alive => ?_⟩
  rw [recorded] at alive
  cases alive

theorem asks_left {filled readEnd : Nat} {answered : ReadAnswer → Option (Polled ClientFlow (List UInt8))} {answer : ReadAnswer}
    (order : filled ≤ readEnd) (fits : readEnd ≤ flow.decrypt.length)
    (left : ∃ polled, answered answer = some polled ∧ polled.state.Left) :
    ∃ polled, flow.asks filled readEnd answered answer = some polled ∧ polled.state.Left := by
  obtain ⟨polled, run, left⟩ := left
  unfold asks
  rw [if_pos ⟨order, fits⟩, run]
  exact ⟨_, rfl, left⟩

section

variable (fresh : flow.lifecycle.terminal = none)
include fresh

section

variable (sending : flow.toSending.Sound)
include sending

theorem responseFixedAnswered_left
    (reset : flow.decrypt = resetDecrypt) (clock : Option U64) (answer : ReadAnswer) :
    ∃ polled, flow.responseFixedAnswered clock answer = some polled ∧ polled.state.Left := by
  unfold responseFixedAnswered
  cases answer with
  | pending => exact ⟨_, rfl, fun _ => ⟨sending, trivial⟩⟩
  | failed => exact detected_left _ fresh _
  | ready count content =>
    simp only
    split
    · exact detected_left _ fresh _
    · have length : (readInto flow.decrypt 0 flow.requestSalt.profile.initialResponseReadBytes content).length =
          maxDecryptWireLen := by
        rw [reset, length_readInto (by rw [length_resetDecrypt]; exact (responseFixed_bounds _).1) (Nat.zero_le _),
          length_resetDecrypt]
      have safe := safe_openResponseFixed flow.keys clock flow.requestSalt length
      split
      · rename_i panics
        exact absurd panics safe
      · exact detected_left _ fresh _
      · rename_i wireLen opener accepted
        obtain ⟨positive, fits⟩ := openResponseFixed_bounds accepted
        exact ⟨_, rfl, fun _ => ⟨sending, rfl, length_resetDecrypt, positive, fits⟩⟩

theorem openResponsePayload_left (opener : flow.responseOpener.isSome) (wireLen destinationLen : Nat) :
    ∃ polled, flow.openResponsePayload wireLen destinationLen = some polled ∧ polled.state.Left := by
  obtain ⟨opener, isOpener⟩ := isSome_iff_exists.mp opener
  unfold openResponsePayload
  rw [isOpener]
  simp only
  split
  · exact detected_left _ fresh _
  · have copied := copyReady_of_le (Nat.zero_le (opener.openInPlace (flow.decrypt.take wireLen)).buffer.length) destinationLen
    obtain ⟨-, inside, -⟩ := copyReady_eq_some (Nat.zero_le _) copied
    rw [copied, map_some]
    split
    · exact ⟨_, rfl, fun _ => ⟨sending, rfl, .inl rfl⟩⟩
    · exact ⟨_, rfl, fun _ => ⟨sending, rfl, inside⟩⟩

theorem responsePayloadAnswered_left
    (opener : flow.responseOpener.isSome) {wireLen filled : Nat} (length : flow.decrypt.length = maxDecryptWireLen)
    (inside : filled < wireLen) (fits : wireLen ≤ maxDecryptWireLen) (destinationLen : Nat) (answer : ReadAnswer) :
    ∃ polled, flow.responsePayloadAnswered wireLen filled destinationLen answer = some polled ∧ polled.state.Left := by
  unfold responsePayloadAnswered
  cases answer with
  | pending => exact ⟨_, rfl, fun _ => ⟨sending, opener, length, inside, fits⟩⟩
  | failed => exact detected_left _ fresh _
  | ready count content =>
    have same : (readInto flow.decrypt filled wireLen content).length = maxDecryptWireLen := by
      rw [length_readInto (by omega) (by omega), length]
    simp only
    split
    · exact detected_left _ fresh _
    · split
      · exact detected_left { flow with decrypt := readInto flow.decrypt filled wireLen content } fresh _
      · split
        · rename_i short
          exact ⟨_, rfl, fun _ => ⟨sending, opener, same, short, fits⟩⟩
        · exact openResponsePayload_left { flow with decrypt := readInto flow.decrypt filled wireLen content } fresh
            sending opener _ _

theorem readData_left
    (opener : flow.responseOpener.isSome) {state : DataRx} (sound : state.Sound flow.decrypt) (destinationLen : Nat)
    (answers : List ReadAnswer) : ∃ polled, flow.readData state destinationLen answers = some polled ∧ polled.state.Left := by
  obtain ⟨opener, isOpener⟩ := isSome_iff_exists.mp opener
  unfold readData
  rw [isOpener]
  obtain ⟨polled, run, left, -⟩ := pollDataRead_left ⟨opener, flow.decrypt, state, flow.lifecycle⟩ fresh sound
    destinationLen answers .default
  simp only [run, map_some]
  exact ⟨_, rfl, fun alive => ⟨sending, rfl, left alive⟩⟩

end

end

variable {flow}

theorem pollRead_left (alive : flow.lifecycle.fatalError = none) (sound : flow.Sound) (clock : Option U64)
    (destinationLen : Nat) (answers : List ReadAnswer) :
    ∃ polled, flow.pollRead clock destinationLen answers = some polled ∧ polled.state.Left := by
  unfold pollRead
  rw [alive]
  simp only
  split
  · exact ⟨_, rfl, fun _ => sound⟩
  split
  · exact ⟨_, rfl, fun _ => sound⟩
  · rename_i ongoing
    have fresh := Lifecycle.terminal_of_fatalError alive (not_or.mp ongoing).1
    have rx := sound.rx
    split
    · rename_i state
      exact asks_left { flow with rx := .poison, decrypt := resetDecrypt } (Nat.zero_le _)
        (by rw [length_resetDecrypt]; exact (responseFixed_bounds _).1)
        (responseFixedAnswered_left { flow with rx := .poison, decrypt := resetDecrypt } fresh sound.sending rfl clock _)
    · rename_i wireLen filled state
      rw [state] at rx
      obtain ⟨opener, length, inside, fits⟩ := rx
      exact asks_left { flow with rx := .poison } (by omega) (by rw [length]; exact fits)
        (responsePayloadAnswered_left { flow with rx := .poison } fresh sound.sending opener length inside fits _ _)
    · rename_i state isState
      rw [isState] at rx
      exact readData_left { flow with rx := .poison } fresh sound.sending rx.1 rx.2 _ _
    · rename_i state
      rw [state] at rx
      cases rx

theorem pollWrite_left (alive : flow.lifecycle.fatalError = none) (sound : flow.Sound) (source : List UInt8)
    (answers : List WriteAnswer) (lengthPrimitive payloadPrimitive : Primitive) :
    ∃ polled, flow.pollWrite source answers lengthPrimitive payloadPrimitive = some polled ∧ polled.state.Left := by
  obtain ⟨polled, added, run, advanced, -⟩ := Sending.pollWriteOpen_advanced alive sound.sending flow.requestSealer
    source answers lengthPrimitive payloadPrimitive
  unfold pollWrite
  rw [run]
  exact ⟨_, rfl, fun alive => ⟨(advanced.alive alive).1, sound.rx⟩⟩

end ClientFlow

end Ferrum.Shadowsocks
