import Ferrum.Shadowsocks.TcpFlow
import Ferrum.Shadowsocks.TcpRoundTrip

namespace Ferrum.Shadowsocks

open Option List Checked Crypto

namespace Lifecycle

variable {lifecycle : Lifecycle}

theorem fatalError_of_none (fresh : lifecycle.terminal = none) : lifecycle.fatalError = none := by
  unfold fatalError
  rw [fresh]

theorem terminal_of_fatalError (alive : lifecycle.fatalError = none) (unfinished : lifecycle.terminal ≠ some .normal) :
    lifecycle.terminal = none := by
  unfold fatalError at alive
  split at alive
  · cases alive
  · cases alive
  · cases alive
  · rename_i normal
    exact absurd normal unfinished
  · assumption

theorem install_of_none (fresh : lifecycle.terminal = none) (terminal : FlowTerminal) (fatal : terminal ≠ .normal) :
    ∃ error, lifecycle.install terminal = some ({ lifecycle with terminal := some terminal }, error) ∧
      fatalError { lifecycle with terminal := some terminal } = some error := by
  unfold install
  rw [if_pos fresh]
  cases terminal with
  | normal => exact absurd rfl fatal
  | detection reason => exact ⟨.detection reason, rfl, rfl⟩
  | protocol reason => exact ⟨.protocol reason, rfl, rfl⟩
  | transport phase => exact ⟨.transport phase, rfl, rfl⟩

theorem closeTx_txClosed (fresh : lifecycle.terminal = none) : lifecycle.closeTx.txClosed = true := by
  unfold closeTx maybeNormal
  rw [fresh]
  simp only [isSome_none, Bool.false_eq_true, if_false]
  split
  · rfl
  · rfl

def Sound (lifecycle : Lifecycle) : Prop := lifecycle.terminal = some .normal → lifecycle.rxClosed ∧ lifecycle.txClosed

theorem sound_of_fatalError {error : ShadowsocksError} (recorded : lifecycle.fatalError = some error) : lifecycle.Sound := by
  intro normal
  unfold fatalError at recorded
  rw [normal] at recorded
  cases recorded

theorem Sound.maybeNormal (sound : lifecycle.Sound) : lifecycle.maybeNormal.Sound := by
  unfold Lifecycle.maybeNormal
  split
  · rename_i both
    exact fun _ => ⟨both.1, both.2.1⟩
  · exact sound

theorem Sound.closeTx (sound : lifecycle.Sound) : lifecycle.closeTx.Sound := by
  unfold Lifecycle.closeTx
  split
  · exact sound
  · refine .maybeNormal fun normal => ?_
    rename_i unrecorded
    exact absurd (isSome_iff_exists.mpr ⟨_, normal⟩) unrecorded

theorem Sound.closeRx (sound : lifecycle.Sound) : lifecycle.closeRx.Sound := by
  unfold Lifecycle.closeRx
  split
  · exact sound
  · refine .maybeNormal fun normal => ?_
    rename_i unrecorded
    exact absurd (isSome_iff_exists.mpr ⟨_, normal⟩) unrecorded

theorem closeRx_txClosed : lifecycle.closeRx.txClosed = lifecycle.txClosed := by
  unfold closeRx maybeNormal
  split
  · rfl
  · split
    · rfl
    · rfl

end Lifecycle

section turns

variable {σ α ρ : Type}

/-- What a turn may come to. -/
def Turn.Meets (good : PollBudget → σ → Prop) (left : Polled σ α → Prop) : Turn σ α → Prop
  | .finished polled => left polled
  | .again state budget => good budget state

theorem turns_left {turn : σ → PollBudget → ρ → Option (Turn σ α × List TransportCall)} {pending : ρ}
    (good : List TransportCall → PollBudget → σ → Prop) (left : List TransportCall → σ → Poll α → Prop)
    (step : ∀ before budget state answer, good before budget state →
      ∃ next calls, turn state budget answer = some (next, calls) ∧
        next.Meets (good (before ++ calls)) fun polled => left (before ++ (calls ++ polled.calls)) polled.state polled.poll)
    (stop : ∀ before budget state, good before budget state → left before state .pending)
    (answers : List ρ) (before : List TransportCall) (budget : PollBudget) {state : σ} (holds : good before budget state) :
    ∃ polled, turns turn pending answers budget state = some polled ∧
      left (before ++ polled.calls) polled.state polled.poll := by
  induction answers generalizing before budget state with
  | nil =>
    obtain ⟨next, calls, run, meets⟩ := step before budget state pending holds
    unfold turns
    rw [run]
    cases next with
    | finished polled => exact ⟨_, rfl, meets⟩
    | again state budget => exact ⟨_, rfl, stop _ _ _ meets⟩
  | cons answer rest ih =>
    obtain ⟨next, calls, run, meets⟩ := step before budget state answer holds
    unfold turns
    rw [run]
    cases next with
    | finished polled => exact ⟨_, rfl, meets⟩
    | again state budget =>
      obtain ⟨polled, later, left⟩ := ih _ _ meets
      rw [append_assoc] at left
      exact ⟨{ polled with calls := calls ++ polled.calls }, by simp only [later, map_some], left⟩

end turns

def TransportCall.sent : TransportCall → List UInt8
  | .write source (.ready written) => source.take written
  | _ => []

def sentBytes (calls : List TransportCall) : List UInt8 := calls.flatMap TransportCall.sent

@[simp] theorem sentBytes_nil : sentBytes [] = [] := rfl

@[simp] theorem sentBytes_append (first second : List TransportCall) :
    sentBytes (first ++ second) = sentBytes first ++ sentBytes second := flatMap_append

@[simp] theorem sentBytes_cons (call : TransportCall) (rest : List TransportCall) :
    sentBytes (call :: rest) = call.sent ++ sentBytes rest := flatMap_cons

def TransportCall.received : TransportCall → List UInt8
  | .read _ (.ready count content) => content.take count
  | _ => []

def receivedBytes (calls : List TransportCall) : List UInt8 := calls.flatMap TransportCall.received

@[simp] theorem receivedBytes_nil : receivedBytes [] = [] := rfl

@[simp] theorem receivedBytes_append (first second : List TransportCall) :
    receivedBytes (first ++ second) = receivedBytes first ++ receivedBytes second := flatMap_append

theorem receivedBytes_cons (call : TransportCall) (rest : List TransportCall) :
    receivedBytes (call :: rest) = call.received ++ receivedBytes rest := flatMap_cons

theorem receivedBytes_detectionCalls (lifecycle : Lifecycle) : receivedBytes lifecycle.detectionCalls = [] := by
  unfold Lifecycle.detectionCalls
  split
  · rfl
  · rfl

theorem sentBytes_detectionCalls (lifecycle : Lifecycle) : sentBytes lifecycle.detectionCalls = [] := by
  unfold Lifecycle.detectionCalls
  split
  · rfl
  · rfl

namespace Sending

def pending (sending : Sending) : List UInt8 :=
  match sending.staged with
  | none => []
  | some current => sending.encrypt.drop current.position

/-- What is staged lies in the buffer, and a first write is whole and fits into one poll. -/
def Sound (sending : Sending) : Prop :=
  ∀ current, sending.staged = some current → current.position ≤ sending.encrypt.length ∧
    (current.kind = .first → current.position = 0 ∧ sending.encrypt.length ≤ maxPollProgress)

/-- What a drain leaves. -/
structure Drained (before after : Sending) (calls : List TransportCall) (poll : Poll Unit) : Prop where
  tx : after.tx = before.tx
  txClosed : after.lifecycle.txClosed = before.lifecycle.txClosed
  alive : after.lifecycle.fatalError = none →
    after.lifecycle = before.lifecycle ∧ after.Sound ∧ sentBytes calls ++ after.pending = before.pending
  sent : sentBytes calls <+: before.pending
  silent : receivedBytes calls = []
  succeeded : poll = .ready (.ok ()) → after.lifecycle.fatalError = none ∧ after.staged = none
  failed : ∀ error, poll = .ready (.error error) → after.lifecycle.fatalError = some error

/-- What holds between two turns of a drain. -/
structure Draining (before : Sending) (calls : List TransportCall) (budget : PollBudget) (now : Sending) : Prop where
  tx : now.tx = before.tx
  lifecycle : now.lifecycle = before.lifecycle
  sound : now.Sound
  staged : ∃ current, now.staged = some current ∧ (current.kind = .first → budget = .default)
  bytes : sentBytes calls ++ now.pending = before.pending
  silent : receivedBytes calls = []

variable {before : Sending}

variable {now sending : Sending} {calls : List TransportCall}

theorem Draining.pended {budget : PollBudget}
    (draining : Draining before calls budget now) : Drained before now calls .pending where
  tx := draining.tx
  txClosed := by rw [draining.lifecycle]
  alive _ := ⟨draining.lifecycle, draining.sound, draining.bytes⟩
  sent := ⟨_, draining.bytes⟩
  silent := draining.silent
  succeeded := nofun
  failed _ := nofun

theorem sound_drained (sending : Sending) : sending.drained.Sound := nofun

section draining

variable {before now : Sending} {calls : List TransportCall} {budget : PollBudget} {current : StagedWrite}
  (draining : Draining before calls budget now) (fresh : before.lifecycle.terminal = none)
include draining fresh

theorem drained_failed (terminal : FlowTerminal) (fatal : terminal ≠ .normal) (last : List TransportCall)
    (taken : sentBytes last <+: now.pending) (silent : receivedBytes last = []) :
    ∃ error, now.lifecycle.install terminal = some ({ now.lifecycle with terminal := some terminal }, error) ∧
      Drained before { now with lifecycle := { now.lifecycle with terminal := some terminal } } (calls ++ last)
        (.ready (.error error)) := by
  have stillFresh : now.lifecycle.terminal = none := by
    rw [draining.lifecycle]
    exact fresh
  obtain ⟨error, installed, recorded⟩ := Lifecycle.install_of_none stillFresh terminal fatal
  have sameClosed : now.lifecycle.txClosed = before.lifecycle.txClosed := by rw [draining.lifecycle]
  refine ⟨error, installed, draining.tx, sameClosed, ?_, ?_, ?_, nofun, ?_⟩
  · intro alive
    rw [recorded] at alive
    cases alive
  · rw [sentBytes_append, ← draining.bytes]
    exact (prefix_append_right_inj _).mpr taken
  · rw [receivedBytes_append, draining.silent, silent]
    rfl
  · intro other same
    cases same
    exact recorded

theorem drained_whole (poll : Poll Unit) (notFailed : ∀ error, poll ≠ .ready (.error error)) (last : List TransportCall)
    (taken : sentBytes last = now.pending) (silent : receivedBytes last = []) :
    Drained before now.drained (calls ++ last) poll := by
  have whole : sentBytes (calls ++ last) = before.pending := by rw [sentBytes_append, taken, draining.bytes]
  have alive : now.drained.lifecycle.fatalError = none :=
    Lifecycle.fatalError_of_none ((congrArg Lifecycle.terminal draining.lifecycle).trans fresh)
  refine ⟨draining.tx, congrArg Lifecycle.txClosed draining.lifecycle, fun _ => ⟨draining.lifecycle, now.sound_drained, ?_⟩,
    ?_, ?_, fun _ => ⟨alive, rfl⟩, fun error failed => absurd failed (notFailed error)⟩
  · rw [whole]
    exact append_nil _
  · simp only [whole, prefix_rfl]
  · rw [receivedBytes_append, draining.silent, silent]
    rfl

theorem failed_meets (terminal : FlowTerminal) (fatal : terminal ≠ .normal) (last : List TransportCall)
    (taken : sentBytes last <+: now.pending) (silent : receivedBytes last = []) :
    ∃ next, (now.failed (now.lifecycle.install terminal)).map Turn.finished = some next ∧
      next.Meets (Draining before (calls ++ last)) fun polled =>
        Drained before polled.state (calls ++ (last ++ polled.calls)) polled.poll := by
  obtain ⟨error, installed, drained⟩ := drained_failed draining fresh terminal fatal last taken silent
  refine ⟨_, by rw [installed]; rfl, ?_⟩
  rw [← append_nil last] at drained
  exact drained

theorem detected_meets (reason : DetectionReason) (last : List TransportCall) (taken : sentBytes last <+: now.pending)
    (silent : receivedBytes last = []) :
    ∃ next, (now.detected reason).map Turn.finished = some next ∧
      next.Meets (Draining before (calls ++ last)) fun polled =>
        Drained before polled.state (calls ++ (last ++ polled.calls)) polled.poll := by
  have marked : sentBytes (last ++ now.lifecycle.detectionCalls) <+: now.pending := by
    rw [sentBytes_append, sentBytes_detectionCalls, append_nil]
    exact taken
  have stillSilent : receivedBytes (last ++ now.lifecycle.detectionCalls) = [] := by
    rw [receivedBytes_append, receivedBytes_detectionCalls, silent]
    rfl
  obtain ⟨error, installed, drained⟩ := drained_failed draining fresh (.detection reason) nofun _ marked stillSilent
  unfold detected Lifecycle.installDetection
  refine ⟨_, by rw [installed]; rfl, ?_⟩
  exact drained

theorem writeAnswered_meets (staged : now.staged = some current) {source : List UInt8} (range : source <+: now.pending)
    (whole : current.kind = .first → source = now.pending) (answer : WriteAnswer) :
    ∃ next, now.writeAnswered current source budget answer = some next ∧
      next.Meets (Draining before (calls ++ [.write source answer])) fun polled =>
        Drained before polled.state (calls ++ ([.write source answer] ++ polled.calls)) polled.poll := by
  have bytes := draining.bytes
  have inside := (draining.sound current staged).1
  have pending : now.pending = now.encrypt.drop current.position := by
    unfold Sending.pending
    rw [staged]
  cases answer with
  | pending =>
    have same : Draining before (calls ++ [.write source .pending]) budget now :=
      { draining with
        bytes := by rw [sentBytes_append]; simpa [TransportCall.sent] using bytes
        silent := by rw [receivedBytes_append, draining.silent]; rfl }
    exact ⟨_, rfl, same.pended⟩
  | failed =>
    have taken : sentBytes [.write source .failed] <+: now.pending := nil_prefix
    unfold writeAnswered
    by_cases first : current.kind = .first
    · rw [if_pos first]
      exact detected_meets draining fresh .writeFailed _ taken rfl
    · rw [if_neg first]
      exact failed_meets draining fresh (.transport .write) nofun _ taken rfl
  | ready written =>
    have isSent : sentBytes [.write source (.ready written)] = source.take written := append_nil _
    have taken : sentBytes [.write source (.ready written)] <+: now.pending := by
      rw [isSent]
      exact (List.take_prefix written source).trans range
    unfold writeAnswered
    by_cases first : current.kind = .first
    · simp only [if_pos first]
      by_cases short : written ≠ source.length
      · rw [if_pos short]
        exact detected_meets draining fresh .shortWrite _ taken rfl
      · rw [if_neg short]
        have all : sentBytes [.write source (.ready written)] = now.pending := by
          rw [isSent, not_not.mp short, take_length, whole first]
        exact ⟨_, rfl, drained_whole draining fresh (.ready (.ok ())) nofun _ all rfl⟩
    · simp only [if_neg first]
      by_cases zero : written = 0
      · rw [if_pos zero]
        exact failed_meets draining fresh (.transport .writeZero) nofun _ taken rfl
      rw [if_neg zero]
      by_cases above : source.length < written
      · rw [if_pos above]
        exact failed_meets draining fresh (.transport .write) nofun _ taken rfl
      rw [if_neg above]
      have front : source.take written = (now.encrypt.drop current.position).take written := by
        rw [pending] at range
        rw [prefix_iff_eq_take.mp range, take_take, Nat.min_eq_left (by omega)]
      by_cases outside : now.encrypt.length < current.position + written
      · rw [if_pos outside]
        exact failed_meets draining fresh (.transport .write) nofun _ taken rfl
      rw [if_neg outside]
      by_cases last : current.position + written = now.encrypt.length
      · rw [if_pos last]
        have all : sentBytes [.write source (.ready written)] = now.pending := by
          rw [isSent, front, pending, take_of_length_le (by rw [length_drop]; omega)]
        split
        · exact ⟨_, rfl, drained_whole draining fresh .pending nofun _ all rfl⟩
        · exact ⟨_, rfl, drained_whole draining fresh (.ready (.ok ())) nofun _ all rfl⟩
      · rw [if_neg last]
        refine ⟨_, rfl, draining.tx, draining.lifecycle, ?_, ⟨_, rfl, fun isFirst => absurd isFirst first⟩, ?_, ?_⟩
        · rintro later ⟨⟩
          exact ⟨by simp only; omega, fun isFirst => absurd isFirst first⟩
        · rw [sentBytes_append, isSent, front, ← bytes, append_assoc, pending]
          simp only [Sending.pending]
          rw [← drop_drop, take_append_drop]
        · rw [receivedBytes_append, draining.silent]
          rfl

theorem turn_meets (answer : WriteAnswer) :
    ∃ next last, now.turn budget answer = some (next, last) ∧
      next.Meets (Draining before (calls ++ last)) fun polled =>
        Drained before polled.state (calls ++ (last ++ polled.calls)) polled.poll := by
  unfold turn
  split
  · refine ⟨_, _, rfl, ?_⟩
    rw [← append_nil calls] at draining
    exact draining.pended
  · obtain ⟨current, staged, begins⟩ := draining.staged
    obtain ⟨inside, firstWhole⟩ := draining.sound current staged
    have pending : now.pending = now.encrypt.drop current.position := by
      unfold Sending.pending
      rw [staged]
    rw [staged]
    simp only
    rw [if_pos (by omega)]
    have isSlice (stop : Nat) : slice now.encrypt current.position stop = now.pending.take (stop - current.position) := by
      rw [pending]
      exact drop_take
    have range (stop : Nat) : slice now.encrypt current.position stop <+: now.pending := by
      rw [isSlice]
      exact take_prefix _ _
    have whole (first : current.kind = .first) : slice now.encrypt current.position
        (min (current.position + budget.remainingProgress) now.encrypt.length) = now.pending := by
      obtain ⟨start, fits⟩ := firstWhole first
      rw [isSlice, start, begins first]
      apply take_of_length_le
      rw [pending, start]
      simp only [PollBudget.remainingProgress, PollBudget.default, drop_zero]
      omega
    obtain ⟨next, run, meets⟩ := writeAnswered_meets draining fresh staged (range _) whole answer
    exact ⟨next, _, by rw [run]; rfl, meets⟩

end draining

theorem drainStaged_drained (fresh : sending.lifecycle.terminal = none) (sound : sending.Sound)
    (staged : sending.staged.isSome) (answers : List WriteAnswer) :
    ∃ polled, drainStaged answers .default sending = some polled ∧ Drained sending polled.state polled.calls polled.poll := by
  obtain ⟨current, isStaged⟩ := isSome_iff_exists.mp staged
  obtain ⟨polled, run, drained⟩ := turns_left
    (fun calls budget now => Draining sending calls budget now) (fun calls now poll => Drained sending now calls poll)
    (fun _ _ _ answer draining => turn_meets draining fresh answer) (fun _ _ _ draining => draining.pended) answers [] .default
    ⟨rfl, rfl, sound, ⟨current, isStaged, fun _ => rfl⟩, rfl, rfl⟩
  exact ⟨polled, run, drained⟩

theorem drainThen_cases {σ α : Type} (fresh : sending.lifecycle.terminal = none) (sound : sending.Sound)
    (answers : List WriteAnswer) (after : Sending → σ) (operation : Sending → Option (Polled σ α)) :
    (∃ now calls poll, drainThen sending answers after operation = some ⟨after now, poll, calls⟩ ∧
      (poll = .pending ∧ Drained sending now calls .pending ∨
        ∃ error, poll = .ready (.error error) ∧ Drained sending now calls (.ready (.error error)))) ∨
    ∃ now calls, now.tx = sending.tx ∧ now.lifecycle = sending.lifecycle ∧ now.staged = none ∧
      sentBytes calls = sending.pending ∧ receivedBytes calls = [] ∧ drainThen sending answers after operation =
        (operation now).map fun polled => { polled with calls := calls ++ polled.calls } := by
  unfold drainThen
  by_cases staged : sending.staged.isSome
  · rw [if_pos staged]
    obtain ⟨⟨now, poll, calls⟩, run, drained⟩ := drainStaged_drained fresh sound staged answers
    rw [run]
    rcases poll with _ | ⟨error | ⟨⟩⟩
    · exact .inl ⟨now, calls, .pending, rfl, .inl ⟨rfl, drained⟩⟩
    · exact .inl ⟨now, calls, .ready (.error error), rfl, .inr ⟨error, rfl, drained⟩⟩
    · obtain ⟨alive, nothing⟩ := drained.succeeded rfl
      obtain ⟨sameLifecycle, -, bytes⟩ := drained.alive alive
      have empty : now.pending = [] := by
        unfold Sending.pending
        rw [nothing]
      rw [empty, append_nil] at bytes
      exact .inr ⟨now, calls, drained.tx, sameLifecycle, nothing, bytes, drained.silent, rfl⟩
  · rw [if_neg staged]
    have nothing : sending.staged = none := not_isSome_iff_eq_none.mp staged
    refine .inr ⟨sending, [], rfl, rfl, nothing, ?_, rfl, ?_⟩
    · unfold Sending.pending
      rw [nothing, sentBytes_nil]
    · simp only [nil_append]
      exact map_id'.symm

/-- What one call leaves of the sending side: the transport took a part of what was staged, and
`added` is staged behind the rest. -/
structure Advanced (before after : Sending) (calls : List TransportCall) (added : List UInt8) : Prop where
  tx : after.tx ≠ .responsePending → before.tx ≠ .responsePending ∨ after.lifecycle.txClosed ∨ added ≠ []
  txClosed : before.lifecycle.txClosed → after.lifecycle.txClosed
  sent : sentBytes calls <+: before.pending
  silent : receivedBytes calls = []
  alive : after.lifecycle.fatalError = none →
    after.Sound ∧ sentBytes calls ++ after.pending = before.pending ++ added
  whole : after.lifecycle.txClosed → before.lifecycle.txClosed ∨ sentBytes calls = before.pending
  closed : before.lifecycle.txClosed ∨ after.lifecycle.txClosed → added = []
  unanswered : after.tx = .responsePending → before.tx = .responsePending ∧ added = []
  lifecycle : after.lifecycle.fatalError = none →
    after.lifecycle = before.lifecycle ∨ after.lifecycle = before.lifecycle.closeTx

theorem Drained.advanced {after : Sending} {poll : Poll Unit}
    (drained : Drained before after calls poll) : Advanced before after calls [] where
  tx later := .inl (drained.tx ▸ later)
  txClosed closed := drained.txClosed.trans closed
  sent := drained.sent
  alive alive := by
    obtain ⟨-, sound, bytes⟩ := drained.alive alive
    rw [append_nil]
    exact ⟨sound, bytes⟩
  silent := drained.silent
  whole closed := .inl (drained.txClosed ▸ closed)
  closed _ := rfl
  unanswered later := ⟨drained.tx ▸ later, rfl⟩
  lifecycle alive := .inl (drained.alive alive).1

theorem failed_advanced (α : Type) (calls last : List TransportCall)
    (fresh : now.lifecycle.terminal = none) (terminal : FlowTerminal) (fatal : terminal ≠ .normal)
    (tx : now.tx = before.tx) (txClosed : now.lifecycle.txClosed = before.lifecycle.txClosed)
    (sent : sentBytes (calls ++ last) <+: before.pending) (silent : receivedBytes (calls ++ last) = []) :
    ∃ error after, now.lifecycle.install terminal = some (after, error) ∧ after.fatalError = some error ∧
      (now.failed (now.lifecycle.install terminal) : Option (Polled Sending α)) =
        some ⟨{ now with lifecycle := after }, .ready (.error error), []⟩ ∧
      Advanced before { now with lifecycle := after } (calls ++ last) [] := by
  obtain ⟨error, installed, recorded⟩ := Lifecycle.install_of_none fresh terminal fatal
  refine ⟨error, _, installed, recorded, by rw [installed]; rfl, ?_, ?_, sent, silent, ?_, ?_, fun _ => rfl,
    fun later => ⟨tx ▸ later, rfl⟩, ?_⟩
  · intro later
    exact .inl (tx ▸ later)
  · intro closed
    exact txClosed.trans closed
  · intro alive
    rw [recorded] at alive
    cases alive
  · intro closed
    exact .inl (txClosed.symm.trans closed)
  · intro alive
    rw [recorded] at alive
    cases alive

end Sending

theorem protocolCipherBoundary_cases {α : Type} {lifecycle : Lifecycle} (fresh : lifecycle.terminal = none)
    {operation : Checked FrameError α} (safe : Safe operation) :
    (∃ value, operation = .ok value ∧ protocolCipherBoundary lifecycle operation = some (lifecycle, .ok value)) ∨
    ∃ after error, after.fatalError = some error ∧ after.txClosed = lifecycle.txClosed ∧ (∀ value, operation ≠ .ok value) ∧
      protocolCipherBoundary lifecycle operation = some (after, .error error) := by
  unfold protocolCipherBoundary
  rw [Lifecycle.fatalError_of_none fresh]
  rcases operation with ⟨⟨⟩ | error⟩ | value
  · exact absurd rfl safe
  · obtain ⟨shown, installed, recorded⟩ :=
      Lifecycle.install_of_none fresh (.protocol (protocolFromFrame error)) nofun
    refine .inr ⟨_, shown, recorded, rfl, nofun, ?_⟩
    simp only [Lifecycle.installProtocol, installed, map_some]
  · exact .inl ⟨value, rfl, rfl⟩

theorem safe_sealFrame (sealer : TcpSealer) (scratch : List UInt8) (plaintextStart : Nat) (primitive : Primitive) :
    Safe (sealFrame sealer scratch plaintextStart primitive) := by
  unfold sealFrame
  simp only
  split
  · exact safe_ok _
  · exact safe_fail _

theorem safe_sealDataChunkInto (sealer : TcpSealer) (payload : List UInt8) (lengthPrimitive payloadPrimitive : Primitive) :
    Safe (sealDataChunkInto sealer payload lengthPrimitive payloadPrimitive) := by
  unfold sealDataChunkInto
  refine (safe_failIf _ _).bind fun _ _ => (safe_okOr _ _).bind fun payloadLen _ => (safe_sealFrame _ _ _ _).bind ?_
  rintro ⟨between, length⟩ isLength
  obtain ⟨_, _, _, bytes⟩ := sealFrame_zero_eq_ok isLength
  have width : length.length = encryptedLengthLen := by
    rw [bytes, Aead.length_sealed, U16.length_toBeBytes]
    rfl
  refine (safe_assert width).bind fun _ _ => (safe_sealFrame _ _ _ _).bind ?_
  rintro ⟨last, scratch⟩ -
  exact (safe_failIf _ _).bind fun _ _ => safe_ok _

theorem EncodedChunk.nonempty {cipher : Aead} {nonce : NonceCounter} {payload wire : List UInt8} {sealer : TcpSealer}
    (encoded : EncodedChunk cipher nonce payload sealer wire) : wire ≠ [] := by
  obtain ⟨payloadLen, next, -, -, -, bytes⟩ := encoded.parts
  apply ne_nil_of_length_pos
  rw [bytes, length_append, Aead.length_sealed, U16.length_toBeBytes]
  omega

def Poll.accepted : Poll Nat → Nat
  | .ready (.ok accepted) => accepted
  | .pending | .ready (.error _) => 0

namespace Sending

/-- What a write on an open sending side leaves: it accepts nothing, or it seals and stages what
it accepts. -/
def Wrote (sealer after : TcpSealer) (source added : List UInt8) (accepted : Nat) (lengthPrimitive payloadPrimitive : Primitive) :
    Prop :=
  accepted = 0 ∧ added = [] ∧ after = sealer ∨
    ∃ chunk, chunk <+: source ∧ chunk ≠ [] ∧ accepted = chunk.length ∧
      sealDataChunkInto sealer chunk lengthPrimitive payloadPrimitive = .ok (after, added)

variable {before now : Sending} {calls : List TransportCall}

theorem advanced_refl (sound : before.Sound) : Advanced before before [] [] where
  tx := .inl
  txClosed := id
  sent := nil_prefix
  silent := rfl
  alive _ := ⟨sound, by rw [append_nil]; rfl⟩
  whole := .inl
  closed _ := rfl
  unanswered later := ⟨later, rfl⟩
  lifecycle _ := .inl rfl

theorem advanced_of_whole {last : List TransportCall} (tx : now.tx = before.tx) (lifecycle : now.lifecycle = before.lifecycle)
    (nothing : now.staged = none) (whole : sentBytes calls = before.pending) (silent : receivedBytes calls = [])
    (lastSent : sentBytes last = []) (lastSilent : receivedBytes last = []) : Advanced before now (calls ++ last) [] where
  tx later := .inl (tx ▸ later)
  txClosed closed := by rwa [lifecycle]
  sent := by
    simp only [sentBytes_append, lastSent, append_nil, whole, prefix_rfl]
  silent := by
    rw [receivedBytes_append, silent, lastSilent]
    rfl
  whole _ := .inr (by rw [sentBytes_append, lastSent, append_nil, whole])
  closed _ := rfl
  unanswered later := ⟨tx ▸ later, rfl⟩
  lifecycle _ := .inl lifecycle
  alive _ := by
    constructor
    · intro current staged
      rw [nothing] at staged
      cases staged
    · rw [sentBytes_append, lastSent, pending, nothing, append_nil, append_nil, append_nil]
      exact whole

theorem stageChunk_advanced (fresh : now.lifecycle.terminal = none) (sameTx : now.tx = before.tx)
    (sameLifecycle : now.lifecycle = before.lifecycle) (unclosed : ¬before.lifecycle.txClosed)
    (whole : sentBytes calls = before.pending) (silent : receivedBytes calls = []) (sealer : TcpSealer)
    (tx : TxState) (answered : tx ≠ .responsePending) {source : List UInt8} (nonempty : source ≠ [])
    (lengthPrimitive payloadPrimitive : Primitive) :
    ∃ polled added, stageChunk sealer now tx (source.take maxEncodePayloadLen) lengthPrimitive payloadPrimitive = some polled ∧
      Advanced before polled.state.2 (calls ++ polled.calls) added ∧
      Wrote sealer polled.state.1 source added polled.poll.accepted lengthPrimitive payloadPrimitive := by
  have chunkNonempty : source.take maxEncodePayloadLen ≠ [] := by
    intro empty
    rcases take_eq_nil_iff.mp empty with zero | empty
    · exact absurd zero (by decide)
    · exact nonempty empty
  unfold stageChunk
  rcases protocolCipherBoundary_cases fresh (safe_sealDataChunkInto sealer (source.take maxEncodePayloadLen) lengthPrimitive
      payloadPrimitive) with ⟨⟨after, wire⟩, isSealed, boundary⟩ | ⟨after, error, recorded, sameClosed, -, boundary⟩
  · rw [boundary]
    have addedNonempty : wire ≠ [] := (sealDataChunkInto_eq_ok isSealed).nonempty
    refine ⟨_, wire, rfl, ⟨fun _ => .inr (.inr addedNonempty), ?_, ?_, ?_, fun _ => ⟨?_, ?_⟩, ?_, ?_,
      fun later => absurd later answered, fun _ => .inl sameLifecycle⟩, ?_⟩
    · intro closed
      simpa only [sameLifecycle] using closed
    · simp only [append_nil, whole, prefix_rfl]
    · rw [append_nil, silent]
    · rintro current ⟨⟩
      exact ⟨Nat.zero_le _, nofun⟩
    · rw [append_nil, whole]
      rfl
    · intro closed
      exact .inl (sameLifecycle ▸ closed)
    · intro closed
      refine absurd ?_ unclosed
      rcases closed with closed | closed
      · exact closed
      · exact sameLifecycle ▸ closed
    · exact .inr ⟨_, take_prefix _ _, chunkNonempty, rfl, isSealed⟩
  · rw [boundary]
    refine ⟨_, [], rfl, ⟨?_, ?_, ?_, ?_, ?_, ?_, fun _ => rfl, fun later => ⟨sameTx ▸ later, rfl⟩, ?_⟩,
      .inl ⟨rfl, rfl, rfl⟩⟩
    · intro later
      exact .inl (sameTx ▸ later)
    · intro closed
      exact sameClosed.trans (sameLifecycle ▸ closed)
    · simp only [append_nil, whole, prefix_rfl]
    · rw [append_nil, silent]
    · intro alive
      rw [recorded] at alive
      cases alive
    · intro closed
      exact .inl (sameLifecycle ▸ sameClosed ▸ closed)
    · intro alive
      rw [recorded] at alive
      cases alive

variable {sending : Sending}

theorem drainThen_left {σ α : Type} (fresh : sending.lifecycle.terminal = none) (sound : sending.Sound)
    (answers : List WriteAnswer) (after : Sending → σ) (operation : Sending → Option (Polled σ α))
    (left : σ → List TransportCall → Poll α → Prop)
    (stops : ∀ now calls poll, Advanced sending now calls [] → (∀ value, poll ≠ .ready (.ok value)) → left (after now) calls poll)
    (goesOn : ∀ now calls, now.tx = sending.tx → now.lifecycle = sending.lifecycle → now.staged = none →
      sentBytes calls = sending.pending → receivedBytes calls = [] →
      ∃ polled, operation now = some polled ∧ left polled.state (calls ++ polled.calls) polled.poll) :
    ∃ polled, drainThen sending answers after operation = some polled ∧ left polled.state polled.calls polled.poll := by
  rcases drainThen_cases fresh sound answers after operation with
    ⟨now, calls, poll, run, stopped⟩ | ⟨now, calls, tx, lifecycle, nothing, whole, silent, run⟩
  · refine ⟨_, run, ?_⟩
    rcases stopped with ⟨rfl, drained⟩ | ⟨error, rfl, drained⟩
    · exact stops now calls _ drained.advanced nofun
    · exact stops now calls _ drained.advanced nofun
  · obtain ⟨polled, done, holds⟩ := goesOn now calls tx lifecycle nothing whole silent
    exact ⟨{ polled with calls := calls ++ polled.calls }, by rw [run, done]; rfl, holds⟩

theorem accepted_of_ne {poll : Poll Nat} (refused : ∀ value, poll ≠ .ready (.ok value)) : poll.accepted = 0 := by
  rcases poll with _ | ⟨error | value⟩
  · rfl
  · rfl
  · exact absurd rfl (refused value)

section

variable (alive : sending.lifecycle.fatalError = none)
include alive

theorem pollWriteOpen_advanced (sound : sending.Sound)
    (sealer : TcpSealer) (source : List UInt8) (answers : List WriteAnswer) (lengthPrimitive payloadPrimitive : Primitive) :
    ∃ polled added, pollWriteOpen sealer sending source answers lengthPrimitive payloadPrimitive = some polled ∧
      Advanced sending polled.state.2 polled.calls added ∧
      Wrote sealer polled.state.1 source added polled.poll.accepted lengthPrimitive payloadPrimitive := by
  unfold pollWriteOpen
  rw [alive]
  simp only
  by_cases empty : source = []
  · rw [if_pos empty]
    exact ⟨_, [], rfl, advanced_refl sound, .inl ⟨rfl, rfl, rfl⟩⟩
  rw [if_neg empty]
  by_cases normal : sending.lifecycle.terminal = some .normal
  · rw [if_pos normal]
    exact ⟨_, [], rfl, advanced_refl sound, .inl ⟨rfl, rfl, rfl⟩⟩
  rw [if_neg normal]
  have fresh := Lifecycle.terminal_of_fatalError alive normal
  by_cases closed : sending.lifecycle.txClosed
  · rw [if_pos closed]
    obtain ⟨error, after, -, -, run, advanced⟩ := failed_advanced Nat [] [] fresh (.transport .write) nofun
      rfl rfl nil_prefix rfl
    exact ⟨_, [], by rw [Lifecycle.installTransport, run]; rfl, advanced, .inl ⟨rfl, rfl, rfl⟩⟩
  rw [if_neg closed]
  obtain ⟨polled, run, added, advanced, wrote⟩ := drainThen_left fresh sound answers (fun after => (sealer, after))
    (fun now => stageChunk sealer now .sending (source.take maxEncodePayloadLen) lengthPrimitive payloadPrimitive)
    (fun state calls poll => ∃ added, Advanced sending state.2 calls added ∧
      Wrote sealer state.1 source added poll.accepted lengthPrimitive payloadPrimitive)
    (fun _ _ _ advanced refused => ⟨[], advanced, .inl ⟨accepted_of_ne refused, rfl, rfl⟩⟩)
    (fun now calls tx lifecycle _ whole silent => by
      obtain ⟨polled, added, staged, advanced, wrote⟩ := stageChunk_advanced (lifecycle ▸ fresh) tx lifecycle
        closed whole silent sealer .sending nofun empty lengthPrimitive payloadPrimitive
      exact ⟨polled, staged, added, advanced, wrote⟩)
  exact ⟨polled, added, run, advanced, wrote⟩

theorem pollFlush_advanced (sound : sending.Sound) (answers : List WriteAnswer) (close : CloseAnswer) :
    ∃ polled, pollFlush sending answers close = some polled ∧ Advanced sending polled.state polled.calls [] := by
  unfold pollFlush
  rw [alive]
  simp only
  by_cases done : sending.lifecycle.terminal = some .normal ∨ sending.lifecycle.txClosed
  · rw [if_pos done]
    exact ⟨_, rfl, advanced_refl sound⟩
  rw [if_neg done]
  have fresh := Lifecycle.terminal_of_fatalError alive (not_or.mp done).1
  refine drainThen_left fresh sound answers id _ (fun state calls _ => Advanced sending state calls [])
    (fun _ _ _ advanced _ => advanced) ?_
  intro now calls tx lifecycle nothing whole silent
  split
  · exact ⟨_, rfl, advanced_of_whole tx lifecycle nothing whole silent rfl rfl⟩
  · cases close with
    | pending | done => exact ⟨_, rfl, advanced_of_whole tx lifecycle nothing whole silent rfl rfl⟩
    | failed =>
      obtain ⟨error, after, -, -, run, advanced⟩ := failed_advanced Unit calls [.flush .failed]
        (lifecycle ▸ fresh) (.transport .flush) nofun tx
        (congrArg Lifecycle.txClosed lifecycle) (by rw [sentBytes_append, whole]; exact (append_nil _) ▸ prefix_rfl)
        (by rw [receivedBytes_append, silent]; rfl)
      exact ⟨_, by rw [Lifecycle.installTransport, run]; rfl, advanced⟩

theorem pollShutdown_advanced (sound : sending.Sound) (answers : List WriteAnswer) (close : CloseAnswer) :
    ∃ polled, pollShutdown sending answers close = some polled ∧ Advanced sending polled.state polled.calls [] ∧
      (polled.poll = .ready (.ok ()) →
        polled.state.lifecycle.terminal = some .normal ∨ polled.state.lifecycle.txClosed) := by
  unfold pollShutdown
  rw [alive]
  simp only
  by_cases done : sending.lifecycle.terminal = some .normal ∨ sending.lifecycle.txClosed
  · rw [if_pos done]
    exact ⟨_, rfl, advanced_refl sound, fun _ => done⟩
  rw [if_neg done]
  have fresh := Lifecycle.terminal_of_fatalError alive (not_or.mp done).1
  refine drainThen_left fresh sound answers id _ (fun state calls poll => Advanced sending state calls [] ∧
    (poll = .ready (.ok ()) → state.lifecycle.terminal = some .normal ∨ state.lifecycle.txClosed))
    (fun _ _ _ advanced refused => ⟨advanced, fun shown => absurd shown (refused ())⟩) ?_
  intro now calls tx lifecycle nothing whole silent
  cases close with
  | pending => exact ⟨_, rfl, advanced_of_whole tx lifecycle nothing whole silent rfl rfl, nofun⟩
  | done =>
    have closed : now.lifecycle.closeTx.txClosed = true := Lifecycle.closeTx_txClosed (lifecycle ▸ fresh)
    have same : Advanced sending now (calls ++ [.shutdown .done]) [] :=
      advanced_of_whole tx lifecycle nothing whole silent rfl rfl
    have sameAlive := same.alive (Lifecycle.fatalError_of_none (lifecycle ▸ fresh))
    exact ⟨_, rfl, ⟨fun _ => .inr (.inl closed), fun _ => closed, same.sent, same.silent, fun _ => sameAlive,
      fun _ => .inr (by rw [sentBytes_append, whole]; exact append_nil _), fun _ => rfl,
      nofun, fun _ => .inr (by rw [← lifecycle])⟩, fun _ => .inr closed⟩
  | failed =>
    obtain ⟨error, after, -, -, run, advanced⟩ := failed_advanced Unit calls [.shutdown .failed]
      (lifecycle ▸ fresh) (.transport .shutdown) nofun tx
      (congrArg Lifecycle.txClosed lifecycle) (by rw [sentBytes_append, whole]; exact (append_nil _) ▸ prefix_rfl)
      (by rw [receivedBytes_append, silent]; rfl)
    refine ⟨_, by rw [Lifecycle.installTransport, run]; rfl, advanced, ?_⟩
    intro shown
    cases shown

end

end Sending

end Ferrum.Shadowsocks
