import Ferrum.Rocom.DecoderExact
import Ferrum.Rocom.TrackerBytes

namespace Ferrum.Rocom

open Option List

/-- The two framers of one direction are at the same place; `begun` are the offsets of the decoder's messages. -/
structure Agrees (begun : List Nat) (tracker : TrackerStream) (framing : Framing) : Prop where
  stopped : tracker.stopped = framing.stopped
  starts : begun = tracker.starts ++ if framing.stopped then [tracker.offset] else []
  offset : framing.stopped = false → tracker.offset = framing.offset
  header : framing.stopped = false → tracker.header = framing.header
  position : framing.stopped = false → tracker.position = framing.buffer.length
  pending : framing.stopped = false → tracker.observed = false → tracker.pending = framing.buffer
  observed : framing.stopped = false → ∀ header, framing.header = some header →
    tracker.observed = (framing.observed || !header.handshake)

theorem agrees_new : Agrees [] TrackerStream.new Framing.new :=
  ⟨rfl, rfl, fun _ => rfl, fun _ => rfl, fun _ => rfl, fun _ _ => rfl, fun _ _ known => by cases known⟩

/-- What a step of both leads to. -/
structure Together (begun : List Nat) (tracked : Tracked) (settled : Framing.Settled) : Prop where
  agrees : Agrees (begun ++ settled.emission.toList.map Emission.streamOffset) tracked.stream settled.framing
  keys : tracked.keys = settled.keys
  seen : tracked.output = settled.seen

/-- An observed packet of both, up to its end. -/
structure Paired (begun : List Nat) (tracker : TrackerStream) (framing : Framing) (header : Header) : Prop where
  running : framing.stopped = false
  running' : tracker.stopped = false
  starts : begun = tracker.starts
  offset : tracker.offset = framing.offset
  known : framing.header = some header
  known' : tracker.header = some header
  position : tracker.position = framing.buffer.length

variable {providers : Providers} {begun : List Nat} {tracker : TrackerStream} {framing : Framing} {direction : Direction}
  {header : Header}

section

variable (paired : Paired begun tracker framing header)
include paired

theorem Paired.agrees (pending : tracker.observed = false → tracker.pending = framing.buffer)
    (observed : tracker.observed = (framing.observed || !header.handshake)) : Agrees begun tracker framing := by
  refine ⟨by rw [paired.running, paired.running'], ?_, fun _ => paired.offset, fun _ => by rw [paired.known, paired.known'],
    fun _ => paired.position, fun _ => pending, fun _ other found => ?_⟩
  · rw [paired.running, if_neg Bool.false_ne_true, append_nil]
    exact paired.starts
  · rw [paired.known] at found
    cases found
    exact observed

theorem Paired.complete (noted : tracker.observed = true)
    (cleared : tracker.pending = []) (due : framing.observed = true ∨ header.handshake = false) (keys : KeyState)
    (seen : List KeySnapshot) :
    Together begun ⟨tracker.complete header, keys, seen⟩ (framing.complete providers direction header keys seen) := by
  unfold TrackerStream.complete Framing.complete
  by_cases full : framing.buffer.length = header.total
  · rw [if_pos full, paired.position, if_pos full]
    refine ⟨⟨by rw [paired.running']; exact paired.running.symm, ?_, fun _ => ?_, fun _ => rfl, fun _ => rfl,
      fun _ _ => cleared, fun _ other found => by cases found⟩, rfl, rfl⟩
    · simp only [paired.running, Bool.false_eq_true, if_false, append_nil, toList_some, map_cons, map_nil,
        paired.starts, paired.offset]
    · simp only [paired.offset]
  · rw [if_neg full, paired.position, if_neg full]
    refine ⟨?_, rfl, rfl⟩
    simp only [toList_none, map_nil, append_nil]
    refine paired.agrees (fun unseen => absurd (noted.symm.trans unseen) (by decide)) ?_
    rcases due with observed | other
    · rw [noted, observed]
      rfl
    · rw [noted, other, Bool.not_false, Bool.or_true]

theorem Paired.inspect
    (pending : tracker.observed = false → tracker.pending = framing.buffer) (cleared : tracker.observed = true → tracker.pending = [])
    (started : headerLen ≤ framing.buffer.length) (same : header.handshake = true → tracker.observed = framing.observed)
    (late : framing.observed = true → header.evidence ≤ framing.buffer.length) (keys : KeyState) :
    Together begun (tracker.inspect direction header keys) (framing.inspect providers direction header keys) := by
  have short := header.evidence_le_total
  cases handshake : header.handshake with
  | false =>
    have reached : ¬tracker.position < TrackerStream.wanted header := by
      rw [paired.position, TrackerStream.wanted, handshake, if_neg Bool.false_ne_true]
      omega
    have unseen := KeyState.observe_of_not_handshake
    have note : ∃ noted : TrackerStream, tracker.note direction header keys = (noted, keys, []) ∧
        Paired begun noted framing header ∧ noted.observed = true ∧ noted.pending = [] := by
      unfold TrackerStream.note
      cases seen : tracker.observed with
      | true => exact ⟨tracker, by rw [if_pos rfl], paired, seen, cleared seen⟩
      | false =>
        refine ⟨{ tracker with observed := true, pending := [] }, ?_, ⟨paired.running, paired.running', paired.starts,
          paired.offset, paired.known, paired.known', paired.position⟩, rfl, rfl⟩
        rw [if_neg Bool.false_ne_true, unseen _ _ _ handshake]
        rfl
    obtain ⟨noted, noting, paired', observed, empty⟩ := note
    rw [TrackerStream.inspect, if_neg reached, noting]
    dsimp only
    unfold Framing.inspect
    by_cases due : (!framing.observed) = true ∧ header.evidence ≤ framing.buffer.length
    · rw [if_pos due, unseen _ _ _ handshake, handshake]
      simp only [Bool.false_eq_true, if_false]
      exact @Paired.complete providers begun noted { framing with observed := true, packetKeys := framing.packetKeys }
        direction header ⟨paired'.running, paired'.running', paired'.starts, paired'.offset, paired'.known, paired'.known', paired'.position⟩
        observed empty (.inl rfl) keys []
    · rw [if_neg due]
      exact paired'.complete observed empty (.inr handshake) keys []
  | true =>
    have wanted : TrackerStream.wanted header = header.evidence := by
      rw [TrackerStream.wanted, handshake, if_pos rfl]
    unfold TrackerStream.inspect Framing.inspect
    rw [paired.position, wanted]
    by_cases less : framing.buffer.length < header.evidence
    · have unseen : framing.observed = false := by
        by_contra seen
        have long := late (by simpa using seen)
        omega
      rw [if_pos less, if_neg (by omega), Framing.complete, if_neg (by omega)]
      refine ⟨?_, rfl, rfl⟩
      simp only [toList_none, map_nil, append_nil]
      exact paired.agrees pending (by rw [same handshake, unseen, handshake]; rfl)
    · rw [if_neg less]
      have equal := same handshake
      unfold TrackerStream.note
      cases seen : framing.observed with
      | true =>
        rw [seen] at equal
        rw [equal, if_pos rfl, if_neg (by simp)]
        exact paired.complete equal (cleared equal) (.inl seen) keys []
      | false =>
        rw [seen] at equal
        rw [equal, if_neg Bool.false_ne_true, if_pos ⟨rfl, by omega⟩, handshake, pending equal, paired.offset]
        simp only [if_true]
        exact @Paired.complete providers begun { tracker with observed := true, pending := [], offset := framing.offset }
          { framing with
            observed := true
            packetKeys := some (keys.observe direction framing.offset header (framing.buffer.drop headerLen)).1 }
          direction header ⟨paired.running, paired.running', paired.starts, rfl, paired.known, paired.known', paired.position⟩
          rfl rfl (.inl rfl) _ _

end

theorem Framing.inspect_self (known : framing.header = some header) (room : framing.buffer.length < framing.target)
    (keys : KeyState) : framing.inspect providers direction header keys = ⟨framing, keys, [], none⟩ := by
  have short := header.evidence_le_total
  rw [target, known] at room
  unfold Framing.inspect
  cases seen : framing.observed with
  | true =>
    simp only [seen, if_true] at room
    rw [if_neg (by simp), complete, if_neg (by omega)]
  | false =>
    simp only [seen, Bool.false_eq_true, if_false] at room
    rw [if_neg (by omega), complete, if_neg (by omega)]

theorem byte_known (running : framing.stopped = false) (known : framing.header = some header) (keys : KeyState) (one : UInt8) :
    framing.byte providers direction keys one =
      (Framing.inspect providers { framing with buffer := framing.buffer ++ [one] } direction header keys).bytewise := by
  unfold Framing.byte
  rw [if_neg (by rw [running]; exact Bool.false_ne_true)]
  dsimp only
  by_cases less : (framing.buffer ++ [one]).length < framing.target
  · rw [if_pos less, @Framing.inspect_self providers { framing with buffer := framing.buffer ++ [one] } direction header known less]
    rfl
  · rw [if_neg less, Framing.settle]
    dsimp only
    rw [known]

theorem tracker_byte_known (sound : tracker.Sound) (running : tracker.stopped = false) (known : tracker.header = some header)
    (keys : KeyState) (one : UInt8) : tracker.byte direction keys one = (tracker.filled [one]).inspect direction header keys := by
  have after := @TrackerStream.Sound.byte _ direction keys sound one
  unfold TrackerStream.byte at after ⊢
  rw [if_neg (by rw [running]; exact Bool.false_ne_true)] at after ⊢
  dsimp only at after ⊢
  by_cases less : (tracker.filled [one]).position < tracker.target
  · rw [if_pos less] at after ⊢
    exact (after.inspect_self running known).symm
  · rw [if_neg less, TrackerStream.settle, show (tracker.filled [one]).header = tracker.header from rfl, known]

/-- What bytes of both lead to. -/
structure Abreast (begun : List Nat) (tracked : Tracked) (done : Bytewise) : Prop where
  agrees : Agrees (begun ++ done.emissions.map Emission.streamOffset) tracked.stream done.framing
  keys : tracked.keys = done.keys
  seen : tracked.output = done.seen

theorem Together.abreast {tracked : Tracked} {settled : Framing.Settled} (together : Together begun tracked settled) :
    Abreast begun tracked settled.bytewise := ⟨together.agrees, together.keys, together.seen⟩

/-- What the decoder's framing knows of a handshake that it has observed. -/
def Framing.Late (framing : Framing) : Prop :=
  framing.stopped = false → ∀ header, framing.header = some header →
    headerLen ≤ framing.buffer.length ∧ (framing.observed = true → header.evidence ≤ framing.buffer.length)

theorem Agrees.byte (agrees : Agrees begun tracker framing) (sound : tracker.Sound) (sound' : framing.Sound)
    (late : framing.Late) (keys : KeyState) (one : UInt8) :
    Abreast begun (tracker.byte direction keys one) (framing.byte providers direction keys one) := by
  by_cases halted : framing.stopped = true
  · have halted' : tracker.stopped = true := agrees.stopped.trans halted
    unfold TrackerStream.byte Framing.byte
    rw [if_pos halted, if_pos halted']
    refine ⟨⟨agrees.stopped, by simpa using agrees.starts, ?_, ?_, ?_, ?_, ?_⟩, rfl, rfl⟩
    all_goals
      intro running
      exact absurd (halted.symm.trans running) (by decide)
  have running : framing.stopped = false := by simpa using halted
  have running' : tracker.stopped = false := agrees.stopped.trans running
  have starts : begun = tracker.starts := by
    have all := agrees.starts
    rw [running, if_neg Bool.false_ne_true, append_nil] at all
    exact all
  have position := agrees.position running
  cases known : framing.header with
  | some header =>
    have known' : tracker.header = some header := (agrees.header running).trans known
    obtain ⟨long, observed⟩ := late running header known
    have relation := agrees.observed running header known
    rw [byte_known running known, tracker_byte_known sound running' known']
    refine (@Paired.inspect providers begun (tracker.filled [one]) { framing with buffer := framing.buffer ++ [one] } direction header
      ⟨running, running', starts, agrees.offset running, known, known', ?_⟩ ?_ ?_ ?_ ?_ ?_ keys).abreast
    · simp [TrackerStream.filled, position]
    · intro unseen
      have before : tracker.observed = false := unseen
      simp only [TrackerStream.filled, before, Bool.false_eq_true, if_false, agrees.pending running before]
    · intro seen
      have before : tracker.observed = true := seen
      simp only [TrackerStream.filled, before, if_true, sound.cleared before]
    · simp only [length_append, length_singleton]
      omega
    · intro handshake
      rw [handshake, Bool.not_true, Bool.or_false] at relation
      exact relation
    · intro seen
      simp only [length_append, length_singleton]
      have early := observed seen
      omega
  | none =>
    have known' : tracker.header = none := (agrees.header running).trans known
    have unseen := sound'.fresh running known
    have unseen' := sound.fresh known'
    have target : framing.target = headerLen := by rw [Framing.target, known]
    have target' : tracker.target = headerLen := by rw [TrackerStream.target, known']
    have bytes := agrees.pending running unseen'
    have filled : tracker.filled [one] =
        { tracker with pending := framing.buffer ++ [one], position := framing.buffer.length + 1 } := by
      simp only [TrackerStream.filled, unseen', Bool.false_eq_true, if_false, bytes, position, length_singleton]
    unfold TrackerStream.byte Framing.byte
    rw [if_neg halted, if_neg (by rw [running']; exact Bool.false_ne_true)]
    dsimp only
    rw [target, target', filled, length_append, length_singleton]
    by_cases less : framing.buffer.length + 1 < headerLen
    · rw [if_pos less, if_pos less]
      refine ⟨?_, rfl, rfl⟩
      rw [map_nil, append_nil]
      refine ⟨agrees.stopped, agrees.starts, fun _ => agrees.offset running, fun _ => agrees.header running, fun _ => ?_,
        fun _ _ => rfl, fun _ other found => ?_⟩
      · rw [length_append, length_singleton]
      · exact absurd (known.symm.trans found) (by simp)
    · rw [if_neg less, if_neg less]
      have room := sound'.room running
      rw [target] at room
      refine Together.abreast ?_
      unfold TrackerStream.settle Framing.settle
      simp only [known, known']
      cases parsed : Header.parse (framing.buffer ++ [one]) with
      | error code =>
        refine ⟨⟨rfl, ?_, ?_, ?_, ?_, ?_, ?_⟩, rfl, rfl⟩
        · simp [starts, agrees.offset running]
        all_goals
          intro running
          cases running
      | ok header =>
        dsimp only
        refine @Paired.inspect providers begun { tracker with
            pending := framing.buffer ++ [one], position := framing.buffer.length + 1, header := some header }
          { framing with
            buffer := framing.buffer ++ [one], header := some header
            packetKeys := if header.handshake then framing.packetKeys else some keys }
          direction header ⟨running, running', starts, agrees.offset running, rfl, rfl, ?_⟩ (fun _ => rfl) ?_ ?_ ?_ ?_ keys
        · simp
        · intro seen
          exact absurd (unseen'.symm.trans seen) (by decide)
        · simp only [length_append, length_singleton]
          omega
        · intro _
          exact unseen'.trans unseen.symm
        · intro seen
          exact absurd (unseen.symm.trans seen) (by decide)

namespace Framing

theorem late_inspect (known : framing.header = some header)
    (long : headerLen ≤ framing.buffer.length) (seen : framing.observed = true → header.evidence ≤ framing.buffer.length)
    (keys : KeyState) : (framing.inspect providers direction header keys).framing.Late := by
  have complete : ∀ (framing : Framing) (keys : KeyState) (output : List KeySnapshot), framing.header = some header →
      headerLen ≤ framing.buffer.length → (framing.observed = true → header.evidence ≤ framing.buffer.length) →
      (framing.complete providers direction header keys output).framing.Late := by
    intro framing keys output known long seen
    unfold Framing.complete
    split
    · exact fun _ other found => by cases found
    · intro _ other found
      rw [known] at found
      cases found
      exact ⟨long, seen⟩
  unfold Framing.inspect
  by_cases due : (!framing.observed) = true ∧ header.evidence ≤ framing.buffer.length
  · rw [if_pos due]
    exact complete { framing with
      observed := true
      packetKeys := if header.handshake then
        some (keys.observe direction framing.offset header (framing.buffer.drop headerLen)).1 else framing.packetKeys }
      _ _ known long fun _ => due.2
  · rw [if_neg due]
    exact complete framing keys [] known long seen

theorem Late.byte (late : framing.Late) (sound : framing.Sound) (keys : KeyState) (one : UInt8) :
    (framing.byte providers direction keys one).framing.Late := by
  by_cases halted : framing.stopped = true
  · unfold Framing.byte
    rw [if_pos halted]
    intro running
    exact absurd (halted.symm.trans running) (by decide)
  have running : framing.stopped = false := by simpa using halted
  cases known : framing.header with
  | some header =>
    obtain ⟨long, seen⟩ := late running header known
    rw [byte_known running known]
    refine @late_inspect providers { framing with buffer := framing.buffer ++ [one] } direction header known ?_ (fun observed => ?_) keys
    · rw [length_append]
      omega
    · have early := seen observed
      rw [length_append]
      omega
  | none =>
    have room := sound.room running
    have target : framing.target = headerLen := by rw [Framing.target, known]
    unfold Framing.byte
    rw [if_neg halted]
    dsimp only
    rw [target, length_append, length_singleton]
    by_cases less : framing.buffer.length + 1 < headerLen
    · rw [if_pos less]
      exact fun _ other found => absurd (known.symm.trans found) (by simp)
    · rw [if_neg less]
      unfold Framing.settle
      simp only [known]
      cases parsed : Header.parse (framing.buffer ++ [one]) with
      | error code => exact fun running => by cases running
      | ok header =>
        refine @late_inspect providers { framing with
          buffer := framing.buffer ++ [one], header := some header
          packetKeys := if header.handshake then framing.packetKeys else some keys } direction header
          rfl ?_ (fun observed => ?_) keys
        · simp only [length_append, length_singleton]
          omega
        · exact absurd ((sound.fresh running known).symm.trans observed) (by decide)

theorem Late.bytes (late : framing.Late) (sound : framing.Sound) (keys : KeyState) (input : List UInt8) :
    (framing.bytes providers direction keys input).framing.Late := by
  induction input generalizing framing keys with
  | nil => exact late
  | cons one rest ih => exact ih (late.byte sound keys one) (sound.byte keys one) _

end Framing

theorem Agrees.bytes (agrees : Agrees begun tracker framing) (sound : tracker.Sound) (sound' : framing.Sound)
    (late : framing.Late) (keys : KeyState) (input : List UInt8) :
    Abreast begun (tracker.bytes direction keys input) (framing.bytes providers direction keys input) := by
  induction input generalizing begun tracker framing keys with
  | nil => exact ⟨by simpa [TrackerStream.bytes, Framing.bytes] using agrees, rfl, rfl⟩
  | cons one rest ih =>
    have first := @Agrees.byte providers begun tracker framing direction agrees sound sound' late keys one
    have second := ih first.agrees (sound.byte one) (sound'.byte keys one) (late.byte sound' keys one)
      (framing.byte providers direction keys one).keys
    refine ⟨?_, ?_, ?_⟩
    · simp only [TrackerStream.bytes, Framing.bytes, Tracked.join, Bytewise.join, map_append, first.keys]
      rw [← append_assoc]
      exact second.agrees
    · simp only [TrackerStream.bytes, Framing.bytes, Tracked.join, Bytewise.join, first.keys]
      exact second.keys
    · simp only [TrackerStream.bytes, Framing.bytes, Tracked.join, Bytewise.join, first.keys, first.seen]
      rw [second.seen]

/-- Both framers of a connection, side by side, with all that they have returned. -/
structure Framers where
  tracker : KeyTracker
  streams : Sides Stream
  keys : KeyState
  snapshots : List KeySnapshot
  seen : List KeySnapshot
  messages : List Message
  integrityErrors : Nat

namespace Framers

def new : Framers := ⟨.new, .both .new, .new, [], [], [], 0⟩

/-- A chunk of one direction for both. -/
def chunk (providers : Providers) (framers : Framers) (one : Context × List UInt8) : Framers :=
  let tracked := framers.tracker.observe one.1.direction one.2
  let fed := (framers.streams.get one.1.direction).feed providers one.1 framers.keys one.2
  { tracker := tracked.2, streams := framers.streams.set one.1.direction fed.stream, keys := fed.keys
    snapshots := framers.snapshots ++ tracked.1, seen := framers.seen ++ fed.seen, messages := framers.messages ++ fed.messages
    integrityErrors := framers.integrityErrors + fed.integrityErrors }

def run (providers : Providers) (framers : Framers) (chunks : List (Context × List UInt8)) : Framers :=
  chunks.foldl (chunk providers) framers

/-- The offsets at which the packets of a direction begin, as the decoder's messages give them. -/
def packetStarts (messages : List Message) (direction : Direction) : List Nat :=
  ((Replay.framed messages).filter fun emission => emission.direction = direction).map Emission.streamOffset

/-- The framers are together in both directions. -/
structure Level (framers : Framers) : Prop where
  keys : framers.tracker.keys = framers.keys
  snapshots : framers.snapshots = framers.seen
  agrees : ∀ direction, Agrees (packetStarts framers.messages direction) (framers.tracker.stream direction)
    (framers.streams.get direction).toFraming
  sound : ∀ direction, (framers.tracker.stream direction).Sound
  sound' : ∀ direction, (framers.streams.get direction).Sound
  late : ∀ direction, (framers.streams.get direction).toFraming.Late

theorem level_new : Level new := by
  refine ⟨rfl, rfl, ?_, ?_, ?_, ?_⟩
  all_goals
    intro direction
    cases direction
  · exact agrees_new
  · exact agrees_new
  · exact TrackerStream.sound_new
  · exact TrackerStream.sound_new
  · exact Framing.sound_new
  · exact Framing.sound_new
  · exact fun _ header known => by cases known
  · exact fun _ header known => by cases known

theorem tracker_stream (tracker : KeyTracker) (direction other : Direction) (bytes : List UInt8) :
    (tracker.observe direction bytes).2.stream other =
      if other = direction then ((tracker.stream direction).observe direction bytes tracker.keys).1 else tracker.stream other := by
  cases direction <;> cases other <;> rfl

theorem tracker_keys (tracker : KeyTracker) (direction : Direction) (bytes : List UInt8) :
    (tracker.observe direction bytes).2.keys = ((tracker.stream direction).observe direction bytes tracker.keys).2.1 := by
  cases direction <;> rfl

theorem emissions_direction (keys : KeyState) (input : List UInt8) :
    ∀ emission ∈ (framing.bytes providers direction keys input).emissions, emission.direction = direction := by
  induction input generalizing framing keys with
  | nil => exact fun emission listed => by cases listed
  | cons one rest ih =>
    intro emission listed
    rcases mem_append.mp listed with first | later
    · unfold Framing.byte at first
      split at first
      · cases first
      · dsimp only at first
        split at first
        · cases first
        · rcases @Framing.emits_settle providers { framing with buffer := framing.buffer ++ [one] } direction keys with
            ⟨none, -⟩ | ⟨found, some', direct, -⟩
          · simp only [Framing.Settled.bytewise] at first
            rw [none] at first
            cases first
          · simp only [Framing.Settled.bytewise] at first
            rw [some', toList_some, mem_singleton] at first
            rw [first, direct]
    · exact ih _ emission later

theorem Level.chunk {framers : Framers} (level : framers.Level) {one : Context × List UInt8}
    (unlimited : ((framers.streams.get one.1.direction).feed providers one.1 framers.keys one.2).integrityErrors = 0) :
    (framers.chunk providers one).Level := by
  obtain ⟨context, input⟩ := one
  have follows := Stream.follows_feed (level.sound' context.direction) framers.keys input unlimited
  have observed := @TrackerStream.observe_bytes _ context.direction framers.tracker.keys (level.sound context.direction) input
  rw [level.keys] at observed
  have abreast := @Agrees.bytes providers _ _ _ context.direction (level.agrees context.direction)
    (level.sound context.direction) (level.sound' context.direction) (level.late context.direction) framers.keys input
  have direct := @emissions_direction providers (framers.streams.get context.direction).toFraming context.direction framers.keys input
  have unframed := @Framing.bytes_ne_tail providers (framers.streams.get context.direction).toFraming context.direction framers.keys input
  have framed : Replay.framed ((framers.streams.get context.direction).feed providers context framers.keys input).messages =
      ((framers.streams.get context.direction).toFraming.bytes providers context.direction framers.keys input).emissions := by
    unfold Replay.framed
    rw [follows.emissions, filter_append,
      filter_eq_self.mpr fun emission listed => by rw [unframed emission listed]; rfl]
    have tail : (((framers.streams.get context.direction).toFraming.bytes providers context.direction framers.keys
        input).tailEmission context.direction).filter (fun emission => !emission.isTail) = [] := by
      unfold Bytewise.tailEmission
      split
      · rfl
      · simp [Emission.isTail]
    rw [tail, append_nil]
  refine ⟨?_, ?_, ?_, ?_, ?_, ?_⟩
  · simp only [Framers.chunk]
    rw [tracker_keys, level.keys, observed, follows.keys]
    exact abreast.keys
  · simp only [Framers.chunk, KeyTracker.observe]
    rw [level.keys, observed, follows.seen, level.snapshots]
    exact congrArg _ abreast.seen
  · intro direction
    simp only [Framers.chunk, packetStarts, Replay.framed_append, filter_append, map_append, framed]
    rw [tracker_stream]
    by_cases same : direction = context.direction
    · subst same
      have all : ((framers.streams.get context.direction).toFraming.bytes providers context.direction framers.keys
          input).emissions.filter (fun emission => emission.direction = context.direction) =
          ((framers.streams.get context.direction).toFraming.bytes providers context.direction framers.keys input).emissions :=
        filter_eq_self.mpr fun emission listed => by rw [direct emission listed]; exact decide_eq_true rfl
      rw [if_pos rfl, Sides.get_set_self, level.keys, observed, follows.framing, all]
      exact abreast.agrees
    · have none : ((framers.streams.get context.direction).toFraming.bytes providers context.direction framers.keys
          input).emissions.filter (fun emission => emission.direction = direction) = [] := by
        refine filter_eq_nil_iff.mpr fun emission listed => ?_
        rw [direct emission listed, decide_eq_true_eq]
        exact fun equal => same equal.symm
      rw [if_neg same, Sides.get_set_ne _ same, none, map_nil, append_nil]
      exact level.agrees direction
  · intro direction
    simp only [Framers.chunk]
    rw [tracker_stream]
    by_cases same : direction = context.direction
    · subst same
      rw [if_pos rfl, level.keys, observed]
      exact (level.sound context.direction).bytes input
    · rw [if_neg same]
      exact level.sound direction
  · intro direction
    simp only [Framers.chunk]
    by_cases same : direction = context.direction
    · subst same
      rw [Sides.get_set_self]
      exact Stream.sound_feed (level.sound' context.direction) framers.keys input
    · rw [Sides.get_set_ne _ same]
      exact level.sound' direction
  · intro direction
    simp only [Framers.chunk]
    by_cases same : direction = context.direction
    · subst same
      rw [Sides.get_set_self, follows.framing]
      exact (level.late context.direction).bytes (level.sound' context.direction) framers.keys input
    · rw [Sides.get_set_ne _ same]
      exact level.late direction

theorem integrityErrors_le (framers : Framers) (chunks : List (Context × List UInt8)) :
    framers.integrityErrors ≤ (framers.run providers chunks).integrityErrors := by
  induction chunks generalizing framers with
  | nil => exact Nat.le_refl _
  | cons one rest ih => exact Nat.le_trans (Nat.le_add_right _ _) (ih (framers.chunk providers one))

theorem Level.run {framers : Framers} (level : framers.Level) {chunks : List (Context × List UInt8)}
    (unlimited : (framers.run providers chunks).integrityErrors = 0) : (framers.run providers chunks).Level := by
  induction chunks generalizing framers with
  | nil => exact level
  | cons one rest ih =>
    have first := @integrityErrors_le providers (framers.chunk providers one) rest
    have none : (framers.chunk providers one).integrityErrors = 0 := by
      rw [show (framers.run providers (one :: rest)) = (framers.chunk providers one).run providers rest from rfl] at unlimited
      omega
    refine ih (level.chunk ?_) unlimited
    simp only [Framers.chunk] at none
    omega

/-- Whatever chunks both framers get below their buffer limits, they stop the same directions, begin all packets at the same
offsets and observe the same handshakes. -/
theorem framers_agree (providers : Providers) (chunks : List (Context × List UInt8))
    (unlimited : (new.run providers chunks).integrityErrors = 0) :
    (new.run providers chunks).tracker.keys = (new.run providers chunks).keys ∧
      (new.run providers chunks).snapshots = (new.run providers chunks).seen ∧
      ∀ direction,
        ((new.run providers chunks).tracker.stream direction).stopped = ((new.run providers chunks).streams.get direction).stopped ∧
        packetStarts (new.run providers chunks).messages direction =
          ((new.run providers chunks).tracker.stream direction).starts ++
            (if ((new.run providers chunks).tracker.stream direction).stopped then
              [((new.run providers chunks).tracker.stream direction).offset] else []) ∧
        (((new.run providers chunks).streams.get direction).stopped = false →
          ((new.run providers chunks).tracker.stream direction).offset =
            ((new.run providers chunks).streams.get direction).offset) := by
  have level := level_new.run unlimited
  refine ⟨level.keys, level.snapshots, fun direction => ?_⟩
  have agrees := level.agrees direction
  refine ⟨agrees.stopped, ?_, agrees.offset⟩
  rw [agrees.stopped]
  exact agrees.starts

/-- A SYN with two extension bytes, cut behind its header, and then bytes that are no packet. -/
def sampleChunks : List (Context × List UInt8) :=
  [(⟨1, .upload, 3, maxPacket⟩, Replay.synPacket.take 21), (⟨1, .upload, 4, maxPacket⟩, Replay.synPacket.drop 21),
    (⟨1, .download, 5, maxPacket⟩, Replay.zeros 30)]

theorem sampleChunks_agree :
    (new.run Replay.noProviders sampleChunks).snapshots = (new.run Replay.noProviders sampleChunks).seen ∧
      (new.run Replay.noProviders sampleChunks).seen =
        [{ direction := .upload, offset := 0, keyMethod := 2, encMethod := some 3, sourceSequence := 1, keyHex := none }] :=
  ⟨(framers_agree Replay.noProviders sampleChunks (by decide)).2.1, by decide⟩

end Framers

end Ferrum.Rocom
