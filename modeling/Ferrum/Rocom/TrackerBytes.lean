import Ferrum.Rocom.Session

namespace Ferrum.Rocom

open List

/-- What some bytes of one direction lead to in the tracker. -/
structure Tracked where
  stream : TrackerStream
  keys : KeyState
  output : List KeySnapshot

def Tracked.join (first second : Tracked) : Tracked := { second with output := first.output ++ second.output }

namespace TrackerStream

section

variable (stream : TrackerStream)

def target : Nat :=
  match stream.header with
  | none => headerLen
  | some header => if stream.observed then header.total else wanted header

/-- The end of a packet. -/
def complete (header : Header) : TrackerStream :=
  if stream.position = header.total then
    { stream with offset := stream.offset + header.total, position := 0, header := none, observed := false
                  starts := stream.starts ++ [stream.offset] }
  else stream

def inspect (direction : Direction) (header : Header) (keys : KeyState) : Tracked :=
  if stream.position < wanted header then ⟨stream, keys, []⟩
  else
    let noted := stream.note direction header keys
    ⟨noted.1.complete header, noted.2.1, noted.2.2⟩

def settle (direction : Direction) (keys : KeyState) : Tracked :=
  match stream.header with
  | some header => stream.inspect direction header keys
  | none =>
    match Header.parse stream.pending with
    | .ok header => inspect { stream with header := some header } direction header keys
    | .error _ => ⟨{ stream with stopped := true }, keys, []⟩

/-- More bytes; those after the observation are only counted. -/
def filled (taken : List UInt8) : TrackerStream :=
  { stream with
    pending := if stream.observed then stream.pending else stream.pending ++ taken, position := stream.position + taken.length }

@[simp] theorem filled_stopped (taken : List UInt8) : (stream.filled taken).stopped = stream.stopped := rfl

@[simp] theorem filled_target (taken : List UInt8) : (stream.filled taken).target = stream.target := rfl

@[simp] theorem filled_position (taken : List UInt8) :
    (stream.filled taken).position = stream.position + taken.length := rfl

/-- The tracker as a machine that takes one byte at a time. -/
def byte (direction : Direction) (keys : KeyState) (one : UInt8) : Tracked :=
  if stream.stopped then ⟨stream, keys, []⟩
  else
    let filled := stream.filled [one]
    if filled.position < stream.target then ⟨filled, keys, []⟩ else filled.settle direction keys

end

def bytes (stream : TrackerStream) (direction : Direction) (keys : KeyState) : List UInt8 → Tracked
  | [] => ⟨stream, keys, []⟩
  | one :: rest =>
    let first := stream.byte direction keys one
    first.join (first.stream.bytes direction first.keys rest)

/-- The position is short of its target; the bytes before the observation are kept. -/
structure Sound (stream : TrackerStream) : Prop where
  room : stream.stopped = false → stream.position < stream.target
  kept : stream.observed = false → stream.pending.length = stream.position
  cleared : stream.observed = true → stream.pending = []
  fresh : stream.header = none → stream.observed = false
  late : stream.observed = true → ∀ header, stream.header = some header → wanted header ≤ stream.position

theorem sound_new : Sound new :=
  ⟨fun _ => by decide, fun _ => rfl, fun _ => rfl, fun _ => rfl, fun seen => by cases seen⟩

variable {stream : TrackerStream} {direction : Direction} {keys : KeyState}

theorem headerLen_le_wanted (header : Header) : headerLen ≤ wanted header := by
  have long := header.headerLen_le_evidence
  unfold wanted
  split <;> omega

theorem wanted_le_total (header : Header) : wanted header ≤ header.total := by
  have long := header.headerLen_le_evidence
  have short := header.evidence_le_total
  unfold wanted
  split <;> omega

theorem bytes_append (left right : List UInt8) :
    stream.bytes direction keys (left ++ right) =
      (stream.bytes direction keys left).join
        ((stream.bytes direction keys left).stream.bytes direction (stream.bytes direction keys left).keys right) := by
  induction left generalizing stream keys with
  | nil => rfl
  | cons one rest ih =>
    simp only [cons_append, bytes, ih]
    simp only [Tracked.join, append_assoc]

theorem filled_filled (stream : TrackerStream) (first second : List UInt8) :
    (stream.filled first).filled second = stream.filled (first ++ second) := by
  simp only [filled, length_append, Nat.add_assoc]
  split <;> simp

theorem bytes_stopped (stopped : stream.stopped = true) (input : List UInt8) :
    stream.bytes direction keys input = ⟨stream, keys, []⟩ := by
  induction input with
  | nil => rfl
  | cons one rest ih => simp only [bytes, byte, stopped, if_true, ih, Tracked.join, append_nil]

variable {input rest : List UInt8} {header : Header}

theorem bytes_short (running : stream.stopped = false) (short : stream.position + input.length < stream.target) :
    stream.bytes direction keys input = ⟨stream.filled input, keys, []⟩ := by
  induction input generalizing stream with
  | nil => simp [bytes, filled]
  | cons one rest ih =>
    rw [length_cons] at short
    have first : stream.byte direction keys one = ⟨stream.filled [one], keys, []⟩ := by
      unfold byte
      rw [if_neg (by rw [running]; exact Bool.false_ne_true)]
      dsimp only
      rw [filled_position, length_singleton, if_pos (by omega)]
    have later := @ih (stream.filled [one]) running (by
      rw [filled_position, filled_target, length_singleton]
      omega)
    simp only [bytes, first, later, Tracked.join, nil_append, filled_filled, singleton_append]

theorem bytes_full (running : stream.stopped = false) {input : List UInt8} (some : input ≠ [])
    (full : stream.position + input.length = stream.target) :
    stream.bytes direction keys input = (stream.filled input).settle direction keys := by
  obtain ⟨front, last, rfl⟩ := eq_nil_or_concat input |>.resolve_left some
  rw [concat_eq_append, length_append, length_singleton] at full
  rw [concat_eq_append, bytes_append, bytes_short running (by omega)]
  have final : (stream.filled front).byte direction keys last = (stream.filled (front ++ [last])).settle direction keys := by
    unfold byte
    rw [filled_stopped, if_neg (by rw [running]; exact Bool.false_ne_true)]
    dsimp only
    rw [filled_position, filled_position, filled_target, length_singleton, if_neg (by omega), filled_filled]
  simp only [bytes, final, Tracked.join, nil_append, append_nil]

theorem sound_complete {header : Header} (known : stream.header = some header) (observed : stream.observed = true)
    (late : wanted header ≤ stream.position) (within : stream.position ≤ header.total)
    (empty : stream.pending = []) : (stream.complete header).Sound := by
  unfold complete
  by_cases full : stream.position = header.total
  · rw [if_pos full]
    exact ⟨fun _ => (by decide : 0 < headerLen), fun _ => by rw [empty]; rfl, fun _ => empty, fun _ => rfl,
      fun _ other none => (by cases none)⟩
  · rw [if_neg full]
    refine ⟨fun _ => ?_, fun unseen => ?_, fun _ => empty, fun none => ?_, fun _ other found => ?_⟩
    · rw [target, known]
      simp only [observed, if_true]
      omega
    · exact absurd (observed.symm.trans unseen) (by decide)
    · rw [known] at none
      cases none
    · rw [known] at found
      cases found
      exact late

/-- What a stream before an inspection has: a header, and the bytes kept up to the wanted ones. -/
structure Begun (stream : TrackerStream) (header : Header) : Prop where
  running : stream.stopped = false
  known : stream.header = some header
  kept : stream.observed = false → stream.pending.length = stream.position
  cleared : stream.observed = true → stream.pending = []
  early : stream.observed = false → stream.position ≤ wanted header
  late : stream.observed = true → wanted header ≤ stream.position ∧ stream.position ≤ header.total

theorem Begun.note {header : Header} (begun : stream.Begun header) (reached : wanted header ≤ stream.position) :
    (stream.note direction header keys).1.Begun header ∧ (stream.note direction header keys).1.observed = true ∧
      (stream.note direction header keys).1.position = stream.position := by
  have short := wanted_le_total header
  unfold TrackerStream.note
  cases seen : stream.observed with
  | true =>
    rw [if_pos rfl]
    exact ⟨begun, seen, rfl⟩
  | false =>
    rw [if_neg Bool.false_ne_true]
    refine ⟨⟨begun.running, begun.known, fun unseen => (by cases unseen), fun _ => rfl, fun unseen => (by cases unseen), ?_⟩, rfl, rfl⟩
    intro _
    have early := begun.early seen
    exact ⟨reached, by simp only; omega⟩

theorem Begun.inspect {header : Header} (begun : stream.Begun header) : (stream.inspect direction header keys).stream.Sound := by
  unfold TrackerStream.inspect
  by_cases early : stream.position < wanted header
  · rw [if_pos early]
    have unseen : stream.observed = false := by
      by_contra seen
      have late := (begun.late (by simpa using seen)).1
      omega
    refine ⟨fun _ => ?_, begun.kept, begun.cleared, fun none => ?_, fun seen => ?_⟩
    · rw [target, begun.known]
      simp only [unseen, Bool.false_eq_true, if_false]
      exact early
    · rw [begun.known] at none
      cases none
    · exact absurd (unseen.symm.trans seen) (by decide)
  · rw [if_neg early]
    obtain ⟨noted, observed, position⟩ := @Begun.note _ direction keys header begun (Nat.le_of_not_lt early)
    exact sound_complete noted.known observed (noted.late observed).1 (noted.late observed).2 (noted.cleared observed)

theorem skip_bytes {header : Header} (begun : stream.Begun header) (observed : stream.observed = true) (input : List UInt8) :
    ∃ taken rest, input = taken ++ rest ∧ (stream.skip header input).2 = rest ∧
      (stream.complete header).bytes direction keys taken = ⟨(stream.skip header input).1, keys, []⟩ ∧
      (input ≠ [] → stream.position < header.total → taken ≠ []) := by
  have within := (begun.late observed).2
  refine ⟨input.take (min (header.total - stream.position) input.length), _, (take_append_drop _ _).symm, rfl, ?_, ?_⟩
  · unfold skip complete
    dsimp only
    by_cases full : stream.position = header.total
    · have nothing : min (header.total - stream.position) input.length = 0 := by omega
      rw [nothing, if_pos full, if_pos (by omega)]
      rfl
    · rw [if_neg full]
      have target' : stream.target = header.total := by
        rw [target, begun.known]
        simp only [observed, if_true]
      by_cases ends : stream.position + min (header.total - stream.position) input.length = header.total
      · rw [if_pos ends, bytes_full begun.running]
        · have filled' : stream.filled (input.take (min (header.total - stream.position) input.length)) =
              { stream with position := header.total } := by
            simp only [filled, observed, if_true, length_take]
            rw [show min (min (header.total - stream.position) input.length) input.length =
              min (header.total - stream.position) input.length by omega, ends]
          rw [filled', settle, show ({ stream with position := header.total } : TrackerStream).header = stream.header from rfl,
            begun.known]
          dsimp only
          rw [TrackerStream.inspect, if_neg (by simp only; have := wanted_le_total header; omega), TrackerStream.note, if_pos observed]
          dsimp only
          rw [TrackerStream.complete, if_pos rfl]
        · rw [← length_pos_iff, length_take]
          omega
        · rw [length_take, target']
          omega
      · rw [if_neg ends, bytes_short begun.running]
        · simp only [filled, observed, if_true, length_take]
          rw [show min (min (header.total - stream.position) input.length) input.length =
            min (header.total - stream.position) input.length by omega]
        · rw [length_take, target']
          omega
  · intro more short
    have positive := length_pos_iff.mpr more
    rw [← length_pos_iff, length_take]
    omega

/-- A turn has the effect of the bytes it takes, and ends the loop only without bytes or stopped. -/
structure Takes (direction : Direction) (begun : Tracked) (input : List UInt8) (turn : Turn) : Prop where
  effect : ∃ taken rest, input = taken ++ rest ∧
    begun.join (begun.stream.bytes direction begun.keys taken) = ⟨turn.stream, turn.keys, turn.output⟩ ∧
    (turn.rest = some rest ∨ turn.rest = none ∧ (rest = [] ∨ turn.stream.stopped = true))

theorem fillExtension_spec (begun : stream.Begun header) (early : stream.position < wanted header)
    (input : List UInt8) :
    ∃ taken rest, input = taken ++ rest ∧ stream.fillExtension header input = (stream.filled taken, rest) ∧
      stream.position + taken.length ≤ wanted header ∧ (stream.position + taken.length < wanted header → rest = []) := by
  have unseen : stream.observed = false := by
    by_contra seen
    have late := (begun.late (by simpa using seen)).1
    omega
  have length : (input.take (min (wanted header - stream.position) input.length)).length =
      min (wanted header - stream.position) input.length := by
    rw [length_take]
    omega
  refine ⟨input.take (min (wanted header - stream.position) input.length), _, (take_append_drop _ _).symm, ?_, ?_, ?_⟩
  · unfold fillExtension
    rw [if_pos early]
    simp only [filled, unseen, Bool.false_eq_true, if_false, length]
  · rw [length]
    omega
  · rw [length]
    intro short
    exact drop_of_length_le (by omega)

theorem takes_skip (begun : stream.Begun header) (reached : wanted header ≤ stream.position) (input : List UInt8) :
    Takes direction (stream.inspect direction header keys) input
      ⟨((stream.note direction header keys).1.skip header input).1, (stream.note direction header keys).2.1,
        (stream.note direction header keys).2.2, some ((stream.note direction header keys).1.skip header input).2⟩ := by
  obtain ⟨noted, observed, -⟩ := @Begun.note _ direction keys header begun reached
  obtain ⟨taken, rest, whole, left, effect, -⟩ :=
    @skip_bytes _ direction (stream.note direction header keys).2.1 header noted observed input
  refine ⟨taken, rest, whole, ?_, .inl (by rw [← left])⟩
  rw [TrackerStream.inspect, if_neg (by omega)]
  dsimp only
  rw [effect]
  simp [Tracked.join]

theorem Takes.before {first second : Tracked} {taken : List UInt8} {turn : Turn}
    (joined : first.join (first.stream.bytes direction first.keys taken) = second) (takes : Takes direction second rest turn) :
    Takes direction first (taken ++ rest) turn := by
  obtain ⟨more, left, rfl, effect, ends⟩ := takes.effect
  refine ⟨taken ++ more, left, (append_assoc _ _ _).symm, ?_, ends⟩
  rw [bytes_append, ← effect, ← joined]
  simp [Tracked.join]

theorem takes_turnPacket (begun : stream.Begun header) (input : List UInt8) :
    Takes direction (stream.inspect direction header keys) input (stream.turnPacket direction header keys input) := by
  unfold turnPacket
  by_cases early : stream.position < wanted header
  · have unseen : stream.observed = false := by
      by_contra seen
      have late := (begun.late (by simpa using seen)).1
      omega
    have still : stream.inspect direction header keys = ⟨stream, keys, []⟩ := by
      rw [TrackerStream.inspect, if_pos early]
    have target' : stream.target = wanted header := by
      rw [target, begun.known]
      simp only [unseen, Bool.false_eq_true, if_false]
    obtain ⟨taken, rest, rfl, filled', within, short⟩ := fillExtension_spec begun early input
    rw [filled', still]
    dsimp only
    by_cases less : stream.position + taken.length < wanted header
    · rw [filled_position, if_pos less, short less, append_nil]
      refine ⟨taken, [], (append_nil _).symm, ?_, .inr ⟨rfl, .inl rfl⟩⟩
      rw [bytes_short begun.running (by omega)]
      rfl
    · rw [filled_position, if_neg less]
      have nonempty : taken ≠ [] := by
        rintro rfl
        rw [length_nil] at less
        omega
      have full : (stream.filled taken).Begun header := by
        refine ⟨begun.running, begun.known, fun _ => ?_, fun seen => ?_, fun _ => within, fun seen => ?_⟩
        · simp only [filled, unseen, Bool.false_eq_true, if_false, length_append, begun.kept unseen]
        · exact absurd (unseen.symm.trans seen) (by decide)
        · exact absurd (unseen.symm.trans seen) (by decide)
      refine .before ?_ (takes_skip full (by rw [filled_position]; omega) rest)
      dsimp only
      rw [bytes_full begun.running nonempty (by omega), settle,
        show (stream.filled taken).header = stream.header from rfl, begun.known]
      simp [Tracked.join]
  · have filled' : stream.fillExtension header input = (stream, input) := by
      rw [fillExtension, if_neg early]
    rw [filled']
    dsimp only
    rw [if_neg early]
    exact takes_skip begun (Nat.le_of_not_lt early) input

theorem fillHeader_spec (sound : stream.Sound) (unknown : stream.header = none) (input : List UInt8) :
    ∃ taken rest, input = taken ++ rest ∧ stream.fillHeader input = (stream.filled taken, rest) ∧
      stream.position + taken.length ≤ max headerLen stream.position ∧
      (stream.position + taken.length < headerLen → rest = []) := by
  have unseen := sound.fresh unknown
  have kept := sound.kept unseen
  have length : (input.take (min (headerLen - stream.pending.length) input.length)).length =
      min (headerLen - stream.pending.length) input.length := by
    rw [length_take]
    omega
  refine ⟨input.take (min (headerLen - stream.pending.length) input.length), _, (take_append_drop _ _).symm, ?_, ?_, ?_⟩
  · unfold fillHeader
    rw [unknown]
    simp only [filled, unseen, Bool.false_eq_true, if_false, length, unknown]
  · rw [length]
    omega
  · rw [length]
    intro short
    exact drop_of_length_le (by omega)

theorem Sound.begun (sound : stream.Sound) (running : stream.stopped = false) (known : stream.header = some header) :
    stream.Begun header := by
  have room := sound.room running
  rw [target, known] at room
  refine ⟨running, known, sound.kept, sound.cleared, fun unseen => ?_, fun seen => ⟨sound.late seen header known, ?_⟩⟩
  · simp only [unseen, Bool.false_eq_true, if_false] at room
    omega
  · simp only [seen, if_true] at room
    omega

theorem Sound.inspect_self (sound : stream.Sound) (running : stream.stopped = false) {header : Header}
    (known : stream.header = some header) : stream.inspect direction header keys = ⟨stream, keys, []⟩ := by
  have room := sound.room running
  rw [target, known] at room
  unfold TrackerStream.inspect
  by_cases early : stream.position < wanted header
  · rw [if_pos early]
  · rw [if_neg early]
    cases seen : stream.observed with
    | false =>
      simp only [seen, Bool.false_eq_true, if_false] at room
      exact absurd room early
    | true =>
      simp only [seen, if_true] at room
      rw [note, if_pos seen]
      dsimp only
      rw [complete, if_neg (by omega)]

/-- A stream whose header is complete, but not parsed. -/
structure Headed (stream : TrackerStream) : Prop where
  running : stream.stopped = false
  unknown : stream.header = none
  unseen : stream.observed = false
  kept : stream.pending.length = stream.position
  full : stream.position = headerLen

theorem Headed.parsed (headed : stream.Headed) (header : Header) : Begun { stream with header := some header } header := by
  have long := headerLen_le_wanted header
  refine ⟨headed.running, rfl, fun _ => headed.kept, fun seen => ?_, fun _ => by rw [headed.full]; exact long, fun seen => ?_⟩
  all_goals exact absurd (headed.unseen.symm.trans seen) (by decide)

theorem Headed.settle (headed : stream.Headed) : (stream.settle direction keys).stream.Sound := by
  unfold TrackerStream.settle
  rw [headed.unknown]
  dsimp only
  split
  · rename_i header parsed
    exact (headed.parsed header).inspect
  · refine ⟨fun running => (by cases running), fun _ => headed.kept, fun seen => ?_, fun _ => headed.unseen, fun seen => ?_⟩
    all_goals exact absurd (headed.unseen.symm.trans seen) (by decide)

theorem Sound.headed (sound : stream.Sound) (running : stream.stopped = false) (unknown : stream.header = none)
    {taken : List UInt8} (full : stream.position + taken.length = headerLen) : (stream.filled taken).Headed := by
  have unseen := sound.fresh unknown
  refine ⟨running, unknown, unseen, ?_, full⟩
  simp only [filled, unseen, Bool.false_eq_true, if_false, length_append, sound.kept unseen]

theorem Sound.byte (sound : stream.Sound) (one : UInt8) : (stream.byte direction keys one).stream.Sound := by
  unfold TrackerStream.byte
  by_cases halted : stream.stopped = true
  · rw [if_pos halted]
    exact sound
  rw [if_neg halted]
  have running : stream.stopped = false := by simpa using halted
  have room := sound.room running
  dsimp only
  rw [filled_position, length_singleton]
  by_cases less : stream.position + 1 < stream.target
  · rw [if_pos less]
    refine ⟨fun _ => less, fun unseen => ?_, fun seen => ?_, sound.fresh, fun seen header known => ?_⟩
    · have before : stream.observed = false := unseen
      simp only [filled, before, Bool.false_eq_true, if_false, length_append, sound.kept before]
    · have before : stream.observed = true := seen
      simp only [filled, before, if_true, sound.cleared before]
    · have late := sound.late seen header known
      rw [filled_position]
      omega
  · rw [if_neg less]
    cases known : stream.header with
    | none =>
      have target' : stream.target = headerLen := by rw [target, known]
      exact (@Sound.headed _ sound running known [one] (by rw [length_singleton]; omega)).settle
    | some header =>
      have begun := sound.begun running known
      rw [settle, show (stream.filled [one]).header = stream.header from rfl, known]
      dsimp only
      refine Begun.inspect ⟨running, known, fun unseen => ?_, fun seen => ?_, fun unseen => ?_, fun seen => ?_⟩
      · have before : stream.observed = false := unseen
        simp only [filled, before, Bool.false_eq_true, if_false, length_append, sound.kept before]
      · have before : stream.observed = true := seen
        simp only [filled, before, if_true, sound.cleared before]
      · have before : stream.observed = false := unseen
        rw [target, known] at room
        simp only [before, Bool.false_eq_true, if_false] at room
        rw [filled_position, length_singleton]
        omega
      · have before : stream.observed = true := seen
        have late := (begun.late before).1
        rw [target, known] at room
        simp only [before, if_true] at room
        rw [filled_position, length_singleton]
        omega

theorem Sound.bytes (sound : stream.Sound) (input : List UInt8) : (stream.bytes direction keys input).stream.Sound := by
  induction input generalizing stream keys with
  | nil => exact sound
  | cons one rest ih => exact ih (sound.byte one)

theorem takes_turn (sound : stream.Sound) (running : stream.stopped = false) (input : List UInt8) :
    Takes direction ⟨stream, keys, []⟩ input (stream.turn direction keys input) := by
  unfold turn
  cases known : stream.header with
  | some header =>
    have same : stream.fillHeader input = (stream, input) := by
      unfold fillHeader
      rw [known]
    rw [same]
    dsimp only
    rw [known]
    dsimp only
    rw [← @Sound.inspect_self _ direction keys sound running header known]
    exact takes_turnPacket (sound.begun running known) input
  | none =>
    have room := sound.room running
    have target' : stream.target = headerLen := by rw [target, known]
    obtain ⟨taken, rest, rfl, filled', within, short⟩ := fillHeader_spec sound known input
    have unseen := sound.fresh known
    rw [filled']
    dsimp only
    rw [show (stream.filled taken).header = stream.header from rfl, known]
    dsimp only
    have length : (stream.filled taken).pending.length = stream.position + taken.length := by
      simp only [filled, unseen, Bool.false_eq_true, if_false, length_append, sound.kept unseen]
    by_cases less : stream.position + taken.length < headerLen
    · rw [length, if_pos less, short less, append_nil]
      refine ⟨taken, [], (append_nil _).symm, ?_, .inr ⟨rfl, .inl rfl⟩⟩
      rw [bytes_short running (by omega)]
      rfl
    · rw [length, if_neg less]
      have full : stream.position + taken.length = headerLen := by omega
      have nonempty : taken ≠ [] := by
        rintro rfl
        rw [length_nil] at full
        omega
      have headed := sound.headed running known full
      have settled := @bytes_full stream direction keys running taken nonempty (by omega)
      rw [settle, headed.unknown] at settled
      dsimp only at settled
      cases parsed : Header.parse (stream.filled taken).pending with
      | error code =>
        rw [parsed] at settled
        dsimp only at settled ⊢
        refine ⟨taken, rest, rfl, ?_, .inr ⟨rfl, .inr rfl⟩⟩
        rw [settled]
        rfl
      | ok header =>
        rw [parsed] at settled
        dsimp only at settled ⊢
        refine .before ?_ (takes_turnPacket (headed.parsed header) rest)
        dsimp only
        rw [settled]
        simp [Tracked.join]

theorem note_position (header : Header) : (stream.note direction header keys).1.position = stream.position := by
  unfold note
  split <;> rfl

theorem turnPacket_rest (left : (stream.turnPacket direction header keys input).rest = some rest) :
    rest.length ≤ input.length ∧ (input ≠ [] → stream.position < wanted header ∨ stream.position < header.total →
      rest.length < input.length) := by
  unfold turnPacket fillExtension at left
  by_cases early : stream.position < wanted header
  · rw [if_pos early] at left
    dsimp only at left
    split at left
    · cases left
    · cases left
      simp only [skip, length_drop]
      refine ⟨by omega, fun more _ => ?_⟩
      have positive := length_pos_iff.mpr more
      omega
  · rw [if_neg early] at left
    dsimp only at left
    rw [if_neg early] at left
    cases left
    simp only [skip, length_drop, note_position]
    refine ⟨by omega, fun more room => ?_⟩
    have positive := length_pos_iff.mpr more
    rcases room with room | room
    · exact absurd room early
    · omega

theorem turn_progress (sound : stream.Sound) (running : stream.stopped = false) (more : input ≠ [])
    (left : (stream.turn direction keys input).rest = some rest) : rest.length < input.length := by
  have room := sound.room running
  unfold turn at left
  cases known : stream.header with
  | some header =>
    have same : stream.fillHeader input = (stream, input) := by
      unfold fillHeader
      rw [known]
    rw [same] at left
    dsimp only at left
    rw [known] at left
    refine (turnPacket_rest left).2 more ?_
    rw [target, known] at room
    dsimp only at room
    split at room
    · exact .inr room
    · exact .inl room
  | none =>
    have positive := length_pos_iff.mpr more
    obtain ⟨taken, after, whole, filled', -, short⟩ := fillHeader_spec sound known input
    have total := congrArg List.length whole
    rw [length_append] at total
    rw [target, known] at room
    dsimp only at room
    have nonempty : 0 < taken.length := by
      by_contra none
      have empty := short (by omega)
      rw [empty, length_nil] at total
      omega
    rw [filled'] at left
    dsimp only at left
    rw [show (stream.filled taken).header = stream.header from rfl, known] at left
    dsimp only at left
    split at left
    · cases left
    · split at left
      · have shorter := (turnPacket_rest left).1
        omega
      · cases left

theorem observeFor_bytes (sound : stream.Sound) {turns : Nat} (enough : input.length < turns) :
    stream.observeFor turns direction keys input =
      ((stream.bytes direction keys input).stream, (stream.bytes direction keys input).keys,
        (stream.bytes direction keys input).output) := by
  induction turns generalizing stream keys input with
  | zero => omega
  | succ turns ih =>
    unfold observeFor
    by_cases finished : input = [] ∨ stream.stopped = true
    · rw [if_pos finished]
      rcases finished with rfl | stopped
      · rfl
      · rw [bytes_stopped stopped]
    · rw [if_neg finished]
      rw [not_or] at finished
      have running : stream.stopped = false := by simpa using finished.2
      obtain ⟨taken, rest, whole, effect, ends⟩ := (@takes_turn stream direction keys sound running input).effect
      have moved : stream.bytes direction keys taken = ⟨(stream.turn direction keys input).stream,
          (stream.turn direction keys input).keys, (stream.turn direction keys input).output⟩ := by
        rw [← effect]
        simp [Tracked.join]
      have later := @Sound.bytes stream direction keys sound taken
      rw [moved] at later
      have split := @bytes_append stream direction keys taken rest
      rw [← whole, moved] at split
      dsimp only at split ⊢
      rcases ends with some' | ⟨none, last⟩
      · have shorter := turn_progress sound running finished.1 some'
        rw [some']
        dsimp only
        rw [ih later (by omega), split]
        rfl
      · rw [none]
        dsimp only
        rcases last with empty | stopped
        · rw [empty] at split
          rw [split]
          simp [Tracked.join, TrackerStream.bytes]
        · rw [bytes_stopped stopped] at split
          rw [split]
          simp [Tracked.join]

theorem observe_bytes (sound : stream.Sound) (input : List UInt8) :
    stream.observe direction input keys =
      ((stream.bytes direction keys input).stream, (stream.bytes direction keys input).keys,
        (stream.bytes direction keys input).output) :=
  observeFor_bytes sound (Nat.lt_succ_self _)

end TrackerStream

end Ferrum.Rocom
