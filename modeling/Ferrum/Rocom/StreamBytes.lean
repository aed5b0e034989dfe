import Ferrum.Rocom.StreamSound

namespace Ferrum.Rocom

open List

/-- What some bytes of one direction lead to; `tail` are those after the framing has stopped. -/
structure Bytewise where
  framing : Framing
  keys : KeyState
  emissions : List Emission
  seen : List KeySnapshot
  tail : List UInt8

def Bytewise.join (first second : Bytewise) : Bytewise :=
  { second with
    emissions := first.emissions ++ second.emissions, seen := first.seen ++ second.seen, tail := first.tail ++ second.tail }

namespace Framing

def Settled.bytewise (settled : Settled) : Bytewise :=
  ⟨settled.framing, settled.keys, settled.emission.toList, settled.seen, []⟩

/-- The framer as a machine that takes one byte at a time, without records and capacities. -/
def byte (providers : Providers) (framing : Framing) (direction : Direction) (keys : KeyState) (one : UInt8) : Bytewise :=
  if framing.stopped then ⟨{ framing with offset := framing.offset + 1 }, keys, [], [], [one]⟩
  else
    let filled := { framing with buffer := framing.buffer ++ [one] }
    if filled.buffer.length < framing.target then ⟨filled, keys, [], [], []⟩
    else (filled.settle providers direction keys).bytewise

def bytes (providers : Providers) (framing : Framing) (direction : Direction) (keys : KeyState) : List UInt8 → Bytewise
  | [] => ⟨framing, keys, [], [], []⟩
  | one :: rest =>
    let first := framing.byte providers direction keys one
    first.join (first.framing.bytes providers direction first.keys rest)

variable {providers : Providers} {framing : Framing} {direction : Direction} {keys : KeyState}

theorem bytes_append (left right : List UInt8) :
    framing.bytes providers direction keys (left ++ right) =
      (framing.bytes providers direction keys left).join
        ((framing.bytes providers direction keys left).framing.bytes providers direction
          (framing.bytes providers direction keys left).keys right) := by
  induction left generalizing framing keys with
  | nil => rfl
  | cons one rest ih =>
    simp only [cons_append, bytes, ih]
    simp only [Bytewise.join, append_assoc]

theorem bytes_short (running : framing.stopped = false) {input : List UInt8}
    (short : framing.buffer.length + input.length < framing.target) :
    framing.bytes providers direction keys input =
      ⟨{ framing with buffer := framing.buffer ++ input }, keys, [], [], []⟩ := by
  induction input generalizing framing with
  | nil => simp [bytes]
  | cons one rest ih =>
    rw [length_cons] at short
    have first : framing.byte providers direction keys one =
        ⟨{ framing with buffer := framing.buffer ++ [one] }, keys, [], [], []⟩ := by
      unfold byte
      rw [if_neg (by rw [running]; exact Bool.false_ne_true)]
      simp only [length_append, length_singleton]
      rw [if_pos (by omega)]
    have later := @ih { framing with buffer := framing.buffer ++ [one] } running (by
      show (framing.buffer ++ [one]).length + rest.length < framing.target
      rw [length_append, length_singleton]
      omega)
    simp only [bytes, first, later, Bytewise.join, nil_append, append_assoc, singleton_append]

theorem bytes_full (running : framing.stopped = false) {input : List UInt8} (some : input ≠ [])
    (full : framing.buffer.length + input.length = framing.target) :
    framing.bytes providers direction keys input =
      (settle providers { framing with buffer := framing.buffer ++ input } direction keys).bytewise := by
  obtain ⟨front, last, rfl⟩ := eq_nil_or_concat input |>.resolve_left some
  rw [concat_eq_append, length_append, length_singleton] at full
  rw [concat_eq_append, bytes_append, bytes_short running (by omega)]
  have final : byte providers { framing with buffer := framing.buffer ++ front } direction keys last =
      (settle providers { framing with buffer := framing.buffer ++ front ++ [last] } direction keys).bytewise := by
    unfold byte
    rw [if_neg (by rw [show _ = framing.stopped from rfl, running]; exact Bool.false_ne_true)]
    rw [if_neg]
    simp only [length_append, length_singleton]
    show ¬framing.buffer.length + front.length + 1 < framing.target
    omega
  simp only [bytes, final, Bytewise.join, nil_append, Settled.bytewise, append_nil, append_assoc]

theorem bytes_stopped (stopped : framing.stopped = true) (input : List UInt8) :
    framing.bytes providers direction keys input =
      ⟨{ framing with offset := framing.offset + input.length }, keys, [], [], input⟩ := by
  induction input generalizing framing with
  | nil => rfl
  | cons one rest ih =>
    have first : framing.byte providers direction keys one =
        ⟨{ framing with offset := framing.offset + 1 }, keys, [], [], [one]⟩ := by
      unfold byte
      rw [if_pos stopped]
    have later := @ih { framing with offset := framing.offset + 1 } stopped
    simp only [bytes, first, later, Bytewise.join, nil_append, singleton_append, length_cons, Nat.add_assoc,
      Nat.add_comm 1]

end Framing

/-- The message of the bytes of a record that come after the framing has stopped. -/
def Bytewise.tailEmission (done : Bytewise) (direction : Direction) : List Emission :=
  if done.tail = [] then []
  else [{ direction, streamOffset := done.framing.offset - done.tail.length, raw := done.tail, content := .failure "framing_stopped" }]

theorem Bytewise.tailEmission_join {first : Bytewise} (noTail : first.tail = []) (second : Bytewise) (direction : Direction) :
    (first.join second).tailEmission direction = second.tailEmission direction := by
  simp [tailEmission, join, noTail]

namespace Stream

variable {providers : Providers} {stream : Stream} {context : Context}

/-- A record has the effect of its bytes, one by one. -/
structure Follows (context : Context) (fed : Fed) (done : Bytewise) : Prop where
  framing : fed.stream.toFraming = done.framing
  keys : fed.keys = done.keys
  seen : fed.seen = done.seen
  emissions : fed.messages.map Message.emission = done.emissions ++ done.tailEmission context.direction

theorem follows_fill (running : stream.stopped = false) (keys : KeyState) (capacity : Nat) {taken : List UInt8}
    (nonempty : taken ≠ []) (fits : stream.buffer.length + taken.length ≤ stream.target) (rest : List UInt8) :
    Follows context (stream.fill providers context keys capacity taken rest)
      (stream.toFraming.bytes providers context.direction keys taken) := by
  unfold fill
  simp only [length_append]
  by_cases less : stream.buffer.length + taken.length < stream.target
  · rw [if_pos less, Framing.bytes_short running less]
    exact ⟨rfl, rfl, rfl, rfl⟩
  · rw [if_neg less, Framing.bytes_full running nonempty (by omega)]
    refine ⟨rfl, rfl, rfl, ?_⟩
    simp only [Framing.Settled.bytewise, Bytewise.tailEmission, if_true, append_nil, map_map]
    exact map_id _

theorem follows_turn (sound : stream.Sound) (keys : KeyState) {input : List UInt8} (nonempty : input ≠ [])
    (unlimited : (stream.turn providers context keys input).integrityErrors = 0) :
    ∃ taken, input = taken ++ (stream.turn providers context keys input).rest.getD [] ∧
      Follows context (stream.turn providers context keys input)
        (stream.toFraming.bytes providers context.direction keys taken) ∧
      ((stream.turn providers context keys input).rest ≠ none →
        (stream.toFraming.bytes providers context.direction keys taken).tail = []) := by
  cases halted : stream.stopped with
  | true =>
    refine ⟨input, ?_, ?_, ?_⟩
    all_goals
      unfold turn
      rw [if_pos halted]
    · simp
    · rw [Framing.bytes_stopped halted]
      refine ⟨rfl, rfl, rfl, ?_⟩
      simp [Bytewise.tailEmission, nonempty, failure]
    · intro more
      exact absurd rfl more
  | false =>
    obtain ⟨begun, same, ⟨-, rejected⟩ | ⟨capacity, -, filled⟩⟩ := @turn_running providers stream context halted keys input
    · rw [rejected] at unlimited
      cases unlimited
    · have room := sound.room halted
      have positive := length_pos_iff.mpr nonempty
      have going : begun.stopped = false := by rw [same]; exact halted
      have taken : input.take (min (stream.target - stream.buffer.length) input.length) ≠ [] := by
        rw [← length_pos_iff, length_take]
        omega
      have fits : begun.buffer.length + (input.take (min (stream.target - stream.buffer.length) input.length)).length ≤
          begun.target := by
        rw [same, length_take]
        omega
      have follows := @follows_fill providers begun context going keys capacity _ taken fits
        (input.drop (min (stream.target - stream.buffer.length) input.length))
      rw [same] at follows
      refine ⟨_, ?_, by rw [filled]; exact follows, ?_⟩
      · rw [filled]
        unfold fill
        dsimp only
        split
        · rename_i short
          simp only [length_append, length_take] at short
          rw [same] at short
          rw [Option.getD_none, append_nil, take_of_length_le (by omega)]
        · exact (take_append_drop _ _).symm
      · intro _
        by_cases less : stream.buffer.length +
            (input.take (min (stream.target - stream.buffer.length) input.length)).length < stream.target
        · rw [Framing.bytes_short halted less]
        · rw [Framing.bytes_full halted taken (by rw [same] at fits; omega)]
          rfl

theorem follows_feed (sound : stream.Sound) (keys : KeyState) (input : List UInt8)
    (unlimited : (stream.feed providers context keys input).integrityErrors = 0) :
    Follows context (stream.feed providers context keys input)
      (stream.toFraming.bytes providers context.direction keys input) := by
  have all := (@feedFor_rule providers stream context
    (fun stream keys input fed => fed.integrityErrors = 0 →
      Follows context fed (stream.toFraming.bytes providers context.direction keys input))
    ?_ ?_ ?_ _ sound keys input (Nat.lt_succ_self input.length)).1
  · exact all unlimited
  · exact fun stream keys _ _ => ⟨rfl, rfl, rfl, rfl⟩
  · intro stream keys input sound nonempty last none
    obtain ⟨taken, whole, follows, -⟩ := follows_turn sound keys nonempty none
    rw [last, Option.getD_none, append_nil] at whole
    rw [whole] at follows ⊢
    exact follows
  · intro stream keys input rest sound nonempty left later ended follows none
    have both : (turn providers stream context keys input).integrityErrors = 0 ∧ later.integrityErrors = 0 := by
      simp only [Fed.join] at none
      omega
    obtain ⟨taken, whole, first, quiet⟩ := follows_turn sound keys nonempty both.1
    have second := follows both.2
    rw [left, Option.getD_some] at whole
    have noTail := quiet (by rw [left]; exact Option.some_ne_none rest)
    rw [first.framing, first.keys] at second
    have whole' := @Framing.bytes_append providers stream.toFraming context.direction keys taken rest
    rw [← whole] at whole'
    rw [whole']
    refine ⟨second.framing, second.keys, ?_, ?_⟩
    · simp only [Fed.join, Bytewise.join, first.seen, second.seen]
    · have none : (stream.toFraming.bytes providers context.direction keys taken).tailEmission context.direction = [] := by
        rw [Bytewise.tailEmission, if_pos noTail]
      rw [Bytewise.tailEmission_join noTail]
      simp only [Fed.join, map_append, first.emissions, second.emissions, none, append_nil, Bytewise.join,
        append_assoc]

end Stream

def Placed (start : Nat) : List Message → Prop
  | [] => True
  | message :: rest => message.emission.streamOffset = start ∧ Placed (start + message.emission.raw.length) rest

@[simp] theorem raws_append (left right : List Message) : raws (left ++ right) = raws left ++ raws right := by
  simp [raws]

theorem raws_singleton (message : Message) : raws [message] = message.emission.raw := by
  simp [raws]

theorem placed_append {start : Nat} {left right : List Message} :
    Placed start (left ++ right) ↔ Placed start left ∧ Placed (start + (raws left).length) right := by
  induction left generalizing start with
  | nil => simp [Placed, raws]
  | cons message rest ih =>
    have length : (raws (message :: rest)).length = message.emission.raw.length + (raws rest).length := by simp [raws]
    rw [cons_append, Placed, Placed, ih, length, Nat.add_assoc, and_assoc]

namespace Framing

/-- Settling keeps the buffer, or emits exactly its bytes at its offset. -/
def Emits (framing : Framing) (direction : Direction) (settled : Settled) : Prop :=
  (settled.emission = none ∧ settled.framing.buffer = framing.buffer ∧ settled.framing.offset = framing.offset ∧
    settled.framing.stopped = framing.stopped) ∨
  ∃ emission, settled.emission = some emission ∧ emission.direction = direction ∧ emission.streamOffset = framing.offset ∧
    emission.raw = framing.buffer ∧ settled.framing.buffer = [] ∧
    settled.framing.offset = framing.offset + framing.buffer.length

variable {providers : Providers} {framing : Framing} {direction : Direction}

theorem emits_complete (header : Header) (keys : KeyState) (seen : List KeySnapshot) :
    framing.Emits direction (framing.complete providers direction header keys seen) := by
  unfold complete
  by_cases full : framing.buffer.length = header.total
  · rw [if_pos full]
    exact Or.inr ⟨_, rfl, rfl, rfl, rfl, rfl, by rw [full]⟩
  · rw [if_neg full]
    exact Or.inl ⟨rfl, rfl, rfl, rfl⟩

theorem emits_inspect (header : Header) (keys : KeyState) :
    framing.Emits direction (framing.inspect providers direction header keys) := by
  unfold inspect
  split
  · exact @emits_complete providers { framing with
      observed := true
      packetKeys := if header.handshake then
        some (keys.observe direction framing.offset header (framing.buffer.drop headerLen)).1 else framing.packetKeys } direction header _ _
  · exact emits_complete header keys []

theorem emits_settle (keys : KeyState) : framing.Emits direction (framing.settle providers direction keys) := by
  unfold settle
  split
  · exact emits_inspect _ keys
  · split
    · rename_i header parsed
      exact @emits_inspect providers { framing with
        header := some header, packetKeys := if header.handshake then framing.packetKeys else some keys } direction header keys
    · exact Or.inr ⟨_, rfl, rfl, rfl, rfl, rfl, rfl⟩

end Framing

namespace Stream

variable {providers : Providers} {stream : Stream} {context : Context}

/-- No byte is lost, repeated or moved by feeding, and every message stands at its offset. -/
structure Carries (context : Context) (before : Stream) (input : List UInt8) (fed : Fed) : Prop where
  raws : raws fed.messages ++ fed.stream.buffer ++ fed.rest.getD [] = before.buffer ++ input
  placed : Placed before.offset fed.messages
  offset : fed.rest ≠ none ∨ before.offset + before.buffer.length + input.length < 2 ^ 64 →
    fed.stream.offset = before.offset + (Rocom.raws fed.messages).length
  direction : ∀ message ∈ fed.messages, message.emission.direction = context.direction
  quiet : fed.stream.stopped = true → fed.stream.buffer = []

theorem finish_spec (stream : Stream) (context : Context) :
    (stream.finish context).1.buffer = [] ∧ raws (stream.finish context).2 = stream.buffer ∧
      Placed stream.offset (stream.finish context).2 ∧
      (stream.finish context).1.offset = stream.offset + stream.buffer.length ∧
      (∀ message ∈ (stream.finish context).2, message.emission.direction = context.direction) ∧
      (stream.finish context).1.stopped = stream.stopped := by
  unfold finish
  by_cases empty : stream.buffer = []
  · rw [if_pos empty]
    refine ⟨empty, empty.symm, trivial, by rw [empty]; rfl, fun message listed => (by cases listed), rfl⟩
  · rw [if_neg empty]
    refine ⟨rfl, by simp [raws, failure], ⟨rfl, trivial⟩, rfl, ?_, rfl⟩
    intro message listed
    rw [mem_singleton] at listed
    rw [listed]
    rfl

theorem reject_spec (stream : Stream) (context : Context) (bytes : List UInt8) (offset : Nat) (code : String) :
    (stream.reject context bytes offset code).1.buffer = [] ∧
      raws (stream.reject context bytes offset code).2 = stream.buffer ++ bytes ∧
      (offset = stream.offset + stream.buffer.length → Placed stream.offset (stream.reject context bytes offset code).2) ∧
      (stream.reject context bytes offset code).1.offset = saturatingAdd offset bytes.length ∧
      (∀ message ∈ (stream.reject context bytes offset code).2, message.emission.direction = context.direction) ∧
      (stream.reject context bytes offset code).1.stopped = true := by
  obtain ⟨empty, contents, placed, -, direction, -⟩ := finish_spec stream context
  unfold reject
  refine ⟨empty, ?_, ?_, rfl, ?_, rfl⟩
  · rw [raws_append, contents, raws_singleton]
    rfl
  · intro next
    rw [placed_append, contents]
    exact ⟨placed, next, trivial⟩
  · intro message listed
    rcases mem_append.mp listed with before | last
    · exact direction message before
    · rw [mem_singleton] at last
      rw [last]
      rfl

theorem carries_fill (running : stream.stopped = false) (keys : KeyState) (capacity : Nat) (taken rest : List UInt8)
    (short : stream.buffer.length + taken.length < stream.target → rest = []) :
    Carries context stream (taken ++ rest) (stream.fill providers context keys capacity taken rest) := by
  unfold fill
  simp only [length_append]
  by_cases less : stream.buffer.length + taken.length < stream.target
  · rw [if_pos less]
    refine ⟨by simp [raws, short less], trivial, fun _ => rfl, fun message listed => (by cases listed), ?_⟩
    intro stopped
    rw [running] at stopped
    cases stopped
  · rw [if_neg less]
    have emits := @Framing.emits_settle providers { stream.toFraming with buffer := stream.buffer ++ taken } context.direction keys
    rcases emits with ⟨none, buffer, offset, stopped⟩ | ⟨emission, emitted, direction, place, raw, buffer, offset⟩
    · simp only [none, Option.toList_none, map_nil]
      refine ⟨by simp [raws, buffer], trivial, fun _ => offset, fun message listed => (by cases listed), ?_⟩
      intro halted
      rw [show _ = stream.stopped from stopped, running] at halted
      cases halted
    · simp only [emitted, Option.toList_some, map_cons, map_nil]
      refine ⟨?_, ⟨place, trivial⟩, ?_, ?_, fun _ => buffer⟩
      · rw [raws_singleton]
        simp [raw, buffer]
      · intro _
        rw [raws_singleton, raw]
        exact offset
      · intro message listed
        rw [mem_singleton] at listed
        rw [listed]
        exact direction

theorem Carries.of_same {begun : Stream} {input : List UInt8} {fed : Fed} (carries : Carries context begun input fed)
    (same : begun.toFraming = stream.toFraming) : Carries context stream input fed := by
  have conserved := carries.raws
  have placed := carries.placed
  have offset := carries.offset
  rw [same] at conserved placed offset
  exact ⟨conserved, placed, offset, carries.direction, carries.quiet⟩

theorem carries_turn (sound : stream.Sound) (keys : KeyState) (input : List UInt8) :
    Carries context stream input (stream.turn providers context keys input) := by
  cases halted : stream.stopped with
  | true =>
    have empty := sound.quiet halted
    unfold turn
    rw [if_pos halted]
    refine ⟨by simp [raws, failure, empty], ⟨rfl, trivial⟩, fun _ => by simp [raws, failure], ?_, fun _ => empty⟩
    intro message listed
    rw [mem_singleton] at listed
    rw [listed]
    rfl
  | false =>
    obtain ⟨begun, same, ⟨-, rejected⟩ | ⟨capacity, -, filled⟩⟩ := @turn_running providers stream context halted keys input
    · rw [rejected]
      refine .of_same ?_ same
      obtain ⟨empty, contents, placed, offset, direction, -⟩ :=
        reject_spec begun context input (begun.offset + begun.buffer.length) "buffer_limit"
      refine ⟨by simp [empty, contents], placed rfl, ?_, direction, fun _ => empty⟩
      rintro (more | small)
      · exact absurd rfl more
      · rw [offset, contents, saturatingAdd, length_append]
        omega
    · rw [filled]
      refine .of_same ?_ same
      have going : begun.stopped = false := by rw [same]; exact halted
      have whole := take_append_drop (min (stream.target - stream.buffer.length) input.length) input
      have carried := @carries_fill providers begun context going keys capacity
        (input.take (min (stream.target - stream.buffer.length) input.length))
        (input.drop (min (stream.target - stream.buffer.length) input.length)) ?_
      · rw [whole] at carried
        exact carried
      · rw [same, length_take]
        intro short
        exact drop_of_length_le (by omega)

theorem Carries.join {input rest : List UInt8} {done later : Fed} (first : Carries context stream input done)
    (left : done.rest = some rest) (second : Carries context done.stream rest later) (ended : later.rest = none) :
    Carries context stream input (done.join later) := by
  have conserved := first.raws
  have conserved' := second.raws
  rw [left, Option.getD_some] at conserved
  rw [ended, Option.getD_none, append_nil] at conserved'
  have total := congrArg List.length conserved
  simp only [length_append] at total
  have placed := second.placed
  refine ⟨?_, ?_, ?_, ?_, second.quiet⟩
  · simp only [Fed.join, raws_append, ended, Option.getD_none, append_nil]
    rw [append_assoc, conserved', ← append_assoc, conserved]
  · refine placed_append.mpr ⟨first.placed, ?_⟩
    rw [← first.offset (Or.inl (by rw [left]; exact Option.some_ne_none rest))]
    exact placed
  · rintro (more | small)
    · exact absurd ended more
    have middle := first.offset (Or.inr small)
    rw [show (done.join later).stream = later.stream from rfl, second.offset (Or.inr (by omega)), middle]
    simp only [Fed.join, raws_append, length_append]
    omega
  · intro message listed
    rcases mem_append.mp listed with before | after
    · exact first.direction message before
    · exact second.direction message after

theorem carries_feed (sound : stream.Sound) (keys : KeyState) (input : List UInt8) :
    Carries context stream input (stream.feed providers context keys input) := by
  refine (feedFor_rule (motive := fun stream _ input fed => Carries context stream input fed) ?_ ?_ ?_ sound keys
    (Nat.lt_succ_self _)).1
  · intro stream keys sound
    exact ⟨by simp [raws], trivial, fun _ => rfl, fun message listed => (by cases listed), sound.quiet⟩
  · exact fun stream keys input sound _ _ => carries_turn sound keys input
  · exact fun stream keys input rest sound _ left later ended second =>
      (carries_turn sound keys input).join left second ended

end Stream

end Ferrum.Rocom
