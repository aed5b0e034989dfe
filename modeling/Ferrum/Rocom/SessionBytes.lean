import Ferrum.Rocom.StreamBytes

namespace Ferrum.Rocom

open List

namespace Session

variable {providers : Providers} {session : Session} {connection : Nat}

def Sound (session : Session) : Prop := ∀ direction, (session.streams.get direction).Sound

/-- What a record leaves of a session: its bytes, in its direction. -/
structure Carried (session : Session) (record : DataRecord) (recorded : Recorded) : Prop where
  sound : recorded.session.Sound
  others : ∀ direction, direction ≠ record.direction →
    recorded.session.streams.get direction = session.streams.get direction ∧
    recorded.session.rejected.get direction = session.rejected.get direction ∧
    recorded.session.offsets.get direction = session.offsets.get direction
  direction : ∀ message ∈ recorded.messages, message.emission.direction = record.direction
  raws : raws recorded.messages ++ (recorded.session.streams.get record.direction).buffer =
    (session.streams.get record.direction).buffer ++ recorded.fed

theorem sound_new : new.Sound := by
  intro direction
  cases direction <;> exact Framing.sound_new

theorem Sound.set (sound : session.Sound) {direction : Direction} {stream : Stream} (one : stream.Sound) (other : Direction) :
    ((session.streams.set direction stream).get other).Sound := by
  by_cases same : other = direction
  · subst same
    rw [Sides.get_set_self]
    exact one
  · rw [Sides.get_set_ne _ same]
    exact sound other

theorem Sound.placed (sound : session.Sound) (record : DataRecord) : (session.placed record).Sound := by
  have one := sound record.direction
  unfold Session.placed
  split
  · exact ⟨one.quiet, one.room, one.fresh, one.kept⟩
  · exact one

theorem placed_buffer (session : Session) (record : DataRecord) :
    (session.placed record).buffer = (session.streams.get record.direction).buffer := by
  unfold placed
  split <;> rfl

theorem carried_refuse (sound : session.Sound) (record : DataRecord) (bytes : List UInt8) (code : String) :
    Carried session record (session.refuse connection record bytes code) := by
  obtain ⟨empty, contents, -, -, direction, stopped⟩ :=
    Stream.reject_spec (session.streams.get record.direction) (context connection record) bytes record.offset code
  refine ⟨?_, ?_, direction, ?_⟩
  · exact sound.set (Stream.sound_reject _ _ _ _ _)
  · intro other different
    exact ⟨Sides.get_set_ne _ different _, Sides.get_set_ne _ different _, rfl⟩
  · simp only [refuse, Sides.get_set_self, empty, contents, append_nil]

theorem carried_feed (sound : session.Sound) (record : DataRecord) (bytes : List UInt8) :
    Carried session record (session.feed providers connection record bytes) := by
  have placed := sound.placed record
  have carries := @Stream.carries_feed providers _ (context connection record) placed session.keys bytes
  have conserved := carries.raws
  rw [Stream.feed_rest placed, Option.getD_none, append_nil, placed_buffer] at conserved
  refine ⟨?_, ?_, carries.direction, ?_⟩
  · exact sound.set (Stream.sound_feed placed session.keys bytes)
  · exact fun direction different => ⟨Sides.get_set_ne _ different _, rfl, rfl⟩
  · simp only [feed, Sides.get_set_self]
    exact conserved

variable {record : DataRecord}

theorem Carried.advance {recorded : Recorded} (carried : Carried session record recorded) (bytes : List UInt8) :
    Carried session record (advance recorded record bytes) := by
  unfold Session.advance
  split
  · refine ⟨carried.sound, ?_, carried.direction, carried.raws⟩
    intro other different
    obtain ⟨streams, rejected, offsets⟩ := carried.others other different
    exact ⟨streams, rejected, by rw [← offsets]; exact Sides.get_set_ne _ different _⟩
  · exact ⟨carried.sound, carried.others, carried.direction, carried.raws⟩

theorem carried_record (sound : session.Sound) (record : DataRecord) :
    Carried session record (session.record providers connection record) := by
  unfold Session.record
  split
  · exact carried_refuse sound record [] "invalid_data_bytes"
  · split
    · exact (carried_refuse sound record _ "offset_gap").advance _
    · exact (carried_feed sound record _).advance _

theorem record_taken (taken : (session.record providers connection record).session.rejected.get record.direction = false) :
    ∃ bytes, accepted record = some bytes ∧ session.rejected.get record.direction = false ∧
      record.offset = session.offsets.get record.direction ∧
      session.record providers connection record = advance (session.feed providers connection record bytes) record bytes := by
  have refused : ∀ bytes code, (session.refuse connection record bytes code).session.rejected.get record.direction = true :=
    fun bytes code => Sides.get_set_self _ _ _
  have kept : ∀ recorded bytes, (advance recorded record bytes).session.rejected = recorded.session.rejected := by
    intro recorded bytes
    unfold advance
    split <;> rfl
  unfold Session.record at taken ⊢
  split at taken
  · rw [refused] at taken
    cases taken
  · rename_i bytes accepted'
    split at taken
    · rw [kept, refused] at taken
      cases taken
    · rename_i noGap
      rw [kept] at taken
      have running : session.rejected.get record.direction = false := taken
      refine ⟨bytes, accepted', running, ?_, by rw [if_neg noGap]⟩
      by_contra gap
      exact noGap ⟨running, gap⟩

theorem record_placed (sound : session.Sound)
    (taken : (session.record providers connection record).session.rejected.get record.direction = false) :
    Placed (session.streams.get record.direction).offset (session.record providers connection record).messages ∧
      ((session.record providers connection record).ended = false →
        (session.record providers connection record).session.offsets.get record.direction =
          session.offsets.get record.direction + (session.record providers connection record).fed.length ∧
        session.offsets.get record.direction + (session.record providers connection record).fed.length < 2 ^ 64 ∧
        ((session.streams.get record.direction).offset + (session.streams.get record.direction).buffer.length =
            session.offsets.get record.direction →
          ((session.record providers connection record).session.streams.get record.direction).offset =
            (session.streams.get record.direction).offset +
              (raws (session.record providers connection record).messages).length)) := by
  obtain ⟨bytes, -, running, expected, result⟩ := record_taken taken
  have here : session.placed record = session.streams.get record.direction := by
    rw [placed, running, if_neg Bool.false_ne_true]
  have carries := @Stream.carries_feed providers _ (context connection record) (sound record.direction) session.keys bytes
  rw [result]
  unfold advance
  by_cases small : record.offset + bytes.length < 2 ^ 64
  · rw [if_pos small]
    refine ⟨by simp only [feed, here]; exact carries.placed, fun _ => ⟨?_, ?_, ?_⟩⟩
    · rw [← expected]
      exact Sides.get_set_self _ _ _
    · rw [← expected]
      exact small
    · intro standing
      simp only [feed, here, Sides.get_set_self]
      exact carries.offset (Or.inr (by omega))
  · rw [if_neg small]
    exact ⟨by simp only [feed, here]; exact carries.placed, fun ended => (by cases ended)⟩

end Session

theorem ofDirection_append (left right : List Message) (direction : Direction) :
    ofDirection (left ++ right) direction = ofDirection left direction ++ ofDirection right direction :=
  filter_append _ _

theorem ofDirection_self {messages : List Message} {direction : Direction}
    (all : ∀ message ∈ messages, message.emission.direction = direction) : ofDirection messages direction = messages :=
  filter_eq_self.mpr fun message listed => by rw [all message listed]; exact decide_eq_true rfl

theorem ofDirection_other {messages : List Message} {direction other : Direction} (different : other ≠ direction)
    (all : ∀ message ∈ messages, message.emission.direction = direction) : ofDirection messages other = [] := by
  refine filter_eq_nil_iff.mpr fun message listed => ?_
  rw [all message listed, decide_eq_true_eq]
  exact fun same => different same.symm

namespace Replay

/-- Every byte fed is in a message or in its direction's buffer, in order; in a direction that goes on, a message stands at the
number of bytes before it. -/
structure Exact (replay : Replay) : Prop where
  sound : replay.session.Sound
  raws : ∀ direction, raws (ofDirection replay.messages direction) ++ (replay.session.streams.get direction).buffer =
    replay.fed.get direction
  placed : ∀ direction, replay.session.rejected.get direction = false → Placed 0 (ofDirection replay.messages direction)
  offset : replay.ended = false → ∀ direction, replay.session.rejected.get direction = false →
    replay.session.offsets.get direction = (replay.fed.get direction).length ∧
    (replay.session.streams.get direction).offset = (Rocom.raws (ofDirection replay.messages direction)).length

theorem exact_new : Exact new := by
  refine ⟨Session.sound_new, ?_, ?_, ?_⟩
  · intro direction
    cases direction <;> rfl
  · exact fun _ _ => trivial
  · intro _ direction _
    cases direction <;> exact ⟨rfl, rfl⟩

variable {providers : Providers} {connection : Nat} {replay : Replay}

theorem Exact.record (exact : replay.Exact) (record : DataRecord) : (replay.record providers connection record).Exact := by
  unfold Replay.record
  cases closed : replay.ended with
  | true => rw [if_pos rfl]; exact exact
  | false =>
  rw [if_neg Bool.false_ne_true]
  have carried := @Session.carried_record providers replay.session connection exact.sound record
  have self := ofDirection_self carried.direction
  have other : ∀ direction, direction ≠ record.direction →
      ofDirection (replay.session.record providers connection record).messages direction = [] :=
    fun direction different => ofDirection_other different carried.direction
  refine ⟨carried.sound, ?_, ?_, ?_⟩
  · intro direction
    by_cases same : direction = record.direction
    · subst same
      simp only [ofDirection_append, self, raws_append, Sides.get_set_self]
      rw [append_assoc, carried.raws, ← append_assoc, exact.raws]
    · simp only [ofDirection_append, other direction same, append_nil, Sides.get_set_ne _ same,
        (carried.others direction same).1]
      exact exact.raws direction
  · intro direction taken
    by_cases same : direction = record.direction
    · subst same
      obtain ⟨-, -, running, -, -⟩ := Session.record_taken taken
      have standing := exact.offset closed record.direction running
      obtain ⟨placed, -⟩ := Session.record_placed exact.sound taken
      simp only [ofDirection_append, self]
      refine placed_append.mpr ⟨exact.placed _ running, ?_⟩
      rw [Nat.zero_add, ← standing.2]
      exact placed
    · simp only [ofDirection_append, other direction same, append_nil]
      simp only [(carried.others direction same).2.1] at taken
      exact exact.placed direction taken
  · intro going direction taken
    by_cases same : direction = record.direction
    · subst same
      obtain ⟨-, -, running, -, -⟩ := Session.record_taken taken
      have standing := exact.offset closed record.direction running
      have conserved := congrArg List.length (exact.raws record.direction)
      rw [length_append] at conserved
      obtain ⟨offsets, -, stream⟩ := (Session.record_placed exact.sound taken).2 going
      simp only [ofDirection_append, self, Sides.get_set_self, raws_append, length_append]
      refine ⟨by rw [offsets, standing.1], ?_⟩
      rw [stream (by omega), standing.2]
    · simp only [ofDirection_append, other direction same, append_nil, Sides.get_set_ne _ same]
      obtain ⟨streams, rejected, offsets⟩ := carried.others direction same
      simp only [rejected] at taken
      rw [streams, offsets]
      exact exact.offset closed direction taken

theorem Exact.run (exact : replay.Exact) (records : List DataRecord) : (replay.run providers connection records).Exact := by
  induction records generalizing replay with
  | nil => exact exact
  | cons record rest ih => exact ih (exact.record record)

theorem Exact.finished (exact : replay.Exact) (event : Nat) (direction : Direction) :
    Rocom.raws (ofDirection (replay.finished connection event) direction) = replay.fed.get direction ∧
      (replay.ended = false → replay.session.rejected.get direction = false →
        Placed 0 (ofDirection (replay.finished connection event) direction)) := by
  have last : ∃ context : Context, context.direction = direction ∧
      ofDirection (replay.session.finish connection event).2 direction =
        ((replay.session.streams.get direction).finish context).2 := by
    cases direction with
    | upload =>
      refine ⟨⟨connection, .upload, event, 0⟩, rfl, ?_⟩
      obtain ⟨-, -, -, -, up, -⟩ := Stream.finish_spec replay.session.streams.upload ⟨connection, .upload, event, 0⟩
      obtain ⟨-, -, -, -, down, -⟩ := Stream.finish_spec replay.session.streams.download ⟨connection, .download, event, 0⟩
      simp only [Session.finish, ofDirection_append]
      rw [ofDirection_self up, ofDirection_other (fun same => by cases same) down, append_nil]
      rfl
    | download =>
      refine ⟨⟨connection, .download, event, 0⟩, rfl, ?_⟩
      obtain ⟨-, -, -, -, up, -⟩ := Stream.finish_spec replay.session.streams.upload ⟨connection, .upload, event, 0⟩
      obtain ⟨-, -, -, -, down, -⟩ := Stream.finish_spec replay.session.streams.download ⟨connection, .download, event, 0⟩
      simp only [Session.finish, ofDirection_append]
      rw [ofDirection_self down, ofDirection_other (fun same => by cases same) up, nil_append]
      rfl
  obtain ⟨context, -, last⟩ := last
  obtain ⟨-, contents, placed, -, -, -⟩ := Stream.finish_spec (replay.session.streams.get direction) context
  unfold Replay.finished
  rw [ofDirection_append, last]
  refine ⟨?_, ?_⟩
  · rw [raws_append, contents, exact.raws]
  · intro going running
    refine placed_append.mpr ⟨exact.placed direction running, ?_⟩
    rw [Nat.zero_add, ← (exact.offset going direction running).2]
    exact placed

end Replay

/-- Bytes after the framing has stopped. -/
def Emission.isTail (emission : Emission) : Bool := emission.content = .failure "framing_stopped"

/-- A connection as a machine that takes one byte of one direction at a time. -/
structure Interleaved where
  framings : Sides Framing
  keys : KeyState
  emissions : List Emission
  seen : List KeySnapshot
  taken : Sides (List UInt8)
  deriving DecidableEq

namespace Interleaved

def new : Interleaved := ⟨.both .new, .new, [], [], .both []⟩

def bytes (providers : Providers) (state : Interleaved) (direction : Direction) (input : List UInt8) : Interleaved :=
  let done := (state.framings.get direction).bytes providers direction state.keys input
  ⟨state.framings.set direction done.framing, done.keys, state.emissions ++ done.emissions, state.seen ++ done.seen,
    state.taken.set direction (state.taken.get direction ++ input)⟩

def byte (providers : Providers) (state : Interleaved) (one : Direction × UInt8) : Interleaved :=
  state.bytes providers one.1 [one.2]

def run (providers : Providers) (state : Interleaved) (interleaving : List (Direction × UInt8)) : Interleaved :=
  interleaving.foldl (byte providers) state

theorem set_get {α : Type} (sides : Sides α) (direction : Direction) : sides.set direction (sides.get direction) = sides := by
  cases direction <;> rfl

theorem set_set {α : Type} (sides : Sides α) (direction : Direction) (first second : α) :
    (sides.set direction first).set direction second = sides.set direction second := by
  cases direction <;> rfl

theorem run_bytes (providers : Providers) (state : Interleaved) (direction : Direction) (input : List UInt8) :
    state.run providers (input.map (direction, ·)) = state.bytes providers direction input := by
  induction input generalizing state with
  | nil => simp [run, bytes, Framing.bytes, set_get]
  | cons one rest ih =>
    have first : state.run providers ((one :: rest).map (direction, ·)) =
        (state.bytes providers direction [one]).run providers (rest.map (direction, ·)) := rfl
    have whole := @Framing.bytes_append providers (state.framings.get direction) direction state.keys [one] rest
    rw [singleton_append] at whole
    rw [first, ih]
    simp only [bytes, Sides.get_set_self, set_set]
    rw [whole]
    simp only [Bytewise.join, append_assoc, singleton_append]

end Interleaved

namespace Framing

variable {providers : Providers} {framing : Framing} {direction : Direction}

theorem parse_ne_tail {bytes : List UInt8} {code : String} (failed : Header.parse bytes = .error code) :
    code ≠ "framing_stopped" := by
  unfold Header.parse at failed
  repeat' split at failed
  all_goals
    cases failed
    try decide

theorem settle_ne_tail {keys : KeyState} {emission : Emission}
    (emitted : (framing.settle providers direction keys).emission = some emission) : emission.isTail = false := by
  have complete : ∀ (framing : Framing) (header : Header) (keys : KeyState) (seen : List KeySnapshot),
      (framing.complete providers direction header keys seen).emission = some emission → emission.isTail = false := by
    intro framing header keys seen done
    unfold Framing.complete at done
    split at done
    · cases done
      simp [Emission.isTail]
    · cases done
  have inspect : ∀ (framing : Framing) (header : Header) (keys : KeyState),
      (framing.inspect providers direction header keys).emission = some emission → emission.isTail = false := by
    intro framing header keys done
    unfold Framing.inspect at done
    split at done
    · exact complete _ _ _ _ done
    · exact complete _ _ _ _ done
  unfold settle at emitted
  split at emitted
  · exact inspect _ _ _ emitted
  · split at emitted
    · exact inspect _ _ _ emitted
    · rename_i code failed
      cases emitted
      simpa [Emission.isTail] using parse_ne_tail failed

theorem bytes_ne_tail (keys : KeyState) (input : List UInt8) :
    ∀ emission ∈ (framing.bytes providers direction keys input).emissions, emission.isTail = false := by
  induction input generalizing framing keys with
  | nil => exact fun emission listed => (by cases listed)
  | cons one rest ih =>
    intro emission listed
    rcases mem_append.mp listed with first | later
    · unfold byte at first
      split at first
      · cases first
      · dsimp only at first
        split at first
        · cases first
        · exact settle_ne_tail (Option.mem_toList.mp first)
    · exact ih _ emission later

end Framing

namespace Replay

variable {providers : Providers} {connection : Nat} {replay : Replay}

def interleaving (records : List DataRecord) : List (Direction × UInt8) :=
  records.flatMap fun record => ((Session.accepted record).getD []).map (record.direction, ·)

def framed (messages : List Message) : List Emission := (messages.map Message.emission).filter fun emission => !emission.isTail

/-- A replay has the state of its bytes. -/
structure Bytewise (replay : Replay) (state : Interleaved) : Prop where
  framings : ∀ direction, (replay.session.streams.get direction).toFraming = state.framings.get direction
  keys : replay.session.keys = state.keys
  emissions : framed replay.messages = state.emissions
  seen : replay.seen = state.seen
  fed : replay.fed = state.taken

theorem framed_append (left right : List Message) : framed (left ++ right) = framed left ++ framed right := by
  simp [framed]

variable {state : Interleaved}

theorem Bytewise.record (bytewise : replay.Bytewise state) (sound : replay.session.Sound) (open' : replay.ended = false)
    {record : DataRecord} (honest : (replay.session.record providers connection record).integrityErrors = 0)
    (trusted : replay.session.rejected.get record.direction = false) :
    (replay.record providers connection record).Bytewise
      (state.run providers (((Session.accepted record).getD []).map (record.direction, ·))) ∧
      ∃ bytes, Session.accepted record = some bytes ∧
        (replay.session.record providers connection record).session.rejected = replay.session.rejected := by
  have kept : ∀ recorded bytes, (Session.advance recorded record bytes).session.streams = recorded.session.streams ∧
      (Session.advance recorded record bytes).session.keys = recorded.session.keys ∧
      (Session.advance recorded record bytes).messages = recorded.messages ∧
      (Session.advance recorded record bytes).seen = recorded.seen ∧
      (Session.advance recorded record bytes).session.rejected = recorded.session.rejected ∧
      (Session.advance recorded record bytes).integrityErrors = recorded.integrityErrors ∧
      (Session.advance recorded record bytes).fed = recorded.fed := by
    intro recorded bytes
    unfold Session.advance
    split <;> exact ⟨rfl, rfl, rfl, rfl, rfl, rfl, rfl⟩
  unfold Replay.record
  rw [open', if_neg Bool.false_ne_true]
  unfold Session.record at honest ⊢
  split at honest
  · cases honest
  · rename_i bytes taken
    split at honest
    · rw [(kept _ _).2.2.2.2.2.1] at honest
      cases honest
    · rename_i noGap
      rw [(kept _ _).2.2.2.2.2.1] at honest
      simp only [taken, if_neg noGap, Option.getD_some]
      obtain ⟨streams, keys, messages, seen, rejected, -, fed⟩ := kept (replay.session.feed providers connection record bytes) bytes
      have here : replay.session.placed record = replay.session.streams.get record.direction := by
        rw [Session.placed, trusted, if_neg Bool.false_ne_true]
      simp only [Session.feed, here] at honest
      have follows := Stream.follows_feed (sound record.direction) replay.session.keys bytes honest
      have before : (replay.session.streams.get record.direction).toFraming = state.framings.get record.direction :=
        bytewise.framings record.direction
      rw [before, bytewise.keys] at follows
      refine ⟨⟨?_, ?_, ?_, ?_, ?_⟩, bytes, rfl, by rw [rejected]; rfl⟩
      all_goals rw [Interleaved.run_bytes]
      · intro direction
        rw [streams]
        simp only [Session.feed, here, Interleaved.bytes]
        by_cases same : direction = record.direction
        · subst same
          rw [Sides.get_set_self, Sides.get_set_self, bytewise.keys]
          exact follows.framing
        · rw [Sides.get_set_ne _ same, Sides.get_set_ne _ same]
          exact bytewise.framings direction
      · rw [keys]
        simp only [Session.feed, here, Interleaved.bytes]
        rw [bytewise.keys]
        exact follows.keys
      · rw [framed_append, messages, bytewise.emissions]
        simp only [Session.feed, here, Interleaved.bytes]
        rw [bytewise.keys, framed, follows.emissions, filter_append]
        have all := @Framing.bytes_ne_tail providers (state.framings.get record.direction) record.direction state.keys bytes
        have front : ((state.framings.get record.direction).bytes providers record.direction state.keys bytes).emissions.filter
            (fun emission => !emission.isTail) =
            ((state.framings.get record.direction).bytes providers record.direction state.keys bytes).emissions :=
          filter_eq_self.mpr fun emission listed => by rw [all emission listed]; rfl
        have back : (((state.framings.get record.direction).bytes providers record.direction state.keys bytes).tailEmission
            (Session.context connection record).direction).filter (fun emission => !emission.isTail) = [] := by
          unfold Rocom.Bytewise.tailEmission
          split
          · rfl
          · simp [Emission.isTail]
        rw [show (Session.context connection record).direction = record.direction from rfl] at back ⊢
        rw [front, back, append_nil]
      · rw [seen, bytewise.seen]
        simp only [Session.feed, here, Interleaved.bytes]
        rw [bytewise.keys, follows.seen]
        rfl
      · rw [fed, bytewise.fed]
        rfl

theorem bytewise_new : Bytewise new Interleaved.new := by
  refine ⟨?_, rfl, rfl, rfl, rfl⟩
  intro direction
  cases direction <;> rfl

theorem integrityErrors_le (record : DataRecord) :
    replay.integrityErrors ≤ (replay.record providers connection record).integrityErrors := by
  unfold Replay.record
  split
  · exact Nat.le_refl _
  · exact Nat.le_add_right _ _

theorem integrityErrors_le_run (records : List DataRecord) :
    replay.integrityErrors ≤ (replay.run providers connection records).integrityErrors := by
  induction records generalizing replay with
  | nil => exact Nat.le_refl _
  | cons record rest ih => exact Nat.le_trans (integrityErrors_le record) ih

theorem ended_run (closed : replay.ended = true) (records : List DataRecord) :
    replay.run providers connection records = replay := by
  induction records with
  | nil => rfl
  | cons record rest ih =>
    have same : replay.record providers connection record = replay := by
      unfold Replay.record
      rw [if_pos closed]
    show (replay.record providers connection record).run providers connection rest = replay
    rw [same]
    exact ih

theorem Bytewise.run (bytewise : replay.Bytewise state) (exact : replay.Exact)
    (trusted : ∀ direction, replay.session.rejected.get direction = false) {records : List DataRecord}
    (honest : (replay.run providers connection records).integrityErrors = 0)
    (going : (replay.run providers connection records).ended = false) :
    (replay.run providers connection records).Bytewise (state.run providers (interleaving records)) ∧
      (replay.run providers connection records).session.rejected = replay.session.rejected := by
  induction records generalizing replay state with
  | nil => exact ⟨bytewise, rfl⟩
  | cons record rest ih =>
    have open' : replay.ended = false := by
      cases closed : replay.ended with
      | false => rfl
      | true =>
        rw [ended_run closed] at going
        exact absurd closed (by rw [going]; exact Bool.false_ne_true)
    have none := Nat.le_zero.mp (honest ▸ @integrityErrors_le_run providers connection
      (replay.record providers connection record) rest)
    have one : (replay.session.record providers connection record).integrityErrors = 0 := by
      unfold Replay.record at none
      rw [open', if_neg Bool.false_ne_true] at none
      simp only at none
      omega
    obtain ⟨first, bytes, taken, kept⟩ := bytewise.record exact.sound open' one (trusted record.direction)
    have same : (replay.record providers connection record).session.rejected = replay.session.rejected := by
      unfold Replay.record
      rw [open', if_neg Bool.false_ne_true]
      exact kept
    obtain ⟨later, rejected⟩ := ih first (exact.record record) (by rw [same]; exact trusted) honest going
    refine ⟨?_, rejected.trans same⟩
    have whole : state.run providers (interleaving (record :: rest)) =
        (state.run providers (((Session.accepted record).getD []).map (record.direction, ·))).run providers (interleaving rest) := by
      simp [Interleaved.run, interleaving, foldl_append]
    rw [whole]
    exact later

theorem framed_finish (bytewise : replay.Bytewise state) (event : Nat) :
    framed (replay.session.finish connection event).2 =
      [Direction.upload, Direction.download].flatMap fun direction =>
        if (state.framings.get direction).buffer = [] then []
        else [⟨direction, (state.framings.get direction).offset, (state.framings.get direction).buffer,
          .failure "truncated_packet"⟩] := by
  have one : ∀ (stream : Stream) (context : Context), framed (stream.finish context).2 =
      if stream.toFraming.buffer = [] then []
      else [⟨context.direction, stream.toFraming.offset, stream.toFraming.buffer, .failure "truncated_packet"⟩] := by
    intro stream context
    unfold Stream.finish
    split
    · rfl
    · simp [framed, Stream.failure, Emission.isTail]
  have up := bytewise.framings .upload
  have down := bytewise.framings .download
  simp only [Sides.get] at up down
  simp only [Session.finish, framed_append, one, up, down, Sides.get, flatMap_cons, flatMap_nil, append_nil]
  rfl

/-- The records of a direction are all valid, and each begins where the one before it ended. -/
def Contiguous (direction : Direction) : Nat → List DataRecord → Prop
  | _, [] => True
  | next, record :: rest =>
    if record.direction = direction then
      ∃ bytes, Session.accepted record = some bytes ∧ record.offset = next ∧ Contiguous direction (next + bytes.length) rest
    else Contiguous direction next rest

theorem not_rejected_run {direction : Direction} {records : List DataRecord} (exact : replay.Exact)
    (trusted : replay.session.rejected.get direction = false) {next : Nat}
    (expected : replay.ended = false → next = replay.session.offsets.get direction)
    (contiguous : Contiguous direction next records) :
    (replay.run providers connection records).session.rejected.get direction = false := by
  induction records generalizing replay next with
  | nil => exact trusted
  | cons record rest ih =>
    cases closed : replay.ended with
    | true =>
      rw [ended_run closed]
      exact trusted
    | false =>
    have step : replay.record providers connection record =
        { session := (replay.session.record providers connection record).session
          messages := replay.messages ++ (replay.session.record providers connection record).messages
          seen := replay.seen ++ (replay.session.record providers connection record).seen
          evidence := replay.evidence ++ (replay.session.record providers connection record).evidence
          integrityErrors := replay.integrityErrors + (replay.session.record providers connection record).integrityErrors
          fed := replay.fed.set record.direction
            (replay.fed.get record.direction ++ (replay.session.record providers connection record).fed)
          ended := (replay.session.record providers connection record).ended } := by
      unfold Replay.record
      rw [closed, if_neg Bool.false_ne_true]
    have later := @Exact.record providers connection _ exact record
    unfold Contiguous at contiguous
    by_cases mine : record.direction = direction
    · rw [if_pos mine] at contiguous
      obtain ⟨bytes, taken, here, contiguous⟩ := contiguous
      have noGap : ¬(replay.session.rejected.get record.direction = false ∧
          record.offset ≠ replay.session.offsets.get record.direction) := by
        rintro ⟨-, gap⟩
        rw [mine] at gap
        exact gap (here.trans (expected closed))
      have result : replay.session.record providers connection record =
          Session.advance (replay.session.feed providers connection record bytes) record bytes := by
        unfold Session.record
        rw [taken]
        dsimp only
        rw [if_neg noGap]
      have fed : (replay.session.record providers connection record).fed = bytes := by
        rw [result]
        unfold Session.advance
        split <;> rfl
      have still : (replay.record providers connection record).session.rejected.get direction = false := by
        rw [step, result]
        unfold Session.advance
        split <;> exact trusted
      refine ih later still ?_ contiguous
      intro going
      have standing := later.offset going direction still
      have before := exact.offset closed direction trusted
      rw [standing.1, step]
      simp only [fed, mine, Sides.get_set_self, length_append]
      rw [← before.1, ← expected closed]
    · rw [if_neg mine] at contiguous
      have carried := @Session.carried_record providers replay.session connection exact.sound record
      obtain ⟨-, rejected, offsets⟩ := carried.others direction fun same => mine same.symm
      refine ih later ?_ ?_ contiguous
      · rw [step]
        exact rejected.trans trusted
      · intro _
        rw [step]
        exact (expected closed).trans offsets.symm

end Replay

end Ferrum.Rocom
