import Ferrum.Rocom.SessionKeys

namespace Ferrum.Rocom

namespace Replay

variable {providers : Providers} {connection : Nat} {records : List DataRecord}

theorem agree_of_interleaving {others : List DataRecord} (same : interleaving others = interleaving records)
    (honest : (new.run providers connection records).integrityErrors = 0)
    (honest' : (new.run providers connection others).integrityErrors = 0)
    (going : (new.run providers connection records).ended = false)
    (going' : (new.run providers connection others).ended = false) (event event' : Nat) :
    framed ((new.run providers connection records).finished connection event) =
        framed ((new.run providers connection others).finished connection event') ∧
      (∀ direction, raws (ofDirection ((new.run providers connection records).finished connection event) direction) =
        raws (ofDirection ((new.run providers connection others).finished connection event') direction)) ∧
      (new.run providers connection records).session.keys = (new.run providers connection others).session.keys := by
  have exact := @Exact.run providers connection _ exact_new records
  have exact' := @Exact.run providers connection _ exact_new others
  have trusted : ∀ direction, new.session.rejected.get direction = false := by
    intro direction
    cases direction <;> rfl
  have first := (bytewise_new.run exact_new trusted honest going).1
  have second := (bytewise_new.run exact_new trusted honest' going').1
  rw [same] at second
  refine ⟨?_, ?_, first.keys.trans second.keys.symm⟩
  · unfold finished
    rw [framed_append, framed_append, framed_finish first, framed_finish second, first.emissions, second.emissions]
  · intro direction
    rw [(exact.finished event direction).1, (exact'.finished event' direction).1, first.fed, second.fed]

theorem packets_keyed (honest : (new.run providers connection records).integrityErrors = 0)
    (going : (new.run providers connection records).ended = false) (event : Nat) {emission : Emission} {header : Header}
    {keys : KeyState} {decoded : Decoded}
    (emitted : emission ∈ framed ((new.run providers connection records).finished connection event))
    (content : emission.content = .packet header keys decoded) :
    Fixed providers (interleaving records) emission.direction emission.streamOffset header keys := by
  have trusted : ∀ direction, new.session.rejected.get direction = false := by
    intro direction
    cases direction <;> rfl
  have bytewise := (bytewise_new.run exact_new trusted honest going).1
  unfold finished at emitted
  rw [framed_append, framed_finish bytewise, bytewise.emissions] at emitted
  rcases List.mem_append.mp emitted with during | last
  · exact (Interleaved.keyed_run (interleaving records)).emitted emission during header keys decoded content
  · obtain ⟨direction, -, last⟩ := List.mem_flatMap.mp last
    split at last
    · cases last
    · rw [List.mem_singleton] at last
      rw [last] at content
      cases content

def recordBytes (direction : Direction) (records : List DataRecord) : List UInt8 :=
  records.flatMap fun record => if record.direction = direction then (Session.accepted record).getD [] else []

theorem fed_record (session : Session) (providers : Providers) (connection : Nat) (record : DataRecord) :
    (session.record providers connection record).fed = (Session.accepted record).getD [] := by
  have kept : ∀ recorded bytes, (Session.advance recorded record bytes).fed = recorded.fed := by
    intro recorded bytes
    unfold Session.advance
    split <;> rfl
  unfold Session.record
  split
  · rename_i invalid
    rw [invalid]
    rfl
  · rename_i bytes valid
    rw [valid]
    split <;> exact kept _ _

theorem fed_run {providers : Providers} {connection : Nat} {replay : Replay} {records : List DataRecord}
    (going : (replay.run providers connection records).ended = false) (direction : Direction) :
    (replay.run providers connection records).fed.get direction = replay.fed.get direction ++ recordBytes direction records := by
  induction records generalizing replay with
  | nil => exact (List.append_nil _).symm
  | cons record rest ih =>
    cases closed : replay.ended with
    | true =>
      rw [ended_run closed] at going
      exact absurd (closed.symm.trans going) (by decide)
    | false =>
      have one : (replay.record providers connection record).fed =
          replay.fed.set record.direction (replay.fed.get record.direction ++ (Session.accepted record).getD []) := by
        unfold Replay.record
        rw [closed, if_neg Bool.false_ne_true]
        dsimp only
        rw [fed_record]
      have later := @ih (replay.record providers connection record) going
      rw [show replay.run providers connection (record :: rest) =
        (replay.record providers connection record).run providers connection rest from rfl, later, one]
      unfold recordBytes
      rw [List.flatMap_cons]
      by_cases mine : record.direction = direction
      · rw [if_pos mine, mine, Sides.get_set_self, List.append_assoc]
      · rw [if_neg mine, Sides.get_set_ne _ (fun same => mine same.symm), List.nil_append]

/-- The decoder loses, repeats and moves no byte of a connection, and without rejected records and limits its messages
depend on the interleaving of the bytes alone, but for the division of the bytes after a framing failure. -/
theorem decoder_exact (providers : Providers) (connection : Nat) (records : List DataRecord) :
    (∀ event direction, raws (ofDirection ((new.run providers connection records).finished connection event) direction) =
      (new.run providers connection records).fed.get direction ∧
      ((new.run providers connection records).ended = false →
        (new.run providers connection records).fed.get direction = recordBytes direction records)) ∧
    (∀ event direction, Contiguous direction 0 records → (new.run providers connection records).ended = false →
      Placed 0 (ofDirection ((new.run providers connection records).finished connection event) direction)) ∧
    (∀ others event event', interleaving others = interleaving records →
      (new.run providers connection records).integrityErrors = 0 → (new.run providers connection others).integrityErrors = 0 →
      (new.run providers connection records).ended = false → (new.run providers connection others).ended = false →
      framed ((new.run providers connection records).finished connection event) =
          framed ((new.run providers connection others).finished connection event') ∧
        (∀ direction, raws (ofDirection ((new.run providers connection records).finished connection event) direction) =
          raws (ofDirection ((new.run providers connection others).finished connection event') direction)) ∧
        (new.run providers connection records).session.keys = (new.run providers connection others).session.keys) ∧
    ∀ event emission header keys decoded, (new.run providers connection records).integrityErrors = 0 →
      (new.run providers connection records).ended = false →
      emission ∈ framed ((new.run providers connection records).finished connection event) →
      emission.content = .packet header keys decoded →
      Fixed providers (interleaving records) emission.direction emission.streamOffset header keys := by
  have exact := @Exact.run providers connection _ exact_new records
  refine ⟨fun event direction => ⟨(exact.finished event direction).1, fun going => ?_⟩, ?_, ?_, ?_⟩
  · have fed := @fed_run providers connection new _ going direction
    cases direction <;> exact fed
  · intro event direction contiguous going
    have trusted := @not_rejected_run providers connection _ direction records exact_new
      (by cases direction <;> rfl) _ (fun _ => by cases direction <;> rfl) contiguous
    exact (exact.finished event direction).2 going trusted
  · exact fun others event event' same honest honest' going going' =>
      agree_of_interleaving same honest honest' going going' event event'
  · exact fun event emission header keys decoded honest going emitted content =>
      packets_keyed honest going event emitted content

def noProviders : Providers := ⟨fun _ _ => none, none⟩

def uploaded (event offset : Nat) (bytes : List UInt8) : DataRecord := ⟨event, maxPacket, .upload, offset, some bytes⟩

def zeros (length : Nat) : List UInt8 := List.replicate length 0

def whole : List DataRecord := [uploaded 3 0 (zeros 23)]
def divided : List DataRecord := [uploaded 3 0 (zeros 22), uploaded 4 22 (zeros 1)]

/-- After a framing failure a second record is a message of its own. -/
theorem whole_and_divided_differ :
    interleaving divided = interleaving whole ∧
      (new.run noProviders 1 whole).integrityErrors = 0 ∧ (new.run noProviders 1 divided).integrityErrors = 0 ∧
      (new.run noProviders 1 whole).ended = false ∧ (new.run noProviders 1 divided).ended = false ∧
      ((new.run noProviders 1 whole).finished 1 5).map Message.emission ≠
        ((new.run noProviders 1 divided).finished 1 5).map Message.emission := by
  refine ⟨by decide, by decide, by decide, by decide, by decide, ?_⟩
  intro same
  have lengths := congrArg List.length same
  revert lengths
  decide

/-- A SYN with two extension bytes. -/
def synPacket : List UInt8 := [0x33, 0x66, 0, 1, 0, 1, 0x10, 0x01, 0, 0, 0, 0, 1, 0, 0, 0, 23, 0, 0, 0, 0, 2, 3]

theorem synPacket_exact :
    Placed 0 (ofDirection ((new.run noProviders 1 [uploaded 3 0 synPacket]).finished 1 4) .upload) ∧
      framed ((new.run noProviders 1 [uploaded 3 0 synPacket]).finished 1 4) =
        framed ((new.run noProviders 1 [uploaded 3 0 (synPacket.take 10), uploaded 4 10 (synPacket.drop 10)]).finished 1 5) := by
  have exact := decoder_exact noProviders 1 [uploaded 3 0 synPacket]
  refine ⟨exact.2.1 4 .upload ⟨synPacket, by decide, rfl, trivial⟩ (by decide), ?_⟩
  exact (exact.2.2.1 [uploaded 3 0 (synPacket.take 10), uploaded 4 10 (synPacket.drop 10)] 4 5 (by decide) (by decide)
    (by decide) (by decide) (by decide)).1

end Replay

end Ferrum.Rocom
