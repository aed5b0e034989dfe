import Ferrum.Rocom.SessionBytes

namespace Ferrum.Rocom

open Option List

namespace Framing

variable {providers : Providers} {framing : Framing} {direction : Direction}

theorem Sound.byte (sound : framing.Sound) (keys : KeyState) (one : UInt8) :
    (framing.byte providers direction keys one).framing.Sound := by
  unfold Framing.byte
  by_cases halted : framing.stopped = true
  · rw [if_pos halted]
    exact sound_of_stopped halted (sound.quiet halted)
  · rw [if_neg halted]
    have running : framing.stopped = false := by simpa using halted
    have room := sound.room running
    have filled := @Sound.filled _ sound running [one] (by rw [length_singleton]; exact room)
    dsimp only
    rw [length_append]
    by_cases less : framing.buffer.length + [one].length < framing.target
    · rw [if_pos less]
      rw [if_pos less] at filled
      exact filled
    · rw [if_neg less]
      rw [if_neg less] at filled
      exact filled.settle keys

end Framing

def count (direction : Direction) (interleaving : List (Direction × UInt8)) : Nat :=
  interleaving.countP fun one => one.1 = direction

theorem count_snoc (direction : Direction) (interleaving : List (Direction × UInt8)) (one : Direction × UInt8) :
    count direction (interleaving ++ [one]) = count direction interleaving + if one.1 = direction then 1 else 0 := by
  simp [count, countP_append, countP_singleton]

/-- The bytes of a packet after which its key state is fixed. -/
def Header.fixed (header : Header) : Nat := if header.handshake then header.evidence else headerLen

/-- A packet has the key state that was current when its header, or the evidence of a handshake, had just completed. -/
def Fixed (providers : Providers) (interleaving : List (Direction × UInt8)) (direction : Direction) (offset : Nat)
    (header : Header) (keys : KeyState) : Prop :=
  ∃ before one after, interleaving = before ++ one :: after ∧ one.1 = direction ∧
    count direction (before ++ [one]) = offset + header.fixed ∧
    keys = (Interleaved.new.run providers (before ++ [one])).keys

variable {providers : Providers} {interleaving : List (Direction × UInt8)}

theorem Fixed.snoc {direction : Direction} {offset : Nat} {header : Header} {keys : KeyState}
    (fixed : Fixed providers interleaving direction offset header keys) (last : Direction × UInt8) :
    Fixed providers (interleaving ++ [last]) direction offset header keys := by
  obtain ⟨before, one, after, rfl, mine, place, keys⟩ := fixed
  exact ⟨before, one, after ++ [last], by simp, mine, place, keys⟩

/-- A framing at this point of the interleaving, with the key state of its packet once that is fixed. -/
structure Dated (providers : Providers) (interleaving : List (Direction × UInt8)) (direction : Direction) (framing : Framing) :
    Prop where
  position : framing.stopped = false → framing.offset + framing.buffer.length = count direction interleaving
  fixed : framing.stopped = false → ∀ header keys, framing.header = some header →
    framing.observed = true ∨ header.handshake = false → framing.packetKeys = some keys →
    Fixed providers interleaving direction framing.offset header keys

/-- What settling leaves: a dated framing, and a packet with its key state. -/
structure Settles (providers : Providers) (interleaving : List (Direction × UInt8)) (direction : Direction)
    (settled : Framing.Settled) : Prop where
  dated : Dated providers interleaving direction settled.framing
  emitted : ∀ emission header keys decoded, settled.emission = some emission → emission.content = .packet header keys decoded →
    Fixed providers interleaving direction emission.streamOffset header keys ∧ emission.direction = direction

namespace Framing

variable {framing : Framing} {direction : Direction}

theorem complete_keys (framing : Framing) (header : Header) (keys : KeyState) (seen : List KeySnapshot) :
    (framing.complete providers direction header keys seen).keys = keys := by
  unfold complete
  split <;> rfl

theorem inspect_keys_other (framing : Framing) {header : Header} (other : header.handshake = false) (keys : KeyState) :
    (framing.inspect providers direction header keys).keys = keys := by
  unfold inspect
  by_cases due : (!framing.observed) = true ∧ header.evidence ≤ framing.buffer.length
  · rw [if_pos due, complete_keys, KeyState.observe_of_not_handshake _ _ _ other]
  · rw [if_neg due, complete_keys]

theorem settles_complete {header : Header} (known : framing.header = some header)
    (position : framing.offset + framing.buffer.length = count direction interleaving)
    (kept : framing.buffer.length = header.total → framing.packetKeys.isSome)
    (fixed : ∀ keys, framing.observed = true ∨ header.handshake = false ∨ framing.buffer.length = header.total →
      framing.packetKeys = some keys → Fixed providers interleaving direction framing.offset header keys)
    (keys : KeyState) (seen : List KeySnapshot) :
    Settles providers interleaving direction (framing.complete providers direction header keys seen) := by
  unfold complete
  by_cases full : framing.buffer.length = header.total
  · rw [if_pos full]
    obtain ⟨used, some'⟩ := isSome_iff_exists.mp (kept full)
    refine ⟨⟨fun _ => ?_, fun _ other found none => (by cases none)⟩, ?_⟩
    · show framing.offset + header.total + 0 = _
      omega
    · rintro emission header' keys' decoded ⟨⟩ content
      cases content
      refine ⟨?_, rfl⟩
      rw [some', getD_some]
      exact fixed used (.inr (.inr full)) some'
  · rw [if_neg full]
    refine ⟨⟨fun _ => position, ?_⟩, fun emission header' keys' decoded none => (by cases none)⟩
    intro _ header' keys' known' due found
    rw [known] at known'
    cases known'
    exact fixed keys' (due.elim .inl fun other => .inr (.inl other)) found

theorem settles_inspect {header : Header} (known : framing.header = some header)
    (position : framing.offset + framing.buffer.length = count direction interleaving)
    (kept : framing.observed = true ∨ header.handshake = false → framing.packetKeys.isSome)
    (fixed : ∀ keys, framing.observed = true ∨ header.handshake = false → framing.packetKeys = some keys →
      Fixed providers interleaving direction framing.offset header keys)
    (below : framing.observed = true ∨ framing.buffer.length ≤ header.evidence) {keys : KeyState}
    (now : ∀ keys', header.evidence = framing.buffer.length → header.handshake = true →
      (framing.inspect providers direction header keys).keys = keys' →
      Fixed providers interleaving direction framing.offset header keys') :
    Settles providers interleaving direction (framing.inspect providers direction header keys) := by
  have short := header.evidence_le_total
  unfold inspect at now ⊢
  by_cases due : (!framing.observed) = true ∧ header.evidence ≤ framing.buffer.length
  · rw [if_pos due] at now ⊢
    have unobserved : framing.observed = false := by simpa using due.1
    have reached : header.evidence = framing.buffer.length := by
      rcases below with observed | below
      · rw [unobserved] at observed
        cases observed
      · exact Nat.le_antisymm due.2 below
    have taken : ∀ keys', (if header.handshake then
        some (keys.observe direction framing.offset header (framing.buffer.drop headerLen)).1 else framing.packetKeys) =
        some keys' → Fixed providers interleaving direction framing.offset header keys' := by
      intro keys' found
      cases handshake : header.handshake with
      | true =>
        rw [handshake, if_pos rfl] at found
        refine now keys' reached handshake ?_
        rw [complete_keys]
        exact some.inj found
      | false =>
        rw [handshake, if_neg Bool.false_ne_true] at found
        exact fixed keys' (.inr handshake) found
    refine @settles_complete providers interleaving { framing with
      observed := true
      packetKeys := if header.handshake then
        some (keys.observe direction framing.offset header (framing.buffer.drop headerLen)).1 else framing.packetKeys } direction header
      known position ?_ (fun keys' _ found => taken keys' found) _ _
    intro _
    cases handshake : header.handshake with
    | true => rfl
    | false => exact kept (.inr handshake)
  · rw [if_neg due]
    refine settles_complete known position ?_ ?_ keys []
    · intro full
      refine kept (.inl ?_)
      by_contra unseen
      exact due ⟨by simpa using unseen, by omega⟩
    · intro keys' which found
      rcases which with observed | other | full
      · exact fixed keys' (.inl observed) found
      · exact fixed keys' (.inr other) found
      · refine fixed keys' (.inl ?_) found
        by_contra unseen
        exact due ⟨by simpa using unseen, by omega⟩

theorem Full.settles (full : framing.Full) (keys : KeyState)
    (position : framing.offset + framing.buffer.length = count direction interleaving)
    (dated : ∀ header keys, framing.header = some header → framing.observed = true ∨ header.handshake = false →
      framing.packetKeys = some keys → Fixed providers interleaving direction framing.offset header keys)
    (now : ∀ header, framing.offset + header.fixed = count direction interleaving →
      Fixed providers interleaving direction framing.offset header (framing.settle providers direction keys).keys) :
    Settles providers interleaving direction (framing.settle providers direction keys) := by
  have length := full.full
  unfold Framing.settle at now ⊢
  split at now
  · rename_i header known
    rw [target, known] at length
    refine settles_inspect known position (full.kept header known) (fun keys' due found => dated header keys' known due found)
      ?_ ?_
    · cases observed : framing.observed with
      | true => exact .inl rfl
      | false =>
        simp only [observed, Bool.false_eq_true, if_false] at length
        exact .inr (by omega)
    · intro keys' reached handshake result
      rw [← result]
      refine now header ?_
      rw [Header.fixed, handshake, if_pos rfl, reached]
      exact position
  · rename_i unknown
    rw [target, unknown] at length
    simp only at length
    have unobserved := full.fresh unknown
    split at now
    · rename_i header parsed
      have long := header.headerLen_le_evidence
      refine @settles_inspect providers interleaving { framing with
        header := some header, packetKeys := if header.handshake then framing.packetKeys else some keys } direction header rfl
        position ?_ ?_ (.inr (by simpa [length] using long)) keys ?_
      · rintro (observed | other)
        · exact absurd (unobserved.symm.trans observed) Bool.false_ne_true
        · simp [other]
      · rintro keys' (observed | other) found
        · exact absurd (unobserved.symm.trans observed) Bool.false_ne_true
        · simp only [other, Bool.false_eq_true, if_false, some.injEq] at found
          have same := now header (by rw [Header.fixed, other, if_neg Bool.false_ne_true, ← length]; exact position)
          rw [← found]
          rw [inspect_keys_other _ other] at same
          exact same
      · intro keys' reached handshake result
        rw [← result]
        refine now header ?_
        rw [Header.fixed, handshake, if_pos rfl, reached]
        exact position
    · rename_i code failed
      refine ⟨⟨fun running => (by cases running), fun running => (by cases running)⟩, ?_⟩
      rintro emission header keys' decoded ⟨⟩ content
      cases content

end Framing

namespace Interleaved

/-- What a run of bytes keeps: sound and dated framings, and the key state of every packet. -/
structure Keyed (providers : Providers) (interleaving : List (Direction × UInt8)) (state : Interleaved) : Prop where
  sound : ∀ direction, (state.framings.get direction).Sound
  dated : ∀ direction, Dated providers interleaving direction (state.framings.get direction)
  emitted : ∀ emission ∈ state.emissions, ∀ header keys decoded, emission.content = .packet header keys decoded →
    Fixed providers interleaving emission.direction emission.streamOffset header keys

theorem Dated.snoc {direction : Direction} {framing : Framing} (dated : Dated providers interleaving direction framing)
    {one : Direction × UInt8} (other : one.1 ≠ direction) : Dated providers (interleaving ++ [one]) direction framing := by
  refine ⟨fun running => ?_, fun running header keys known due found => (dated.fixed running header keys known due found).snoc one⟩
  rw [count_snoc, if_neg other]
  exact dated.position running

theorem run_snoc (providers : Providers) (state : Interleaved) (interleaving : List (Direction × UInt8))
    (one : Direction × UInt8) : state.run providers (interleaving ++ [one]) = (state.run providers interleaving).byte providers one := by
  simp [run, foldl_append]

theorem Keyed.byte (keyed : Keyed providers interleaving (new.run providers interleaving)) (one : Direction × UInt8) :
    Keyed providers (interleaving ++ [one]) (new.run providers (interleaving ++ [one])) := by
  obtain ⟨direction, value⟩ := one
  have step := run_snoc providers new interleaving (direction, value)
  have later : ∀ framing : Framing, framing = (new.run providers interleaving).framings.get direction →
      (Framing.byte providers framing direction (new.run providers interleaving).keys value).keys =
        (new.run providers (interleaving ++ [(direction, value)])).keys := by
    rintro framing rfl
    rw [step]
    rfl
  have here := keyed.dated direction
  have mine := keyed.sound direction
  have settled : Dated providers (interleaving ++ [(direction, value)]) direction
        (Framing.byte providers ((new.run providers interleaving).framings.get direction) direction
          (new.run providers interleaving).keys value).framing ∧
      ∀ emission ∈ (Framing.byte providers ((new.run providers interleaving).framings.get direction) direction
          (new.run providers interleaving).keys value).emissions, ∀ header keys decoded,
        emission.content = .packet header keys decoded →
        Fixed providers (interleaving ++ [(direction, value)]) emission.direction emission.streamOffset header keys := by
    have after := later _ rfl
    unfold Framing.byte at after ⊢
    by_cases halted : ((new.run providers interleaving).framings.get direction).stopped = true
    · rw [if_pos halted]
      refine ⟨⟨fun running => ?_, fun running => ?_⟩, fun emission listed => (by cases listed)⟩
      all_goals exact absurd (halted.symm.trans running) (by decide)
    rw [if_neg halted] at after ⊢
    have running : ((new.run providers interleaving).framings.get direction).stopped = false := by simpa using halted
    have room := mine.room running
    have position := here.position running
    have filled := @Framing.Sound.filled _ mine running [value] (by rw [length_singleton]; exact room)
    have counted : count direction (interleaving ++ [(direction, value)]) = count direction interleaving + 1 := by
      rw [count_snoc, if_pos rfl]
    have dated := here.fixed running
    dsimp only at after ⊢
    rw [length_append] at after ⊢
    by_cases less : ((new.run providers interleaving).framings.get direction).buffer.length + [value].length <
        ((new.run providers interleaving).framings.get direction).target
    · rw [if_pos less]
      refine ⟨⟨fun _ => ?_, ?_⟩, fun emission listed => (by cases listed)⟩
      · rw [counted, ← position, length_append, length_singleton, ← Nat.add_assoc]
      · exact fun _ header keys known due found => (dated header keys known due found).snoc _
    · rw [if_neg less] at after ⊢
      rw [if_neg less] at filled
      have settles := @Framing.Full.settles providers (interleaving ++ [(direction, value)]) _ direction filled (new.run providers interleaving).keys
        (by rw [counted, ← position, length_append, length_singleton, ← Nat.add_assoc])
        (fun header keys known due found => (dated header keys known due found).snoc _)
        (fun header place => ⟨interleaving, (direction, value), [], rfl, rfl, place.symm, after⟩)
      refine ⟨settles.dated, fun emission listed header keys decoded content => ?_⟩
      obtain ⟨fixed, direct⟩ := settles.emitted emission header keys decoded (mem_toList.mp listed) content
      rw [direct]
      exact fixed
  rw [step]
  have bytes : (new.run providers interleaving).byte providers (direction, value) =
      (new.run providers interleaving).bytes providers direction [value] := rfl
  have single : Framing.bytes providers ((new.run providers interleaving).framings.get direction) direction
      (new.run providers interleaving).keys [value] =
      Framing.byte providers ((new.run providers interleaving).framings.get direction) direction
        (new.run providers interleaving).keys value := by
    simp [Framing.bytes, Bytewise.join]
  rw [bytes]
  refine ⟨?_, ?_, ?_⟩
  · intro other
    simp only [Interleaved.bytes, single]
    by_cases same : other = direction
    · subst same
      rw [Sides.get_set_self]
      exact mine.byte _ _
    · rw [Sides.get_set_ne _ same]
      exact keyed.sound other
  · intro other
    simp only [Interleaved.bytes, single]
    by_cases same : other = direction
    · subst same
      rw [Sides.get_set_self]
      exact settled.1
    · rw [Sides.get_set_ne _ same]
      exact Dated.snoc (keyed.dated other) fun equal => same equal.symm
  · intro emission listed header keys decoded content
    simp only [Interleaved.bytes, single] at listed
    rcases mem_append.mp listed with before | now
    · exact (keyed.emitted emission before header keys decoded content).snoc _
    · exact settled.2 emission now header keys decoded content

theorem keyed_run (interleaving : List (Direction × UInt8)) : Keyed providers interleaving (new.run providers interleaving) := by
  induction interleaving using List.reverseRecOn with
  | nil =>
    refine ⟨?_, ?_, fun emission listed => (by cases listed)⟩
    · intro direction
      cases direction <;> exact Framing.sound_new
    · intro direction
      cases direction <;> exact ⟨fun _ => rfl, fun _ header keys known => (by cases known)⟩
  | append_singleton front one ih => exact ih.byte one

end Interleaved

end Ferrum.Rocom
