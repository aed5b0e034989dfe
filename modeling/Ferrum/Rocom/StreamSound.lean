import Ferrum.Rocom.Session

namespace Ferrum.Rocom

namespace Framing

/-- The buffer is short of its target, and empty once the direction has stopped. -/
structure Sound (framing : Framing) : Prop where
  quiet : framing.stopped = true → framing.buffer = []
  room : framing.stopped = false → framing.buffer.length < framing.target
  fresh : framing.stopped = false → framing.header = none → framing.observed = false
  kept : framing.stopped = false → ∀ header, framing.header = some header →
    framing.observed = true ∨ header.handshake = false → framing.packetKeys.isSome

/-- The buffer has reached its target. -/
structure Full (framing : Framing) : Prop where
  running : framing.stopped = false
  full : framing.buffer.length = framing.target
  fresh : framing.header = none → framing.observed = false
  kept : ∀ header, framing.header = some header → framing.observed = true ∨ header.handshake = false →
    framing.packetKeys.isSome

theorem sound_new : Sound new :=
  ⟨fun stopped => (by cases stopped), fun _ => (by decide), fun _ _ => rfl, fun _ _ known => (by cases known)⟩

variable {providers : Providers} {framing : Framing} {direction : Direction}

theorem sound_of_stopped (stopped : framing.stopped = true) (quiet : framing.buffer = []) : Sound framing := by
  refine ⟨fun _ => quiet, ?_, ?_, ?_⟩
  all_goals
    intro running
    rw [stopped] at running
    cases running

theorem sound_complete {header : Header} (running : framing.stopped = false) (known : framing.header = some header)
    (room : framing.buffer.length ≠ header.total → framing.buffer.length < framing.target)
    (kept : framing.observed = true ∨ header.handshake = false → framing.packetKeys.isSome)
    (keys : KeyState) (seen : List KeySnapshot) :
    (framing.complete providers direction header keys seen).framing.Sound := by
  unfold complete
  by_cases full : framing.buffer.length = header.total
  · rw [if_pos full]
    refine ⟨fun _ => rfl, fun _ => (by decide : 0 < headerLen), fun _ _ => rfl, fun _ other found => (by cases found)⟩
  · rw [if_neg full]
    refine ⟨fun stopped => ?_, fun _ => room full, fun _ none => ?_, fun _ other found => ?_⟩
    · rw [running] at stopped
      cases stopped
    · rw [known] at none
      cases none
    · rw [known] at found
      cases found
      exact kept

theorem sound_inspect {header : Header} (running : framing.stopped = false) (known : framing.header = some header)
    (reached : framing.observed = true → framing.buffer.length = header.total)
    (below : framing.buffer.length ≤ header.evidence ∨ framing.observed = true)
    (kept : framing.observed = true ∨ header.handshake = false → framing.packetKeys.isSome) (keys : KeyState) :
    (framing.inspect providers direction header keys).framing.Sound := by
  have short := header.evidence_le_total
  unfold inspect
  by_cases due : (!framing.observed) = true ∧ header.evidence ≤ framing.buffer.length
  · rw [if_pos due]
    obtain ⟨unseen, long⟩ := due
    have unobserved : framing.observed = false := by simpa using unseen
    have length : framing.buffer.length = header.evidence := by
      rcases below with below | observed
      · omega
      · rw [unobserved] at observed
        cases observed
    refine @sound_complete providers { framing with
      observed := true
      packetKeys := if header.handshake then
        some (keys.observe direction framing.offset header (framing.buffer.drop headerLen)).1 else framing.packetKeys }
      direction header running known ?_ ?_ _ _
    · intro more
      simp only [target, known, if_true] at more ⊢
      omega
    · intro _
      split
      · rfl
      · rename_i other
        exact kept (.inr (by simpa using other))
  · rw [if_neg due]
    refine sound_complete running known ?_ kept keys []
    intro more
    cases observed : framing.observed with
    | true => exact absurd (reached observed) more
    | false =>
      have early : ¬header.evidence ≤ framing.buffer.length := fun long => due ⟨by rw [observed]; rfl, long⟩
      rw [target, known]
      simp only [observed, Bool.false_eq_true, if_false]
      omega

theorem Full.settle (full : framing.Full) (keys : KeyState) : (framing.settle providers direction keys).framing.Sound := by
  have length := full.full
  unfold Framing.settle
  split
  · rename_i header known
    rw [target, known] at length
    refine sound_inspect full.running known ?_ ?_ (full.kept header known) keys
    · intro observed
      simpa [observed] using length
    · cases observed : framing.observed with
      | true => exact .inr rfl
      | false =>
        simp only [observed, Bool.false_eq_true, if_false] at length
        exact .inl (by omega)
  · rename_i unknown
    rw [target, unknown] at length
    have unobserved := full.fresh unknown
    split
    · rename_i header parsed
      have long := header.headerLen_le_evidence
      refine @sound_inspect providers { framing with
        header := some header, packetKeys := if header.handshake then framing.packetKeys else some keys }
        direction header full.running rfl ?_ ?_ ?_ keys
      · intro observed
        rw [unobserved] at observed
        cases observed
      · simp only at length
        exact .inl (by simpa [length] using long)
      · rintro (observed | other)
        · rw [unobserved] at observed
          cases observed
        · simp [other]
    · exact sound_of_stopped rfl rfl

theorem Sound.filled (sound : framing.Sound) (running : framing.stopped = false) {taken : List UInt8}
    (fits : framing.buffer.length + taken.length ≤ framing.target) :
    if framing.buffer.length + taken.length < framing.target then
      Sound { framing with buffer := framing.buffer ++ taken }
    else Full { framing with buffer := framing.buffer ++ taken } := by
  have target' : target { framing with buffer := framing.buffer ++ taken } = framing.target := rfl
  split
  · rename_i less
    refine ⟨fun stopped => ?_, fun _ => ?_, sound.fresh, sound.kept⟩
    · rw [running] at stopped
      cases stopped
    · rw [target', List.length_append]
      exact less
  · rename_i more
    refine ⟨running, ?_, sound.fresh running, sound.kept running⟩
    rw [target', List.length_append]
    omega

end Framing

namespace Stream

variable {providers : Providers} {stream : Stream} {context : Context}

theorem finish_buffer (stream : Stream) (context : Context) : (stream.finish context).1.buffer = [] := by
  unfold finish
  by_cases empty : stream.buffer = []
  · rw [if_pos empty]
    exact empty
  · rw [if_neg empty]

theorem sound_reject (stream : Stream) (context : Context) (bytes : List UInt8) (offset : Nat) (code : String) :
    (stream.reject context bytes offset code).1.Sound :=
  Framing.sound_of_stopped rfl (finish_buffer stream context)

theorem sound_fill (sound : stream.Sound) (running : stream.stopped = false) (keys : KeyState) (capacity : Nat)
    {taken : List UInt8} (fits : stream.buffer.length + taken.length ≤ stream.target) (rest : List UInt8) :
    (stream.fill providers context keys capacity taken rest).stream.Sound := by
  have filled := sound.filled running fits
  unfold fill
  simp only [List.length_append]
  by_cases less : stream.buffer.length + taken.length < stream.target
  · rw [if_pos less]
    rw [if_pos less] at filled
    exact filled
  · rw [if_neg less]
    rw [if_neg less] at filled
    exact filled.settle keys

/-- A turn of a stream that goes on: the record is rejected for its length, or the buffer takes as many bytes as fit. -/
def Turned (providers : Providers) (stream begun : Stream) (context : Context) (keys : KeyState) (input : List UInt8) : Prop :=
  let take := min (stream.target - stream.buffer.length) input.length
  (context.capacityLimit < stream.buffer.length + take ∧
    stream.turn providers context keys input =
      ⟨(begun.reject context input (begun.offset + begun.buffer.length) "buffer_limit").1, keys,
        (begun.reject context input (begun.offset + begun.buffer.length) "buffer_limit").2, [], 1, none⟩) ∨
  ∃ capacity, capacity ≤ max stream.capacity (2 * (stream.buffer.length + take)) ∧
    stream.turn providers context keys input =
      begun.fill providers context keys capacity (input.take take) (input.drop take)

theorem turn_running (running : stream.stopped = false) (keys : KeyState) (input : List UInt8) :
    ∃ begun : Stream, begun.toFraming = stream.toFraming ∧ Turned providers stream begun context keys input := by
  have turned : ∀ begun : Stream, begun.toFraming = stream.toFraming → begun.capacity = stream.capacity →
      stream.turn providers context keys input =
        (let take := min (begun.target - begun.buffer.length) input.length
        let needed := begun.buffer.length + take
        if begun.capacity < needed ∧ context.capacityLimit < needed then
          let rejected := begun.reject context input (begun.offset + begun.buffer.length) "buffer_limit"
          ⟨rejected.1, keys, rejected.2, [], 1, none⟩
        else
          let capacity :=
            if begun.capacity < needed then min (max needed (begun.capacity * 2)) context.capacityLimit else begun.capacity
          begun.fill providers context keys capacity (input.take take) (input.drop take)) →
      Turned providers stream begun context keys input := by
    intro begun same capacity turned
    unfold Turned
    rw [turned, ← same, ← capacity]
    dsimp only
    by_cases full : begun.capacity < begun.buffer.length + min (begun.target - begun.buffer.length) input.length ∧
        context.capacityLimit < begun.buffer.length + min (begun.target - begun.buffer.length) input.length
    · rw [if_pos full]
      exact .inl ⟨full.2, rfl⟩
    · rw [if_neg full]
      refine .inr ⟨_, ?_, rfl⟩
      split <;> omega
  unfold turn at turned
  rw [if_neg (by rw [running]; exact Bool.false_ne_true)] at turned
  by_cases empty : stream.buffer = []
  · rw [if_pos empty] at turned
    exact ⟨{ stream with sourceEvent := context.event }, rfl, turned { stream with sourceEvent := context.event } rfl rfl rfl⟩
  · rw [if_neg empty] at turned
    exact ⟨stream, rfl, turned stream rfl rfl rfl⟩

theorem sound_turn (sound : stream.Sound) (keys : KeyState) (input : List UInt8) :
    (stream.turn providers context keys input).stream.Sound := by
  cases halted : stream.stopped with
  | true =>
    unfold turn
    rw [if_pos halted]
    exact Framing.sound_of_stopped halted (sound.quiet halted)
  | false =>
    obtain ⟨begun, same, ⟨-, rejected⟩ | ⟨capacity, -, filled⟩⟩ := @turn_running providers stream context halted keys input
    · rw [rejected]
      exact sound_reject begun context input _ "buffer_limit"
    · rw [filled]
      have room := sound.room halted
      have begunSound : begun.Sound := by rw [same]; exact sound
      have going : begun.stopped = false := by rw [same]; exact halted
      refine sound_fill begunSound going keys capacity ?_ _
      rw [same, List.length_take]
      omega

theorem turn_progress (sound : stream.Sound) (keys : KeyState) {input rest : List UInt8} (more : input ≠ [])
    (left : (stream.turn providers context keys input).rest = some rest) : rest.length < input.length := by
  have positive := List.length_pos_iff.mpr more
  cases halted : stream.stopped with
  | true =>
    unfold turn at left
    rw [if_pos halted] at left
    cases left
  | false =>
    have room := sound.room halted
    obtain ⟨begun, same, ⟨-, rejected⟩ | ⟨capacity, -, filled⟩⟩ := @turn_running providers stream context halted keys input
    · rw [rejected] at left
      cases left
    · rw [filled, fill] at left
      dsimp only at left
      split at left
      · cases left
      · cases left
        rw [List.length_drop]
        omega

theorem feedFor_rule {motive : Stream → KeyState → List UInt8 → Fed → Prop}
    (nil : ∀ stream keys, stream.Sound → motive stream keys [] ⟨stream, keys, [], [], 0, none⟩)
    (last : ∀ stream keys input, stream.Sound → input ≠ [] → (turn providers stream context keys input).rest = none →
      motive stream keys input (turn providers stream context keys input))
    (more : ∀ stream keys input rest, stream.Sound → input ≠ [] → (turn providers stream context keys input).rest = some rest →
      ∀ later, later.rest = none →
        motive (turn providers stream context keys input).stream (turn providers stream context keys input).keys rest later →
        motive stream keys input ((turn providers stream context keys input).join later))
    {turns : Nat} (sound : stream.Sound) (keys : KeyState) {input : List UInt8} (enough : input.length < turns) :
    motive stream keys input (stream.feedFor providers turns context keys input) ∧
      (stream.feedFor providers turns context keys input).rest = none := by
  induction turns generalizing stream keys input with
  | zero => omega
  | succ turns ih =>
    unfold feedFor
    by_cases nothing : input = []
    · rw [if_pos nothing, nothing]
      exact ⟨nil stream keys sound, rfl⟩
    rw [if_neg nothing]
    dsimp only
    split
    · rename_i none
      exact ⟨last stream keys input sound nothing none, none⟩
    · rename_i rest left
      have shorter := turn_progress sound keys nothing left
      obtain ⟨later, ended⟩ := @ih _ (@sound_turn providers stream context sound keys input)
        (turn providers stream context keys input).keys rest (by omega)
      exact ⟨more stream keys input rest sound nothing left _ ended later, ended⟩

theorem feed_rest (sound : stream.Sound) (keys : KeyState) (input : List UInt8) :
    (stream.feed providers context keys input).rest = none :=
  (feedFor_rule (motive := fun _ _ _ _ => True) (fun _ _ _ => trivial) (fun _ _ _ _ _ _ => trivial)
    (fun _ _ _ _ _ _ _ _ _ _ => trivial) sound keys (Nat.lt_succ_self _)).2

theorem sound_feed (sound : stream.Sound) (keys : KeyState) (input : List UInt8) :
    (stream.feed providers context keys input).stream.Sound := by
  refine (feedFor_rule (motive := fun _ _ _ fed => fed.stream.Sound) ?_ ?_ ?_ sound keys (Nat.lt_succ_self _)).1
  · exact fun _ _ sound => sound
  · exact fun stream keys input sound _ _ => sound_turn sound keys input
  · exact fun _ _ _ _ _ _ _ later _ done => done

end Stream

end Ferrum.Rocom
