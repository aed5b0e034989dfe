import Ferrum.Tun.ReassemblySound

namespace Ferrum.Tun

open List

/-- The pieces of a datagram: at most as many as an entry holds, none of them empty, covering the
payload. -/
structure Pieces (pieces : List Piece) (total : Nat) : Prop where
  few : pieces.length ≤ maxFragmentsPerEntry
  nonempty : ∀ piece ∈ pieces, piece.bytes ≠ []
  covered : Extent.coverage 0 pieces = some total

namespace Pieces

variable {pieces : List Piece} {total : Nat}

variable {piece : Piece}

theorem offset_lt (split : Pieces pieces total) (member : piece ∈ pieces) : piece.offset < piece.stop := by
  have positive := length_pos_iff.mpr (split.nonempty piece member)
  unfold Extent.stop
  omega

theorem increasing (split : Pieces pieces total) : pieces.Pairwise fun first second => first.offset < second.offset := by
  refine (Extent.coverage_ordered split.covered).imp_of_mem ?_
  intro first second member _ order
  exact Nat.lt_of_lt_of_le (split.offset_lt member) order

theorem stop_le (split : Pieces pieces total) (member : piece ∈ pieces) : piece.stop ≤ total := by
  have last := (Extent.coverage_holds split.covered (piece.stop - 1)).mp
    ⟨piece, member, by have := split.offset_lt member; unfold Extent.Holds; omega⟩
  omega

end Pieces

/-- The fragment is one of the fragments of a datagram: of its key and generation, with one of its
pieces, last exactly if it ends the payload, and with the datagram's layout. -/
structure Arrival.Carries (arrival : Arrival) (key : FragmentKey) (generation : Nat) (layout : Layout) (total : Nat) :
    Prop where
  key : arrival.key = key
  generation : arrival.generation = generation
  identified : arrival.fragment.identityMatchesKey = true
  proper : arrival.fragment.Proper arrival.packet
  more : arrival.fragment.moreFragments = decide (arrival.piece.stop ≠ total)
  shape : arrival.layout = some (if arrival.fragment.offset = 0 then layout else layout.identity)
  matched : ∀ current : Layout, current.identity = layout.identity →
    layoutMatchesPacket current arrival.packet arrival.fragment = true

def anyFirst (arrived : List Arrival) : Bool := arrived.any fun arrival => decide (arrival.fragment.offset = 0)

def anyLast (arrived : List Arrival) : Bool := arrived.any fun arrival => !arrival.fragment.moreFragments

/-- What the entry of a datagram holds while its fragments arrive. -/
structure Entry.Collects (entry : Entry) (deadline : Int) (layout : Layout) (total : Nat) (arrived : List Arrival) : Prop where
  deadline : entry.deadlineMillis = deadline
  layout : entry.layout = if anyFirst arrived then layout else layout.identity
  final : entry.finalPayloadLen = if anyLast arrived then some total else none
  pieces : entry.pieces.Perm (arrived.map Arrival.piece)
  sorted : entry.pieces.Pairwise fun first second => first.offset ≤ second.offset

theorem Layout.identity_identity (layout : Layout) : layout.identity.identity = layout.identity := by
  cases layout <;> rfl

theorem Layout.identity_ite (layout : Layout) (chosen : Prop) [Decidable chosen] :
    (if chosen then layout else layout.identity).identity = layout.identity := by
  split
  · rfl
  · exact layout.identity_identity

section

variable {arrival : Arrival} {key : FragmentKey} {generation total : Nat} {layout : Layout}

theorem Arrival.Carries.captured (carries : arrival.Carries key generation layout total) {found : Bool}
    (fresh : found = true → arrival.fragment.offset ≠ 0) :
    captureFirstHeader (if found then layout else layout.identity) arrival.packet arrival.fragment =
      some (if found || decide (arrival.fragment.offset = 0) then layout else layout.identity) := by
  unfold captureFirstHeader
  split
  · rename_i later
    simp [later]
  · rename_i zero
    have first : arrival.fragment.offset = 0 := not_not.mp zero
    have missing : found = false := by
      by_contra other
      exact fresh (by simpa using other) first
    have shaped := carries.shape
    rw [if_pos first] at shaped
    unfold Arrival.layout layoutFor at shaped
    subst missing
    simp only [Bool.false_eq_true, if_false, first, decide_true, Bool.or_true, if_true]
    split at shaped
    · rename_i headerLen shape
      simp only [Option.bind_eq_bind, Option.bind_eq_some_iff] at shaped
      obtain ⟨header, found, normalized, _, same⟩ := shaped
      rw [if_pos first] at same
      cases same
      simp [Layout.identity, shape, found]
    · rename_i fragmentOffset previousOffset shape
      split at shaped
      · simp at shaped
      · simp only [Option.bind_eq_bind, Option.bind_eq_some_iff] at shaped
        obtain ⟨front, found, same⟩ := shaped
        cases same
        simp [Layout.identity, shape]

end

section

variable {pieces : List Piece} {total : Nat} {arrived remaining : List Arrival} {arrival : Arrival} {key : FragmentKey}
  {generation : Nat} {layout : Layout} {deadline : Int} {entry : Entry}

/-- The pieces of the fragments that have arrived, of the one that arrives and of the others are
the pieces of the datagram. -/
def Completes (arrived : List Arrival) (arrival : Arrival) (remaining : List Arrival) (pieces : List Piece) : Prop :=
  ((arrived ++ arrival :: remaining).map Arrival.piece).Perm pieces

variable {other : Arrival}

theorem Pieces.separate (split : Pieces pieces total) (order : Completes arrived arrival remaining pieces)
    (member : other ∈ arrived) : other.piece.stop ≤ arrival.piece.offset ∨ arrival.piece.stop ≤ other.piece.offset := by
  have apart : pieces.Pairwise fun first second => first.stop ≤ second.offset ∨ second.stop ≤ first.offset :=
    (Extent.coverage_ordered split.covered).imp Or.inl
  have both := order.pairwise_iff (fun order => Or.symm order) |>.mpr apart
  rw [map_append, map_cons] at both
  exact (pairwise_append.mp both).2.2 other.piece (mem_map_of_mem member) arrival.piece mem_cons_self

theorem Pieces.stop_le_of_arrived (split : Pieces pieces total) (order : Completes arrived arrival remaining pieces)
    (member : other ∈ arrived ++ [arrival]) : other.piece.stop ≤ total := by
  refine split.stop_le (order.mem_iff.mp (mem_map_of_mem ?_))
  rcases mem_append.mp member with old | new
  · exact mem_append_left _ old
  · rw [mem_singleton.mp new]
    exact mem_append_right _ mem_cons_self

theorem Pieces.fewer (split : Pieces pieces total) (order : Completes arrived arrival remaining pieces) :
    arrived.length < maxFragmentsPerEntry := by
  have length := order.length_eq
  have few := split.few
  simp only [length_map, length_append, length_cons] at length
  omega

theorem Entry.Collects.grows (entry : Entry) (split : Pieces pieces total) (order : Completes arrived arrival remaining pieces)
    (carries : arrival.Carries key generation layout total) (deadlineMillis : entry.deadlineMillis = deadline)
    (shape : entry.layout = if anyFirst (arrived ++ [arrival]) then layout else layout.identity)
    (final : entry.finalPayloadLen = if anyLast arrived then some total else none)
    (held : entry.pieces.Perm (arrived.map Arrival.piece)) :
    ∃ grown, entry.Grows arrival.packet arrival.fragment grown ∧ grown.Collects deadline layout total (arrived ++ [arrival]) := by
  have stop := carries.proper.stop
  have learned : entry.learnFinalLen arrival.fragment (arrival.fragment.offset + arrival.fragment.payloadLen) =
      .ok (if anyLast (arrived ++ [arrival]) then some total else none) := by
    have bound := split.stop_le_of_arrived order (mem_append_right arrived (mem_singleton_self arrival))
    have more := carries.more
    have anyLater : anyLast (arrived ++ [arrival]) = (anyLast arrived || !arrival.fragment.moreFragments) := by
      simp [anyLast]
    unfold learnFinalLen
    rw [final, anyLater, ← stop, more]
    cases known : anyLast arrived with
    | true =>
      simp only [if_true, Bool.true_or]
      refine if_neg ?_
      simp
      omega
    | false =>
      simp only [Bool.false_eq_true, if_false, Bool.false_or]
      by_cases last : arrival.piece.stop = total
      · simp only [last, ne_eq, not_true, decide_false, Bool.false_eq_true, if_false, Bool.not_false, if_true]
        refine if_neg ?_
        simp only [any_eq_true, decide_eq_true_eq, not_exists, not_and, not_lt]
        intro piece member
        obtain ⟨other, inside, rfl⟩ := mem_map.mp (held.mem_iff.mp member)
        exact split.stop_le_of_arrived order (mem_append_left _ inside)
      · simp [last]
  refine ⟨⟨deadline, entry.deadlineId, entry.layout, _, _⟩, ⟨?_, ?_, learned, rfl, rfl, deadlineMillis.symm, rfl⟩,
    rfl, shape, rfl, ?_, Extent.sortByOffset_sorted _⟩
  · have fewer := split.fewer order
    have length := held.length_eq
    rw [length_map] at length
    omega
  · intro piece member
    obtain ⟨other, inside, rfl⟩ := mem_map.mp (held.mem_iff.mp member)
    rw [← stop]
    exact split.separate order inside
  · rw [map_append]
    exact (Extent.sortByOffset_perm _).trans (held.append_right _)

theorem Entry.Collects.incomplete (split : Pieces pieces total) (order : Completes arrived arrival remaining pieces)
    (collects : entry.Collects deadline layout total (arrived ++ [arrival])) (missing : remaining ≠ []) :
    entry.completeLen = none := by
  by_contra complete
  obtain ⟨finalLen, found⟩ := Option.ne_none_iff_exists'.mp complete
  obtain ⟨known, covered⟩ := Entry.completeLen_eq_some.mp found
  have same : finalLen = total := by
    rw [collects.final] at known
    split at known
    · exact (Option.some.inj known).symm
    · simp at known
  obtain ⟨first, rest, rfl⟩ := exists_cons_of_ne_nil missing
  have gathered := Extent.coverage_length covered
  have whole := Extent.coverage_length split.covered
  have some := (collects.pieces.flatMap_right Extent.bytes).length_eq
  have all := (order.flatMap_right Extent.bytes).length_eq
  have positive : first.piece.bytes ≠ [] := by
    refine split.nonempty _ (order.mem_iff.mp (mem_map_of_mem ?_))
    simp
  have length := length_pos_iff.mpr positive
  simp only [map_append, map_cons, map_nil, flatMap_append, flatMap_cons, flatMap_nil,
    length_append, length_nil] at some all
  omega

theorem Entry.Collects.complete (split : Pieces pieces total) (order : Completes arrived arrival [] pieces)
    (several : 0 < total) (carries : ∀ other ∈ arrived ++ [arrival], other.Carries key generation layout total)
    (collects : entry.Collects deadline layout total (arrived ++ [arrival])) :
    entry.completeLen = some total ∧ entry.layout = layout ∧ entry.pieces = pieces := by
  have all : entry.pieces = pieces :=
    Extent.eq_of_sorted (collects.pieces.trans order) collects.sorted split.increasing
  have covered : Extent.coverage 0 entry.pieces = some total := all ▸ split.covered
  have holder : ∀ i, i < total → ∃ other ∈ arrived ++ [arrival], other.piece.Holds i := by
    intro i inside
    obtain ⟨piece, member, holds⟩ := (Extent.coverage_holds covered i).mpr ⟨Nat.zero_le i, inside⟩
    obtain ⟨other, inside, rfl⟩ := mem_map.mp (collects.pieces.mem_iff.mp member)
    exact ⟨other, inside, holds⟩
  have last : anyLast (arrived ++ [arrival]) = true := by
    obtain ⟨other, member, holds⟩ := holder (total - 1) (by omega)
    have bound := split.stop_le_of_arrived order member
    have stop : other.piece.stop = total := by
      unfold Extent.Holds at holds
      omega
    refine any_eq_true.mpr ⟨other, member, ?_⟩
    simp [(carries other member).more, stop]
  have first : anyFirst (arrived ++ [arrival]) = true := by
    obtain ⟨other, member, holds⟩ := holder 0 several
    exact any_eq_true.mpr ⟨other, member, decide_eq_true (Nat.le_zero.mp holds.1)⟩
  refine ⟨Entry.completeLen_eq_some.mpr ⟨?_, covered⟩, ?_, all⟩
  · rw [collects.final, if_pos last]
  · rw [collects.layout, if_pos first]

end

/-- The fragments of a key among some calls, in the order of their arrival. -/
def arrivalsOf (key : FragmentKey) (calls : List ReassemblyCall) : List Arrival :=
  calls.filterMap fun call => match call with
    | .accept arrival => if arrival.key = key then some arrival else none
    | _ => none

theorem mem_arrivalsOf {key : FragmentKey} {calls : List ReassemblyCall} {arrival : Arrival} :
    arrival ∈ arrivalsOf key calls ↔ .accept arrival ∈ calls ∧ arrival.key = key := by
  unfold arrivalsOf
  rw [mem_filterMap]
  constructor
  · rintro ⟨call, member, found⟩
    cases call with
    | accept other =>
      dsimp only at found
      split at found
      · rename_i same
        cases Option.some.inj found
        exact ⟨member, same⟩
      · simp at found
    | expire | dropKey | setGeneration | clear | nextDeadlineMillis => simp at found
  · rintro ⟨member, same⟩
    exact ⟨.accept arrival, member, if_pos same⟩

/-- A call that leaves an entry in place unless it is a fragment for it: in the entry's generation
and before its deadline. -/
def ReassemblyCall.Within (key : FragmentKey) (generation : Nat) (deadline : Int) : ReassemblyCall → Prop
  | accept arrival => arrival.generation = generation ∧ arrival.now < deadline
  | expire now => now < deadline
  | dropKey other => other ≠ key
  | setGeneration other => other = generation
  | clear => False
  | nextDeadlineMillis => True

namespace ReassemblyTable

def run (table : ReassemblyTable) (calls : List ReassemblyCall) : ReassemblyTable := calls.foldl step table

theorem Scheduled.run {table : ReassemblyTable} (scheduled : table.Scheduled) (calls : List ReassemblyCall) :
    (table.run calls).Scheduled := by
  induction calls generalizing table with
  | nil => exact scheduled
  | cons call rest ih => exact ih (scheduled.step call)

/-- The table while the fragments of a datagram arrive. -/
structure Gathers (table : ReassemblyTable) (key : FragmentKey) (generation : Nat) (deadline : Int) (layout : Layout)
    (total : Nat) (arrived : List Arrival) : Prop where
  scheduled : table.Scheduled
  generation : table.generation = generation
  entry : ∃ entry, table.entries.lookup key = some entry ∧ entry.Collects deadline layout total arrived

variable {table : ReassemblyTable} {key : FragmentKey} {generation total : Nat} {deadline : Int} {layout : Layout}
  {arrived remaining : List Arrival} {arrival : Arrival} {pieces : List Piece} {header : List UInt8}

variable {call : ReassemblyCall} {entry : Entry} {calls later : List ReassemblyCall}

theorem Gathers.other (gathers : table.Gathers key generation deadline layout total arrived)
    (within : call.Within key generation deadline) (notOurs : ∀ arrival, call = .accept arrival → arrival.key ≠ key) :
    (table.step call).Gathers key generation deadline layout total arrived := by
  obtain ⟨scheduled, same, entry, found, collects⟩ := gathers
  have late := collects.deadline
  cases call with
  | accept arrival =>
    obtain ⟨sameGeneration, early⟩ := within
    have accepts := table.accept_accepts arrival
    refine ⟨scheduled.step _, ?_, entry, ?_, collects⟩
    · rw [accepts.generation, settle, expire_generation, setGeneration_generation, sameGeneration]
    · rw [accepts.other_key (notOurs arrival rfl).symm]
      exact (scheduled.settle_lookup _ _ _ _).mpr ⟨same.trans sameGeneration.symm, found, late ▸ early⟩
  | expire now =>
    have early : now < deadline := within
    exact ⟨scheduled.step _, same, entry, (scheduled.expire_lookup now key entry).mpr ⟨found, late ▸ early⟩, collects⟩
  | dropKey other =>
    have different : other ≠ key := within
    exact ⟨scheduled.step _, same, entry, remove_lookup.mpr ⟨different.symm, found⟩, collects⟩
  | setGeneration other =>
    have equal : other = generation := within
    refine ⟨scheduled.step _, (setGeneration_generation _ _).trans equal, entry, ?_, collects⟩
    exact setGeneration_lookup.mpr ⟨same.trans equal.symm, found⟩
  | clear => exact within.elim
  | nextDeadlineMillis =>
    obtain ⟨entries, sameGeneration⟩ := table.nextDeadlineMillis_entries
    exact ⟨scheduled.step _, sameGeneration.trans same, entry, entries ▸ found, collects⟩

/-- What the table makes of a fragment of the datagram: the whole packet, if none is missing, or
an entry that holds it too. -/
structure Advances (result : ReassemblyTable × ReassemblyOutcome) (key : FragmentKey) (deadline : Int) (layout : Layout)
    (total : Nat) (arrived remaining : List Arrival) (whole : List UInt8) : Prop where
  last : remaining = [] → result.2 = .complete whole
  pending : remaining ≠ [] → result.2 = .pending
  entry : remaining ≠ [] → ∃ grown, result.1.entries.lookup key = some grown ∧ grown.Collects deadline layout total arrived

theorem join_advances {grown : Entry} (split : Pieces pieces total) (several : 0 < total)
    (order : Completes arrived arrival remaining pieces)
    (carries : ∀ other ∈ arrived ++ [arrival], other.Carries key generation layout total)
    (rebuilt : reconstructHeader layout total = some header) (grows : entry.Grows arrival.packet arrival.fragment grown)
    (collects : grown.Collects deadline layout total (arrived ++ [arrival])) :
    Advances (table.join arrival.packet arrival.fragment entry) arrival.key deadline layout total (arrived ++ [arrival])
      remaining (header ++ pieces.flatMap Extent.bytes) := by
  unfold join
  rw [Entry.addPiece_eq_ok.mpr grows]
  by_cases last : remaining = []
  · subst last
    obtain ⟨complete, sameLayout, samePieces⟩ := collects.complete split order several carries
    have whole : reconstruct grown total = some (header ++ pieces.flatMap Extent.bytes) := by
      rw [reconstruct, sameLayout, samePieces, rebuilt]
      rfl
    simp only [complete, whole]
    exact ⟨fun _ => rfl, fun missing => absurd rfl missing, fun missing => absurd rfl missing⟩
  · simp only [collects.incomplete split order last]
    exact ⟨fun none => absurd none last, fun _ => rfl, fun _ => ⟨grown, AList.lookup_insert table.entries, collects⟩⟩

theorem acceptPiece_live (split : Pieces pieces total) (several : 0 < total)
    (order : Completes arrived arrival remaining pieces)
    (carries : ∀ other ∈ arrived ++ [arrival], other.Carries key generation layout total)
    (rebuilt : reconstructHeader layout total = some header) (found : table.entries.lookup arrival.key = some entry)
    (collects : entry.Collects deadline layout total arrived) :
    Advances (table.acceptPiece arrival.packet arrival.fragment arrival.now) arrival.key deadline layout total
      (arrived ++ [arrival]) remaining (header ++ pieces.flatMap Extent.bytes) := by
  have own := carries arrival (by simp)
  have fresh : anyFirst arrived = true → arrival.fragment.offset ≠ 0 := by
    intro taken zero
    obtain ⟨other, member, first⟩ := any_eq_true.mp taken
    have otherZero := of_decide_eq_true first
    have left := (carries other (mem_append_left _ member)).proper.offset_lt
    have right := own.proper.offset_lt
    have apart := split.separate order member
    simp only [Arrival.offset_piece] at left right apart
    omega
  have captured := own.captured fresh
  have anyBoth : anyFirst (arrived ++ [arrival]) = (anyFirst arrived || decide (arrival.fragment.offset = 0)) := by
    simp [anyFirst]
  rw [← collects.layout, ← anyBoth] at captured
  obtain ⟨grown, grows, grownCollects⟩ := Entry.Collects.grows
    { entry with layout := if anyFirst (arrived ++ [arrival]) then layout else layout.identity }
    split order own collects.deadline rfl collects.final collects.pieces
  have matched : layoutMatchesPacket entry.layout arrival.packet arrival.fragment = true := by
    refine own.matched _ ?_
    rw [collects.layout]
    exact layout.identity_ite _
  unfold acceptPiece
  unfold Arrival.key at found
  rw [found]
  dsimp only
  rw [if_neg (not_not.mpr matched), captured]
  exact join_advances split several order carries rebuilt grows grownCollects

theorem acceptPiece_first (split : Pieces pieces total) (several : 0 < total) (order : Completes [] arrival remaining pieces)
    (carries : arrival.Carries key generation layout total) (rebuilt : reconstructHeader layout total = some header)
    (vacant : table.entries.lookup arrival.key = none) (room : table.entries.len < maxReassemblyEntries) :
    Advances (table.acceptPiece arrival.packet arrival.fragment arrival.now) arrival.key
      (saturatingAdd arrival.now reassemblyTimeoutMillis) layout total [arrival] remaining
      (header ++ pieces.flatMap Extent.bytes) := by
  have shape : anyFirst [arrival] = decide (arrival.fragment.offset = 0) := by simp [anyFirst]
  have shaped := carries.shape
  unfold Arrival.layout at shaped
  unfold acceptPiece
  unfold Arrival.key at vacant
  rw [vacant]
  dsimp only
  rw [shaped]
  dsimp only
  rw [if_neg (not_le.mpr room)]
  obtain ⟨grown, grows, collects⟩ := Entry.Collects.grows
    (table.openEntry arrival.fragment.key (if arrival.fragment.offset = 0 then layout else layout.identity) arrival.now).2
    split order carries rfl (by simp [openEntry, shape]) rfl .rfl
  exact join_advances split several order (by simpa using carries) rebuilt grows collects

theorem acceptCurrent_eq (carries : arrival.Carries key generation layout total) :
    table.acceptCurrent arrival.packet arrival.fragment arrival.now =
      table.compactDeadlinesIfNeeded.acceptPiece arrival.packet arrival.fragment arrival.now := by
  have proper := carries.proper
  unfold acceptCurrent
  rw [if_neg, if_neg, if_neg]
  · have bound := proper.bound
    omega
  · simp [proper.many]
  · rintro (other | length | empty)
    · exact other carries.identified
    · exact length proper.length
    · exact proper.nonempty empty

theorem Advances.gathers (advances : Advances (table.step (.accept arrival), table.outcome arrival) arrival.key deadline
      layout total arrived remaining header) (scheduled : table.Scheduled) (missing : remaining ≠ []) :
    (table.step (.accept arrival)).Gathers arrival.key arrival.generation deadline layout total arrived := by
  refine ⟨scheduled.step _, ?_, advances.entry missing⟩
  rw [(table.accept_accepts arrival).generation, settle, expire_generation, setGeneration_generation]

theorem Gathers.accept (gathers : table.Gathers arrival.key arrival.generation deadline layout total arrived)
    (split : Pieces pieces total) (several : 0 < total) (order : Completes arrived arrival remaining pieces)
    (carries : ∀ other ∈ arrived ++ [arrival], other.Carries key generation layout total)
    (rebuilt : reconstructHeader layout total = some header) (early : arrival.now < deadline) :
    Advances (table.step (.accept arrival), table.outcome arrival) arrival.key deadline layout total (arrived ++ [arrival])
      remaining (header ++ pieces.flatMap Extent.bytes) := by
  obtain ⟨scheduled, same, entry, found, collects⟩ := gathers
  have settled : (table.settle arrival.now arrival.generation).compactDeadlinesIfNeeded.entries.lookup arrival.key =
      some entry := by
    rw [(compactDeadlinesIfNeeded_reschedules _).entries]
    exact (scheduled.settle_lookup _ _ _ _).mpr ⟨same, found, collects.deadline ▸ early⟩
  have advances := acceptPiece_live split several order carries rebuilt settled collects
  rw [← acceptCurrent_eq (carries arrival (by simp))] at advances
  exact advances

theorem accept_first (split : Pieces pieces total) (several : 0 < total) (order : Completes [] arrival remaining pieces)
    (carries : arrival.Carries key generation layout total) (rebuilt : reconstructHeader layout total = some header)
    (vacant : (table.settle arrival.now arrival.generation).entries.lookup arrival.key = none)
    (room : (table.settle arrival.now arrival.generation).entries.len < maxReassemblyEntries) :
    Advances (table.step (.accept arrival), table.outcome arrival) arrival.key
      (saturatingAdd arrival.now reassemblyTimeoutMillis) layout total [arrival] remaining
      (header ++ pieces.flatMap Extent.bytes) := by
  have same := (compactDeadlinesIfNeeded_reschedules (table.settle arrival.now arrival.generation)).entries
  rw [← same] at vacant room
  have advances := acceptPiece_first split several order carries rebuilt vacant room
  rw [← acceptCurrent_eq carries] at advances
  exact advances

theorem arrivalsOf_accept (same : arrival.key = key) :
    arrivalsOf key (.accept arrival :: calls) = arrival :: arrivalsOf key calls := by
  simp [arrivalsOf, same]

theorem arrivalsOf_other (notOurs : ∀ arrival, call = .accept arrival → arrival.key ≠ key) :
    arrivalsOf key (call :: calls) = arrivalsOf key calls := by
  cases call with
  | accept arrival => simp [arrivalsOf, notOurs arrival rfl]
  | expire | dropKey | setGeneration | clear | nextDeadlineMillis => rfl

/-- What the table answers to the fragment: the whole packet if no later call brings another
fragment of its key. -/
def expectedOutcome (key : FragmentKey) (later : List ReassemblyCall) (whole : List UInt8) : ReassemblyOutcome :=
  if arrivalsOf key later = [] then .complete whole else .pending

theorem Advances.outcome {whole : List UInt8}
    (advances : Advances (table.step (.accept arrival), table.outcome arrival) arrival.key deadline layout total arrived
      (arrivalsOf key later) whole) : table.outcome arrival = expectedOutcome key later whole := by
  unfold expectedOutcome
  split
  · rename_i none
    exact advances.last none
  · rename_i missing
    exact advances.pending missing

theorem Gathers.run (split : Pieces pieces total) (several : 0 < total)
    (rebuilt : reconstructHeader layout total = some header) {calls : List ReassemblyCall}
    (gathers : table.Gathers key generation deadline layout total arrived)
    (order : ((arrived ++ arrivalsOf key calls).map Arrival.piece).Perm pieces)
    (carries : ∀ other ∈ arrived ++ arrivalsOf key calls, other.Carries key generation layout total)
    (within : ∀ call ∈ calls, call.Within key generation deadline) {earlier later : List ReassemblyCall}
    (position : calls = earlier ++ .accept arrival :: later) (ours : arrival.key = key) :
    (table.run earlier).outcome arrival = expectedOutcome key later (header ++ pieces.flatMap Extent.bytes) := by
  induction earlier generalizing table arrived calls with
  | nil =>
    subst position ours
    rw [nil_append, arrivalsOf_accept rfl] at order carries
    have own := carries arrival (by simp)
    have early := (within (.accept arrival) (by simp)).2
    have sofar : ∀ other ∈ arrived ++ [arrival], other.Carries arrival.key generation layout total :=
      fun other member => carries other (append_subset.mpr ⟨by simp, by simp⟩ member)
    exact (Gathers.accept (own.generation ▸ gathers) split several order sofar rebuilt early).outcome
  | cons call earlier ih =>
    subst position
    have inside : call.Within key generation deadline := within call (by simp)
    by_cases mine : ∃ first, call = .accept first ∧ first.key = key
    · obtain ⟨first, rfl, rfl⟩ := mine
      rw [cons_append, arrivalsOf_accept rfl] at order carries
      have own := carries first (by simp)
      have missing : arrivalsOf first.key (earlier ++ .accept arrival :: later) ≠ [] := by
        simp [arrivalsOf, ours]
      have sofar : ∀ other ∈ arrived ++ [first], other.Carries first.key generation layout total :=
        fun other member => carries other (append_subset.mpr ⟨by simp, by simp⟩ member)
      have advances := Gathers.accept (own.generation ▸ gathers) split several order sofar rebuilt inside.2
      have next := advances.gathers gathers.scheduled missing
      rw [own.generation] at next
      rw [← singleton_append, ← append_assoc] at order carries
      exact ih next order carries (fun call member => within call (mem_cons_of_mem _ member)) rfl
    · have notOurs : ∀ first, call = .accept first → first.key ≠ key := fun first same equal => mine ⟨first, same, equal⟩
      rw [cons_append, arrivalsOf_other notOurs] at order carries
      exact ih (gathers.other inside notOurs) order carries (fun call member => within call (mem_cons_of_mem _ member)) rfl

theorem run_from_first (split : Pieces pieces total) (several : 0 < total)
    (rebuilt : reconstructHeader layout total = some header) (scheduled : table.Scheduled) {first : Arrival}
    {rest : List ReassemblyCall} (order : ((first :: arrivalsOf first.key rest).map Arrival.piece).Perm pieces)
    (carries : ∀ other ∈ first :: arrivalsOf first.key rest, other.Carries first.key first.generation layout total)
    (vacant : (table.settle first.now first.generation).entries.lookup first.key = none)
    (room : (table.settle first.now first.generation).entries.len < maxReassemblyEntries)
    (within : ∀ call ∈ rest, call.Within first.key first.generation (saturatingAdd first.now reassemblyTimeoutMillis))
    {earlier : List ReassemblyCall} (position : .accept first :: rest = earlier ++ .accept arrival :: later)
    (ours : arrival.key = first.key) :
    (table.run earlier).outcome arrival = expectedOutcome first.key later (header ++ pieces.flatMap Extent.bytes) := by
  have advances := accept_first split several order (carries first mem_cons_self) rebuilt vacant room
  cases earlier with
  | nil =>
    rw [nil_append] at position
    cases position
    exact advances.outcome
  | cons call earlier =>
    rw [cons_append] at position
    cases position
    have missing : arrivalsOf first.key (earlier ++ .accept arrival :: later) ≠ [] := by
      simp [arrivalsOf, ours]
    exact Gathers.run split several rebuilt (advances.gathers scheduled missing) order carries within rfl ours

end ReassemblyTable

end Ferrum.Tun
