import Ferrum.Tun.PacketParser
import Ferrum.Tun.Reassembly

namespace Ferrum.Tun

open Option List

/-- A fragment as it reaches the table: a packet with what the parser made of it, at a time and in
a generation. -/
structure Arrival where
  parser : PacketParser
  packet : List UInt8
  fragment : ParsedFragment
  parsed : parser.parse packet = .ok (.fragment fragment)
  now : Int
  inRange : i64Min ≤ now ∧ now ≤ i64Max
  generation : Nat

namespace Arrival

def key (arrival : Arrival) : FragmentKey := arrival.fragment.key

def piece (arrival : Arrival) : Piece := ⟨arrival.fragment.offset, arrival.packet.drop arrival.fragment.payloadOffset⟩

def layout (arrival : Arrival) : Option Layout := layoutFor arrival.packet arrival.fragment

end Arrival

/-- A layout without the header of the first fragment: what the fragments of an entry share. -/
def Layout.identity : Layout → Layout
  | ipv4 normalizedHeader _ => .ipv4 normalizedHeader none
  | ipv6 normalizedPrefix fragmentOffset previousOffset protocol =>
    .ipv6 normalizedPrefix fragmentOffset previousOffset protocol

/-- The normalised header or prefix of a fragment, with what else its entry compares. -/
def Arrival.identity (arrival : Arrival) : Option Layout := arrival.layout.map Layout.identity

/-- What `accept_current` checks before it looks at the table. -/
structure ParsedFragment.Proper (fragment : ParsedFragment) (packet : List UInt8) : Prop where
  length : fragment.payloadOffset + fragment.payloadLen = packet.length
  nonempty : fragment.payloadLen ≠ 0
  many : fragment.isAtomic = false
  bound : fragment.offset + fragment.payloadLen ≤ maxReassembledPacket

/-- What a fragment adds to an entry when its checks pass. -/
structure Entry.Grows (entry : Entry) (packet : List UInt8) (fragment : ParsedFragment) (grown : Entry) : Prop where
  few : entry.pieces.length ≠ maxFragmentsPerEntry
  apart : ∀ piece ∈ entry.pieces, piece.stop ≤ fragment.offset ∨ fragment.offset + fragment.payloadLen ≤ piece.offset
  learned : entry.learnFinalLen fragment (fragment.offset + fragment.payloadLen) = .ok grown.finalPayloadLen
  pieces : grown.pieces = Extent.sortByOffset (entry.pieces ++ [⟨fragment.offset, packet.drop fragment.payloadOffset⟩])
  layout : grown.layout = entry.layout
  deadlineMillis : grown.deadlineMillis = entry.deadlineMillis
  deadlineId : grown.deadlineId = entry.deadlineId

variable {entry : Entry} {fragment : ParsedFragment} {arrival : Arrival}

theorem Entry.addPiece_eq_ok {grown : Entry} {packet : List UInt8} :
    entry.addPiece packet fragment = .ok grown ↔ entry.Grows packet fragment grown := by
  unfold addPiece
  dsimp only
  split
  · rename_i full
    simp only [reduceCtorEq, false_iff]
    exact fun grows => grows.few full
  · rename_i few
    split
    · rename_i overlap
      simp only [reduceCtorEq, false_iff]
      intro grows
      obtain ⟨piece, member, overlaps⟩ := any_eq_true.mp overlap
      have both := of_decide_eq_true overlaps
      have apart := grows.apart piece member
      omega
    · rename_i apart
      have disjoint : ∀ piece ∈ entry.pieces,
          piece.stop ≤ fragment.offset ∨ fragment.offset + fragment.payloadLen ≤ piece.offset := by
        intro piece member
        have free : ¬(fragment.offset < piece.stop ∧ piece.offset < fragment.offset + fragment.payloadLen) :=
          fun both => apart (any_eq_true.mpr ⟨piece, member, decide_eq_true both⟩)
        omega
      split
      · rename_i reason failed
        simp only [reduceCtorEq, false_iff]
        exact fun grows => by simp [grows.learned] at failed
      · rename_i learned found
        constructor
        · intro same
          cases Except.ok.inj same
          exact ⟨few, disjoint, found, rfl, rfl, rfl, rfl⟩
        · intro grows
          have sameLen : learned = grown.finalPayloadLen := Except.ok.inj (found.symm.trans grows.learned)
          obtain ⟨deadlineMillis, deadlineId, layout, finalLen, pieces⟩ := grown
          obtain ⟨_, _, _, samePieces, sameLayout, sameMillis, sameId⟩ := grows
          dsimp only at *
          subst sameLen samePieces sameLayout sameMillis sameId
          rfl

namespace ReassemblyTable

/-- The entry that a fragment joins: the live one, or a new one. -/
inductive Joins (table : ReassemblyTable) (packet : List UInt8) (fragment : ParsedFragment) (now : Int) : Entry → Prop
  | live {entry : Entry} {layout : Layout} (found : table.entries.lookup fragment.key = some entry)
      (matched : layoutMatchesPacket entry.layout packet fragment = true)
      (captured : captureFirstHeader entry.layout packet fragment = some layout) :
      Joins table packet fragment now { entry with layout }
  | opened {layout : Layout} {id : Fin (2 ^ 64)} (vacant : table.entries.lookup fragment.key = none)
      (shaped : layoutFor packet fragment = some layout) (room : table.entries.len < maxReassemblyEntries) :
      Joins table packet fragment now ⟨saturatingAdd now reassemblyTimeoutMillis, id, layout, none, []⟩

/-- All that `accept_current` can do. -/
inductive Accepts (table : ReassemblyTable) (packet : List UInt8) (fragment : ParsedFragment) (now : Int) :
    ReassemblyTable → ReassemblyOutcome → Prop
  | atomic (whole : List UInt8) (alone : fragment.isAtomic = true) : Accepts table packet fragment now table (.atomic whole)
  | refused {other : ReassemblyTable} (reason : ReassemblyDropReason) (same : table.Reschedules other)
      (cause : fragment.isAtomic = true ∨ table.entries.lookup fragment.key = none) :
      Accepts table packet fragment now other (.dropped reason)
  | dropped {other : ReassemblyTable} (reason : ReassemblyDropReason) (same : table.Reschedules other) :
      Accepts table packet fragment now (other.remove fragment.key) (.dropped reason)
  | pending {other : ReassemblyTable} {entry grown : Entry} (same : table.Reschedules other)
      (timed : table.Scheduled → grown.deadline fragment.key ∈ other.deadlines.entries)
      (proper : fragment.Proper packet) (joins : table.Joins packet fragment now entry)
      (grows : entry.Grows packet fragment grown) (incomplete : grown.completeLen = none) :
      Accepts table packet fragment now { other with entries := other.entries.insert fragment.key grown } .pending
  | complete {other : ReassemblyTable} {entry grown : Entry} {finalLen : Nat} {whole : List UInt8}
      (same : table.Reschedules other) (proper : fragment.Proper packet) (joins : table.Joins packet fragment now entry)
      (grows : entry.Grows packet fragment grown) (covered : grown.completeLen = some finalLen)
      (rebuilt : reconstruct grown finalLen = some whole) :
      Accepts table packet fragment now (other.remove fragment.key) (.complete whole)

variable {table other : ReassemblyTable} {now : Int}

variable {packet : List UInt8} {fragment : ParsedFragment}

variable {entry : Entry}

theorem join_accepts (same : table.Reschedules other)
    (timed : table.Scheduled → entry.deadline fragment.key ∈ other.deadlines.entries) (proper : fragment.Proper packet)
    (joins : table.Joins packet fragment now entry) :
    table.Accepts packet fragment now (other.join packet fragment entry).1 (other.join packet fragment entry).2 := by
  unfold join
  split
  · exact .dropped _ same
  · rename_i grown added
    have grows := Entry.addPiece_eq_ok.mp added
    split
    · rename_i incomplete
      refine .pending same ?_ proper joins grows incomplete
      rw [Entry.deadline, grows.deadlineMillis, grows.deadlineId]
      exact timed
    · rename_i finalLen covered
      split
      · exact .dropped _ same
      · rename_i whole rebuilt
        exact .complete same proper joins grows covered rebuilt

theorem acceptPiece_accepts (table : ReassemblyTable) (now : Int) (proper : fragment.Proper packet) :
    table.Accepts packet fragment now (table.acceptPiece packet fragment now).1 (table.acceptPiece packet fragment now).2 := by
  unfold acceptPiece
  split
  · rename_i entry found
    split
    · exact .dropped _ (.refl table)
    · rename_i matched
      split
      · exact .dropped _ (.refl table)
      · rename_i layout captured
        refine join_accepts (.refl table) ?_ proper (.live found (not_not.mp matched) captured)
        exact fun scheduled => scheduled fragment.key entry found
  · rename_i vacant
    split
    · exact .refused _ (.refl table) (.inr vacant)
    · rename_i layout shaped
      split
      · exact .refused _ (.refl table) (.inr vacant)
      · rename_i room
        refine join_accepts (table.openEntry_reschedules fragment.key layout now) ?_ proper
          (.opened vacant shaped (not_le.mp room))
        exact fun _ => table.openEntry_deadline fragment.key layout now

theorem Reschedules.joins (same : table.Reschedules other)
    (joins : other.Joins packet fragment now entry) : table.Joins packet fragment now entry := by
  cases joins with
  | live found matched captured => exact .live (same.entries ▸ found) matched captured
  | opened vacant shaped room => exact .opened (same.entries ▸ vacant) shaped (same.entries ▸ room)

variable {after : ReassemblyTable} {outcome : ReassemblyOutcome}

theorem Reschedules.accepts (same : table.Reschedules other)
    (many : fragment.isAtomic = false) (accepts : other.Accepts packet fragment now after outcome) :
    table.Accepts packet fragment now after outcome := by
  cases accepts with
  | atomic whole alone => exact absurd (many.symm.trans alone) (by simp)
  | refused reason later cause => exact .refused reason (same.trans later) (same.entries ▸ cause)
  | dropped reason later => exact .dropped reason (same.trans later)
  | pending later timed proper joins grows incomplete =>
    exact .pending (same.trans later) (timed ∘ same.scheduled) proper (same.joins joins) grows incomplete
  | complete later proper joins grows covered rebuilt =>
    exact .complete (same.trans later) proper (same.joins joins) grows covered rebuilt

theorem acceptCurrent_accepts (table : ReassemblyTable) (packet : List UInt8) (fragment : ParsedFragment) (now : Int) :
    table.Accepts packet fragment now (table.acceptCurrent packet fragment now).1
      (table.acceptCurrent packet fragment now).2 := by
  unfold acceptCurrent
  split
  · exact .dropped _ (.refl table)
  · rename_i shape
    split
    · rename_i alone
      split
      · exact .refused _ (.refl table) (.inl alone)
      · rename_i whole rebuilt
        exact .atomic whole alone
    · rename_i many
      split
      · exact .dropped _ (.refl table)
      · rename_i bound
        have proper : fragment.Proper packet := ⟨by omega, by omega, by simpa using many, by omega⟩
        have compacted := table.compactDeadlinesIfNeeded_reschedules
        exact compacted.accepts proper.many (table.compactDeadlinesIfNeeded.acceptPiece_accepts now proper)

theorem Accepts.scheduled
    (accepts : table.Accepts packet fragment now after outcome) (scheduled : table.Scheduled) : after.Scheduled := by
  cases accepts with
  | atomic whole alone => exact scheduled
  | refused reason same cause => exact same.scheduled scheduled
  | dropped reason same | complete same proper joins grows covered rebuilt => exact (same.scheduled scheduled).remove fragment.key
  | @pending other entry grown same timed proper joins grows incomplete =>
    intro key held found
    dsimp only at found ⊢
    rw [HashMap.lookup_insert_eq] at found
    split at found
    · rename_i sameKey
      subst sameKey
      cases some.inj found
      exact timed scheduled
    · exact same.scheduled scheduled key held found

theorem Accepts.generation
    (accepts : table.Accepts packet fragment now after outcome) : after.generation = table.generation := by
  cases accepts with
  | atomic whole alone => rfl
  | refused reason same cause | dropped reason same | pending same timed proper joins grows incomplete
  | complete same proper joins grows covered rebuilt => exact same.generation

theorem Accepts.other_key
    (accepts : table.Accepts packet fragment now after outcome) {key : FragmentKey} (different : key ≠ fragment.key) :
    after.entries.lookup key = table.entries.lookup key := by
  cases accepts with
  | atomic whole alone => rfl
  | refused reason same cause => rw [same.entries]
  | dropped reason same => rw [remove, HashMap.lookup_erase_eq, if_neg different, same.entries]
  | pending same timed proper joins grows incomplete => rw [HashMap.lookup_insert_eq, if_neg different, same.entries]
  | complete same proper joins grows covered rebuilt =>
    rw [remove, HashMap.lookup_erase_eq, if_neg different, same.entries]

end ReassemblyTable

def Arrival.Apart (first second : Arrival) : Prop := ∀ i, ¬(first.piece.Holds i ∧ second.piece.Holds i)

/-- The fragments, in the order of their arrival, that an entry is made of. -/
structure Entry.MadeOf (entry : Entry) (generation : Nat) (key : FragmentKey) (arrivals : List Arrival) : Prop where
  pieces : entry.pieces.Perm (arrivals.map Arrival.piece)
  created : ∃ first rest, arrivals = first :: rest ∧
    entry.deadlineMillis = saturatingAdd first.now reassemblyTimeoutMillis ∧ ∀ later ∈ rest, later.now < entry.deadlineMillis
  shared : ∀ arrival ∈ arrivals, arrival.key = key ∧ arrival.generation = generation ∧
    arrival.identity = some entry.layout.identity
  proper : ∀ arrival ∈ arrivals, arrival.fragment.Proper arrival.packet
  apart : arrivals.Pairwise Arrival.Apart
  final : ∀ length, entry.finalPayloadLen = some length ↔
    ∃ arrival ∈ arrivals, arrival.fragment.moreFragments = false ∧ arrival.piece.stop = length
  header : ∀ normalized header, entry.layout = .ipv4 normalized (some header) →
    ∃ arrival ∈ arrivals, arrival.fragment.offset = 0 ∧ arrival.layout = some entry.layout

@[simp] theorem Arrival.offset_piece (arrival : Arrival) : arrival.piece.offset = arrival.fragment.offset := rfl

theorem ParsedFragment.Proper.stop (proper : arrival.fragment.Proper arrival.packet) :
    arrival.piece.stop = arrival.fragment.offset + arrival.fragment.payloadLen := by
  have length := proper.length
  rw [Extent.stop, Arrival.offset_piece, Arrival.piece, length_drop]
  omega

theorem ParsedFragment.Proper.offset_lt (proper : arrival.fragment.Proper arrival.packet) :
    arrival.piece.offset < arrival.piece.stop := by
  have nonempty := proper.nonempty
  rw [proper.stop, Arrival.offset_piece]
  omega

theorem saturatingAdd_le {now timeout : Int} (lower : i64Min ≤ now) (positive : 0 ≤ timeout) :
    saturatingAdd now timeout ≤ now + timeout := by
  unfold saturatingAdd
  omega

section Layout

variable {layout captured : Layout} {packet : List UInt8} {fragment : ParsedFragment}

theorem takeChecked_eq_some {stop : Nat} {front : List UInt8} :
    takeChecked packet stop = some front ↔ stop ≤ packet.length ∧ front = packet.take stop := by
  unfold takeChecked
  split
  · rename_i fits
    simp [fits, eq_comm]
  · rename_i short
    simp [short]

theorem fillZero_length_field {front : List UInt8} (long : 6 ≤ front.length) :
    (fillZero front 4 6).length = front.length ∧ (fillZero front 4 6).take 4 = front.take 4 ∧
      (fillZero front 4 6).drop 6 = front.drop 6 := by
  have shape : fillZero front 4 6 = front.take 4 ++ ([0, 0] ++ front.drop 6) := by
    simp [fillZero, copyFromSlice]
  have four : (front.take 4).length = 4 := length_take_of_le (by omega)
  refine ⟨?_, ?_, ?_⟩
  · rw [shape]
    simp
    omega
  · rw [shape, take_append_of_le_length (by omega), take_of_length_le (by omega)]
  · rw [shape, drop_append, drop_eq_nil_of_le (by omega), four]
    rfl

theorem layoutFor_of_matches {other : Arrival} (known : other.identity = some layout.identity)
    (matched : layoutMatchesPacket layout packet fragment = true) :
    (layoutFor packet fragment).map Layout.identity = some layout.identity := by
  unfold layoutMatchesPacket at matched
  unfold layoutFor
  split at matched
  · rename_i normalized first headerLen shape
    split at matched
    · simp at matched
    · rename_i header found
      simp [shape, found, beq_iff_eq.mp matched, Layout.identity]
  · rename_i normalized currentFragment currentPrevious currentProtocol fragmentOffset previousOffset shape
    split at matched
    · simp at matched
    · rename_i front found
      simp only [Bool.and_eq_true, decide_eq_true_eq, beq_iff_eq] at matched
      obtain ⟨⟨⟨⟨⟨⟨long, length⟩, head⟩, tail⟩, rfl⟩, rfl⟩, rfl⟩ := matched
      -- The normalised prefix is some earlier fragment's, hence zero where the length stands.
      obtain ⟨origin, shaped, same⟩ := map_eq_some_iff.mp known
      unfold Arrival.layout layoutFor at shaped
      split at shaped
      · simp only [bind_eq_bind, bind_eq_some_iff] at shaped
        obtain ⟨_, _, _, _, equal⟩ := shaped
        cases equal
        simp [Layout.identity] at same
      · rename_i otherOffset otherPrevious otherShape
        split at shaped
        · simp at shaped
        · rename_i ordered
          simp only [bind_eq_bind, bind_eq_some_iff] at shaped
          obtain ⟨otherFront, otherFound, equal⟩ := shaped
          cases equal
          simp only [Layout.identity, Layout.ipv6.injEq] at same
          obtain ⟨rfl, rfl, rfl, _⟩ := same
          have sameLength : otherFront.length = front.length := by
            rw [(takeChecked_eq_some.mp otherFound).2, (takeChecked_eq_some.mp found).2, length_take, length_take]
            have fits := (takeChecked_eq_some.mp otherFound).1
            have fits' := (takeChecked_eq_some.mp found).1
            omega
          obtain ⟨_, front4, front6⟩ := @fillZero_length_field otherFront (by omega)
          have equal : fillZero front 4 6 = fillZero otherFront 4 6 := by
            rw [front4] at head
            rw [front6] at tail
            simp [fillZero, copyFromSlice, head, tail]
          simp [shape, ordered, found, Layout.identity, equal]
  · simp at matched

theorem captureFirstHeader_identity (capture : captureFirstHeader layout packet fragment = some captured) :
    captured.identity = layout.identity := by
  unfold captureFirstHeader at capture
  split at capture
  · cases capture
    rfl
  · split at capture
    · simp only [bind_eq_bind, bind_eq_some_iff] at capture
      obtain ⟨header, _, same⟩ := capture
      cases same
      rfl
    · cases capture
      rfl
    · simp at capture

theorem captureFirstHeader_header {normalized header : List UInt8}
    (matched : layoutMatchesPacket layout packet fragment = true)
    (capture : captureFirstHeader layout packet fragment = some (.ipv4 normalized (some header))) :
    layout = .ipv4 normalized (some header) ∨
      fragment.offset = 0 ∧ layoutFor packet fragment = some (.ipv4 normalized (some header)) := by
  unfold captureFirstHeader at capture
  split at capture
  · exact .inl (some.inj capture)
  · rename_i zero
    have first : fragment.offset = 0 := not_not.mp zero
    unfold layoutMatchesPacket at matched
    unfold layoutFor
    split at capture
    · rename_i normalized firstHeader headerLen shape
      simp only [bind_eq_bind, bind_eq_some_iff] at capture
      obtain ⟨own, found, same⟩ := capture
      cases same
      simp only [shape, found] at matched
      cases firstHeader with
      | some held => exact .inl rfl
      | none =>
        have normal : normalizedIpv4Header own true = some normalized := by simpa [first] using matched
        exact .inr ⟨first, by simp [first, shape, found, normal]⟩
    · cases capture
    · simp at capture

end Layout

theorem Entry.learnFinalLen_eq_ok {payloadEnd : Nat} {learned : Option Nat}
    (found : entry.learnFinalLen fragment payloadEnd = .ok learned) :
    fragment.moreFragments = true ∧ learned = entry.finalPayloadLen ∨
      fragment.moreFragments = false ∧ learned = some payloadEnd ∧
        (entry.finalPayloadLen = none ∨ entry.finalPayloadLen = some payloadEnd) := by
  unfold learnFinalLen at found
  split at found
  · rename_i finalLen known
    split at found
    · simp at found
    · rename_i agrees
      cases Except.ok.inj found
      cases more : fragment.moreFragments with
      | true => exact .inl ⟨rfl, known.symm⟩
      | false =>
        have same : payloadEnd = finalLen := by
          by_contra different
          exact agrees (.inr ⟨by simp [more], different⟩)
        exact .inr ⟨rfl, by rw [same], .inr (by rw [known, same])⟩
  · rename_i unknown
    split at found
    · rename_i more
      cases Except.ok.inj found
      exact .inl ⟨more, unknown.symm⟩
    · rename_i last
      split at found
      · simp at found
      · cases Except.ok.inj found
        exact .inr ⟨by simpa using last, rfl, .inl unknown⟩

namespace Entry.MadeOf

variable {entry grown : Entry} {generation : Nat} {key : FragmentKey} {arrivals : List Arrival} {arrival : Arrival}

theorem grow {layout : Layout} (made : entry.MadeOf generation key arrivals)
    (matched : layoutMatchesPacket entry.layout arrival.packet arrival.fragment = true)
    (captured : captureFirstHeader entry.layout arrival.packet arrival.fragment = some layout)
    (proper : arrival.fragment.Proper arrival.packet) (sameKey : arrival.key = key)
    (sameGeneration : arrival.generation = generation) (inTime : arrival.now < entry.deadlineMillis)
    (grows : Entry.Grows { entry with layout } arrival.packet arrival.fragment grown) :
    grown.MadeOf generation key (arrivals ++ [arrival]) := by
  obtain ⟨first, rest, rfl, deadline, early⟩ := made.created
  have identity : grown.layout.identity = entry.layout.identity := by
    rw [grows.layout]
    exact captureFirstHeader_identity captured
  refine ⟨?_, ⟨first, rest ++ [arrival], rfl, ?_, ?_⟩, ?_, ?_, ?_, ?_, ?_⟩
  · rw [grows.pieces, map_append]
    exact (Extent.sortByOffset_perm _).trans (made.pieces.append_right _)
  · rw [grows.deadlineMillis, ← deadline]
  · rw [grows.deadlineMillis]
    intro later member
    rcases mem_append.mp member with old | new
    · exact early later old
    · rw [mem_singleton.mp new]
      exact inTime
  · rw [identity]
    intro other member
    rcases mem_append.mp member with old | new
    · exact made.shared other old
    · rw [mem_singleton.mp new]
      exact ⟨sameKey, sameGeneration, layoutFor_of_matches (made.shared first mem_cons_self).2.2 matched⟩
  · intro other member
    rcases mem_append.mp member with old | new
    · exact made.proper other old
    · rw [mem_singleton.mp new]
      exact proper
  · refine pairwise_append.mpr ⟨made.apart, pairwise_singleton _ _, ?_⟩
    intro other member last new i both
    rw [mem_singleton.mp new] at both
    have gap := grows.apart other.piece (made.pieces.mem_iff.mpr (mem_map_of_mem member))
    have stop := proper.stop
    unfold Extent.Holds at both
    simp only [Arrival.offset_piece] at both gap
    omega
  · intro length
    have before := made.final
    rcases learnFinalLen_eq_ok grows.learned with ⟨more, learned⟩ | ⟨last, learned, agrees⟩
    · rw [learned, before length]
      simp [more]
    · rw [learned, ← proper.stop, some.injEq]
      constructor
      · intro same
        exact ⟨arrival, by simp, last, same⟩
      · rintro ⟨other, member, otherLast, rfl⟩
        rcases mem_append.mp member with old | new
        · have known := (before _).mpr ⟨other, old, otherLast, rfl⟩
          rcases agrees with unknown | agreed
          · exact absurd (unknown.symm.trans known) (by simp)
          · rw [proper.stop]
            exact some.inj (agreed.symm.trans known)
        · rw [mem_singleton.mp new]
  · intro normalized header shape
    rw [grows.layout] at shape
    dsimp only at shape
    subst shape
    rw [grows.layout]
    rcases captureFirstHeader_header matched captured with old | ⟨zero, own⟩
    · obtain ⟨other, member, zero, same⟩ := made.header normalized header old
      exact ⟨other, mem_append_left _ member, zero, old ▸ same⟩
    · exact ⟨arrival, by simp, zero, own⟩

theorem opened {layout : Layout} {id : Fin (2 ^ 64)} (shaped : arrival.layout = some layout)
    (proper : arrival.fragment.Proper arrival.packet)
    (grows : Entry.Grows ⟨saturatingAdd arrival.now reassemblyTimeoutMillis, id, layout, none, []⟩ arrival.packet
      arrival.fragment grown) : grown.MadeOf arrival.generation arrival.key [arrival] := by
  refine ⟨?_, ⟨arrival, [], rfl, grows.deadlineMillis, by simp⟩, ?_, ?_, pairwise_singleton _ _, ?_, ?_⟩
  · rw [grows.pieces]
    exact Extent.sortByOffset_perm _
  · intro other member
    rw [mem_singleton.mp member, grows.layout]
    exact ⟨rfl, rfl, by simp [Arrival.identity, shaped]⟩
  · intro other member
    rw [mem_singleton.mp member]
    exact proper
  · intro length
    rcases learnFinalLen_eq_ok grows.learned with ⟨more, learned⟩ | ⟨last, learned, _⟩
    · simp [learned, more]
    · simp [learned, last, ← proper.stop]
  · intro normalized header shape
    rw [grows.layout] at shape ⊢
    refine ⟨arrival, mem_singleton_self _, ?_, shaped⟩
    dsimp only at shape
    subst shape
    unfold Arrival.layout layoutFor at shaped
    split at shaped
    · simp only [bind_eq_bind, bind_eq_some_iff] at shaped
      obtain ⟨_, _, _, _, same⟩ := shaped
      by_contra later
      rw [if_neg later] at same
      cases same
    · split at shaped
      · simp at shaped
      · simp only [bind_eq_bind, bind_eq_some_iff] at shaped
        obtain ⟨_, _, same⟩ := shaped
        cases same

end Entry.MadeOf

end Ferrum.Tun
