import Ferrum.Tun.ReassemblyStep

namespace Ferrum.Tun

open Option

inductive ReassemblyCall
  | accept (arrival : Arrival)
  | expire (now : Int)
  | dropKey (key : FragmentKey)
  | setGeneration (generation : Nat)
  | clear
  | nextDeadlineMillis

namespace ReassemblyTable

def step (table : ReassemblyTable) : ReassemblyCall → ReassemblyTable
  | .accept arrival => (table.accept arrival.packet arrival.fragment arrival.now arrival.generation).1
  | .expire now => (table.expire now).1
  | .dropKey key => (table.dropKey key).1
  | .setGeneration generation => table.setGeneration generation
  | .clear => table.clear
  | .nextDeadlineMillis => table.nextDeadlineMillis.1

def outcome (table : ReassemblyTable) (arrival : Arrival) : ReassemblyOutcome :=
  (table.accept arrival.packet arrival.fragment arrival.now arrival.generation).2.outcome

theorem accept_accepts (table : ReassemblyTable) (arrival : Arrival) :
    (table.settle arrival.now arrival.generation).Accepts arrival.packet arrival.fragment arrival.now
      (table.step (.accept arrival)) (table.outcome arrival) :=
  acceptCurrent_accepts _ _ _ _

theorem Scheduled.step {table : ReassemblyTable} (scheduled : table.Scheduled) (call : ReassemblyCall) :
    (table.step call).Scheduled := by
  cases call with
  | accept arrival => exact (table.accept_accepts arrival).scheduled (scheduled.settle arrival.now arrival.generation)
  | expire now => exact scheduled.expire now
  | dropKey key => exact scheduled.remove key
  | setGeneration generation => exact scheduled.setGeneration generation
  | clear => exact table.clear_scheduled
  | nextDeadlineMillis => exact scheduled.nextDeadlineMillis

theorem Scheduled.step_lookup {table : ReassemblyTable} (scheduled : table.Scheduled) {call : ReassemblyCall}
    (other : ∀ arrival, call ≠ .accept arrival) {key : FragmentKey} {entry : Entry}
    (found : (table.step call).entries.lookup key = some entry) :
    table.entries.lookup key = some entry ∧ (table.step call).generation = table.generation := by
  cases call with
  | accept arrival => exact absurd rfl (other arrival)
  | expire now => exact ⟨((scheduled.expire_lookup now key entry).mp found).1, rfl⟩
  | dropKey removed => exact ⟨(remove_lookup.mp found).2, rfl⟩
  | setGeneration generation =>
    obtain ⟨same, found⟩ := setGeneration_lookup.mp found
    exact ⟨found, (setGeneration_generation _ _).trans same.symm⟩
  | clear => exact absurd found (by simp [ReassemblyTable.step, ReassemblyTable.clear])
  | nextDeadlineMillis =>
    obtain ⟨entries, generation⟩ := table.nextDeadlineMillis_entries
    exact ⟨entries ▸ found, generation⟩

end ReassemblyTable

/-- A table with the history of its live entries: for each key the fragments that its entry has
taken in since it was created, in the order of their arrival. -/
structure Traced where
  table : ReassemblyTable
  arrivals : FragmentKey → List Arrival

namespace Traced

def new (generation : Nat) : Traced := ⟨.new generation, fun _ => []⟩

/-- The fragments of the entry that an arriving fragment finds: none, if there is no entry or if
it expires or changes generation now. -/
def held (traced : Traced) (arrival : Arrival) : List Arrival :=
  if ((traced.table.settle arrival.now arrival.generation).entries.lookup arrival.key).isSome then
    traced.arrivals arrival.key
  else []

def step (traced : Traced) (call : ReassemblyCall) : Traced where
  table := traced.table.step call
  arrivals key :=
    if ((traced.table.step call).entries.lookup key).isSome then
      match call with
      | .accept arrival =>
        if arrival.key = key ∧ arrival.fragment.isAtomic = false then traced.held arrival ++ [arrival]
        else traced.arrivals key
      | _ => traced.arrivals key
    else []

def run (traced : Traced) (calls : List ReassemblyCall) : Traced := calls.foldl step traced

/-- Every live entry is made of the fragments of its history. -/
structure Sound (traced : Traced) : Prop where
  scheduled : traced.table.Scheduled
  made : ∀ key entry, traced.table.entries.lookup key = some entry →
    entry.MadeOf traced.table.generation key (traced.arrivals key)

theorem new_sound (generation : Nat) : (new generation).Sound := by
  refine ⟨ReassemblyTable.new_scheduled generation, ?_⟩
  intro key entry found
  simp [new, ReassemblyTable.new] at found

variable {traced : Traced}

theorem step_arrivals {call : ReassemblyCall} {key : FragmentKey} {entry : Entry}
    (found : (traced.table.step call).entries.lookup key = some entry)
    (other : ∀ arrival, call = .accept arrival → arrival.key = key → arrival.fragment.isAtomic = true) :
    (traced.step call).arrivals key = traced.arrivals key := by
  unfold step
  dsimp only
  rw [found, isSome_some, if_pos rfl]
  cases call with
  | accept arrival =>
    refine if_neg ?_
    rintro ⟨same, many⟩
    exact absurd (many.symm.trans (other arrival rfl same)) (by simp)
  | expire | dropKey | setGeneration | clear | nextDeadlineMillis => rfl

section

variable (sound : traced.Sound)
include sound

theorem Sound.held_of_live {arrival : Arrival} {entry : Entry}
    (found : (traced.table.settle arrival.now arrival.generation).entries.lookup arrival.key = some entry) :
    traced.held arrival = traced.arrivals arrival.key ∧ arrival.now < entry.deadlineMillis ∧
      entry.MadeOf arrival.generation arrival.key (traced.held arrival) := by
  obtain ⟨generation, before, late⟩ := (sound.scheduled.settle_lookup _ _ _ _).mp found
  have same : traced.held arrival = traced.arrivals arrival.key := by
    unfold held
    rw [found, isSome_some, if_pos rfl]
  refine ⟨same, late, ?_⟩
  rw [same, ← generation]
  exact sound.made arrival.key entry before

theorem Sound.grown {arrival : Arrival} {entry grown : Entry} (proper : arrival.fragment.Proper arrival.packet)
    (joins : (traced.table.settle arrival.now arrival.generation).Joins arrival.packet arrival.fragment arrival.now entry)
    (grows : entry.Grows arrival.packet arrival.fragment grown) :
    grown.MadeOf arrival.generation arrival.key (traced.held arrival ++ [arrival]) := by
  cases joins with
  | live found matched captured =>
    obtain ⟨_, late, made⟩ := sound.held_of_live found
    exact made.grow matched captured proper rfl rfl late grows
  | opened vacant shaped room =>
    have none : traced.held arrival = [] := by
      unfold held Arrival.key
      rw [vacant]
      rfl
    rw [none]
    exact .opened shaped proper grows

theorem Sound.accept (arrival : Arrival) : (traced.step (.accept arrival)).Sound := by
  have accepts := traced.table.accept_accepts arrival
  refine ⟨sound.scheduled.step _, ?_⟩
  intro key entry found
  have generation : (traced.step (.accept arrival)).table.generation = arrival.generation := by
    rw [Traced.step, accepts.generation, ReassemblyTable.settle, ReassemblyTable.expire_generation,
      ReassemblyTable.setGeneration_generation]
  -- An entry that the fragment does not touch was live before it.
  have kept : (traced.table.settle arrival.now arrival.generation).entries.lookup key = some entry →
      (arrival.key = key → arrival.fragment.isAtomic = true) →
      entry.MadeOf (traced.step (.accept arrival)).table.generation key ((traced.step (.accept arrival)).arrivals key) := by
    intro settled alone
    obtain ⟨same, before, _⟩ := (sound.scheduled.settle_lookup _ _ _ _).mp settled
    rw [step_arrivals found (fun other equal => ReassemblyCall.accept.inj equal ▸ alone), generation, ← same]
    exact sound.made key entry before
  change (traced.table.step (.accept arrival)).entries.lookup key = some entry at found
  by_cases different : key = arrival.key
  · subst different
    generalize traced.table.outcome arrival = outcome at accepts
    generalize after : traced.table.step (.accept arrival) = next at accepts found
    cases accepts with
    | atomic whole alone => exact kept (after ▸ found) fun _ => alone
    | refused reason same cause =>
      rw [same.entries] at found
      rcases cause with alone | vacant
      · exact kept found fun _ => alone
      · exact absurd (vacant.symm.trans found) (by simp)
    | dropped reason same | complete same proper joins grows covered rebuilt =>
        exact absurd rfl (ReassemblyTable.remove_lookup.mp found).1
    | pending same timed proper joins grows incomplete =>
      dsimp only at found
      rw [HashMap.lookup_insert_eq, Arrival.key, if_pos rfl] at found
      cases some.inj found
      rw [generation]
      have history : (traced.step (.accept arrival)).arrivals arrival.key = traced.held arrival ++ [arrival] := by
        unfold Traced.step
        dsimp only
        rw [after, HashMap.lookup_insert_eq, Arrival.key, if_pos rfl, isSome_some, if_pos rfl,
          if_pos ⟨rfl, proper.many⟩]
      rw [history]
      exact sound.grown proper joins grows
  · exact kept ((accepts.other_key different).symm.trans found) fun same => absurd same.symm different

theorem Sound.step (call : ReassemblyCall) : (traced.step call).Sound := by
  by_cases accepts : ∃ arrival, call = .accept arrival
  · obtain ⟨arrival, rfl⟩ := accepts
    exact sound.accept arrival
  · refine ⟨sound.scheduled.step call, ?_⟩
    intro key entry found
    obtain ⟨before, generation⟩ :=
      sound.scheduled.step_lookup (fun arrival same => accepts ⟨arrival, same⟩) found
    rw [step_arrivals found fun arrival same => absurd ⟨arrival, same⟩ accepts]
    have made := sound.made key entry before
    rwa [← generation] at made

theorem Sound.run (calls : List ReassemblyCall) : (traced.run calls).Sound := by
  induction calls generalizing traced with
  | nil => exact sound
  | cons call rest ih => exact ih (sound.step call)

end

end Traced

/-- The payload that fragments carry: their bytes in the order of their offsets. -/
def payloadOf (arrivals : List Arrival) : List UInt8 :=
  (Extent.sortByOffset (arrivals.map Arrival.piece)).flatMap Extent.bytes

/-- Two last fragments that put the end of the payload at different places. -/
def Arrival.Disagrees (first second : Arrival) : Prop :=
  first.fragment.moreFragments = false ∧ second.fragment.moreFragments = false ∧ first.piece.stop ≠ second.piece.stop

/-- The packet is the whole datagram of these fragments, which have one key, generation and
normalised header or prefix, came within 30 s of the first of them, and cover its payload without
overlap. -/
structure Reassembles (arrivals : List Arrival) (packet : List UInt8) : Prop where
  inTime : ∃ first rest, arrivals = first :: rest ∧ ∀ arrival ∈ arrivals, arrival.now < first.now + 30000
  shared : ∃ key generation identity, ∀ arrival ∈ arrivals,
    arrival.key = key ∧ arrival.generation = generation ∧ arrival.identity = some identity
  apart : arrivals.Pairwise Arrival.Apart
  agree : arrivals.Pairwise fun first second => ¬first.Disagrees second
  content : ∃ finalLen header, packet = header ++ payloadOf arrivals ∧
    (∀ i, i < finalLen ↔ ∃ arrival ∈ arrivals, arrival.piece.Holds i) ∧
    (∃ arrival ∈ arrivals, arrival.fragment.moreFragments = false ∧ arrival.piece.stop = finalLen) ∧
    ∃ arrival ∈ arrivals, arrival.fragment.offset = 0 ∧
      ∃ layout, arrival.layout = some layout ∧ reconstructHeader layout finalLen = some header

theorem Entry.completeLen_eq_some {entry : Entry} {finalLen : Nat} :
    entry.completeLen = some finalLen ↔
      entry.finalPayloadLen = some finalLen ∧ Extent.coverage 0 entry.pieces = some finalLen := by
  unfold completeLen
  split
  · rename_i unknown
    simp [unknown]
  · rename_i known found
    split
    · rename_i covered
      simp only [found, some.injEq]
      constructor
      · rintro rfl
        exact ⟨rfl, covered⟩
      · exact fun both => both.1
    · rename_i gap
      simp only [found, some.injEq, reduceCtorEq, false_iff, not_and]
      rintro rfl
      exact gap

namespace Entry.MadeOf

variable {entry : Entry} {generation finalLen : Nat} {key : FragmentKey} {arrivals : List Arrival}

section

variable (made : entry.MadeOf generation key arrivals)
include made

section

variable (covered : Extent.coverage 0 entry.pieces = some finalLen)
include covered

theorem pieces_eq : Extent.sortByOffset (arrivals.map Arrival.piece) = entry.pieces := by
  refine Extent.sortByOffset_eq made.pieces.symm ?_
  refine (Extent.coverage_ordered covered).imp_of_mem ?_
  intro first second member _ order
  obtain ⟨arrival, inside, rfl⟩ := List.mem_map.mp (made.pieces.mem_iff.mp member)
  exact Nat.lt_of_lt_of_le (made.proper arrival inside).offset_lt order

theorem holds_iff (i : Nat) : i < finalLen ↔ ∃ arrival ∈ arrivals, arrival.piece.Holds i := by
  have both := Extent.coverage_holds covered i
  simp only [Nat.zero_le, true_and] at both
  rw [← both]
  constructor
  · rintro ⟨piece, member, inside⟩
    obtain ⟨arrival, taken, rfl⟩ := List.mem_map.mp (made.pieces.mem_iff.mp member)
    exact ⟨arrival, taken, inside⟩
  · rintro ⟨arrival, member, inside⟩
    exact ⟨arrival.piece, made.pieces.mem_iff.mpr (List.mem_map_of_mem member), inside⟩

theorem positive : 0 < finalLen := by
  obtain ⟨first, rest, rfl, _⟩ := made.created
  have inside := (made.proper first List.mem_cons_self).offset_lt
  have held := (made.holds_iff covered first.piece.offset).mpr ⟨first, List.mem_cons_self, le_rfl, inside⟩
  omega

theorem header_origin {header : List UInt8} (rebuilt : reconstructHeader entry.layout finalLen = some header) :
    ∃ arrival ∈ arrivals, arrival.fragment.offset = 0 ∧
      ∃ layout, arrival.layout = some layout ∧ reconstructHeader layout finalLen = some header := by
  cases shape : entry.layout with
  | ipv4 normalized first =>
    cases first with
    | none => simp [shape, reconstructHeader] at rebuilt
    | some own =>
      obtain ⟨arrival, member, zero, same⟩ := made.header normalized own shape
      exact ⟨arrival, member, zero, entry.layout, same, rebuilt⟩
  | ipv6 normalized fragmentOffset previousOffset protocol =>
    obtain ⟨arrival, member, below, _⟩ := (made.holds_iff covered 0).mp (made.positive covered)
    refine ⟨arrival, member, Nat.le_zero.mp below, entry.layout, ?_, rebuilt⟩
    obtain ⟨layout, found, same⟩ := map_eq_some_iff.mp (made.shared arrival member).2.2
    rw [found, shape]
    rw [shape] at same
    cases layout with
    | ipv4 => simp [Layout.identity] at same
    | ipv6 => exact congrArg _ same

end

theorem reassembles (complete : entry.completeLen = some finalLen)
    {packet : List UInt8} (rebuilt : reconstruct entry finalLen = some packet) : Reassembles arrivals packet := by
  obtain ⟨known, covered⟩ := Entry.completeLen_eq_some.mp complete
  obtain ⟨header, found, same⟩ := map_eq_some_iff.mp rebuilt
  refine ⟨?_, ⟨key, generation, entry.layout.identity, made.shared⟩, made.apart, ?_, ?_⟩
  · obtain ⟨first, rest, rfl, deadline, early⟩ := made.created
    refine ⟨first, rest, rfl, ?_⟩
    intro arrival member
    rcases List.mem_cons.mp member with rfl | later
    · omega
    · have bound := saturatingAdd_le first.inRange.1 (by decide : 0 ≤ reassemblyTimeoutMillis)
      have late := early arrival later
      unfold reassemblyTimeoutMillis at *
      omega
  · refine List.Pairwise.imp_of_mem ?_ made.apart
    rintro first second left right _ ⟨firstLast, secondLast, different⟩
    have one := (made.final _).mpr ⟨first, left, firstLast, rfl⟩
    have two := (made.final _).mpr ⟨second, right, secondLast, rfl⟩
    exact different (some.inj (one.symm.trans two))
  · refine ⟨finalLen, header, ?_, made.holds_iff covered, (made.final finalLen).mp known, made.header_origin covered found⟩
    rw [payloadOf, made.pieces_eq covered]
    exact same.symm

end

end Entry.MadeOf

namespace Traced

/-- In every state that a run reaches a fragment completes a packet only as the whole datagram of the fragments of its
entry, and one that overlaps them or disagrees on the length is dropped together with the entry. -/
theorem run_never_mixes (generation : Nat) (calls : List ReassemblyCall) (last : Arrival) :
    (∀ packet, ((new generation).run calls).table.outcome last = .complete packet →
      Reassembles (((new generation).run calls).held last ++ [last]) packet) ∧
    (last.fragment.isAtomic = false →
      (∃ earlier ∈ ((new generation).run calls).held last, ¬earlier.Apart last ∨ earlier.Disagrees last) →
      (∃ reason, ((new generation).run calls).table.outcome last = .dropped reason) ∧
        (((new generation).run calls).step (.accept last)).table.entries.lookup last.key = none) := by
  have sound := (new_sound generation).run calls
  generalize (new generation).run calls = traced at sound
  have accepts := traced.table.accept_accepts last
  change _ ∧ (_ → _ → _ ∧ (traced.table.step (.accept last)).entries.lookup last.key = none)
  generalize traced.table.outcome last = outcome at accepts
  generalize traced.table.step (.accept last) = after at accepts
  constructor
  · rintro packet rfl
    cases accepts with
    | complete same proper joins grows covered rebuilt => exact (sound.grown proper joins grows).reassembles covered rebuilt
  · rintro many ⟨earlier, member, clash⟩
    -- The entry cannot have grown: its new history would hold the clashing pair.
    have grown : ∀ {entry grown}, last.fragment.Proper last.packet →
        (traced.table.settle last.now last.generation).Joins last.packet last.fragment last.now entry →
        ¬entry.Grows last.packet last.fragment grown := by
      intro entry grown proper joins grows
      have made := sound.grown proper joins grows
      rcases clash with overlap | ⟨earlierLast, lastLast, different⟩
      · exact overlap ((List.pairwise_append.mp made.apart).2.2 earlier member last (List.mem_singleton_self _))
      · have one := (made.final _).mpr ⟨earlier, List.mem_append_left _ member, earlierLast, rfl⟩
        have two := (made.final _).mpr ⟨last, by simp, lastLast, rfl⟩
        exact different (some.inj (one.symm.trans two))
    cases accepts with
    | atomic whole alone => exact absurd (many.symm.trans alone) (by simp)
    | refused reason same cause =>
      rcases cause with alone | vacant
      · exact absurd (many.symm.trans alone) (by simp)
      · unfold held Arrival.key at member
        rw [vacant] at member
        simp at member
    | @dropped other reason same =>
      refine ⟨⟨reason, rfl⟩, ?_⟩
      exact AList.lookup_erase last.key other.entries
    | pending same timed proper joins grows incomplete | complete same proper joins grows covered rebuilt =>
        exact absurd grows (grown proper joins)

def sampleParser : PacketParser := ⟨⟨true, true⟩⟩

/-- Two fragments of a UDP datagram. -/
def sampleHead : Arrival where
  parser := sampleParser
  packet := [69, 0, 0, 28, 0, 7, 32, 0, 64, 17, 142, 200, 10, 0, 0, 1, 192, 0, 2, 1, 48, 57, 0, 53, 0, 12, 0, 0]
  fragment := ⟨.ipv4, .v4 (.new 10 0 0 1), .v4 (.new 192 0 2 1), 17,
    .ipv4 ⟨(.new 10 0 0 1), (.new 192 0 2 1), 17, 7⟩, 0, true, 20, 8, .ipv4 20⟩
  parsed := by decide
  now := 5
  inRange := by decide
  generation := 1

def sampleTail : Arrival where
  parser := sampleParser
  packet := [69, 0, 0, 24, 0, 7, 0, 1, 64, 17, 174, 203, 10, 0, 0, 1, 192, 0, 2, 1, 1, 2, 3, 4]
  fragment := ⟨.ipv4, .v4 (.new 10 0 0 1), .v4 (.new 192 0 2 1), 17,
    .ipv4 ⟨(.new 10 0 0 1), (.new 192 0 2 1), 17, 7⟩, 8, false, 20, 4, .ipv4 20⟩
  parsed := by decide
  now := 9
  inRange := by decide
  generation := 1

def sampleWhole : List UInt8 :=
  [69, 0, 0, 32, 0, 7, 0, 0, 64, 17, 174, 196, 10, 0, 0, 1, 192, 0, 2, 1, 48, 57, 0, 53, 0, 12, 0, 0, 1, 2, 3, 4]

theorem sampleFragments_reassemble :
    ((new 1).run [.accept sampleTail]).table.outcome sampleHead = .complete sampleWhole ∧
      Reassembles (((new 1).run [.accept sampleTail]).held sampleHead ++ [sampleHead]) sampleWhole := by
  have complete : ((new 1).run [.accept sampleTail]).table.outcome sampleHead = .complete sampleWhole := by decide
  exact ⟨complete, (run_never_mixes 1 [.accept sampleTail] sampleHead).1 sampleWhole complete⟩

end Traced

end Ferrum.Tun
