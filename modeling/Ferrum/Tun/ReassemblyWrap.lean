import Ferrum.Tun.ReassemblyLimits
import Ferrum.Tun.ReassemblySound

namespace Ferrum.Tun

open Option List

/-- The first fragment of another datagram between the sample addresses. -/
def sampleOther : Arrival where
  parser := Traced.sampleParser
  packet := [69, 0, 0, 28, 0, 8, 32, 0, 64, 17, 142, 199, 10, 0, 0, 1, 192, 0, 2, 1, 48, 57, 0, 53, 0, 12, 0, 0]
  fragment := ⟨.ipv4, .v4 (.new 10 0 0 1), .v4 (.new 192 0 2 1), 17,
    .ipv4 ⟨(.new 10 0 0 1), (.new 192 0 2 1), 17, 8⟩, 0, true, 20, 8, .ipv4 20⟩
  parsed := by decide
  now := 5
  inRange := Traced.sampleHead.inRange
  generation := 1

def TableCall.time? : TableCall → Option Int
  | .accept _ _ now _ | .expire now => some now
  | _ => none

namespace ReassemblyTable

def acceptCall (arrival : Arrival) : TableCall :=
  .accept arrival.packet arrival.fragment arrival.now arrival.generation

/-- An entry of another key comes and goes. -/
def takeTurn : List TableCall := [acceptCall sampleOther, .dropKey sampleOther.key]

/-- One entry lives through all other ids, leaves and comes back, all at one instant. -/
def wrapCalls : List TableCall :=
  acceptCall Traced.sampleHead :: (List.replicate (2 ^ 64 - 1) takeTurn).flatten ++
    [.dropKey Traced.sampleHead.key, acceptCall Traced.sampleHead]

/-- The shapes of the two sample fragments that open an entry. -/
structure Opens (arrival : Arrival) (layout : Layout) : Prop where
  when : arrival.now = 5 ∧ arrival.generation = 1
  proper : ∀ table : ReassemblyTable, table.acceptCurrent arrival.packet arrival.fragment 5 =
    table.compactDeadlinesIfNeeded.acceptPiece arrival.packet arrival.fragment 5
  shaped : layoutFor arrival.packet arrival.fragment = some layout
  joined : ∀ (table : ReassemblyTable) (id : Fin (2 ^ 64)),
    (table.join arrival.packet arrival.fragment ⟨30005, id, layout, none, []⟩).1 =
      { table with entries := table.entries.insert arrival.key ⟨30005, id, layout, none, [arrival.piece]⟩ }

theorem acceptCurrent_sample {packet : List UInt8} {fragment : ParsedFragment} (table : ReassemblyTable)
    (shape : ¬(¬fragment.identityMatchesKey ∨ fragment.payloadOffset + fragment.payloadLen ≠ packet.length ∨
      fragment.payloadLen = 0)) (many : ¬fragment.isAtomic)
    (bound : ¬maxReassembledPacket < fragment.offset + fragment.payloadLen) :
    table.acceptCurrent packet fragment 5 = table.compactDeadlinesIfNeeded.acceptPiece packet fragment 5 := by
  unfold acceptCurrent
  rw [if_neg shape, if_neg many, if_neg bound]

def sampleLayout (arrival : Arrival) : Layout :=
  .ipv4 (normalizedFixedHeader (arrival.packet.take 20)) (some (arrival.packet.take 20))

theorem sampleHead_opens : Opens Traced.sampleHead (sampleLayout Traced.sampleHead) :=
  ⟨⟨rfl, rfl⟩, fun table => acceptCurrent_sample table (by decide) (by decide) (by decide), by decide, fun _ _ => rfl⟩

theorem sampleOther_opens : Opens sampleOther (sampleLayout sampleOther) :=
  ⟨⟨rfl, rfl⟩, fun table => acceptCurrent_sample table (by decide) (by decide) (by decide), by decide, fun _ _ => rfl⟩

variable {table : ReassemblyTable}

theorem call_sample {arrival : Arrival} {layout : Layout} (opens : Opens arrival layout) (generation : table.generation = 1)
    (later : ∀ deadline ∈ table.deadlines.entries, deadline.1 = 30005) (vacant : table.entries.lookup arrival.key = none)
    (room : table.entries.len < maxReassemblyEntries) :
    table.call (acceptCall arrival) =
      { table with
        entries := table.entries.insert arrival.key ⟨30005, table.nextDeadlineId, layout, none, [arrival.piece]⟩
        deadlines := table.compactDeadlinesIfNeeded.deadlines.push (30005, table.nextDeadlineId, arrival.key)
        nextDeadlineId := table.nextDeadlineId + 1 } := by
  have settled : table.settle 5 1 = table := by
    have idle : table.setGeneration 1 = table := by
      unfold setGeneration
      rw [if_neg (not_not.mpr generation)]
    unfold ReassemblyTable.settle ReassemblyTable.expire
    rw [idle, MinHeap.popWhile_none fun deadline member => by simp [later deadline member]]
  have compacted := table.compactDeadlinesIfNeeded_reschedules
  change ((table.settle arrival.now arrival.generation).acceptCurrent arrival.packet arrival.fragment arrival.now).1 = _
  rw [opens.when.1, opens.when.2, settled, opens.proper]
  unfold acceptPiece
  rw [compacted.entries]
  have empty : table.entries.lookup arrival.fragment.key = none := vacant
  simp only [empty, opens.shaped]
  rw [if_neg (Nat.not_le.mpr room)]
  have time : saturatingAdd 5 reassemblyTimeoutMillis = 30005 := by decide
  unfold openEntry
  rw [time, opens.joined, compacted.entries, table.compactDeadlinesIfNeeded_id, compacted.generation]
  rfl

def headEntry : Entry := ⟨30005, 0, sampleLayout Traced.sampleHead, none, [Traced.sampleHead.piece]⟩

/-- The first entry lives on while `turns` others came and went. -/
structure Held (turns : Nat) (table : ReassemblyTable) : Prop where
  generation : table.generation = 1
  entries : table.entries.entries = [⟨Traced.sampleHead.key, headEntry⟩]
  next : table.nextDeadlineId.val = (turns + 1) % 2 ^ 64
  length : table.deadlines.len = if turns = 0 then 1 else 2 + (turns - 1) % 2048
  later : ∀ deadline ∈ table.deadlines.entries, deadline.1 = 30005
  first : headEntry.deadline Traced.sampleHead.key ∈ table.deadlines.entries

theorem Held.lookup {turns : Nat} (held : table.Held turns) :
    table.entries.lookup Traced.sampleHead.key = some headEntry := by
  refine HashMap.mem_entries_iff.mp ?_
  rw [held.entries]
  exact mem_singleton_self _

theorem start_held : ((new 1).call (acceptCall Traced.sampleHead)).Held 0 := by
  rw [call_sample sampleHead_opens rfl (fun _ member => absurd member not_mem_nil) rfl (by decide)]
  refine ⟨rfl, rfl, rfl, rfl, fun deadline member => ?_, (@MinHeap.mem_push DeadlineEntry _ _ _ _).mpr (.inl rfl)⟩
  rcases MinHeap.mem_push.mp member with rfl | before
  · rfl
  · exact absurd before not_mem_nil

theorem sampleHead_once : ((new 1).runCalls [acceptCall Traced.sampleHead]).deadlines.entries.count
    (headEntry.deadline Traced.sampleHead.key) = 1 := by
  refine (table_timed 1 [acceptCall Traced.sampleHead]).2 ?_ Traced.sampleHead.key headEntry start_held.lookup
  unfold created created
  split <;> decide

theorem call_dropKey (table : ReassemblyTable) (key : FragmentKey) : table.call (.dropKey key) = table.remove key := rfl

theorem remove_others (table : ReassemblyTable) (key : FragmentKey) : (table.remove key).deadlines = table.deadlines ∧
    (table.remove key).nextDeadlineId = table.nextDeadlineId ∧ (table.remove key).generation = table.generation :=
  ⟨rfl, rfl, rfl⟩

theorem compactDeadlinesIfNeeded_short (short : table.deadlines.len ≤ maxReassemblyEntries * 2) :
    table.compactDeadlinesIfNeeded = table := if_pos short

theorem Held.turn {turns : Nat} (held : table.Held turns) : (table.runCalls takeTurn).Held (turns + 1) := by
  have apart : sampleOther.key ≠ Traced.sampleHead.key := by decide
  have vacant : table.entries.lookup sampleOther.key = none := by
    refine AList.lookup_eq_none.mpr fun member => ?_
    obtain ⟨entry, found⟩ := isSome_iff_exists.mp (AList.lookup_isSome.mpr member)
    have inside := HashMap.mem_entries_iff.mpr found
    rw [held.entries] at inside
    exact apart (congrArg Sigma.fst (mem_singleton.mp inside))
  have alone : table.entries.len = 1 := congrArg List.length held.entries
  have compacted : ∀ deadline ∈ table.compactDeadlinesIfNeeded.deadlines.entries, deadline.1 = 30005 := by
    unfold compactDeadlinesIfNeeded
    split
    · exact held.later
    · intro deadline member
      obtain ⟨key, entry, found, rfl⟩ := mem_liveDeadlines.mp (MinHeap.mem_ofList.mp member)
      have inside := HashMap.mem_entries_iff.mpr found
      rw [held.entries] at inside
      cases mem_singleton.mp inside
      rfl
  have scheduled : table.Scheduled := by
    intro key entry found
    have inside := HashMap.mem_entries_iff.mpr found
    rw [held.entries] at inside
    cases mem_singleton.mp inside
    exact held.first
  have kept : headEntry.deadline Traced.sampleHead.key ∈ table.compactDeadlinesIfNeeded.deadlines.entries := by
    have live := held.lookup
    rw [← table.compactDeadlinesIfNeeded_reschedules.entries] at live
    exact table.compactDeadlinesIfNeeded_reschedules.scheduled scheduled _ _ live
  have shape : table.runCalls takeTurn = (table.call (acceptCall sampleOther)).call (.dropKey sampleOther.key) := rfl
  rw [shape, call_sample sampleOther_opens held.generation held.later vacant (by rw [alone]; decide)]
  refine ⟨held.generation, ?_, ?_, ?_, fun deadline member => ?_, (@MinHeap.mem_push DeadlineEntry _ _ _ _).mpr (.inr kept)⟩
  · have absent : sampleOther.key ∉ table.entries := AList.lookup_eq_none.mp vacant
    exact (congrArg AList.entries (HashMap.erase_insert _ absent)).trans held.entries
  · change (table.nextDeadlineId + 1).val = _
    rw [Fin.val_add, held.next]
    simp
  · change MinHeap.len (MinHeap.push table.compactDeadlinesIfNeeded.deadlines _) = _
    have length := held.length
    have pushed := MinHeap.len_push table.compactDeadlinesIfNeeded.deadlines
      ((30005, table.nextDeadlineId, sampleOther.key) : DeadlineEntry)
    rw [if_neg (Nat.succ_ne_zero turns), Nat.add_sub_cancel]
    refine pushed.trans ?_
    by_cases short : table.deadlines.len ≤ 2048
    · rw [compactDeadlinesIfNeeded_short short]
      split at length <;> omega
    · have single : table.compactDeadlinesIfNeeded.deadlines.len = 1 := by
        have same : table.compactDeadlinesIfNeeded = { table with deadlines := .ofList table.liveDeadlines } := if_neg short
        rw [same]
        exact (MinHeap.len_ofList _).trans (table.liveDeadlines_length.trans alone)
      rw [single]
      split at length <;> omega
  · rcases MinHeap.mem_push.mp member with rfl | before
    · rfl
    · exact compacted deadline before

theorem Held.turns (held : table.Held 0) (turns : Nat) :
    (table.runCalls (List.replicate turns takeTurn).flatten).Held turns := by
  induction turns with
  | zero => exact held
  | succ turns ih =>
    rw [replicate_succ', flatten_append, runCalls, foldl_append]
    exact ih.turn

theorem runCalls_around (table : ReassemblyTable) (first : TableCall) (middle : List TableCall) (leave last : TableCall) :
    table.runCalls (first :: middle ++ [leave, last]) = (((table.call first).runCalls middle).call leave).call last := by
  simp only [runCalls, cons_append, foldl_cons, foldl_append, foldl_nil]

theorem wrapped_time (turns : Nat) {call : TableCall} (member : call ∈ acceptCall Traced.sampleHead ::
    (List.replicate turns takeTurn).flatten ++ [.dropKey Traced.sampleHead.key, acceptCall Traced.sampleHead])
    {time : Int} (timed : call.time? = some time) : time = 5 := by
  simp only [takeTurn, cons_append, mem_cons, mem_append, mem_flatten, mem_replicate,
    not_mem_nil, or_false] at member
  rcases member with rfl | ⟨turn, ⟨-, rfl⟩, inTurn⟩ | rfl | rfl
  · exact (some.inj timed).symm
  · rcases mem_cons.mp inTurn with rfl | dropped
    · exact (some.inj timed).symm
    · rw [mem_singleton.mp dropped] at timed
      cases timed
  · cases timed
  · exact (some.inj timed).symm

/-- After `2 ^ 64` other entries at one instant the id of the first one is given out again while its old
item is still in the heap, which then holds the deadline of the live entry twice. -/
theorem wrapCalls_twice : (∀ call ∈ wrapCalls, ∀ time, call.time? = some time → time = 5) ∧ ∃ entry,
    ((new 1).runCalls wrapCalls).entries.lookup Traced.sampleHead.key = some entry ∧
      1 < ((new 1).runCalls wrapCalls).deadlines.entries.count (entry.deadline Traced.sampleHead.key) := by
  have held := start_held.turns (2 ^ 64 - 1)
  generalize same : ((new 1).call (acceptCall Traced.sampleHead)).runCalls (List.replicate (2 ^ 64 - 1) takeTurn).flatten = table at held
  have shape : (new 1).runCalls wrapCalls =
      (table.call (.dropKey Traced.sampleHead.key)).call (acceptCall Traced.sampleHead) := by
    rw [← same]
    exact runCalls_around _ _ _ _ _
  have gone : (table.remove Traced.sampleHead.key).entries = ∅ := by
    refine AList.ext ?_
    change List.kerase Traced.sampleHead.key table.entries.entries = []
    rw [held.entries]
    simp [List.kerase]
  obtain ⟨deadlines, id, generation⟩ := table.remove_others Traced.sampleHead.key
  rw [shape, call_dropKey]
  generalize table.remove Traced.sampleHead.key = left at gone deadlines id generation
  have zero : left.nextDeadlineId = 0 := id.trans (Fin.ext held.next)
  have short : left.deadlines.len ≤ maxReassemblyEntries * 2 := by
    have length := held.length
    rw [if_neg (by decide)] at length
    rw [deadlines]
    unfold maxReassemblyEntries
    omega
  rw [call_sample sampleHead_opens (generation.trans held.generation) (fun deadline member => held.later deadline (deadlines ▸ member))
    (by rw [gone]; rfl) (by rw [gone]; decide), compactDeadlinesIfNeeded_short short, zero, deadlines]
  refine ⟨fun call member time => wrapped_time (2 ^ 64 - 1) member, headEntry, ?_, ?_⟩
  · exact AList.lookup_insert _
  · have before := count_pos_iff.mpr held.first
    have pushed := table.deadlines.count_push (headEntry.deadline Traced.sampleHead.key)
    have twice : 1 < (table.deadlines.push (headEntry.deadline Traced.sampleHead.key)).entries.count
        (headEntry.deadline Traced.sampleHead.key) := by
      rw [pushed]
      omega
    exact twice

end ReassemblyTable

end Ferrum.Tun
