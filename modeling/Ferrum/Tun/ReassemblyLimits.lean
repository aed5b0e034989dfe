import Mathlib.Order.Bounds.Basic
import Ferrum.Tun.ReassemblyStep

namespace Ferrum.Tun

open Option List

/-- A call on the reassembly table, with any packet and any metadata. -/
inductive TableCall
  | accept (packet : List UInt8) (fragment : ParsedFragment) (now : Int) (generation : Nat)
  | expire (now : Int)
  | dropKey (key : FragmentKey)
  | setGeneration (generation : Nat)
  | clear
  | nextDeadlineMillis

/-- The pieces of an entry are few, in order and disjoint. -/
structure Entry.Limited (entry : Entry) : Prop where
  few : entry.pieces.length ≤ maxFragmentsPerEntry
  ordered : entry.pieces.Pairwise fun first second => first.stop ≤ second.offset
  nonempty : ∀ piece ∈ entry.pieces, 0 < piece.bytes.length

theorem Entry.Limited.grow {entry grown : Entry} {packet : List UInt8} {fragment : ParsedFragment} (limited : entry.Limited)
    (proper : fragment.Proper packet) (grows : entry.Grows packet fragment grown) : grown.Limited := by
  have length : (packet.drop fragment.payloadOffset).length = fragment.payloadLen := by
    rw [length_drop, ← proper.length]
    omega
  have positive := Nat.pos_of_ne_zero proper.nonempty
  have nonempty : ∀ piece ∈ entry.pieces ++ [⟨fragment.offset, packet.drop fragment.payloadOffset⟩], 0 < piece.bytes.length := by
    intro piece member
    rcases mem_append.mp member with before | last
    · exact limited.nonempty piece before
    · rw [mem_singleton.mp last, length]
      exact positive
  have perm := Extent.sortByOffset_perm (entry.pieces ++ [⟨fragment.offset, packet.drop fragment.payloadOffset⟩])
  refine ⟨?_, ?_, fun piece member => ?_⟩
  · rw [grows.pieces, perm.length_eq, length_append, length_singleton]
    exact Nat.lt_of_le_of_ne limited.few grows.few
  · rw [grows.pieces]
    refine Extent.sortByOffset_ordered nonempty (pairwise_append.mpr ⟨limited.ordered.imp .inl, pairwise_singleton .., ?_⟩)
    intro piece member last same
    rw [mem_singleton.mp same, Extent.stop, Extent.stop, length]
    exact grows.apart piece member
  · rw [grows.pieces] at member
    exact nonempty piece (perm.mem_iff.mp member)

namespace ReassemblyTable

def call (table : ReassemblyTable) : TableCall → ReassemblyTable
  | .accept packet fragment now generation => (table.accept packet fragment now generation).1
  | .expire now => (table.expire now).1
  | .dropKey key => (table.dropKey key).1
  | .setGeneration generation => table.setGeneration generation
  | .clear => table.clear
  | .nextDeadlineMillis => table.nextDeadlineMillis.1

def runCalls (table : ReassemblyTable) (calls : List TableCall) : ReassemblyTable := calls.foldl call table

/-- The number of entries that some calls create: each one takes a deadline id. -/
def created (table : ReassemblyTable) : List TableCall → Nat
  | [] => 0
  | next :: rest =>
    (if (table.call next).nextDeadlineId = table.nextDeadlineId then 0 else 1) + (table.call next).created rest

def liveDeadlines (table : ReassemblyTable) : List DeadlineEntry :=
  table.entries.entries.map fun entry => (entry.2.deadlineMillis, entry.2.deadlineId, entry.1)

variable {table : ReassemblyTable} {deadline : DeadlineEntry}

theorem mem_liveDeadlines :
    deadline ∈ table.liveDeadlines ↔ ∃ key entry, table.entries.lookup key = some entry ∧ entry.deadline key = deadline := by
  constructor
  · intro member
    obtain ⟨⟨key, entry⟩, inside, same⟩ := mem_map.mp member
    exact ⟨key, entry, HashMap.mem_entries_iff.mp inside, same⟩
  · rintro ⟨key, entry, found, same⟩
    exact mem_map.mpr ⟨⟨key, entry⟩, HashMap.mem_entries_iff.mpr found, same⟩

section

variable (table : ReassemblyTable)

theorem liveDeadlines_nodup : table.liveDeadlines.Nodup := by
  refine .map_on (fun first inFirst second inSecond same => ?_) table.entries.nodupKeys.nodup
  exact table.entries.nodupKeys.eq_of_fst_eq inFirst inSecond (congrArg (fun deadline => deadline.2.2) same)

/-- What an accepted fragment does to the heap and to the deadline ids. -/
inductive HeapStep (table : ReassemblyTable) (key : FragmentKey) (after : ReassemblyTable) : Prop
  | kept (deadlines : after.deadlines = table.deadlines) (same : after.nextDeadlineId = table.nextDeadlineId)
  | compacted (deadlines : after.deadlines = table.compactDeadlinesIfNeeded.deadlines)
      (same : after.nextDeadlineId = table.nextDeadlineId)
  | opened (time : Int)
      (deadlines : after.deadlines = table.compactDeadlinesIfNeeded.deadlines.push (time, table.nextDeadlineId, key))
      (next : after.nextDeadlineId = table.nextDeadlineId + 1)

theorem join_heap (packet : List UInt8) (fragment : ParsedFragment) (entry : Entry) :
    (table.join packet fragment entry).1.deadlines = table.deadlines ∧
      (table.join packet fragment entry).1.nextDeadlineId = table.nextDeadlineId := by
  unfold join
  split
  · exact ⟨rfl, rfl⟩
  · split
    · exact ⟨rfl, rfl⟩
    · split
      · exact ⟨rfl, rfl⟩
      · exact ⟨rfl, rfl⟩

theorem compactDeadlinesIfNeeded_id : table.compactDeadlinesIfNeeded.nextDeadlineId = table.nextDeadlineId := by
  unfold compactDeadlinesIfNeeded
  split
  · rfl
  · rfl

theorem acceptPiece_heap (packet : List UInt8) (fragment : ParsedFragment) (now : Int) :
    table.HeapStep fragment.key (table.compactDeadlinesIfNeeded.acceptPiece packet fragment now).1 := by
  have same := table.compactDeadlinesIfNeeded_id
  unfold acceptPiece
  split
  · split
    · exact .compacted rfl same
    · split
      · exact .compacted rfl same
      · rename_i layout captured
        obtain ⟨deadlines, kept⟩ := join_heap table.compactDeadlinesIfNeeded packet fragment _
        exact .compacted deadlines (kept.trans same)
  · split
    · exact .compacted rfl same
    · rename_i layout shaped
      split
      · exact .compacted rfl same
      · obtain ⟨deadlines, kept⟩ := join_heap (table.compactDeadlinesIfNeeded.openEntry fragment.key layout now).1 packet fragment
          (table.compactDeadlinesIfNeeded.openEntry fragment.key layout now).2
        refine .opened (saturatingAdd now reassemblyTimeoutMillis) ?_ ?_
        · rw [deadlines, ← same]
          rfl
        · rw [kept, ← same]
          rfl

theorem acceptCurrent_heap (packet : List UInt8) (fragment : ParsedFragment) (now : Int) :
    table.HeapStep fragment.key (table.acceptCurrent packet fragment now).1 := by
  unfold acceptCurrent
  split
  · exact .kept rfl rfl
  · split
    · split
      · exact .kept rfl rfl
      · exact .kept rfl rfl
    · split
      · exact .kept rfl rfl
      · exact table.acceptPiece_heap packet fragment now

end

/-- The limits of the table. -/
structure Limited (table : ReassemblyTable) : Prop where
  entries : table.entries.len ≤ maxReassemblyEntries
  pieces : ∀ key entry, table.entries.lookup key = some entry → entry.Limited
  heap : table.deadlines.len ≤ 2 * maxReassemblyEntries + 1
  scheduled : table.Scheduled
theorem new_limited (generation : Nat) : (new generation).Limited :=
  ⟨Nat.zero_le _, fun key entry found => absurd found (by simp [new]), Nat.zero_le _, new_scheduled generation⟩

theorem Limited.shrink {after : ReassemblyTable} (limited : table.Limited)
    (entries : ∀ key entry, after.entries.lookup key = some entry → table.entries.lookup key = some entry)
    (heap : after.deadlines.len ≤ 2 * maxReassemblyEntries + 1) (scheduled : after.Scheduled) : after.Limited where
  entries := by
    refine Nat.le_trans (HashMap.len_le fun key member => ?_) limited.entries
    obtain ⟨entry, found⟩ := isSome_iff_exists.mp (AList.lookup_isSome.mpr member)
    exact HashMap.mem_of_lookup (entries key entry found)
  pieces := fun key entry found => limited.pieces key entry (entries key entry found)
  heap := heap
  scheduled := scheduled

theorem Limited.expire (limited : table.Limited) (now : Int) : (table.expire now).1.Limited := by
  refine limited.shrink (fun key entry found => ((limited.scheduled.expire_lookup now key entry).mp found).1) ?_
    (limited.scheduled.expire now)
  exact Nat.le_trans (MinHeap.popWhile_sublist ..).length_le limited.heap

theorem Limited.setGeneration (limited : table.Limited) (generation : Nat) :
    (table.setGeneration generation).Limited := by
  refine limited.shrink (fun key entry found => (setGeneration_lookup.mp found).2) ?_ (limited.scheduled.setGeneration generation)
  unfold ReassemblyTable.setGeneration
  split
  · exact Nat.zero_le _
  · exact limited.heap

theorem compactDeadlinesIfNeeded_len (entries : table.entries.len ≤ maxReassemblyEntries) :
    table.compactDeadlinesIfNeeded.deadlines.len ≤ 2 * maxReassemblyEntries := by
  unfold compactDeadlinesIfNeeded
  split
  · rename_i few
    exact Nat.le_trans few (Nat.le_of_eq (Nat.mul_comm ..))
  · refine Nat.le_trans (Nat.le_of_eq (MinHeap.len_ofList _)) ?_
    refine Nat.le_trans (Nat.le_of_eq (length_map _)) ?_
    exact Nat.le_trans entries (Nat.le_mul_of_pos_left _ (by decide))

theorem HeapStep.len {after : ReassemblyTable} {key : FragmentKey} (step : table.HeapStep key after)
    (limited : table.Limited) : after.deadlines.len ≤ 2 * maxReassemblyEntries + 1 := by
  have compacted := compactDeadlinesIfNeeded_len limited.entries
  cases step with
  | kept deadlines =>
    rw [deadlines]
    exact limited.heap
  | compacted deadlines =>
    rw [deadlines]
    exact Nat.le_succ_of_le compacted
  | opened time deadlines =>
    rw [deadlines]
    exact Nat.le_trans (Nat.le_of_eq (MinHeap.len_push _ _)) (Nat.succ_le_succ compacted)

theorem Limited.acceptCurrent (limited : table.Limited) (packet : List UInt8)
    (fragment : ParsedFragment) (now : Int) : (table.acceptCurrent packet fragment now).1.Limited := by
  have accepts := table.acceptCurrent_accepts packet fragment now
  have scheduled := accepts.scheduled limited.scheduled
  have heap := (table.acceptCurrent_heap packet fragment now).len limited
  generalize (table.acceptCurrent packet fragment now).1 = after at accepts scheduled heap ⊢
  generalize (table.acceptCurrent packet fragment now).2 = outcome at accepts
  cases accepts with
  | atomic => exact limited
  | refused reason same => exact limited.shrink (fun key entry found => same.entries ▸ found) heap scheduled
  | dropped reason same | complete same =>
    refine limited.shrink (fun key entry found => ?_) heap scheduled
    exact same.entries ▸ (remove_lookup.mp found).2
  | @pending other entry grown same timed proper joins grows =>
    have joined : entry.Limited := by
      cases joins with
      | live found =>
        obtain ⟨few, ordered, nonempty⟩ := limited.pieces _ _ found
        exact ⟨few, ordered, nonempty⟩
      | opened => exact ⟨Nat.zero_le _, List.Pairwise.nil, fun _ member => absurd member not_mem_nil⟩
    refine ⟨?_, fun key held found => ?_, heap, scheduled⟩
    · change HashMap.len (other.entries.insert fragment.key grown) ≤ maxReassemblyEntries
      rw [same.entries]
      cases joins with
      | live found =>
        rw [HashMap.len_insert_mem _ (HashMap.mem_of_lookup found)]
        exact limited.entries
      | opened vacant shaped room =>
        rw [HashMap.len_insert _ (AList.lookup_eq_none.mp vacant)]
        exact room
    · dsimp only at found
      rw [HashMap.lookup_insert_eq] at found
      split at found
      · cases some.inj found
        exact joined.grow proper grows
      · exact limited.pieces key held (same.entries ▸ found)

theorem Limited.nextDeadlineMillis (limited : table.Limited) : table.nextDeadlineMillis.1.Limited := by
  refine limited.shrink (fun key entry found => table.nextDeadlineMillis_entries.1 ▸ found) ?_ limited.scheduled.nextDeadlineMillis
  unfold ReassemblyTable.nextDeadlineMillis
  dsimp only
  split
  · exact Nat.le_trans (MinHeap.popWhile_sublist ..).length_le limited.heap
  · exact limited.heap

theorem Limited.call (limited : table.Limited) (call : TableCall) : (table.call call).Limited := by
  cases call with
  | accept packet fragment now generation =>
    exact ((limited.setGeneration generation).expire now).acceptCurrent packet fragment now
  | expire now => exact limited.expire now
  | dropKey key =>
    exact limited.shrink (fun other entry found => (remove_lookup.mp found).2) limited.heap (limited.scheduled.remove key)
  | setGeneration generation => exact limited.setGeneration generation
  | clear =>
    refine limited.shrink (fun key entry found => ?_) (Nat.zero_le _) table.clear_scheduled
    have none : (table.call .clear).entries.lookup key = none := AList.lookup_empty key
    exact absurd (none.symm.trans found) (by simp)
  | nextDeadlineMillis => exact limited.nextDeadlineMillis

theorem Limited.runCalls (limited : table.Limited) (calls : List TableCall) : (table.runCalls calls).Limited := by
  induction calls generalizing table with
  | nil => exact limited
  | cons call rest ih => exact ih (limited.call call)

theorem liveDeadlines_length (table : ReassemblyTable) : table.liveDeadlines.length = table.entries.len := length_map _

theorem Scheduled.mem_of_len (scheduled : table.Scheduled)
    (short : table.deadlines.len = table.entries.len) (member : deadline ∈ table.deadlines.entries) :
    deadline ∈ table.liveDeadlines := by
  have inHeap : table.liveDeadlines ⊆ table.deadlines.entries := by
    intro live inside
    obtain ⟨key, entry, found, rfl⟩ := mem_liveDeadlines.mp inside
    exact scheduled key entry found
  have perm := (subperm_of_subset table.liveDeadlines_nodup inHeap).perm_of_length_le
    (Nat.le_of_eq (short.trans table.liveDeadlines_length.symm))
  exact perm.mem_iff.mpr member

theorem Scheduled.peeked (scheduled : table.Scheduled)
    (first : table.nextDeadlineMillis.1.deadlines.peek = some deadline) : deadline ∈ table.liveDeadlines := by
  unfold ReassemblyTable.nextDeadlineMillis at first
  dsimp only at first
  split at first
  · have current := MinHeap.popWhile_head first
    obtain ⟨entry, found, same⟩ := deadlineIsCurrent_iff.mp (by simpa using current)
    exact mem_liveDeadlines.mpr ⟨_, entry, found, same⟩
  · rename_i short
    exact scheduled.mem_of_len (not_not.mp short) (MinHeap.peek_mem first)

theorem nextDeadlineMillis_eq (table : ReassemblyTable) :
    table.nextDeadlineMillis.2 = table.nextDeadlineMillis.1.deadlines.peek.map fun deadline => deadline.1 := rfl

def deadlineTimes (table : ReassemblyTable) : Set Int :=
  {time | ∃ key entry, table.entries.lookup key = some entry ∧ entry.deadlineMillis = time}

theorem Scheduled.next_least (scheduled : table.Scheduled) {time : Int}
    (next : table.nextDeadlineMillis.2 = some time) : IsLeast table.deadlineTimes time := by
  rw [nextDeadlineMillis_eq] at next
  obtain ⟨deadline, first, same⟩ := map_eq_some_iff.mp next
  obtain ⟨key, entry, found, shape⟩ := mem_liveDeadlines.mp (scheduled.peeked first)
  refine ⟨⟨key, entry, found, (congrArg (fun deadline => deadline.1) shape).trans same⟩, ?_⟩
  rintro other ⟨otherKey, otherEntry, live, rfl⟩
  have inHeap := scheduled.nextDeadlineMillis otherKey otherEntry (table.nextDeadlineMillis_entries.1 ▸ live)
  rw [← same]
  rcases Prod.Lex.le_iff.mp (MinHeap.peek_least first inHeap) with less | equal
  · exact less.le
  · exact equal.1.le

theorem Scheduled.next_none (scheduled : table.Scheduled)
    (none : table.nextDeadlineMillis.2 = none) (key : FragmentKey) : table.entries.lookup key = Option.none := by
  rw [nextDeadlineMillis_eq] at none
  have empty := MinHeap.peek_eq_none (map_eq_none_iff.mp none)
  refine eq_none_iff_forall_not_mem.mpr fun entry found => ?_
  have inHeap := scheduled.nextDeadlineMillis key entry (table.nextDeadlineMillis_entries.1 ▸ found)
  rw [empty] at inHeap
  exact not_mem_nil inHeap

variable {table after : ReassemblyTable} {count : Nat} {key : FragmentKey}

/-- After `count` entries were created the ids below `count` are taken, unless they have wrapped. -/
structure Numbered (count : Nat) (table : ReassemblyTable) : Prop where
  next : table.nextDeadlineId.val = count % 2 ^ 64
  taken : count ≤ 2 ^ 64 → ∀ deadline ∈ table.deadlines.entries, deadline.2.1.val < count
  distinct : count ≤ 2 ^ 64 → table.deadlines.entries.Nodup

theorem new_numbered (generation : Nat) : (new generation).Numbered 0 :=
  ⟨rfl, fun _ _ member => absurd member not_mem_nil, fun _ => nodup_nil⟩

theorem Numbered.fewer (numbered : table.Numbered count) (same : after.nextDeadlineId = table.nextDeadlineId)
    (fewer : after.deadlines.entries.Sublist table.deadlines.entries) : after.Numbered count where
  next := same ▸ numbered.next
  taken := fun room deadline member => numbered.taken room deadline (fewer.subset member)
  distinct := fun room => (numbered.distinct room).sublist fewer

theorem Numbered.compact (numbered : table.Numbered count) (scheduled : table.Scheduled) :
    table.compactDeadlinesIfNeeded.Numbered count := by
  refine ⟨table.compactDeadlinesIfNeeded_id ▸ numbered.next, fun room deadline member => ?_, fun room => ?_⟩
  · unfold compactDeadlinesIfNeeded at member
    split at member
    · exact numbered.taken room deadline member
    · obtain ⟨owner, entry, found, rfl⟩ := mem_liveDeadlines.mp (MinHeap.mem_ofList.mp member)
      exact numbered.taken room _ (scheduled owner entry found)
  · unfold compactDeadlinesIfNeeded
    split
    · exact numbered.distinct room
    · exact MinHeap.ofList_nodup.mpr table.liveDeadlines_nodup

theorem Numbered.heapStep (numbered : table.Numbered count) (scheduled : table.Scheduled) (step : table.HeapStep key after) :
    after.Numbered (count + if after.nextDeadlineId = table.nextDeadlineId then 0 else 1) := by
  have compacted := numbered.compact scheduled
  cases step with
  | kept deadlines same =>
    rw [if_pos same]
    exact numbered.fewer same (deadlines ▸ List.Sublist.refl _)
  | compacted deadlines same =>
    rw [if_pos same]
    exact compacted.fewer (same.trans table.compactDeadlinesIfNeeded_id.symm) (deadlines ▸ List.Sublist.refl _)
  | opened time deadlines next =>
    have moved : after.nextDeadlineId ≠ table.nextDeadlineId := by
      intro same
      have value := congrArg Fin.val (next.symm.trans same)
      rw [Fin.val_add] at value
      have below := table.nextDeadlineId.isLt
      simp only [Fin.val_one] at value
      omega
    rw [if_neg moved]
    refine ⟨?_, fun room deadline member => ?_, fun room => ?_⟩
    · rw [next, Fin.val_add, numbered.next]
      simp
    · rw [deadlines] at member
      rcases MinHeap.mem_push.mp member with rfl | before
      · change table.nextDeadlineId.val < count + 1
        rw [numbered.next]
        exact Nat.lt_succ_of_le (Nat.mod_le ..)
      · exact Nat.lt_succ_of_lt (compacted.taken (Nat.le_of_succ_le room) deadline before)
    · rw [deadlines]
      refine MinHeap.push_nodup (compacted.distinct (Nat.le_of_succ_le room)) fun member => ?_
      have below : table.nextDeadlineId.val < count := compacted.taken (Nat.le_of_succ_le room) _ member
      rw [numbered.next, Nat.mod_eq_of_lt room] at below
      exact Nat.lt_irrefl _ below

theorem setGeneration_heap (table : ReassemblyTable) (generation : Nat) :
    (table.setGeneration generation).nextDeadlineId = table.nextDeadlineId ∧
      (table.setGeneration generation).deadlines.entries.Sublist table.deadlines.entries := by
  unfold setGeneration
  split
  · exact ⟨rfl, nil_sublist _⟩
  · exact ⟨rfl, List.Sublist.refl _⟩

theorem nextDeadlineMillis_heap (table : ReassemblyTable) :
    table.nextDeadlineMillis.1.nextDeadlineId = table.nextDeadlineId ∧
      table.nextDeadlineMillis.1.deadlines.entries.Sublist table.deadlines.entries := by
  unfold nextDeadlineMillis
  dsimp only
  split
  · exact ⟨rfl, MinHeap.popWhile_sublist ..⟩
  · exact ⟨rfl, List.Sublist.refl _⟩

theorem Numbered.still (numbered : table.Numbered count) (same : after.nextDeadlineId = table.nextDeadlineId)
    (fewer : after.deadlines.entries.Sublist table.deadlines.entries) :
    after.Numbered (count + if after.nextDeadlineId = table.nextDeadlineId then 0 else 1) := by
  rw [if_pos same]
  exact numbered.fewer same fewer

theorem Numbered.call (numbered : table.Numbered count) (scheduled : table.Scheduled) (call : TableCall) :
    (table.call call).Numbered (count + if (table.call call).nextDeadlineId = table.nextDeadlineId then 0 else 1) := by
  cases call with
  | accept packet fragment now generation =>
    obtain ⟨same, fewer⟩ := table.setGeneration_heap generation
    have settled : (table.settle now generation).Numbered count :=
      (numbered.fewer same fewer).fewer rfl (MinHeap.popWhile_sublist ..)
    rw [← show (table.settle now generation).nextDeadlineId = table.nextDeadlineId from same]
    exact settled.heapStep (scheduled.settle now generation) (acceptCurrent_heap _ packet fragment now)
  | expire now => exact numbered.still rfl (MinHeap.popWhile_sublist ..)
  | dropKey dropped => exact numbered.still rfl (List.Sublist.refl _)
  | setGeneration generation =>
    obtain ⟨same, fewer⟩ := table.setGeneration_heap generation
    exact numbered.still same fewer
  | clear => exact numbered.still rfl (nil_sublist _)
  | nextDeadlineMillis =>
    obtain ⟨same, fewer⟩ := table.nextDeadlineMillis_heap
    exact numbered.still same fewer

theorem Numbered.runCalls (numbered : table.Numbered count) (limited : table.Limited) (calls : List TableCall) :
    (table.runCalls calls).Numbered (count + table.created calls) := by
  induction calls generalizing table count with
  | nil => exact numbered
  | cons call rest ih =>
    rw [created, ← Nat.add_assoc]
    exact ih (numbered.call limited.scheduled call) (limited.call call)

/-- The limits and the timers of a table. -/
structure Timed (table : ReassemblyTable) : Prop where
  entries : table.entries.len ≤ 1024
  pieces : ∀ key entry, table.entries.lookup key = some entry →
    entry.pieces.length ≤ 128 ∧ entry.pieces.Pairwise fun first second => first.stop ≤ second.offset
  heap : table.deadlines.len ≤ 2 * 1024 + 1
  scheduled : ∀ key entry, table.entries.lookup key = some entry → 0 < table.deadlines.entries.count (entry.deadline key)
  next : ∀ time, table.nextDeadlineMillis.2 = some time ↔ IsLeast table.deadlineTimes time
  idle : table.nextDeadlineMillis.2 = none ↔ table.entries.len = 0
  expires : ∀ now key entry, (table.expire now).1.entries.lookup key = some entry ↔
    table.entries.lookup key = some entry ∧ now < entry.deadlineMillis

theorem Limited.timed (limited : table.Limited) : table.Timed where
  entries := limited.entries
  pieces := fun key entry found => ⟨(limited.pieces key entry found).few, (limited.pieces key entry found).ordered⟩
  heap := limited.heap
  scheduled := fun key entry found => count_pos_iff.mpr (limited.scheduled key entry found)
  next := fun time => by
    refine ⟨limited.scheduled.next_least, fun least => ?_⟩
    cases next : table.nextDeadlineMillis.2 with
    | none =>
      obtain ⟨key, entry, found, -⟩ := least.1
      exact absurd ((limited.scheduled.next_none next key).symm.trans found) (by simp)
    | some other => rw [(limited.scheduled.next_least next).unique least]
  idle := by
    constructor
    · intro none
      refine Nat.eq_zero_of_not_pos fun some => ?_
      obtain ⟨⟨key, entry⟩, member⟩ := exists_mem_of_length_pos some
      exact absurd ((limited.scheduled.next_none none key).symm.trans (HashMap.mem_entries_iff.mp member)) (by simp)
    · intro empty
      cases next : table.nextDeadlineMillis.2 with
      | none => rfl
      | some time =>
        obtain ⟨key, entry, found, -⟩ := (limited.scheduled.next_least next).1
        exact absurd (HashMap.len_pos (HashMap.mem_of_lookup found)) (by omega)
  expires := limited.scheduled.expire_lookup

/-- The limits and timers hold after any calls, and until the deadline ids wrap each live entry has one
item in the heap. -/
theorem table_timed (generation : Nat) (calls : List TableCall) :
    ((new generation).runCalls calls).Timed ∧ ((new generation).created calls ≤ 2 ^ 64 →
      ∀ key entry, ((new generation).runCalls calls).entries.lookup key = some entry →
        ((new generation).runCalls calls).deadlines.entries.count (entry.deadline key) = 1) := by
  have limited := (new_limited generation).runCalls calls
  have numbered := (new_numbered generation).runCalls (new_limited generation) calls
  refine ⟨limited.timed, fun room key entry found => ?_⟩
  rw [Nat.zero_add] at numbered
  exact count_eq_one_of_mem (numbered.distinct room) (limited.scheduled key entry found)

end ReassemblyTable

end Ferrum.Tun
