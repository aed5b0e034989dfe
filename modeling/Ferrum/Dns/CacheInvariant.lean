import Ferrum.Dns.CacheHeap

namespace Ferrum.Dns.DnsCacheState

open Option List HeapOrder

variable {state : DnsCacheState}

/-- The representation invariant: index, slots, links and heap describe the same entries. -/
structure Represents (state : DnsCacheState) (order : List Nat) : Prop where
  fifo : state.Fifo order
  slots : state.FreeSlots
  positioned : state.Positioned
  ordered : Ordered state.deadlines.length state.keyAt
  count : state.deadlines.length = order.length

theorem new_represents (capacity : Nat) : (new capacity).Represents [] := by
  refine ⟨⟨?_, nodup_nil, ?_, rfl, rfl, ?_, rfl⟩, ⟨nodup_nil, ?_, Nat.zero_le _⟩, ?_, ?_, rfl⟩
  · simp [new, DnsCacheState.entry]
  · intro front id back split
    simp at split
  · intro key id
    simp [new, DnsCacheState.entry]
  · simp [new]
  · intro position id
    simp [new, DnsCacheState.entry]
  · intro child _ bound
    simp [new] at bound

theorem Represents.split {order : List Nat} (represents : state.Represents order) {id : Nat} {entry : Entry}
    (found : state.entry id = some entry) : ∃ front back, order = front ++ id :: back :=
  append_of_mem ((represents.fifo.live id).mpr ⟨entry, found⟩)

/-- The state once an entry is out of the slots, the index and the links, but still in the heap. -/
structure Unlinked (state next : DnsCacheState) (front back : List Nat) (id : Nat) (entry : Entry) : Prop where
  capacity : next.capacity = state.capacity
  free : next.free = state.free
  deadlines : next.deadlines = state.deadlines
  index : next.index = state.index.erase entry.key
  slots : next.slots.length = state.slots.length
  oldest : next.oldest = if front.getLast? = none then back.head? else state.oldest
  newest : next.newest = if back.head? = none then front.getLast? else state.newest
  entries : ∀ other value, next.entry other = some value ↔ other ≠ id ∧ ∃ old, state.entry other = some old ∧
    value = { old with
      previous := if back.head? = some other then front.getLast? else old.previous
      next := if front.getLast? = some other then back.head? else old.next }

section Unlink

variable {front back : List Nat} {id : Nat} {entry : Entry}

theorem Fifo.apart (fifo : state.Fifo (front ++ id :: back)) : id ∉ front ∧ id ∉ back ∧ ∀ other, other ∈ front → other ∉ back := by
  have distinct := nodup_append.mp fifo.distinct
  exact ⟨fun here => distinct.2.2 id here id (by simp) rfl, (nodup_cons.mp distinct.2.1).1,
    fun other left right => distinct.2.2 other left other (mem_cons_of_mem _ right) rfl⟩

theorem Fifo.unlinked (fifo : state.Fifo (front ++ id :: back)) (found : state.entry id = some entry) :
    ∃ next, (({ state with slots := state.slots.set id none, index := state.index.erase entry.key } :
        DnsCacheState).relinkPrevious entry).bind (relinkNext · entry) = some next ∧ Unlinked state next front back id entry := by
  obtain ⟨isPrevious, isNext⟩ := fifo.linked front id back rfl entry found
  have inside := entry_inside found
  obtain ⟨notFront, notBack, disjoint⟩ := fifo.apart
  generalize emptied : ({ state with slots := state.slots.set id none, index := state.index.erase entry.key } :
    DnsCacheState) = first
  have firstEntry : ∀ other, first.entry other = if other = id then none else state.entry other := by
    intro other
    rw [← emptied]
    unfold DnsCacheState.entry
    rw [entry_set]
    by_cases same : other = id
    · rw [if_pos ⟨same, inside⟩, if_pos same]
    · rw [if_neg (fun both => same both.1), if_neg same]
  have previousLive : ∀ other, entry.previous = some other → ∃ value, first.entry other = some value := by
    intro other is
    rw [isPrevious] at is
    have member := mem_of_getLast? is
    have notId : other ≠ id := fun same => notFront (same ▸ member)
    rw [firstEntry, if_neg notId]
    exact (fifo.live other).mp (mem_append_left _ member)
  obtain ⟨second, relinkedPrevious, secondIs, secondLength, secondEntry⟩ := relinkPrevious_eq previousLive
  have nextLive : ∀ other, entry.next = some other → ∃ value, second.entry other = some value := by
    intro other is
    rw [isNext] at is
    have member := mem_of_mem_head? is
    have notId : other ≠ id := fun same => notBack (same ▸ member)
    have notPrevious : entry.previous ≠ some other := by
      rw [isPrevious]
      exact fun last => disjoint other (mem_of_getLast? last) member
    rw [secondEntry, if_neg notPrevious, firstEntry, if_neg notId]
    exact (fifo.live other).mp (mem_append_right _ (mem_cons_of_mem _ member))
  obtain ⟨third, relinkedNext, thirdIs, thirdLength, thirdEntry⟩ := relinkNext_eq nextLive
  refine ⟨third, by rw [relinkedPrevious, bind_some, relinkedNext], ?_⟩
  refine ⟨by rw [thirdIs, secondIs, ← emptied], by rw [thirdIs, secondIs, ← emptied], by rw [thirdIs, secondIs, ← emptied],
    by rw [thirdIs, secondIs, ← emptied], by rw [thirdLength, secondLength, ← emptied]; simp,
    by rw [thirdIs, secondIs, ← emptied, isPrevious, isNext], by rw [thirdIs, secondIs, ← emptied, isPrevious, isNext], ?_⟩
  intro other value
  rw [thirdEntry, secondEntry, firstEntry]
  by_cases same : other = id
  · simp [same]
  · simp only [same, if_false, isPrevious, isNext, ne_eq, not_false_eq_true, true_and]
    cases old : state.entry other with
    | none => simp
    | some stored =>
      by_cases after : back.head? = some other <;> by_cases before : front.getLast? = some other <;>
        simp [after, before, eq_comm]

variable {next : DnsCacheState}

theorem Unlinked.gone (unlinked : Unlinked state next front back id entry) : next.entry id = none := by
  cases value : next.entry id with
  | none => rfl
  | some stored => exact absurd rfl ((unlinked.entries id stored).mp value).1

theorem Unlinked.keeps (unlinked : Unlinked state next front back id entry) {other : Nat} (apart : other ≠ id) :
    next.stored other = state.stored other ∧ (next.entry other = none ↔ state.entry other = none) := by
  cases old : state.entry other with
  | none =>
    have none' : next.entry other = none := by
      cases value : next.entry other with
      | none => rfl
      | some stored =>
        obtain ⟨-, was, there, -⟩ := (unlinked.entries other stored).mp value
        rw [old] at there
        cases there
    simp [stored, old, none']
  | some was =>
    have value := (unlinked.entries other _).mpr ⟨apart, was, old, rfl⟩
    simp [stored, old, value, Entry.stored]

theorem Unlinked.live (fifo : state.Fifo (front ++ id :: back)) (unlinked : Unlinked state next front back id entry)
    (other : Nat) : other ∈ front ++ back ↔ ∃ value, next.entry other = some value := by
  obtain ⟨notFront, notBack, -⟩ := fifo.apart
  have member : other ∈ front ++ back ↔ other ≠ id ∧ other ∈ front ++ id :: back := by
    simp only [mem_append, mem_cons]
    constructor
    · rintro (left | right)
      · exact ⟨fun same => notFront (same ▸ left), .inl left⟩
      · exact ⟨fun same => notBack (same ▸ right), .inr (.inr right)⟩
    · rintro ⟨apart, left | same | right⟩
      · exact .inl left
      · exact absurd same apart
      · exact .inr right
  rw [member, fifo.live]
  constructor
  · rintro ⟨apart, old, here⟩
    exact ⟨_, (unlinked.entries other _).mpr ⟨apart, old, here, rfl⟩⟩
  · rintro ⟨value, there⟩
    obtain ⟨apart, old, here, -⟩ := (unlinked.entries other value).mp there
    exact ⟨apart, old, here⟩

theorem Unlinked.indexed (fifo : state.Fifo (front ++ id :: back)) (unlinked : Unlinked state next front back id entry)
    (found : state.entry id = some entry) (key : DnsCacheKey) (other : Nat) :
    next.index.lookup key = some other ↔ ∃ value, next.entry other = some value ∧ value.key = key := by
  have own := (fifo.indexed entry.key id).mpr ⟨entry, found, rfl⟩
  rw [unlinked.index, HashMap.lookup_erase_eq]
  constructor
  · intro looked
    split at looked
    · cases looked
    · rename_i otherKey
      obtain ⟨old, here, isKey⟩ := (fifo.indexed key other).mp looked
      have apart : other ≠ id := by
        rintro rfl
        rw [found] at here
        cases here
        exact otherKey isKey.symm
      exact ⟨_, (unlinked.entries other _).mpr ⟨apart, old, here, rfl⟩, isKey⟩
  · rintro ⟨value, there, isKey⟩
    obtain ⟨apart, old, here, shape⟩ := (unlinked.entries other value).mp there
    have oldKey : old.key = key := by rw [← isKey, shape]
    have looked := (fifo.indexed key other).mpr ⟨old, here, oldKey⟩
    split
    · rename_i same
      rw [← same, looked] at own
      exact absurd (some.inj own) apart
    · exact looked

theorem Unlinked.fifo (fifo : state.Fifo (front ++ id :: back)) (unlinked : Unlinked state next front back id entry)
    (found : state.entry id = some entry) : next.Fifo (front ++ back) := by
  refine ⟨unlinked.live fifo, ?_, ?_, ?_, ?_, unlinked.indexed fifo found, ?_⟩
  · exact fifo.distinct.sublist (List.Sublist.append_left (sublist_cons_self _ _) _)
  · intro left x right kept value there
    obtain ⟨apart, old, here, shape⟩ := (unlinked.entries x value).mp there
    have links := @relinked _ front back id fifo.distinct rfl (fun y => (state.entry y).bind Entry.previous)
      (fun y => (state.entry y).bind Entry.next) (by
        intro l y r cut
        obtain ⟨stored, at_y⟩ := (fifo.live y).mp (by rw [cut]; simp)
        simpa [at_y] using fifo.linked l y r cut stored at_y) left x right kept
    rw [shape]
    simpa [here] using links
  · rw [unlinked.oldest, fifo.oldest]
    cases front with
    | nil => simp
    | cons a rest => simp
  · rw [unlinked.newest, fifo.newest]
    cases back with
    | nil => simp
    | cons a rest => simp [List.getLast?_append]
  · have own := (fifo.indexed entry.key id).mpr ⟨entry, found, rfl⟩
    rw [unlinked.index, HashMap.len_erase (HashMap.mem_of_lookup own), fifo.size]
    simp

theorem Unlinked.hole (represents : state.Represents (front ++ id :: back))
    (unlinked : Unlinked state next front back id entry) (found : state.entry id = some entry) :
    next.Hole entry.heapPosition := by
  have at_hole := (represents.positioned entry.heapPosition id).mpr ⟨entry, found, rfl⟩
  have position : ∀ other value, next.entry other = some value → ∃ old, other ≠ id ∧ state.entry other = some old ∧
      value.heapPosition = old.heapPosition := by
    intro other value there
    obtain ⟨apart, old, here, shape⟩ := (unlinked.entries other value).mp there
    exact ⟨old, apart, here, by rw [shape]⟩
  refine ⟨?_, ?_, ?_, ?_⟩
  · rw [unlinked.deadlines]
    exact (List.getElem?_eq_some_iff.mp at_hole).1
  · intro p other notHole
    rw [unlinked.deadlines, represents.positioned p other]
    constructor
    · rintro ⟨old, here, isP⟩
      have apart : other ≠ id := by
        rintro rfl
        rw [found] at here
        cases here
        exact notHole isP.symm
      exact ⟨_, (unlinked.entries other _).mpr ⟨apart, old, here, rfl⟩, isP⟩
    · rintro ⟨value, there, isP⟩
      obtain ⟨old, -, here, same⟩ := position other value there
      exact ⟨old, here, same.symm.trans isP⟩
  · intro other value there same
    obtain ⟨old, apart, here, samePosition⟩ := position other value there
    have also := (represents.positioned entry.heapPosition other).mpr ⟨old, here, samePosition.symm.trans same⟩
    rw [at_hole] at also
    exact apart (some.inj also).symm
  · refine ⟨state.keyAt, by rw [unlinked.deadlines]; exact represents.ordered, ?_⟩
    intro p bound notHole
    rw [unlinked.deadlines] at bound
    obtain ⟨value, there, isP, -, -⟩ := represents.positioned.live bound
    have apart : state.deadlines.getD p 0 ≠ id := by
      intro same
      rw [same, found] at there
      cases there
      exact notHole isP.symm
    have new := (unlinked.entries _ _).mpr ⟨apart, value, there, rfl⟩
    unfold keyAt due
    rw [unlinked.deadlines, new, there]
    rfl

theorem Represents.remove (represents : state.Represents (front ++ id :: back)) :
    ∃ next, state.remove id = some next ∧ next.Represents (front ++ back) ∧ next.capacity = state.capacity ∧
      ∀ other ∈ front ++ back, next.stored other = state.stored other := by
  obtain ⟨entry, found⟩ := (represents.fifo.live id).mp (by simp)
  obtain ⟨middle, relink, unlinked⟩ := represents.fifo.unlinked found
  obtain ⟨heaped, removed, same, positioned, ordered⟩ := (unlinked.hole represents found).removeDeadline
  have fifo : middle.Fifo (front ++ back) := unlinked.fifo represents.fifo found
  have fifoHeaped : heaped.Fifo (front ++ back) := by
    have trimmed : ({ middle with deadlines := middle.deadlines.dropLast } : DnsCacheState).Fifo (front ++ back) :=
      ⟨fifo.live, fifo.distinct, fifo.linked, fifo.oldest, fifo.newest, fifo.indexed, fifo.size⟩
    exact trimmed.of_sameBodies same
  have gone : heaped.entry id = none := (same.entry_none id).mpr unlinked.gone
  refine ⟨{ heaped with free := id :: heaped.free }, ?_, ⟨⟨fifoHeaped.live, fifoHeaped.distinct, fifoHeaped.linked,
    fifoHeaped.oldest, fifoHeaped.newest, fifoHeaped.indexed, fifoHeaped.size⟩, ⟨?_, ?_, ?_⟩, positioned, ordered, ?_⟩, ?_, ?_⟩
  · unfold DnsCacheState.remove
    simp only [found, bind, Option.bind] at relink ⊢
    split at relink
    · cases relink
    · rename_i second first
      rw [first]
      dsimp only at relink ⊢
      rw [relink]
      simp only [removed]
  · rw [same.free, nodup_cons]
    refine ⟨fun inside => ?_, by rw [unlinked.free]; exact represents.slots.distinct⟩
    rw [unlinked.free] at inside
    have empty := ((represents.slots.empty id).mp inside).2
    rw [found] at empty
    cases empty
  · intro other
    change other ∈ id :: heaped.free ↔ other < heaped.slots.length ∧ heaped.entry other = none
    rw [mem_cons, same.free, same.slots]
    change other = id ∨ other ∈ middle.free ↔ other < middle.slots.length ∧ heaped.entry other = none
    rw [unlinked.free, unlinked.slots, represents.slots.empty]
    by_cases isId : other = id
    · simp [isId, gone, entry_inside found]
    · have none' : heaped.entry other = none ↔ state.entry other = none :=
        (same.entry_none other).trans (unlinked.keeps isId).2
      simp [isId, none']
  · change heaped.slots.length ≤ heaped.capacity
    rw [same.slots, same.capacity]
    change middle.slots.length ≤ middle.capacity
    rw [unlinked.slots, unlinked.capacity]
    exact represents.slots.bound
  · change heaped.deadlines.length = _
    rw [same.deadlines]
    change middle.deadlines.dropLast.length = _
    rw [length_dropLast, unlinked.deadlines, represents.count]
    simp
  · exact same.capacity.trans unlinked.capacity
  · intro other inside
    have apart : other ≠ id := by
      rintro rfl
      obtain ⟨value, there⟩ := (fifoHeaped.live other).mp inside
      rw [gone] at there
      cases there
    exact (same.stored other).trans (unlinked.keeps apart).1

end Unlink

section Place

variable {order : List Nat} {key : DnsCacheKey} {answer : DnsCacheAnswer} {expiresAt : Nat}

/-- A slot for the new entry. -/
structure Vacant (state next : DnsCacheState) (id : Nat) : Prop where
  capacity : next.capacity = state.capacity
  index : next.index = state.index
  oldest : next.oldest = state.oldest
  newest : next.newest = state.newest
  deadlines : next.deadlines = state.deadlines
  entries : ∀ other, next.entry other = state.entry other
  empty : state.entry id = none
  inside : id < next.slots.length
  free : next.free.Nodup ∧ ∀ other, other ∈ next.free ↔ other ≠ id ∧ other < next.slots.length ∧ state.entry other = none
  bound : next.slots.length ≤ next.capacity

theorem Represents.slots_length (represents : state.Represents order) :
    state.slots.length = order.length + state.free.length := by
  have distinct : (order ++ state.free).Nodup := by
    refine nodup_append.mpr ⟨represents.fifo.distinct, represents.slots.distinct, ?_⟩
    intro a live b free same
    subst same
    obtain ⟨entry, found⟩ := (represents.fifo.live a).mp live
    have empty := ((represents.slots.empty a).mp free).2
    rw [found] at empty
    cases empty
  have perm : (order ++ state.free).Perm (List.range state.slots.length) := by
    refine (perm_ext_iff_of_nodup distinct nodup_range).mpr fun id => ?_
    rw [mem_append, mem_range, represents.fifo.live, represents.slots.empty]
    constructor
    · rintro (⟨entry, found⟩ | ⟨inside, -⟩)
      · exact entry_inside found
      · exact inside
    · intro inside
      cases found : state.entry id with
      | none => exact .inr ⟨inside, rfl⟩
      | some entry => exact .inl ⟨entry, rfl⟩
  have length := perm.length_eq
  rw [length_append, length_range] at length
  exact length.symm

theorem Represents.takeSlot (represents : state.Represents order) (room : order.length < state.capacity) :
    Vacant state state.takeSlot.2 state.takeSlot.1 := by
  unfold DnsCacheState.takeSlot
  have length := represents.slots_length
  cases free : state.free with
  | nil =>
    rw [free, length_nil, Nat.add_zero] at length
    have none' : state.entry state.slots.length = none := by simp [DnsCacheState.entry]
    refine ⟨rfl, rfl, rfl, rfl, rfl, fun other => ?_, none', by simp, ⟨by simp, fun other => ?_⟩, by simp; omega⟩
    · unfold DnsCacheState.entry
      dsimp only
      rcases Nat.lt_trichotomy other state.slots.length with inside | same | beyond
      · rw [List.getElem?_append_left inside]
      · simp [same]
      · rw [List.getElem?_append_right (by omega), List.getElem?_eq_none (by simp; omega), List.getElem?_eq_none (by omega)]
    · have none := represents.slots.empty other
      rw [free] at none
      simp only [not_mem_nil, false_iff, not_and, length_append, length_singleton] at none ⊢
      intro apart bound
      exact none (by omega)
  | cons id rest =>
    have distinct := represents.slots.distinct
    have empty := represents.slots.empty
    rw [free] at distinct empty
    obtain ⟨fresh, distinctRest⟩ := nodup_cons.mp distinct
    obtain ⟨inside, none⟩ := (empty id).mp (by simp)
    refine ⟨rfl, rfl, rfl, rfl, rfl, fun _ => rfl, none, inside, ⟨distinctRest, fun other => ?_⟩, represents.slots.bound⟩
    have listed := empty other
    dsimp only
    rw [mem_cons] at listed
    constructor
    · intro here
      exact ⟨fun same => fresh (same ▸ here), listed.mp (.inr here)⟩
    · rintro ⟨apart, there⟩
      exact (listed.mpr there).resolve_left apart

/-- The entry that is written, and where it is linked in. -/
def written (state : DnsCacheState) (key : DnsCacheKey) (answer : DnsCacheAnswer) (expiresAt : Nat) : Entry :=
  ⟨key, answer, expiresAt, state.newest, none, state.deadlines.length⟩

/-- The state with the new entry at the end of the order and of the heap. -/
structure Appended (state next : DnsCacheState) (id : Nat) (key : DnsCacheKey) (answer : DnsCacheAnswer) (expiresAt : Nat) :
    Prop where
  capacity : next.capacity = state.capacity
  index : next.index = state.index.insert key id
  oldest : next.oldest = if state.newest = none then some id else state.oldest
  newest : next.newest = some id
  deadlines : next.deadlines = state.deadlines ++ [id]
  empty : state.entry id = none
  entries : ∀ other, next.entry other = if other = id then some (state.written key answer expiresAt)
    else if state.newest = some other then (state.entry other).map ({ · with next := some id }) else state.entry other
  inside : id < next.slots.length
  free : next.free.Nodup ∧ ∀ other, other ∈ next.free ↔ other ≠ id ∧ other < next.slots.length ∧ state.entry other = none
  bound : next.slots.length ≤ next.capacity

theorem Represents.append (represents : state.Represents order) (room : order.length < state.capacity) :
    ∃ next, state.place key answer expiresAt =
        (siftUp (next.deadlines.length - 1) (next.deadlines.length - 1) next).bind (fun sifted => some sifted.2) ∧
      Appended state next state.takeSlot.1 key answer expiresAt := by
  have vacant := represents.takeSlot room
  unfold DnsCacheState.place
  generalize state.takeSlot.1 = id at vacant ⊢
  generalize state.takeSlot.2 = taken at vacant ⊢
  unfold DnsCacheState.placeAt
  rw [if_pos vacant.inside]
  generalize wrote : ({ taken with slots := taken.slots.set id (some ⟨key, answer, expiresAt, taken.newest, none,
    taken.deadlines.length⟩) } : DnsCacheState) = filled
  have newEntry : (⟨key, answer, expiresAt, taken.newest, none, taken.deadlines.length⟩ : Entry) =
      state.written key answer expiresAt := by
    rw [written, vacant.newest, vacant.deadlines]
  have filledEntry : ∀ other, filled.entry other =
      if other = id then some (state.written key answer expiresAt) else state.entry other := by
    intro other
    rw [← wrote, newEntry, ← vacant.entries other]
    unfold DnsCacheState.entry
    rw [entry_set]
    by_cases same : other = id
    · rw [if_pos ⟨same, vacant.inside⟩, if_pos same]
    · rw [if_neg (fun both => same both.1), if_neg same]
  have filledNewest : filled.newest = state.newest := by rw [← wrote]; exact vacant.newest
  have length : filled.slots.length = taken.slots.length := by rw [← wrote]; simp
  have free : filled.free.Nodup ∧ ∀ other, other ∈ filled.free ↔ other ≠ id ∧ other < filled.slots.length ∧
      state.entry other = none := by
    rw [length, ← wrote]
    exact vacant.free
  cases newest : state.newest with
  | none =>
    have linked : filled.linkNewest id = some { filled with oldest := some id, newest := some id } := by
      unfold DnsCacheState.linkNewest
      rw [filledNewest, newest]
      rfl
    simp only [linked, enter, bind, Option.bind]
    refine ⟨{ filled with
      oldest := some id, newest := some id, index := filled.index.insert key id, deadlines := filled.deadlines ++ [id] }, rfl,
      ⟨by rw [← wrote]; exact vacant.capacity, by rw [← wrote]; exact congrArg (·.insert key id) vacant.index,
      by rw [if_pos newest], rfl, by rw [← wrote]; exact congrArg (· ++ [id]) vacant.deadlines, vacant.empty, fun other => ?_,
      by rw [length]; exact vacant.inside, free, by rw [length, ← wrote]; exact vacant.bound⟩⟩
    rw [newest, if_neg (by simp : ¬(none : Option Nat) = some other)]
    exact filledEntry other
  | some last =>
    have member : last ∈ order := mem_of_getLast? (by rw [← represents.fifo.newest, newest])
    obtain ⟨entry, found⟩ := (represents.fifo.live last).mp member
    have apart : last ≠ id := by
      rintro rfl
      rw [vacant.empty] at found
      cases found
    have foundFilled : filled.entry last = some entry := by rw [filledEntry, if_neg apart, found]
    have linked : filled.linkNewest id = some { filled with
        slots := filled.slots.set last (some { entry with next := some id }), newest := some id } := by
      unfold DnsCacheState.linkNewest
      rw [filledNewest, newest]
      simp only [modifyEntry_of_entry foundFilled, bind, Option.bind]
    simp only [linked, enter, bind, Option.bind]
    refine ⟨{ filled with
      slots := filled.slots.set last (some { entry with next := some id })
      newest := some id, index := filled.index.insert key id, deadlines := filled.deadlines ++ [id] }, rfl,
      ⟨by rw [← wrote]; exact vacant.capacity, by rw [← wrote]; exact congrArg (·.insert key id) vacant.index,
      by rw [if_neg (by rw [newest]; simp), ← wrote]; exact vacant.oldest, rfl,
      by rw [← wrote]; exact congrArg (· ++ [id]) vacant.deadlines, vacant.empty, fun other => ?_,
      by simp [length, vacant.inside], ?_, ?_⟩⟩
    · have value : DnsCacheState.entry { filled with slots := filled.slots.set last (some { entry with next := some id }) } other
          = if other = last then some { entry with next := some id } else filled.entry other := entry_modified foundFilled _ other
      refine Eq.trans value ?_
      rw [filledEntry]
      by_cases isLast : other = last
      · subst isLast
        rw [if_pos rfl, if_neg apart, if_pos newest, found]
        rfl
      · rw [if_neg isLast, newest, if_neg (fun same => isLast (some.inj same).symm)]
    · simpa using free
    · simp only [length_set]
      rw [length, ← wrote]
      exact vacant.bound

theorem Appended.old_entry {next : DnsCacheState} {id : Nat} (appended : Appended state next id key answer expiresAt)
    {other : Nat} (apart : other ≠ id) (value : Entry) : next.entry other = some value ↔ ∃ old, state.entry other = some old ∧
      value = { old with next := if state.newest = some other then some id else old.next } := by
  rw [appended.entries, if_neg apart]
  by_cases last : state.newest = some other
  · simp only [if_pos last, map_eq_some_iff]
    constructor
    · rintro ⟨old, found, rfl⟩
      exact ⟨old, found, rfl⟩
    · rintro ⟨old, found, rfl⟩
      exact ⟨old, found, rfl⟩
  · simp only [if_neg last]
    constructor
    · intro found
      exact ⟨value, found, rfl⟩
    · rintro ⟨old, found, rfl⟩
      exact found

variable {next : DnsCacheState} {id : Nat}

theorem Appended.fifo (represents : state.Represents order)
    (appended : Appended state next id key answer expiresAt) (fresh : state.index.lookup key = none) :
    next.Fifo (order ++ [id]) := by
  have fifo := represents.fifo
  have notIn : id ∉ order := by
    intro member
    obtain ⟨entry, found⟩ := (fifo.live id).mp member
    rw [appended.empty] at found
    cases found
  have oldEntry := fun other apart value => @Appended.old_entry state key answer expiresAt next id appended other apart value
  have newEntry : next.entry id = some (state.written key answer expiresAt) := by rw [appended.entries, if_pos rfl]
  refine ⟨fun other => ?_, ?_, ?_, ?_, by rw [appended.newest]; simp, ?_, ?_⟩
  · by_cases same : other = id
    · simp [same, newEntry]
    · rw [mem_append, mem_singleton, or_iff_left same, fifo.live]
      constructor
      · rintro ⟨old, found⟩
        exact ⟨_, (oldEntry other same _).mpr ⟨old, found, rfl⟩⟩
      · rintro ⟨value, there⟩
        obtain ⟨old, found, -⟩ := (oldEntry other same value).mp there
        exact ⟨old, found⟩
  · refine nodup_append.mpr ⟨fifo.distinct, nodup_singleton id, ?_⟩
    intro a member b single same
    rw [mem_singleton] at single
    exact notIn (single ▸ same ▸ member)
  · intro front x back split value there
    rcases eq_nil_or_concat back with none | ⟨rest, last, shape⟩
    · subst none
      obtain ⟨sameFront, sameLast⟩ := append_inj' split rfl
      cases List.cons.inj sameLast with
      | intro isX _ =>
        subst sameFront isX
        rw [newEntry] at there
        cases there
        exact ⟨by rw [written, fifo.newest], rfl⟩
    · have regroup : order ++ [id] = (front ++ x :: rest) ++ [last] := by
        rw [split, shape]
        simp
      obtain ⟨sameOrder, sameLast⟩ := append_inj' regroup rfl
      cases List.cons.inj sameLast with
      | intro isLast _ =>
        subst isLast
        have apart : x ≠ id := fun same => notIn (by rw [sameOrder, same]; simp)
        obtain ⟨old, found, value_eq⟩ := (oldEntry x apart value).mp there
        obtain ⟨previous, following⟩ := fifo.linked front x rest sameOrder old found
        rw [value_eq, shape]
        refine ⟨previous, ?_⟩
        dsimp only
        cases rest with
        | nil =>
          rw [if_pos (by rw [fifo.newest, sameOrder]; simp)]
          rfl
        | cons second rest =>
          have notLast : state.newest ≠ some x := by
            rw [fifo.newest, sameOrder]
            intro isLast
            rw [List.getLast?_append_cons, List.getLast?_cons_cons] at isLast
            have distinct := fifo.distinct
            rw [sameOrder] at distinct
            exact (nodup_cons.mp (nodup_append.mp distinct).2.1).1 (mem_of_getLast? isLast)
          rw [if_neg notLast, following]
          rfl
  · rw [appended.oldest, fifo.newest, fifo.oldest]
    cases order with
    | nil => simp
    | cons a rest => simp
  · intro otherKey other
    rw [appended.index, HashMap.lookup_insert_eq]
    constructor
    · intro looked
      split at looked
      · rename_i same
        cases looked
        exact ⟨_, newEntry, same.symm⟩
      · obtain ⟨old, found, isKey⟩ := (fifo.indexed otherKey other).mp looked
        have apart : other ≠ id := by
          rintro rfl
          rw [appended.empty] at found
          cases found
        exact ⟨_, (oldEntry other apart _).mpr ⟨old, found, rfl⟩, isKey⟩
    · rintro ⟨value, there, isKey⟩
      by_cases same : other = id
      · subst same
        rw [newEntry] at there
        cases there
        exact if_pos isKey.symm
      · obtain ⟨old, found, value_eq⟩ := (oldEntry other same value).mp there
        have oldKey : old.key = otherKey := by rw [← isKey, value_eq]
        have looked := (fifo.indexed otherKey other).mpr ⟨old, found, oldKey⟩
        rw [if_neg ?_, looked]
        rintro rfl
        rw [fresh] at looked
        cases looked
  · have absent : key ∉ state.index := by
      rw [← AList.lookup_eq_none]
      exact fresh
    rw [appended.index, HashMap.len_insert id absent, fifo.size]
    simp

theorem Appended.positioned (represents : state.Represents order)
    (appended : Appended state next id key answer expiresAt) : next.Positioned := by
  have newEntry : next.entry id = some (state.written key answer expiresAt) := by rw [appended.entries, if_pos rfl]
  intro position other
  rw [appended.deadlines]
  by_cases same : other = id
  · subst same
    have notThere : state.deadlines[position]? ≠ some other := by
      intro here
      obtain ⟨entry, found, -⟩ := (represents.positioned position other).mp here
      rw [appended.empty] at found
      cases found
    rw [newEntry]
    simp only [some.injEq, exists_eq_left', written]
    rcases Nat.lt_trichotomy position state.deadlines.length with inside | atEnd | beyond
    · rw [List.getElem?_append_left inside]
      exact ⟨fun here => absurd here notThere, fun equal => by omega⟩
    · subst atEnd
      simp
    · rw [List.getElem?_append_right (by omega), List.getElem?_eq_none (by simp; omega)]
      exact ⟨nofun, fun equal => by omega⟩
  · have old := represents.positioned position other
    have keeps : (∃ entry, next.entry other = some entry ∧ entry.heapPosition = position) ↔
        ∃ entry, state.entry other = some entry ∧ entry.heapPosition = position := by
      constructor
      · rintro ⟨entry, found, here⟩
        obtain ⟨was, there, shape⟩ := (appended.old_entry same entry).mp found
        exact ⟨was, there, by rw [← here, shape]⟩
      · rintro ⟨entry, found, here⟩
        exact ⟨_, (appended.old_entry same _).mpr ⟨entry, found, rfl⟩, here⟩
    rw [keeps, ← old]
    rcases Nat.lt_trichotomy position state.deadlines.length with inside | atEnd | beyond
    · rw [List.getElem?_append_left inside]
    · subst atEnd
      simp [Ne.symm same]
    · rw [List.getElem?_append_right (by omega), List.getElem?_eq_none (by simp; omega), List.getElem?_eq_none (by omega)]

theorem Appended.stored (appended : Appended state next id key answer expiresAt)
    {other : Nat} (apart : other ≠ id) : next.stored other = state.stored other := by
  unfold DnsCacheState.stored
  rw [appended.entries, if_neg apart]
  split
  · cases state.entry other <;> rfl
  · rfl

theorem Appended.keyAt (represents : state.Represents order)
    (appended : Appended state next id key answer expiresAt) {position : Nat} (inside : position < state.deadlines.length) :
    next.keyAt position = state.keyAt position := by
  obtain ⟨entry, found, -, -, here⟩ := represents.positioned.live inside
  have apart : state.deadlines.getD position 0 ≠ id := by
    intro same
    rw [same, appended.empty] at found
    cases found
  have value : next.deadlines.getD position 0 = state.deadlines.getD position 0 := by
    rw [appended.deadlines, getD_eq_getElem?_getD, List.getElem?_append_left inside, ← getD_eq_getElem?_getD]
  unfold DnsCacheState.keyAt due
  rw [value]
  have new := (appended.old_entry apart _).mpr ⟨entry, found, rfl⟩
  rw [new, found]
  rfl

theorem Represents.place (represents : state.Represents order) (room : order.length < state.capacity)
    (fresh : state.index.lookup key = none) :
    ∃ next id, state.place key answer expiresAt = some next ∧ next.Represents (order ++ [id]) ∧
      next.capacity = state.capacity ∧ next.stored id = some (key, answer, expiresAt) ∧
      ∀ other ∈ order, next.stored other = state.stored other := by
  obtain ⟨middle, placed, appended⟩ := @Represents.append state order key answer expiresAt represents room
  generalize state.takeSlot.1 = id at appended
  have positioned := appended.positioned represents
  have length : middle.deadlines.length = state.deadlines.length + 1 := by rw [appended.deadlines]; simp
  have near : Near middle.deadlines.length middle.keyAt state.deadlines.length := by
    have ordered : Ordered state.deadlines.length middle.keyAt := by
      intro child positive bound
      have up := parent_lt positive
      rw [appended.keyAt represents bound, appended.keyAt represents (by omega)]
      exact represents.ordered child positive bound
    rw [length]
    exact ordered.near_last
  obtain ⟨top, next, sifted, same, positionedNext, insideTop, nearTop, above, below⟩ :=
    Positioned.siftUp state.deadlines.length state.deadlines.length middle positioned (by omega) (Nat.le_refl _) near
  have fifo := (appended.fifo represents fresh).of_sameBodies same
  have slots : middle.FreeSlots := by
    refine ⟨appended.free.1, fun other => ?_, appended.bound⟩
    rw [appended.free.2]
    by_cases isId : other = id
    · simp [isId, appended.entries]
    · have none' : middle.entry other = none ↔ state.entry other = none := by
        rw [appended.entries, if_neg isId]
        split <;> simp
      simp [isId, none']
  refine ⟨next, id, ?_, ⟨fifo, slots.of_sameBodies same, positionedNext, ?_, ?_⟩, same.capacity.trans appended.capacity, ?_, ?_⟩
  · rw [placed, length, Nat.add_sub_cancel, sifted]
    rfl
  · exact .of_near nearTop above (below (by rw [length]; exact below_last))
  · rw [same.deadlines, length, represents.count]
    simp
  · rw [same.stored]
    unfold DnsCacheState.stored
    rw [appended.entries, if_pos rfl]
    rfl
  · intro other member
    rw [same.stored]
    refine appended.stored ?_
    rintro rfl
    obtain ⟨entry, found⟩ := (represents.fifo.live other).mp member
    rw [appended.empty] at found
    cases found

end Place

end Ferrum.Dns.DnsCacheState
