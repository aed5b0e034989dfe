import Ferrum.Dns.CacheInvariant

namespace Ferrum.Dns

open List

abbrev Record := DnsCacheKey × DnsCacheAnswer × Nat

structure Reference where
  capacity : Nat
  records : List Record
  deriving DecidableEq

namespace Reference

def live (records : List Record) (now : Nat) : List Record := records.filter (fun record => now < record.2.2)

def without (records : List Record) (key : DnsCacheKey) : List Record := records.filter (fun record => record.1 ≠ key)

/-- Drops the oldest record when as many as the capacity are left, then appends the new one. -/
def append (capacity : Nat) (records : List Record) (record : Record) : List Record :=
  (if records.length = capacity then records.drop 1 else records) ++ [record]

def insertAnswer (horizon : Nat) (reference : Reference) (key : DnsCacheKey) (answer : DnsCacheAnswer) (ttl now : Nat) :
    CacheReply × Reference :=
  match checkInsert horizon key answer ttl now with
  | .error error => (.inserted (.error error), reference)
  | .ok expiresAt =>
    let others := without (live reference.records now) key
    (.inserted (.ok ()),
      { reference with records := if ttl = 0 then others else append reference.capacity others (key, answer, expiresAt) })

def call (horizon : Nat) (reference : Reference) : CacheCall → CacheReply × Reference
  | .insertPositive key records ttl now => reference.insertAnswer horizon key (.positive records) ttl now
  | .insertNegative key ttl now => reference.insertAnswer horizon key .negative ttl now
  | .get key now =>
    let kept := live reference.records now
    (.got ((kept.find? (fun record => record.1 = key)).map (fun record => record.2.1)), { reference with records := kept })
  | .entryCount now =>
    let kept := live reference.records now
    (.counted kept.length, { reference with records := kept })
  | .clear => (.cleared reference.records.length, { reference with records := [] })

def run (horizon : Nat) (reference : Reference) : List CacheCall → List CacheReply × Reference
  | [] => ([], reference)
  | made :: rest =>
    let (reply, reference) := reference.call horizon made
    let (replies, reference) := run horizon reference rest
    (reply :: replies, reference)

theorem live_live (records : List Record) {now later : Nat} (order : now ≤ later) :
    live (live records now) later = live records later := by
  unfold live
  rw [filter_filter]
  refine filter_congr fun record _ => ?_
  simp only [Bool.and_eq_decide, decide_eq_true_eq, decide_eq_decide]
  constructor
  · exact fun both => both.1
  · exact fun alive => ⟨alive, by omega⟩

theorem live_without (records : List Record) (key : DnsCacheKey) (now : Nat) :
    live (without records key) now = without (live records now) key := filter_comm _ _ _

theorem live_append (front back : List Record) (now : Nat) : live (front ++ back) now = live front now ++ live back now :=
  filter_append ..

end Reference

namespace DnsCacheState

open Reference HeapOrder

variable {state : DnsCacheState} {contents : List Record}

/-- The cache holds these records, oldest write first. -/
def Holds (state : DnsCacheState) (contents : List Record) : Prop :=
  ∃ order, state.Represents order ∧ order.filterMap state.stored = contents

theorem Represents.length_filterMap {order : List Nat} (represents : state.Represents order) (part : List Nat)
    (within : ∀ id ∈ part, id ∈ order) : (part.filterMap state.stored).length = part.length := by
  induction part with
  | nil => rfl
  | cons id rest ih =>
    obtain ⟨entry, found⟩ := (represents.fifo.live id).mp (within id (by simp))
    have here : state.stored id = some entry.stored := by rw [stored, found]; rfl
    rw [filterMap_cons_some here, length_cons, length_cons, ih fun other inside => within other (by simp [inside])]

theorem Holds.length (holds : state.Holds contents) : state.index.len = contents.length := by
  obtain ⟨order, represents, rfl⟩ := holds
  rw [represents.fifo.size, represents.length_filterMap order (fun _ inside => inside)]

theorem Holds.bound (holds : state.Holds contents) : contents.length ≤ state.capacity := by
  obtain ⟨order, represents, rfl⟩ := holds
  rw [represents.length_filterMap order (fun _ inside => inside)]
  have length := represents.slots_length
  have bound := represents.slots.bound
  omega

section

variable (holds : state.Holds contents)
include holds

theorem Holds.distinct : contents.Pairwise fun left right => left.1 ≠ right.1 := by
  obtain ⟨order, represents, rfl⟩ := holds
  rw [pairwise_filterMap]
  refine represents.fifo.distinct.imp ?_
  intro a b apart left atA right atB sameKey
  obtain ⟨first, foundA, rfl⟩ := Option.map_eq_some_iff.mp atA
  obtain ⟨second, foundB, rfl⟩ := Option.map_eq_some_iff.mp atB
  have lookA := (represents.fifo.indexed first.key a).mpr ⟨first, foundA, rfl⟩
  have lookB := (represents.fifo.indexed first.key b).mpr ⟨second, foundB, sameKey.symm⟩
  exact apart (Option.some.inj (lookA.symm.trans lookB))

theorem Holds.remove {id : Nat} {entry : Entry} (found : state.entry id = some entry) :
    ∃ next front back, state.remove id = some next ∧ contents = front ++ entry.stored :: back ∧
      next.Holds (front ++ back) ∧ next.capacity = state.capacity := by
  obtain ⟨order, represents, rfl⟩ := holds
  obtain ⟨front, back, rfl⟩ := represents.split found
  obtain ⟨next, removed, after, capacity, keeps⟩ := represents.remove
  have here : state.stored id = some entry.stored := by rw [stored, found]; rfl
  refine ⟨next, front.filterMap state.stored, back.filterMap state.stored, removed, ?_, ⟨front ++ back, after, ?_⟩, capacity⟩
  · rw [filterMap_append, filterMap_cons_some here]
  · rw [← filterMap_append]
    exact filterMap_congr keeps

theorem Holds.entry_of_mem {record : Record} (member : record ∈ contents) :
    ∃ id entry, state.entry id = some entry ∧ entry.stored = record ∧ state.index.lookup record.1 = some id := by
  obtain ⟨order, represents, rfl⟩ := holds
  obtain ⟨id, -, here⟩ := mem_filterMap.mp member
  obtain ⟨entry, found, is⟩ := Option.map_eq_some_iff.mp here
  refine ⟨id, entry, found, is, ?_⟩
  rw [← is]
  exact (represents.fifo.indexed entry.key id).mpr ⟨entry, found, rfl⟩

theorem Holds.mem_of_entry {id : Nat} {entry : Entry} (found : state.entry id = some entry) :
    entry.stored ∈ contents := by
  obtain ⟨order, represents, rfl⟩ := holds
  exact mem_filterMap.mpr ⟨id, (represents.fifo.live id).mpr ⟨entry, found⟩, by rw [stored, found]; rfl⟩

end

theorem without_split {front back : List Record} {record : Record}
    (distinct : (front ++ record :: back).Pairwise fun left right => left.1 ≠ right.1) :
    without (front ++ record :: back) record.1 = front ++ back := by
  obtain ⟨-, tail, across⟩ := pairwise_append.mp distinct
  unfold without
  rw [filter_append, filter_cons_of_neg (by simp)]
  congr 1
  · exact filter_eq_self.mpr fun other inside => by simpa using across other inside record (by simp)
  · exact filter_eq_self.mpr fun other inside => by
      simpa using Ne.symm ((pairwise_cons.mp tail).1 other inside)

theorem Holds.removeKey (holds : state.Holds contents) (key : DnsCacheKey) :
    ∃ next, state.removeKey key = some next ∧ next.Holds (without contents key) ∧ next.capacity = state.capacity ∧
      next.index.lookup key = none := by
  unfold DnsCacheState.removeKey
  cases looked : state.index.lookup key with
  | none =>
    refine ⟨state, rfl, ?_, rfl, looked⟩
    have same : without contents key = contents := by
      refine filter_eq_self.mpr fun record member => ?_
      obtain ⟨id, entry, found, is, lookup⟩ := holds.entry_of_mem member
      simp only [decide_not, Bool.not_eq_eq_eq_not, Bool.not_true, decide_eq_false_iff_not]
      rintro rfl
      rw [looked] at lookup
      cases lookup
    rw [same]
    exact holds
  | some id =>
    obtain ⟨entry, found, isKey⟩ : ∃ entry, state.entry id = some entry ∧ entry.key = key := by
      obtain ⟨order, represents, rfl⟩ := holds
      exact (represents.fifo.indexed key id).mp looked
    obtain ⟨next, front, back, removed, split, after, capacity⟩ := holds.remove found
    have shape : without contents key = front ++ back := by
      have distinct := holds.distinct
      rw [split] at distinct ⊢
      rw [← isKey]
      exact without_split distinct
    rw [shape]
    refine ⟨next, removed, after, capacity, ?_⟩
    cases gone : next.index.lookup key with
    | none => rfl
    | some other =>
      obtain ⟨stored, there, sameKey⟩ : ∃ stored, next.entry other = some stored ∧ stored.key = key := by
        obtain ⟨order, represents, -⟩ := after
        exact (represents.fifo.indexed key other).mp gone
      have member := after.mem_of_entry there
      rw [← shape] at member
      have apart := (mem_filter.mp member).2
      exact absurd sameKey (of_decide_eq_true apart)

theorem Holds.expireOne (holds : state.Holds contents) (now : Nat) :
    ((∀ record ∈ contents, now < record.2.2) ∧ state.expireOne now = some (false, state)) ∨
    ∃ next front record back, contents = front ++ record :: back ∧ record.2.2 ≤ now ∧
      state.expireOne now = some (true, next) ∧ next.Holds (front ++ back) ∧ next.capacity = state.capacity := by
  unfold DnsCacheState.expireOne
  cases head : state.deadlines.head? with
  | none =>
    refine Or.inl ⟨fun record member => ?_, rfl⟩
    obtain ⟨order, represents, rfl⟩ := holds
    have empty : state.deadlines = [] := List.head?_eq_none_iff.mp head
    have none' : order = [] := by
      rw [← length_eq_zero_iff, ← represents.count, empty]
      rfl
    rw [none'] at member
    simp at member
  | some root =>
    have first : state.deadlines[0]? = some root := by rw [← List.head?_eq_getElem?, head]
    obtain ⟨entry, found, least⟩ : ∃ entry, state.entry root = some entry ∧
        ∀ record ∈ contents, entry.expiresAt ≤ record.2.2 := by
      obtain ⟨order, represents, rfl⟩ := holds
      have inside := (List.getElem?_eq_some_iff.mp first).1
      obtain ⟨entry, found, -⟩ := (represents.positioned 0 root).mp first
      refine ⟨entry, found, fun record member => ?_⟩
      obtain ⟨id, -, here⟩ := mem_filterMap.mp member
      obtain ⟨other, there, is⟩ := Option.map_eq_some_iff.mp here
      have at_position := (represents.positioned other.heapPosition id).mpr ⟨other, there, rfl⟩
      have root_le := represents.ordered.root other.heapPosition (List.getElem?_eq_some_iff.mp at_position).1
      have rootKey : state.keyAt 0 = entry.expiresAt := by
        simp [DnsCacheState.keyAt, due, getD_eq_getElem?_getD, first, found]
      have otherKey : state.keyAt other.heapPosition = other.expiresAt := by
        simp [DnsCacheState.keyAt, due, getD_eq_getElem?_getD, at_position, there]
      rw [rootKey, otherKey] at root_le
      rw [← is]
      exact root_le
    simp only [found, bind, Option.bind]
    by_cases later : now < entry.expiresAt
    · rw [if_pos later]
      exact Or.inl ⟨fun record member => Nat.lt_of_lt_of_le later (least record member), rfl⟩
    · rw [if_neg later]
      obtain ⟨next, front, back, removed, split, after, capacity⟩ := holds.remove found
      refine Or.inr ⟨next, front, entry.stored, back, split, Nat.not_lt.mp later, ?_, after, capacity⟩
      rw [removed]

end DnsCacheState

open Reference

theorem live_cut {front back : List Record} {record : Record} {now later : Nat} (due : record.2.2 ≤ now) (order : now ≤ later) :
    live (front ++ record :: back) later = live (front ++ back) later := by
  unfold live
  rw [filter_append, filter_cons_of_neg (by simp; omega), ← filter_append]

theorem live_eq_self {records : List Record} {now : Nat} (alive : ∀ record ∈ records, now < record.2.2) : live records now = records :=
  filter_eq_self.mpr fun record member => decide_eq_true (alive record member)

namespace DnsCacheState

variable {state : DnsCacheState} {contents : List Record}

theorem Holds.expireAll (fuel now : Nat) (state : DnsCacheState) (contents : List Record) (holds : state.Holds contents)
    (enough : contents.length < fuel) :
    ∃ next, expireAll fuel now state = some next ∧ next.Holds (live contents now) ∧ next.capacity = state.capacity := by
  induction fuel generalizing state contents with
  | zero => omega
  | succ fuel ih =>
    unfold DnsCacheState.expireAll
    rcases holds.expireOne now with ⟨alive, kept⟩ | ⟨next, front, record, back, split, due, expired, after, capacity⟩
    · simp only [kept, bind, Option.bind, Bool.false_eq_true, if_false]
      rw [live_eq_self alive]
      exact ⟨state, rfl, holds, rfl⟩
    · subst split
      simp only [length_append, length_cons] at enough
      obtain ⟨last, ran, holdsLast, sameCapacity⟩ := ih next (front ++ back) after (by simp; omega)
      simp only [expired, bind, Option.bind, if_true]
      rw [live_cut due (Nat.le_refl now)]
      exact ⟨last, ran, holdsLast, sameCapacity.trans capacity⟩

section

variable (holds : state.Holds contents)
include holds

theorem Holds.get (key : DnsCacheKey) (now : Nat) : ∃ next after, state.get key now =
        some (((live contents now).find? (fun record => record.1 = key)).map (fun record => record.2.1), next) ∧
      next.Holds after ∧ next.capacity = state.capacity ∧ after.Sublist contents ∧
      ∀ later, now ≤ later → live after later = live contents later := by
  unfold DnsCacheState.get
  cases looked : state.index.lookup key with
  | none =>
    have absent : (live contents now).find? (fun record => record.1 = key) = none := by
      rw [List.find?_eq_none]
      intro record member
      obtain ⟨id, entry, -, -, lookup⟩ := holds.entry_of_mem (mem_of_mem_filter member)
      simp only [decide_eq_true_eq]
      rintro rfl
      rw [looked] at lookup
      cases lookup
    refine ⟨state, contents, ?_, holds, rfl, .refl _, fun _ _ => rfl⟩
    rw [absent]
    rfl
  | some id =>
    obtain ⟨entry, found, isKey⟩ : ∃ entry, state.entry id = some entry ∧ entry.key = key := by
      obtain ⟨order, represents, rfl⟩ := holds
      exact (represents.fifo.indexed key id).mp looked
    have only : ∀ record ∈ contents, record.1 = key → record = entry.stored := by
      intro record member same
      obtain ⟨other, stored, there, is, lookup⟩ := holds.entry_of_mem member
      rw [same, looked] at lookup
      cases lookup
      rw [found] at there
      cases there
      exact is.symm
    simp only [found, bind, Option.bind]
    by_cases due : entry.expiresAt ≤ now
    · rw [if_pos due]
      obtain ⟨next, front, back, removed, split, after, capacity⟩ := holds.remove found
      have absent : (live contents now).find? (fun record => record.1 = key) = none := by
        rw [List.find?_eq_none]
        intro record member
        simp only [decide_eq_true_eq]
        intro same
        have is := only record (mem_of_mem_filter member) same
        have alive := of_decide_eq_true (mem_filter.mp member).2
        rw [is] at alive
        exact absurd alive (Nat.not_lt.mpr due)
      refine ⟨next, front ++ back, ?_, after, capacity, ?_, fun later order => ?_⟩
      · rw [removed, absent]
        rfl
      · rw [split]
        exact List.Sublist.append_left (sublist_cons_self _ _) _
      · rw [split]
        exact (live_cut due order).symm
    · rw [if_neg due]
      have alive : entry.stored ∈ live contents now :=
        mem_filter.mpr ⟨holds.mem_of_entry found, decide_eq_true (Nat.not_le.mp due)⟩
      have some : ((live contents now).find? (fun record => record.1 = key)).isSome :=
        List.find?_isSome.mpr ⟨entry.stored, alive, decide_eq_true isKey⟩
      obtain ⟨record, hit⟩ := Option.isSome_iff_exists.mp some
      have sameKey : decide (record.1 = key) = true := by simpa using List.find?_some hit
      have isEntry := only record (mem_of_mem_filter (mem_of_find?_eq_some hit)) (of_decide_eq_true sameKey)
      refine ⟨state, contents, ?_, holds, rfl, .refl _, fun _ _ => rfl⟩
      rw [hit, isEntry]
      rfl

theorem Holds.makeRoom (positive : 0 < state.capacity) (now : Nat) :
    ∃ next after, state.makeRoom now = some next ∧ next.Holds after ∧ next.capacity = state.capacity ∧
      after.length < state.capacity ∧ after.Sublist contents ∧
      live after now = if (live contents now).length = state.capacity then (live contents now).drop 1 else live contents now := by
  have bound := holds.bound
  have liveLength : (live contents now).length ≤ contents.length := length_filter_le _ _
  unfold DnsCacheState.makeRoom
  rcases holds.expireOne now with ⟨alive, kept⟩ | ⟨next, front, record, back, split, due, expired, after, capacity⟩
  · simp only [kept, bind, Option.bind]
    rw [live_eq_self alive, holds.length]
    by_cases full : contents.length = state.capacity
    · rw [if_pos full, if_pos full]
      obtain ⟨id, oldest, entry, found, rest, shape⟩ : ∃ id, state.oldest = some id ∧ ∃ entry, state.entry id = some entry ∧
          ∃ rest, contents = entry.stored :: rest := by
        obtain ⟨order, represents, rfl⟩ := holds
        cases order with
        | nil => simp at full; omega
        | cons id rest =>
          obtain ⟨entry, found⟩ := (represents.fifo.live id).mp (by simp)
          have here : state.stored id = some entry.stored := by rw [stored, found]; rfl
          exact ⟨id, represents.fifo.oldest, entry, found, rest.filterMap state.stored, filterMap_cons_some here⟩
      obtain ⟨next, front, back, removed, split, after, capacity⟩ := holds.remove found
      have first : front = [] := by
        cases front with
        | nil => rfl
        | cons a front =>
          exfalso
          have distinct := holds.distinct
          rw [shape, cons_append] at split
          obtain ⟨same, tail⟩ := List.cons.inj split
          subst same
          rw [shape, tail] at distinct
          exact (pairwise_cons.mp distinct).1 entry.stored (by simp) rfl
      subst first
      rw [nil_append] at split after
      simp only [oldest]
      refine ⟨next, back, removed, after, capacity, ?_, ?_, ?_⟩
      · rw [split, length_cons] at full
        omega
      · rw [split]
        exact sublist_cons_self _ _
      · rw [split]
        rw [live_eq_self fun record member => alive record (by rw [split]; simp [member])]
        rfl
    · rw [if_neg full, if_neg full]
      exact ⟨state, contents, rfl, holds, rfl, by omega, .refl _, live_eq_self alive⟩
  · simp only [expired, bind, Option.bind]
    have shorter : (front ++ back).length < state.capacity := by
      rw [split] at bound
      simp only [length_append, length_cons] at bound ⊢
      omega
    have same : live contents now = live (front ++ back) now := by
      rw [split]
      exact live_cut due (Nat.le_refl now)
    have liveShorter : (live (front ++ back) now).length ≤ (front ++ back).length := length_filter_le _ _
    rw [after.length, capacity, if_neg (by omega), same, if_neg (by omega)]
    refine ⟨next, front ++ back, rfl, after, capacity, shorter, ?_, rfl⟩
    rw [split]
    exact List.Sublist.append_left (sublist_cons_self _ _) _

theorem Holds.place (room : contents.length < state.capacity) {key : DnsCacheKey}
    (fresh : state.index.lookup key = none) (answer : DnsCacheAnswer) (expiresAt : Nat) :
    ∃ next, state.place key answer expiresAt = some next ∧ next.Holds (contents ++ [(key, answer, expiresAt)]) ∧
      next.capacity = state.capacity := by
  obtain ⟨order, represents, rfl⟩ := holds
  rw [represents.length_filterMap order (fun _ inside => inside)] at room
  obtain ⟨next, id, placed, after, capacity, new, keeps⟩ := @Represents.place state order key answer expiresAt represents room fresh
  refine ⟨next, placed, ⟨order ++ [id], after, ?_⟩, capacity⟩
  rw [filterMap_append, filterMap_cons_some new, filterMap_nil, filterMap_congr keeps]

theorem Holds.insert (positive : 0 < state.capacity) (key : DnsCacheKey)
    (answer : DnsCacheAnswer) (expiresAt now : Nat) :
    ∃ next after, state.insert key answer expiresAt now = some next ∧ next.Holds after ∧ next.capacity = state.capacity ∧
      ((expiresAt = now ∧ after = without contents key) ∨
        (expiresAt ≠ now ∧ ∃ kept, after = kept ++ [(key, answer, expiresAt)] ∧
          (if (live (without contents key) now).length = state.capacity then (live (without contents key) now).drop 1
            else live (without contents key) now) = live kept now)) := by
  obtain ⟨first, removed, holdsFirst, capacityFirst, gone⟩ := holds.removeKey key
  unfold DnsCacheState.insert
  simp only [removed, bind, Option.bind]
  by_cases zero : expiresAt = now
  · rw [if_pos zero]
    exact ⟨first, _, rfl, holdsFirst, capacityFirst, Or.inl ⟨zero, rfl⟩⟩
  · rw [if_neg zero]
    obtain ⟨second, kept, roomy, holdsSecond, capacitySecond, room, sublist, alive⟩ :=
      holdsFirst.makeRoom (by rw [capacityFirst]; exact positive) now
    have fresh : second.index.lookup key = none := by
      cases looked : second.index.lookup key with
      | none => rfl
      | some id =>
        obtain ⟨entry, found, isKey⟩ : ∃ entry, second.entry id = some entry ∧ entry.key = key := by
          obtain ⟨order, represents, -⟩ := holdsSecond
          exact (represents.fifo.indexed key id).mp looked
        have member := sublist.subset (holdsSecond.mem_of_entry found)
        exact absurd isKey (of_decide_eq_true (mem_filter.mp member).2)
    obtain ⟨third, placed, holdsThird, capacityThird⟩ :=
      holdsSecond.place (by rw [capacitySecond]; exact room) fresh answer expiresAt
    simp only [roomy]
    refine ⟨third, _, placed, holdsThird, capacityThird.trans (capacitySecond.trans capacityFirst), Or.inr ⟨zero, kept, rfl, ?_⟩⟩
    rw [alive, capacityFirst]

end

/-- Both hold the same live records from the last instant on; the reference has dropped what the cache may still hold. -/
structure Simulates (state : DnsCacheState) (reference : Reference) (last : Nat) : Prop where
  capacity : reference.capacity = state.capacity
  records : ∃ contents, state.Holds contents ∧ reference.records.Sublist contents ∧
    ∀ later, last ≤ later → live reference.records later = live contents later

end DnsCacheState

def CacheCall.time : CacheCall → Option Nat
  | .insertPositive _ _ _ now => some now
  | .insertNegative _ _ now => some now
  | .get _ now => some now
  | .entryCount now => some now
  | .clear => none

/-- Equal replies, but for the number of removed entries: the cache also counts expired ones that it still holds. -/
def CacheReply.Agrees (capacity : Nat) (reply reference : CacheReply) : Prop :=
  match reply, reference with
  | .cleared removed, .cleared live => live ≤ removed ∧ removed ≤ capacity
  | reply, reference => reply = reference

namespace DnsCacheState

variable {state : DnsCacheState} {contents : List Record}

theorem Simulates.insertAnswer {reference : Reference} {last now : Nat} (sim : Simulates state reference last)
    (positive : 0 < state.capacity) (order : last ≤ now) (horizon : Nat) (key : DnsCacheKey) (answer : DnsCacheAnswer)
    (ttl : Nat) :
    ∃ next, state.insertAnswer horizon key answer ttl now = some ((reference.insertAnswer horizon key answer ttl now).1, next) ∧
      Simulates next (reference.insertAnswer horizon key answer ttl now).2 now ∧ next.capacity = state.capacity := by
  obtain ⟨contents, holds, sublist, agree⟩ := sim.records
  unfold DnsCacheState.insertAnswer Reference.insertAnswer
  cases checked : checkInsert horizon key answer ttl now with
  | error error => exact ⟨state, rfl, ⟨sim.capacity, contents, holds, sublist, fun later le => agree later (by omega)⟩, rfl⟩
  | ok expiresAt =>
    have expires : expiresAt = now + ttl := by
      unfold checkInsert at checked
      cases answer with
      | positive records =>
        dsimp only at checked
        split at checked
        · cases checked
        · split at checked
          · cases checked
          · cases checked
            rfl
      | negative =>
        dsimp only at checked
        split at checked
        · cases checked
        · cases checked
          rfl
    have others : without (live reference.records now) key = live (without contents key) now := by
      rw [agree now order, live_without]
    obtain ⟨next, after, inserted, holdsNext, capacity, cases⟩ := holds.insert positive key answer expiresAt now
    simp only [inserted, bind, Option.bind]
    refine ⟨next, rfl, ⟨sim.capacity.trans capacity.symm, after, holdsNext, ?_⟩, capacity⟩
    dsimp only
    rw [others]
    rcases cases with ⟨zero, rfl⟩ | ⟨nonzero, kept, rfl, room⟩
    · rw [if_pos (by omega)]
      exact ⟨filter_sublist, fun later le => live_live _ le⟩
    · rw [if_neg (by omega), append, sim.capacity, room]
      refine ⟨List.Sublist.append_right filter_sublist _, fun later le => ?_⟩
      rw [live_append, live_append, live_live _ le]

theorem Simulates.call {reference : Reference} {last : Nat} (sim : Simulates state reference last)
    (positive : 0 < state.capacity) (horizon : Nat) (made : CacheCall) (order : ∀ now, made.time = some now → last ≤ now) :
    ∃ reply next, state.call horizon made = some (reply, next) ∧
      reply.Agrees state.capacity (reference.call horizon made).1 ∧
      Simulates next (reference.call horizon made).2 (made.time.getD last) ∧ next.capacity = state.capacity := by
  have agrees_insert : ∀ (key : DnsCacheKey) (answer : DnsCacheAnswer) (ttl now : Nat),
      CacheReply.Agrees state.capacity (reference.insertAnswer horizon key answer ttl now).1
        (reference.insertAnswer horizon key answer ttl now).1 := by
    intro key answer ttl now
    unfold Reference.insertAnswer
    split <;> rfl
  cases made with
  | insertPositive key records ttl now =>
    obtain ⟨next, ran, after, capacity⟩ := sim.insertAnswer positive (order now rfl) horizon key (.positive records) ttl
    exact ⟨_, next, ran, agrees_insert key (.positive records) ttl now, after, capacity⟩
  | insertNegative key ttl now =>
    obtain ⟨next, ran, after, capacity⟩ := sim.insertAnswer positive (order now rfl) horizon key .negative ttl
    exact ⟨_, next, ran, agrees_insert key .negative ttl now, after, capacity⟩
  | get key now =>
    obtain ⟨contents, holds, sublist, agree⟩ := sim.records
    obtain ⟨next, after, ran, holdsNext, capacity, within, same⟩ := holds.get key now
    refine ⟨.got (((live contents now).find? (fun record => record.1 = key)).map (fun record => record.2.1)), next,
      by simp only [DnsCacheState.call, ran, bind, Option.bind], ?_, ?_, capacity⟩
    · change CacheReply.got _ = CacheReply.got (((live reference.records now).find? _).map _)
      rw [agree now (order now rfl)]
    · refine ⟨sim.capacity.trans capacity.symm, after, holdsNext, ?_, fun later le => ?_⟩
      · change (live reference.records now).Sublist after
        rw [agree now (order now rfl), ← same now (Nat.le_refl now)]
        exact filter_sublist
      · change now ≤ later at le
        change live (live reference.records now) later = live after later
        rw [live_live _ le, same later le]
        exact agree later (Nat.le_trans (order now rfl) le)
  | entryCount now =>
    obtain ⟨contents, holds, sublist, agree⟩ := sim.records
    obtain ⟨next, ran, holdsNext, capacity⟩ := Holds.expireAll (contents.length + 1) now state contents holds (Nat.lt_succ_self _)
    rw [← holds.length] at ran
    refine ⟨.counted (live contents now).length, next, ?_, ?_, ?_, capacity⟩
    · simp only [DnsCacheState.call, DnsCacheState.entryCount, ran, bind, Option.bind, holdsNext.length]
    · change CacheReply.counted _ = CacheReply.counted (live reference.records now).length
      rw [agree now (order now rfl)]
    · refine ⟨sim.capacity.trans capacity.symm, _, holdsNext, ?_, fun later le => ?_⟩
      · change (live reference.records now).Sublist (live contents now)
        rw [agree now (order now rfl)]
      · change live (live reference.records now) later = live (live contents now) later
        rw [agree now (order now rfl)]
  | clear =>
    obtain ⟨contents, holds, sublist, agree⟩ := sim.records
    refine ⟨_, _, rfl, ⟨?_, ?_⟩, ⟨sim.capacity, [], ⟨[], new_represents _, rfl⟩, .refl _, fun _ _ => rfl⟩, rfl⟩
    · change reference.records.length ≤ state.index.len
      rw [holds.length]
      exact sublist.length_le
    · change state.index.len ≤ state.capacity
      rw [holds.length]
      exact holds.bound

theorem Holds.call (holds : state.Holds contents) (positive : 0 < state.capacity) (horizon : Nat) (made : CacheCall) :
    ∃ reply next after, state.call horizon made = some (reply, next) ∧ next.Holds after ∧ next.capacity = state.capacity := by
  have sim : Simulates state ⟨state.capacity, contents⟩ 0 := ⟨rfl, contents, holds, .refl _, fun _ _ => rfl⟩
  obtain ⟨reply, next, ran, -, after, capacity⟩ := sim.call positive horizon made (fun _ _ => Nat.zero_le _)
  obtain ⟨records, holdsNext, -⟩ := after.records
  exact ⟨reply, next, records, ran, holdsNext, capacity⟩

theorem Holds.run (horizon : Nat) (calls : List CacheCall) {state : DnsCacheState} {contents : List Record}
    (holds : state.Holds contents) (positive : 0 < state.capacity) :
    ∃ replies final, run horizon state calls = some (replies, final) ∧ ∃ order, final.Represents order := by
  induction calls generalizing state contents with
  | nil =>
    obtain ⟨order, represents, -⟩ := holds
    exact ⟨[], state, rfl, order, represents⟩
  | cons made rest ih =>
    obtain ⟨reply, next, after, called, holdsNext, capacity⟩ := holds.call positive horizon made
    obtain ⟨replies, final, ran, represented⟩ := ih holdsNext (by rw [capacity]; exact positive)
    refine ⟨reply :: replies, final, ?_, represented⟩
    unfold DnsCacheState.run
    simp only [called, bind, Option.bind, ran]

theorem Simulates.run (horizon : Nat) (calls : List CacheCall) {state : DnsCacheState} {reference : Reference} {last : Nat}
    (sim : Simulates state reference last) (positive : 0 < state.capacity)
    (order : (last :: calls.filterMap CacheCall.time).Pairwise (· ≤ ·)) :
    ∃ replies final, run horizon state calls = some (replies, final) ∧
      List.Forall₂ (CacheReply.Agrees state.capacity) replies (reference.run horizon calls).1 := by
  induction calls generalizing state reference last with
  | nil => exact ⟨[], state, rfl, .nil⟩
  | cons made rest ih =>
    have next_order : (made.time.getD last :: rest.filterMap CacheCall.time).Pairwise (· ≤ ·) := by
      cases time : made.time with
      | none => simpa [time] using order
      | some now =>
        rw [filterMap_cons_some time] at order
        exact (pairwise_cons.mp order).2
    have due : ∀ now, made.time = some now → last ≤ now := by
      intro now time
      rw [filterMap_cons_some time] at order
      exact (pairwise_cons.mp order).1 now (by simp)
    obtain ⟨reply, next, called, agrees, after, capacity⟩ := sim.call positive horizon made due
    obtain ⟨replies, final, ran, all⟩ := ih after (by rw [capacity]; exact positive) next_order
    refine ⟨reply :: replies, final, ?_, .cons agrees (by rw [← capacity]; exact all)⟩
    unfold DnsCacheState.run
    simp only [called, bind, Option.bind, ran]

end DnsCacheState

end Ferrum.Dns
