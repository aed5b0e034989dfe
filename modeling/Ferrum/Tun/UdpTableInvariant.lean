import Ferrum.Lib.Counting
import Ferrum.Tun.UdpTable

namespace Ferrum.Tun

open Option Function

variable {generations : GenerationTable} {slot : Nat}

theorem GenerationTable.current_eq_some {id : GenerationId} :
    generations.current slot = some id ↔
      slot < generations.capacity ∧ generations.slots slot ≠ u32Max ∧ id = ⟨slot, generations.slots slot⟩ := by
  unfold current
  split
  · rename_i valid
    simp [valid, eq_comm]
  · rename_i invalid
    simp only [reduceCtorEq, false_iff]
    intro ⟨inside, unused, _⟩
    exact invalid ⟨inside, unused⟩

theorem GenerationTable.current_isSome :
    (generations.current slot).isSome ↔ slot < generations.capacity ∧ generations.slots slot ≠ u32Max := by
  unfold current
  split
  · rename_i valid
    simp [valid]
  · rename_i invalid
    simp only [isSome_none, Bool.false_eq_true, false_iff]
    exact invalid

theorem GenerationTable.inside_of_current (current : (generations.current slot).isSome) : slot < generations.capacity :=
  (current_isSome.mp current).1

namespace UdpTable

theorem occupant_eq_some {table : UdpTable} {id : GenerationId} {entry : Slot} :
    table.occupant id = some entry ↔ table.generations.current id.slot = some id ∧ table.slots id.slot = some entry := by
  unfold occupant
  split
  · rename_i current
    simp [current]
  · rename_i outdated
    simp [outdated]

def countKind (table : UdpTable) (kind : SlotKind) : Nat :=
  countWhere (fun content : Option Slot => content.map Slot.kind = some kind)
    fun slot : Fin table.generations.capacity => table.slots slot

/-- The index, the free list and the counts say what the slots hold, except that a slot which is
being reclaimed is not free yet. -/
structure Represents (table : UdpTable) (reclaimed : Option Nat) : Prop where
  indexes : Indexes table.index table.slots Slot.source
  current : ∀ slot entry, table.slots slot = some entry → (table.generations.current slot).isSome
  freeNodup : table.freeList.Nodup
  free : ∀ slot, slot ∈ table.freeList ↔
    table.slots slot = none ∧ (table.generations.current slot).isSome ∧ reclaimed ≠ some slot
  candidates : table.candidateCount = table.countKind .candidate
  associations : table.associationCount = table.countKind .association

/-- The fields that a deadline does not touch. -/
structure SameStorage (before after : UdpTable) : Prop where
  slots : after.slots = before.slots
  generations : after.generations = before.generations
  index : after.index = before.index
  freeList : after.freeList = before.freeList
  candidateCount : after.candidateCount = before.candidateCount
  associationCount : after.associationCount = before.associationCount
  sessionGeneration : after.sessionGeneration = before.sessionGeneration
  fallbacks : after.fallbacks = before.fallbacks

theorem scheduleDeadline_sameStorage (table : UdpTable) (id : GenerationId) (deadlineMillis : Int) :
    SameStorage table (table.scheduleDeadline id deadlineMillis) := by
  unfold scheduleDeadline compactDeadlinesIfNeeded
  split
  · exact ⟨rfl, rfl, rfl, rfl, rfl, rfl, rfl, rfl⟩
  · exact ⟨rfl, rfl, rfl, rfl, rfl, rfl, rfl, rfl⟩

variable {before after : UdpTable}

theorem SameStorage.represents (same : SameStorage before after) {reclaimed : Option Nat}
    (represents : before.Represents reclaimed) : after.Represents reclaimed := by
  have kinds : ∀ kind, after.countKind kind = before.countKind kind := by
    intro kind
    unfold countKind
    rw [same.slots, same.generations]
  obtain ⟨indexes, current, freeNodup, free, candidates, associations⟩ := represents
  refine ⟨?_, ?_, ?_, ?_, ?_, ?_⟩
  · rw [same.index, same.slots]
    exact indexes
  · rw [same.slots, same.generations]
    exact current
  · rw [same.freeList]
    exact freeNodup
  · rw [same.freeList, same.slots, same.generations]
    exact free
  · rw [same.candidateCount, kinds]
    exact candidates
  · rw [same.associationCount, kinds]
    exact associations

theorem countKind_update {slot : Nat} {content : Option Slot}
    (capacity : after.generations.capacity = before.generations.capacity)
    (slots : after.slots = update before.slots slot content) (inside : slot < before.generations.capacity)
    (kind : SlotKind) :
    after.countKind kind + (if (before.slots slot).map Slot.kind = some kind then 1 else 0) =
      before.countKind kind + (if content.map Slot.kind = some kind then 1 else 0) := by
  have moved := countWhere_update (fun content : Option Slot => content.map Slot.kind = some kind)
    (fun place : Fin before.generations.capacity => before.slots place) ⟨slot, inside⟩ content
  have restricted : after.countKind kind = countWhere (fun content : Option Slot => content.map Slot.kind = some kind)
      (update (fun place : Fin before.generations.capacity => before.slots place) ⟨slot, inside⟩ content) := by
    unfold countKind
    rw [capacity, slots]
    congr 1
    funext place
    simp only [update_apply, Fin.ext_iff]
  rw [restricted]
  exact moved

theorem withOptions_represents (capacity : Nat) (idleMillis : Int) (filtering : UdpFiltering) (sessionGeneration : Nat) :
    (withOptions capacity idleMillis filtering sessionGeneration).Represents none := by
  refine ⟨?_, ?_, List.nodup_range, ?_, ?_, ?_⟩
  · intro source slot
    simp [withOptions]
  · intro slot entry held
    simp [withOptions] at held
  · intro slot
    simp [withOptions, GenerationTable.current, GenerationTable.new, u32Max]
  · simp [withOptions, countKind, countWhere]
  · simp [withOptions, countKind, countWhere]

variable {table : UdpTable} {id : GenerationId} {entry : Slot}

section

variable (represents : table.Represents none)
include represents

theorem Represents.insertCandidate {rest : List Nat}
    (head : table.freeList = id.slot :: rest) (source : SocketAddr) (absent : table.index.lookup source = none)
    (payloadBound lease : Nat) (deadlineMillis : Int) :
    ({ table with freeList := rest }.insertCandidate id source payloadBound lease deadlineMillis).Represents none := by
  apply (scheduleDeadline_sameStorage _ _ _).represents
  have member : id.slot ∈ table.freeList := by simp [head]
  obtain ⟨empty, current, _⟩ := (represents.free id.slot).mp member
  have inside := GenerationTable.inside_of_current current
  have distinct := represents.freeNodup
  rw [head, List.nodup_cons] at distinct
  have kinds := fun kind => @countKind_update table
    { table with slots := update table.slots id.slot (some ⟨.candidate, source, payloadBound, lease, deadlineMillis⟩) }
    id.slot _ rfl rfl inside kind
  refine ⟨?_, ?_, distinct.2, ?_, ?_, ?_⟩
  · exact @Indexes.insert _ _ _ _ _ _ represents.indexes _ ⟨.candidate, source, payloadBound, lease, deadlineMillis⟩ empty absent
  · intro slot other held
    rcases update_eq_some.mp held with ⟨rfl, _⟩ | ⟨_, old⟩
    · exact current
    · exact represents.current slot other old
  · intro slot
    have old := represents.free slot
    rw [head, List.mem_cons] at old
    simp only [update_apply]
    by_cases same : slot = id.slot
    · subst same
      simp [distinct.1]
    · simpa [same] using old
  · have moved := kinds .candidate
    simp only [empty, map_none, map_some, reduceCtorEq, if_false, if_true] at moved
    exact (congrArg (· + 1) represents.candidates).trans moved.symm
  · have moved := kinds .association
    simp only [empty, map_none, map_some, reduceCtorEq, some.injEq, if_false] at moved
    exact represents.associations.trans moved.symm

theorem Represents.replace {slot : Nat} (held : table.slots slot = some entry)
    (content : Slot) (source : entry.source = content.source) {candidates associations : Nat}
    (candidatesMoved : candidates + (if entry.kind = .candidate then 1 else 0) =
      table.candidateCount + (if content.kind = .candidate then 1 else 0))
    (associationsMoved : associations + (if entry.kind = .association then 1 else 0) =
      table.associationCount + (if content.kind = .association then 1 else 0)) :
    { table with
      slots := update table.slots slot (some content)
      candidateCount := candidates
      associationCount := associations : UdpTable }.Represents none := by
  have current := represents.current slot entry held
  have inside := GenerationTable.inside_of_current current
  have kinds := fun kind => @countKind_update table
    { table with
      slots := update table.slots slot (some content)
      candidateCount := candidates
      associationCount := associations }
    slot _ rfl rfl inside kind
  simp only [held, map_some, some.injEq] at kinds
  refine ⟨?_, ?_, represents.freeNodup, ?_, ?_, ?_⟩
  · apply represents.indexes.congr
    · intro other value after
      rcases update_eq_some.mp after with ⟨rfl, isNew⟩ | ⟨_, old⟩
      · cases isNew
        exact ⟨entry, held, source⟩
      · exact ⟨value, old, rfl⟩
    · intro other old before
      by_cases same : other = slot
      · subst same
        cases held.symm.trans before
        exact ⟨content, update_eq_some.mpr (.inl ⟨rfl, rfl⟩), source⟩
      · exact ⟨old, update_eq_some.mpr (.inr ⟨same, before⟩), rfl⟩
  · intro other value after
    rcases update_eq_some.mp after with ⟨rfl, _⟩ | ⟨_, old⟩
    · exact current
    · exact represents.current other value old
  · intro other
    rw [represents.free other]
    simp only [update_apply]
    by_cases same : other = slot
    · subst same
      simp [held]
    · simp [same]
  · have moved := kinds .candidate
    have counted := represents.candidates
    change candidates = countKind _ _
    omega
  · have moved := kinds .association
    have counted := represents.associations
    change associations = countKind _ _
    omega

theorem Represents.kind_counted {slot : Nat} (held : table.slots slot = some entry) :
    0 < table.countKind entry.kind := by
  have inside := GenerationTable.inside_of_current (represents.current slot entry held)
  unfold countKind countWhere
  apply Finset.card_pos.mpr
  refine ⟨⟨slot, inside⟩, Finset.mem_filter.mpr ⟨Finset.mem_univ _, ?_⟩⟩
  simp [held]

theorem Represents.promote (held : table.slots id.slot = some entry)
    (candidate : entry.kind = .candidate) (selectedPayloadBound : Nat) (deadlineMillis : Int) :
    (table.promote id entry selectedPayloadBound deadlineMillis).Represents none := by
  apply (scheduleDeadline_sameStorage _ _ _).represents
  have counted := represents.kind_counted held
  rw [candidate, ← represents.candidates] at counted
  refine represents.replace held ⟨.association, entry.source, selectedPayloadBound, entry.lease, deadlineMillis⟩ rfl ?_ ?_
  · simp only [candidate, if_true, reduceCtorEq, if_false]
    omega
  · simp [candidate]

theorem Represents.refreshDeadline (held : table.slots id.slot = some entry)
    (deadlineMillis : Int) : (table.refreshDeadline id entry deadlineMillis).Represents none := by
  unfold UdpTable.refreshDeadline
  split
  · exact represents
  · apply (scheduleDeadline_sameStorage _ _ _).represents
    exact represents.replace held { entry with deadlineMillis := deadlineMillis } rfl rfl rfl

theorem Represents.detach (held : table.slots id.slot = some entry) :
    (table.detach id entry).Represents (some id.slot) := by
  have current := represents.current id.slot entry held
  have inside := GenerationTable.inside_of_current current
  have found := represents.indexes.lookup held
  have kinds := fun kind => @countKind_update table (table.detach id entry) id.slot none rfl rfl inside kind
  simp only [held, map_some, some.injEq, map_none, reduceCtorEq, if_false, Nat.add_zero] at kinds
  refine ⟨?_, ?_, represents.freeNodup, ?_, ?_, ?_⟩
  · simp only [UdpTable.detach, found, if_true]
    exact represents.indexes.erase held
  · intro other value after
    exact represents.current other value (update_none_eq_some.mp after).2
  · intro other
    simp only [UdpTable.detach, represents.free other, update_apply]
    by_cases same : other = id.slot
    · subst same
      simp [held]
    · simp [same, Ne.symm same]
  · have moved := kinds .candidate
    have counted := represents.candidates
    change (if entry.kind = .candidate then table.candidateCount - 1 else table.candidateCount) = countKind _ _
    split at moved
    · rename_i same
      rw [if_pos same]
      omega
    · rename_i different
      rw [if_neg different]
      omega
  · have moved := kinds .association
    have counted := represents.associations
    change (if entry.kind = .association then table.associationCount - 1 else table.associationCount) = countKind _ _
    split at moved
    · rename_i same
      rw [if_pos same]
      omega
    · rename_i different
      rw [if_neg different]
      omega

end

theorem recycle_current {generations : GenerationTable} (current : generations.current id.slot = some id) :
    ∃ fits, generations.recycle id = (generations.set id.slot (id.generation + 1) fits, true) := by
  obtain ⟨inside, unused, same⟩ := GenerationTable.current_eq_some.mp current
  have generation : generations.slots id.slot = id.generation := by
    rw [same]
  have fits : generations.slots id.slot + 1 ≤ u32Max := by
    have bounded := generations.bounded id.slot
    omega
  refine ⟨generation ▸ fits, ?_⟩
  unfold GenerationTable.recycle
  rw [if_neg (not_not.mpr inside), if_neg (not_not.mpr generation), dif_pos fits]
  simp only [generation]

theorem current_set_of_ne {generations : GenerationTable} {slot other generation : Nat} (valid : generation ≤ u32Max)
    (different : other ≠ slot) : (generations.set slot generation valid).current other = generations.current other := by
  simp [GenerationTable.current, GenerationTable.set, update_of_ne different]

theorem Represents.reclaim (represents : table.Represents (some id.slot)) (empty : table.slots id.slot = none)
    (current : table.generations.current id.slot = some id) : (table.reclaim id).Represents none := by
  obtain ⟨fits, recycled⟩ := recycle_current current
  have absent : id.slot ∉ table.freeList := by
    rw [represents.free]
    simp
  have others : ∀ slot entry, table.slots slot = some entry →
      ((table.generations.set id.slot (id.generation + 1) fits).current slot).isSome := by
    intro slot entry held
    have different : slot ≠ id.slot := by
      rintro rfl
      simp [empty] at held
    rw [current_set_of_ne fits different]
    exact represents.current slot entry held
  have kept : ∀ slot, slot ≠ id.slot → (slot ∈ table.freeList ↔ table.slots slot = none ∧
      ((table.generations.set id.slot (id.generation + 1) fits).current slot).isSome) := by
    intro slot different
    rw [represents.free, current_set_of_ne fits different]
    simp [Ne.symm different]
  unfold UdpTable.reclaim
  simp only [recycled]
  split
  · rename_i usable
    refine ⟨represents.indexes, others, List.nodup_cons.mpr ⟨absent, represents.freeNodup⟩, ?_, represents.candidates,
      represents.associations⟩
    intro slot
    by_cases same : slot = id.slot
    · subst same
      simp [empty, usable]
    · simp [same, kept slot same]
  · rename_i exhausted
    refine ⟨represents.indexes, others, represents.freeNodup, ?_, represents.candidates, represents.associations⟩
    intro slot
    by_cases same : slot = id.slot
    · subst same
      simp [absent, exhausted]
    · simp [kept slot same]

theorem reclaim_storage {table : UdpTable} {id : GenerationId} (current : table.generations.current id.slot = some id) :
    (table.reclaim id).slots = table.slots ∧ (table.reclaim id).index = table.index ∧
      (table.reclaim id).sessionGeneration = table.sessionGeneration ∧ (table.reclaim id).fallbacks = table.fallbacks ∧
      ∃ fits, (table.reclaim id).generations = table.generations.set id.slot (id.generation + 1) fits := by
  obtain ⟨fits, recycled⟩ := recycle_current current
  unfold UdpTable.reclaim
  simp only [recycled]
  split
  · exact ⟨rfl, rfl, rfl, rfl, fits, rfl⟩
  · exact ⟨rfl, rfl, rfl, rfl, fits, rfl⟩

/-- No lease enters a slot, and a slot that stays in use keeps its generation and its session. -/
def Keeps (before after : UdpTable) : Prop :=
  ∀ slot entry, after.slots slot = some entry → ∃ old, before.slots slot = some old ∧ old.lease = entry.lease ∧
    after.generations.slots slot = before.generations.slots slot ∧ after.sessionGeneration = before.sessionGeneration

theorem Keeps.refl (table : UdpTable) : table.Keeps table :=
  fun _ entry held => ⟨entry, held, rfl, rfl, rfl⟩

theorem SameStorage.keeps (same : SameStorage before after) : before.Keeps after := by
  intro slot entry held
  refine ⟨entry, same.slots ▸ held, rfl, ?_, same.sessionGeneration⟩
  rw [same.generations]

theorem popDeadline_sameStorage (table : UdpTable) : SameStorage table table.popDeadline :=
  ⟨rfl, rfl, rfl, rfl, rfl, rfl, rfl, rfl⟩

theorem Keeps.trans {between : UdpTable} (first : before.Keeps between) (second : between.Keeps after) :
    before.Keeps after := by
  intro slot entry held
  obtain ⟨middle, inside, lease, generation, session⟩ := second slot entry held
  obtain ⟨old, start, oldLease, oldGeneration, oldSession⟩ := first slot middle inside
  exact ⟨old, start, oldLease.trans lease, generation.trans oldGeneration, session.trans oldSession⟩

theorem detach_keeps (table : UdpTable) (id : GenerationId) (entry : Slot) : table.Keeps (table.detach id entry) :=
  fun _ other held => ⟨other, (update_none_eq_some.mp held).2, rfl, rfl, rfl⟩

theorem reclaim_keeps {table : UdpTable} {id : GenerationId} (empty : table.slots id.slot = none)
    (current : table.generations.current id.slot = some id) : table.Keeps (table.reclaim id) := by
  obtain ⟨slots, _, session, _, fits, generations⟩ := reclaim_storage current
  intro slot entry held
  rw [slots] at held
  have different : slot ≠ id.slot := by
    rintro rfl
    simp [empty] at held
  refine ⟨entry, held, rfl, ?_, session⟩
  rw [generations]
  exact update_of_ne different _ _

theorem replace_keeps {table : UdpTable} {slot : Nat} {entry content : Slot} (held : table.slots slot = some entry)
    (slots : after.slots = update table.slots slot (some content)) (lease : entry.lease = content.lease)
    (generations : after.generations = table.generations) (session : after.sessionGeneration = table.sessionGeneration) :
    table.Keeps after := by
  intro other value inside
  rw [slots] at inside
  rw [generations, session]
  rcases update_eq_some.mp inside with ⟨rfl, isNew⟩ | ⟨_, old⟩
  · cases isNew
    exact ⟨entry, held, lease, rfl, rfl⟩
  · exact ⟨value, old, rfl, rfl, rfl⟩

theorem promote_keeps {table : UdpTable} {id : GenerationId} {entry : Slot} (held : table.slots id.slot = some entry)
    (selectedPayloadBound : Nat) (deadlineMillis : Int) :
    table.Keeps (table.promote id entry selectedPayloadBound deadlineMillis) := by
  have same := scheduleDeadline_sameStorage
    { table with
      slots := update table.slots id.slot
        (some ⟨.association, entry.source, selectedPayloadBound, entry.lease, deadlineMillis⟩)
      candidateCount := table.candidateCount - 1
      associationCount := table.associationCount + 1 } id deadlineMillis
  exact replace_keeps held same.slots rfl same.generations same.sessionGeneration

theorem refreshDeadline_keeps {table : UdpTable} {id : GenerationId} {entry : Slot} (held : table.slots id.slot = some entry)
    (deadlineMillis : Int) : table.Keeps (table.refreshDeadline id entry deadlineMillis) := by
  unfold refreshDeadline
  split
  · exact Keeps.refl table
  · have same := scheduleDeadline_sameStorage
      { table with slots := update table.slots id.slot (some { entry with deadlineMillis := deadlineMillis }) }
      id deadlineMillis
    exact replace_keeps held same.slots rfl same.generations same.sessionGeneration

end UdpTable

end Ferrum.Tun
