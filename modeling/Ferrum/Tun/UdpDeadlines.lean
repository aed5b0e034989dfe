import Mathlib.Order.Bounds.Basic
import Ferrum.Tun.UdpTableRun

namespace Ferrum.Tun.UdpTable

open Option Function

/-- The heap entry for the present deadline of a slot. -/
def deadlineAt (table : UdpTable) (slot : Nat) (entry : Slot) : UdpDeadline :=
  .new entry.deadlineMillis table.sessionGeneration ⟨slot, table.generations.slots slot⟩

def isLive (table : UdpTable) (deadline : UdpDeadline) : Bool :=
  deadline.sessionGeneration == table.sessionGeneration &&
    (table.occupant deadline.id).any fun entry => entry.deadlineMillis == deadline.deadlineMillis

/-- `next_deadline_millis`: stale entries are popped until the first one is live. -/
def nextDeadlineMillis (table : UdpTable) : Option Int × UdpTable :=
  let pruned := (table.deadlines.popWhile (fun deadline => !table.isLive deadline) (fun _ _ => ()) ()).2
  (pruned.peek.map UdpDeadline.deadlineMillis, { table with deadlines := pruned })

/-- Each slot in use has its deadline in the heap, except the one with the identity `due`, whose
entry was just popped, and the heap is within its bound. -/
structure Timed (table : UdpTable) (due : Option GenerationId) : Prop where
  scheduled : ∀ slot entry, table.slots slot = some entry → due ≠ some ⟨slot, table.generations.slots slot⟩ →
    table.deadlineAt slot entry ∈ table.deadlines.entries
  bounded : table.deadlines.len ≤ max (table.generations.capacity * 2) 1

variable {table before after : UdpTable} {id : GenerationId} {entry : Slot}

theorem withOptions_timed (capacity : Nat) (idleMillis : Int) (filtering : UdpFiltering) (sessionGeneration : Nat) :
    (withOptions capacity idleMillis filtering sessionGeneration).Timed none := by
  refine ⟨fun slot entry held => ?_, Nat.zero_le _⟩
  simp [withOptions] at held

theorem Timed.frame {due : Option GenerationId} (timed : before.Timed due)
    (slots : ∀ slot entry, after.slots slot = some entry → before.slots slot = some entry ∧
      after.generations.slots slot = before.generations.slots slot ∧ after.sessionGeneration = before.sessionGeneration)
    (capacity : after.generations.capacity = before.generations.capacity) (deadlines : after.deadlines = before.deadlines) :
    after.Timed due := by
  refine ⟨fun slot entry held notDue => ?_, ?_⟩
  · obtain ⟨old, generation, session⟩ := slots slot entry held
    rw [generation] at notDue
    have scheduled := timed.scheduled slot entry old notDue
    unfold deadlineAt at scheduled ⊢
    rw [deadlines, generation, session]
    exact scheduled
  · rw [deadlines, capacity]
    exact timed.bounded

theorem identity_of_current (current : table.generations.current id.slot = some id) :
    (⟨id.slot, table.generations.slots id.slot⟩ : GenerationId) = id :=
  (GenerationTable.current_eq_some.mp current).2.2.symm

theorem deadlineAt_mem_liveDeadlines {slot : Nat} (held : table.slots slot = some entry)
    (current : (table.generations.current slot).isSome) : table.deadlineAt slot entry ∈ table.liveDeadlines := by
  obtain ⟨id, isCurrent⟩ := isSome_iff_exists.mp current
  unfold liveDeadlines
  refine List.mem_filterMap.mpr ⟨slot, List.mem_range.mpr (GenerationTable.inside_of_current current), ?_⟩
  simp only [held, isCurrent, bind_eq_bind, bind_some, pure_def]
  rw [(GenerationTable.current_eq_some.mp isCurrent).2.2]
  rfl

theorem liveDeadlines_length (table : UdpTable) : table.liveDeadlines.length ≤ table.generations.capacity := by
  have length := List.length_filterMap_le (fun slot => do
    let entry ← table.slots slot
    let id ← table.generations.current slot
    return UdpDeadline.new entry.deadlineMillis table.sessionGeneration id) (List.range table.generations.capacity)
  rw [List.length_range] at length
  exact length

theorem scheduleDeadline_timed (present : ∀ slot entry, table.slots slot = some entry → (table.generations.current slot).isSome)
    (identity : table.generations.slots id.slot = id.generation) (held : table.slots id.slot = some entry)
    (others : ∀ slot other, table.slots slot = some other → slot ≠ id.slot →
      table.deadlineAt slot other ∈ table.deadlines.entries) :
    (table.scheduleDeadline id entry.deadlineMillis).Timed none := by
  unfold scheduleDeadline compactDeadlinesIfNeeded
  split
  · rename_i within
    refine ⟨fun slot other inside _ => ?_, within⟩
    refine MinHeap.mem_push.mpr ?_
    by_cases same : slot = id.slot
    · subst same
      cases held.symm.trans inside
      left
      unfold deadlineAt
      simp only [identity]
    · exact .inr (others slot other inside same)
  · refine ⟨fun slot other inside _ => ?_, ?_⟩
    · exact MinHeap.mem_ofList.mpr (deadlineAt_mem_liveDeadlines inside (present slot other inside))
    · have length := liveDeadlines_length
        { table with deadlines := table.deadlines.push (.new entry.deadlineMillis table.sessionGeneration id) }
      rw [MinHeap.len_ofList]
      simp only at length ⊢
      omega

theorem Timed.reschedule (timed : before.Timed none)
    (present : ∀ slot entry, before.slots slot = some entry → (before.generations.current slot).isSome)
    (current : before.generations.current id.slot = some id)
    (slots : after.slots = update before.slots id.slot (some entry)) (generations : after.generations = before.generations)
    (session : after.sessionGeneration = before.sessionGeneration) (deadlines : after.deadlines = before.deadlines) :
    (after.scheduleDeadline id entry.deadlineMillis).Timed none := by
  refine scheduleDeadline_timed ?_ ?_ ?_ ?_
  · intro slot other inside
    rw [generations]
    rw [slots] at inside
    rcases update_eq_some.mp inside with ⟨rfl, _⟩ | ⟨_, old⟩
    · simp [current]
    · exact present slot other old
  · rw [generations]
    exact congrArg GenerationId.generation (identity_of_current current)
  · rw [slots]
    exact update_self ..
  · intro slot other inside different
    rw [slots, update_of_ne different] at inside
    have scheduled := timed.scheduled slot other inside (by simp)
    unfold deadlineAt at scheduled ⊢
    rw [deadlines, generations, session]
    exact scheduled

theorem Timed.insertCandidate (timed : table.Timed none) (represents : table.Represents none)
    (current : table.generations.current id.slot = some id) (rest : List Nat) (source : SocketAddr) (payloadBound lease : Nat)
    (deadlineMillis : Int) :
    ({ table with freeList := rest }.insertCandidate id source payloadBound lease deadlineMillis).Timed none :=
  @Timed.reschedule table
    { table with
      freeList := rest
      slots := update table.slots id.slot (some ⟨.candidate, source, payloadBound, lease, deadlineMillis⟩)
      index := table.index.insert source id.slot
      candidateCount := table.candidateCount + 1 }
    id ⟨.candidate, source, payloadBound, lease, deadlineMillis⟩ timed represents.current current rfl rfl rfl rfl

theorem Timed.promote (timed : table.Timed none) (represents : table.Represents none)
    (current : table.generations.current id.slot = some id) (entry : Slot) (bound : Nat) (deadlineMillis : Int) :
    (table.promote id entry bound deadlineMillis).Timed none :=
  @Timed.reschedule table
    { table with
      slots := update table.slots id.slot (some ⟨.association, entry.source, bound, entry.lease, deadlineMillis⟩)
      candidateCount := table.candidateCount - 1
      associationCount := table.associationCount + 1 }
    id ⟨.association, entry.source, bound, entry.lease, deadlineMillis⟩ timed represents.current current rfl rfl rfl rfl

theorem Timed.refreshDeadline (timed : table.Timed none) (represents : table.Represents none)
    (current : table.generations.current id.slot = some id) (entry : Slot) (deadlineMillis : Int) :
    (table.refreshDeadline id entry deadlineMillis).Timed none := by
  unfold UdpTable.refreshDeadline
  split
  · exact timed
  · exact @Timed.reschedule table
      { table with slots := update table.slots id.slot (some { entry with deadlineMillis := deadlineMillis }) }
      id { entry with deadlineMillis := deadlineMillis } timed represents.current current rfl rfl rfl rfl

theorem Timed.detach {due : Option GenerationId} (timed : table.Timed due) (entry : Slot)
    (isDue : ∀ other, due = some other → other.slot = id.slot) : (table.detach id entry).Timed none := by
  refine ⟨fun slot other held _ => ?_, timed.bounded⟩
  obtain ⟨different, old⟩ := update_none_eq_some.mp held
  refine timed.scheduled slot other old fun same => different (isDue _ same)

theorem reclaim_deadlines (table : UdpTable) (id : GenerationId) : (table.reclaim id).deadlines = table.deadlines := by
  unfold UdpTable.reclaim
  split
  · rfl
  · split
    · rfl
    · rfl

theorem Timed.reclaim (timed : table.Timed none) (empty : table.slots id.slot = none)
    (current : table.generations.current id.slot = some id) : (table.reclaim id).Timed none := by
  obtain ⟨slots, _, session, _, fits, generations⟩ := reclaim_storage current
  refine timed.frame (fun slot entry held => ?_) (by rw [generations]; rfl) (reclaim_deadlines table id)
  rw [slots] at held
  have different : slot ≠ id.slot := by
    rintro rfl
    simp [empty] at held
  rw [generations]
  exact ⟨held, update_of_ne different _ _, session⟩

theorem isLive_iff (present : ∀ slot entry, table.slots slot = some entry → (table.generations.current slot).isSome)
    {deadline : UdpDeadline} :
    table.isLive deadline = true ↔ ∃ slot entry, table.slots slot = some entry ∧ table.deadlineAt slot entry = deadline := by
  simp only [isLive, Bool.and_eq_true, beq_iff_eq, any_eq_true]
  constructor
  · rintro ⟨session, entry, occupied, sameDeadline⟩
    obtain ⟨current, held⟩ := occupant_eq_some.mp occupied
    refine ⟨deadline.id.slot, entry, held, ?_⟩
    unfold deadlineAt
    rw [identity_of_current current, sameDeadline, ← session]
    rfl
  · rintro ⟨slot, entry, held, rfl⟩
    obtain ⟨id, current⟩ := isSome_iff_exists.mp (present slot entry held)
    rw [(GenerationTable.current_eq_some.mp current).2.2] at current
    exact ⟨rfl, entry, occupant_eq_some.mpr ⟨current, held⟩, rfl⟩

theorem Timed.popDeadline (timed : table.Timed none) {deadline : UdpDeadline} (first : table.deadlines.peek = some deadline)
    {due : Option GenerationId} (covers : ∀ slot entry, table.slots slot = some entry → table.deadlineAt slot entry = deadline →
      due = some ⟨slot, table.generations.slots slot⟩) : table.popDeadline.Timed due := by
  obtain ⟨rest, same⟩ := List.head?_eq_some_iff.mp first
  have bounded := timed.bounded
  unfold MinHeap.len at bounded
  rw [same] at bounded
  refine ⟨fun slot entry held notDue => ?_, ?_⟩
  · have scheduled := timed.scheduled slot entry held (by simp)
    rw [same] at scheduled
    rcases List.mem_cons.mp scheduled with isFirst | later
    · exact absurd (covers slot entry held isFirst) notDue
    · change _ ∈ table.deadlines.entries.tail
      rw [same]
      exact later
  · change table.deadlines.entries.tail.length ≤ _
    rw [same]
    exact Nat.le_of_succ_le bounded

def slotDeadlines (table : UdpTable) : Set Int :=
  {deadlineMillis | ∃ slot entry, table.slots slot = some entry ∧ entry.deadlineMillis = deadlineMillis}

theorem deadlineMillis_le {first later : UdpDeadline} (ordered : first ≤ later) : first.deadlineMillis ≤ later.deadlineMillis :=
  Prod.Lex.monotone_fst _ _ ordered

theorem nextDeadlineMillis_sameStorage (table : UdpTable) : SameStorage table table.nextDeadlineMillis.2 :=
  ⟨rfl, rfl, rfl, rfl, rfl, rfl, rfl, rfl⟩

theorem Timed.nextDeadlineMillis (timed : table.Timed none)
    (present : ∀ slot entry, table.slots slot = some entry → (table.generations.current slot).isSome) :
    table.nextDeadlineMillis.2.Timed none := by
  refine ⟨fun slot entry held _ => ?_, ?_⟩
  · refine MinHeap.popWhile_rule (fun _ entries => table.deadlineAt slot entry ∈ entries) ?_ ?_
    · exact timed.scheduled slot entry held (by simp)
    · intro _ first rest stale member
      rcases List.mem_cons.mp member with same | later
      · rw [(isLive_iff present).mpr ⟨slot, entry, held, same⟩] at stale
        cases stale
      · exact later
  · exact (MinHeap.popWhile_sublist table.deadlines _ _ ()).length_le.trans timed.bounded

theorem nextDeadlineMillis_least (timed : table.Timed none)
    (present : ∀ slot entry, table.slots slot = some entry → (table.generations.current slot).isSome) :
    (∀ deadlineMillis, table.nextDeadlineMillis.1 = some deadlineMillis ↔ IsLeast table.slotDeadlines deadlineMillis) ∧
      (table.nextDeadlineMillis.1 = none ↔ ∀ slot, table.slots slot = none) := by
  have kept := (timed.nextDeadlineMillis present).scheduled
  cases first : table.nextDeadlineMillis.2.deadlines.peek with
  | none =>
    have result : table.nextDeadlineMillis.1 = none := congrArg (Option.map UdpDeadline.deadlineMillis) first
    have empty : ∀ slot, table.slots slot = none := by
      intro slot
      cases held : table.slots slot with
      | none => rfl
      | some entry =>
        have member := kept slot entry held (by simp)
        rw [MinHeap.peek_eq_none first] at member
        cases member
    refine ⟨fun deadlineMillis => ?_, ?_⟩
    · rw [result]
      refine ⟨fun impossible => (by cases impossible), fun least => ?_⟩
      obtain ⟨slot, entry, held, _⟩ := least.1
      rw [empty slot] at held
      cases held
    · exact ⟨fun _ => empty, fun _ => result⟩
  | some deadline =>
    have result : table.nextDeadlineMillis.1 = some deadline.deadlineMillis :=
      congrArg (Option.map UdpDeadline.deadlineMillis) first
    have live : table.isLive deadline = true := by simpa using MinHeap.popWhile_head first
    obtain ⟨slot, entry, held, same⟩ := (isLive_iff present).mp live
    have least : IsLeast table.slotDeadlines deadline.deadlineMillis := by
      refine ⟨⟨slot, entry, held, ?_⟩, ?_⟩
      · rw [← same]
        rfl
      · rintro _ ⟨other, content, inside, rfl⟩
        exact deadlineMillis_le (MinHeap.peek_least first (kept other content inside (by simp)))
    refine ⟨fun deadlineMillis => ?_, ?_⟩
    · rw [result, some.injEq]
      refine ⟨fun isThis => isThis ▸ least, fun also => least.unique also⟩
    · rw [result]
      refine ⟨fun impossible => (by cases impossible), fun empty => ?_⟩
      rw [empty slot] at held
      cases held

end Ferrum.Tun.UdpTable

namespace Ferrum.Tun

open Option Function

/-- The slot that `expire` is about to remove; its heap entry is popped already. -/
def OwnerPoint.due : OwnerPoint → Option GenerationId
  | .removing id (.expire _ _) => some id
  | _ => none

namespace UdpBridge

variable {bridge before after : UdpBridge}

def Timed (bridge : UdpBridge) : Prop := bridge.table.Timed bridge.owner.due

theorem Timed.calm (timed : bridge.Timed) (calm : bridge.owner.due = none) : bridge.table.Timed none := by
  unfold Timed at timed
  rwa [calm] at timed

theorem Timed.same (timed : before.Timed) (table : after.table = before.table) (owner : after.owner = before.owner) :
    after.Timed := by
  unfold Timed
  rw [table, owner]
  exact timed

theorem resume_timed (timed : bridge.table.Timed none) (next : Next) : (bridge.resume next).Timed := by
  cases next with
  | done | expire nowMillis packet | enter packet | invalidate slot newGeneration => exact timed

theorem expired_timed (timed : bridge.table.Timed none) (packet : Option UdpPacket) : (bridge.expired packet).Timed := by
  cases packet with
  | none | some packet => exact timed

theorem expireDue_eq (bridge : UdpBridge) (deadline : UdpDeadline) (nowMillis : Int) (packet : Option UdpPacket) :
    bridge.expireDue deadline nowMillis packet =
      if bridge.table.isLive deadline then { bridge with owner := .removing deadline.id (.expire nowMillis packet) } else bridge := by
  unfold expireDue UdpTable.isLive
  by_cases session : deadline.sessionGeneration = bridge.table.sessionGeneration
  · cases occupied : bridge.table.occupant deadline.id with
    | none => simp [session]
    | some entry =>
      by_cases same : entry.deadlineMillis = deadline.deadlineMillis
      · simp [session, same]
      · simp [session, same]
  · simp [session]

theorem expireTurn_timed (steady : bridge.Steady) (timed : bridge.table.Timed none) {nowMillis : Int}
    {packet : Option UdpPacket} (point : bridge.owner = .expiring nowMillis packet) :
    (bridge.expireTurn nowMillis packet).Timed := by
  unfold expireTurn
  split
  · exact expired_timed timed packet
  · rename_i deadline first
    split
    · exact expired_timed timed packet
    · rw [expireDue_eq]
      have popped := fun due => @UdpTable.Timed.popDeadline bridge.table timed deadline first due
      split
      · refine popped (some deadline.id) fun slot entry held same => ?_
        rw [← same]
        rfl
      · rename_i stale
        have calm : bridge.table.popDeadline.Timed none := by
          refine popped none fun slot entry held same => absurd ?_ stale
          exact (UdpTable.isLive_iff steady.represents.current).mpr ⟨slot, entry, held, same⟩
        unfold Timed
        rw [point]
        exact calm

theorem enqueueExisting_timed (steady : bridge.Steady) (timed : bridge.table.Timed none) {packet : UdpPacket} {slot : Nat}
    (found : bridge.table.index.lookup packet.source = some slot) (environment : OwnerEnvironment) :
    (bridge.enqueueExisting slot packet environment).Timed := by
  obtain ⟨entry, held, _⟩ := (steady.represents.indexes packet.source slot).mp found
  obtain ⟨id, current⟩ := isSome_iff_exists.mp (steady.represents.current slot entry held)
  have named : id.slot = slot := by
    rw [(GenerationTable.current_eq_some.mp current).2.2]
  have identity : (bridge.leases entry.lease).id = id := by
    rw [(steady.leased slot entry held).2.1, (GenerationTable.current_eq_some.mp current).2.2]
  unfold enqueueExisting
  simp only [held]
  split
  · unfold replaceExisting
    simp only [current]
    exact timed
  · split
    · exact timed
    · cases entry.kind with
      | candidate => exact timed
      | association =>
        simp only [identity]
        exact timed.refreshDeadline steady.represents (named ▸ current) entry _

theorem look_timed (steady : bridge.Steady) (timed : bridge.table.Timed none) (packet : UdpPacket)
    (environment : OwnerEnvironment) : (bridge.look packet environment).Timed := by
  unfold look
  split
  · exact timed
  · cases found : bridge.table.index.lookup packet.source with
    | some slot => exact enqueueExisting_timed steady timed found environment
    | none => exact timed

theorem enter_timed (steady : bridge.Steady) (timed : bridge.table.Timed none) (packet : UdpPacket)
    (environment : OwnerEnvironment) : (bridge.enter packet environment).Timed := by
  have kept : ∀ {freeList fallbacks}, { bridge.table with freeList := freeList, fallbacks := fallbacks : UdpTable }.Timed none :=
    fun {_ _} => timed.frame (fun _ _ held => ⟨held, rfl, rfl⟩) rfl rfl
  unfold enter
  split
  · exact timed
  · split
    · exact timed
    · rename_i slot rest _
      split
      · exact kept
      · rename_i id current
        have named : id.slot = slot := by
          rw [(GenerationTable.current_eq_some.mp current).2.2]
        have opened := timed.insertCandidate steady.represents (named ▸ current) rest packet.source packet.responsePayloadBound
          bridge.leaseCount (saturatingAdd packet.nowMillis candidateTimeoutMillis)
        split
        · exact kept
        · split
          · exact opened
          · exact opened

theorem remove_timed (represents : bridge.table.Represents none) {id : GenerationId} {due : Option GenerationId}
    (timed : bridge.table.Timed due) (isDue : ∀ other, due = some other → other = id) (next : Next) :
    (bridge.remove id next).Timed := by
  unfold remove
  cases occupied : bridge.table.occupant id with
  | none =>
    refine resume_timed ⟨fun slot entry held _ => ?_, timed.bounded⟩ next
    refine timed.scheduled slot entry held fun same => ?_
    obtain ⟨current, isCurrent⟩ := isSome_iff_exists.mp (represents.current slot entry held)
    rw [(GenerationTable.current_eq_some.mp isCurrent).2.2] at isCurrent
    have found : bridge.table.occupant id = some entry := by
      rw [← isDue _ same]
      exact UdpTable.occupant_eq_some.mpr ⟨isCurrent, held⟩
    rw [occupied] at found
    cases found
  | some entry => exact timed.detach entry fun other same => congrArg GenerationId.slot (isDue other same)

theorem reclaim_timed (sound : bridge.Sound) {id : GenerationId} {lease : Nat} {next : Next}
    (point : bridge.owner = .reclaiming id lease next) (timed : bridge.table.Timed none) :
    (bridge.reclaim id lease next).Timed := by
  have supported := sound.supported
  rw [point] at supported
  obtain ⟨current, empty, _⟩ := supported
  exact resume_timed (timed.reclaim empty current) next

theorem invalidateTurn_timed (steady : bridge.Steady) (timed : bridge.table.Timed none) {slot newGeneration : Nat}
    (emptied : ∀ other < slot, bridge.table.slots other = none) : (bridge.invalidateTurn slot newGeneration).Timed := by
  unfold invalidateTurn
  split
  · split
    · exact timed
    · exact timed
  · rename_i outside
    refine ⟨fun other entry held _ => ?_, Nat.zero_le _⟩
    have inside := GenerationTable.inside_of_current (steady.represents.current other entry held)
    have cleared := emptied other (by omega)
    rw [show bridge.table.slots other = some entry from held] at cleared
    cases cleared

section

variable (sound : bridge.Sound)
include sound

theorem handleControl_timed (idle : bridge.owner = .idle) (timed : bridge.Timed) (notice : ControlNotice)
    (nowMillis : Int) (admitting : Bool) : (bridge.handleControl notice nowMillis admitting).Timed := by
  have steady := sound.steady (by rw [idle]; rfl)
  have calm := timed.calm (by rw [idle]; rfl)
  unfold handleControl
  split
  · exact timed
  · split
    · exact timed
    · split
      · exact remove_timed steady.represents calm (fun other same => by cases same) .done
      · exact calm
      · exact timed
      · exact timed

theorem inject_timed (idle : bridge.owner = .idle) (timed : bridge.Timed) {response : OwnerResponse}
    (fresh : bridge.isStaleResponse response = false) (nowMillis : Int) (outcome : InjectOutcome) :
    (bridge.inject response nowMillis outcome).Timed := by
  have steady := sound.steady (by rw [idle]; rfl)
  have calm := timed.calm (by rw [idle]; rfl)
  simp only [isStaleResponse, Bool.or_eq_false_iff, bne_eq_false_iff_eq] at fresh
  unfold inject
  split
  · exact timed
  · rename_i entry _
    split
    · exact timed
    · split
      · exact timed
      · cases outcome with
        | injected =>
          unfold Timed
          rw [show ({ bridge with
            injected := bridge.injected ++ [response]
            table := bridge.table.refreshDeadline (bridge.leases response.lease).id entry
              (saturatingAdd nowMillis bridge.table.idleMillis) } : UdpBridge).owner = .idle from idle]
          exact calm.refreshDeadline steady.represents fresh.2 entry _
        | backpressured | rejected => exact timed

theorem processOneResponse_timed (idle : bridge.owner = .idle) (timed : bridge.Timed) (nowMillis : Int)
    (outcome : InjectOutcome) : (bridge.processOneResponse nowMillis outcome).Timed := by
  unfold processOneResponse
  cases taken : bridge.takeResponse with
  | none => exact timed
  | some found =>
    obtain ⟨response, rest⟩ := found
    obtain ⟨pending, responses, _, _, rfl⟩ := takeResponse_eq_some taken
    have takenSound : { bridge with pendingResponse := pending, responses := responses }.Sound :=
      sound.frame rfl rfl rfl fun _ => ⟨rfl, rfl⟩
    have takenTimed : { bridge with pendingResponse := pending, responses := responses }.Timed := timed
    simp only [handleResponse]
    split
    · exact takenTimed
    · rename_i fresh
      split
      · exact remove_timed (takenSound.steady (by rw [idle]; rfl)).represents (takenTimed.calm (by rw [idle]; rfl))
          (fun other same => by cases same) .done
      · exact inject_timed takenSound idle takenTimed (Bool.eq_false_iff.mpr fresh) nowMillis outcome

theorem ownerStep_timed (timed : bridge.Timed) (environment : OwnerEnvironment) :
    (bridge.ownerStep environment).Timed := by
  have supported := sound.supported
  have steady : bridge.owner.reclaimed = none → bridge.Steady := sound.steady
  have calm : bridge.owner.due = none → bridge.table.Timed none := timed.calm
  unfold ownerStep
  cases point : bridge.owner with
  | idle => exact timed
  | expiring nowMillis packet =>
    exact expireTurn_timed (steady (by rw [point]; rfl)) (calm (by rw [point]; rfl)) point
  | looking packet => exact look_timed (steady (by rw [point]; rfl)) (calm (by rw [point]; rfl)) packet environment
  | entering packet => exact enter_timed (steady (by rw [point]; rfl)) (calm (by rw [point]; rfl)) packet environment
  | taking id lease nowMillis admitting | validating id lease commit nowMillis admitting | replying id lease =>
    simp only
    split
    · exact calm (by rw [point]; rfl)
    · exact calm (by rw [point]; rfl)
  | marking id lease commit nowMillis =>
    rw [point] at supported
    obtain ⟨entry, occupied, _, candidate⟩ := supported
    obtain ⟨current, held⟩ := UdpTable.occupant_eq_some.mp occupied
    have unmoved := calm (by rw [point]; rfl)
    simp only [markLive]
    split
    · rw [@promoteSlot_eq (bridge.setPhase lease .association) id entry held candidate]
      exact unmoved.promote (steady (by rw [point]; rfl)).represents current entry _ _
    · exact unmoved
  | rejecting id lease => exact calm (by rw [point]; rfl)
  | removing id next =>
    unfold Timed at timed
    rw [point] at timed
    refine remove_timed (steady (by rw [point]; rfl)).represents timed (fun other same => ?_) next
    cases next with
    | expire nowMillis packet => exact (some.inj same).symm
    | done | enter packet | invalidate slot newGeneration => cases same
  | reclaiming id lease next => exact reclaim_timed sound point (calm (by rw [point]; rfl))
  | invalidating slot newGeneration =>
    rw [point] at supported
    exact invalidateTurn_timed (steady (by rw [point]; rfl)) (calm (by rw [point]; rfl)) supported

theorem step_timed (timed : bridge.Timed) (event : UdpEvent) : (bridge.step event).Timed := by
  have calm : bridge.owner = .idle → bridge.table.Timed none := fun idle => timed.calm (by rw [idle]; rfl)
  cases event with
  | owner environment => exact ownerStep_timed sound timed environment
  | handle lease step =>
    simp only [UdpBridge.step]
    split
    · have same := (handleStep_move bridge lease step).sameOwner
      exact timed.same same.table same.owner
    · exact timed
  | enqueue place =>
    simp only [UdpBridge.step, enqueue]
    split
    · exact timed
    · exact timed
  | expire nowMillis | admitPacket packet | invalidateSession newGeneration =>
    simp only [UdpBridge.step]
    split
    · rename_i idle
      exact calm idle
    · exact timed
  | processOneControl nowMillis admitting =>
    simp only [UdpBridge.step]
    split
    · rename_i idle
      unfold processOneControl
      split
      · exact timed
      · rename_i notice rest _
        have popped : { bridge with controls := rest }.Sound := sound.frame rfl rfl rfl fun _ => ⟨rfl, rfl⟩
        exact handleControl_timed popped idle timed notice nowMillis admitting
    · exact timed
  | processOneResponse nowMillis outcome =>
    simp only [UdpBridge.step]
    split
    · rename_i idle
      exact processOneResponse_timed sound idle timed nowMillis outcome
    · exact timed
  | fenceSession newGeneration =>
    simp only [UdpBridge.step]
    split
    · exact timed
    · exact timed

end

end UdpBridge

end Ferrum.Tun
