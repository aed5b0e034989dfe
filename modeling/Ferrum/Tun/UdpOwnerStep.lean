import Ferrum.Tun.UdpOwner

namespace Ferrum.Tun

open Option Function

/-- The lease whose request the owner has taken and not answered yet. -/
def OwnerPoint.holder : OwnerPoint → Option Nat
  | .validating _ lease _ _ _ | .marking _ lease _ _ | .replying _ lease | .rejecting _ lease => some lease
  | _ => none

namespace UdpBridge

/-- What waits for the owner after it took a response waited before. -/
def Drains (bridge : UdpBridge) (pending : Option OwnerResponse) (responses : List OwnerResponse) : Prop :=
  ∀ response, response ∈ responses ∨ response ∈ pending → response ∈ bridge.responses ∨ response ∈ bridge.pendingResponse

/-- A step of the owner that no handle can see and that takes no request. -/
structure Quiet (before after : UdpBridge) : Prop where
  leases : after.leases = before.leases
  handles : after.handles = before.handles
  leaseCount : after.leaseCount = before.leaseCount
  controls : after.controls = before.controls
  replies : after.replies = before.replies
  injected : after.injected = before.injected
  inFlight : after.inFlight = before.inFlight
  drains : before.Drains after.pendingResponse after.responses
  keeps : before.table.Keeps after.table
  capacity : after.table.generations.capacity = before.table.generations.capacity
  holder : after.owner.holder = none

variable {bridge : UdpBridge}

theorem Quiet.move (bridge : UdpBridge) {point : OwnerPoint} (holder : point.holder = none) :
    bridge.Quiet { bridge with owner := point } :=
  ⟨rfl, rfl, rfl, rfl, rfl, rfl, rfl, fun _ waits => waits, UdpTable.Keeps.refl _, rfl, holder⟩

theorem resume_quiet (bridge : UdpBridge) (next : Next) : bridge.Quiet (bridge.resume next) := by
  cases next with
  | done | expire nowMillis packet | enter packet | invalidate slot newGeneration => exact Quiet.move bridge rfl

variable {table : UdpTable} {id : GenerationId} {entry : Slot} {packet : UdpPacket}

theorem Steady.keeps (steady : bridge.Steady) (represents : table.Represents none)
    (keeps : bridge.table.Keeps table) (complete : table.fallbacks = bridge.table.fallbacks) :
    { bridge with table := table }.Steady :=
  ⟨represents, steady.leased.keeps keeps rfl fun _ => ⟨rfl, rfl⟩, complete.trans steady.complete⟩

theorem Steady.popDeadline (steady : bridge.Steady) : { bridge with table := bridge.table.popDeadline }.Steady :=
  have same := UdpTable.popDeadline_sameStorage bridge.table
  steady.keeps (same.represents steady.represents) same.keeps rfl

theorem removable_of_ready {next : Next} (ready : ∀ table, next.Ready table) : table.Removable id next := by
  unfold UdpTable.Removable
  split
  · exact ready _
  · exact ready _

theorem expired_sound (steady : bridge.Steady) (packet : Option UdpPacket) :
    (bridge.expired packet).Sound ∧ bridge.Quiet (bridge.expired packet) := by
  cases packet with
  | none | some packet => exact ⟨steady.move rfl trivial, Quiet.move bridge rfl⟩

theorem expireDue_sound (steady : bridge.Steady) {nowMillis : Int} {packet : Option UdpPacket}
    (point : bridge.owner = .expiring nowMillis packet) (deadline : UdpDeadline) :
    (bridge.expireDue deadline nowMillis packet).Sound ∧ bridge.Quiet (bridge.expireDue deadline nowMillis packet) := by
  have kept : bridge.Sound ∧ bridge.Quiet bridge := by
    refine ⟨steady.sound ?_ ?_, rfl, rfl, rfl, rfl, rfl, rfl, rfl, fun _ waits => waits, UdpTable.Keeps.refl _, rfl, ?_⟩
    · rw [point]
      rfl
    · rw [point]
      trivial
    · rw [point]
      rfl
  unfold expireDue
  split
  · exact kept
  · split
    · exact kept
    · split
      · exact kept
      · exact ⟨steady.move rfl (removable_of_ready fun _ => trivial), Quiet.move bridge rfl⟩

theorem Quiet.trans {before between after : UdpBridge} (first : before.Quiet between) (second : between.Quiet after) :
    before.Quiet after :=
  ⟨second.leases.trans first.leases, second.handles.trans first.handles, second.leaseCount.trans first.leaseCount,
    second.controls.trans first.controls, second.replies.trans first.replies, second.injected.trans first.injected,
    second.inFlight.trans first.inFlight, fun response waits => first.drains response (second.drains response waits),
    first.keeps.trans second.keeps, second.capacity.trans first.capacity, second.holder⟩

variable {nowMillis : Int} {slot lease : Nat} {response : OwnerResponse}

theorem expireTurn_sound (steady : bridge.Steady) {packet : Option UdpPacket}
    (point : bridge.owner = .expiring nowMillis packet) :
    (bridge.expireTurn nowMillis packet).Sound ∧ bridge.Quiet (bridge.expireTurn nowMillis packet) := by
  unfold expireTurn
  split
  · exact expired_sound steady packet
  · rename_i deadline _
    split
    · exact expired_sound steady packet
    · have popped : bridge.Quiet { bridge with table := bridge.table.popDeadline } := by
        refine ⟨rfl, rfl, rfl, rfl, rfl, rfl, rfl, fun _ waits => waits, (UdpTable.popDeadline_sameStorage bridge.table).keeps, rfl, ?_⟩
        rw [point]
        rfl
      have due := @expireDue_sound { bridge with table := bridge.table.popDeadline } steady.popDeadline nowMillis packet point deadline
      exact ⟨due.1, popped.trans due.2⟩

theorem lookup_detach (represents : table.Represents none)
    (occupied : table.occupant id = some entry) : (table.detach id entry).index.lookup entry.source = none := by
  have found := represents.indexes.lookup (UdpTable.occupant_eq_some.mp occupied).2
  simp [UdpTable.detach, found]

theorem refreshDeadline_storage (table : UdpTable) (id : GenerationId) (entry : Slot) (deadlineMillis : Int) :
    (table.refreshDeadline id entry deadlineMillis).generations = table.generations ∧
      (table.refreshDeadline id entry deadlineMillis).fallbacks = table.fallbacks := by
  unfold UdpTable.refreshDeadline
  split
  · exact ⟨rfl, rfl⟩
  · have same := UdpTable.scheduleDeadline_sameStorage
      { table with slots := update table.slots id.slot (some { entry with deadlineMillis := deadlineMillis }) }
      id deadlineMillis
    exact ⟨same.generations, same.fallbacks⟩

theorem Steady.refreshDeadline (steady : bridge.Steady)
    (held : bridge.table.slots id.slot = some entry) (deadlineMillis : Int) :
    { bridge with table := bridge.table.refreshDeadline id entry deadlineMillis }.Steady :=
  steady.keeps (steady.represents.refreshDeadline held deadlineMillis) (UdpTable.refreshDeadline_keeps held deadlineMillis)
    (refreshDeadline_storage bridge.table id entry deadlineMillis).2

theorem enqueueExisting_sound (steady : bridge.Steady)
    (found : bridge.table.index.lookup packet.source = some slot) (environment : OwnerEnvironment) :
    (bridge.enqueueExisting slot packet environment).Sound ∧ bridge.Quiet (bridge.enqueueExisting slot packet environment) := by
  obtain ⟨entry, held, source⟩ := (steady.represents.indexes packet.source slot).mp found
  obtain ⟨id, current⟩ := isSome_iff_exists.mp (steady.represents.current slot entry held)
  have named : id.slot = slot := by
    rw [(GenerationTable.current_eq_some.mp current).2.2]
  have identity : (bridge.leases entry.lease).id = id := by
    rw [(steady.leased slot entry held).2.1, (GenerationTable.current_eq_some.mp current).2.2]
  unfold enqueueExisting
  simp only [held]
  split
  · unfold replaceExisting
    simp only [current]
    refine ⟨steady.move rfl ?_, Quiet.move bridge rfl⟩
    have occupied : bridge.table.occupant id = some entry :=
      UdpTable.occupant_eq_some.mpr (named ▸ ⟨named ▸ current, held⟩)
    unfold OwnerPoint.Supported UdpTable.Removable
    simp only [occupied]
    change (bridge.table.detach id entry).index.lookup packet.source = none
    rw [← source]
    exact lookup_detach steady.represents occupied
  · split
    · exact ⟨steady.move rfl trivial, Quiet.move bridge rfl⟩
    · cases entry.kind with
      | candidate => exact ⟨steady.move rfl trivial, Quiet.move bridge rfl⟩
      | association =>
        simp only [identity]
        rw [← named] at held
        refine ⟨(steady.refreshDeadline held _).move rfl trivial, ?_⟩
        exact ⟨rfl, rfl, rfl, rfl, rfl, rfl, rfl, fun _ waits => waits, UdpTable.refreshDeadline_keeps held _,
          congrArg GenerationTable.capacity (refreshDeadline_storage bridge.table ..).1, rfl⟩

theorem look_sound (steady : bridge.Steady) (packet : UdpPacket) (environment : OwnerEnvironment) :
    (bridge.look packet environment).Sound ∧ bridge.Quiet (bridge.look packet environment) := by
  unfold look
  split
  · exact ⟨steady.move rfl trivial, Quiet.move bridge rfl⟩
  · cases found : bridge.table.index.lookup packet.source with
    | some slot => exact enqueueExisting_sound steady found environment
    | none => exact ⟨steady.move rfl found, Quiet.move bridge rfl⟩

theorem enter_cases (steady : bridge.Steady) (packet : UdpPacket) (environment : OwnerEnvironment) :
    (bridge.enter packet environment).Sound ∧ bridge.Quiet (bridge.enter packet environment) ∨
      ∃ id rest, bridge.table.freeList = id.slot :: rest ∧ bridge.table.generations.current id.slot = some id ∧
        (bridge.enter packet environment = { bridge with table := { bridge.table with freeList := rest } }.openCandidate id packet ∨
          bridge.enter packet environment =
            ({ bridge with table := { bridge.table with freeList := rest } }.openCandidate id packet).dropCandidate
              bridge.leaseCount) := by
  unfold enter
  by_cases closed : packet.admitting = false
  · rw [if_pos closed]
    exact .inl ⟨steady.move rfl trivial, Quiet.move bridge rfl⟩
  rw [if_neg closed]
  cases free : bridge.table.freeList with
  | nil => exact .inl ⟨steady.move rfl trivial, Quiet.move bridge rfl⟩
  | cons slot rest =>
    have member : slot ∈ bridge.table.freeList := by simp [free]
    obtain ⟨id, current⟩ := isSome_iff_exists.mp ((steady.represents.free slot).mp member).2.1
    have named : id.slot = slot := by
      rw [(GenerationTable.current_eq_some.mp current).2.2]
    simp only [current]
    by_cases refused : environment.budget = false ∨ environment.firstSend = false
    · -- The slot goes back to where it was taken from.
      rw [if_pos refused, ← free]
      exact .inl ⟨steady.move rfl trivial, Quiet.move bridge rfl⟩
    · rw [if_neg refused]
      refine .inr ⟨id, rest, by rw [named], named ▸ current, ?_⟩
      by_cases room : environment.candidateRoom = true
      · rw [if_pos room]
        exact .inl rfl
      · rw [if_neg room]
        exact .inr rfl

theorem insertCandidate_storage (table : UdpTable) (id : GenerationId) (source : SocketAddr) (payloadBound lease : Nat)
    (deadlineMillis : Int) :
    (table.insertCandidate id source payloadBound lease deadlineMillis).slots =
        update table.slots id.slot (some ⟨.candidate, source, payloadBound, lease, deadlineMillis⟩) ∧
      (table.insertCandidate id source payloadBound lease deadlineMillis).generations = table.generations ∧
      (table.insertCandidate id source payloadBound lease deadlineMillis).sessionGeneration = table.sessionGeneration ∧
      (table.insertCandidate id source payloadBound lease deadlineMillis).fallbacks = table.fallbacks := by
  obtain ⟨slots, generations, _, _, _, _, session, fallbacks⟩ := UdpTable.scheduleDeadline_sameStorage
    { table with
      slots := update table.slots id.slot (some ⟨.candidate, source, payloadBound, lease, deadlineMillis⟩)
      index := table.index.insert source id.slot
      candidateCount := table.candidateCount + 1 } id deadlineMillis
  exact ⟨slots, generations, session, fallbacks⟩

theorem openCandidate_steady (steady : bridge.Steady) (absent : bridge.table.index.lookup packet.source = none)
    {rest : List Nat} (head : bridge.table.freeList = id.slot :: rest)
    (current : bridge.table.generations.current id.slot = some id) :
    ({ bridge with table := { bridge.table with freeList := rest } }.openCandidate id packet).Steady := by
  obtain ⟨slots, generations, session, fallbacks⟩ := insertCandidate_storage { bridge.table with freeList := rest } id
    packet.source packet.responsePayloadBound bridge.leaseCount (saturatingAdd packet.nowMillis candidateTimeoutMillis)
  refine ⟨steady.represents.insertCandidate head packet.source absent _ _ _, ?_, fallbacks.trans steady.complete⟩
  intro slot entry held
  simp only [openCandidate] at held ⊢
  rw [slots] at held
  rw [generations, session]
  rcases update_eq_some.mp held with ⟨rfl, isNew⟩ | ⟨_, old⟩
  · cases isNew
    rw [update_self]
    exact ⟨Nat.lt_succ_self _, (GenerationTable.current_eq_some.mp current).2.2, rfl⟩
  · obtain ⟨counted, identity, sameSession⟩ := steady.leased slot entry old
    rw [update_of_ne (Nat.ne_of_lt counted)]
    exact ⟨Nat.lt_succ_of_lt counted, identity, sameSession⟩

theorem dropCandidate_sound (steady : bridge.Steady) (lease : Nat) : (bridge.dropCandidate lease).Sound := by
  have closed : (((bridge.setPhase lease .closed).setPoint lease .gone).notify lease .close).Steady :=
    steady.frame rfl rfl (setPhase_identities bridge lease .closed)
  exact closed.move rfl (removable_of_ready fun _ => trivial)

theorem enter_sound (steady : bridge.Steady) (absent : bridge.table.index.lookup packet.source = none)
    (environment : OwnerEnvironment) : (bridge.enter packet environment).Sound := by
  rcases enter_cases steady packet environment with ⟨sound, _⟩ | ⟨id, rest, head, current, opened | dropped⟩
  · exact sound
  · rw [opened]
    exact (openCandidate_steady steady absent head current).sound rfl trivial
  · rw [dropped]
    exact dropCandidate_sound (openCandidate_steady steady absent head current) bridge.leaseCount

theorem handleControl_sound (sound : bridge.Sound) (idle : bridge.owner = .idle) (notice : ControlNotice) (nowMillis : Int)
    (admitting : Bool) : (bridge.handleControl notice nowMillis admitting).Sound := by
  have steady := sound.steady (by rw [idle]; rfl)
  unfold handleControl
  split
  · exact sound
  · split
    · exact sound
    · split
      · exact remove_sound steady (removable_of_ready fun _ => trivial)
      · exact steady.move rfl trivial
      · exact sound
      · exact sound

theorem processOneControl_sound (sound : bridge.Sound) (idle : bridge.owner = .idle) (nowMillis : Int) (admitting : Bool) :
    (bridge.processOneControl nowMillis admitting).Sound := by
  unfold processOneControl
  split
  · exact sound
  · rename_i notice rest _
    have popped : { bridge with controls := rest }.Sound := sound.frame rfl rfl rfl fun _ => ⟨rfl, rfl⟩
    exact handleControl_sound popped idle notice nowMillis admitting

theorem validCommit_holds {commit : CommitRequest} {admitting : Bool}
    (valid : bridge.validCommit id lease commit nowMillis admitting = true) : bridge.table.Holds id lease .candidate := by
  simp only [validCommit, Bool.and_eq_true, any_eq_true, beq_iff_eq] at valid
  obtain ⟨_, entry, occupied, ⟨⟨kind, sameLease⟩, _⟩, _⟩ := valid
  exact ⟨entry, occupied, sameLease, kind⟩

theorem promoteSlot_eq {id : GenerationId} {entry : Slot} (held : bridge.table.slots id.slot = some entry)
    (candidate : entry.kind = .candidate) (lease : Nat) (commit : CommitRequest) (nowMillis : Int) :
    bridge.promoteSlot id lease commit nowMillis =
      { bridge with
        table := bridge.table.promote id entry commit.selectedPayloadBound (saturatingAdd nowMillis bridge.table.idleMillis)
        owner := .replying id lease } := by
  unfold promoteSlot
  simp only [held, if_pos candidate]

theorem promote_storage (table : UdpTable) (id : GenerationId) (entry : Slot) (bound : Nat) (deadlineMillis : Int) :
    (table.promote id entry bound deadlineMillis).slots =
        update table.slots id.slot (some ⟨.association, entry.source, bound, entry.lease, deadlineMillis⟩) ∧
      (table.promote id entry bound deadlineMillis).generations = table.generations ∧
      (table.promote id entry bound deadlineMillis).fallbacks = table.fallbacks := by
  obtain ⟨slots, generations, _, _, _, _, _, fallbacks⟩ := UdpTable.scheduleDeadline_sameStorage
    { table with
      slots := update table.slots id.slot (some ⟨.association, entry.source, bound, entry.lease, deadlineMillis⟩)
      candidateCount := table.candidateCount - 1
      associationCount := table.associationCount + 1 } id deadlineMillis
  exact ⟨slots, generations, fallbacks⟩

theorem markLive_sound (steady : bridge.Steady) (holds : bridge.table.Holds id lease .candidate)
    (commit : CommitRequest) (nowMillis : Int) : (bridge.markLive id lease commit nowMillis).Sound := by
  obtain ⟨entry, occupied, sameLease, candidate⟩ := holds
  obtain ⟨current, held⟩ := UdpTable.occupant_eq_some.mp occupied
  have live : (bridge.setPhase lease .association).Steady :=
    steady.frame rfl rfl (setPhase_identities bridge lease .association)
  unfold markLive
  split
  · obtain ⟨slots, generations, fallbacks⟩ := promote_storage bridge.table id entry commit.selectedPayloadBound
      (saturatingAdd nowMillis bridge.table.idleMillis)
    rw [@promoteSlot_eq (bridge.setPhase lease .association) id entry held candidate]
    refine (live.keeps (steady.represents.promote held candidate _ _) (UdpTable.promote_keeps held _ _) fallbacks).move rfl ?_
    refine ⟨⟨.association, entry.source, commit.selectedPayloadBound, entry.lease,
      saturatingAdd nowMillis bridge.table.idleMillis⟩, UdpTable.occupant_eq_some.mpr ⟨?_, ?_⟩, sameLease, rfl⟩
    · exact (congrArg (GenerationTable.current · id.slot) generations).trans current
    · exact (congrFun slots id.slot).trans (update_self ..)
  · exact steady.move rfl trivial

theorem invalidateTurn_sound (steady : bridge.Steady) {newGeneration : Nat}
    (emptied : ∀ other < slot, bridge.table.slots other = none) :
    (bridge.invalidateTurn slot newGeneration).Sound ∧ bridge.Quiet (bridge.invalidateTurn slot newGeneration) := by
  unfold invalidateTurn
  split
  · cases held : bridge.table.slots slot with
    | none =>
      refine ⟨steady.move rfl ?_, Quiet.move bridge rfl⟩
      intro other below
      rcases Nat.lt_succ_iff_lt_or_eq.mp below with before | rfl
      · exact emptied other before
      · exact held
    | some entry =>
      obtain ⟨id, current⟩ := isSome_iff_exists.mp (steady.represents.current slot entry held)
      have named : id.slot = slot := by
        rw [(GenerationTable.current_eq_some.mp current).2.2]
      have occupied : bridge.table.occupant id = some entry :=
        UdpTable.occupant_eq_some.mpr (named ▸ ⟨named ▸ current, held⟩)
      simp only [current]
      refine ⟨steady.move rfl ?_, Quiet.move bridge rfl⟩
      unfold OwnerPoint.Supported UdpTable.Removable
      simp only [occupied]
      intro other below
      simp only [UdpTable.detach, update_apply, named]
      split
      · rfl
      · exact emptied other (by omega)
  · rename_i outside
    have empty : ∀ other, bridge.table.slots other = none := by
      intro other
      cases held : bridge.table.slots other with
      | none => rfl
      | some entry =>
        have inside := GenerationTable.inside_of_current (steady.represents.current other entry held)
        have cleared := emptied other (by omega)
        rw [held] at cleared
        cases cleared
    have vacant : ∀ {other entry}, bridge.table.slots other ≠ some entry := by
      intro other entry held
      rw [empty other] at held
      cases held
    obtain ⟨indexes, current, freeNodup, free, candidates, associations⟩ := steady.represents
    refine ⟨⟨⟨indexes, current, freeNodup, free, candidates, associations⟩, trivial, ?_, steady.complete⟩, ?_⟩
    · exact fun other entry held => absurd held vacant
    · refine ⟨rfl, rfl, rfl, rfl, rfl, rfl, rfl, fun response waits => ?_, fun other entry held => absurd held vacant, rfl, rfl⟩
      simp at waits

theorem matchesAssociation_eq_some (matched : bridge.matchesAssociation response = some entry) :
    bridge.table.slots (bridge.leases response.lease).id.slot = some entry ∧ entry.kind = .association ∧
      (bridge.leases response.lease).phase = .association ∧ entry.source = response.associationSource ∧
      entry.lease = response.lease := by
  simp only [matchesAssociation, filter_eq_some_iff, Bool.and_eq_true, beq_iff_eq] at matched
  obtain ⟨held, ⟨⟨kind, phase⟩, source⟩, lease⟩ := matched
  exact ⟨held, kind, phase, source, lease⟩

theorem inject_sound (sound : bridge.Sound) (idle : bridge.owner = .idle) (response : OwnerResponse) (nowMillis : Int)
    (outcome : InjectOutcome) : (bridge.inject response nowMillis outcome).Sound := by
  have steady := sound.steady (by rw [idle]; rfl)
  unfold inject
  cases matched : bridge.matchesAssociation response with
  | none => exact sound
  | some entry =>
    have held := (matchesAssociation_eq_some matched).1
    simp only
    split
    · exact sound
    · split
      · exact sound
      · cases outcome with
        | injected =>
          have refreshed := steady.refreshDeadline held (saturatingAdd nowMillis bridge.table.idleMillis)
          have whole := refreshed.sound (by rw [idle]; rfl) (by rw [idle]; trivial)
          exact whole.frame rfl rfl rfl fun _ => ⟨rfl, rfl⟩
        | backpressured => exact sound.frame rfl rfl rfl fun _ => ⟨rfl, rfl⟩
        | rejected => exact sound

theorem handleResponse_sound (sound : bridge.Sound) (idle : bridge.owner = .idle) (response : OwnerResponse) (nowMillis : Int)
    (outcome : InjectOutcome) : (bridge.handleResponse response nowMillis outcome).Sound := by
  have steady := sound.steady (by rw [idle]; rfl)
  unfold handleResponse
  split
  · exact sound
  · split
    · exact remove_sound steady (removable_of_ready fun _ => trivial)
    · exact inject_sound sound idle response nowMillis outcome

theorem takeResponse_eq_some {rest : UdpBridge} (taken : bridge.takeResponse = some (response, rest)) :
    ∃ pending responses, (response ∈ bridge.responses ∨ response ∈ bridge.pendingResponse) ∧ bridge.Drains pending responses ∧
      rest = { bridge with pendingResponse := pending, responses := responses } := by
  unfold takeResponse at taken
  cases retained : bridge.pendingResponse with
  | some found =>
    simp only [retained, some.injEq, Prod.mk.injEq] at taken
    obtain ⟨rfl, rfl⟩ := taken
    refine ⟨none, bridge.responses, .inr rfl, fun other waits => ?_, rfl⟩
    exact .inl (waits.resolve_right (by simp))
  | none =>
    cases queue : bridge.responses with
    | nil => simp [retained, queue] at taken
    | cons found rest =>
      simp only [retained, queue, some.injEq, Prod.mk.injEq] at taken
      obtain ⟨rfl, rfl⟩ := taken
      refine ⟨bridge.pendingResponse, rest, .inl (by simp), fun other waits => ?_, by simp [retained]⟩
      rw [queue, List.mem_cons]
      exact waits.imp_left .inr

theorem processOneResponse_sound (sound : bridge.Sound) (idle : bridge.owner = .idle) (nowMillis : Int) (outcome : InjectOutcome) :
    (bridge.processOneResponse nowMillis outcome).Sound := by
  unfold processOneResponse
  cases taken : bridge.takeResponse with
  | none => exact sound
  | some found =>
    obtain ⟨response, rest⟩ := found
    obtain ⟨pending, responses, _, _, rfl⟩ := takeResponse_eq_some taken
    have taken : { bridge with pendingResponse := pending, responses := responses }.Sound :=
      sound.frame rfl rfl rfl fun _ => ⟨rfl, rfl⟩
    exact handleResponse_sound taken idle response nowMillis outcome

end UdpBridge

end Ferrum.Tun
