import Ferrum.Tun.UdpOwnerStep

namespace Ferrum.Tun.UdpBridge

open Option

/-- What a handle may do in one step, with what it found. -/
inductive HandleMove (lease : Nat) (before : UdpBridge) : UdpBridge → Prop
  | stay : HandleMove lease before before
  | locked {bound : Nat} : (before.handles lease).point = .holding → HandleMove lease before (before.setPoint lease (.locking bound))
  | stored {bound : Nat} : (before.handles lease).point = .locking bound → (before.leases lease).commit = none →
      HandleMove lease before ((before.setCommit lease (some ⟨bound⟩)).setPoint lease (.stored bound))
  | pending {bound : Nat} : (before.handles lease).point = .stored bound → (before.leases lease).phase = .candidate →
      HandleMove lease before ((before.setPhase lease .commitPending).setPoint lease (.notifying bound))
  | late {bound : Nat} : (before.handles lease).point = .stored bound → HandleMove lease before (before.setPoint lease .withdrawing)
  | withdrawn : (before.handles lease).point = .withdrawing →
      HandleMove lease before ((before.setCommit lease none).setPoint lease .dropping)
  | notified {bound : Nat} : (before.handles lease).point = .notifying bound →
      HandleMove lease before ((before.notify lease .commit).setPoint lease (.awaiting bound))
  | associated {bound : Nat} : (before.handles lease).point = .awaiting bound → HandleMove lease before (before.associate lease bound)
  | dropped : (before.handles lease).point ≠ .closing → HandleMove lease before (before.setPoint lease .dropping)
  | closedBefore : (before.handles lease).point = .dropping → (before.leases lease).phase = .closed →
      HandleMove lease before (before.setPoint lease .gone)
  | closed : (before.handles lease).point = .dropping →
      HandleMove lease before ((before.setPhase lease .closed).setPoint lease .closing)
  | notifiedClose : (before.handles lease).point = .closing →
      HandleMove lease before ((before.notify lease .close).setPoint lease .gone)
  | policy {policy : PeerPolicy} : HandleMove lease before (before.setPolicy lease policy)
  | sent {source : SocketAddr} {payload : List UInt8} : HandleMove lease before
      { before with inFlight := before.inFlight ++ [⟨lease, (before.handles lease).source, source, payload⟩] }

theorem receive_move {bridge : UdpBridge} {lease bound : Nat} (point : (bridge.handles lease).point = .awaiting bound) :
    HandleMove lease bridge (bridge.receive lease bound) := by
  have notClosing : (bridge.handles lease).point ≠ .closing := by simp [point]
  unfold receive
  split
  · exact .stay
  · exact .dropped notClosing
  · split
    · exact .dropped notClosing
    · exact .associated point

theorem handleStep_move (bridge : UdpBridge) (lease : Nat) (step : HandleStep) :
    HandleMove lease bridge (bridge.handleStep lease step) := by
  cases step with
  | request bound =>
    simp only [handleStep]
    split
    · exact .stay
    · rename_i holding
      simp only [ne_eq, not_not] at holding
      split
      · exact .dropped (by simp [holding])
      · exact .locked holding
  | store =>
    simp only [handleStep]
    split
    · rename_i bound point
      split
      · exact .dropped (by simp [point])
      · rename_i free
        simp only [not_or, Bool.not_eq_true, isSome_eq_false_iff, isNone_iff_eq_none] at free
        exact .stored point free.1
    · exact .stay
  | exchange =>
    simp only [handleStep]
    split
    · rename_i bound point
      split
      · rename_i candidate
        exact .pending point candidate
      · exact .late point
    · exact .stay
  | withdraw =>
    simp only [handleStep]
    split
    · rename_i point
      exact .withdrawn point
    · exact .stay
  | notify =>
    simp only [handleStep]
    split
    · rename_i bound point
      exact .notified point
    · exact .stay
  | receive =>
    simp only [handleStep]
    split
    · rename_i bound point
      exact receive_move point
    · exact .stay
  | cancel =>
    simp only [handleStep]
    split
    · rename_i point
      exact .dropped (by simp [point])
    · rename_i bound point
      exact .dropped (by simp [point])
    · rename_i point
      exact .dropped (by simp [point])
    · exact .stay
  | close =>
    simp only [handleStep]
    split
    · rename_i point
      unfold close
      split
      · rename_i closed
        exact .closedBefore point closed
      · exact .closed point
    · exact .stay
  | notifyClose =>
    simp only [handleStep]
    split
    · rename_i point
      exact .notifiedClose point
    · exact .stay
  | authorizePeer peer | reservePeer peer =>
    simp only [handleStep]
    split
    · exact .stay
    · exact .policy
  | finishReservation peer authorize => exact .policy
  | send source payload =>
    simp only [handleStep, send]
    split
    · exact .stay
    · split
      · exact .stay
      · exact .sent

structure SameOwner (before after : UdpBridge) : Prop where
  table : after.table = before.table
  owner : after.owner = before.owner
  leaseCount : after.leaseCount = before.leaseCount
  replies : after.replies = before.replies
  injected : after.injected = before.injected
  identities : before.SameIdentities after

variable {before after : UdpBridge}

theorem HandleMove.sameOwner {lease : Nat} (move : HandleMove lease before after) : before.SameOwner after := by
  cases move with
  | stay | locked | late | dropped | closedBefore | notified | associated | notifiedClose | sent =>
      exact ⟨rfl, rfl, rfl, rfl, rfl, fun _ => ⟨rfl, rfl⟩⟩
  | stored | withdrawn => exact ⟨rfl, rfl, rfl, rfl, rfl, setCommit_identities before lease _⟩
  | pending | closed => exact ⟨rfl, rfl, rfl, rfl, rfl, setPhase_identities before lease _⟩
  | policy => exact ⟨rfl, rfl, rfl, rfl, rfl, setPolicy_identities before lease _⟩

theorem Sound.sameOwner (sound : before.Sound) (same : before.SameOwner after) : after.Sound :=
  sound.frame same.table same.owner same.leaseCount same.identities

/-- What the owner has tested when it injects a response. -/
structure Injects (bridge : UdpBridge) (response : OwnerResponse) (nowMillis : Int) (entry : Slot) : Prop where
  held : bridge.table.slots (bridge.leases response.lease).id.slot = some entry
  association : entry.kind = .association
  lease : entry.lease = response.lease
  source : entry.source = response.associationSource
  unexpired : nowMillis < entry.deadlineMillis
  current : bridge.table.generations.current (bridge.leases response.lease).id.slot = some (bridge.leases response.lease).id
  session : (bridge.leases response.lease).sessionGeneration = bridge.table.sessionGeneration
  epoch : bridge.sessionEpoch = (bridge.leases response.lease).sessionGeneration
  allowed : (bridge.leases response.lease).peerPolicy.allows response.responseSource = some true
  bounded : response.payload.length ≤ entry.payloadBound

/-- What one event may do in a sound state, with what the owner or the handle found. -/
inductive Move (before : UdpBridge) (event : UdpEvent) : UdpBridge → Prop
  | stay : Move before event before
  | handle {lease : Nat} {after : UdpBridge} : lease < before.leaseCount → HandleMove lease before after → Move before event after
  | enqueued {inFlight responses : List OwnerResponse} :
      (∀ response, response ∈ inFlight ∨ response ∈ responses → response ∈ before.inFlight ∨ response ∈ before.responses) →
      Move before event { before with inFlight := inFlight, responses := responses }
  | fenced {sessionEpoch : Nat} {point : OwnerPoint} : point.holder = before.owner.holder →
      Move before event { before with sessionEpoch := sessionEpoch, owner := point }
  | quiet {after : UdpBridge} : before.Quiet after → before.owner.holder = none → Move before event after
  | opened {id : GenerationId} {rest : List Nat} {packet : UdpPacket} : before.owner.holder = none →
      before.table.freeList = id.slot :: rest → before.table.generations.current id.slot = some id →
      Move before event ({ before with table := { before.table with freeList := rest } }.openCandidate id packet)
  | refused {id : GenerationId} {rest : List Nat} {packet : UdpPacket} : before.owner.holder = none →
      before.table.freeList = id.slot :: rest → before.table.generations.current id.slot = some id →
      Move before event (({ before with table := { before.table with freeList := rest } }.openCandidate id packet).dropCandidate
        before.leaseCount)
  | control {notice : ControlNotice} {rest : List ControlNotice} {point : OwnerPoint} : before.owner = .idle →
      before.controls = notice :: rest → point.holder = before.owner.holder →
      (notice.sessionGeneration = before.table.sessionGeneration → ∀ entry, before.table.occupant notice.id = some entry →
        (before.leases entry.lease).phase ≠ .closed) →
      Move before event { before with controls := rest, owner := point }
  | closed {notice : ControlNotice} {rest : List ControlNotice} {entry : Slot} : before.owner = .idle →
      before.controls = notice :: rest → before.table.occupant notice.id = some entry →
      Move before event ({ before with controls := rest }.remove notice.id .done)
  | removed {pending : Option OwnerResponse} {responses : List OwnerResponse} {id : GenerationId} {next : Next} :
      before.owner.holder = none → before.Drains pending responses →
      Move before event ({ before with pendingResponse := pending, responses := responses }.remove id next)
  | reclaimed {id : GenerationId} {lease : Nat} {next : Next} : before.owner = .reclaiming id lease next →
      Move before event (before.reclaim id lease next)
  | taken {id : GenerationId} {lease : Nat} {commit : CommitRequest} {nowMillis : Int} {admitting : Bool} :
      before.owner.holder = none → (before.leases lease).commit = some commit →
      Move before event { before.setCommit lease none with owner := .validating id lease commit nowMillis admitting }
  | judged {point : OwnerPoint} : point.holder = before.owner.holder → Move before event { before with owner := point }
  | promoted {id : GenerationId} {lease : Nat} {commit : CommitRequest} {nowMillis : Int} {entry : Slot} :
      before.owner = .marking id lease commit nowMillis → before.table.occupant id = some entry → entry.lease = lease →
      Move before event
        { before.setPhase lease .association with
          table := before.table.promote id entry commit.selectedPayloadBound (saturatingAdd nowMillis before.table.idleMillis)
          owner := .replying id lease }
  | committed {id : GenerationId} {lease : Nat} {point : OwnerPoint} : before.owner = .replying id lease →
      before.table.Holds id lease .association → point.holder = none →
      Move before event { before.reply lease (.ok ()) with owner := point }
  | rejected {id : GenerationId} {lease : Nat} {point : OwnerPoint} : before.owner = .rejecting id lease →
      point.holder = none → Move before event { before.reply lease (.error .rejected) with owner := point }
  | responded {pending : Option OwnerResponse} {responses : List OwnerResponse} : before.Drains pending responses →
      Move before event { before with pendingResponse := pending, responses := responses }
  | injected {pending : Option OwnerResponse} {responses : List OwnerResponse} {response : OwnerResponse} {nowMillis : Int}
      {entry : Slot} : event = .processOneResponse nowMillis .injected → before.owner = .idle → before.Drains pending responses →
      before.Injects response nowMillis entry →
      Move before event
        { before with
          pendingResponse := pending
          responses := responses
          injected := before.injected ++ [response]
          table := before.table.refreshDeadline (before.leases response.lease).id entry
            (saturatingAdd nowMillis before.table.idleMillis) }

variable {bridge : UdpBridge} {event : UdpEvent}

theorem handleControl_move (idle : bridge.owner = .idle) {notice : ControlNotice} {rest : List ControlNotice}
    (queue : bridge.controls = notice :: rest) (nowMillis : Int) (admitting : Bool) :
    Move bridge event ({ bridge with controls := rest }.handleControl notice nowMillis admitting) := by
  unfold handleControl
  by_cases foreign : notice.sessionGeneration ≠ bridge.table.sessionGeneration
  · rw [if_pos foreign]
    exact @Move.control bridge event notice rest bridge.owner idle queue rfl fun same => absurd same foreign
  rw [if_neg foreign]
  cases occupied : bridge.table.occupant notice.id with
  | none =>
    simp only
    refine @Move.control bridge event notice rest bridge.owner idle queue rfl fun _ entry found => ?_
    rw [occupied] at found
    cases found
  | some entry =>
    have live : ∀ {phase}, (bridge.leases entry.lease).phase = phase → phase ≠ .closed →
        notice.sessionGeneration = bridge.table.sessionGeneration → ∀ found, bridge.table.occupant notice.id = some found →
        (bridge.leases found.lease).phase ≠ .closed := by
      intro phase isPhase notClosed _ found also
      rw [occupied] at also
      cases also
      rw [isPhase]
      exact notClosed
    simp only
    cases phase : (bridge.leases entry.lease).phase with
    | closed => exact .closed idle queue occupied
    | commitPending => exact .control idle queue (by rw [idle]; rfl) (live phase (by decide))
    | candidate | association => exact @Move.control bridge event notice rest bridge.owner idle queue rfl (live phase (by decide))

theorem inject_move (idle : bridge.owner = .idle) {response : OwnerResponse} {nowMillis : Int}
    (fresh : bridge.isStaleResponse response = false) (live : bridge.isExpiredResponse response nowMillis = false)
    (waited : response ∈ bridge.responses ∨ response ∈ bridge.pendingResponse) {pending : Option OwnerResponse}
    {responses : List OwnerResponse} (drains : bridge.Drains pending responses) (outcome : InjectOutcome) :
    Move bridge (.processOneResponse nowMillis outcome)
      ({ bridge with pendingResponse := pending, responses := responses }.inject response nowMillis outcome) := by
  have kept : Move bridge (.processOneResponse nowMillis outcome)
      { bridge with pendingResponse := pending, responses := responses } := .responded drains
  unfold inject
  cases matched : matchesAssociation { bridge with pendingResponse := pending, responses := responses } response with
  | none => exact kept
  | some entry =>
    simp only
    by_cases long : entry.payloadBound < response.payload.length
    · rw [if_pos long]
      exact kept
    rw [if_neg long]
    by_cases filtered : (bridge.leases response.lease).peerPolicy.allows response.responseSource ≠ some true
    · rw [if_pos filtered]
      exact kept
    rw [if_neg filtered]
    cases outcome with
    | backpressured =>
      refine .responded fun other waits => ?_
      rcases waits with queued | retained
      · exact drains other (.inl queued)
      · cases mem_some.mp retained
        exact waited
    | rejected => exact kept
    | injected =>
      obtain ⟨held, association, _, source, lease⟩ := matchesAssociation_eq_some matched
      have unexpired : nowMillis < entry.deadlineMillis := by
        change bridge.table.slots _ = _ at held
        simp only [isExpiredResponse, held, lease, any_some, beq_self_eq_true, Bool.true_and,
          decide_eq_false_iff_not, Int.not_le] at live
        exact live
      simp only [isStaleResponse, AssociationLease.isStale, Bool.or_eq_false_iff, bne_eq_false_iff_eq] at fresh
      obtain ⟨⟨session, epoch⟩, current⟩ := fresh
      exact .injected rfl idle drains ⟨held, association, lease, source, unexpired, current, session, epoch,
        not_not.mp filtered, Nat.le_of_not_lt long⟩

theorem processOneResponse_move (idle : bridge.owner = .idle) (nowMillis : Int) (outcome : InjectOutcome) :
    Move bridge (.processOneResponse nowMillis outcome) (bridge.processOneResponse nowMillis outcome) := by
  unfold processOneResponse
  cases taken : bridge.takeResponse with
  | none => exact .stay
  | some found =>
    obtain ⟨response, rest⟩ := found
    obtain ⟨pending, responses, waited, drains, rfl⟩ := takeResponse_eq_some taken
    simp only [handleResponse]
    split
    · exact .responded drains
    · rename_i fresh
      split
      · exact .removed (by rw [idle]; rfl) drains
      · rename_i live
        exact inject_move idle (Bool.eq_false_iff.mpr fresh) (Bool.eq_false_iff.mpr live) waited drains outcome

theorem ownerStep_move (sound : bridge.Sound) (environment : OwnerEnvironment) : Move bridge event (bridge.ownerStep environment) := by
  have supported := sound.supported
  have steady : bridge.owner.reclaimed = none → bridge.Steady := sound.steady
  unfold ownerStep
  cases point : bridge.owner with
  | idle => exact .stay
  | expiring nowMillis packet => exact .quiet (expireTurn_sound (steady (by rw [point]; rfl)) point).2 (by rw [point]; rfl)
  | looking packet => exact .quiet (look_sound (steady (by rw [point]; rfl)) packet environment).2 (by rw [point]; rfl)
  | entering packet =>
    rcases enter_cases (steady (by rw [point]; rfl)) packet environment with ⟨_, quiet⟩ | ⟨id, rest, head, current, same | same⟩
    · exact .quiet quiet (by rw [point]; rfl)
    · simp only [same]
      exact .opened (by rw [point]; rfl) head current
    · simp only [same]
      exact .refused (by rw [point]; rfl) head current
  | taking id lease nowMillis admitting =>
    simp only
    split
    · exact .judged (by rw [point]; rfl)
    · rename_i commit stored
      exact .taken (by rw [point]; rfl) stored
  | validating id lease commit nowMillis admitting =>
    simp only
    split
    · exact .judged (by rw [point]; rfl)
    · exact .judged (by rw [point]; rfl)
  | marking id lease commit nowMillis =>
    rw [point] at supported
    obtain ⟨entry, occupied, sameLease, candidate⟩ := supported
    simp only [markLive]
    split
    · rw [@promoteSlot_eq (bridge.setPhase lease .association) id entry (UdpTable.occupant_eq_some.mp occupied).2 candidate]
      exact .promoted point occupied sameLease
    · exact .judged (by rw [point]; rfl)
  | replying id lease =>
    rw [point] at supported
    simp only
    split
    · exact .committed point supported rfl
    · exact .committed point supported rfl
  | rejecting id lease => exact .rejected point rfl
  | removing id next => exact @Move.removed bridge event bridge.pendingResponse bridge.responses id next (by rw [point]; rfl) fun _ waits => waits
  | reclaiming id lease next => exact .reclaimed point
  | invalidating slot newGeneration =>
    rw [point] at supported
    exact .quiet (invalidateTurn_sound (steady (by rw [point]; rfl)) supported).2 (by rw [point]; rfl)

theorem step_move (sound : bridge.Sound) (event : UdpEvent) : Move bridge event (bridge.step event) := by
  cases event with
  | owner environment => exact ownerStep_move sound environment
  | handle lease step =>
    simp only [UdpBridge.step]
    split
    · rename_i counted
      exact .handle counted (handleStep_move bridge lease step)
    · exact .stay
  | enqueue place =>
    simp only [UdpBridge.step, enqueue]
    split
    · exact .stay
    · rename_i response found
      refine .enqueued fun other waits => ?_
      rcases waits with flying | queued
      · exact .inl (List.mem_of_mem_eraseIdx flying)
      · rcases List.mem_append.mp queued with old | isNew
        · exact .inr old
        · cases List.mem_singleton.mp isNew
          exact .inl (List.mem_of_getElem? found)
  | expire nowMillis | admitPacket packet =>
    simp only [UdpBridge.step]
    split
    · rename_i idle
      exact .judged (by rw [idle]; rfl)
    · exact .stay
  | processOneControl nowMillis admitting =>
    simp only [UdpBridge.step]
    split
    · rename_i idle
      unfold processOneControl
      split
      · exact .stay
      · rename_i notice rest queue
        exact handleControl_move idle queue nowMillis admitting
    · exact .stay
  | processOneResponse nowMillis outcome =>
    simp only [UdpBridge.step]
    split
    · rename_i idle
      exact processOneResponse_move idle nowMillis outcome
    · exact .stay
  | fenceSession newGeneration =>
    simp only [UdpBridge.step]
    split
    · exact @Move.fenced bridge _ newGeneration bridge.owner rfl
    · exact .stay
  | invalidateSession newGeneration =>
    simp only [UdpBridge.step]
    split
    · rename_i idle
      exact .fenced (by rw [idle]; rfl)
    · exact .stay

theorem remove_capacity (bridge : UdpBridge) (id : GenerationId) (next : Next) :
    (bridge.remove id next).table.generations.capacity = bridge.table.generations.capacity := by
  unfold remove
  split
  · exact (resume_quiet bridge next).capacity
  · rfl

theorem Move.capacity (sound : before.Sound) (move : Move before event after) :
    after.table.generations.capacity = before.table.generations.capacity := by
  cases move with
  | stay | enqueued | fenced | control | taken | judged | committed | rejected | responded => rfl
  | handle _ move => rw [move.sameOwner.table]
  | quiet quiet _ => exact quiet.capacity
  | opened | refused => exact congrArg GenerationTable.capacity (insertCandidate_storage _ _ _ _ _ _).2.1
  | closed | removed => exact remove_capacity ..
  | @reclaimed id lease next point =>
    have supported := sound.supported
    rw [point] at supported
    obtain ⟨fits, generations⟩ := (UdpTable.reclaim_storage supported.1).2.2.2.2
    have size : (before.table.reclaim id).generations.capacity = before.table.generations.capacity := by
      rw [generations]
      rfl
    exact (resume_quiet { before.refuse lease with table := before.table.reclaim id } next).capacity.trans size
  | promoted => exact congrArg GenerationTable.capacity (promote_storage _ _ _ _ _).2.1
  | injected => exact congrArg GenerationTable.capacity (refreshDeadline_storage _ _ _ _).1

variable {bridge : UdpBridge}

theorem ownerStep_sound (sound : bridge.Sound) (environment : OwnerEnvironment) : (bridge.ownerStep environment).Sound := by
  have supported := sound.supported
  have steady : bridge.owner.reclaimed = none → bridge.Steady := sound.steady
  unfold ownerStep
  cases point : bridge.owner with
  | idle => exact sound
  | expiring nowMillis packet => exact (expireTurn_sound (steady (by rw [point]; rfl)) point).1
  | looking packet => exact (look_sound (steady (by rw [point]; rfl)) packet environment).1
  | entering packet =>
    rw [point] at supported
    exact enter_sound (steady (by rw [point]; rfl)) supported environment
  | taking id lease nowMillis admitting =>
    simp only
    split
    · exact (steady (by rw [point]; rfl)).move rfl trivial
    · have taken : (bridge.setCommit lease none).Steady :=
        (steady (by rw [point]; rfl)).frame rfl rfl (setCommit_identities bridge lease none)
      exact taken.move rfl trivial
  | validating id lease commit nowMillis admitting =>
    simp only
    split
    · rename_i valid
      exact (steady (by rw [point]; rfl)).move rfl (validCommit_holds valid)
    · exact (steady (by rw [point]; rfl)).move rfl trivial
  | marking id lease commit nowMillis =>
    rw [point] at supported
    exact markLive_sound (steady (by rw [point]; rfl)) supported commit nowMillis
  | replying id lease =>
    have replied : (bridge.reply lease (.ok ())).Steady :=
      (steady (by rw [point]; rfl)).frame rfl rfl fun _ => ⟨rfl, rfl⟩
    simp only
    split
    · exact replied.move rfl trivial
    · exact replied.move rfl (removable_of_ready fun _ => trivial)
  | rejecting id lease =>
    have replied : (bridge.reply lease (.error .rejected)).Steady :=
      (steady (by rw [point]; rfl)).frame rfl rfl fun _ => ⟨rfl, rfl⟩
    exact replied.move rfl (removable_of_ready fun _ => trivial)
  | removing id next =>
    rw [point] at supported
    exact remove_sound (steady (by rw [point]; rfl)) supported
  | reclaiming id lease next => exact reclaim_sound sound point
  | invalidating slot newGeneration =>
    rw [point] at supported
    exact (invalidateTurn_sound (steady (by rw [point]; rfl)) supported).1

theorem step_sound (sound : bridge.Sound) (event : UdpEvent) : (bridge.step event).Sound := by
  have steady : bridge.owner = .idle → bridge.Steady := fun idle => sound.steady (by rw [idle]; rfl)
  cases event with
  | owner environment => exact ownerStep_sound sound environment
  | handle lease step =>
    simp only [UdpBridge.step]
    split
    · exact sound.sameOwner (handleStep_move bridge lease step).sameOwner
    · exact sound
  | enqueue place =>
    simp only [UdpBridge.step, enqueue]
    split
    · exact sound
    · exact sound.frame rfl rfl rfl fun _ => ⟨rfl, rfl⟩
  | expire nowMillis | admitPacket packet =>
    simp only [UdpBridge.step]
    split
    · rename_i idle
      exact (steady idle).move rfl trivial
    · exact sound
  | processOneControl nowMillis admitting =>
    simp only [UdpBridge.step]
    split
    · rename_i idle
      exact processOneControl_sound sound idle nowMillis admitting
    · exact sound
  | processOneResponse nowMillis outcome =>
    simp only [UdpBridge.step]
    split
    · rename_i idle
      exact processOneResponse_sound sound idle nowMillis outcome
    · exact sound
  | fenceSession newGeneration =>
    simp only [UdpBridge.step]
    split
    · exact sound.frame rfl rfl rfl fun _ => ⟨rfl, rfl⟩
    · exact sound
  | invalidateSession newGeneration =>
    simp only [UdpBridge.step]
    split
    · rename_i idle
      have fenced : { bridge with sessionEpoch := newGeneration }.Steady := (steady idle).frame rfl rfl fun _ => ⟨rfl, rfl⟩
      exact fenced.move rfl fun other below => absurd below (Nat.not_lt_zero other)
    · exact sound

theorem run_reaches (capacity : Nat) (idleMillis : Int) (filtering : UdpFiltering) (sessionGeneration : Nat)
    (events : List UdpEvent) :
    ((withOptions capacity idleMillis filtering sessionGeneration).run events).Sound ∧
      ((withOptions capacity idleMillis filtering sessionGeneration).run events).table.generations.capacity = capacity := by
  suffices kept : ∀ bridge : UdpBridge, bridge.Sound ∧ bridge.table.generations.capacity = capacity →
      (bridge.run events).Sound ∧ (bridge.run events).table.generations.capacity = capacity from
    kept _ ⟨withOptions_sound capacity idleMillis filtering sessionGeneration, rfl⟩
  unfold run
  induction events with
  | nil => exact fun _ held => held
  | cons event rest ih =>
    intro bridge ⟨sound, size⟩
    exact ih _ ⟨step_sound sound event, ((step_move sound event).capacity sound).trans size⟩

/-- After any interleaving of the owner with the handles, between two calls the index, the free list, the counts and the
leases are those of the slots, and no branch that loses a slot was ever taken. -/
theorem table_represented (capacity : Nat) (idleMillis : Int) (filtering : UdpFiltering) (sessionGeneration : Nat)
    (events : List UdpEvent) :
    let bridge := (withOptions capacity idleMillis filtering sessionGeneration).run events
    (bridge.owner = .idle →
      (∀ source slot, bridge.table.index.lookup source = some slot ↔
        ∃ entry, bridge.table.slots slot = some entry ∧ entry.source = source) ∧
      bridge.table.freeList.Nodup ∧
      (∀ slot, slot ∈ bridge.table.freeList ↔
        bridge.table.slots slot = none ∧ slot < capacity ∧ bridge.table.generations.slots slot ≠ u32Max) ∧
      bridge.table.candidateCount = bridge.table.countKind .candidate ∧
      bridge.table.associationCount = bridge.table.countKind .association ∧
      (∀ slot entry, bridge.table.slots slot = some entry →
        bridge.table.generations.current slot = some (bridge.leases entry.lease).id)) ∧
    bridge.table.fallbacks = 0 := by
  intro bridge
  obtain ⟨sound, size⟩ : bridge.Sound ∧ bridge.table.generations.capacity = capacity :=
    run_reaches capacity idleMillis filtering sessionGeneration events
  refine ⟨fun idle => ?_, sound.complete⟩
  obtain ⟨indexes, current, freeNodup, free, candidates, associations⟩ := (sound.steady (by rw [idle]; rfl)).represents
  refine ⟨indexes, freeNodup, fun slot => ?_, candidates, associations, fun slot entry held => ?_⟩
  · rw [free slot, GenerationTable.current_isSome, size]
    simp
  · obtain ⟨id, isCurrent⟩ := isSome_iff_exists.mp (current slot entry held)
    rw [isCurrent, (sound.leased slot entry held).2.1, (GenerationTable.current_eq_some.mp isCurrent).2.2]

def samplePacket : UdpPacket where
  source := ⟨.v4 (.new 10 0 0 2), 4000⟩
  target := ⟨.v4 (.new 93 184 216 34), 53⟩
  payload := [1, 2]
  responsePayloadBound := 4
  ingressPayloadBound := 4
  nowMillis := 0
  admitting := true

def readyEnvironment : OwnerEnvironment := ⟨true, true, true, true⟩

/-- One packet is admitted, its candidate commits, and the association answers. -/
def sampleEvents : List UdpEvent :=
  [.admitPacket samplePacket, .owner readyEnvironment, .owner readyEnvironment, .owner readyEnvironment,
    .handle 0 (.request 3), .handle 0 .store, .handle 0 .exchange, .handle 0 .notify, .processOneControl 1 true,
    .owner readyEnvironment, .owner readyEnvironment, .owner readyEnvironment, .owner readyEnvironment,
    .handle 0 .receive, .handle 0 (.send samplePacket.target [7, 8]), .enqueue 0]

theorem sampleEvents_represented :
    let bridge := (withOptions 2 1000 .endpointIndependent 0).run sampleEvents
    bridge.owner = .idle ∧ bridge.table.associationCount = 1 ∧
      bridge.table.associationCount = bridge.table.countKind .association :=
  ⟨rfl, rfl, ((table_represented 2 1000 .endpointIndependent 0 sampleEvents).1 rfl).2.2.2.2.1⟩

end Ferrum.Tun.UdpBridge
