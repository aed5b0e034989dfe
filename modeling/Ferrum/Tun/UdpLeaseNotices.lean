import Ferrum.Tun.UdpTableRun

namespace Ferrum.Tun

open Function

def HandlePoint.unasked : HandlePoint → Bool
  | .holding | .locking _ => true
  | _ => false

namespace UdpBridge

def repliesTo (bridge : UdpBridge) (lease : Nat) : Nat := bridge.replies.countP (·.1 == lease)

/-- The request of a lease is still to be made, or it waits for the owner. -/
def unanswered (bridge : UdpBridge) (lease : Nat) : Nat :=
  (bridge.leases lease).commit.isSome.toNat + (bridge.handles lease).point.unasked.toNat

/-- Where the one request of a lease can be: not made, stored, with the owner, or answered. -/
def requests (bridge : UdpBridge) (lease : Nat) : Nat :=
  bridge.repliesTo lease + (bridge.owner.holder == some lease).toNat + bridge.unanswered lease

/-- A request is in one place at most, and a lease that does not exist yet has none. -/
def Answered (bridge : UdpBridge) : Prop :=
  ∀ lease, bridge.requests lease ≤ (decide (lease < bridge.leaseCount)).toNat

theorem withOptions_answered (capacity : Nat) (idleMillis : Int) (filtering : UdpFiltering) (sessionGeneration : Nat) :
    (withOptions capacity idleMillis filtering sessionGeneration).Answered := by
  intro lease
  simp [withOptions, requests, unanswered, repliesTo, OwnerPoint.holder, HandlePoint.unasked]

variable {lease : Nat} {before after bridge : UdpBridge}

theorem HandleMove.unanswered_le (move : HandleMove lease before after) (other : Nat) :
    after.unanswered other ≤ before.unanswered other := by
  by_cases same : other = lease
  · subst same
    cases move with
    | stay | sent | notified | notifiedClose => simp_all [unanswered, setPoint, notify, HandlePoint.unasked]
    | stored point free => simp [unanswered, setPoint, setCommit, point, free, HandlePoint.unasked]
    | withdrawn point => simp [unanswered, setPoint, setCommit, HandlePoint.unasked]
    | policy => simp [unanswered, setPolicy]
    | locked point => simp [unanswered, setPoint, point, HandlePoint.unasked]
    | pending point | closed point => simp [unanswered, setPoint, setPhase, HandlePoint.unasked]
    | late point | dropped | closedBefore point => simp [unanswered, setPoint, HandlePoint.unasked]
    | associated point => simp [unanswered, associate, HandlePoint.unasked]
  · apply Nat.le_of_eq
    cases move with
    | stay | sent => rfl
    | stored | withdrawn => simp [unanswered, setPoint, setCommit, same]
    | policy => simp [unanswered, setPolicy, same]
    | locked | late | dropped | closedBefore => simp [unanswered, setPoint, same]
    | pending | closed => simp [unanswered, setPoint, setPhase, same]
    | notified | notifiedClose => simp [unanswered, setPoint, notify, same]
    | associated => simp [unanswered, associate, same]

theorem requests_le (replies : after.replies = before.replies)
    (holder : after.owner.holder = none ∨ after.owner.holder = before.owner.holder)
    (unanswered : after.unanswered lease ≤ before.unanswered lease) : after.requests lease ≤ before.requests lease := by
  have held : (after.owner.holder == some lease).toNat ≤ (before.owner.holder == some lease).toNat := by
    rcases holder with released | kept
    · simp [released]
    · rw [kept]
  unfold requests repliesTo
  rw [replies]
  omega

theorem remove_holder (bridge : UdpBridge) (id : GenerationId) (next : Next) : (bridge.remove id next).owner.holder = none := by
  unfold remove
  split
  · exact (resume_quiet bridge next).holder
  · rfl

theorem remove_leaseCount (bridge : UdpBridge) (id : GenerationId) (next : Next) :
    (bridge.remove id next).leaseCount = bridge.leaseCount := by
  unfold remove
  split
  · exact (resume_quiet bridge next).leaseCount
  · rfl

theorem remove_requests_le (bridge : UdpBridge) (id : GenerationId) (next : Next) (lease : Nat) :
    (bridge.remove id next).requests lease ≤ bridge.requests lease := by
  refine requests_le ?_ (.inl (remove_holder bridge id next)) ?_
  · unfold remove
    split
    · exact (resume_quiet bridge next).replies
    · rfl
  · unfold remove
    split
    · exact Nat.le_of_eq (by rw [unanswered, (resume_quiet bridge next).leases, (resume_quiet bridge next).handles]; rfl)
    · rename_i entry _
      by_cases same : lease = entry.lease
      · simp [unanswered, setPhase, same]
      · simp [unanswered, setPhase, same]

theorem refuse_requests_le (bridge : UdpBridge) (lease other : Nat) :
    (bridge.refuse lease).requests other ≤ bridge.requests other := by
  unfold refuse
  split
  · rename_i waits
    by_cases same : other = lease
    · subst same
      simp only [requests, unanswered, repliesTo, reply, setCommit, List.countP_append, List.countP_singleton,
        beq_self_eq_true, if_true, update_self, Option.isSome_none, Bool.toNat_false, waits, Bool.toNat_true]
      omega
    · have different : (lease == other) = false := by simp [Ne.symm same]
      simp [requests, unanswered, repliesTo, reply, setCommit, same, different]
  · exact Nat.le_refl _

theorem Answered.mono (answered : before.Answered) (count : after.leaseCount = before.leaseCount)
    (le : ∀ lease, after.requests lease ≤ before.requests lease) : after.Answered := by
  intro lease
  rw [count]
  exact Nat.le_trans (le lease) (answered lease)

theorem reply_requests_le (holds : bridge.owner.holder = some lease)
    (result : Except UdpCommitError Unit) {point : OwnerPoint} (released : point.holder = none) (other : Nat) :
    { bridge.reply lease result with owner := point }.requests other ≤ bridge.requests other := by
  by_cases same : other = lease
  · subst same
    simp only [requests, unanswered, repliesTo, reply, List.countP_append, List.countP_singleton, beq_self_eq_true,
      if_true, released, holds, Bool.toNat_true]
    simp
  · have different : (lease == other) = false := by simp [Ne.symm same]
    simp [requests, unanswered, repliesTo, reply, released, holds, different]

theorem openCandidate_answered (answered : bridge.Answered) (id : GenerationId) (packet : UdpPacket)
    {table : UdpTable} : ({ bridge with table := table }.openCandidate id packet).Answered := by
  intro lease
  have before := answered lease
  by_cases fresh : lease = bridge.leaseCount
  · subst fresh
    simp only [requests, unanswered, repliesTo, Nat.lt_irrefl, decide_false, Bool.toNat_false, Nat.le_zero] at before
    have replied : bridge.repliesTo bridge.leaseCount = 0 := by
      unfold repliesTo
      omega
    unfold repliesTo at replied
    simp [openCandidate, requests, unanswered, repliesTo, OwnerPoint.holder, HandlePoint.unasked, replied]
  · have counted : lease < bridge.leaseCount + 1 ↔ lease < bridge.leaseCount := by omega
    simp only [requests, unanswered, repliesTo] at before
    simp only [openCandidate, requests, unanswered, repliesTo, update_of_ne fresh, OwnerPoint.holder, counted]
    simp only [Bool.toNat_false, show ((none : Option Nat) == some lease) = false from rfl]
    omega

theorem dropCandidate_answered (answered : bridge.Answered) (lease : Nat) :
    (bridge.dropCandidate lease).Answered := by
  refine answered.mono rfl fun other => requests_le rfl (.inl rfl) ?_
  by_cases same : other = lease
  · simp [unanswered, dropCandidate, notify, setPoint, setPhase, same, HandlePoint.unasked]
  · simp [unanswered, dropCandidate, notify, setPoint, setPhase, same]

theorem Move.answered {event : UdpEvent} (answered : before.Answered) (move : Move before event after) : after.Answered := by
  cases move with
  | stay | enqueued | responded | injected => exact answered
  | handle counted move =>
    have same := move.sameOwner
    exact answered.mono same.leaseCount fun other =>
      requests_le same.replies (.inr (by rw [same.owner])) (move.unanswered_le other)
  | fenced holder | judged holder | control _ _ holder _ =>
      exact answered.mono rfl fun other => requests_le rfl (.inr holder) (Nat.le_refl _)
  | quiet quiet _ =>
    refine answered.mono quiet.leaseCount fun other => requests_le quiet.replies (.inl quiet.holder) ?_
    exact Nat.le_of_eq (by rw [unanswered, quiet.leases, quiet.handles]; rfl)
  | @opened id rest packet released head current => exact openCandidate_answered answered id packet
  | @refused id rest packet released head current =>
    exact dropCandidate_answered (openCandidate_answered answered id packet) _
  | closed idle queue occupied =>
    exact answered.mono (remove_leaseCount ..) (remove_requests_le _ _ _)
  | removed released => exact answered.mono (remove_leaseCount ..) (remove_requests_le _ _ _)
  | @reclaimed id lease next point =>
    have resumed := resume_quiet { before.refuse lease with table := before.table.reclaim id } next
    refine answered.mono (resumed.leaseCount.trans (refuse_leaseCount before lease)) fun other => ?_
    refine Nat.le_trans ?_ (refuse_requests_le before lease other)
    refine requests_le resumed.replies (.inl resumed.holder) (Nat.le_of_eq ?_)
    unfold unanswered reclaim
    rw [resumed.leases, resumed.handles]
  | @taken id lease commit nowMillis admitting released stored =>
    refine answered.mono rfl fun other => ?_
    by_cases same : other = lease
    · subst same
      simp only [requests, unanswered, repliesTo, setCommit, OwnerPoint.holder, stored, update_self]
      simp
      omega
    · have different : (some lease == some other) = false := by simp [Ne.symm same]
      simp only [requests, unanswered, repliesTo, setCommit, OwnerPoint.holder, different, update_of_ne same]
      simp
  | @promoted id lease commit nowMillis entry point occupied sameLease =>
    refine answered.mono rfl fun other => requests_le rfl (.inr (by rw [point]; rfl)) (Nat.le_of_eq ?_)
    by_cases same : other = lease
    · simp [unanswered, setPhase, same]
    · simp [unanswered, setPhase, same]
  | committed point holds released | rejected point released =>
    exact answered.mono rfl (reply_requests_le (by rw [point]; rfl) _ released)

end UdpBridge

end Ferrum.Tun

namespace Ferrum.Tun.UdpBridge

open Function

/-- If the lease is closed and its handle has finished closing it, a notice for it is under way. -/
def Noticed (bridge : UdpBridge) (lease : Nat) : Prop :=
  (bridge.leases lease).phase = .closed → (bridge.handles lease).point ≠ .closing →
    ∃ notice ∈ bridge.controls, notice.id = (bridge.leases lease).id ∧
      notice.sessionGeneration = (bridge.leases lease).sessionGeneration

/-- No slot is left to a closed lease that the owner will not hear of. -/
def Reclaimable (bridge : UdpBridge) : Prop :=
  ∀ slot entry, bridge.table.slots slot = some entry → bridge.Noticed entry.lease

variable {bridge before after : UdpBridge} {event : UdpEvent} {lease : Nat}

theorem Noticed.mono (noticed : before.Noticed lease)
    (phase : (after.leases lease).phase = .closed → (before.leases lease).phase = .closed)
    (point : (after.handles lease).point ≠ .closing → (before.handles lease).point ≠ .closing)
    (controls : ∀ notice ∈ before.controls, notice ∈ after.controls) (same : before.SameIdentities after) :
    after.Noticed lease := by
  intro closed finished
  obtain ⟨notice, queued, id, session⟩ := noticed (phase closed) (point finished)
  rw [(same lease).1, (same lease).2]
  exact ⟨notice, controls notice queued, id, session⟩

theorem notice_queued (bridge : UdpBridge) (lease : Nat) (kind : ControlNoticeKind) :
    ∃ notice ∈ (bridge.notify lease kind).controls, notice.id = (bridge.leases lease).id ∧
      notice.sessionGeneration = (bridge.leases lease).sessionGeneration :=
  ⟨(bridge.leases lease).notice kind, by simp [notify], rfl, rfl⟩

variable {other : Nat} {notice : ControlNotice} {rest : List ControlNotice}

theorem HandleMove.noticed (move : HandleMove lease before after) (noticed : before.Noticed other) :
    after.Noticed other := by
  have identities := move.sameOwner.identities
  by_cases same : other = lease
  · subst same
    cases move with
    | stay | sent => exact noticed
    | policy => exact noticed.mono (by simp [setPolicy]) id (fun _ => id) identities
    | locked point | late point | closedBefore point _ =>
        exact noticed.mono (by simp [setPoint]) (by simp [point]) (fun _ => id) identities
    | stored point _ | withdrawn point =>
        exact noticed.mono (by simp [setPoint, setCommit]) (by simp [point]) (fun _ => id) identities
    | associated point => exact noticed.mono (by simp [associate]) (by simp [point]) (fun _ => id) identities
    | dropped notClosing => exact noticed.mono (by simp [setPoint]) (fun _ => notClosing) (fun _ => id) identities
    | notified point => exact noticed.mono (by simp [setPoint, notify]) (by simp [point]) (by simp_all [setPoint, notify]) identities
    | pending point candidate =>
      intro closed
      simp [setPoint, setPhase] at closed
    | closed point =>
      intro _ finished
      simp [setPoint, setPhase] at finished
    | notifiedClose point => exact fun _ _ => notice_queued before other .close
  · refine noticed.mono ?_ ?_ ?_ identities
    · cases move <;> simp [setPoint, setPhase, setCommit, setPolicy, notify, associate, same]
    · cases move <;> simp [setPoint, setPhase, setCommit, setPolicy, notify, associate, same]
    · cases move <;> simp +contextual [setPoint, setPhase, setCommit, setPolicy, notify, associate]

theorem Leased.lease_injective (leased : bridge.Leased) {slot : Nat} {entry another : Slot}
    (held : bridge.table.slots slot = some entry) (also : bridge.table.slots other = some another)
    (same : entry.lease = another.lease) : slot = other := by
  have first := (leased slot entry held).2.1
  have second := (leased other another also).2.1
  rw [same, second] at first
  exact (congrArg GenerationId.slot first).symm

theorem remove_other (leased : bridge.Leased) {id : GenerationId} {next : Next} {slot : Nat} {entry : Slot}
    (held : (bridge.remove id next).table.slots slot = some entry) :
    bridge.table.slots slot = some entry ∧ (bridge.table.occupant id ≠ none → slot ≠ id.slot) ∧
      (bridge.remove id next).leases entry.lease = bridge.leases entry.lease ∧
      (bridge.remove id next).handles = bridge.handles ∧ (bridge.remove id next).controls = bridge.controls := by
  unfold remove at held ⊢
  cases occupied : bridge.table.occupant id with
  | none =>
    have resumed := resume_quiet bridge next
    simp only [occupied] at held ⊢
    have kept : (bridge.resume next).table.slots = bridge.table.slots := by
      cases next <;> rfl
    rw [kept] at held
    exact ⟨held, fun occupied => absurd rfl occupied, by rw [resumed.leases], resumed.handles, resumed.controls⟩
  | some removed =>
    simp only [occupied] at held ⊢
    obtain ⟨different, old⟩ := update_none_eq_some.mp held
    have inside := (UdpTable.occupant_eq_some.mp occupied).2
    refine ⟨old, fun _ => different, ?_, rfl, rfl⟩
    exact update_of_ne (fun same => different (leased.lease_injective old inside same)) _ _

theorem remove_reclaimable (leased : bridge.Leased) (reclaimable : bridge.Reclaimable) (id : GenerationId) (next : Next) :
    (bridge.remove id next).Reclaimable := by
  intro slot entry held
  obtain ⟨old, _, leases, handles, controls⟩ := remove_other leased held
  have noticed := reclaimable slot entry old
  unfold Noticed at noticed ⊢
  rw [leases, handles, controls]
  exact noticed

theorem closed_reclaimable (sound : before.Sound) (reclaimable : before.Reclaimable)
    (queue : before.controls = notice :: rest) {occupant : Slot}
    (occupied : before.table.occupant notice.id = some occupant) :
    ({ before with controls := rest }.remove notice.id .done).Reclaimable := by
  intro slot entry held
  obtain ⟨old, different, leases, handles, controls⟩ := @remove_other { before with controls := rest } sound.leased _ _ _ _ held
  unfold Noticed
  rw [leases, handles, controls]
  intro closed finished
  obtain ⟨found, queued, id, session⟩ := reclaimable slot entry old closed finished
  rw [queue] at queued
  rcases List.mem_cons.mp queued with rfl | later
  · refine absurd ?_ (different (by rw [UdpTable.occupant] at occupied ⊢; simp [occupied]))
    rw [id, (sound.leased slot entry old).2.1]
  · exact ⟨found, later, id, session⟩

theorem control_reclaimable (sound : before.Sound) (reclaimable : before.Reclaimable) (queue : before.controls = notice :: rest)
    (live : notice.sessionGeneration = before.table.sessionGeneration → ∀ entry, before.table.occupant notice.id = some entry →
      (before.leases entry.lease).phase ≠ .closed) (point : OwnerPoint) :
    { before with controls := rest, owner := point }.Reclaimable := by
  intro slot entry held closed finished
  obtain ⟨found, queued, id, session⟩ := reclaimable slot entry held closed finished
  rw [queue] at queued
  rcases List.mem_cons.mp queued with rfl | later
  · exfalso
    obtain ⟨_, identity, sameSession⟩ := sound.leased slot entry held
    obtain ⟨current, isCurrent⟩ := Option.isSome_iff_exists.mp (sound.represents.current slot entry held)
    have named : found.id = current := by
      rw [id, identity, (GenerationTable.current_eq_some.mp isCurrent).2.2]
    have place : current.slot = slot := by
      rw [(GenerationTable.current_eq_some.mp isCurrent).2.2]
    refine live (session.trans sameSession) entry ?_ closed
    rw [named]
    exact UdpTable.occupant_eq_some.mpr (place ▸ ⟨place ▸ isCurrent, held⟩)
  · exact ⟨found, later, id, session⟩

theorem setCommit_phase (bridge : UdpBridge) (lease other : Nat) (commit : Option CommitRequest) :
    ((bridge.setCommit lease commit).leases other).phase = (bridge.leases other).phase := by
  by_cases same : other = lease
  · simp [setCommit, same]
  · simp [setCommit, same]

theorem refuse_noticed (bridge : UdpBridge) (lease other : Nat) (noticed : bridge.Noticed other) :
    (bridge.refuse lease).Noticed other := by
  unfold refuse
  split
  · refine noticed.mono ?_ (fun finished => finished) (fun _ queued => queued) (setCommit_identities bridge lease none)
    intro closed
    exact (setCommit_phase bridge lease other none).symm.trans closed
  · exact noticed

theorem Reclaimable.keeps (reclaimable : before.Reclaimable) (keeps : before.table.Keeps after.table)
    (noticed : ∀ lease, before.Noticed lease → after.Noticed lease) : after.Reclaimable := by
  intro slot entry held
  obtain ⟨old, inside, sameLease, _⟩ := keeps slot entry held
  exact noticed entry.lease (sameLease ▸ reclaimable slot old inside)

theorem openCandidate_reclaimable (leased : before.Leased) (reclaimable : before.Reclaimable) (id : GenerationId)
    (packet : UdpPacket) (rest : List Nat) :
    ({ before with table := { before.table with freeList := rest } }.openCandidate id packet).Reclaimable := by
  intro slot entry held
  simp only [openCandidate, (insertCandidate_storage _ _ _ _ _ _).1] at held
  rcases update_eq_some.mp held with ⟨_, isNew⟩ | ⟨_, old⟩
  · cases isNew
    intro closed
    simp [openCandidate] at closed
  · have different : entry.lease ≠ before.leaseCount := Nat.ne_of_lt (leased slot entry old).1
    have noticed := reclaimable slot entry old
    unfold Noticed at noticed ⊢
    simp only [openCandidate, update_of_ne different]
    exact noticed

theorem dropCandidate_reclaimable (reclaimable : bridge.Reclaimable) (lease : Nat) : (bridge.dropCandidate lease).Reclaimable := by
  intro slot entry held
  by_cases same : entry.lease = lease
  · subst same
    intro _ _
    exact notice_queued ((bridge.setPhase entry.lease .closed).setPoint entry.lease .gone) entry.lease .close
  · refine (reclaimable slot entry held).mono ?_ ?_ ?_ ?_
    · simp [dropCandidate, notify, setPoint, setPhase, same]
    · simp [dropCandidate, notify, setPoint, setPhase, same]
    · simp +contextual [dropCandidate, notify, setPoint, setPhase]
    · exact setPhase_identities bridge lease .closed

theorem Move.reclaimable (sound : before.Sound) (reclaimable : before.Reclaimable) (move : Move before event after) :
    after.Reclaimable := by
  cases move with
  | stay | enqueued | responded | fenced | judged | committed | rejected => exact reclaimable
  | handle counted move =>
    exact reclaimable.keeps (move.sameOwner.table ▸ UdpTable.Keeps.refl before.table) fun _ => move.noticed
  | quiet quiet _ =>
    refine reclaimable.keeps quiet.keeps fun lease noticed => ?_
    unfold Noticed at noticed ⊢
    rw [quiet.leases, quiet.handles, quiet.controls]
    exact noticed
  | @opened id rest packet _ _ _ => exact openCandidate_reclaimable sound.leased reclaimable id packet rest
  | @refused id rest packet _ _ _ =>
    exact dropCandidate_reclaimable (openCandidate_reclaimable sound.leased reclaimable id packet rest) before.leaseCount
  | @control notice rest point idle queue holder live => exact control_reclaimable sound reclaimable queue live point
  | closed idle queue occupied => exact closed_reclaimable sound reclaimable queue occupied
  | @removed pending responses id next _ _ =>
    exact @remove_reclaimable { before with pendingResponse := pending, responses := responses } sound.leased reclaimable id next
  | @reclaimed id lease next point =>
    have resumed := resume_quiet { before.refuse lease with table := before.table.reclaim id } next
    have supported := sound.supported
    rw [point] at supported
    refine reclaimable.keeps ((UdpTable.reclaim_keeps supported.2.1 supported.1).trans resumed.keeps) fun other noticed => ?_
    have refused := refuse_noticed before lease other noticed
    unfold Noticed at refused ⊢
    unfold reclaim
    rw [resumed.leases, resumed.handles, resumed.controls]
    exact refused
  | @taken id lease commit nowMillis admitting released stored =>
    refine reclaimable.keeps (UdpTable.Keeps.refl before.table) fun other noticed => ?_
    refine noticed.mono ?_ (fun finished => finished) (fun _ queued => queued) (setCommit_identities before lease none)
    intro closed
    exact (setCommit_phase before lease other none).symm.trans closed
  | @promoted id lease commit nowMillis entry point occupied sameLease =>
    have keeps := UdpTable.promote_keeps (UdpTable.occupant_eq_some.mp occupied).2 commit.selectedPayloadBound
      (saturatingAdd nowMillis before.table.idleMillis)
    refine reclaimable.keeps keeps fun other noticed => ?_
    by_cases same : other = lease
    · intro closed
      simp [setPhase, same] at closed
    · refine noticed.mono ?_ (fun finished => finished) (fun _ queued => queued) (setPhase_identities before lease .association)
      simp [setPhase, same]
  | @injected pending responses response nowMillis entry _ _ _ injects =>
    exact reclaimable.keeps (UdpTable.refreshDeadline_keeps injects.held _) fun _ noticed => noticed

theorem Move.replies (move : Move before event after) :
    after.replies = before.replies ∨ ∃ lease result, after.replies = before.replies ++ [(lease, result)] ∧
      (result = .ok () → ∃ slot entry, after.table.slots slot = some entry ∧ entry.kind = .association ∧ entry.lease = lease) := by
  cases move with
  | stay | enqueued | fenced | control | taken | judged | promoted | responded | injected | opened | refused => exact .inl rfl
  | handle _ move => exact .inl move.sameOwner.replies
  | quiet quiet _ => exact .inl quiet.replies
  | closed | removed =>
    left
    unfold remove
    split
    · exact (resume_quiet _ _).replies
    · rfl
  | @reclaimed id lease next point =>
    have resumed := (resume_quiet { before.refuse lease with table := before.table.reclaim id } next).replies
    unfold reclaim
    rw [resumed]
    unfold refuse
    split
    · exact .inr ⟨lease, .error .rejected, rfl, fun ok => by cases ok⟩
    · exact .inl rfl
  | @committed id lease point owner holds released =>
    obtain ⟨entry, occupied, sameLease, association⟩ := holds
    exact .inr ⟨lease, .ok (), rfl, fun _ => ⟨id.slot, entry, (UdpTable.occupant_eq_some.mp occupied).2, association, sameLease⟩⟩
  | @rejected id lease point owner released => exact .inr ⟨lease, .error .rejected, rfl, fun ok => by cases ok⟩

theorem run_protocol {bridge : UdpBridge} (sound : bridge.Sound) (answered : bridge.Answered) (reclaimable : bridge.Reclaimable)
    (events : List UdpEvent) : (bridge.run events).Sound ∧ (bridge.run events).Answered ∧ (bridge.run events).Reclaimable := by
  unfold run
  induction events generalizing bridge with
  | nil => exact ⟨sound, answered, reclaimable⟩
  | cons event rest ih =>
    have move := step_move sound event
    exact ih (step_sound sound event) (move.answered answered) (move.reclaimable sound reclaimable)

/-- After any interleaving of the owner with the handles a request is answered once at most, with success only for the
association of its lease, and a slot whose lease is closed for good has a notice in the queue. -/
theorem lease_protocol (capacity : Nat) (idleMillis : Int) (filtering : UdpFiltering) (sessionGeneration : Nat)
    (events : List UdpEvent) :
    let bridge := (withOptions capacity idleMillis filtering sessionGeneration).run events
    (∀ lease, bridge.repliesTo lease ≤ 1) ∧
    (∀ event, (bridge.step event).replies = bridge.replies ∨
      ∃ lease result, (bridge.step event).replies = bridge.replies ++ [(lease, result)] ∧
        (result = .ok () → ∃ slot entry, (bridge.step event).table.slots slot = some entry ∧ entry.kind = .association ∧
          entry.lease = lease)) ∧
    (∀ slot entry, bridge.table.slots slot = some entry → (bridge.leases entry.lease).phase = .closed →
      (bridge.handles entry.lease).point ≠ .closing →
      ∃ notice ∈ bridge.controls, bridge.table.generations.current slot = some notice.id ∧
        notice.id = (bridge.leases entry.lease).id ∧ notice.sessionGeneration = bridge.table.sessionGeneration) := by
  intro bridge
  obtain ⟨sound, answered, reclaimable⟩ : bridge.Sound ∧ bridge.Answered ∧ bridge.Reclaimable := by
    refine run_protocol (withOptions_sound capacity idleMillis filtering sessionGeneration)
      (withOptions_answered capacity idleMillis filtering sessionGeneration) ?_ events
    intro slot entry held
    cases held
  refine ⟨fun lease => ?_, fun event => (step_move sound event).replies, fun slot entry held closed finished => ?_⟩
  · have once := answered lease
    have bounded := Bool.toNat_le (decide (lease < bridge.leaseCount))
    unfold requests at once
    omega
  · obtain ⟨notice, queued, identity, session⟩ := reclaimable slot entry held closed finished
    obtain ⟨_, own, sameSession⟩ := sound.leased slot entry held
    obtain ⟨current, isCurrent⟩ := Option.isSome_iff_exists.mp (sound.represents.current slot entry held)
    refine ⟨notice, queued, ?_, identity, session.trans sameSession⟩
    rw [identity, own, isCurrent, (GenerationTable.current_eq_some.mp isCurrent).2.2]

/-- The association of the sample run is closed by its handle; the notice waits for the owner. -/
theorem sampleEvents_protocol :
    let bridge := (withOptions 2 1000 .endpointIndependent 0).run
      (sampleEvents ++ [.handle 0 .cancel, .handle 0 .close, .handle 0 .notifyClose])
    (bridge.leases 0).phase = .closed ∧ bridge.replies = [(0, .ok ())] ∧
      ∃ notice ∈ bridge.controls, bridge.table.generations.current 0 = some notice.id := by
  have protocol := (lease_protocol 2 1000 .endpointIndependent 0
    (sampleEvents ++ [.handle 0 .cancel, .handle 0 .close, .handle 0 .notifyClose])).2.2
  obtain ⟨notice, queued, current, _⟩ := protocol 0 _ rfl rfl (by decide)
  exact ⟨rfl, rfl, notice, queued, current⟩

end Ferrum.Tun.UdpBridge
