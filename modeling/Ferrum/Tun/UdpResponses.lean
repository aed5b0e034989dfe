import Ferrum.Tun.UdpLeaseNotices

namespace Ferrum.Tun

/-- The owner is inside `invalidate_session`. -/
def OwnerPoint.invalidates : OwnerPoint → Bool
  | .invalidating _ _ | .removing _ (.invalidate _ _) | .reclaiming _ _ (.invalidate _ _) => true
  | _ => false

namespace UdpBridge

def Outstanding (bridge : UdpBridge) (response : OwnerResponse) : Prop :=
  response ∈ bridge.inFlight ∨ response ∈ bridge.responses ∨ response ∈ bridge.pendingResponse

/-- The lease was given out and is in no slot any more. -/
def Retired (bridge : UdpBridge) (lease : Nat) : Prop :=
  lease < bridge.leaseCount ∧ ∀ slot entry, bridge.table.slots slot = some entry → entry.lease ≠ lease

/-- What a run cannot undo: leases keep their identities, and a lease that is in no slot never
comes back to one. -/
structure Progress (before after : UdpBridge) : Prop where
  leaseCount : before.leaseCount ≤ after.leaseCount
  identities : ∀ lease < before.leaseCount, (after.leases lease).id = (before.leases lease).id ∧
    (after.leases lease).sessionGeneration = (before.leases lease).sessionGeneration
  slots : ∀ slot entry, after.table.slots slot = some entry →
    (∃ old, before.table.slots slot = some old ∧ old.lease = entry.lease) ∨ before.leaseCount ≤ entry.lease

variable {before between after bridge : UdpBridge} {event : UdpEvent}

theorem Progress.refl (bridge : UdpBridge) : bridge.Progress bridge :=
  ⟨Nat.le_refl _, fun _ _ => ⟨rfl, rfl⟩, fun _ entry held => .inl ⟨entry, held, rfl⟩⟩

theorem Progress.trans (first : before.Progress between) (second : between.Progress after) : before.Progress after := by
  refine ⟨Nat.le_trans first.leaseCount second.leaseCount, fun lease counted => ?_, fun slot entry held => ?_⟩
  · have early := first.identities lease counted
    have late := second.identities lease (Nat.lt_of_lt_of_le counted first.leaseCount)
    exact ⟨late.1.trans early.1, late.2.trans early.2⟩
  · rcases second.slots slot entry held with ⟨middle, inside, same⟩ | fresh
    · rw [← same]
      exact first.slots slot middle inside
    · exact .inr (Nat.le_trans first.leaseCount fresh)

theorem Progress.keeps (count : after.leaseCount = before.leaseCount) (same : before.SameIdentities after)
    (keeps : before.table.Keeps after.table) : before.Progress after := by
  refine ⟨Nat.le_of_eq count.symm, fun lease _ => same lease, fun slot entry held => ?_⟩
  obtain ⟨old, inside, lease, _⟩ := keeps slot entry held
  exact .inl ⟨old, inside, lease⟩

theorem openCandidate_progress (bridge : UdpBridge) (id : GenerationId) (packet : UdpPacket) (rest : List Nat) :
    bridge.Progress ({ bridge with table := { bridge.table with freeList := rest } }.openCandidate id packet) := by
  refine ⟨Nat.le_succ _, fun lease counted => ?_, fun slot entry held => ?_⟩
  · simp [openCandidate, Function.update_of_ne (Nat.ne_of_lt counted)]
  · simp only [openCandidate, (insertCandidate_storage _ _ _ _ _ _).1] at held
    rcases update_eq_some.mp held with ⟨_, isNew⟩ | ⟨_, old⟩
    · cases isNew
      exact .inr (Nat.le_refl _)
    · exact .inl ⟨entry, old, rfl⟩

theorem remove_progress (bridge : UdpBridge) (id : GenerationId) (next : Next) : bridge.Progress (bridge.remove id next) := by
  unfold remove
  split
  · have resumed := resume_quiet bridge next
    exact .keeps resumed.leaseCount (fun _ => by rw [resumed.leases]; exact ⟨rfl, rfl⟩) resumed.keeps
  · exact .keeps rfl (setPhase_identities bridge _ _) (UdpTable.detach_keeps bridge.table id _)

theorem Move.progress (sound : before.Sound) (move : Move before event after) : before.Progress after := by
  cases move with
  | stay | enqueued | fenced | control | judged | committed | rejected | responded =>
      exact .keeps rfl (fun _ => ⟨rfl, rfl⟩) (UdpTable.Keeps.refl _)
  | handle _ move =>
    exact .keeps move.sameOwner.leaseCount move.sameOwner.identities (move.sameOwner.table ▸ UdpTable.Keeps.refl _)
  | quiet quiet _ => exact .keeps quiet.leaseCount (fun _ => by rw [quiet.leases]; exact ⟨rfl, rfl⟩) quiet.keeps
  | @opened id rest packet _ _ _ => exact openCandidate_progress before id packet rest
  | @refused id rest packet _ _ _ =>
    refine (openCandidate_progress before id packet rest).trans ?_
    exact .keeps rfl (setPhase_identities _ before.leaseCount .closed) (UdpTable.Keeps.refl _)
  | @closed notice rest entry _ _ _ =>
    have popped : before.Progress { before with controls := rest } :=
      .keeps rfl (fun _ => ⟨rfl, rfl⟩) (UdpTable.Keeps.refl _)
    exact popped.trans (remove_progress { before with controls := rest } notice.id .done)
  | @removed pending responses id next _ _ =>
    have taken : before.Progress { before with pendingResponse := pending, responses := responses } :=
      .keeps rfl (fun _ => ⟨rfl, rfl⟩) (UdpTable.Keeps.refl _)
    exact taken.trans (remove_progress { before with pendingResponse := pending, responses := responses } id next)
  | @reclaimed id lease next point =>
    have resumed := resume_quiet { before.refuse lease with table := before.table.reclaim id } next
    have supported := sound.supported
    rw [point] at supported
    refine .keeps (resumed.leaseCount.trans (refuse_leaseCount before lease)) ?_
      ((UdpTable.reclaim_keeps supported.2.1 supported.1).trans resumed.keeps)
    intro other
    unfold reclaim
    rw [resumed.leases]
    exact refuse_identities before lease other
  | @taken id lease commit _ _ _ _ => exact .keeps rfl (setCommit_identities before lease none) (UdpTable.Keeps.refl _)
  | @promoted id lease commit nowMillis entry point occupied _ =>
    exact .keeps rfl (setPhase_identities before lease .association)
      (UdpTable.promote_keeps (UdpTable.occupant_eq_some.mp occupied).2 _ _)
  | injected _ _ _ injects => exact .keeps rfl (fun _ => ⟨rfl, rfl⟩) (UdpTable.refreshDeadline_keeps injects.held _)

theorem run_progress (sound : bridge.Sound) (events : List UdpEvent) :
    (bridge.run events).Sound ∧ bridge.Progress (bridge.run events) := by
  unfold run
  induction events generalizing bridge with
  | nil => exact ⟨sound, Progress.refl bridge⟩
  | cons event rest ih =>
    obtain ⟨reached, later⟩ := ih (step_sound sound event)
    exact ⟨reached, ((step_move sound event).progress sound).trans later⟩

theorem Move.injected_cases (move : Move before event after) :
    after.injected = before.injected ∨ ∃ response nowMillis entry, event = .processOneResponse nowMillis .injected ∧
      after.injected = before.injected ++ [response] ∧ before.owner = .idle ∧ before.Injects response nowMillis entry := by
  cases move with
  | stay | enqueued | fenced | control | judged | committed | rejected | responded | taken | promoted | opened | refused =>
      exact .inl rfl
  | handle _ move => exact .inl move.sameOwner.injected
  | quiet quiet _ => exact .inl quiet.injected
  | closed | removed =>
    left
    unfold remove
    split
    · exact (resume_quiet _ _).injected
    · rfl
  | @reclaimed id lease next point =>
    left
    have resumed := (resume_quiet { before.refuse lease with table := before.table.reclaim id } next).injected
    unfold reclaim
    rw [resumed]
    unfold refuse
    split
    · rfl
    · rfl
  | @injected pending responses response nowMillis entry isResponse idle _ injects =>
    exact .inr ⟨response, nowMillis, entry, isResponse, rfl, idle, injects⟩

theorem Progress.retired (progress : before.Progress after) {lease : Nat} (retired : before.Retired lease) :
    after.Retired lease := by
  refine ⟨Nat.lt_of_lt_of_le retired.1 progress.leaseCount, fun slot entry held => ?_⟩
  rcases progress.slots slot entry held with ⟨old, inside, same⟩ | fresh
  · exact same ▸ retired.2 slot old inside
  · exact Nat.ne_of_gt (Nat.lt_of_lt_of_le retired.1 fresh)

variable {response : OwnerResponse}

theorem Outstanding.congr (waits : after.Outstanding response) (inFlight : after.inFlight = before.inFlight)
    (responses : after.responses = before.responses) (pending : after.pendingResponse = before.pendingResponse) :
    before.Outstanding response := by
  unfold Outstanding at waits ⊢
  rw [← inFlight, ← responses, ← pending]
  exact waits

theorem Drains.outstanding {pending : Option OwnerResponse} {responses : List OwnerResponse}
    (drains : before.Drains pending responses)
    (waits : response ∈ before.inFlight ∨ response ∈ responses ∨ response ∈ pending) : before.Outstanding response :=
  waits.imp_right (drains response)

theorem remove_queues (bridge : UdpBridge) (id : GenerationId) (next : Next) :
    (bridge.remove id next).inFlight = bridge.inFlight ∧ (bridge.remove id next).responses = bridge.responses ∧
      (bridge.remove id next).pendingResponse = bridge.pendingResponse := by
  unfold remove
  split
  · cases next <;> exact ⟨rfl, rfl, rfl⟩
  · exact ⟨rfl, rfl, rfl⟩

theorem reclaim_queues (bridge : UdpBridge) (id : GenerationId) (lease : Nat) (next : Next) :
    (bridge.reclaim id lease next).inFlight = bridge.inFlight ∧ (bridge.reclaim id lease next).responses = bridge.responses ∧
      (bridge.reclaim id lease next).pendingResponse = bridge.pendingResponse := by
  have refused : (bridge.refuse lease).inFlight = bridge.inFlight ∧ (bridge.refuse lease).responses = bridge.responses ∧
      (bridge.refuse lease).pendingResponse = bridge.pendingResponse := by
    unfold refuse
    split
    · exact ⟨rfl, rfl, rfl⟩
    · exact ⟨rfl, rfl, rfl⟩
  unfold reclaim
  cases next <;> exact refused

theorem Move.outstanding (move : Move before event after) (waits : after.Outstanding response) :
    before.Outstanding response ∨ response.lease < before.leaseCount := by
  cases move with
  | stay | fenced | control | judged | committed | rejected | taken | promoted | opened | refused =>
    exact .inl (waits.congr rfl rfl rfl)
  | @handle lease _ counted move =>
    cases move with
    | sent =>
      rcases waits with flying | waits
      · rcases List.mem_append.mp flying with old | isNew
        · exact .inl (.inl old)
        · cases List.mem_singleton.mp isNew
          exact .inr counted
      · exact .inl (.inr waits)
    | _ => exact .inl (waits.congr rfl rfl rfl)
  | enqueued moved =>
    rcases waits with flying | queued | retained
    · exact .inl ((moved response (.inl flying)).imp_right .inl)
    · exact .inl ((moved response (.inr queued)).imp_right .inl)
    · exact .inl (.inr (.inr retained))
  | quiet quiet _ => exact .inl (quiet.drains.outstanding (quiet.inFlight ▸ waits))
  | closed =>
    obtain ⟨inFlight, responses, pending⟩ := remove_queues _ _ _
    exact .inl (waits.congr inFlight responses pending)
  | @removed pending responses id next _ drains =>
    obtain ⟨sameInFlight, sameResponses, samePending⟩ :=
      remove_queues { before with pendingResponse := pending, responses := responses } id next
    unfold Outstanding at waits
    rw [sameInFlight, sameResponses, samePending] at waits
    exact .inl (drains.outstanding waits)
  | reclaimed =>
    obtain ⟨inFlight, responses, pending⟩ := reclaim_queues _ _ _ _
    exact .inl (waits.congr inFlight responses pending)
  | responded drains | injected _ _ drains _ => exact .inl (drains.outstanding waits)

/-- `invalidate_session` is under way, or no slot is left to one of the first leases. -/
def Fenced (bridge : UdpBridge) (count : Nat) : Prop :=
  count ≤ bridge.leaseCount ∧
    (bridge.owner.invalidates = true ∨ ∀ slot entry, bridge.table.slots slot = some entry → count ≤ entry.lease)

theorem ownerStep_invalidates (sound : bridge.Sound) (inside : bridge.owner.invalidates = true) (environment : OwnerEnvironment) :
    (bridge.ownerStep environment).owner.invalidates = true ∨ ∀ slot, (bridge.ownerStep environment).table.slots slot = none := by
  have supported := sound.supported
  unfold ownerStep
  cases point : bridge.owner with
  | invalidating slot newGeneration =>
    rw [point] at supported
    have steady := sound.steady (by rw [point]; rfl)
    simp only [invalidateTurn]
    split
    · left
      split
      · rfl
      · rfl
    · rename_i outside
      right
      intro other
      cases held : bridge.table.slots other with
      | none => rfl
      | some entry =>
        have inRange := GenerationTable.inside_of_current (steady.represents.current other entry held)
        have cleared := supported other (by omega)
        rw [held] at cleared
        cases cleared
  | removing id next =>
    rw [point] at inside
    cases next with
    | invalidate slot newGeneration =>
      left
      simp only [remove]
      split
      · rfl
      · rfl
    | done | expire nowMillis packet | enter packet => cases inside
  | reclaiming id lease next =>
    rw [point] at inside
    cases next with
    | invalidate slot newGeneration => exact .inl rfl
    | done | expire nowMillis packet | enter packet => cases inside
  | _ =>
    rw [point] at inside
    cases inside

theorem step_owner (working : bridge.owner ≠ .idle) (event : UdpEvent) :
    (∃ environment, event = .owner environment) ∨ (bridge.step event).owner = bridge.owner := by
  cases event with
  | owner environment => exact .inl ⟨environment, rfl⟩
  | handle lease step =>
    right
    simp only [UdpBridge.step]
    split
    · exact (handleStep_move bridge lease step).sameOwner.owner
    · rfl
  | enqueue place =>
    right
    simp only [UdpBridge.step, enqueue]
    split
    · rfl
    · rfl
  | _ =>
    right
    simp only [UdpBridge.step]

theorem step_fenced (sound : bridge.Sound) {count : Nat} (fenced : bridge.Fenced count) (event : UdpEvent) :
    (bridge.step event).Fenced count := by
  have progress := (step_move sound event).progress sound
  refine ⟨Nat.le_trans fenced.1 progress.leaseCount, ?_⟩
  rcases fenced.2 with inside | emptied
  · have working : bridge.owner ≠ .idle := by
      intro idle
      rw [idle] at inside
      cases inside
    rcases step_owner working event with ⟨environment, rfl⟩ | same
    · refine (ownerStep_invalidates sound inside environment).imp_right fun empty slot entry held => ?_
      have held : (bridge.ownerStep environment).table.slots slot = some entry := held
      rw [empty slot] at held
      cases held
    · exact .inl (same ▸ inside)
  · refine .inr fun slot entry held => ?_
    rcases progress.slots slot entry held with ⟨old, before, same⟩ | fresh
    · exact same ▸ emptied slot old before
    · exact Nat.le_trans fenced.1 fresh

theorem run_fenced (sound : bridge.Sound) {count : Nat} (fenced : bridge.Fenced count) (events : List UdpEvent) :
    (bridge.run events).Sound ∧ (bridge.run events).Fenced count := by
  unfold run
  induction events generalizing bridge with
  | nil => exact ⟨sound, fenced⟩
  | cons event rest ih => exact ih (step_sound sound event) (step_fenced sound fenced event)

theorem run_outstanding (sound : bridge.Sound) (counted : ∀ response, bridge.Outstanding response → response.lease < bridge.leaseCount)
    (events : List UdpEvent) :
    (bridge.run events).Sound ∧
      ∀ response, (bridge.run events).Outstanding response → response.lease < (bridge.run events).leaseCount := by
  unfold run
  induction events generalizing bridge with
  | nil => exact ⟨sound, counted⟩
  | cons event rest ih =>
    have move := step_move sound event
    refine ih (step_sound sound event) fun response waits => ?_
    refine Nat.lt_of_lt_of_le ?_ (move.progress sound).leaseCount
    rcases move.outstanding waits with old | isNew
    · exact counted response old
    · exact isNew

/-- A response is injected only while its slot holds the unexpired association of its own lease, for the session, the
endpoint and the peer that it was created for; a lease that has left its slot has none injected any more. -/
theorem responses_isolated (capacity : Nat) (idleMillis : Int) (filtering : UdpFiltering) (sessionGeneration : Nat)
    (events later : List UdpEvent) (event : UdpEvent) :
    let created := (withOptions capacity idleMillis filtering sessionGeneration).run events
    let bridge := created.run later
    (∀ response, created.Outstanding response → response.lease < created.leaseCount) ∧
    (∀ lease < created.leaseCount, (bridge.leases lease).id = (created.leases lease).id ∧
      (bridge.leases lease).sessionGeneration = (created.leases lease).sessionGeneration) ∧
    ((bridge.step event).injected = bridge.injected ∨
      ∃ response nowMillis entry, event = .processOneResponse nowMillis .injected ∧
        (bridge.step event).injected = bridge.injected ++ [response] ∧ bridge.Injects response nowMillis entry ∧
        ¬created.Retired response.lease) ∧
    (∀ newGeneration response, created.owner = .idle →
      let fenced := (created.step (.invalidateSession newGeneration)).run later
      (fenced.step event).injected = fenced.injected ++ [response] → created.leaseCount ≤ response.lease) := by
  intro created bridge
  obtain ⟨sound, counted⟩ : created.Sound ∧ ∀ response, created.Outstanding response → response.lease < created.leaseCount := by
    refine run_outstanding (withOptions_sound capacity idleMillis filtering sessionGeneration) (fun response waits => ?_) events
    simp [Outstanding, withOptions] at waits
  obtain ⟨reached, progress⟩ : bridge.Sound ∧ created.Progress bridge := run_progress sound later
  refine ⟨counted, progress.identities, ?_, ?_⟩
  · refine (step_move reached event).injected_cases.imp_right ?_
    rintro ⟨response, nowMillis, entry, isResponse, appended, _, injects⟩
    refine ⟨response, nowMillis, entry, isResponse, appended, injects, fun retired => ?_⟩
    exact (progress.retired retired).2 _ entry injects.held injects.lease
  · intro newGeneration response idle fenced appended
    have started : (created.step (.invalidateSession newGeneration)).Fenced created.leaseCount := by
      simp only [UdpBridge.step, idle]
      exact ⟨Nat.le_refl _, .inl rfl⟩
    obtain ⟨soundNow, fencedNow⟩ : fenced.Sound ∧ fenced.Fenced created.leaseCount :=
      run_fenced (step_sound sound _) started later
    rcases (step_move soundNow event).injected_cases with same | ⟨other, nowMillis, entry, _, now, free, injects⟩
    · rw [same] at appended
      simp at appended
    · rw [appended] at now
      obtain rfl : response = other := by simpa using now
      rcases fencedNow.2 with inside | emptied
      · rw [free] at inside
        cases inside
      · exact injects.lease ▸ emptied _ entry injects.held

/-- The association of the sample run answers its application. -/
theorem sampleEvents_isolated :
    let bridge := ((withOptions 2 1000 .endpointIndependent 0).run sampleEvents)
    (bridge.step (.processOneResponse 2 .injected)).injected = [⟨0, samplePacket.source, samplePacket.target, [7, 8]⟩] ∧
      ¬bridge.Retired 0 := by
  have isolated := (responses_isolated 2 1000 .endpointIndependent 0 sampleEvents [] (.processOneResponse 2 .injected)).2.2.1
  rcases isolated with same | ⟨response, nowMillis, entry, _, appended, _, live⟩
  · cases same
  · have only : [⟨0, samplePacket.source, samplePacket.target, [7, 8]⟩] = [response] := appended
    cases only
    exact ⟨rfl, live⟩

end UdpBridge

end Ferrum.Tun
