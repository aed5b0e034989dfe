import Ferrum.Tun.SystemTcpSteps

namespace Ferrum.Tun.SystemTcp

open List

variable {origin : Int} {hears : Hears} {system next : SystemTcp}

@[simp] theorem rewriteTo_system (system : SystemTcp) (packet : List UInt8) (parsed : ParsedIpPacket) (plan : RewritePlan) :
    (system.rewriteTo packet parsed plan).system = system := rfl

@[simp] theorem reject_system (system : SystemTcp) (packet : List UInt8) (reason : TunRejectReason) :
    (system.reject packet reason).system = system := rfl

/-- The slot that a packet reaches in the live tables, and whether it comes from the application. -/
def reached (system : SystemTcp) (parsed : ParsedIpPacket) (tcp : TcpMetadata) (sequence : U32) : Option (Nat × Bool) :=
  let forward : FlowTuple := ⟨⟨parsed.source, tcp.sourcePort⟩, ⟨parsed.destination, tcp.destinationPort⟩⟩
  match system.reverse.lookup ⟨forward.source, forward.target⟩ with
  | some slot => some (slot, false)
  | none =>
    match system.forward.lookup forward with
    | some slot =>
      if isInitialSyn tcp ∧ (system.slots slot).any (fun mapping => mapping.initialIsn != sequence) then none
      else some (slot, true)
    | none => none

variable {slot : Nat} {mapping : Mapping}

section

variable (sound : system.Sound origin)
include sound

section

variable (live : system.slots slot = some mapping)
include live

variable {revised : Mapping}

theorem Sound.pending_kept (same : revised.pendingFlow = mapping.pendingFlow) (other : Nat) :
    other ∈ system.pendingSlots ↔ if other = slot then revised.pendingFlow = true else other ∈ system.pendingSlots := by
  split
  · rename_i here
    subst here
    rw [sound.tables.pending, same, live]
    simp
  · rfl

theorem Sound.due_kept (same : revised.deadlineMillis = mapping.deadlineMillis) (early : Int)
    (atEarly : system.activeDeadlineMillis = some early) :
    ∃ earlier, system.activeDeadlineMillis = some earlier ∧ earlier ≤ early ∧ earlier ≤ revised.deadlineMillis := by
  obtain ⟨due, atDue, below⟩ := sound.timely.lower slot mapping live
  cases atEarly.symm.trans atDue
  exact ⟨early, atEarly, le_rfl, same ▸ below⟩

theorem Sound.notify (notification : ResetNotification) (count : Nat) :
    Move hears system { system.setSlot slot (some { mapping with resetNotification := notification }) with
      resetOutputsPending := count } :=
  .revise live (.notify notification) sound.tables.pendingDistinct (sound.pending_kept live rfl) (sound.due_kept live rfl)

theorem Sound.receive {applicationDirection : Bool} {flags : UInt8} (heard : hears mapping applicationDirection flags)
    (unfenced : system.fenced = false) (early : system.lastNowMillis < mapping.deadlineMillis) :
    Move hears system { system.setSlot slot
        (some (mapping.receive applicationDirection flags system.lastNowMillis system.timeoutMillis)) with
      activeDeadlineMillis := minDeadline system.activeDeadlineMillis
        (mapping.receive applicationDirection flags system.lastNowMillis system.timeoutMillis).deadlineMillis } := by
  refine .revise live (.receive applicationDirection flags heard unfenced early) sound.tables.pendingDistinct
    (sound.pending_kept live (mapping.receive_pendingFlow _ _ _ _)) ?_
  intro least atLeast
  rw [atLeast]
  exact ⟨_, rfl, min_le_left _ _, min_le_right _ _⟩

end

end

variable {packet : List UInt8} {parsed : ParsedIpPacket}

theorem Sound.rewriteActive (sound : system.Sound origin) {applicationDirection : Bool} {flags : UInt8}
    (live : system.slots slot = some mapping) (heard : system.fenced = false → hears mapping applicationDirection flags)
    (early : system.fenced = false → system.lastNowMillis < mapping.deadlineMillis) :
    Moves hears system
      (system.rewriteActive packet parsed slot applicationDirection flags system.lastNowMillis).system := by
  unfold SystemTcp.rewriteActive
  rw [live]
  dsimp only
  split
  · unfold rewriteFenced
    split
    · exact .refl
    · dsimp only
      rw [rewriteTo_system]
      split
      · exact .single (sound.notify live _ _)
      · exact .refl
  · rename_i unfenced
    have unfenced : system.fenced = false := by simpa using unfenced
    rw [rewriteTo_system]
    exact .single (sound.receive live (heard unfenced) unfenced (early unfenced))

theorem Sound.retiredReversePlan (sound : system.Sound origin) (hears : Hears) (tuple : ReverseTuple) :
    Moves hears system (system.retiredReversePlan tuple system.lastNowMillis).1 := by
  unfold SystemTcp.retiredReversePlan
  split
  · exact .refl
  · rename_i flow found
    obtain ⟨retired, atFlow, rfl⟩ := (sound.retirement.reverse _ _).mp found
    rw [atFlow]
    dsimp only
    split
    · exact .refl
    · rename_i expired
      exact .single (sound.dropRetired atFlow (not_lt.mp expired))

theorem Sound.retiredForwardPlan (sound : system.Sound origin) (hears : Hears) (flow : FlowTuple) :
    Moves hears system (system.retiredForwardPlan flow system.lastNowMillis).1 := by
  unfold SystemTcp.retiredForwardPlan
  split
  · exact .refl
  · rename_i retired found
    split
    · exact .refl
    · rename_i expired
      exact .single (sound.dropRetired found (not_lt.mp expired))

variable {flow : FlowTuple}

variable {now : Int}

theorem retiredForwardPlan_none (refused : (system.retiredForwardPlan flow now).2 = none) :
    (system.retiredForwardPlan flow now).1.retiredForward.lookup flow = none := by
  revert refused
  unfold SystemTcp.retiredForwardPlan
  split
  · rename_i absent
    exact fun _ => absent
  · rename_i retired found
    split
    · exact nofun
    · intro _
      unfold SystemTcp.dropRetired recomputeRetiredDeadline
      dsimp only
      split <;> exact AList.lookup_erase flow _

/-- The live tables and the mode, which the retired tables never touch. -/
structure SameLive (system next : SystemTcp) : Prop where
  forward : next.forward = system.forward
  reverse : next.reverse = system.reverse
  slots : next.slots = system.slots
  fenced : next.fenced = system.fenced
  bindings : next.bindings = system.bindings
  freeSlots : next.freeSlots = system.freeSlots
  active : next.active = system.active
  maxFlows : next.maxFlows = system.maxFlows
  timeoutMillis : next.timeoutMillis = system.timeoutMillis

theorem SameLive.refl (system : SystemTcp) : system.SameLive system := ⟨rfl, rfl, rfl, rfl, rfl, rfl, rfl, rfl, rfl⟩

theorem SameLive.trans {last : SystemTcp} (first : system.SameLive next) (second : next.SameLive last) :
    system.SameLive last :=
  ⟨second.forward.trans first.forward, second.reverse.trans first.reverse, second.slots.trans first.slots,
    second.fenced.trans first.fenced, second.bindings.trans first.bindings, second.freeSlots.trans first.freeSlots,
    second.active.trans first.active, second.maxFlows.trans first.maxFlows, second.timeoutMillis.trans first.timeoutMillis⟩

theorem dropRetired_sameLive (system : SystemTcp) (flow : FlowTuple) (tuple : ReverseTuple) (expiresAt : Int) :
    system.SameLive (system.dropRetired flow tuple expiresAt) := by
  unfold SystemTcp.dropRetired recomputeRetiredDeadline
  dsimp only
  split <;> exact ⟨rfl, rfl, rfl, rfl, rfl, rfl, rfl, rfl, rfl⟩

theorem retiredReversePlan_sameLive (system : SystemTcp) (tuple : ReverseTuple) (now : Int) :
    system.SameLive (system.retiredReversePlan tuple now).1 := by
  unfold SystemTcp.retiredReversePlan
  split
  · exact .refl system
  · split
    · exact ⟨rfl, rfl, rfl, rfl, rfl, rfl, rfl, rfl, rfl⟩
    · split
      · exact .refl system
      · exact system.dropRetired_sameLive _ _ _

theorem retiredForwardPlan_sameLive (system : SystemTcp) (flow : FlowTuple) (now : Int) :
    system.SameLive (system.retiredForwardPlan flow now).1 := by
  unfold SystemTcp.retiredForwardPlan
  split
  · exact .refl system
  · split
    · exact .refl system
    · exact system.dropRetired_sameLive _ _ _

theorem reapRetired_sameLive (system : SystemTcp) (now : Int) : system.SameLive (system.reapRetired now).1 := by
  have fold : ∀ (entries : List (Sigma fun _ : FlowTuple => RetiredMapping)) (state : SystemTcp),
      state.SameLive (entries.foldl reapRetiredEntry state) := by
    intro entries
    induction entries with
    | nil => exact .refl
    | cons first rest ih =>
      intro state
      have turn : state.SameLive (reapRetiredEntry state first) := ⟨rfl, rfl, rfl, rfl, rfl, rfl, rfl, rfl, rfl⟩
      exact turn.trans (ih (reapRetiredEntry state first))
  unfold SystemTcp.reapRetired
  split
  · exact .refl system
  · obtain ⟨forward, reverse, slots, fenced, bindings, freeSlots, active, maxFlows, timeoutMillis⟩ :=
      fold (system.retiredForward.entries.filter fun entry => decide (entry.2.expiresAt ≤ now)) system
    exact ⟨forward, reverse, slots, fenced, bindings, freeSlots, active, maxFlows, timeoutMillis⟩

theorem reapRetired_kept {retired : RetiredMapping}
    (found : (system.reapRetired now).1.retiredForward.lookup flow = some retired) :
    system.retiredForward.lookup flow = some retired := by
  revert found
  unfold SystemTcp.reapRetired
  split
  · exact id
  · dsimp only
    rw [HashMap.lookup_retain, Option.filter_eq_some_iff]
    exact And.left

variable {sequence : U32} {environment : TcpEnvironment}

theorem Sound.admitFlow (sound : system.Sound origin) (unfenced : system.fenced = false)
    (absent : system.forward.lookup flow = none) (unretired : system.retiredForward.lookup flow = none) :
    Moves hears system (system.admitFlow packet parsed flow sequence system.lastNowMillis).system := by
  obtain ⟨reaping, _, swept⟩ := sound.reapRetired hears rfl
  have same := system.reapRetired_sameLive system.lastNowMillis
  have clock := reaping.lastNowMillis
  have reaped := sound.moves reaping
  have forgotten : (system.reapRetired system.lastNowMillis).1.retiredForward.lookup flow = none := by
    by_contra present
    obtain ⟨retired, found⟩ := Option.ne_none_iff_exists'.mp present
    exact absurd (reapRetired_kept found) (by simp [unretired])
  unfold SystemTcp.admitFlow
  dsimp only
  generalize (system.reapRetired system.lastNowMillis).1 = settled at *
  refine reaping.trans ?_
  rw [← clock]
  split
  · exact .refl
  · rename_i room
    split
    · exact .refl
    · rename_i binding found
      split
      · rename_i quarantine allocated
        rw [reject_system]
        refine .single (.ports ?_)
        have after : settled.quarantine.step (.allocate (.fromIpFamily parsed.family) settled.lastNowMillis) = quarantine := by
          simp only [PortQuarantine.step, PortQuarantine.perform, allocated]
        rw [← after]
        refine .call rfl ?_
        rintro identity _ (same | ⟨_, same⟩ | same) <;> cases same
      · rename_i quarantine port allocated
        split
        · rename_i none
          have full := reaped.tables.full
          rw [none, length_nil] at full
          omega
        · rename_i slot rest free
          rw [rewriteTo_system]
          refine .single (.occupy sequence (same.fenced.trans unfenced) free (same.forward ▸ absent) forgotten ?_ found allocated)
          rw [clock]
          exact swept

variable {admitting : Bool}

theorem Sound.route (sound : system.Sound origin) {packet : List UInt8} {parsed : ParsedIpPacket} {tcp : TcpMetadata}
    {admitting : Bool}
    (early : system.fenced = false → ∀ slot mapping, system.slots slot = some mapping →
      system.lastNowMillis < mapping.deadlineMillis)
    (heard : system.fenced = false → ∀ slot applicationDirection mapping,
      system.reached parsed tcp sequence = some (slot, applicationDirection) → system.slots slot = some mapping →
      hears mapping applicationDirection tcp.flags) :
    Moves hears system (system.route packet parsed tcp sequence admitting system.lastNowMillis).system := by
  unfold SystemTcp.route
  unfold reached at heard
  dsimp only at heard ⊢
  split
  · rename_i slot found
    rw [found] at heard
    obtain ⟨mapping, live, _⟩ := (sound.tables.reverse _ _).mp found
    exact sound.rewriteActive live (fun unfenced => heard unfenced slot false mapping rfl live)
      fun unfenced => early unfenced slot mapping live
  · rename_i unreversed
    rw [unreversed] at heard
    dsimp only at heard
    split
    · rename_i slot found
      rw [found] at heard
      dsimp only at heard
      split
      · exact .refl
      · rename_i repeated
        rw [if_neg repeated] at heard
        obtain ⟨mapping, live, _⟩ := (sound.tables.forward _ _).mp found
        exact sound.rewriteActive live (fun unfenced => heard unfenced slot true mapping rfl live)
          fun unfenced => early unfenced slot mapping live
    · rename_i absent
      have first := sound.retiredReversePlan hears
        ⟨⟨parsed.source, tcp.sourcePort⟩, ⟨parsed.destination, tcp.destinationPort⟩⟩
      have firstSame := system.retiredReversePlan_sameLive
        ⟨⟨parsed.source, tcp.sourcePort⟩, ⟨parsed.destination, tcp.destinationPort⟩⟩ system.lastNowMillis
      split
      · rename_i settled plan answered
        rw [answered] at first
        exact first
      · rename_i settled answered
        rw [answered] at first firstSame
        dsimp only at first firstSame
        have clock := first.lastNowMillis
        have second := (sound.moves first).retiredForwardPlan hears
          ⟨⟨parsed.source, tcp.sourcePort⟩, ⟨parsed.destination, tcp.destinationPort⟩⟩
        have secondSame := settled.retiredForwardPlan_sameLive
          ⟨⟨parsed.source, tcp.sourcePort⟩, ⟨parsed.destination, tcp.destinationPort⟩⟩ system.lastNowMillis
        rw [clock] at second
        split
        · rename_i last plan also
          rw [also] at second
          split <;> exact first.trans second
        · rename_i last also
          have unretired := retiredForwardPlan_none (congrArg Prod.snd also)
          rw [also] at second secondSame unretired
          have moves : Moves hears system last := first.trans second
          split
          · exact moves
          · split
            · exact moves
            · rename_i closed
              have unfenced : last.fenced = false := by simpa using (not_or.mp closed).1
              refine moves.trans ?_
              rw [← moves.lastNowMillis]
              refine (sound.moves moves).admitFlow unfenced ?_ unretired
              rw [(firstSame.trans secondSame).forward]
              exact absent

/-- The table as a packet finds it: at the observed time, after the maintenance that it forces. -/
def maintained (system : SystemTcp) (environment : TcpEnvironment) (now : Int) : SystemTcp :=
  (system.observeTime now).maintain environment (system.observeTime now).lastNowMillis

/-- The packets of a call satisfy `hears` when they reach a live mapping of an unfenced table. -/
def Hearing (hears : Hears) (system : SystemTcp) : TcpCall → Prop
  | .rewrite environment packet parsed _ now =>
    ∀ tcp sequence slot applicationDirection mapping, parsed.metadataMatches packet.length = true → parsed.transport = .tcp tcp →
      tcpSequence packet parsed.transportOffset = .ok sequence → (system.maintained environment now).fenced = false →
      (system.maintained environment now).reached parsed tcp sequence = some (slot, applicationDirection) →
      (system.maintained environment now).slots slot = some mapping → hears mapping applicationDirection tcp.flags
  | _ => True

theorem Sound.rewrite_tail (sound : system.Sound origin)
    (hearing : Hearing hears system (.rewrite environment packet parsed admitting now)) :
    Moves hears (system.maintained environment now) (system.rewrite environment packet parsed admitting now).system := by
  have start := sound.observeTime now
  unfold SystemTcp.rewrite maintained
  unfold Hearing maintained at hearing
  dsimp only at hearing ⊢
  generalize system.observeTime now = observed at *
  obtain ⟨moves, early⟩ := start.maintain hears environment
  generalize observed.maintain environment observed.lastNowMillis = maintained at *
  split
  · exact .refl
  · rename_i matched
    split
    · exact .refl
    · rename_i tcp isTcp
      split
      · exact .refl
      · rename_i sequence numbered
        rw [← moves.lastNowMillis]
        refine (start.moves moves).route (fun unfenced => moves.lastNowMillis ▸ early (moves.unfenced unfenced)) ?_
        intro unfenced slot applicationDirection mapping reaches live
        exact hearing tcp sequence slot applicationDirection mapping (by simpa using matched) isTcp numbered unfenced reaches live

theorem Sound.rewrite (sound : system.Sound origin)
    (hearing : Hearing hears system (.rewrite environment packet parsed admitting now)) :
    Moves hears (system.observeTime now) (system.rewrite environment packet parsed admitting now).system :=
  ((sound.observeTime now).maintain hears environment).1.trans (sound.rewrite_tail hearing)

end Ferrum.Tun.SystemTcp

namespace Ferrum.Tun

open List

namespace PortQuarantine

variable {owned : AddressFamily × Port → Prop} {now : Int} {quarantine next : PortQuarantine}

theorem Leads.claim (quarantine : PortQuarantine) (family : AddressFamily) (port : Port) :
    Leads owned now quarantine (quarantine.step (.claim family port)) := by
  refine .call trivial ?_
  rintro identity _ (same | ⟨_, same⟩ | same) <;> cases same

theorem bindAvailable_spec (owned : AddressFamily × Port → Prop) (now : Int) (offer : ListenerOffer) (epoch : Nat)
    (ports : List Port) {quarantine : PortQuarantine} (consistent : quarantine.Consistent) :
    Leads owned now quarantine (quarantine.bindAvailable offer epoch ports).1 ∧
      ∀ binding, (quarantine.bindAvailable offer epoch ports).2 = some binding →
        (quarantine.bindAvailable offer epoch ports).1.value binding.identity.1 binding.identity.2 = activePort ∧
        ∀ identity, quarantine.value identity.1 identity.2 = activePort → binding.identity ≠ identity := by
  induction ports generalizing quarantine with
  | nil => exact ⟨.refl quarantine, nofun⟩
  | cons port rest ih =>
    have claims : Leads owned now quarantine (quarantine.step (.claim offer.family port)) := .claim quarantine _ _
    unfold bindAvailable
    cases claimed : quarantine.claim offer.family port with
    | mk after granted =>
      have stepped : quarantine.step (.claim offer.family port) = after := by
        simp only [step, perform, claimed]
      rw [stepped] at claims
      dsimp only
      split
      · rename_i given
        have out : quarantine.HandsOut (.claim offer.family port) offer.family port := by
          simp only [HandsOut, perform, claimed, given, if_true]
        refine ⟨claims, fun binding bound => ?_⟩
        cases bound
        have taken := (consistent.handsOut out).2
        rw [stepped] at taken
        refine ⟨taken, fun identity isActive same => ?_⟩
        rw [← same] at isActive
        exact consistent.handsOut_not_active out isActive
      · obtain ⟨leads, bound⟩ := ih (claims.consistent consistent)
        refine ⟨claims.trans leads, fun binding found => ?_⟩
        obtain ⟨taken, fresh⟩ := bound binding found
        refine ⟨taken, fun identity isActive => fresh identity ?_⟩
        have stays : Leads (· = identity) now quarantine (quarantine.step (.claim offer.family port)) := .claim quarantine _ _
        rw [stepped] at stays
        exact stays.active consistent rfl isActive

theorem unclaimBindings_leads (bindings : List Binding) {quarantine : PortQuarantine}
    (foreign : ∀ binding ∈ bindings, ¬owned binding.identity) :
    Leads owned now quarantine (quarantine.unclaimBindings bindings) := by
  induction bindings generalizing quarantine with
  | nil => exact .refl quarantine
  | cons first rest ih =>
    have turn : Leads owned now quarantine (quarantine.step (.unclaim first.family first.listener.port)) := by
      refine .call trivial ?_
      rintro ⟨family, port⟩ own (same | ⟨_, same⟩ | same) <;> cases same
      exact foreign first mem_cons_self own
    exact turn.trans (ih fun binding member => foreign binding (mem_cons_of_mem _ member))

theorem prepareListeners_spec (now : Int) (epoch : Nat) (offers : List ListenerOffer) {quarantine : PortQuarantine}
    {prepared : List Binding} (consistent : quarantine.Consistent)
    (own : ∀ identity, owned identity → quarantine.value identity.1 identity.2 = activePort)
    (listening : ∀ binding ∈ prepared, quarantine.value binding.identity.1 binding.identity.2 = activePort ∧
      ¬owned binding.identity) :
    Leads owned now quarantine (prepareListeners epoch offers quarantine prepared).1 ∧
      ∀ bindings, (prepareListeners epoch offers quarantine prepared).2 = some bindings → ∀ binding ∈ bindings,
        (prepareListeners epoch offers quarantine prepared).1.value binding.identity.1 binding.identity.2 = activePort ∧
        ¬owned binding.identity := by
  induction offers generalizing quarantine prepared with
  | nil =>
    refine ⟨.refl quarantine, fun bindings found => ?_⟩
    cases found
    exact listening
  | cons offer rest ih =>
    unfold prepareListeners
    obtain ⟨leads, bound⟩ := bindAvailable_spec (fun identity => quarantine.value identity.1 identity.2 = activePort)
      now offer epoch (offer.ports.take listenerBindAttempts) consistent
    have leadsOwn := leads.mono own
    cases attempt : quarantine.bindAvailable offer epoch (offer.ports.take listenerBindAttempts) with
    | mk after result =>
      rw [attempt] at leads leadsOwn bound
      cases result with
      | none =>
        refine ⟨leadsOwn.trans (unclaimBindings_leads prepared fun binding member => (listening binding member).2), nofun⟩
      | some binding =>
        obtain ⟨taken, fresh⟩ := bound binding rfl
        obtain ⟨onward, all⟩ := @ih after (prepared ++ [binding]) (leads.consistent consistent)
          (fun identity mine => leads.active consistent (own identity mine) (own identity mine)) (by
            intro other member
            rcases mem_append.mp member with early | last
            · obtain ⟨isActive, foreign⟩ := listening other early
              exact ⟨leads.active consistent isActive isActive, foreign⟩
            · cases mem_singleton.mp last
              exact ⟨taken, fun mine => fresh binding.identity (own _ mine) rfl⟩)
        exact ⟨leadsOwn.trans onward, all⟩

end PortQuarantine

namespace SystemTcp

variable {origin : Int} {hears : Hears} {system next : SystemTcp}

section

variable (sound : system.Sound origin)
include sound

theorem Sound.start (hears : Hears) (ipv4 ipv6 : Option ListenerOffer) (converted : Bool) :
    Moves hears system (system.start ipv4 ipv6 converted) := by
  unfold SystemTcp.start
  split
  · exact .refl
  · rename_i unfenced
    have unfenced : system.fenced = false := by simpa using unfenced
    split
    · exact .refl
    · rename_i unbound
      have unbound : system.bindings = [] := by simpa using unbound
      have idle : ∀ quarantine epoch,
          PortQuarantine.Leads system.Translates system.lastNowMillis system.quarantine quarantine →
          Moves hears system { system with nextEpoch := epoch, quarantine } := by
        intro quarantine epoch leads
        refine .single (.listen epoch unfenced unbound leads fun binding member => ?_)
        rw [unbound] at member
        exact absurd member not_mem_nil
      dsimp only
      split
      · exact idle system.quarantine _ (.refl _)
      · have own : ∀ identity, system.Translates identity → system.quarantine.value identity.1 identity.2 = activePort := by
          rintro identity ⟨slot, mapping, live, rfl⟩
          exact sound.ports.live slot mapping live
        have listening : ∀ binding ∈ ([] : List Binding), system.quarantine.value binding.identity.1 binding.identity.2 =
            activePort ∧ ¬system.Translates binding.identity := fun binding member => absurd member not_mem_nil
        obtain ⟨leads, listening⟩ := PortQuarantine.prepareListeners_spec system.lastNowMillis
          ((system.nextEpoch + 1) % (u64Max + 1)) (ipv4.toList ++ ipv6.toList) sound.ports.consistent own listening
        split
        · rename_i quarantine prepared
          rw [prepared] at leads
          exact idle quarantine _ leads
        · rename_i quarantine bindings prepared
          rw [prepared] at leads listening
          split
          · exact .single (.listen _ unfenced unbound leads (listening bindings rfl))
          · exact idle _ _ (leads.trans (PortQuarantine.unclaimBindings_leads bindings fun binding member =>
              (listening bindings rfl binding member).2))

theorem Sound.fence_moves (hears : Hears) (environment : TcpEnvironment)
    (nextGeneration : Nat) : Moves hears system (system.fence environment nextGeneration).1 := by
  unfold SystemTcp.fence
  split
  · exact .refl
  · have held : (system.mappings.all fun mapping => mapping.socket.all fun socket =>
        socket.generation == system.generation) = true := by
      rw [all_eq_true]
      intro mapping member
      obtain ⟨slot, _, live⟩ := mem_filterMap.mp member
      cases socket : mapping.socket with
      | none => rfl
      | some lease => exact beq_iff_eq.mpr (sound.sockets slot mapping lease live socket)
    dsimp only
    rw [assert_true held]
    have notifies : (fun slot => (system.slots slot).map (system.fenceMapping (environment.flowDropped slot))) =
        fun slot => (system.slots slot).map fun mapping =>
          if decide (¬system.fenced ∧ ¬mapping.closing ∧ mapping.socket.isSome ∧ ¬environment.flowDropped slot) then
            { mapping with resetNotification := .awaitingKernelReset } else mapping := by
      funext slot
      congr 1
      funext mapping
      simp only [fenceMapping, decide_eq_true_eq]
    rw [notifies]
    exact .single (.fence fun slot mapping =>
      decide (¬system.fenced ∧ ¬mapping.closing ∧ mapping.socket.isSome ∧ ¬environment.flowDropped slot))

theorem Sound.retire_moves (hears : Hears) (nextGeneration : Nat) :
    Moves hears system (system.retire nextGeneration).1 := by
  unfold SystemTcp.retire
  split
  · exact .refl
  · obtain ⟨moves, idle⟩ := sound.retireAll hears false
    exact moves.tail (.clear nextGeneration idle)

theorem Sound.resetOutputSent (hears : Hears) (parsed : ParsedIpPacket) :
    Moves hears system (system.resetOutputSent parsed) := by
  unfold SystemTcp.resetOutputSent
  split
  · exact .refl
  · split
    · exact .refl
    · split
      · exact .refl
      · rename_i slot found
        obtain ⟨mapping, live, _⟩ := (sound.tables.forward _ _).mp found
        rw [live]
        dsimp only
        split
        · exact .single (sound.notify live _ _)
        · exact .refl

theorem Sound.stopAndJoin (hears : Hears) : Moves hears system system.stopAndJoin := by
  have defers : ∀ (bindings : List Binding) (quarantine : PortQuarantine),
      (∀ binding ∈ bindings, ¬system.Translates binding.identity) →
      PortQuarantine.Leads system.Translates system.lastNowMillis quarantine (bindings.foldl
        (fun quarantine binding => quarantine.deferRelease binding.family binding.listener.port) quarantine) := by
    intro bindings
    induction bindings with
    | nil => exact fun quarantine _ => .refl quarantine
    | cons first rest ih =>
      intro quarantine foreign
      have turn : PortQuarantine.Leads system.Translates system.lastNowMillis quarantine
          (quarantine.step (.deferRelease first.family first.listener.port)) := by
        refine .call trivial ?_
        rintro ⟨family, port⟩ own (same | ⟨_, same⟩ | same) <;> cases same
        exact foreign first mem_cons_self own
      exact turn.trans (ih _ fun binding member => foreign binding (mem_cons_of_mem _ member))
  exact .single (.stop (defers system.bindings system.quarantine fun binding member => sound.not_translates_binding member))

end

/-- The time that a call observes first. -/
def observing (system : SystemTcp) : TcpCall → SystemTcp
  | .rewrite _ _ _ _ now | .expire _ now | .processAccepts _ now => system.observeTime now
  | .start .. | .fence .. | .retire _ | .retireAll _ | .resetOutputSent _ | .stopAndJoin => system

theorem Sound.observing (sound : system.Sound origin) (call : TcpCall) : (system.observing call).Sound origin := by
  cases call with
  | rewrite _ _ _ _ now | expire _ now | processAccepts _ now => exact sound.observeTime now
  | start | fence | retire | retireAll | resetOutputSent | stopAndJoin => exact sound

theorem Sound.step_moves (sound : system.Sound origin) {call : TcpCall} (hearing : Hearing hears system call) :
    Moves hears (system.observing call) (system.step call) := by
  cases call with
  | start ipv4 ipv6 converted => exact sound.start hears ipv4 ipv6 converted
  | rewrite environment packet parsed admitting now => exact sound.rewrite hearing
  | expire environment now => exact (sound.expire hears environment now).1
  | processAccepts accepted now => exact (sound.observeTime now).processAccepts rfl
  | fence environment nextGeneration => exact sound.fence_moves hears environment nextGeneration
  | retire nextGeneration => exact sound.retire_moves hears nextGeneration
  | retireAll preserveRewrite => exact (sound.retireAll hears preserveRewrite).1
  | resetOutputSent parsed => exact sound.resetOutputSent hears parsed
  | stopAndJoin => exact sound.stopAndJoin hears

def hearsAll : Hears := fun _ _ _ => True

theorem hearing_all (system : SystemTcp) (call : TcpCall) : Hearing hearsAll system call := by
  cases call <;> simp [Hearing, hearsAll]

theorem Sound.step (sound : system.Sound origin) (call : TcpCall) : (system.step call).Sound origin :=
  (sound.observing call).moves (sound.step_moves (system.hearing_all call))

theorem Sound.run (sound : system.Sound origin) (calls : List TcpCall) : (system.run calls).Sound origin := by
  induction calls generalizing system with
  | nil => exact sound
  | cons call rest ih => exact ih (sound.step call)

/-- A table after any calls, over a quarantine with any past. -/
def reachable (history : List PortCall) (maxFlows timeout generation : Nat) (calls : List TcpCall) : SystemTcp :=
  (new maxFlows timeout generation (PortQuarantine.new.run history)).run calls

theorem reachable_sound (history : List PortCall) (maxFlows timeout generation : Nat) (calls : List TcpCall) :
    (reachable history maxFlows timeout generation calls).Sound (PortQuarantine.new.run history).lastNowMillis :=
  (new_sound maxFlows timeout generation (PortQuarantine.new_consistent.run history)).run calls

/-- The translation is a consistent bijection: the indexes, the counters, the lists of slots, the
translated ports and the deadlines all tell the same live and retired mappings. -/
structure Bijective (system : SystemTcp) : Prop where
  forward : ∀ flow slot, system.forward.lookup flow = some slot ↔
    ∃ mapping, system.slots slot = some mapping ∧ mapping.forward = flow
  reverse : ∀ tuple slot, system.reverse.lookup tuple = some slot ↔
    ∃ mapping, system.slots slot = some mapping ∧ mapping.reverse = tuple
  bounded : ∀ slot mapping, system.slots slot = some mapping → slot < system.maxFlows
  active : system.mappings.length = system.active
  forwardLen : system.forward.len = system.active
  reverseLen : system.reverse.len = system.active
  freeDistinct : system.freeSlots.Nodup
  free : ∀ slot, slot ∈ system.freeSlots ↔ slot < system.maxFlows ∧ system.slots slot = none
  livePorts : ∀ slot mapping other another, system.slots slot = some mapping → system.slots other = some another →
    (mapping.family, mapping.translatedPort) = (another.family, another.translatedPort) → slot = other
  retiredPorts : ∀ slot mapping flow retired, system.slots slot = some mapping →
    system.retiredForward.lookup flow = some retired → (mapping.family, mapping.translatedPort) ≠ retired.reverse.identity
  distinctPorts : ∀ flow retired other another, system.retiredForward.lookup flow = some retired →
    system.retiredForward.lookup other = some another → retired.reverse.identity = another.reverse.identity → flow = other
  liveOrRetired : ∀ flow slot, system.forward.lookup flow = some slot → system.retiredForward.lookup flow = none
  pendingDistinct : system.pendingSlots.Nodup
  pending : ∀ slot, slot ∈ system.pendingSlots ↔ ∃ mapping, system.slots slot = some mapping ∧ mapping.pendingFlow = true
  deadline : ∀ slot mapping, system.slots slot = some mapping →
    ∃ due, system.activeDeadlineMillis = some due ∧ due ≤ mapping.deadlineMillis
  asserts : system.assertsHeld = true

/-- Every reachable table translates bijectively, and none of its assertions has failed. -/
theorem reachable_bijective (history : List PortCall) (maxFlows timeout generation : Nat) (calls : List TcpCall) :
    (reachable history maxFlows timeout generation calls).Bijective := by
  obtain ⟨tables, timely, ports, retirement, _, asserts⟩ := reachable_sound history maxFlows timeout generation calls
  refine ⟨tables.forward, tables.reverse, tables.bounded, tables.active_eq, tables.forwardLen, tables.reverseLen,
    tables.freeDistinct, tables.free, ?_, ?_, retirement.distinct, ?_, tables.pendingDistinct, tables.pending, timely.lower,
    asserts⟩
  · intro slot mapping other another live alive same
    rw [ports.translated slot mapping live, ports.translated other another alive] at same
    exact ports.distinct slot mapping other another live alive same
  · intro slot mapping flow retired live found
    rw [ports.translated slot mapping live]
    exact retirement.ports slot mapping flow retired live found
  · intro flow slot found
    obtain ⟨mapping, live, rfl⟩ := (tables.forward flow slot).mp found
    exact retirement.apart slot mapping live

end SystemTcp

end Ferrum.Tun
