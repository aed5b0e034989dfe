import Ferrum.Tun.SystemTcpReset

namespace Ferrum.Tun

/-- A tuple of this listener: its packets go between the listener and its synthetic peer. -/
def Binding.Translates (binding : Binding) (tuple : ReverseTuple) : Prop :=
  tuple.listener = binding.listener ∧ tuple.peer.ip = binding.peer

namespace SystemTcp

variable {origin : Int} {hears : Hears} {system next : SystemTcp}

/-- While the table is not fenced, every live or retired tuple is of one of its listeners. -/
structure Bound (system : SystemTcp) : Prop where
  live : system.fenced = false → ∀ slot mapping, system.slots slot = some mapping →
    ∃ binding ∈ system.bindings, binding.Translates mapping.reverse
  retired : system.fenced = false → ∀ flow retired, system.retiredForward.lookup flow = some retired →
    ∃ binding ∈ system.bindings, binding.Translates retired.reverse

theorem new_bound (maxFlows timeout generation : Nat) (quarantine : PortQuarantine) :
    (new maxFlows timeout generation quarantine).Bound where
  live := fun _ _ _ => nofun
  retired := fun _ _ _ => nofun

theorem Bound.preserve (bound : system.Bound) {mapping : Mapping} {expiresAt : Int}
    (translated : system.fenced = false → ∃ binding ∈ system.bindings, binding.Translates mapping.reverse) :
    (system.preserve mapping expiresAt).Bound := by
  refine ⟨bound.live, fun unfenced flow retired found => ?_⟩
  change (system.retiredForward.insert mapping.forward _).lookup flow = some retired at found
  rw [HashMap.lookup_insert_eq] at found
  split at found
  · cases found
    exact translated unfenced
  · exact bound.retired unfenced flow retired found

theorem Bound.retireSlot (bound : system.Bound) {slot : Nat} {mapping : Mapping} (live : system.slots slot = some mapping)
    (now : Int) (preserveRewrite : Bool) : (system.retireSlot slot now preserveRewrite).Bound := by
  have surrendered : (system.surrender slot mapping now preserveRewrite).Bound := by
    refine ⟨fun unfenced other another alive => ?_, bound.retired⟩
    exact bound.live unfenced other another (update_none_eq_some.mp alive).2
  have translated : (system.surrender slot mapping now preserveRewrite).fenced = false →
      ∃ binding ∈ (system.surrender slot mapping now preserveRewrite).bindings, binding.Translates mapping.reverse := by
    rw [surrender_fenced, surrender_bindings]
    exact fun unfenced => bound.live unfenced slot mapping live
  rw [retireSlot_eq live]
  split
  · exact surrendered.preserve translated
  · exact surrendered

theorem Bound.move (bound : system.Bound) (move : Move hears system next) : next.Bound := by
  cases move with
  | revise live revises distinct isPending early =>
    rename_i slot mapping revised pending count due
    refine ⟨fun unfenced other another after => ?_, bound.retired⟩
    rcases update_eq_some.mp after with ⟨_, isNew⟩ | ⟨_, old⟩
    · cases isNew
      rw [← revises.same.reverse]
      exact bound.live unfenced slot mapping live
    · exact bound.live unfenced other another old
  | retire preserveRewrite live => exact bound.retireSlot live _ preserveRewrite
  | schedule lower | ports leads => exact ⟨bound.live, bound.retired⟩
  | forget kept unexpired inverse early =>
    exact ⟨bound.live, fun unfenced flow retired found => bound.retired unfenced flow retired (kept flow retired found)⟩
  | listen epoch unfenced unbound leads listening =>
    -- before the listeners start there are no tuples
    refine ⟨fun _ slot mapping live => ?_, fun _ flow retired found => ?_⟩
    · obtain ⟨binding, member, _⟩ := bound.live unfenced slot mapping live
      rw [unbound] at member
      exact absurd member List.not_mem_nil
    · obtain ⟨binding, member, _⟩ := bound.retired unfenced flow retired found
      rw [unbound] at member
      exact absurd member List.not_mem_nil
  | occupy sequence unfenced free absent unretired swept found allocated =>
    refine ⟨fun _ other another after => ?_, bound.retired⟩
    rcases update_eq_some.mp after with ⟨_, isNew⟩ | ⟨_, old⟩
    · cases isNew
      exact ⟨_, (binding_eq_some found).1, rfl, rfl⟩
    · exact bound.live unfenced other another old
  | fence | clear | stop => exact ⟨nofun, nofun⟩

theorem Bound.moves (bound : system.Bound) (moves : Moves hears system next) : next.Bound := by
  induction moves with
  | refl => exact bound
  | tail _ move ih => exact ih.move move

theorem Bound.step (bound : system.Bound) (sound : system.Sound origin) (call : TcpCall) : (system.step call).Bound := by
  have observed : (system.observing call).Bound := by
    cases call <;> exact ⟨bound.live, bound.retired⟩
  exact observed.moves (sound.step_moves (system.hearing_all call))

theorem Bound.run (bound : system.Bound) (sound : system.Sound origin) (calls : List TcpCall) : (system.run calls).Bound := by
  induction calls generalizing system with
  | nil => exact bound
  | cons call rest ih => exact ih (bound.step sound call) (sound.step call)

theorem reachable_bound (history : List PortCall) (maxFlows timeout generation : Nat) (calls : List TcpCall) :
    (reachable history maxFlows timeout generation calls).Bound :=
  (new_bound maxFlows timeout generation _).run
    (new_sound maxFlows timeout generation (PortQuarantine.new_consistent.run history)) calls

def SameMode (system next : SystemTcp) : Prop := next.fenced = system.fenced ∧ next.bindings = system.bindings

theorem SameMode.trans {last : SystemTcp} (first : system.SameMode next) (second : next.SameMode last) :
    system.SameMode last :=
  ⟨second.1.trans first.1, second.2.trans first.2⟩

theorem retireSlot_sameMode (system : SystemTcp) (slot : Nat) (now : Int) (preserveRewrite : Bool) :
    system.SameMode (system.retireSlot slot now preserveRewrite) := by
  cases live : system.slots slot with
  | none =>
    simp only [retireSlot, live]
    exact ⟨rfl, rfl⟩
  | some mapping =>
    refine ⟨retireSlot_fenced live now preserveRewrite, ?_⟩
    rw [retireSlot_eq live]
    split <;> simp

theorem processAccept_sameMode (system : SystemTcp) (now : Int) (accepted : AcceptedSocket) :
    system.SameMode (system.processAccept now accepted) := by
  unfold processAccept
  split
  · exact ⟨rfl, rfl⟩
  · rename_i slot found
    split
    · exact ⟨rfl, rfl⟩
    · rename_i mapping live
      split
      · exact ⟨rfl, rfl⟩
      · dsimp only
        split
        · exact ⟨rfl, rfl⟩
        · exact ⟨rfl, rfl⟩
        · have placed : system.SameMode (system.setSlot slot (some { mapping with
            established := true
            deadlineMillis := deadline now system.timeoutMillis
            socket := some ⟨system.generation⟩ })) := ⟨rfl, rfl⟩
          exact placed.trans (retireSlot_sameMode _ _ _ _)

theorem drainLoop_sameMode (send : Nat → SendResult) (now : Int) (turns : Nat) (system : SystemTcp) (worked : Bool) :
    system.SameMode (drainLoop send now turns system worked).1 := by
  induction turns generalizing system worked with
  | zero => exact ⟨rfl, rfl⟩
  | succ turns ih =>
    unfold drainLoop
    split
    · exact ⟨rfl, rfl⟩
    · rename_i slot rest head
      have popped : system.SameMode { system with pendingSlots := rest } := ⟨rfl, rfl⟩
      dsimp only
      split
      · exact popped.trans (ih _ _)
      · rename_i mapping live
        have taken : system.SameMode
            ({ system with pendingSlots := rest }.setSlot slot (some { mapping with pendingFlow := false })) := ⟨rfl, rfl⟩
        split
        · exact (popped.trans (retireSlot_sameMode _ _ _ _)).trans (ih _ _)
        · split
          · exact popped.trans (ih _ _)
          · split
            · exact taken.trans (ih _ _)
            · exact ⟨rfl, rfl⟩
            · exact (taken.trans (retireSlot_sameMode _ _ _ _)).trans (ih _ _)

theorem foldl_sameMode {α : Type} {β : Type} (view : β → SystemTcp) (body : β → α → β)
    (turn : ∀ state item, (view state).SameMode (view (body state item))) (items : List α) (state : β) :
    (view state).SameMode (view (items.foldl body state)) := by
  induction items generalizing state with
  | nil => exact ⟨rfl, rfl⟩
  | cons first rest ih => exact (turn state first).trans (ih (body state first))

theorem expire_sameMode (system : SystemTcp) (environment : TcpEnvironment) (now : Int) :
    system.SameMode (system.expire environment now).1 := by
  unfold expire
  dsimp only
  have observed : system.SameMode (system.observeTime now) := ⟨rfl, rfl⟩
  generalize system.observeTime now = first at *
  have accepted : system.SameMode (first.processAccepts environment.accepted first.lastNowMillis).1 :=
    observed.trans (foldl_sameMode id _ (fun state accepted => state.processAccept_sameMode _ accepted) _ _)
  generalize (first.processAccepts environment.accepted first.lastNowMillis).1 = second at *
  have drained : system.SameMode (second.drainPendingFlows environment.drainSend first.lastNowMillis).1 := by
    refine accepted.trans ?_
    unfold drainPendingFlows
    split
    · exact ⟨rfl, rfl⟩
    · exact drainLoop_sameMode _ _ _ _ _
  generalize (second.drainPendingFlows environment.drainSend first.lastNowMillis).1 = third at *
  have finish : ∀ fourth, system.SameMode fourth → system.SameMode { (fourth.reapRetired first.lastNowMillis).1 with
      quarantine := ((fourth.reapRetired first.lastNowMillis).1.quarantine.reap first.lastNowMillis).1 } := by
    intro fourth same
    have reaped := fourth.reapRetired_sameLive first.lastNowMillis
    exact same.trans ⟨reaped.fenced, reaped.bindings⟩
  split
  · refine finish _ (drained.trans ?_)
    refine foldl_sameMode Prod.fst _ (fun state slot => ?_) _ (third, false)
    split
    · exact ⟨rfl, rfl⟩
    · split
      · exact retireSlot_sameMode _ _ _ _
      · exact ⟨rfl, rfl⟩
  · exact finish _ drained

theorem maintained_sameMode (system : SystemTcp) (environment : TcpEnvironment) (now : Int) :
    system.SameMode (system.maintained environment now) := by
  unfold maintained maintain
  split
  · have observed : system.SameMode (system.observeTime now) := ⟨rfl, rfl⟩
    exact observed.trans (expire_sameMode _ _ _)
  · exact ⟨rfl, rfl⟩

end SystemTcp

def ParsedIpPacket.flow (parsed : ParsedIpPacket) (tcp : TcpMetadata) : FlowTuple :=
  ⟨⟨parsed.source, tcp.sourcePort⟩, ⟨parsed.destination, tcp.destinationPort⟩⟩

def FlowTuple.reversed (flow : FlowTuple) : ReverseTuple := ⟨flow.source, flow.target⟩

namespace SystemTcp

variable {origin : Int} {system next : SystemTcp}

/-- A mapping of this flow to this tuple is live, or retired and not yet expired. -/
def Holds (system : SystemTcp) (flow : FlowTuple) (tuple : ReverseTuple) : Prop :=
  (∃ slot mapping, system.slots slot = some mapping ∧ mapping.forward = flow ∧ mapping.reverse = tuple) ∨
    ∃ retired, system.retiredForward.lookup flow = some retired ∧ retired.reverse = tuple ∧
      system.lastNowMillis < retired.expiresAt

variable {flow : FlowTuple}

theorem Sound.holds_unique (sound : system.Sound origin) {other : FlowTuple} {tuple another : ReverseTuple}
    (held : system.Holds flow tuple) (also : system.Holds other another) (same : tuple.peer = another.peer) :
    flow = other := by
  have identity : tuple.identity = another.identity := by
    unfold ReverseTuple.identity
    rw [same]
  rcases held with ⟨slot, mapping, live, rfl, rfl⟩ | ⟨retired, found, rfl, _⟩
  · rcases also with ⟨second, third, alive, rfl, rfl⟩ | ⟨old, before, rfl, _⟩
    · have here := sound.ports.distinct slot mapping second third live alive identity
      subst here
      cases live.symm.trans alive
      rfl
    · exact absurd identity (sound.retirement.ports slot mapping other old live before)
  · rcases also with ⟨second, third, alive, rfl, rfl⟩ | ⟨old, before, rfl, _⟩
    · exact absurd identity.symm (sound.retirement.ports second third flow retired alive found)
    · exact sound.retirement.distinct flow retired other old found before identity

/-- A rewritten application packet goes from a synthetic peer to its listener, and the mapping that
says so is live, or retired and unexpired. -/
def SendsToListener (system : SystemTcp) (parsed : ParsedIpPacket) (flow : FlowTuple) (packet : List UInt8)
    (answer : Rewritten) : Prop :=
  ∃ binding ∈ system.bindings, ∃ port,
    answer.packet = (rewriteTuple packet parsed ⟨⟨binding.peer, port⟩, binding.listener⟩).1 ∧
    answer.system.Holds flow ⟨binding.listener, ⟨binding.peer, port⟩⟩

variable {parsed : ParsedIpPacket} {packet : List UInt8}

theorem sendsToListener_of {answer : Rewritten} {tuple : ReverseTuple}
    (translated : ∃ binding ∈ system.bindings, binding.Translates tuple)
    (rewritten : answer.packet = (rewriteTuple packet parsed ⟨tuple.peer, tuple.listener⟩).1)
    (held : answer.system.Holds flow tuple) : system.SendsToListener parsed flow packet answer := by
  obtain ⟨binding, member, atListener, atPeer⟩ := translated
  obtain ⟨listener, ip, port⟩ := tuple
  cases atListener
  cases atPeer
  exact ⟨binding, member, port, rewritten, held⟩

variable {sequence : U32}

theorem admitFlow_sends (accepted : (system.admitFlow packet parsed flow sequence system.lastNowMillis).result = .ok ()) :
    system.SendsToListener parsed flow packet (system.admitFlow packet parsed flow sequence system.lastNowMillis) := by
  have same := system.reapRetired_sameLive system.lastNowMillis
  revert accepted
  unfold SystemTcp.admitFlow
  dsimp only
  generalize (system.reapRetired system.lastNowMillis).1 = settled at *
  split
  · exact nofun
  · split
    · exact nofun
    · rename_i binding found
      split
      · exact nofun
      · rename_i quarantine port allocated
        split
        · exact nofun
        · rename_i slot rest free
          intro accepted
          exact ⟨binding, same.bindings ▸ (binding_eq_some found).1, port, rfl, .inl ⟨slot,
            freshMapping flow ⟨binding.listener, ⟨binding.peer, port⟩⟩ (.fromIpFamily parsed.family) port sequence
              (deadline system.lastNowMillis settled.timeoutMillis),
            update_eq_some.mpr (.inl ⟨rfl, rfl⟩), rfl, rfl⟩⟩

variable {tcp : TcpMetadata} {admitting : Bool}

theorem Sound.route_sends (sound : system.Sound origin) (bound : system.Bound) (unfenced : system.fenced = false)
    (absent : system.reverse.lookup (parsed.flow tcp).reversed = none)
    (unretired : (system.retiredReversePlan (parsed.flow tcp).reversed system.lastNowMillis).2 = none)
    (accepted : (system.route packet parsed tcp sequence admitting system.lastNowMillis).result = .ok ()) :
    system.SendsToListener parsed (parsed.flow tcp) packet
      (system.route packet parsed tcp sequence admitting system.lastNowMillis) := by
  revert accepted
  unfold SystemTcp.route
  unfold ParsedIpPacket.flow FlowTuple.reversed at absent unretired
  dsimp only at absent unretired ⊢
  rw [absent]
  dsimp only
  split
  · rename_i slot found
    obtain ⟨mapping, live, same⟩ := (sound.tables.forward _ _).mp found
    split
    · exact nofun
    · intro accepted
      unfold SystemTcp.rewriteActive
      simp only [live, unfenced, Bool.false_eq_true, if_false]
      have kept := mapping.receive_same true tcp.flags system.lastNowMillis system.timeoutMillis
      refine sendsToListener_of (bound.live unfenced slot mapping live) ?_ (.inl ⟨slot, _,
        update_eq_some.mpr (.inl ⟨rfl, rfl⟩), kept.forward.symm.trans same, kept.reverse.symm⟩)
      rw [kept.reverse]
      rfl
  · have firstMoves := sound.retiredReversePlan hearsAll
      ⟨⟨parsed.source, tcp.sourcePort⟩, ⟨parsed.destination, tcp.destinationPort⟩⟩
    have firstSame := system.retiredReversePlan_sameLive
      ⟨⟨parsed.source, tcp.sourcePort⟩, ⟨parsed.destination, tcp.destinationPort⟩⟩ system.lastNowMillis
    split
    · rename_i settled plan answered
      rw [answered] at unretired
      cases unretired
    · rename_i settled answered
      rw [answered] at firstMoves firstSame
      dsimp only at firstMoves firstSame
      have clock := firstMoves.lastNowMillis
      have settledBound := bound.moves firstMoves
      have settledSound := sound.moves firstMoves
      split
      · rename_i last plan also
        split
        · exact nofun
        · intro _
          unfold SystemTcp.retiredForwardPlan at also
          split at also
          · cases also
          · rename_i retired found
            split at also
            · rename_i late
              cases also
              have planned := (settledSound.retirement.plans _ retired found).1
              obtain ⟨binding, member, translated⟩ :=
                settledBound.retired (firstSame.fenced.trans unfenced) _ retired found
              rw [firstSame.bindings] at member
              refine sendsToListener_of ⟨binding, member, translated⟩ ?_
                (.inr ⟨retired, found, rfl, by rw [rewriteTo_system, clock]; exact late⟩)
              rw [← planned]
              rfl
            · cases also
      · rename_i last also
        have secondMoves := settledSound.retiredForwardPlan hearsAll
          ⟨⟨parsed.source, tcp.sourcePort⟩, ⟨parsed.destination, tcp.destinationPort⟩⟩
        have secondSame := settled.retiredForwardPlan_sameLive
          ⟨⟨parsed.source, tcp.sourcePort⟩, ⟨parsed.destination, tcp.destinationPort⟩⟩ system.lastNowMillis
        rw [clock, also] at secondMoves
        rw [also] at secondSame
        dsimp only at secondMoves secondSame
        split
        · exact nofun
        · split
          · exact nofun
          · intro accepted
            have lastClock := secondMoves.lastNowMillis.trans clock
            rw [← lastClock] at accepted ⊢
            obtain ⟨binding, member, port, rewritten, held⟩ := admitFlow_sends accepted
            rw [(firstSame.trans secondSame).bindings] at member
            exact ⟨binding, member, port, rewritten, held⟩

/-- The packet goes back from the target of the flow to its source. -/
def Returns (flow : FlowTuple) (parsed : ParsedIpPacket) (packet : List UInt8) (answer : Rewritten) : Prop :=
  answer.packet = (rewriteTuple packet parsed ⟨flow.target, flow.source⟩).1 ∧
    answer.result = (rewriteTuple packet parsed ⟨flow.target, flow.source⟩).2

/-- The table answers for this mapping: it is live in an open table or waits for its reset, or it
is retired, unexpired, and no live flow goes from the listener to the synthetic peer itself. -/
def Answers (system : SystemTcp) (flow : FlowTuple) (tuple : ReverseTuple) : Prop :=
  (∃ slot mapping, system.slots slot = some mapping ∧ mapping.forward = flow ∧ mapping.reverse = tuple ∧
    (system.fenced = false ∨ mapping.awaitsReset = true)) ∨
  ∃ retired, system.retiredForward.lookup flow = some retired ∧ retired.reverse = tuple ∧
    system.lastNowMillis < retired.expiresAt ∧ system.forward.lookup ⟨tuple.listener, tuple.peer⟩ = none

/-- The mapping is live, but the table is fenced and the mapping does not wait for its reset. -/
def Silences (system : SystemTcp) (flow : FlowTuple) (tuple : ReverseTuple) : Prop :=
  ∃ slot mapping, system.slots slot = some mapping ∧ mapping.forward = flow ∧ mapping.reverse = tuple ∧
    system.fenced = true ∧ mapping.awaitsReset = false

theorem route_of_reverse {slot : Nat} {now : Int} (found : system.reverse.lookup (parsed.flow tcp).reversed = some slot) :
    system.route packet parsed tcp sequence admitting now =
      system.rewriteActive packet parsed slot false tcp.flags now := by
  apply route_of_reached
  unfold reached
  unfold ParsedIpPacket.flow FlowTuple.reversed at found
  dsimp only at found ⊢
  rw [found]

section

variable (sound : system.Sound origin)
include sound

theorem Sound.route_returns (answers : system.Answers flow (parsed.flow tcp).reversed) :
    Returns flow parsed packet (system.route packet parsed tcp sequence admitting system.lastNowMillis) := by
  rcases answers with ⟨slot, mapping, live, rfl, same, mode⟩ | ⟨retired, found, same, late, free⟩
  · rw [route_of_reverse ((sound.tables.reverse _ _).mpr ⟨mapping, live, same⟩)]
    unfold SystemTcp.rewriteActive
    rw [live]
    dsimp only
    split
    · rename_i fenced
      have awaits : mapping.awaitsReset = true := mode.resolve_left (by simp [fenced])
      unfold rewriteFenced
      rw [if_neg (by simp [awaits])]
      exact ⟨rfl, rfl⟩
    · have kept := mapping.receive_same false tcp.flags system.lastNowMillis system.timeoutMillis
      unfold Returns
      rw [kept.forward]
      exact ⟨rfl, rfl⟩
  · have unreversed : system.reverse.lookup (parsed.flow tcp).reversed = none := by
      by_contra present
      obtain ⟨slot, atSlot⟩ := Option.ne_none_iff_exists'.mp present
      obtain ⟨mapping, live, owns⟩ := (sound.tables.reverse _ _).mp atSlot
      exact sound.retirement.ports slot mapping flow retired live found (congrArg ReverseTuple.identity (owns.trans same.symm))
    have indexed : system.retiredReverse.lookup (parsed.flow tcp).reversed = some flow :=
      (sound.retirement.reverse _ _).mpr ⟨retired, found, same⟩
    have planned := (sound.retirement.plans flow retired found).2
    unfold SystemTcp.route
    unfold ParsedIpPacket.flow FlowTuple.reversed at unreversed indexed free
    dsimp only at unreversed indexed free ⊢
    rw [unreversed, free]
    unfold SystemTcp.retiredReversePlan
    rw [indexed]
    dsimp only
    rw [found]
    dsimp only
    rw [if_pos late]
    dsimp only
    rw [planned]
    exact ⟨rfl, rfl⟩

theorem Sound.route_silent (silences : system.Silences flow (parsed.flow tcp).reversed) (now : Int) :
    (system.route packet parsed tcp sequence admitting now).packet = packet ∧
      (system.route packet parsed tcp sequence admitting now).result = .error .staleGeneration := by
  obtain ⟨slot, mapping, live, rfl, same, fenced, idle⟩ := silences
  rw [route_of_reverse ((sound.tables.reverse _ _).mpr ⟨mapping, live, same⟩)]
  unfold SystemTcp.rewriteActive rewriteFenced
  rw [live]
  dsimp only
  rw [if_pos fenced, if_pos (.inl (by simp [idle]))]
  exact ⟨rfl, rfl⟩

/-- A packet that `rewrite` takes to its tables: its metadata fit, and it is a TCP segment. -/
structure IsTcp (packet : List UInt8) (parsed : ParsedIpPacket) (tcp : TcpMetadata) : Prop where
  matched : parsed.metadataMatches packet.length = true
  transport : parsed.transport = .tcp tcp
  numbered : ∃ sequence, tcpSequence packet parsed.transportOffset = .ok sequence

theorem Sound.rewrite_eq (isTcp : IsTcp packet parsed tcp) (environment : TcpEnvironment)
    (admitting : Bool) (now : Int) :
    ∃ sequence, system.rewrite environment packet parsed admitting now =
      (system.maintained environment now).route packet parsed tcp sequence admitting
        (system.maintained environment now).lastNowMillis := by
  obtain ⟨matched, transport, sequence, numbered⟩ := isTcp
  have clock : (system.maintained environment now).lastNowMillis = (system.observeTime now).lastNowMillis :=
    ((sound.observeTime now).maintain hearsAll environment).1.lastNowMillis
  refine ⟨sequence, ?_⟩
  rw [clock]
  unfold SystemTcp.rewrite
  simp only [matched, not_true_eq_false, if_false, transport, numbered]
  rfl

theorem Sound.maintained (environment : TcpEnvironment) (now : Int) :
    (system.maintained environment now).Sound origin :=
  (sound.observeTime now).moves ((sound.observeTime now).maintain hearsAll environment).1

end

theorem Bound.maintained (bound : system.Bound) (sound : system.Sound origin) (environment : TcpEnvironment) (now : Int) :
    (system.maintained environment now).Bound := by
  have observed : (system.observeTime now).Bound := ⟨bound.live, bound.retired⟩
  exact observed.moves ((sound.observeTime now).maintain hearsAll environment).1

/-- An accepted packet that no listener sends: its tuple belongs to no live or retired mapping. -/
def Accepts (system : SystemTcp) (environment : TcpEnvironment) (packet : List UInt8) (parsed : ParsedIpPacket)
    (tcp : TcpMetadata) (admitting : Bool) (now : Int) : Prop :=
  IsTcp packet parsed tcp ∧ (system.maintained environment now).reverse.lookup (parsed.flow tcp).reversed = none ∧
    ((system.maintained environment now).retiredReversePlan (parsed.flow tcp).reversed
      (system.maintained environment now).lastNowMillis).2 = none ∧
    (system.rewrite environment packet parsed admitting now).result = .ok ()

/-- From every reachable table an accepted application packet goes to a listener, whose replies go back from the target of
the flow to its source in every later state that answers for the mapping. -/
theorem replies_return (history : List PortCall) (maxFlows timeout generation : Nat) (calls : List TcpCall) :
    ((reachable history maxFlows timeout generation calls).fenced = false →
      ∀ environment packet parsed tcp admitting now,
        (reachable history maxFlows timeout generation calls).Accepts environment packet parsed tcp admitting now →
        ∃ binding ∈ (reachable history maxFlows timeout generation calls).bindings, ∃ port,
          ((reachable history maxFlows timeout generation calls).rewrite environment packet parsed admitting now).packet =
            (rewriteTuple packet parsed ⟨⟨binding.peer, port⟩, binding.listener⟩).1 ∧
          ((reachable history maxFlows timeout generation calls).rewrite environment packet parsed admitting now).system.Holds
            (parsed.flow tcp) ⟨binding.listener, ⟨binding.peer, port⟩⟩ ∧
          ∀ later surroundings reply replyParsed replyTcp replyAdmitting replyNow, IsTcp reply replyParsed replyTcp →
            replyParsed.flow replyTcp = ⟨binding.listener, ⟨binding.peer, port⟩⟩ →
            ((((reachable history maxFlows timeout generation calls).rewrite environment packet parsed admitting now).system.run
                later).maintained surroundings replyNow).Answers (parsed.flow tcp) ⟨binding.listener, ⟨binding.peer, port⟩⟩ →
              Returns (parsed.flow tcp) replyParsed reply
                ((((reachable history maxFlows timeout generation calls).rewrite environment packet parsed admitting now).system.run
                  later).rewrite surroundings reply replyParsed replyAdmitting replyNow)) ∧
    (∀ environment packet parsed tcp admitting now flow, IsTcp packet parsed tcp →
      ((reachable history maxFlows timeout generation calls).maintained environment now).Silences flow (parsed.flow tcp).reversed →
      ((reachable history maxFlows timeout generation calls).rewrite environment packet parsed admitting now).packet = packet ∧
      ((reachable history maxFlows timeout generation calls).rewrite environment packet parsed admitting now).result =
        .error .staleGeneration) ∧
    ∀ flow other tuple another, (reachable history maxFlows timeout generation calls).Holds flow tuple →
      (reachable history maxFlows timeout generation calls).Holds other another → tuple.peer = another.peer → flow = other := by
  have sound := reachable_sound history maxFlows timeout generation calls
  have bound := reachable_bound history maxFlows timeout generation calls
  generalize reachable history maxFlows timeout generation calls = system at *
  refine ⟨?_, ?_, fun flow other tuple another => sound.holds_unique⟩
  · rintro unfenced environment packet parsed tcp admitting now ⟨isTcp, absent, unretired, accepted⟩
    obtain ⟨sequence, routed⟩ := sound.rewrite_eq isTcp environment admitting now
    have mode := system.maintained_sameMode environment now
    rw [routed] at accepted
    obtain ⟨binding, member, port, rewritten, held⟩ := (sound.maintained environment now).route_sends
      (bound.maintained sound environment now) (mode.1.trans unfenced) absent unretired accepted
    rw [mode.2] at member
    rw [← routed] at rewritten held
    refine ⟨binding, member, port, rewritten, held, ?_⟩
    intro later surroundings reply replyParsed replyTcp replyAdmitting replyNow replyIsTcp endpoints answers
    have after : (system.rewrite environment packet parsed admitting now).system.Sound _ :=
      sound.step (.rewrite environment packet parsed admitting now)
    obtain ⟨second, again⟩ := (after.run later).rewrite_eq replyIsTcp surroundings replyAdmitting replyNow
    rw [again]
    refine ((after.run later).maintained surroundings replyNow).route_returns ?_
    rw [endpoints]
    exact answers
  · intro environment packet parsed tcp admitting now flow isTcp silences
    obtain ⟨sequence, routed⟩ := sound.rewrite_eq isTcp environment admitting now
    rw [routed]
    exact (sound.maintained environment now).route_silent silences _

/-- Every packet from a listener to the endpoint of a live or unexpired mapping goes back. -/
def EveryReplyReturns (system : SystemTcp) : Prop :=
  ∀ environment packet parsed tcp admitting now flow, IsTcp packet parsed tcp →
    (system.maintained environment now).Holds flow (parsed.flow tcp).reversed →
    Returns flow parsed packet (system.rewrite environment packet parsed admitting now)

/-- A segment from the listener on 10.0.0.2, port 8080, to 10.0.0.1, counting ports from 49152. -/
def sampleReply (port flags : UInt8) : List UInt8 :=
  [69, 0, 0, 40, 0, 0, 0, 0, 64, 6, 102, 206, 10, 0, 0, 2, 10, 0, 0, 1,
    31, 144, 192, port, 0, 0, 0, 1, 0, 0, 0, 0, 80, flags, 4, 0, 184, 80 - port - flags, 0, 0]

def sampleReplyTcp (port flags : UInt8) : TcpMetadata := ⟨8080, 49152 + Fin.ofNat 65536 port.toNat, 20, flags⟩

def sampleReplyParsed (port flags : UInt8) : ParsedIpPacket :=
  ⟨.ipv4, .v4 (.new 10 0 0 2), .v4 (.new 10 0 0 1), ipProtocolTcp, 9, 20, 40, .tcp (sampleReplyTcp port flags)⟩

def sampleFlow : FlowTuple := (sampleParsed tcpSyn).flow ⟨40000, 80, 20, tcpSyn⟩

/-- A live flow in a table that was fenced before its socket was accepted. -/
def sampleFenced : SystemTcp :=
  reachable [] 4 60000 1 [sampleListen, samplePacketCall tcpSyn 1000, .fence quietEnvironment 2]

/-- A flow that was reset at 1000 ms, while another flow goes from the listener to its endpoint. -/
def sampleCollision : SystemTcp :=
  reachable [] 4 60000 1 [sampleListen,
    .rewrite quietEnvironment (sampleReply 1 tcpSyn) (sampleReplyParsed 1 tcpSyn) true 1000,
    samplePacketCall tcpSyn 1000, samplePacketCall tcpRst 1000]

theorem not_every_reply_returns : ¬sampleFenced.EveryReplyReturns ∧ ¬sampleCollision.EveryReplyReturns := by
  constructor
  · intro returns
    have live : ((sampleFenced.maintained quietEnvironment 1000).slots 0).map (fun mapping => (mapping.forward, mapping.reverse)) =
        some (sampleFlow, sampleTuple) := by decide +kernel
    obtain ⟨mapping, live, same⟩ := Option.map_eq_some_iff.mp live
    obtain ⟨forward, reverse⟩ := Prod.mk.inj same
    have back := returns quietEnvironment (sampleReply 0 (tcpSyn ||| tcpAck)) (sampleReplyParsed 0 (tcpSyn ||| tcpAck))
      (sampleReplyTcp 0 (tcpSyn ||| tcpAck)) true 1000 sampleFlow ⟨by decide, rfl, 1, by decide⟩
      (.inl ⟨0, mapping, live, forward, reverse⟩)
    exact absurd back.1 (by decide +kernel)
  · intro returns
    have retired : ((sampleCollision.maintained quietEnvironment 1002).retiredForward.lookup sampleFlow).map
        (fun retired => (retired.reverse, retired.expiresAt)) =
        some (((sampleReplyParsed 1 tcpAck).flow (sampleReplyTcp 1 tcpAck)).reversed, 241002) := by decide +kernel
    have clock : (sampleCollision.maintained quietEnvironment 1002).lastNowMillis = 1002 := by decide +kernel
    obtain ⟨old, found, same⟩ := Option.map_eq_some_iff.mp retired
    obtain ⟨reverse, expires⟩ := Prod.mk.inj same
    have back := returns quietEnvironment (sampleReply 1 tcpAck) (sampleReplyParsed 1 tcpAck) (sampleReplyTcp 1 tcpAck) true 1002
      sampleFlow ⟨by decide, rfl, 1, by decide⟩ (.inr ⟨old, found, reverse, by rw [clock, expires]; decide⟩)
    exact absurd back.1 (by decide +kernel)

end SystemTcp

end Ferrum.Tun
