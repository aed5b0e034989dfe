import Ferrum.Tun.SystemTcpRun

namespace Ferrum.Tun.SystemTcp

open Option

variable {origin : Int} {hears : Hears} {system next : SystemTcp} {holds : Mapping → Prop} {tuple : ReverseTuple}

def mappingOf (system : SystemTcp) (tuple : ReverseTuple) : Option Mapping :=
  (system.reverse.lookup tuple).bind system.slots

variable {mapping : Mapping}

theorem Sound.mappingOf_eq_some (sound : system.Sound origin) :
    system.mappingOf tuple = some mapping ↔ ∃ slot, system.slots slot = some mapping ∧ mapping.reverse = tuple := by
  unfold mappingOf
  constructor
  · intro found
    obtain ⟨slot, atSlot, live⟩ := bind_eq_some_iff.mp found
    obtain ⟨other, alive, same⟩ := (sound.tables.reverse _ _).mp atSlot
    cases live.symm.trans alive
    exact ⟨slot, live, same⟩
  · rintro ⟨slot, live, rfl⟩
    rw [sound.tables.reverse.lookup live]
    exact live

/-- A mapping as it is after some calls, as long as it has been live all the time. -/
def lifetime (system : SystemTcp) (tuple : ReverseTuple) : List TcpCall → Option Mapping
  | [] => system.mappingOf tuple
  | call :: rest => (system.mappingOf tuple).bind fun _ => (system.step call).lifetime tuple rest

/-- The mapping that was live with this tuple still is, and something holds of it; or its port
cools, so that no other mapping gets this tuple now. -/
def Follows (origin : Int) (holds : Mapping → Prop) (tuple : ReverseTuple) (system : SystemTcp) : Prop :=
  (∃ slot mapping, system.slots slot = some mapping ∧ mapping.reverse = tuple ∧ holds mapping) ∨
    PortQuarantine.Cooling (max origin system.lastNowMillis) (system.quarantine.value tuple.identity.1 tuple.identity.2)

theorem Follows.leads {quarantine : PortQuarantine} {owned : AddressFamily × Port → Prop} (sound : system.Sound origin)
    (follows : Follows origin holds tuple system)
    (leads : PortQuarantine.Leads owned system.lastNowMillis system.quarantine quarantine)
    (slots : next.slots = system.slots) (clock : next.lastNowMillis = system.lastNowMillis) (at_ : next.quarantine = quarantine) :
    Follows origin holds tuple next := by
  rcases follows with live | cooling
  · refine .inl ?_
    rw [slots]
    exact live
  · refine .inr ?_
    rw [clock, at_]
    exact leads.cooling sound.ports.consistent sound.ports.began sound.ports.clock cooling

theorem Follows.keep (follows : Follows origin holds tuple system) (slots : next.slots = system.slots)
    (clock : next.lastNowMillis = system.lastNowMillis) (quarantine : next.quarantine = system.quarantine) :
    Follows origin holds tuple next := by
  unfold Follows
  rw [slots, clock, quarantine]
  exact follows

theorem retireSlot_quarantine {slot : Nat} (live : system.slots slot = some mapping) (now : Int) (preserveRewrite : Bool) :
    (system.retireSlot slot now preserveRewrite).quarantine =
      system.quarantine.step (givingBack mapping now preserveRewrite) := by
  rw [retireSlot_eq live]
  split
  · rw [preserve_quarantine]
    rfl
  · rfl

theorem Follows.retire (sound : system.Sound origin) (follows : Follows origin holds tuple system) {slot : Nat}
    (live : system.slots slot = some mapping) (preserveRewrite : Bool) :
    Follows origin holds tuple (system.retireSlot slot system.lastNowMillis preserveRewrite) := by
  have clock := retireSlot_lastNowMillis system slot system.lastNowMillis preserveRewrite
  have quarantine := retireSlot_quarantine live system.lastNowMillis preserveRewrite
  rcases follows with ⟨other, another, alive, rfl, held⟩ | cooling
  · by_cases here : other = slot
    · subst here
      cases live.symm.trans alive
      refine .inr ?_
      rw [clock, quarantine]
      exact sound.surrender_cooling live preserveRewrite
    · refine .inl ⟨other, another, ?_, rfl, held⟩
      rw [retireSlot_slots live]
      exact update_none_eq_some.mpr ⟨here, alive⟩
  · refine .inr ?_
    rw [clock, quarantine]
    exact (sound.ports.consistent.cooling_step (givingBack_at _ _ _) sound.ports.began sound.ports.clock cooling).1

theorem Follows.move (sound : system.Sound origin) (follows : Follows origin holds tuple system)
    (keeps : ∀ mapping revised, holds mapping → mapping.Revises hears system revised → holds revised)
    (move : Move hears system next) : Follows origin holds tuple next := by
  cases move with
  | revise live revises distinct isPending early =>
    rename_i slot mapping revised pending count due
    rcases follows with ⟨other, another, alive, rfl, held⟩ | cooling
    · by_cases here : other = slot
      · subst here
        cases live.symm.trans alive
        exact .inl ⟨other, revised, update_eq_some.mpr (.inl ⟨rfl, rfl⟩), revises.same.reverse.symm,
          keeps mapping revised held revises⟩
      · exact .inl ⟨other, another, update_eq_some.mpr (.inr ⟨here, alive⟩), rfl, held⟩
    · exact .inr cooling
  | retire preserveRewrite live => exact follows.retire sound live preserveRewrite
  | schedule lower | forget kept unexpired inverse early | clear generation idle => exact follows.keep rfl rfl rfl
  | ports leads | listen epoch unfenced unbound leads listening | stop leads => exact follows.leads sound leads rfl rfl rfl
  | occupy sequence unfenced free absent unretired swept found allocated =>
    rename_i slot rest flow family binding quarantine port
    have leads := (sound.allocate swept allocated).1
    rcases follows with ⟨other, another, alive, rfl, held⟩ | cooling
    · refine .inl ⟨other, another, update_eq_some.mpr (.inr ⟨?_, alive⟩), rfl, held⟩
      rintro rfl
      have empty := ((sound.tables.free other).mp (free ▸ List.mem_cons_self)).2
      simp [empty] at alive
    · exact .inr (leads.cooling sound.ports.consistent sound.ports.began sound.ports.clock cooling)
  | fence notified =>
    rcases follows with ⟨slot, mapping, live, rfl, held⟩ | cooling
    · refine .inl ⟨slot, _, map_eq_some_iff.mpr ⟨mapping, live, rfl⟩, ?_, ?_⟩
      · split <;> rfl
      · split
        · exact keeps mapping _ held (.notify .awaitingKernelReset)
        · exact held
    · exact .inr cooling

theorem Follows.moves (sound : system.Sound origin) (follows : Follows origin holds tuple system)
    (keeps : ∀ between mapping revised, between.Sound origin → between.lastNowMillis = system.lastNowMillis →
      holds mapping → mapping.Revises hears between revised → holds revised)
    (moves : Moves hears system next) : Follows origin holds tuple next := by
  induction moves with
  | refl => exact follows
  | tail before move ih =>
    have between := sound.moves before
    exact ih.move between (fun mapping revised => keeps _ mapping revised between (Moves.lastNowMillis before)) move

theorem Follows.owner_holds (sound : system.Sound origin) (follows : Follows origin holds tuple system)
    (found : system.mappingOf tuple = some mapping) : holds mapping := by
  obtain ⟨slot, live, rfl⟩ := sound.mappingOf_eq_some.mp found
  rcases follows with ⟨other, another, alive, same, held⟩ | cooling
  · have here := sound.tables.reverse.unique live alive same.symm
    subst here
    cases live.symm.trans alive
    exact held
  · exact absurd (sound.ports.live slot mapping live) cooling.ne_active

end Ferrum.Tun.SystemTcp

namespace Ferrum.Tun

open Option

/-- A FIN that reaches a closing mapping without a RST finds the other side's FIN there already. -/
def keepsClosing : Hears := fun mapping applicationDirection flags =>
  mapping.closing = true → flags &&& tcpFin ≠ 0 → flags &&& tcpRst = 0 →
    (if applicationDirection then mapping.listenerFin else mapping.applicationFin) = true

def Mapping.ClosesBy (due : Int) (mapping : Mapping) : Prop := mapping.closing = true ∧ mapping.deadlineMillis ≤ due

theorem Mapping.receive_keeps_closing {mapping : Mapping} {applicationDirection : Bool} {flags : UInt8} {now timeout : Int}
    (heard : keepsClosing mapping applicationDirection flags) (closing : mapping.closing = true) :
    (mapping.receive applicationDirection flags now timeout).closing = true := by
  rw [Mapping.receive_closing]
  split_ifs with reset final
  · rfl
  · have seen := heard closing final (not_not.mp reset)
    cases applicationDirection
    · simpa using seen
    · simpa using seen
  · exact closing

theorem saturatingAdd_one_le {now due : Int} (nonneg : 0 ≤ now) (early : now < due) : saturatingAdd now 1 ≤ due := by
  unfold saturatingAdd i64Min
  omega

namespace SystemTcp

variable {origin : Int} {system next : SystemTcp} {tuple : ReverseTuple}

variable {mapping : Mapping} {due : Int}

theorem Sound.closesBy_revises (sound : system.Sound origin) {revised : Mapping} (closes : mapping.ClosesBy due)
    (revises : mapping.Revises keepsClosing system revised) : revised.ClosesBy due := by
  obtain ⟨closing, bound⟩ := closes
  cases revises with
  | receive applicationDirection flags heard unfenced early =>
    refine ⟨Mapping.receive_keeps_closing heard closing, ?_⟩
    rw [Mapping.receive_deadline]
    split_ifs with reset idle
    · exact (saturatingAdd_one_le sound.timely.clock early).trans bound
    · exact absurd closing idle.2
    · exact bound
  | accept queued unfenced opened => exact absurd closing (by simp [opened])
  | publish | notify => exact ⟨closing, bound⟩

variable {call : TcpCall}

theorem Sound.follow_step (sound : system.Sound origin) (hearing : Hearing keepsClosing system call)
    (found : system.mappingOf tuple = some mapping) (closes : mapping.ClosesBy due) :
    Follows origin (Mapping.ClosesBy due) tuple (system.step call) := by
  obtain ⟨slot, live, same⟩ := sound.mappingOf_eq_some.mp found
  have observed : Follows origin (Mapping.ClosesBy due) tuple (system.observing call) := by
    refine .inl ⟨slot, mapping, ?_, same, closes⟩
    cases call <;> exact live
  exact observed.moves (sound.observing call) (fun between mapping revised held _ => held.closesBy_revises)
    (sound.step_moves hearing)

def HearingAll (hears : Hears) : SystemTcp → List TcpCall → Prop
  | _, [] => True
  | system, call :: rest => Hearing hears system call ∧ HearingAll hears (system.step call) rest

variable {calls : List TcpCall}

theorem Sound.lifetime_closesBy (sound : system.Sound origin) {later : Mapping}
    (hearing : HearingAll keepsClosing system calls) (found : system.mappingOf tuple = some mapping)
    (closes : mapping.ClosesBy due) (lives : system.lifetime tuple calls = some later) : later.ClosesBy due := by
  induction calls generalizing system mapping with
  | nil =>
    cases found.symm.trans lives
    exact closes
  | cons call rest ih =>
    rw [lifetime, found, bind_some] at lives
    have follows := sound.follow_step hearing.1 found closes
    cases next : (system.step call).mappingOf tuple with
    | none => cases rest <;> simp [lifetime, next] at lives
    | some between =>
      exact ih (sound.step call) hearing.2 next (follows.owner_holds (sound.step call) next) lives

def Maintains (system : SystemTcp) : TcpCall → Prop
  | .expire .. => True
  | .rewrite .. => system.fenced = false
  | _ => False

theorem Sound.maintenance_retires (sound : system.Sound origin) (hearing : Hearing keepsClosing system call)
    (found : system.mappingOf tuple = some mapping) (closes : mapping.ClosesBy due) (maintains : system.Maintains call)
    (late : due ≤ (system.observing call).lastNowMillis) : (system.step call).mappingOf tuple = none := by
  have after := sound.step call
  cases gone : (system.step call).mappingOf tuple with
  | none => rfl
  | some later =>
    exfalso
    cases call with
    | expire environment now =>
      have bound := (sound.follow_step hearing found closes).owner_holds after gone
      obtain ⟨slot, live, _⟩ := after.mappingOf_eq_some.mp gone
      have early := (sound.expire keepsClosing environment now).2 slot later live
      exact absurd (bound.2.trans late) (not_le.mpr early)
    | rewrite environment packet parsed admitting now =>
      -- the maintenance comes first, and nothing after it brings the tuple back
      have start := sound.observeTime now
      obtain ⟨moves, early⟩ := start.maintain keepsClosing environment
      obtain ⟨slot, live, same⟩ := sound.mappingOf_eq_some.mp found
      have observed : Follows origin (Mapping.ClosesBy due) tuple (system.observeTime now) :=
        .inl ⟨slot, mapping, live, same, closes⟩
      have follows : Follows origin (Mapping.ClosesBy due) tuple (system.maintained environment now) :=
        observed.moves start (fun between mapping revised held _ => held.closesBy_revises) moves
      have settled := start.moves moves
      have cooling : Follows origin (fun _ => False) tuple (system.maintained environment now) := by
        rcases follows with ⟨other, another, alive, _, bound⟩ | cooling
        · exact absurd (bound.2.trans late) (not_le.mpr (early maintains other another alive))
        · exact .inr cooling
      have ends := cooling.moves settled (fun _ _ _ _ _ impossible => impossible.elim) (sound.rewrite_tail hearing)
      exact ends.owner_holds after gone
    | _ => exact maintains

theorem route_of_reached {packet : List UInt8} {parsed : ParsedIpPacket} {tcp : TcpMetadata} {sequence : U32}
    {admitting applicationDirection : Bool} {slot : Nat} {now : Int}
    (reaches : system.reached parsed tcp sequence = some (slot, applicationDirection)) :
    system.route packet parsed tcp sequence admitting now =
      system.rewriteActive packet parsed slot applicationDirection tcp.flags now := by
  unfold reached at reaches
  unfold route
  dsimp only at reaches ⊢
  cases reversed : system.reverse.lookup ⟨⟨parsed.source, tcp.sourcePort⟩, ⟨parsed.destination, tcp.destinationPort⟩⟩ with
  | some other =>
    simp only [reversed] at reaches ⊢
    cases reaches
    rfl
  | none =>
    simp only [reversed] at reaches ⊢
    cases found : system.forward.lookup ⟨⟨parsed.source, tcp.sourcePort⟩, ⟨parsed.destination, tcp.destinationPort⟩⟩ with
    | none =>
      simp only [found] at reaches
      cases reaches
    | some other =>
      simp only [found] at reaches ⊢
      by_cases repeated : isInitialSyn tcp ∧
          (system.slots other).any (fun mapping => mapping.initialIsn != sequence) = true
      · rw [if_pos repeated] at reaches
        cases reaches
      · rw [if_neg repeated] at reaches ⊢
        cases reaches
        rfl

/-- A packet with RST reaches the live mapping of this tuple while the table is not fenced. -/
def Resets (system : SystemTcp) (tuple : ReverseTuple) : TcpCall → Prop
  | .rewrite environment packet parsed _ now =>
    ∃ tcp sequence slot applicationDirection mapping, parsed.metadataMatches packet.length = true ∧ parsed.transport = .tcp tcp ∧
      tcpSequence packet parsed.transportOffset = .ok sequence ∧ tcp.flags &&& tcpRst ≠ 0 ∧
      (system.maintained environment now).fenced = false ∧
      (system.maintained environment now).reached parsed tcp sequence = some (slot, applicationDirection) ∧
      (system.maintained environment now).slots slot = some mapping ∧ mapping.reverse = tuple
  | _ => False

def resetDue (system : SystemTcp) (call : TcpCall) : Int := saturatingAdd (system.observing call).lastNowMillis 1

theorem Sound.resets (sound : system.Sound origin) (resets : system.Resets tuple call) :
    ∃ mapping, (system.step call).mappingOf tuple = some mapping ∧ mapping.ClosesBy (system.resetDue call) := by
  cases call with
  | rewrite environment packet parsed admitting now =>
    obtain ⟨tcp, sequence, slot, applicationDirection, mapping, matched, isTcp, numbered, reset, unfenced, reaches, live, rfl⟩ :=
      resets
    have clock : (system.maintained environment now).lastNowMillis = (system.observeTime now).lastNowMillis :=
      ((sound.observeTime now).maintain keepsClosing environment).1.lastNowMillis
    have after : (system.rewrite environment packet parsed admitting now).system =
        ((system.maintained environment now).rewriteActive packet parsed slot applicationDirection tcp.flags
          (system.observeTime now).lastNowMillis).system := by
      unfold SystemTcp.rewrite
      simp only [matched, not_true_eq_false, if_false, isTcp, numbered]
      exact congrArg Rewritten.system (route_of_reached reaches)
    have same := mapping.receive_same applicationDirection tcp.flags (system.observeTime now).lastNowMillis
      (system.maintained environment now).timeoutMillis
    have lives : (system.step (.rewrite environment packet parsed admitting now)).slots slot =
        some (mapping.receive applicationDirection tcp.flags (system.observeTime now).lastNowMillis
          (system.maintained environment now).timeoutMillis) := by
      change (system.rewrite environment packet parsed admitting now).system.slots slot = _
      rw [after]
      unfold SystemTcp.rewriteActive
      simp only [live, unfenced, Bool.false_eq_true, if_false, rewriteTo_system]
      exact Function.update_self slot _ _
    refine ⟨_, (sound.step _).mappingOf_eq_some.mpr ⟨slot, lives, same.reverse.symm⟩, ?_, ?_⟩
    · rw [Mapping.receive_closing, if_pos reset]
    · rw [Mapping.receive_deadline, if_pos reset]
      exact le_rfl
  | _ => exact resets.elim

/-- The reset law for the calls that follow a state: a closing mapping stays closing and its
deadline never grows, a RST makes its mapping due one millisecond later, and the next maintenance
from then on retires it. -/
structure ResetLaw (system : SystemTcp) (calls : List TcpCall) : Prop where
  closing : ∀ tuple mapping later, system.mappingOf tuple = some mapping → mapping.closing = true →
    system.lifetime tuple calls = some later → later.closing = true ∧ later.deadlineMillis ≤ mapping.deadlineMillis
  reset : ∀ tuple call rest, calls = call :: rest → system.Resets tuple call →
    (∃ mapping, (system.step call).mappingOf tuple = some mapping ∧ mapping.ClosesBy (system.resetDue call)) ∧
    ∀ later, (system.step call).lifetime tuple rest = some later → later.ClosesBy (system.resetDue call)
  retired : ∀ tuple call rest last, calls = call :: rest ++ [last] → system.Resets tuple call →
    ((system.step call).run rest).Maintains last →
    system.resetDue call ≤ (((system.step call).run rest).observing last).lastNowMillis →
    (system.step call).lifetime tuple (rest ++ [last]) = none

theorem lifetime_snoc {last : TcpCall} (lives : system.lifetime tuple (calls ++ [last]) = some mapping) :
    ((system.run calls).step last).mappingOf tuple = some mapping ∧
      ∃ before, system.lifetime tuple calls = some before ∧ (system.run calls).mappingOf tuple = some before := by
  induction calls generalizing system with
  | nil =>
    obtain ⟨before, found, after⟩ := bind_eq_some_iff.mp lives
    exact ⟨after, before, found, found⟩
  | cons call rest ih =>
    obtain ⟨start, found, lives⟩ := bind_eq_some_iff.mp lives
    obtain ⟨after, before, kept, last⟩ := ih lives
    refine ⟨after, before, ?_, last⟩
    rw [lifetime, found]
    exact kept

theorem HearingAll.last {hears : Hears} {last : TcpCall} (hearing : HearingAll hears system (calls ++ [last])) :
    HearingAll hears system calls ∧ Hearing hears (system.run calls) last := by
  induction calls generalizing system with
  | nil => exact ⟨trivial, hearing.1⟩
  | cons call rest ih =>
    obtain ⟨onward, ends⟩ := ih hearing.2
    exact ⟨⟨hearing.1, onward⟩, ends⟩

theorem Sound.resetLaw (sound : system.Sound origin) (hearing : HearingAll keepsClosing system calls) :
    system.ResetLaw calls := by
  refine ⟨?_, ?_, ?_⟩
  · intro tuple mapping later found closing lives
    exact sound.lifetime_closesBy hearing found ⟨closing, le_rfl⟩ lives
  · rintro tuple call rest rfl resets
    obtain ⟨mapping, found, closes⟩ := sound.resets resets
    exact ⟨⟨mapping, found, closes⟩, fun later lives =>
      (sound.step call).lifetime_closesBy hearing.2 found closes lives⟩
  · rintro tuple call rest last rfl resets maintains late
    obtain ⟨mapping, found, closes⟩ := sound.resets resets
    obtain ⟨onward, ends⟩ := HearingAll.last hearing.2
    cases lives : (system.step call).lifetime tuple (rest ++ [last]) with
    | none => rfl
    | some later =>
      obtain ⟨after, before, kept, atLast⟩ := lifetime_snoc lives
      have bound := (sound.step call).lifetime_closesBy onward found closes kept
      have gone := ((sound.step call).run rest).maintenance_retires ends atLast bound maintains late
      simp [gone] at after

/-- In every run after any reachable state, the reset law holds as long as no FIN without a RST
reaches a closing mapping that has not seen the FIN of the other side. -/
theorem reset_law_of_keepsClosing (history : List PortCall) (maxFlows timeout generation : Nat) (before calls : List TcpCall)
    (hearing : HearingAll keepsClosing (reachable history maxFlows timeout generation before) calls) :
    (reachable history maxFlows timeout generation before).ResetLaw calls :=
  (reachable_sound history maxFlows timeout generation before).resetLaw hearing

/-- Nothing happens outside the table. -/
def quietEnvironment : TcpEnvironment where
  flowChanged := false
  flowSwapped := false
  flowDropped := fun _ => false
  fenceFails := fun _ => false
  accepted := []
  drainSend := fun _ => .ok
  droppedAccepts := 0

/-- A segment from 10.0.0.2, port 40000, to port 80 of 93.184.216.34, with its checksums. -/
def sampleSegment (flags : UInt8) : List UInt8 :=
  [69, 0, 0, 40, 0, 0, 0, 0, 64, 6, 58, 244, 10, 0, 0, 2, 93, 184, 216, 34,
    156, 64, 0, 80, 0, 0, 0, 1, 0, 0, 0, 0, 80, flags, 4, 0, 207, 118 - flags, 0, 0]

def sampleParsed (flags : UInt8) : ParsedIpPacket :=
  ⟨.ipv4, .v4 (.new 10 0 0 2), .v4 (.new 93 184 216 34), ipProtocolTcp, 9, 20, 40, .tcp ⟨40000, 80, 20, flags⟩⟩

def samplePacketCall (flags : UInt8) (now : Int) : TcpCall :=
  .rewrite quietEnvironment (sampleSegment flags) (sampleParsed flags) true now

/-- A listener on 10.0.0.2, port 8080, with the synthetic peer 10.0.0.1. -/
def sampleListen : TcpCall := .start (some ⟨.ipv4, .v4 (.new 10 0 0 2), .v4 (.new 10 0 0 1), [8080], rfl, rfl⟩) none true

def sampleTuple : ReverseTuple := ⟨⟨.v4 (.new 10 0 0 2), 8080⟩, ⟨.v4 (.new 10 0 0 1), 49152⟩⟩

def sampleEstablished : List TcpCall :=
  [sampleListen, samplePacketCall tcpSyn 1000, .processAccepts [⟨2, sampleTuple.listener, sampleTuple.peer, true, .ok⟩] 1000]

theorem sampleReset_law : (reachable [] 4 60000 1 sampleEstablished).ResetLaw
    [samplePacketCall tcpRst 1000, .expire quietEnvironment 1001] := by
  refine reset_law_of_keepsClosing [] 4 60000 1 sampleEstablished _ ⟨?_, trivial, trivial⟩
  intro tcp sequence slot applicationDirection mapping _ isTcp _ _ _ _ _ _ noReset
  cases isTcp
  exact absurd noReset (by decide)

/-- A FIN in the millisecond of the RST opens the mapping again, and the next segment gives it a
whole new timeout. -/
theorem not_reset_law_after_fin : ¬(reachable [] 4 60000 1 (sampleEstablished ++ [samplePacketCall tcpRst 1000])).ResetLaw
    [samplePacketCall (tcpFin ||| tcpAck) 1000, samplePacketCall tcpAck 1000] := by
  intro law
  have before : ((reachable [] 4 60000 1 (sampleEstablished ++ [samplePacketCall tcpRst 1000])).mappingOf sampleTuple).map
      (fun mapping => (mapping.closing, mapping.deadlineMillis)) = some (true, 1001) := by decide +kernel
  have after : ((reachable [] 4 60000 1 (sampleEstablished ++ [samplePacketCall tcpRst 1000])).lifetime sampleTuple
      [samplePacketCall (tcpFin ||| tcpAck) 1000, samplePacketCall tcpAck 1000]).map
      (fun mapping => (mapping.closing, mapping.deadlineMillis)) = some (false, 61000) := by decide +kernel
  obtain ⟨mapping, found, isClosing⟩ := map_eq_some_iff.mp before
  obtain ⟨later, lives, isOpen⟩ := map_eq_some_iff.mp after
  have kept := (law.closing sampleTuple mapping later found (congrArg Prod.fst isClosing) lives).1
  exact absurd (kept.symm.trans (congrArg Prod.fst isOpen)) (by decide)

end SystemTcp

end Ferrum.Tun
