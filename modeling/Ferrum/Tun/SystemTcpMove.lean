import Ferrum.Tun.PortQuarantineRun
import Ferrum.Tun.SystemTcp

namespace Ferrum.Tun

open Option List

def ReverseTuple.identity (reverse : ReverseTuple) : AddressFamily × Port :=
  (reverse.peer.ip.addressFamily, reverse.peer.port)

def Binding.identity (binding : Binding) : AddressFamily × Port := (binding.family, binding.listener.port)

namespace SystemTcp

/-- Both indexes map exactly the live slots, and the lists of free and pending slots are exact. -/
structure Tables (system : SystemTcp) : Prop where
  forward : Indexes system.forward system.slots Mapping.forward
  reverse : Indexes system.reverse system.slots Mapping.reverse
  forwardLen : system.forward.len = system.active
  reverseLen : system.reverse.len = system.active
  bounded : ∀ slot mapping, system.slots slot = some mapping → slot < system.maxFlows
  freeDistinct : system.freeSlots.Nodup
  free : ∀ slot, slot ∈ system.freeSlots ↔ slot < system.maxFlows ∧ system.slots slot = none
  full : system.active + system.freeSlots.length = system.maxFlows
  pendingDistinct : system.pendingSlots.Nodup
  pending : ∀ slot, slot ∈ system.pendingSlots ↔ ∃ mapping, system.slots slot = some mapping ∧ mapping.pendingFlow = true

/-- The active deadline comes before every live deadline, and none is later than a fresh one. -/
structure Timely (system : SystemTcp) : Prop where
  timeout : 0 ≤ system.timeoutMillis
  clock : 0 ≤ system.lastNowMillis
  lower : ∀ slot mapping, system.slots slot = some mapping →
    ∃ due, system.activeDeadlineMillis = some due ∧ due ≤ mapping.deadlineMillis
  upper : ∀ slot mapping, system.slots slot = some mapping →
    mapping.deadlineMillis ≤ deadline system.lastNowMillis system.timeoutMillis

/-- The live mappings and the listeners own their ports, none of them twice. The clock of the
quarantine started at `origin`. -/
structure Ports (origin : Int) (system : SystemTcp) : Prop where
  consistent : system.quarantine.Consistent
  began : origin ≤ system.quarantine.lastNowMillis
  clock : system.quarantine.lastNowMillis ≤ max origin system.lastNowMillis
  translated : ∀ slot mapping, system.slots slot = some mapping →
    (mapping.family, mapping.translatedPort) = mapping.reverse.identity
  live : ∀ slot mapping, system.slots slot = some mapping →
    system.quarantine.value mapping.reverse.identity.1 mapping.reverse.identity.2 = activePort
  distinct : ∀ slot mapping other another, system.slots slot = some mapping → system.slots other = some another →
    mapping.reverse.identity = another.reverse.identity → slot = other
  listening : ∀ binding ∈ system.bindings, system.quarantine.value binding.identity.1 binding.identity.2 = activePort
  apart : ∀ binding ∈ system.bindings, ∀ slot mapping, system.slots slot = some mapping →
    binding.identity ≠ mapping.reverse.identity

/-- The retired tables are inverse to each other and keep apart from the live ones; the ports of
the retired mappings are withheld until they expire. -/
structure Retirement (origin : Int) (system : SystemTcp) : Prop where
  reverse : ∀ tuple flow, system.retiredReverse.lookup tuple = some flow ↔
    ∃ retired, system.retiredForward.lookup flow = some retired ∧ retired.reverse = tuple
  plans : ∀ flow retired, system.retiredForward.lookup flow = some retired →
    retired.forwardPlan = ⟨retired.reverse.peer, retired.reverse.listener⟩ ∧ retired.reversePlan = ⟨flow.target, flow.source⟩
  due : ∀ flow retired, system.retiredForward.lookup flow = some retired →
    ∃ due, system.retiredDeadlineMillis = some due ∧ due ≤ retired.expiresAt
  apart : ∀ slot mapping, system.slots slot = some mapping → system.retiredForward.lookup mapping.forward = none
  ports : ∀ slot mapping flow retired, system.slots slot = some mapping → system.retiredForward.lookup flow = some retired →
    mapping.reverse.identity ≠ retired.reverse.identity
  distinct : ∀ flow retired other another, system.retiredForward.lookup flow = some retired →
    system.retiredForward.lookup other = some another → retired.reverse.identity = another.reverse.identity → flow = other
  withheld : ∀ flow retired, system.retiredForward.lookup flow = some retired →
    PortQuarantine.Withheld (max retired.expiresAt (origin + 1)) system.quarantine.lastNowMillis
      (system.quarantine.value retired.reverse.identity.1 retired.reverse.identity.2)

/-- Everything that holds of every reachable table. -/
structure Sound (origin : Int) (system : SystemTcp) : Prop where
  tables : system.Tables
  timely : system.Timely
  ports : system.Ports origin
  retirement : system.Retirement origin
  sockets : ∀ slot mapping lease, system.slots slot = some mapping → mapping.socket = some lease →
    lease.generation = system.generation
  asserts : system.assertsHeld = true

theorem new_sound (maxFlows timeout generation : Nat) {quarantine : PortQuarantine} (consistent : quarantine.Consistent) :
    (new maxFlows timeout generation quarantine).Sound quarantine.lastNowMillis := by
  have idle : ∀ slot mapping, (new maxFlows timeout generation quarantine).slots slot ≠ some mapping := fun _ _ => nofun
  have unretired : ∀ flow retired, (new maxFlows timeout generation quarantine).retiredForward.lookup flow ≠ some retired :=
    fun _ _ => nofun
  refine ⟨⟨?_, ?_, rfl, rfl, ?_, nodup_range, ?_, ?_, .nil, ?_⟩, ⟨?_, le_rfl, ?_, ?_⟩,
    ⟨consistent, le_rfl, le_max_left _ _, ?_, ?_, ?_, ?_, ?_⟩, ⟨?_, ?_, ?_, ?_, ?_, ?_, ?_⟩, ?_, rfl⟩
  · exact fun flow slot => iff_of_false nofun fun ⟨mapping, live, _⟩ => idle slot mapping live
  · exact fun tuple slot => iff_of_false nofun fun ⟨mapping, live, _⟩ => idle slot mapping live
  · exact fun slot mapping live => absurd live (idle slot mapping)
  · intro slot
    simp [new]
  · simp [new]
  · exact fun slot => iff_of_false not_mem_nil fun ⟨mapping, live, _⟩ => idle slot mapping live
  · simp [new, i64Max]
  · exact fun slot mapping live => absurd live (idle slot mapping)
  · exact fun slot mapping live => absurd live (idle slot mapping)
  · exact fun slot mapping live => absurd live (idle slot mapping)
  · exact fun slot mapping live => absurd live (idle slot mapping)
  · exact fun slot mapping _ _ live => absurd live (idle slot mapping)
  · exact fun binding member => absurd member not_mem_nil
  · exact fun binding member => absurd member not_mem_nil
  · exact fun tuple flow => iff_of_false nofun fun ⟨retired, found, _⟩ => unretired flow retired found
  · exact fun flow retired found => absurd found (unretired flow retired)
  · exact fun flow retired found => absurd found (unretired flow retired)
  · exact fun slot mapping live => absurd live (idle slot mapping)
  · exact fun slot mapping _ _ live => absurd live (idle slot mapping)
  · exact fun flow retired _ _ found => absurd found (unretired flow retired)
  · exact fun flow retired found => absurd found (unretired flow retired)
  · exact fun slot mapping _ live => absurd live (idle slot mapping)

theorem Tables.active_eq {system : SystemTcp} (tables : system.Tables) : system.mappings.length = system.active := by
  have split := length_eq_length_filter_add (l := List.range system.maxFlows) fun slot => (system.slots slot).isSome
  have free : ((List.range system.maxFlows).filter fun slot => !(system.slots slot).isSome).length = system.freeSlots.length := by
    refine List.Perm.length_eq ((perm_ext_iff_of_nodup (nodup_range.filter _) tables.freeDistinct).mpr ?_)
    intro slot
    rw [tables.free, mem_filter, mem_range, Bool.not_eq_true', isSome_eq_false_iff, isNone_iff_eq_none]
  have live : system.mappings.length = ((List.range system.maxFlows).filter fun slot => (system.slots slot).isSome).length := by
    rw [mappings, length_filterMap_eq_countP, countP_eq_length_filter]
  have full := tables.full
  rw [length_range] at split
  omega

end SystemTcp

/-- What a packet is to its mapping: its direction, and its flags. -/
abbrev Hears := Mapping → Bool → UInt8 → Prop

/-- What can happen to a live mapping that stays live, when only certain packets reach it. -/
inductive Mapping.Revises (hears : Hears) (system : SystemTcp) (mapping : Mapping) : Mapping → Prop
  | receive (applicationDirection : Bool) (flags : UInt8) : hears mapping applicationDirection flags →
      system.fenced = false → system.lastNowMillis < mapping.deadlineMillis →
      Revises hears system mapping (mapping.receive applicationDirection flags system.lastNowMillis system.timeoutMillis)
  | accept (queued : Bool) : system.fenced = false → mapping.closing = false →
      system.lastNowMillis < mapping.deadlineMillis →
      Revises hears system mapping { mapping with
        established := true
        deadlineMillis := deadline system.lastNowMillis system.timeoutMillis
        socket := some ⟨system.generation⟩
        pendingFlow := queued }
  | publish : Revises hears system mapping { mapping with pendingFlow := false }
  | notify (notification : ResetNotification) : Revises hears system mapping { mapping with resetNotification := notification }

/-- Two states of one mapping: the tuples and the port are the same. -/
structure Mapping.Same (mapping other : Mapping) : Prop where
  forward : mapping.forward = other.forward
  reverse : mapping.reverse = other.reverse
  family : mapping.family = other.family
  translatedPort : mapping.translatedPort = other.translatedPort

namespace SystemTcp

def Translates (system : SystemTcp) (identity : AddressFamily × Port) : Prop :=
  ∃ slot mapping, system.slots slot = some mapping ∧ mapping.reverse.identity = identity

def Owns (system : SystemTcp) (identity : AddressFamily × Port) : Prop :=
  system.Translates identity ∨ ∃ binding ∈ system.bindings, binding.identity = identity

/-- The elementary changes of the table at one time, of which every call is made. -/
inductive Move (hears : Hears) : SystemTcp → SystemTcp → Prop
  | revise {system : SystemTcp} {slot : Nat} {mapping revised : Mapping} {pending : List Nat} {count : Nat} {due : Option Int} :
      system.slots slot = some mapping → mapping.Revises hears system revised → pending.Nodup →
      (∀ other, other ∈ pending ↔ if other = slot then revised.pendingFlow = true else other ∈ system.pendingSlots) →
      (∀ early, system.activeDeadlineMillis = some early →
        ∃ earlier, due = some earlier ∧ earlier ≤ early ∧ earlier ≤ revised.deadlineMillis) →
      Move hears system { system.setSlot slot (some revised) with
        pendingSlots := pending, resetOutputsPending := count, activeDeadlineMillis := due }
  | retire {system : SystemTcp} {slot : Nat} {mapping : Mapping} (preserveRewrite : Bool) : system.slots slot = some mapping →
      Move hears system (system.retireSlot slot system.lastNowMillis preserveRewrite)
  | schedule {system : SystemTcp} {due : Option Int} :
      (∀ slot mapping, system.slots slot = some mapping → ∃ early, due = some early ∧ early ≤ mapping.deadlineMillis) →
      Move hears system { system with activeDeadlineMillis := due }
  | forget {system : SystemTcp} {forward : HashMap FlowTuple RetiredMapping} {reverse : HashMap ReverseTuple FlowTuple}
      {due : Option Int} :
      (∀ flow retired, forward.lookup flow = some retired → system.retiredForward.lookup flow = some retired) →
      (∀ flow retired, system.retiredForward.lookup flow = some retired → system.lastNowMillis < retired.expiresAt →
        forward.lookup flow = some retired) →
      (∀ tuple flow, reverse.lookup tuple = some flow ↔
        ∃ retired, forward.lookup flow = some retired ∧ retired.reverse = tuple) →
      (∀ flow retired, forward.lookup flow = some retired → ∃ early, due = some early ∧ early ≤ retired.expiresAt) →
      Move hears system { system with retiredForward := forward, retiredReverse := reverse, retiredDeadlineMillis := due }
  | ports {system : SystemTcp} {quarantine : PortQuarantine} :
      PortQuarantine.Leads system.Owns system.lastNowMillis system.quarantine quarantine →
      Move hears system { system with quarantine }
  | listen {system : SystemTcp} {quarantine : PortQuarantine} {bindings : List Binding} (epoch : Nat) :
      system.fenced = false → system.bindings = [] →
      PortQuarantine.Leads system.Translates system.lastNowMillis system.quarantine quarantine →
      (∀ binding ∈ bindings, quarantine.value binding.identity.1 binding.identity.2 = activePort ∧
        ¬system.Translates binding.identity) →
      Move hears system { system with nextEpoch := epoch, quarantine, bindings }
  | occupy {system : SystemTcp} {slot : Nat} {rest : List Nat} {flow : FlowTuple} {family : AddressFamily} {binding : Binding}
      {quarantine : PortQuarantine} {port : Port} (sequence : U32) : system.fenced = false →
      system.freeSlots = slot :: rest → system.forward.lookup flow = none → system.retiredForward.lookup flow = none →
      (∀ other retired, system.retiredForward.lookup other = some retired → system.lastNowMillis < retired.expiresAt) →
      system.binding family = some binding → system.quarantine.allocate family system.lastNowMillis = (quarantine, some port) →
      Move hears system ({ system with quarantine }.occupy slot rest (freshMapping flow ⟨binding.listener, ⟨binding.peer, port⟩⟩
        family port sequence (deadline system.lastNowMillis system.timeoutMillis)))
  | fence {system : SystemTcp} (notified : Nat → Mapping → Bool) :
      Move hears system { system with
        fenced := true
        slots := fun slot => (system.slots slot).map fun mapping =>
          if notified slot mapping then { mapping with resetNotification := .awaitingKernelReset } else mapping }
  | clear {system : SystemTcp} (generation : Nat) : (∀ slot, system.slots slot = none) →
      Move hears system { system with
        generation, fenced := true, retiredForward := ∅, retiredReverse := ∅, retiredDeadlineMillis := none }
  | stop {system : SystemTcp} {quarantine : PortQuarantine} :
      PortQuarantine.Leads system.Translates system.lastNowMillis system.quarantine quarantine →
      Move hears system { system with fenced := true, bindings := [], quarantine }

end SystemTcp

namespace Mapping

variable (mapping : Mapping) (applicationDirection : Bool) (flags : UInt8) (now timeout : Int)

theorem receive_same : mapping.Same (mapping.receive applicationDirection flags now timeout) := by
  unfold receive
  constructor <;> (dsimp only; split_ifs <;> rfl)

theorem receive_pendingFlow :
    (mapping.receive applicationDirection flags now timeout).pendingFlow = mapping.pendingFlow := by
  unfold receive
  dsimp only
  split_ifs <;> rfl

theorem receive_socket : (mapping.receive applicationDirection flags now timeout).socket = mapping.socket := by
  unfold receive
  dsimp only
  split_ifs <;> rfl

theorem receive_deadline :
    (mapping.receive applicationDirection flags now timeout).deadlineMillis =
      if flags &&& tcpRst ≠ 0 then saturatingAdd now 1
      else if mapping.established ∧ ¬mapping.closing then deadline now timeout else mapping.deadlineMillis := by
  unfold receive
  dsimp only
  split_ifs <;> rfl

theorem receive_closing :
    (mapping.receive applicationDirection flags now timeout).closing =
      if flags &&& tcpRst ≠ 0 then true
      else if flags &&& tcpFin ≠ 0 then
        (mapping.applicationFin || applicationDirection) && (mapping.listenerFin || !applicationDirection)
      else mapping.closing := by
  unfold receive
  dsimp only
  split_ifs <;> simp_all

theorem Revises.same {hears : Hears} {system : SystemTcp} {mapping revised : Mapping}
    (revises : mapping.Revises hears system revised) : mapping.Same revised := by
  cases revises with
  | receive => exact mapping.receive_same _ _ _ _
  | accept | publish | notify => exact ⟨rfl, rfl, rfl, rfl⟩

end Mapping

theorem deadline_mono {now early late : Int} (ordered : early ≤ late) : deadline now early ≤ deadline now late := by
  unfold deadline saturatingAdd
  omega

theorem deadline_zero {now : Int} (nonneg : 0 ≤ now) : deadline now 0 ≤ now := by
  unfold deadline saturatingAdd i64Min i64Max
  omega

namespace SystemTcp

variable {origin : Int} {hears : Hears} {system next : SystemTcp}

theorem Sound.socket_revises (sound : system.Sound origin) {slot : Nat} {mapping revised : Mapping}
    (live : system.slots slot = some mapping) (revises : mapping.Revises hears system revised) {lease : TcpSocketLease}
    (held : revised.socket = some lease) : lease.generation = system.generation := by
  cases revises with
  | receive =>
    rw [Mapping.receive_socket] at held
    exact sound.sockets slot mapping lease live held
  | accept => exact congrArg TcpSocketLease.generation (some.inj held).symm
  | publish | notify => exact sound.sockets slot mapping lease live held

theorem Sound.upper_revises (sound : system.Sound origin) {slot : Nat} {mapping revised : Mapping}
    (live : system.slots slot = some mapping) (revises : mapping.Revises hears system revised) :
    revised.deadlineMillis ≤ deadline system.lastNowMillis system.timeoutMillis := by
  have before := sound.timely.upper slot mapping live
  cases revises with
  | receive applicationDirection flags heard unfenced early =>
    rw [Mapping.receive_deadline]
    split_ifs
    · have positive : 1 ≤ system.timeoutMillis := by
        by_contra short
        have zero : system.timeoutMillis = 0 := by
          have := sound.timely.timeout
          omega
        rw [zero] at before
        have := deadline_zero sound.timely.clock
        omega
      exact deadline_mono positive
    · exact le_rfl
    · exact before
  | accept => exact le_rfl
  | publish | notify => exact before

theorem Sound.revised (sound : system.Sound origin) {slots : Nat → Option Mapping} {pending : List Nat} {count : Nat}
    {due : Option Int} {fenced : Bool}
    (back : ∀ slot revised, slots slot = some revised → ∃ mapping, system.slots slot = some mapping ∧ mapping.Same revised)
    (forth : ∀ slot mapping, system.slots slot = some mapping → ∃ revised, slots slot = some revised ∧ mapping.Same revised)
    (pendingDistinct : pending.Nodup)
    (isPending : ∀ slot, slot ∈ pending ↔ ∃ mapping, slots slot = some mapping ∧ mapping.pendingFlow = true)
    (lower : ∀ slot mapping, slots slot = some mapping → ∃ early, due = some early ∧ early ≤ mapping.deadlineMillis)
    (upper : ∀ slot mapping, slots slot = some mapping →
      mapping.deadlineMillis ≤ deadline system.lastNowMillis system.timeoutMillis)
    (sockets : ∀ slot mapping lease, slots slot = some mapping → mapping.socket = some lease →
      lease.generation = system.generation) :
    { system with
      slots, pendingSlots := pending, resetOutputsPending := count, activeDeadlineMillis := due, fenced }.Sound origin := by
  obtain ⟨tables, timely, ports, retirement, _, asserts⟩ := sound
  have empty : ∀ slot, slots slot = none ↔ system.slots slot = none := by
    intro slot
    constructor
    · intro free
      cases before : system.slots slot with
      | none => rfl
      | some mapping =>
        obtain ⟨revised, after, _⟩ := forth slot mapping before
        simp [free] at after
    · intro free
      cases after : slots slot with
      | none => rfl
      | some revised =>
        obtain ⟨mapping, before, _⟩ := back slot revised after
        simp [free] at before
  refine ⟨⟨?_, ?_, tables.forwardLen, tables.reverseLen, ?_, tables.freeDistinct, ?_, tables.full, pendingDistinct, isPending⟩,
    ⟨timely.timeout, timely.clock, lower, upper⟩,
    ⟨ports.consistent, ports.began, ports.clock, ?_, ?_, ?_, ports.listening, ?_⟩,
    ⟨retirement.reverse, retirement.plans, retirement.due, ?_, ?_, retirement.distinct, retirement.withheld⟩, sockets, asserts⟩
  · refine tables.forward.congr ?_ ?_
    · intro slot revised live
      obtain ⟨mapping, before, same⟩ := back slot revised live
      exact ⟨mapping, before, same.forward⟩
    · intro slot mapping live
      obtain ⟨revised, after, same⟩ := forth slot mapping live
      exact ⟨revised, after, same.forward⟩
  · refine tables.reverse.congr ?_ ?_
    · intro slot revised live
      obtain ⟨mapping, before, same⟩ := back slot revised live
      exact ⟨mapping, before, same.reverse⟩
    · intro slot mapping live
      obtain ⟨revised, after, same⟩ := forth slot mapping live
      exact ⟨revised, after, same.reverse⟩
  · intro slot revised live
    obtain ⟨mapping, before, _⟩ := back slot revised live
    exact tables.bounded slot mapping before
  · intro slot
    rw [tables.free, empty]
  · intro slot revised live
    obtain ⟨mapping, before, same⟩ := back slot revised live
    rw [← same.reverse, ← same.family, ← same.translatedPort]
    exact ports.translated slot mapping before
  · intro slot revised live
    obtain ⟨mapping, before, same⟩ := back slot revised live
    rw [← same.reverse]
    exact ports.live slot mapping before
  · intro slot revised other another live alive equal
    obtain ⟨mapping, before, same⟩ := back slot revised live
    obtain ⟨second, secondBefore, secondSame⟩ := back other another alive
    rw [← same.reverse, ← secondSame.reverse] at equal
    exact ports.distinct slot mapping other second before secondBefore equal
  · intro binding member slot revised live
    obtain ⟨mapping, before, same⟩ := back slot revised live
    rw [← same.reverse]
    exact ports.apart binding member slot mapping before
  · intro slot revised live
    obtain ⟨mapping, before, same⟩ := back slot revised live
    rw [← same.forward]
    exact retirement.apart slot mapping before
  · intro slot revised flow retired live found
    obtain ⟨mapping, before, same⟩ := back slot revised live
    rw [← same.reverse]
    exact retirement.ports slot mapping flow retired before found

end SystemTcp

end Ferrum.Tun

namespace Ferrum.Tun.SystemTcp

open Option List

variable {origin : Int} {hears : Hears} {system next : SystemTcp}

variable {due : Option Int}

theorem Sound.revise_slot (sound : system.Sound origin) {slot : Nat} {mapping revised : Mapping} {pending : List Nat}
    {count : Nat} (live : system.slots slot = some mapping)
    (revises : mapping.Revises hears system revised) (distinct : pending.Nodup)
    (isPending : ∀ other, other ∈ pending ↔
      if other = slot then revised.pendingFlow = true else other ∈ system.pendingSlots)
    (early : ∀ early, system.activeDeadlineMillis = some early →
      ∃ earlier, due = some earlier ∧ earlier ≤ early ∧ earlier ≤ revised.deadlineMillis) :
    { system.setSlot slot (some revised) with
      pendingSlots := pending, resetOutputsPending := count, activeDeadlineMillis := due }.Sound origin := by
  have same := revises.same
  obtain ⟨bound, atBound, _⟩ := sound.timely.lower slot mapping live
  obtain ⟨earlier, atDue, before, ahead⟩ := early bound atBound
  refine sound.revised ?_ ?_ distinct ?_ ?_ ?_ ?_
  · intro other another after
    rcases update_eq_some.mp after with ⟨rfl, isNew⟩ | ⟨_, old⟩
    · cases isNew
      exact ⟨mapping, live, same⟩
    · exact ⟨another, old, rfl, rfl, rfl, rfl⟩
  · intro other another old
    by_cases here : other = slot
    · subst here
      cases live.symm.trans old
      exact ⟨revised, update_eq_some.mpr (.inl ⟨rfl, rfl⟩), same⟩
    · exact ⟨another, update_eq_some.mpr (.inr ⟨here, old⟩), rfl, rfl, rfl, rfl⟩
  · intro other
    rw [isPending]
    by_cases here : other = slot
    · subst here
      simp [setSlot]
    · rw [if_neg here, sound.tables.pending]
      simp only [setSlot, Function.update_of_ne here]
  · intro other another after
    refine ⟨earlier, atDue, ?_⟩
    rcases update_eq_some.mp after with ⟨_, isNew⟩ | ⟨_, old⟩
    · cases isNew
      exact ahead
    · obtain ⟨least, atLeast, below⟩ := sound.timely.lower other another old
      cases atBound.symm.trans atLeast
      exact before.trans below
  · intro other another after
    rcases update_eq_some.mp after with ⟨_, isNew⟩ | ⟨_, old⟩
    · cases isNew
      exact sound.upper_revises live revises
    · exact sound.timely.upper other another old
  · intro other another lease after held
    rcases update_eq_some.mp after with ⟨_, isNew⟩ | ⟨_, old⟩
    · cases isNew
      exact sound.socket_revises live revises held
    · exact sound.sockets other another lease old held

theorem Sound.fence (sound : system.Sound origin) (notified : Nat → Mapping → Bool) :
    { system with
      fenced := true
      slots := fun slot => (system.slots slot).map fun mapping =>
        if notified slot mapping then { mapping with resetNotification := .awaitingKernelReset } else mapping }.Sound
      origin := by
  have kept : ∀ slot revised, ((system.slots slot).map fun mapping =>
      if notified slot mapping then { mapping with resetNotification := .awaitingKernelReset } else mapping) = some revised →
      ∃ mapping, system.slots slot = some mapping ∧ mapping.Same revised ∧ mapping.deadlineMillis = revised.deadlineMillis ∧
        mapping.socket = revised.socket ∧ mapping.pendingFlow = revised.pendingFlow := by
    intro slot revised after
    obtain ⟨mapping, live, rfl⟩ := map_eq_some_iff.mp after
    refine ⟨mapping, live, ?_⟩
    split <;> exact ⟨⟨rfl, rfl, rfl, rfl⟩, rfl, rfl, rfl⟩
  refine sound.revised ?_ ?_ sound.tables.pendingDistinct ?_ ?_ ?_ ?_
  · intro slot revised after
    obtain ⟨mapping, live, same, _⟩ := kept slot revised after
    exact ⟨mapping, live, same⟩
  · intro slot mapping live
    refine ⟨_, map_eq_some_iff.mpr ⟨mapping, live, rfl⟩, ?_⟩
    split <;> exact ⟨rfl, rfl, rfl, rfl⟩
  · intro slot
    rw [sound.tables.pending]
    constructor
    · rintro ⟨mapping, live, isPending⟩
      refine ⟨_, map_eq_some_iff.mpr ⟨mapping, live, rfl⟩, ?_⟩
      split <;> exact isPending
    · rintro ⟨revised, after, isPending⟩
      obtain ⟨mapping, live, _, _, _, pendingSame⟩ := kept slot revised after
      exact ⟨mapping, live, pendingSame.trans isPending⟩
  · intro slot revised after
    obtain ⟨mapping, live, _, deadlineSame, _⟩ := kept slot revised after
    rw [← deadlineSame]
    exact sound.timely.lower slot mapping live
  · intro slot revised after
    obtain ⟨mapping, live, _, deadlineSame, _⟩ := kept slot revised after
    rw [← deadlineSame]
    exact sound.timely.upper slot mapping live
  · intro slot revised lease after held
    obtain ⟨mapping, live, _, _, socketSame, _⟩ := kept slot revised after
    exact sound.sockets slot mapping lease live (socketSame.trans held)

theorem Sound.schedule (sound : system.Sound origin)
    (lower : ∀ slot mapping, system.slots slot = some mapping → ∃ early, due = some early ∧ early ≤ mapping.deadlineMillis) :
    { system with activeDeadlineMillis := due }.Sound origin :=
  sound.revised (fun _ mapping live => ⟨mapping, live, rfl, rfl, rfl, rfl⟩)
    (fun _ mapping live => ⟨mapping, live, rfl, rfl, rfl, rfl⟩) sound.tables.pendingDistinct sound.tables.pending lower
    sound.timely.upper sound.sockets

theorem Sound.rebind (sound : system.Sound origin) {quarantine : PortQuarantine} {bindings : List Binding} {epoch : Nat}
    {fenced : Bool} (leads : PortQuarantine.Leads system.Translates system.lastNowMillis system.quarantine quarantine)
    (listening : ∀ binding ∈ bindings, quarantine.value binding.identity.1 binding.identity.2 = activePort ∧
      ¬system.Translates binding.identity) :
    { system with nextEpoch := epoch, fenced, quarantine, bindings }.Sound origin := by
  obtain ⟨tables, timely, ports, retirement, sockets, asserts⟩ := sound
  refine ⟨⟨tables.forward, tables.reverse, tables.forwardLen, tables.reverseLen, tables.bounded, tables.freeDistinct,
      tables.free, tables.full, tables.pendingDistinct, tables.pending⟩,
    ⟨timely.timeout, timely.clock, timely.lower, timely.upper⟩,
    ⟨leads.consistent ports.consistent, ports.began.trans leads.clock.1, ?_, ports.translated, ?_, ports.distinct,
      fun binding member => (listening binding member).1, ?_⟩,
    ⟨retirement.reverse, retirement.plans, retirement.due, retirement.apart, retirement.ports, retirement.distinct, ?_⟩,
    sockets, asserts⟩
  · have before := ports.clock
    have after := leads.clock.2
    dsimp only
    omega
  · intro slot mapping live
    exact leads.active ports.consistent ⟨slot, mapping, live, rfl⟩ (ports.live slot mapping live)
  · intro binding member slot mapping live same
    exact (listening binding member).2 ⟨slot, mapping, live, same.symm⟩
  · intro flow retired found
    exact leads.withheld ports.consistent (retirement.withheld flow retired found)

theorem Sound.not_translates_binding (sound : system.Sound origin) {binding : Binding} (member : binding ∈ system.bindings) :
    ¬system.Translates binding.identity := by
  rintro ⟨slot, mapping, live, same⟩
  exact sound.ports.apart binding member slot mapping live same.symm

theorem Sound.quarantine (sound : system.Sound origin) {quarantine : PortQuarantine}
    (leads : PortQuarantine.Leads system.Owns system.lastNowMillis system.quarantine quarantine) :
    { system with quarantine }.Sound origin := by
  refine sound.rebind (leads.mono fun _ => .inl) ?_
  intro binding member
  exact ⟨leads.active sound.ports.consistent (.inr ⟨binding, member, rfl⟩) (sound.ports.listening binding member),
    sound.not_translates_binding member⟩

theorem Sound.forget (sound : system.Sound origin) {forward : HashMap FlowTuple RetiredMapping}
    {reverse : HashMap ReverseTuple FlowTuple} {generation : Nat} {fenced : Bool}
    (kept : ∀ flow retired, forward.lookup flow = some retired → system.retiredForward.lookup flow = some retired)
    (inverse : ∀ tuple flow, reverse.lookup tuple = some flow ↔
      ∃ retired, forward.lookup flow = some retired ∧ retired.reverse = tuple)
    (early : ∀ flow retired, forward.lookup flow = some retired → ∃ early, due = some early ∧ early ≤ retired.expiresAt)
    (sockets : ∀ slot mapping lease, system.slots slot = some mapping → mapping.socket = some lease →
      lease.generation = generation) : { system with
      generation, fenced, retiredForward := forward, retiredReverse := reverse, retiredDeadlineMillis := due }.Sound
      origin := by
  obtain ⟨tables, timely, ports, retirement, _, asserts⟩ := sound
  refine ⟨⟨tables.forward, tables.reverse, tables.forwardLen, tables.reverseLen, tables.bounded, tables.freeDistinct,
      tables.free, tables.full, tables.pendingDistinct, tables.pending⟩,
    ⟨timely.timeout, timely.clock, timely.lower, timely.upper⟩,
    ⟨ports.consistent, ports.began, ports.clock, ports.translated, ports.live, ports.distinct, ports.listening, ports.apart⟩,
    ⟨inverse, ?_, early, ?_, ?_, ?_, ?_⟩, sockets, asserts⟩
  · exact fun flow retired found => retirement.plans flow retired (kept flow retired found)
  · intro slot mapping live
    by_contra present
    obtain ⟨retired, found⟩ := ne_none_iff_exists'.mp present
    exact absurd (kept mapping.forward retired found) (by simp [retirement.apart slot mapping live])
  · exact fun slot mapping flow retired live found => retirement.ports slot mapping flow retired live (kept flow retired found)
  · exact fun flow retired other another found also =>
      retirement.distinct flow retired other another (kept flow retired found) (kept other another also)
  · exact fun flow retired found => retirement.withheld flow retired (kept flow retired found)

end Ferrum.Tun.SystemTcp
