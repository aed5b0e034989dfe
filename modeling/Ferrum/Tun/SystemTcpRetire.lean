import Ferrum.Tun.SystemTcpMove

namespace Ferrum.Tun.SystemTcp

open Option Function

variable {origin : Int} {system next : SystemTcp}

theorem assert_true {held : Bool} (holds : held = true) : system.assert held = system := by
  rw [assert, holds, Bool.and_true]

def Without (system next : SystemTcp) (slot : Nat) : Prop :=
  ∀ other mapping, next.slots other = some mapping ↔ other ≠ slot ∧ system.slots other = some mapping

theorem detach_without (system : SystemTcp) (slot : Nat) (mapping : Mapping) :
    system.Without (system.detach slot mapping) slot := fun _ _ => update_none_eq_some

variable {slot : Nat} {mapping : Mapping}

theorem Tables.detach (tables : system.Tables) (live : system.slots slot = some mapping) :
    (system.detach slot mapping).Tables := by
  have without := system.detach_without slot mapping
  have byForward : system.forward.lookup mapping.forward = some slot := tables.forward.lookup live
  have byReverse : system.reverse.lookup mapping.reverse = some slot := tables.reverse.lookup live
  have positive : 0 < system.active := tables.forwardLen ▸ HashMap.len_pos (HashMap.mem_of_lookup byForward)
  have occupied : slot ∉ system.freeSlots := by
    rw [tables.free, live]
    simp
  refine ⟨?_, ?_, ?_, ?_, ?_, ?_, ?_, ?_, ?_, ?_⟩
  · exact tables.forward.erase live
  · exact tables.reverse.erase live
  · exact (HashMap.len_erase (HashMap.mem_of_lookup byForward)).trans (congrArg (· - 1) tables.forwardLen)
  · exact (HashMap.len_erase (HashMap.mem_of_lookup byReverse)).trans (congrArg (· - 1) tables.reverseLen)
  · exact fun other another alive => tables.bounded other another ((without other another).mp alive).2
  · exact List.nodup_cons.mpr ⟨occupied, tables.freeDistinct⟩
  · intro other
    change other ∈ slot :: system.freeSlots ↔ other < system.maxFlows ∧ update system.slots slot none other = none
    rw [List.mem_cons, tables.free, update_apply]
    by_cases here : other = slot
    · subst here
      simpa using tables.bounded other mapping live
    · simp [here]
  · change system.active - 1 + (slot :: system.freeSlots).length = system.maxFlows
    have := tables.full
    rw [List.length_cons]
    omega
  · change (if mapping.pendingFlow then system.pendingSlots.filter (· ≠ slot) else system.pendingSlots).Nodup
    split
    · exact tables.pendingDistinct.filter _
    · exact tables.pendingDistinct
  · intro other
    have listed : other ∈ (system.detach slot mapping).pendingSlots ↔ other ≠ slot ∧ other ∈ system.pendingSlots := by
      change other ∈ (if mapping.pendingFlow then system.pendingSlots.filter (· ≠ slot) else system.pendingSlots) ↔ _
      split
      · rw [List.mem_filter, decide_eq_true_iff, and_comm]
      · rename_i idle
        refine ⟨fun member => ⟨?_, member⟩, fun member => member.2⟩
        rintro rfl
        obtain ⟨another, alive, waits⟩ := (tables.pending other).mp member
        cases live.symm.trans alive
        exact idle waits
    rw [listed, tables.pending]
    constructor
    · rintro ⟨different, another, alive, waits⟩
      exact ⟨another, (without other another).mpr ⟨different, alive⟩, waits⟩
    · rintro ⟨another, alive, waits⟩
      obtain ⟨different, alive⟩ := (without other another).mp alive
      exact ⟨different, another, alive, waits⟩

theorem Sound.detach (sound : system.Sound origin)
    (live : system.slots slot = some mapping) : (system.detach slot mapping).Sound origin := by
  have without := system.detach_without slot mapping
  have fewer : ∀ other another, (system.detach slot mapping).slots other = some another → system.slots other = some another :=
    fun other another alive => ((without other another).mp alive).2
  obtain ⟨tables, timely, ports, retirement, sockets, asserts⟩ := sound
  refine ⟨tables.detach live,
    ⟨timely.timeout, timely.clock, fun other another alive => timely.lower other another (fewer other another alive),
      fun other another alive => timely.upper other another (fewer other another alive)⟩,
    ⟨ports.consistent, ports.began, ports.clock, fun other another alive => ports.translated other another (fewer _ _ alive),
      fun other another alive => ports.live other another (fewer _ _ alive),
      fun first one second two alive also => ports.distinct first one second two (fewer _ _ alive) (fewer _ _ also),
      ports.listening, fun binding member other another alive => ports.apart binding member other another (fewer _ _ alive)⟩,
    ⟨retirement.reverse, retirement.plans, retirement.due,
      fun other another alive => retirement.apart other another (fewer _ _ alive),
      fun other another flow retired alive => retirement.ports other another flow retired (fewer _ _ alive),
      retirement.distinct, retirement.withheld⟩,
    fun other another lease alive => sockets other another lease (fewer _ _ alive), ?_⟩
  change (system.assertsHeld && _) = true
  rw [asserts, tables.forward.lookup live, tables.reverse.lookup live]
  simp

theorem Sound.preserve (sound : system.Sound origin) {expiresAt : Int}
    (absent : ∀ slot other, system.slots slot = some other → other.forward ≠ mapping.forward)
    (unretired : system.retiredForward.lookup mapping.forward = none)
    (free : ¬system.Translates mapping.reverse.identity)
    (unshared : ∀ flow retired, system.retiredForward.lookup flow = some retired →
      retired.reverse.identity ≠ mapping.reverse.identity)
    (withheld : PortQuarantine.Withheld (max expiresAt (origin + 1)) system.quarantine.lastNowMillis
      (system.quarantine.value mapping.reverse.identity.1 mapping.reverse.identity.2)) :
    (system.preserve mapping expiresAt).Sound origin := by
  obtain ⟨tables, timely, ports, retirement, sockets, asserts⟩ := sound
  have unreversed : system.retiredReverse.lookup mapping.reverse = none := by
    by_contra present
    obtain ⟨flow, found⟩ := ne_none_iff_exists'.mp present
    obtain ⟨retired, atFlow, same⟩ := (retirement.reverse mapping.reverse flow).mp found
    exact unshared flow retired atFlow (congrArg ReverseTuple.identity same)
  have looked : ∀ flow retired, (system.preserve mapping expiresAt).retiredForward.lookup flow = some retired ↔
      flow = mapping.forward ∧ retired = ⟨mapping.forwardPlan, mapping.reversePlan, mapping.reverse, expiresAt⟩ ∨
        flow ≠ mapping.forward ∧ system.retiredForward.lookup flow = some retired := by
    intro flow retired
    change (system.retiredForward.insert mapping.forward _).lookup flow = some retired ↔ _
    rw [HashMap.lookup_insert_eq]
    split
    · rename_i same
      simp [same, eq_comm]
    · rename_i different
      simp [different]
  refine ⟨⟨tables.forward, tables.reverse, tables.forwardLen, tables.reverseLen, tables.bounded, tables.freeDistinct,
      tables.free, tables.full, tables.pendingDistinct, tables.pending⟩,
    ⟨timely.timeout, timely.clock, timely.lower, timely.upper⟩,
    ⟨ports.consistent, ports.began, ports.clock, ports.translated, ports.live, ports.distinct, ports.listening, ports.apart⟩,
    ⟨?_, ?_, ?_, ?_, ?_, ?_, ?_⟩, sockets, ?_⟩
  · intro tuple flow
    change (system.retiredReverse.insert mapping.reverse mapping.forward).lookup tuple = some flow ↔ _
    rw [HashMap.lookup_insert_eq]
    split
    · rename_i same
      subst same
      constructor
      · intro found
        cases found
        exact ⟨_, (looked _ _).mpr (.inl ⟨rfl, rfl⟩), rfl⟩
      · rintro ⟨retired, found, atTuple⟩
        rcases (looked flow retired).mp found with ⟨rfl, _⟩ | ⟨_, old⟩
        · rfl
        · exact absurd (congrArg ReverseTuple.identity atTuple) (unshared flow retired old)
    · rename_i different
      rw [retirement.reverse]
      constructor
      · rintro ⟨retired, found, rfl⟩
        refine ⟨retired, (looked flow retired).mpr (.inr ⟨?_, found⟩), rfl⟩
        rintro rfl
        simp [unretired] at found
      · rintro ⟨retired, found, atTuple⟩
        rcases (looked flow retired).mp found with ⟨_, rfl⟩ | ⟨_, old⟩
        · exact absurd atTuple.symm different
        · exact ⟨retired, old, atTuple⟩
  · intro flow retired found
    rcases (looked flow retired).mp found with ⟨rfl, rfl⟩ | ⟨_, old⟩
    · exact ⟨rfl, rfl⟩
    · exact retirement.plans flow retired old
  · intro flow retired found
    refine ⟨_, rfl, ?_⟩
    rcases (looked flow retired).mp found with ⟨_, rfl⟩ | ⟨_, old⟩
    · dsimp only
      split
      · exact le_rfl
      · exact min_le_right _ _
    · obtain ⟨due, atDue, early⟩ := retirement.due flow retired old
      rw [atDue]
      exact (min_le_left _ _).trans early
  · intro slot other live
    by_contra present
    obtain ⟨retired, found⟩ := ne_none_iff_exists'.mp present
    rcases (looked _ _).mp found with ⟨same, _⟩ | ⟨_, old⟩
    · exact absent slot other live same
    · simp [retirement.apart slot other live] at old
  · intro slot other flow retired live found
    rcases (looked flow retired).mp found with ⟨_, rfl⟩ | ⟨_, old⟩
    · exact fun same => free ⟨slot, other, live, same⟩
    · exact retirement.ports slot other flow retired live old
  · intro flow retired other another found also same
    rcases (looked flow retired).mp found with ⟨rfl, rfl⟩ | ⟨_, old⟩
    · rcases (looked other another).mp also with ⟨rfl, _⟩ | ⟨_, oldOther⟩
      · rfl
      · exact absurd same.symm (unshared other another oldOther)
    · rcases (looked other another).mp also with ⟨rfl, rfl⟩ | ⟨_, oldOther⟩
      · exact absurd same (unshared flow retired old)
      · exact retirement.distinct flow retired other another old oldOther same
  · intro flow retired found
    rcases (looked flow retired).mp found with ⟨_, rfl⟩ | ⟨_, old⟩
    · exact withheld
    · exact retirement.withheld flow retired old
  · change (system.assertsHeld && _) = true
    rw [asserts, unreversed, unretired]
    rfl

/-- The call that gives back the port of a retired mapping. -/
def givingBack (mapping : Mapping) (now : Int) (preserveRewrite : Bool) : PortCall :=
  if preserveRewrite then .release mapping.family mapping.translatedPort now
  else .deferRelease mapping.family mapping.translatedPort

/-- The table after the mapping has left it and its port has been given back. -/
def surrender (system : SystemTcp) (slot : Nat) (mapping : Mapping) (now : Int) (preserveRewrite : Bool) : SystemTcp :=
  { system.detach slot mapping with quarantine := system.quarantine.step (givingBack mapping now preserveRewrite) }

section

variable (system : SystemTcp) (slot : Nat) (mapping : Mapping) (now : Int) (preserveRewrite : Bool)

@[simp] theorem preserve_slots : (system.preserve mapping now).slots = system.slots := rfl
@[simp] theorem preserve_pendingSlots : (system.preserve mapping now).pendingSlots = system.pendingSlots := rfl
@[simp] theorem preserve_fenced : (system.preserve mapping now).fenced = system.fenced := rfl
@[simp] theorem preserve_bindings : (system.preserve mapping now).bindings = system.bindings := rfl
@[simp] theorem preserve_quarantine : (system.preserve mapping now).quarantine = system.quarantine := rfl
@[simp] theorem preserve_lastNowMillis : (system.preserve mapping now).lastNowMillis = system.lastNowMillis := rfl

@[simp] theorem surrender_slots : (system.surrender slot mapping now preserveRewrite).slots =
    update system.slots slot none := rfl

@[simp] theorem surrender_pendingSlots : (system.surrender slot mapping now preserveRewrite).pendingSlots =
    if mapping.pendingFlow then system.pendingSlots.filter (· ≠ slot) else system.pendingSlots := rfl

@[simp] theorem surrender_bindings : (system.surrender slot mapping now preserveRewrite).bindings = system.bindings := rfl

@[simp] theorem surrender_retiredForward : (system.surrender slot mapping now preserveRewrite).retiredForward =
    system.retiredForward := rfl

@[simp] theorem surrender_fenced : (system.surrender slot mapping now preserveRewrite).fenced = system.fenced := rfl

@[simp] theorem surrender_lastNowMillis :
    (system.surrender slot mapping now preserveRewrite).lastNowMillis = system.lastNowMillis := rfl

end

theorem retireSlot_eq (live : system.slots slot = some mapping) (now : Int)
    (preserveRewrite : Bool) : system.retireSlot slot now preserveRewrite =
      if preserveRewrite = true ∧ system.retiredForward.len < maxRetiredIdentities then
        (system.surrender slot mapping now preserveRewrite).preserve mapping (saturatingAdd now portQuarantineMillis)
      else system.surrender slot mapping now preserveRewrite := by
  unfold retireSlot surrender givingBack
  rw [live]
  cases preserveRewrite
  · rfl
  · dsimp only
    split
    · rename_i room
      rw [if_pos (show true = true ∧ system.retiredForward.len < maxRetiredIdentities from room)]
      rfl
    · rename_i crowded
      rw [if_neg (show ¬(true = true ∧ system.retiredForward.len < maxRetiredIdentities) from crowded)]
      rfl

theorem givingBack_at (mapping : Mapping) (now : Int) (preserveRewrite : Bool) :
    (givingBack mapping now preserveRewrite).At now := by
  cases preserveRewrite
  · trivial
  · rfl

theorem givingBack_givesBack {now : Int} {preserveRewrite : Bool} {family : AddressFamily} {port : Port}
    (gives : (givingBack mapping now preserveRewrite).GivesBack family port) :
    (family, port) = (mapping.family, mapping.translatedPort) := by
  cases preserveRewrite
  · rcases gives with same | ⟨_, same⟩ | same <;> cases same
    rfl
  · rcases gives with same | ⟨_, same⟩ | same <;> cases same
    rfl

section

variable (sound : system.Sound origin)
include sound

variable {slot : Nat} {mapping : Mapping}

section

variable (live : system.slots slot = some mapping)
include live

theorem Sound.not_owns_detached : ¬(system.detach slot mapping).Owns mapping.reverse.identity := by
  rintro (⟨other, another, alive, same⟩ | ⟨binding, member, same⟩)
  · obtain ⟨different, alive⟩ := (system.detach_without slot mapping other another).mp alive
    exact different (sound.ports.distinct other another slot mapping alive live same)
  · exact sound.ports.apart binding member slot mapping live same

theorem Sound.surrender (preserveRewrite : Bool) :
    (system.surrender slot mapping system.lastNowMillis preserveRewrite).Sound origin := by
  refine (sound.detach live).quarantine (.call (givingBack_at mapping _ preserveRewrite) ?_)
  intro identity owns gives
  have same : identity = mapping.reverse.identity :=
    (givingBack_givesBack gives).trans (sound.ports.translated slot mapping live)
  rw [same] at owns
  exact sound.not_owns_detached live owns

theorem Sound.surrender_withheld :
    PortQuarantine.Withheld (max origin system.lastNowMillis + portQuarantineMillis)
      (system.surrender slot mapping system.lastNowMillis true).quarantine.lastNowMillis
      ((system.surrender slot mapping system.lastNowMillis true).quarantine.value mapping.reverse.identity.1
        mapping.reverse.identity.2) := by
  have isActive := sound.ports.live slot mapping live
  have same : mapping.family = mapping.reverse.identity.1 ∧ mapping.translatedPort = mapping.reverse.identity.2 :=
    Prod.ext_iff.mp (sound.ports.translated slot mapping live)
  have withheld := sound.ports.consistent.release_withheld isActive system.lastNowMillis
  have began := sound.ports.began
  unfold SystemTcp.surrender givingBack
  simp only [if_true, same.1, same.2]
  exact withheld.mono (by omega)

theorem Sound.surrender_cooling (preserveRewrite : Bool) :
    PortQuarantine.Cooling (max origin system.lastNowMillis)
      ((system.surrender slot mapping system.lastNowMillis preserveRewrite).quarantine.value mapping.reverse.identity.1
        mapping.reverse.identity.2) := by
  cases preserveRewrite with
  | true =>
    have bound := (sound.surrender live true).ports.clock
    change _ ≤ max origin system.lastNowMillis at bound
    refine (sound.surrender_withheld live).cooling ?_ ?_
    · unfold portQuarantineMillis
      omega
    · unfold portQuarantineMillis
      omega
  | false =>
    have same : mapping.family = mapping.reverse.identity.1 ∧ mapping.translatedPort = mapping.reverse.identity.2 :=
      Prod.ext_iff.mp (sound.ports.translated slot mapping live)
    unfold SystemTcp.surrender givingBack
    simp only [Bool.false_eq_true, if_false, same.1, same.2]
    exact .inl (sound.ports.consistent.deferRelease_pending (sound.ports.live slot mapping live))

theorem Sound.retireSlot (preserveRewrite : Bool) :
    (system.retireSlot slot system.lastNowMillis preserveRewrite).Sound origin := by
  rw [retireSlot_eq live]
  split
  · rename_i room
    rw [room.1]
    refine (sound.surrender live true).preserve ?_ ?_ ?_ ?_ ?_
    · intro other another alive same
      obtain ⟨different, alive⟩ := (system.detach_without slot mapping other another).mp alive
      exact different (sound.tables.forward.unique alive live same)
    · exact sound.retirement.apart slot mapping live
    · exact fun translates => sound.not_owns_detached live (.inl translates)
    · exact fun flow retired found => (sound.retirement.ports slot mapping flow retired live found).symm
    · refine (sound.surrender_withheld live).mono (max_le ?_ ?_)
      · have := sound.timely.clock
        unfold saturatingAdd portQuarantineMillis i64Min
        omega
      · unfold portQuarantineMillis
        omega
  · exact sound.surrender live preserveRewrite

end

end

variable {origin : Int} {hears : Hears} {system next : SystemTcp}

variable {slot : Nat} {rest : List Nat} {mapping : Mapping} {quarantine : PortQuarantine} {port : Port}

theorem Tables.occupy (tables : system.Tables)
    (free : system.freeSlots = slot :: rest) (absent : system.forward.lookup mapping.forward = none)
    (unused : system.reverse.lookup mapping.reverse = none) (quiet : mapping.pendingFlow = false) :
    (system.occupy slot rest mapping).Tables := by
  obtain ⟨bounded, empty⟩ := (tables.free slot).mp (free ▸ List.mem_cons_self)
  obtain ⟨taken, distinct⟩ := List.nodup_cons.mp (free ▸ tables.freeDistinct)
  refine ⟨tables.forward.insert empty absent, tables.reverse.insert empty unused, ?_, ?_, ?_, distinct, ?_, ?_,
    tables.pendingDistinct, ?_⟩
  · exact (HashMap.len_insert slot fun member => by simp [← AList.lookup_isSome, absent] at member).trans
      (congrArg (· + 1) tables.forwardLen)
  · exact (HashMap.len_insert slot fun member => by simp [← AList.lookup_isSome, unused] at member).trans
      (congrArg (· + 1) tables.reverseLen)
  · intro other another after
    rcases update_eq_some.mp after with ⟨rfl, _⟩ | ⟨_, old⟩
    · exact bounded
    · exact tables.bounded other another old
  · intro other
    have listed := tables.free other
    rw [free, List.mem_cons] at listed
    change other ∈ rest ↔ other < system.maxFlows ∧ update system.slots slot (some mapping) other = none
    rw [update_apply]
    by_cases here : other = slot
    · subst here
      simpa using taken
    · rw [if_neg here, ← listed]
      simp [here]
  · have full := tables.full
    rw [free, List.length_cons] at full
    change system.active + 1 + rest.length = system.maxFlows
    omega
  · intro other
    change other ∈ system.pendingSlots ↔
      ∃ another, update system.slots slot (some mapping) other = some another ∧ another.pendingFlow = true
    rw [tables.pending]
    constructor
    · rintro ⟨another, old, waits⟩
      refine ⟨another, update_eq_some.mpr (.inr ⟨?_, old⟩), waits⟩
      rintro rfl
      simp [empty] at old
    · rintro ⟨another, after, waits⟩
      rcases update_eq_some.mp after with ⟨_, isNew⟩ | ⟨_, old⟩
      · cases isNew
        simp [quiet] at waits
      · exact ⟨another, old, waits⟩

theorem Sound.occupy (sound : system.Sound origin)
    (free : system.freeSlots = slot :: rest) (absent : system.forward.lookup mapping.forward = none)
    (unretired : system.retiredForward.lookup mapping.forward = none)
    (translated : (mapping.family, mapping.translatedPort) = mapping.reverse.identity)
    (isActive : system.quarantine.value mapping.reverse.identity.1 mapping.reverse.identity.2 = activePort)
    (fresh : ¬system.Owns mapping.reverse.identity)
    (unshared : ∀ flow retired, system.retiredForward.lookup flow = some retired →
      mapping.reverse.identity ≠ retired.reverse.identity)
    (quiet : mapping.pendingFlow = false) (unsocketed : mapping.socket = none)
    (begins : mapping.deadlineMillis = deadline system.lastNowMillis system.timeoutMillis) :
    (system.occupy slot rest mapping).Sound origin := by
  obtain ⟨tables, timely, ports, retirement, sockets, asserts⟩ := sound
  have unused : system.reverse.lookup mapping.reverse = none := by
    by_contra present
    obtain ⟨other, found⟩ := ne_none_iff_exists'.mp present
    obtain ⟨another, alive, same⟩ := (tables.reverse _ _).mp found
    exact fresh (.inl ⟨other, another, alive, congrArg ReverseTuple.identity same⟩)
  have cases : ∀ other another, (system.occupy slot rest mapping).slots other = some another →
      other = slot ∧ mapping = another ∨ system.slots other = some another := by
    intro other another after
    rcases update_eq_some.mp after with ⟨here, isNew⟩ | ⟨_, old⟩
    · exact .inl ⟨here, some.inj isNew⟩
    · exact .inr old
  refine ⟨tables.occupy free absent unused quiet, ⟨timely.timeout, timely.clock, ?_, ?_⟩,
    ⟨ports.consistent, ports.began, ports.clock, ?_, ?_, ?_, ports.listening, ?_⟩,
    ⟨retirement.reverse, retirement.plans, retirement.due, ?_, ?_, retirement.distinct, retirement.withheld⟩, ?_, ?_⟩
  · intro other another after
    refine ⟨_, rfl, ?_⟩
    rcases cases other another after with ⟨_, rfl⟩ | old
    · split
      · exact le_rfl
      · exact min_le_right _ _
    · obtain ⟨due, atDue, early⟩ := timely.lower other another old
      rw [atDue]
      exact (min_le_left _ _).trans early
  · intro other another after
    rcases cases other another after with ⟨_, rfl⟩ | old
    · exact begins.le
    · exact timely.upper other another old
  · intro other another after
    rcases cases other another after with ⟨_, rfl⟩ | old
    · exact translated
    · exact ports.translated other another old
  · intro other another after
    rcases cases other another after with ⟨_, rfl⟩ | old
    · exact isActive
    · exact ports.live other another old
  · intro first one second two after also same
    rcases cases first one after with ⟨rfl, rfl⟩ | old
    · rcases cases second two also with ⟨rfl, _⟩ | old
      · rfl
      · exact absurd (.inl ⟨second, two, old, same.symm⟩) fresh
    · rcases cases second two also with ⟨rfl, rfl⟩ | alsoOld
      · exact absurd (.inl ⟨first, one, old, same⟩) fresh
      · exact ports.distinct first one second two old alsoOld same
  · intro binding member other another after
    rcases cases other another after with ⟨_, rfl⟩ | old
    · exact fun same => fresh (.inr ⟨binding, member, same⟩)
    · exact ports.apart binding member other another old
  · intro other another after
    rcases cases other another after with ⟨_, rfl⟩ | old
    · exact unretired
    · exact retirement.apart other another old
  · intro other another flow retired after found
    rcases cases other another after with ⟨_, rfl⟩ | old
    · exact unshared flow retired found
    · exact retirement.ports other another flow retired old found
  · intro other another lease after held
    rcases cases other another after with ⟨_, rfl⟩ | old
    · simp [unsocketed] at held
    · exact sockets other another lease old held
  · change (system.assertsHeld && _) = true
    rw [asserts, absent, unused]
    rfl

variable {family : AddressFamily}

theorem binding_eq_some {binding : Binding} (found : system.binding family = some binding) :
    binding ∈ system.bindings ∧ binding.family = family := by
  refine ⟨List.mem_of_find?_eq_some found, ?_⟩
  have same := List.find?_some found
  exact eq_of_beq same

theorem allocate_handsOut {after : PortQuarantine} {now : Int}
    (allocated : quarantine.allocate family now = (after, some port)) :
    quarantine.step (.allocate family now) = after ∧ quarantine.HandsOut (.allocate family now) family port := by
  simp only [PortQuarantine.step, PortQuarantine.HandsOut, PortQuarantine.perform, allocated]
  exact ⟨trivial, rfl⟩

theorem Sound.allocate (sound : system.Sound origin)
    (swept : ∀ flow retired, system.retiredForward.lookup flow = some retired → system.lastNowMillis < retired.expiresAt)
    (allocated : system.quarantine.allocate family system.lastNowMillis = (quarantine, some port)) :
    PortQuarantine.Leads system.Owns system.lastNowMillis system.quarantine quarantine ∧
      quarantine.value family port = activePort ∧ ¬system.Owns (family, port) ∧
      ∀ flow retired, system.retiredForward.lookup flow = some retired → (family, port) ≠ retired.reverse.identity := by
  obtain ⟨rfl, out⟩ := allocate_handsOut allocated
  have consistent := sound.ports.consistent
  refine ⟨.call rfl ?_, (consistent.handsOut out).2, ?_, ?_⟩
  · rintro identity _ (same | ⟨_, same⟩ | same) <;> cases same
  · rintro (⟨slot, mapping, live, same⟩ | ⟨binding, member, same⟩)
    · have isActive := sound.ports.live slot mapping live
      rw [same] at isActive
      exact consistent.handsOut_not_active out isActive
    · have isActive := sound.ports.listening binding member
      rw [same] at isActive
      exact consistent.handsOut_not_active out isActive
  · intro flow retired found same
    have withheld := sound.retirement.withheld flow retired found
    rw [← same] at withheld
    have reached := (consistent.withheld_step withheld).2 out
    have after := system.quarantine.step_lastNowMillis_le (show (PortCall.allocate family system.lastNowMillis).At _ from rfl)
    have before := sound.ports.clock
    have early := swept flow retired found
    omega

theorem Sound.observeTime (sound : system.Sound origin) (now : Int) : (system.observeTime now).Sound origin := by
  obtain ⟨tables, timely, ports, retirement, sockets, asserts⟩ := sound
  have later : system.lastNowMillis ≤ max system.lastNowMillis now := le_max_left _ _
  refine ⟨⟨tables.forward, tables.reverse, tables.forwardLen, tables.reverseLen, tables.bounded, tables.freeDistinct,
      tables.free, tables.full, tables.pendingDistinct, tables.pending⟩,
    ⟨timely.timeout, timely.clock.trans later, timely.lower, ?_⟩,
    ⟨ports.consistent, ports.began, ?_, ports.translated, ports.live, ports.distinct, ports.listening, ports.apart⟩,
    ⟨retirement.reverse, retirement.plans, retirement.due, retirement.apart, retirement.ports, retirement.distinct,
      retirement.withheld⟩, sockets, asserts⟩
  · intro slot mapping live
    refine (timely.upper slot mapping live).trans ?_
    change deadline system.lastNowMillis system.timeoutMillis ≤ deadline (max system.lastNowMillis now) system.timeoutMillis
    unfold deadline saturatingAdd
    omega
  · have := ports.clock
    change system.quarantine.lastNowMillis ≤ max origin (max system.lastNowMillis now)
    omega

theorem Sound.move (sound : system.Sound origin) (move : Move hears system next) : next.Sound origin := by
  cases move with
  | revise live revises distinct isPending early => exact sound.revise_slot live revises distinct isPending early
  | retire preserveRewrite live => exact sound.retireSlot live preserveRewrite
  | schedule lower => exact sound.schedule lower
  | forget kept _ inverse early => exact sound.forget kept inverse early sound.sockets
  | ports leads => exact sound.quarantine leads
  | listen epoch _ _ leads listening => exact sound.rebind leads listening
  | occupy sequence unfenced free absent unretired swept found allocated =>
    rename_i slot rest flow family binding quarantine port
    obtain ⟨leads, isActive, fresh, unshared⟩ := sound.allocate swept allocated
    have same : ReverseTuple.identity ⟨binding.listener, ⟨binding.peer, port⟩⟩ = (family, port) :=
      Prod.ext (binding.peerFamily.trans (binding_eq_some found).2) rfl
    refine (sound.quarantine leads).occupy free absent unretired same.symm ?_ ?_ ?_ rfl rfl rfl
    · rw [show (freshMapping flow _ family port sequence _).reverse.identity = (family, port) from same]
      exact isActive
    · rw [show (freshMapping flow _ family port sequence _).reverse.identity = (family, port) from same]
      exact fresh
    · rw [show (freshMapping flow _ family port sequence _).reverse.identity = (family, port) from same]
      exact unshared
  | fence notified => exact sound.fence notified
  | clear generation idle =>
    refine sound.forget (fun _ _ => nofun) (fun _ _ => iff_of_false nofun fun ⟨_, found, _⟩ => nomatch found)
      (fun _ _ => nofun) ?_
    intro slot mapping lease live
    simp [idle slot] at live
  | stop leads => exact sound.rebind leads fun binding member => absurd member List.not_mem_nil

end Ferrum.Tun.SystemTcp
