import Ferrum.Lib.Bytes
import Ferrum.Lib.Counting
import Ferrum.Lib.I64
import Ferrum.Lib.MinHeap

namespace Ferrum.Tun

abbrev Port := Fin 65536

inductive AddressFamily
  | ipv4 | ipv6
  deriving DecidableEq, Repr

def portQuarantineMillis : Int := 240000
def portSlots : Nat := 65536

/-- The values of `expires_at` that are not deadlines. -/
def available : Int := i64Min
def activePort : Int := i64Max
def pendingReleasePort : Int := i64Max - 1

def quarantineDeadline (nowMillis : Int) : Option Int :=
  (checkedAdd nowMillis portQuarantineMillis).filter (· < pendingReleasePort)

/-- Ownership and quarantine of the ports of one address family. -/
structure FamilyPorts where
  expiresAt : Port → Int
  cursor : Port
  active : Nat
  quarantined : Nat
  pendingRelease : Nat
  pendingPorts : List Port
  deadlines : MinHeap (Int ×ₗ Port)

namespace FamilyPorts

def new : FamilyPorts := ⟨fun _ => available, 49152, 0, 0, 0, [], .empty⟩

def setExpiry (ports : FamilyPorts) (port : Port) (value : Int) : FamilyPorts :=
  { ports with expiresAt := Function.update ports.expiresAt port value }

/-- The body of the loop of `reap`, for a popped entry. -/
def reapEntry (state : FamilyPorts × Bool) (entry : Int ×ₗ Port) : FamilyPorts × Bool :=
  if state.1.expiresAt (ofLex entry).2 = (ofLex entry).1 then
    ({ state.1.setExpiry (ofLex entry).2 available with quarantined := state.1.quarantined - 1 }, true)
  else state

def reap (ports : FamilyPorts) (nowMillis : Int) : FamilyPorts × Bool :=
  let ((reaped, worked), deadlines) :=
    ports.deadlines.popWhile (fun entry => decide ((ofLex entry).1 ≤ nowMillis)) reapEntry (ports, false)
  ({ reaped with deadlines := deadlines }, worked)

def claim (ports : FamilyPorts) (port : Port) (nowMillis : Int) : FamilyPorts × Bool :=
  let ports := (ports.reap nowMillis).1
  if port = 0 ∨ ports.expiresAt port ≠ available then (ports, false)
  else ({ ports.setExpiry port activePort with active := ports.active + 1 }, true)

/-- The cursor after `port`: the usable ports in a cycle, without 0. -/
def nextPort (port : Port) : Port := if port = 65535 then 1 else port + 1

/-- The search of `allocate`, for the remaining number of turns. -/
def allocateLoop (nowMillis : Int) : Nat → FamilyPorts → FamilyPorts × Option Port
  | 0, ports => (ports, none)
  | turns + 1, ports =>
    let port := ports.cursor
    let (ports, claimed) := { ports with cursor := nextPort port }.claim port nowMillis
    if claimed then (ports, some port) else allocateLoop nowMillis turns ports

def allocate (ports : FamilyPorts) (nowMillis : Int) : FamilyPorts × Option Port :=
  let ports := (ports.reap nowMillis).1
  if ports.active + ports.quarantined = portSlots - 1 then (ports, none)
  else allocateLoop nowMillis (portSlots - 1) ports

def unclaim (ports : FamilyPorts) (port : Port) : FamilyPorts :=
  if port ≠ 0 ∧ ports.expiresAt port = activePort then
    { ports.setExpiry port available with active := ports.active - 1 }
  else ports

def deferRelease (ports : FamilyPorts) (port : Port) : FamilyPorts :=
  if port = 0 ∨ ports.expiresAt port ≠ activePort then ports
  else
    { ports.setExpiry port pendingReleasePort with
      active := ports.active - 1
      quarantined := ports.quarantined + 1
      pendingRelease := ports.pendingRelease + 1
      pendingPorts := ports.pendingPorts ++ [port] }

def release (ports : FamilyPorts) (port : Port) (nowMillis : Int) : FamilyPorts :=
  if port = 0 ∨ ports.expiresAt port ≠ activePort then ports
  else
    match quarantineDeadline nowMillis with
    | none => ports.deferRelease port
    | some expiresAt =>
      { ports.setExpiry port expiresAt with
        active := ports.active - 1
        quarantined := ports.quarantined + 1
        deadlines := ports.deadlines.push (toLex (expiresAt, port)) }

/-- The body of the loop of `observe_time`: a pending port gets its deadline. -/
def startQuarantine (expiresAt : Int) (ports : FamilyPorts) (port : Port) : FamilyPorts :=
  { ports.setExpiry port expiresAt with deadlines := ports.deadlines.push (toLex (expiresAt, port)) }

def observeTime (ports : FamilyPorts) (nowMillis : Int) : FamilyPorts :=
  if ports.pendingRelease = 0 then ports
  else
    match quarantineDeadline nowMillis with
    | none => ports
    | some expiresAt =>
      { ports.pendingPorts.foldl (startQuarantine expiresAt) ports with pendingPorts := [], pendingRelease := 0 }

def nextDeadlineMillis (ports : FamilyPorts) : Option Int := ports.deadlines.peek.map fun entry => (ofLex entry).1

end FamilyPorts

/-- Process-long internal-port ownership and quarantine of both families, with one clock. -/
structure PortQuarantine where
  ipv4 : FamilyPorts
  ipv6 : FamilyPorts
  lastNowMillis : Int

namespace PortQuarantine

def new : PortQuarantine := ⟨.new, .new, 0⟩

def family (quarantine : PortQuarantine) : AddressFamily → FamilyPorts
  | .ipv4 => quarantine.ipv4
  | .ipv6 => quarantine.ipv6

def setFamily (quarantine : PortQuarantine) (family : AddressFamily) (ports : FamilyPorts) : PortQuarantine :=
  match family with
  | .ipv4 => { quarantine with ipv4 := ports }
  | .ipv6 => { quarantine with ipv6 := ports }

def observeTime (quarantine : PortQuarantine) (nowMillis : Int) : PortQuarantine :=
  let now := max quarantine.lastNowMillis nowMillis
  ⟨quarantine.ipv4.observeTime now, quarantine.ipv6.observeTime now, now⟩

def allocate (quarantine : PortQuarantine) (family : AddressFamily) (nowMillis : Int) : PortQuarantine × Option Port :=
  let quarantine := quarantine.observeTime nowMillis
  let (ports, port) := (quarantine.family family).allocate quarantine.lastNowMillis
  (quarantine.setFamily family ports, port)

def claim (quarantine : PortQuarantine) (family : AddressFamily) (port : Port) : PortQuarantine × Bool :=
  let (ports, claimed) := (quarantine.family family).claim port quarantine.lastNowMillis
  (quarantine.setFamily family ports, claimed)

def unclaim (quarantine : PortQuarantine) (family : AddressFamily) (port : Port) : PortQuarantine :=
  quarantine.setFamily family ((quarantine.family family).unclaim port)

def release (quarantine : PortQuarantine) (family : AddressFamily) (port : Port) (nowMillis : Int) : PortQuarantine :=
  let quarantine := quarantine.observeTime nowMillis
  quarantine.setFamily family ((quarantine.family family).release port quarantine.lastNowMillis)

def deferRelease (quarantine : PortQuarantine) (family : AddressFamily) (port : Port) : PortQuarantine :=
  quarantine.setFamily family ((quarantine.family family).deferRelease port)

def reap (quarantine : PortQuarantine) (nowMillis : Int) : PortQuarantine × Bool :=
  let quarantine := quarantine.observeTime nowMillis
  let (ipv4, workedIpv4) := quarantine.ipv4.reap quarantine.lastNowMillis
  let (ipv6, workedIpv6) := quarantine.ipv6.reap quarantine.lastNowMillis
  ({ quarantine with ipv4 := ipv4, ipv6 := ipv6 }, workedIpv4 || workedIpv6)

def nextDeadlineMillis (quarantine : PortQuarantine) : Option Int :=
  if quarantine.ipv4.pendingRelease ≠ 0 ∨ quarantine.ipv6.pendingRelease ≠ 0 then some quarantine.lastNowMillis
  else
    match quarantine.ipv4.nextDeadlineMillis, quarantine.ipv6.nextDeadlineMillis with
    | some ipv4, some ipv6 => some (min ipv4 ipv6)
    | some deadline, none | none, some deadline => some deadline
    | none, none => none

end PortQuarantine

def Timed (value : Int) : Prop := value ≠ available ∧ value ≠ activePort ∧ value ≠ pendingReleasePort

def Quarantined (value : Int) : Prop := value ≠ available ∧ value ≠ activePort

instance : DecidablePred Quarantined := fun value => inferInstanceAs (Decidable (value ≠ available ∧ value ≠ activePort))

theorem quarantineDeadline_eq_some {now deadline : Int} (nonneg : 0 ≤ now) :
    quarantineDeadline now = some deadline ↔ deadline = now + portQuarantineMillis ∧ deadline < pendingReleasePort := by
  unfold quarantineDeadline checkedAdd portQuarantineMillis pendingReleasePort i64Min i64Max
  rw [Option.filter_eq_some_iff]
  constructor
  · rintro ⟨inRange, below⟩
    split at inRange
    · cases inRange
      exact ⟨rfl, by simpa using below⟩
    · simp at inRange
  · rintro ⟨rfl, below⟩
    exact ⟨if_pos (by omega), by simpa using below⟩

theorem timed_deadline {now : Int} (nonneg : 0 ≤ now) (below : now + portQuarantineMillis < pendingReleasePort) :
    Timed (now + portQuarantineMillis) := by
  unfold Timed available activePort pendingReleasePort portQuarantineMillis i64Min i64Max at *
  omega

theorem available_ne_active : available ≠ activePort := by decide
theorem available_ne_pending : available ≠ pendingReleasePort := by decide
theorem active_ne_pending : activePort ≠ pendingReleasePort := by decide

namespace FamilyPorts

/-- The counters, the pending list and the heap mirror the table exactly. -/
structure Consistent (ports : FamilyPorts) : Prop where
  reserved : ports.expiresAt 0 = available
  cursor : ports.cursor ≠ 0
  active : ports.active = countWhere (· = activePort) ports.expiresAt
  quarantined : ports.quarantined = countWhere Quarantined ports.expiresAt
  pendingRelease : ports.pendingRelease = ports.pendingPorts.length
  pendingDistinct : ports.pendingPorts.Nodup
  pending : ∀ port, port ∈ ports.pendingPorts ↔ ports.expiresAt port = pendingReleasePort
  heapDistinct : ports.deadlines.entries.Nodup
  heap : ∀ deadline port, toLex (deadline, port) ∈ ports.deadlines.entries ↔
    ports.expiresAt port = deadline ∧ Timed deadline

theorem new_consistent : new.Consistent where
  reserved := rfl
  cursor := by decide
  active := by
    unfold countWhere new
    rw [Finset.filter_false_of_mem fun _ _ => available_ne_active]
    rfl
  quarantined := by
    unfold countWhere new
    rw [Finset.filter_false_of_mem fun _ _ quarantined => quarantined.1 rfl]
    rfl
  pendingRelease := rfl
  pendingDistinct := .nil
  pending := by
    intro port
    simpa [new] using available_ne_pending
  heapDistinct := .nil
  heap := by
    intro deadline port
    simp only [new, MinHeap.empty, List.not_mem_nil, false_iff]
    rintro ⟨rfl, timed⟩
    exact timed.1 rfl

variable {ports : FamilyPorts}

theorem Consistent.counts (consistent : ports.Consistent) (port : Port) (value : Int) :
    countWhere (· = activePort) (ports.setExpiry port value).expiresAt + (if ports.expiresAt port = activePort then 1 else 0) =
        ports.active + (if value = activePort then 1 else 0) ∧
      countWhere Quarantined (ports.setExpiry port value).expiresAt + (if Quarantined (ports.expiresAt port) then 1 else 0) =
        ports.quarantined + (if Quarantined value then 1 else 0) := by
  rw [consistent.active, consistent.quarantined]
  exact ⟨countWhere_update _ _ _ _, countWhere_update _ _ _ _⟩

@[simp] theorem setExpiry_expiresAt (ports : FamilyPorts) (port : Port) (value : Int) (other : Port) :
    (ports.setExpiry port value).expiresAt other = if other = port then value else ports.expiresAt other := by
  simp [setExpiry, Function.update_apply]

variable {port : Port}

theorem Consistent.assign {ports next : FamilyPorts} (consistent : ports.Consistent) {port : Port} {value : Int}
    (usable : port ≠ 0) (table : next.expiresAt = (ports.setExpiry port value).expiresAt)
    (cursor : next.cursor = ports.cursor)
    (active : next.active + (if ports.expiresAt port = activePort then 1 else 0) =
      ports.active + (if value = activePort then 1 else 0))
    (quarantined : next.quarantined + (if Quarantined (ports.expiresAt port) then 1 else 0) =
      ports.quarantined + (if Quarantined value then 1 else 0))
    (pendingRelease : next.pendingRelease = next.pendingPorts.length) (pendingDistinct : next.pendingPorts.Nodup)
    (pending : ∀ other, other ∈ next.pendingPorts ↔
      if other = port then value = pendingReleasePort else other ∈ ports.pendingPorts)
    (heapDistinct : next.deadlines.entries.Nodup)
    (heap : ∀ deadline other, toLex (deadline, other) ∈ next.deadlines.entries ↔
      if other = port then value = deadline ∧ Timed deadline else toLex (deadline, other) ∈ ports.deadlines.entries) :
    next.Consistent := by
  obtain ⟨actives, quarantineds⟩ := consistent.counts port value
  refine ⟨?_, by rw [cursor]; exact consistent.cursor, by rw [table]; omega, by rw [table]; omega, pendingRelease,
    pendingDistinct, ?_, heapDistinct, ?_⟩
  · rw [table, setExpiry_expiresAt, if_neg usable.symm]
    exact consistent.reserved
  · intro other
    rw [pending, table, setExpiry_expiresAt]
    by_cases same : other = port
    · simp [same]
    · simp only [if_neg same]
      exact consistent.pending other
  · intro deadline other
    rw [heap, table, setExpiry_expiresAt]
    by_cases same : other = port
    · simp [same]
    · simp only [if_neg same]
      exact consistent.heap deadline other

theorem Consistent.no_entry (consistent : ports.Consistent) (untimed : ¬Timed (ports.expiresAt port)) (deadline : Int) :
    toLex (deadline, port) ∉ ports.deadlines.entries := by
  intro member
  obtain ⟨atPort, timed⟩ := (consistent.heap deadline port).mp member
  exact untimed (atPort ▸ timed)

theorem Consistent.not_pending (consistent : ports.Consistent) (other : ports.expiresAt port ≠ pendingReleasePort) :
    port ∉ ports.pendingPorts :=
  fun member => other ((consistent.pending port).mp member)

variable {deadline : Int}

theorem Consistent.mem_push_entry (consistent : ports.Consistent) (untimed : ¬Timed (ports.expiresAt port))
    (timed : Timed deadline) (other : Int) (another : Port) :
    toLex (other, another) ∈ (ports.deadlines.push (toLex (deadline, port))).entries ↔
      if another = port then deadline = other ∧ Timed other else toLex (other, another) ∈ ports.deadlines.entries := by
  rw [MinHeap.mem_push]
  split
  · rename_i same
    subst same
    constructor
    · rintro (same | member)
      · cases toLex.injective same
        exact ⟨rfl, timed⟩
      · exact absurd member (consistent.no_entry untimed other)
    · rintro ⟨rfl, _⟩
      exact .inl rfl
  · rename_i different
    constructor
    · rintro (same | member)
      · exact absurd (Prod.mk.inj (toLex.injective same)).2 different
      · exact member
    · exact .inr

theorem Consistent.toggle {ports : FamilyPorts} (consistent : ports.Consistent) {port : Port} {value : Int} {active : Nat}
    (usable : port ≠ 0) (old : ports.expiresAt port = available ∨ ports.expiresAt port = activePort)
    (new : value = available ∨ value = activePort)
    (count : active + (if ports.expiresAt port = activePort then 1 else 0) =
      ports.active + (if value = activePort then 1 else 0)) :
    { ports.setExpiry port value with active := active }.Consistent := by
  have untimed : ¬Timed (ports.expiresAt port) := fun timed => old.elim timed.1 timed.2.1
  have unquarantined : ¬Quarantined (ports.expiresAt port) := fun held => old.elim held.1 held.2
  have stays : ¬Quarantined value := fun held => new.elim held.1 held.2
  have unpending : ports.expiresAt port ≠ pendingReleasePort := by
    rcases old with at_port | at_port <;> rw [at_port] <;> decide
  have valueUnpending : value ≠ pendingReleasePort := by
    rcases new with rfl | rfl <;> decide
  refine consistent.assign usable rfl rfl count ?_ consistent.pendingRelease consistent.pendingDistinct ?_
    consistent.heapDistinct ?_
  · simp only [setExpiry, if_neg unquarantined, if_neg stays]
  · intro other
    split
    · rename_i same
      subst same
      exact iff_of_false (consistent.not_pending unpending) valueUnpending
    · exact Iff.rfl
  · intro deadline other
    split
    · rename_i same
      subst same
      refine iff_of_false (consistent.no_entry untimed deadline) ?_
      rintro ⟨rfl, timed⟩
      exact new.elim timed.1 timed.2.1
    · exact Iff.rfl

section

variable (consistent : ports.Consistent)
include consistent

theorem Consistent.unclaim (port : Port) : (ports.unclaim port).Consistent := by
  unfold FamilyPorts.unclaim
  split
  · rename_i held
    refine consistent.toggle held.1 (.inr held.2) (.inl rfl) ?_
    have positive := (consistent.counts port available).1
    simp only [held.2, if_true, if_neg available_ne_active] at positive ⊢
    omega
  · exact consistent

theorem Consistent.startTimer (usable : port ≠ 0)
    (isActive : ports.expiresAt port = activePort) (timed : Timed deadline) :
    { ports.setExpiry port deadline with
      active := ports.active - 1
      quarantined := ports.quarantined + 1
      deadlines := ports.deadlines.push (toLex (deadline, port)) }.Consistent := by
  have untimed : ¬Timed (ports.expiresAt port) := fun held => held.2.1 isActive
  have positive := (consistent.counts port available).1
  have unquarantined : ¬Quarantined activePort := fun held => held.2 rfl
  have quarantined : Quarantined deadline := ⟨timed.1, timed.2.1⟩
  simp only [isActive, if_true, if_neg available_ne_active] at positive
  refine consistent.assign usable rfl rfl ?_ ?_ consistent.pendingRelease consistent.pendingDistinct ?_ ?_ ?_
  · simp only [isActive, if_true, if_neg timed.2.1]
    omega
  · simp only [isActive, if_neg unquarantined, if_pos quarantined]
  · intro other
    split
    · rename_i same
      subst same
      exact iff_of_false (consistent.not_pending (isActive ▸ active_ne_pending)) timed.2.2
    · exact Iff.rfl
  · exact MinHeap.push_nodup consistent.heapDistinct (consistent.no_entry untimed deadline)
  · exact consistent.mem_push_entry untimed timed

theorem Consistent.deferRelease (port : Port) : (ports.deferRelease port).Consistent := by
  unfold FamilyPorts.deferRelease
  split
  · exact consistent
  · rename_i held
    obtain ⟨usable, isActive⟩ := not_or.mp held
    have isActive := not_not.mp isActive
    have untimed : ¬Timed (ports.expiresAt port) := fun timed => timed.2.1 isActive
    have positive := (consistent.counts port available).1
    have unquarantined : ¬Quarantined activePort := fun held => held.2 rfl
    have quarantined : Quarantined pendingReleasePort := ⟨available_ne_pending.symm, active_ne_pending.symm⟩
    have absent : port ∉ ports.pendingPorts := consistent.not_pending (isActive ▸ active_ne_pending)
    simp only [isActive, if_true, if_neg available_ne_active] at positive
    refine consistent.assign usable rfl rfl ?_ ?_ ?_ ?_ ?_ consistent.heapDistinct ?_
    · simp only [isActive, if_true, if_neg active_ne_pending.symm]
      omega
    · simp only [isActive, if_neg unquarantined, if_pos quarantined]
    · simp [consistent.pendingRelease]
    · exact List.nodup_append.mpr ⟨consistent.pendingDistinct, by simp, by
        intro other member _ singleton
        cases List.mem_singleton.mp singleton
        rintro rfl
        exact absent member⟩
    · intro other
      rw [List.mem_append, List.mem_singleton]
      split
      · rename_i same
        exact iff_of_true (.inr same) rfl
      · rename_i different
        exact or_iff_left different
    · intro deadline other
      split
      · rename_i same
        subst same
        refine iff_of_false (consistent.no_entry untimed deadline) ?_
        rintro ⟨rfl, timed⟩
        exact timed.2.2 rfl
      · exact Iff.rfl

theorem Consistent.release (port : Port) {now : Int} (nonneg : 0 ≤ now) :
    (ports.release port now).Consistent := by
  unfold FamilyPorts.release
  split
  · exact consistent
  · rename_i held
    obtain ⟨usable, isActive⟩ := not_or.mp held
    split
    · exact consistent.deferRelease port
    · rename_i deadline found
      obtain ⟨rfl, below⟩ := (quarantineDeadline_eq_some nonneg).mp found
      exact consistent.startTimer usable (not_not.mp isActive) (timed_deadline nonneg below)

end

theorem Consistent.startQuarantine {rest : List Port}
    (consistent : { ports with pendingPorts := port :: rest, pendingRelease := rest.length + 1 }.Consistent)
    (timed : Timed deadline) :
    { ports.startQuarantine deadline port with pendingPorts := rest, pendingRelease := rest.length }.Consistent := by
  have isPending : ports.expiresAt port = pendingReleasePort := (consistent.pending port).mp List.mem_cons_self
  have usable : port ≠ 0 := by
    rintro rfl
    exact available_ne_pending (consistent.reserved.symm.trans isPending)
  obtain ⟨absent, distinct⟩ := List.nodup_cons.mp consistent.pendingDistinct
  have untimed : ¬Timed (ports.expiresAt port) := fun held => held.2.2 isPending
  have quarantined : Quarantined pendingReleasePort := ⟨available_ne_pending.symm, active_ne_pending.symm⟩
  have stays : Quarantined deadline := ⟨timed.1, timed.2.1⟩
  refine consistent.assign usable rfl rfl ?_ ?_ rfl distinct ?_ ?_ ?_
  · simp only [isPending, if_neg active_ne_pending.symm, if_neg timed.2.1]
    rfl
  · simp only [isPending, if_pos quarantined, if_pos stays]
    rfl
  · intro other
    split
    · rename_i same
      subst same
      exact iff_of_false absent timed.2.2
    · rename_i different
      exact (List.mem_cons.trans (or_iff_right different)).symm
  · exact MinHeap.push_nodup consistent.heapDistinct (consistent.no_entry untimed deadline)
  · exact consistent.mem_push_entry untimed timed

theorem Consistent.startAll (timed : Timed deadline) (pending : List Port)
    (consistent : { ports with pendingPorts := pending, pendingRelease := pending.length }.Consistent) :
    { pending.foldl (FamilyPorts.startQuarantine deadline) ports with pendingPorts := [], pendingRelease := 0 }.Consistent := by
  induction pending generalizing ports with
  | nil => exact consistent
  | cons port rest ih => exact ih (consistent.startQuarantine timed)

theorem Consistent.observeTime (consistent : ports.Consistent) {now : Int} (nonneg : 0 ≤ now) :
    (ports.observeTime now).Consistent := by
  unfold FamilyPorts.observeTime
  split
  · exact consistent
  · split
    · exact consistent
    · rename_i deadline found
      obtain ⟨rfl, below⟩ := (quarantineDeadline_eq_some nonneg).mp found
      refine Consistent.startAll (timed_deadline nonneg below) ports.pendingPorts ?_
      rw [← consistent.pendingRelease]
      exact consistent

end FamilyPorts

end Ferrum.Tun
