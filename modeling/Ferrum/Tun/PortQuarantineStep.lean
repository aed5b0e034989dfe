import Ferrum.Tun.PortQuarantine

namespace Ferrum.Tun

/-- What `reap` does to one value of the table. -/
def reapValue (now value : Int) : Int :=
  if value ≠ available ∧ value ≠ activePort ∧ value ≠ pendingReleasePort ∧ value ≤ now then available else value

theorem reapValue_of_due {now value : Int} (timed : Timed value) (due : value ≤ now) : reapValue now value = available :=
  if_pos ⟨timed.1, timed.2.1, timed.2.2, due⟩

theorem reapValue_of_later {now value : Int} (kept : Timed value → now < value) : reapValue now value = value :=
  if_neg fun ⟨first, second, third, due⟩ => absurd (kept ⟨first, second, third⟩) (not_lt.mpr due)

@[simp] theorem reapValue_active (now : Int) : reapValue now activePort = activePort :=
  reapValue_of_later fun timed => absurd rfl timed.2.1

@[simp] theorem reapValue_pending (now : Int) : reapValue now pendingReleasePort = pendingReleasePort :=
  reapValue_of_later fun timed => absurd rfl timed.2.2

@[simp] theorem reapValue_available (now : Int) : reapValue now available = available :=
  reapValue_of_later fun timed => absurd rfl timed.1

theorem reapValue_reapValue (now value : Int) : reapValue now (reapValue now value) = reapValue now value := by
  by_cases due : value ≠ available ∧ value ≠ activePort ∧ value ≠ pendingReleasePort ∧ value ≤ now
  · rw [show reapValue now value = available from if_pos due, reapValue_available]
  · rw [show reapValue now value = value from if_neg due, show reapValue now value = value from if_neg due]

namespace FamilyPorts

theorem due_of_le (now : Int) (a b : Int ×ₗ Port) (ordered : a ≤ b) (due : decide ((ofLex b).1 ≤ now) = true) :
    decide ((ofLex a).1 ≤ now) = true := by
  have first : (ofLex a).1 ≤ (ofLex b).1 := Prod.Lex.monotone_fst _ _ ordered
  simp only [decide_eq_true_eq] at due ⊢
  omega

variable {ports : FamilyPorts}

theorem Consistent.reapEntry (deadline : Int) (port : Port) {rest : List (Int ×ₗ Port)}
    (sorted : (toLex (deadline, port) :: rest).Pairwise (· ≤ ·))
    (consistent : { ports with deadlines := ⟨toLex (deadline, port) :: rest, sorted⟩ }.Consistent) :
    ports.expiresAt port = deadline ∧ Timed deadline ∧
      { ports.setExpiry port available with
        quarantined := ports.quarantined - 1, deadlines := ⟨rest, sorted.of_cons⟩ }.Consistent := by
  obtain ⟨atPort, timed⟩ := (consistent.heap deadline port).mp List.mem_cons_self
  obtain ⟨absent, distinct⟩ := List.nodup_cons.mp consistent.heapDistinct
  have atPort : ports.expiresAt port = deadline := atPort
  have usable : port ≠ 0 := by
    rintro rfl
    exact timed.1 (atPort.symm.trans consistent.reserved)
  have quarantined : Quarantined deadline := ⟨timed.1, timed.2.1⟩
  have free : ¬Quarantined available := fun held => held.1 rfl
  have positive := (consistent.counts port available).2
  simp only [atPort, if_pos quarantined, if_neg free] at positive
  refine ⟨atPort, timed, consistent.assign usable rfl rfl ?_ ?_ consistent.pendingRelease consistent.pendingDistinct
    ?_ distinct ?_⟩
  · simp only [atPort, if_neg timed.2.1, if_neg available_ne_active, setExpiry]
  · simp only [atPort, if_pos quarantined, if_neg free]
    omega
  · intro other
    split
    · rename_i same
      subst same
      exact iff_of_false (consistent.not_pending (by simpa [atPort] using timed.2.2)) available_ne_pending
    · exact Iff.rfl
  · intro other another
    split
    · rename_i same
      subst same
      refine iff_of_false ?_ (fun held => held.2.1 held.1.symm)
      intro member
      have entry : ports.expiresAt another = other :=
        ((consistent.heap other another).mp (List.mem_cons_of_mem _ member)).1
      cases atPort.symm.trans entry
      exact absent member
    · rename_i different
      refine (List.mem_cons.trans (or_iff_right ?_)).symm
      exact fun same => different (Prod.mk.inj (toLex.injective same)).2

/-- The state of the loop of `reap` that started at `ports`, with the entries still queued. -/
def Reaping (ports : FamilyPorts) (now : Int) (state : FamilyPorts × Bool) (entries : List (Int ×ₗ Port)) : Prop :=
  ∃ sorted, { state.1 with deadlines := ⟨entries, sorted⟩ }.Consistent ∧
    (∀ port, state.1.expiresAt port = ports.expiresAt port ∨
      Timed (ports.expiresAt port) ∧ ports.expiresAt port ≤ now ∧ state.1.expiresAt port = available) ∧
    state.1.cursor = ports.cursor ∧ state.1.pendingPorts = ports.pendingPorts

theorem Reaping.step {now : Int} {state : FamilyPorts × Bool} {entry : Int ×ₗ Port} {rest : List (Int ×ₗ Port)}
    (due : (ofLex entry).1 ≤ now) (loop : Reaping ports now state (entry :: rest)) :
    Reaping ports now (FamilyPorts.reapEntry state entry) rest := by
  obtain ⟨sorted, held, values, cursor, pending⟩ := loop
  have next := Consistent.reapEntry (ofLex entry).1 (ofLex entry).2 sorted held
  obtain ⟨atPort, timed, next⟩ := next
  rw [FamilyPorts.reapEntry, if_pos atPort]
  refine ⟨sorted.of_cons, next, ?_, cursor, pending⟩
  intro port
  change (state.1.setExpiry (ofLex entry).2 available).expiresAt port = _ ∨
    _ ∧ _ ∧ (state.1.setExpiry (ofLex entry).2 available).expiresAt port = _
  rw [setExpiry_expiresAt]
  split
  · rename_i same
    rcases values port with old | gone
    · rw [← old, same, atPort]
      exact .inr ⟨timed, due, rfl⟩
    · exact .inr ⟨gone.1, gone.2.1, rfl⟩
  · exact values port

theorem Consistent.reap (consistent : ports.Consistent) (now : Int) :
    (ports.reap now).1.Consistent ∧ (∀ port, (ports.reap now).1.expiresAt port = reapValue now (ports.expiresAt port)) ∧
      (ports.reap now).1.cursor = ports.cursor ∧ (ports.reap now).1.pendingPorts = ports.pendingPorts := by
  have start : Reaping ports now (ports, false) ports.deadlines.entries :=
    ⟨ports.deadlines.sorted, consistent, fun _ => .inl rfl, rfl, rfl⟩
  have step : ∀ state entry rest, decide ((ofLex entry).1 ≤ now) = true → Reaping ports now state (entry :: rest) →
      Reaping ports now (FamilyPorts.reapEntry state entry) rest :=
    fun state entry rest due loop => loop.step (of_decide_eq_true due)
  obtain ⟨sorted, held, values, cursor, pending⟩ := MinHeap.popWhile_rule (Reaping ports now) start step
  refine ⟨held, ?_, cursor, pending⟩
  intro port
  change ((ports.deadlines.popWhile _ FamilyPorts.reapEntry (ports, false)).1).1.expiresAt port = _
  rcases values port with old | ⟨timed, due, gone⟩
  · rw [old, reapValue_of_later]
    intro timed
    have member := (held.heap (ports.expiresAt port) port).mpr ⟨old, timed⟩
    have later := MinHeap.popWhile_not_due (due_of_le now) member
    exact not_le.mp (of_decide_eq_false later)
  · rw [gone, reapValue_of_due timed due]

theorem Consistent.claim (consistent : ports.Consistent) (port : Port) (now : Int) :
    (ports.claim port now).1.Consistent ∧ (ports.claim port now).1.cursor = ports.cursor ∧
      ((ports.claim port now).2 = true ∧ port ≠ 0 ∧ reapValue now (ports.expiresAt port) = available ∧
          (∀ other, (ports.claim port now).1.expiresAt other =
            if other = port then activePort else reapValue now (ports.expiresAt other)) ∨
        (ports.claim port now).2 = false ∧ (port ≠ 0 → reapValue now (ports.expiresAt port) ≠ available) ∧
          ∀ other, (ports.claim port now).1.expiresAt other = reapValue now (ports.expiresAt other)) := by
  obtain ⟨reaped, values, cursor, _⟩ := consistent.reap now
  unfold FamilyPorts.claim
  dsimp only
  split
  · rename_i refused
    refine ⟨reaped, cursor, .inr ⟨rfl, ?_, values⟩⟩
    intro usable
    rw [← values port]
    exact refused.resolve_left usable
  · rename_i granted
    obtain ⟨usable, free⟩ := not_or.mp granted
    have free := not_not.mp free
    refine ⟨reaped.toggle usable (.inl free) (.inr rfl) ?_, cursor, .inl ⟨rfl, usable, ?_, ?_⟩⟩
    · simp only [free, if_neg available_ne_active, if_true]
    · rw [← values port]
      exact free
    · intro other
      change (FamilyPorts.setExpiry _ port activePort).expiresAt other = _
      rw [setExpiry_expiresAt, values other]

variable {port : Port}

theorem nextPort_val (usable : port ≠ 0) : (nextPort port).val = port.val % 65535 + 1 := by
  have positive : port.val ≠ 0 := fun zero => usable (Fin.ext zero)
  unfold nextPort
  split
  · rename_i last
    subst last
    rfl
  · rename_i inner
    have bound : port.val ≠ 65535 := fun last => inner (Fin.ext last)
    have below := port.isLt
    rw [Fin.val_add_eq_ite]
    simp only [Fin.val_one]
    split <;> omega

theorem nextPort_ne_zero (usable : port ≠ 0) : nextPort port ≠ 0 := by
  intro zero
  have := nextPort_val usable
  rw [zero] at this
  simp at this

theorem iterate_nextPort (usable : port ≠ 0) (turns : Nat) :
    (nextPort^[turns] port).val = (port.val - 1 + turns) % 65535 + 1 := by
  have positive : port.val ≠ 0 := fun zero => usable (Fin.ext zero)
  have below := port.isLt
  induction turns with
  | zero => simp only [Function.iterate_zero, id_eq]; omega
  | succ turns ih =>
    have visited : nextPort^[turns] port ≠ 0 := by
      intro zero
      rw [zero] at ih
      simp at ih
    rw [Function.iterate_succ_apply', nextPort_val visited, ih]
    omega

theorem exists_iterate_nextPort {cursor : Port} (start : cursor ≠ 0) (usable : port ≠ 0) :
    ∃ turns < 65535, nextPort^[turns] cursor = port := by
  have positiveStart : cursor.val ≠ 0 := fun zero => start (Fin.ext zero)
  have positive : port.val ≠ 0 := fun zero => usable (Fin.ext zero)
  have belowStart := cursor.isLt
  have below := port.isLt
  refine ⟨(port.val + 65535 - cursor.val) % 65535, Nat.mod_lt _ (by omega), Fin.ext ?_⟩
  rw [iterate_nextPort start]
  omega

theorem Consistent.allocateLoop (consistent : ports.Consistent) {now : Int}
    (settled : ∀ port, reapValue now (ports.expiresAt port) = ports.expiresAt port) (turns : Nat) :
    (allocateLoop now turns ports).1.Consistent ∧
      ((∃ port, (allocateLoop now turns ports).2 = some port ∧ port ≠ 0 ∧ ports.expiresAt port = available ∧
          ∀ other, (allocateLoop now turns ports).1.expiresAt other =
            if other = port then activePort else ports.expiresAt other) ∨
        (allocateLoop now turns ports).2 = none ∧
          (∀ other, (allocateLoop now turns ports).1.expiresAt other = ports.expiresAt other) ∧
          ∀ turn < turns, ports.expiresAt (nextPort^[turn] ports.cursor) ≠ available) := by
  induction turns generalizing ports with
  | zero => exact ⟨consistent, .inr ⟨rfl, fun _ => rfl, fun _ impossible => absurd impossible (by omega)⟩⟩
  | succ turns ih =>
    have advanced : { ports with cursor := nextPort ports.cursor }.Consistent :=
      { consistent with cursor := nextPort_ne_zero consistent.cursor }
    obtain ⟨next, cursor, outcome⟩ := advanced.claim ports.cursor now
    unfold FamilyPorts.allocateLoop
    dsimp only
    rcases outcome with ⟨granted, usable, free, values⟩ | ⟨refused, taken, values⟩
    · rw [if_pos granted]
      refine ⟨next, .inl ⟨ports.cursor, rfl, usable, by simpa [settled] using free, ?_⟩⟩
      simpa [settled] using values
    · rw [if_neg (by simp [refused])]
      have same : ∀ other, ({ ports with cursor := nextPort ports.cursor }.claim ports.cursor now).1.expiresAt other =
          ports.expiresAt other := by simpa [settled] using values
      obtain ⟨after, result⟩ := ih next (by simpa [same] using settled)
      refine ⟨after, ?_⟩
      simp only [same, cursor] at result
      rcases result with found | ⟨none, table, visited⟩
      · exact .inl found
      · refine .inr ⟨none, table, ?_⟩
        intro turn bound
        cases turn with
        | zero => simpa [settled] using taken consistent.cursor
        | succ turn => exact visited turn (by omega)

theorem Consistent.active_add_quarantined (consistent : ports.Consistent)
    (full : ports.active + ports.quarantined = portSlots - 1) (usable : port ≠ 0) : ports.expiresAt port ≠ available := by
  intro free
  have disjoint : Disjoint (Finset.univ.filter fun port => ports.expiresAt port = activePort)
      (Finset.univ.filter fun port => Quarantined (ports.expiresAt port)) :=
    Finset.disjoint_filter.mpr fun _ _ isActive quarantined => quarantined.2 isActive
  have inside : (Finset.univ.filter fun port => ports.expiresAt port = activePort) ∪
      (Finset.univ.filter fun port => Quarantined (ports.expiresAt port)) ⊆ (Finset.univ.erase 0).erase port := by
    intro other member
    have taken : ports.expiresAt other ≠ available := by
      rcases Finset.mem_union.mp member with isActive | quarantined
      · rw [(Finset.mem_filter.mp isActive).2]
        exact available_ne_active.symm
      · exact (Finset.mem_filter.mp quarantined).2.1
    refine Finset.mem_erase.mpr ⟨?_, Finset.mem_erase.mpr ⟨?_, Finset.mem_univ _⟩⟩
    · rintro rfl
      exact taken free
    · rintro rfl
      exact taken consistent.reserved
  have usablePorts : (Finset.univ.erase (0 : Port)).card + 1 = 65536 :=
    (Finset.card_erase_add_one (Finset.mem_univ _)).trans (Finset.card_fin 65536)
  have others : ((Finset.univ.erase (0 : Port)).erase port).card + 1 = (Finset.univ.erase (0 : Port)).card :=
    Finset.card_erase_add_one (Finset.mem_erase.mpr ⟨usable, Finset.mem_univ _⟩)
  have bound := Finset.card_le_card inside
  rw [Finset.card_union_of_disjoint disjoint] at bound
  have total : (Finset.univ.filter fun port => ports.expiresAt port = activePort).card +
      (Finset.univ.filter fun port => Quarantined (ports.expiresAt port)).card = 65535 := by
    rw [consistent.active, consistent.quarantined] at full
    exact full
  omega

theorem Consistent.allocate (consistent : ports.Consistent) (now : Int) :
    (ports.allocate now).1.Consistent ∧
      ((∃ port, (ports.allocate now).2 = some port ∧ port ≠ 0 ∧ reapValue now (ports.expiresAt port) = available ∧
          ∀ other, (ports.allocate now).1.expiresAt other =
            if other = port then activePort else reapValue now (ports.expiresAt other)) ∨
        (ports.allocate now).2 = none ∧
          (∀ other, (ports.allocate now).1.expiresAt other = reapValue now (ports.expiresAt other)) ∧
          ∀ port, port ≠ 0 → (ports.allocate now).1.expiresAt port ≠ available) := by
  obtain ⟨reaped, values, _, _⟩ := consistent.reap now
  unfold FamilyPorts.allocate
  dsimp only
  split
  · rename_i full
    exact ⟨reaped, .inr ⟨rfl, values, fun port usable => reaped.active_add_quarantined full usable⟩⟩
  · have settled : ∀ port, reapValue now ((ports.reap now).1.expiresAt port) = (ports.reap now).1.expiresAt port := by
      intro port
      rw [values port, reapValue_reapValue]
    obtain ⟨after, result⟩ := reaped.allocateLoop settled (portSlots - 1)
    refine ⟨after, ?_⟩
    simp only [values] at result
    rcases result with found | ⟨none, table, visited⟩
    · exact .inl found
    · refine .inr ⟨none, table, ?_⟩
      intro port usable
      obtain ⟨turn, bound, rfl⟩ := exists_iterate_nextPort reaped.cursor usable
      rw [table]
      exact visited turn bound

end FamilyPorts

/-- What `observe_time` does to one value of the table. -/
def observeValue (now value : Int) : Int :=
  if value = pendingReleasePort then (quarantineDeadline now).getD pendingReleasePort else value

namespace FamilyPorts

theorem startAll_expiresAt (deadline : Int) (pending : List Port) (ports : FamilyPorts) (port : Port) :
    (pending.foldl (startQuarantine deadline) ports).expiresAt port =
      if port ∈ pending then deadline else ports.expiresAt port := by
  induction pending generalizing ports with
  | nil => simp
  | cons first rest ih =>
    rw [List.foldl_cons, ih]
    by_cases later : port ∈ rest
    · simp [later]
    · by_cases same : port = first
      · simp [same, startQuarantine]
      · simp [later, same, startQuarantine]

theorem Consistent.observeTime_expiresAt {ports : FamilyPorts} (consistent : ports.Consistent) (now : Int) (port : Port) :
    (ports.observeTime now).expiresAt port = observeValue now (ports.expiresAt port) := by
  unfold FamilyPorts.observeTime observeValue
  split
  · rename_i empty
    rw [if_neg]
    rw [← consistent.pending, List.eq_nil_of_length_eq_zero (consistent.pendingRelease.symm.trans empty)]
    exact List.not_mem_nil
  · split
    · rename_i none
      rw [none]
      split
      · rename_i pending
        exact pending
      · rfl
    · rename_i deadline found
      rw [startAll_expiresAt, found]
      simp only [consistent.pending, Option.getD_some]

theorem unclaim_expiresAt (ports : FamilyPorts) (port other : Port) :
    (ports.unclaim port).expiresAt other =
      if other = port ∧ port ≠ 0 ∧ ports.expiresAt port = activePort then available else ports.expiresAt other := by
  unfold unclaim
  split
  · rename_i held
    simp [held]
  · rename_i free
    rw [if_neg (fun both => free both.2)]

theorem deferRelease_expiresAt (ports : FamilyPorts) (port other : Port) :
    (ports.deferRelease port).expiresAt other =
      if other = port ∧ port ≠ 0 ∧ ports.expiresAt port = activePort then pendingReleasePort
      else ports.expiresAt other := by
  unfold deferRelease
  split
  · rename_i free
    rw [if_neg (fun both => free.elim both.2.1 (fun idle => idle both.2.2))]
  · rename_i held
    obtain ⟨usable, isActive⟩ := not_or.mp held
    simp [usable, not_not.mp isActive]

theorem release_expiresAt (ports : FamilyPorts) (port other : Port) (now : Int) :
    (ports.release port now).expiresAt other =
      if other = port ∧ port ≠ 0 ∧ ports.expiresAt port = activePort then (quarantineDeadline now).getD pendingReleasePort
      else ports.expiresAt other := by
  unfold release
  split
  · rename_i free
    rw [if_neg (fun both => free.elim both.2.1 (fun idle => idle both.2.2))]
  · rename_i held
    obtain ⟨usable, isActive⟩ := not_or.mp held
    split
    · rename_i none
      rw [deferRelease_expiresAt, none]
      rfl
    · rename_i deadline found
      simp [usable, not_not.mp isActive, found]

end FamilyPorts

/-- The calls of `PortQuarantine`. -/
inductive PortCall
  | allocate (family : AddressFamily) (nowMillis : Int)
  | claim (family : AddressFamily) (port : Port)
  | unclaim (family : AddressFamily) (port : Port)
  | release (family : AddressFamily) (port : Port) (nowMillis : Int)
  | deferRelease (family : AddressFamily) (port : Port)
  | reap (nowMillis : Int)

/-- The calls that read the clock. -/
def PortCall.observes : PortCall → Bool
  | .allocate .. | .release .. | .reap _ => true
  | .claim .. | .unclaim .. | .deferRelease .. => false

def PortCall.GivesBack (call : PortCall) (family : AddressFamily) (port : Port) : Prop :=
  call = .unclaim family port ∨ (∃ now, call = .release family port now) ∨ call = .deferRelease family port

/-- What one call can do to the value of one port at the clock that it leaves, and whether it
hands that port out. -/
inductive PortMove (call : PortCall) (family : AddressFamily) (port : Port) (clock : Int) : Bool → Int → Int → Prop
  | kept (value : Int) : PortMove call family port clock false value value
  | reaped (value : Int) : PortMove call family port clock false value (reapValue clock value)
  | taken {value : Int} : port ≠ 0 → reapValue clock value = available →
      PortMove call family port clock true value activePort
  | unclaimed : call = .unclaim family port → PortMove call family port clock false activePort available
  | released {now : Int} : call = .release family port now →
      PortMove call family port clock false activePort ((quarantineDeadline clock).getD pendingReleasePort)
  | deferred : call = .deferRelease family port →
      PortMove call family port clock false activePort pendingReleasePort

namespace PortQuarantine

/-- Performs a call, and tells which port it hands out. -/
def perform (quarantine : PortQuarantine) : PortCall → PortQuarantine × Option (AddressFamily × Port)
  | .allocate family now =>
    let (quarantine, port) := quarantine.allocate family now
    (quarantine, port.map (family, ·))
  | .claim family port =>
    let (quarantine, claimed) := quarantine.claim family port
    (quarantine, if claimed then some (family, port) else none)
  | .unclaim family port => (quarantine.unclaim family port, none)
  | .release family port now => (quarantine.release family port now, none)
  | .deferRelease family port => (quarantine.deferRelease family port, none)
  | .reap now => ((quarantine.reap now).1, none)

def step (quarantine : PortQuarantine) (call : PortCall) : PortQuarantine := (quarantine.perform call).1

def run (quarantine : PortQuarantine) (calls : List PortCall) : PortQuarantine := calls.foldl step quarantine

def HandsOut (quarantine : PortQuarantine) (call : PortCall) (family : AddressFamily) (port : Port) : Prop :=
  (quarantine.perform call).2 = some (family, port)

instance (quarantine : PortQuarantine) (call : PortCall) (family : AddressFamily) (port : Port) :
    Decidable (quarantine.HandsOut call family port) :=
  inferInstanceAs (Decidable ((quarantine.perform call).2 = some (family, port)))

/-- Both families are consistent, and the clock started at 0. -/
structure Consistent (quarantine : PortQuarantine) : Prop where
  ports : ∀ family, (quarantine.family family).Consistent
  clock : 0 ≤ quarantine.lastNowMillis

theorem new_consistent : new.Consistent where
  ports := by
    rintro (_ | _)
    · exact FamilyPorts.new_consistent
    · exact FamilyPorts.new_consistent
  clock := le_rfl

section

variable (quarantine : PortQuarantine)

@[simp] theorem setFamily_family (family other : AddressFamily) (ports : FamilyPorts) :
    (quarantine.setFamily family ports).family other = if other = family then ports else quarantine.family other := by
  cases family <;> cases other <;> rfl

@[simp] theorem setFamily_lastNowMillis (family : AddressFamily) (ports : FamilyPorts) :
    (quarantine.setFamily family ports).lastNowMillis = quarantine.lastNowMillis := by
  cases family <;> rfl

@[simp] theorem observeTime_family (now : Int) (family : AddressFamily) :
    (quarantine.observeTime now).family family =
      (quarantine.family family).observeTime (max quarantine.lastNowMillis now) := by
  cases family <;> rfl

@[simp] theorem observeTime_lastNowMillis (now : Int) :
    (quarantine.observeTime now).lastNowMillis = max quarantine.lastNowMillis now := rfl

end

variable {quarantine : PortQuarantine}

section

variable (consistent : quarantine.Consistent)
include consistent

theorem Consistent.setFamily (family : AddressFamily) {ports : FamilyPorts}
    (held : ports.Consistent) : (quarantine.setFamily family ports).Consistent where
  ports := by
    intro other
    rw [setFamily_family]
    split
    · exact held
    · exact consistent.ports other
  clock := by
    rw [setFamily_lastNowMillis]
    exact consistent.clock

theorem Consistent.observeTime (now : Int) : (quarantine.observeTime now).Consistent where
  ports family := by
    rw [observeTime_family]
    exact (consistent.ports family).observeTime (le_max_of_le_left consistent.clock)
  clock := le_max_of_le_left consistent.clock

theorem Consistent.step (call : PortCall) : (quarantine.step call).Consistent := by
  cases call with
  | allocate family now =>
    exact (consistent.observeTime now).setFamily family (((consistent.observeTime now).ports family).allocate _).1
  | claim family port => exact consistent.setFamily family ((consistent.ports family).claim port _).1
  | unclaim family port => exact consistent.setFamily family ((consistent.ports family).unclaim port)
  | release family port now =>
    exact (consistent.observeTime now).setFamily family
      (((consistent.observeTime now).ports family).release port (consistent.observeTime now).clock)
  | deferRelease family port => exact consistent.setFamily family ((consistent.ports family).deferRelease port)
  | reap now =>
    refine ⟨?_, (consistent.observeTime now).clock⟩
    rintro (_ | _)
    · exact (((consistent.observeTime now).ports .ipv4).reap _).1
    · exact (((consistent.observeTime now).ports .ipv6).reap _).1

theorem Consistent.run (calls : List PortCall) : (quarantine.run calls).Consistent := by
  induction calls generalizing quarantine with
  | nil => exact consistent
  | cons call rest ih => exact ih (consistent.step call)

end

def value (quarantine : PortQuarantine) (family : AddressFamily) (port : Port) : Int :=
  (quarantine.family family).expiresAt port

/-- The value of one port after the clock of a call has been observed. -/
def observed (quarantine : PortQuarantine) (call : PortCall) (family : AddressFamily) (port : Port) : Int :=
  if call.observes then observeValue (quarantine.step call).lastNowMillis (quarantine.value family port)
  else quarantine.value family port

theorem Consistent.observeTime_value (consistent : quarantine.Consistent) (now : Int) (family : AddressFamily) (port : Port) :
    ((quarantine.observeTime now).family family).expiresAt port =
      observeValue (max quarantine.lastNowMillis now) (quarantine.value family port) := by
  rw [observeTime_family, (consistent.ports family).observeTime_expiresAt]
  rfl

theorem Consistent.allocate_move (consistent : quarantine.Consistent) (owner family : AddressFamily) (now : Int)
    (port : Port) :
    PortMove (.allocate owner now) family port (max quarantine.lastNowMillis now)
      (decide (quarantine.HandsOut (.allocate owner now) family port))
      (((quarantine.observeTime now).family family).expiresAt port)
      ((if family = owner then (((quarantine.observeTime now).family owner).allocate (max quarantine.lastNowMillis now)).1
        else (quarantine.observeTime now).family family).expiresAt port) := by
  have handed : quarantine.HandsOut (.allocate owner now) family port ↔ owner = family ∧
      (((quarantine.observeTime now).family owner).allocate (max quarantine.lastNowMillis now)).2 = some port := by
    change Option.map (fun granted => (owner, granted))
      (((quarantine.observeTime now).family owner).allocate (max quarantine.lastNowMillis now)).2 = some (family, port) ↔ _
    rw [Option.map_eq_some_iff]
    constructor
    · rintro ⟨granted, found, same⟩
      cases same
      exact ⟨rfl, found⟩
    · rintro ⟨rfl, found⟩
      exact ⟨port, found, rfl⟩
  by_cases same : family = owner
  · subst same
    rw [if_pos rfl]
    obtain ⟨_, ⟨granted, found, usable, free, values⟩ | ⟨refused, values, _⟩⟩ :=
      ((consistent.observeTime now).ports family).allocate (max quarantine.lastNowMillis now)
    · rw [values]
      by_cases chosen : port = granted
      · subst chosen
        rw [if_pos rfl, decide_eq_true (handed.mpr ⟨rfl, found⟩)]
        exact .taken usable free
      · rw [if_neg chosen, decide_eq_false]
        · exact .reaped _
        · intro out
          exact chosen (Option.some.inj ((handed.mp out).2.symm.trans found))
    · rw [values, decide_eq_false]
      · exact .reaped _
      · intro out
        exact absurd (refused.symm.trans (handed.mp out).2) (by simp)
  · rw [if_neg same, decide_eq_false fun out => same (handed.mp out).1.symm]
    exact .kept _

theorem Consistent.claim_move (consistent : quarantine.Consistent) (owner family : AddressFamily) (claimed port : Port) :
    PortMove (.claim owner claimed) family port quarantine.lastNowMillis
      (decide (quarantine.HandsOut (.claim owner claimed) family port)) ((quarantine.family family).expiresAt port)
      ((if family = owner then ((quarantine.family owner).claim claimed quarantine.lastNowMillis).1
        else quarantine.family family).expiresAt port) := by
  have handed : quarantine.HandsOut (.claim owner claimed) family port ↔
      ((quarantine.family owner).claim claimed quarantine.lastNowMillis).2 = true ∧ owner = family ∧ claimed = port := by
    change (if ((quarantine.family owner).claim claimed quarantine.lastNowMillis).2 then some (owner, claimed) else none) =
      some (family, port) ↔ _
    split
    · rename_i granted
      simp [granted]
    · rename_i refused
      simp [refused]
  by_cases same : family = owner
  · subst same
    rw [if_pos rfl]
    obtain ⟨_, _, ⟨granted, usable, free, values⟩ | ⟨refused, _, values⟩⟩ :=
      (consistent.ports family).claim claimed quarantine.lastNowMillis
    · rw [values]
      by_cases chosen : port = claimed
      · subst chosen
        rw [if_pos rfl, decide_eq_true (handed.mpr ⟨granted, rfl, rfl⟩)]
        exact .taken usable free
      · rw [if_neg chosen, decide_eq_false fun out => chosen (handed.mp out).2.2.symm]
        exact .reaped _
    · rw [values, decide_eq_false]
      · exact .reaped _
      · intro out
        exact absurd (refused.symm.trans (handed.mp out).1) (by simp)
  · rw [if_neg same, decide_eq_false fun out => same (handed.mp out).2.1.symm]
    exact .kept _

theorem giveBack_move {quarantine : PortQuarantine} {call : PortCall} {owner family : AddressFamily} {given port : Port}
    {clock target : Int} {next : FamilyPorts}
    (values : ∀ other, next.expiresAt other =
      if other = given ∧ given ≠ 0 ∧ (quarantine.family owner).expiresAt given = activePort then target
      else (quarantine.family owner).expiresAt other)
    (ended : family = owner → port = given → PortMove call family port clock false activePort target) :
    PortMove call family port clock false (quarantine.value family port)
      ((quarantine.setFamily owner next).value family port) := by
  unfold value
  rw [setFamily_family]
  split
  · rename_i same
    subst same
    rw [values]
    split
    · rename_i held
      obtain ⟨rfl, _, isActive⟩ := held
      rw [isActive]
      exact ended rfl rfl
    · exact .kept _
  · exact .kept _

theorem Consistent.move (consistent : quarantine.Consistent) (call : PortCall) (family : AddressFamily) (port : Port) :
    PortMove call family port (quarantine.step call).lastNowMillis (decide (quarantine.HandsOut call family port))
      (quarantine.observed call family port) ((quarantine.step call).value family port) := by
  have start : ∀ now, observeValue (max quarantine.lastNowMillis now) (quarantine.value family port) =
      (quarantine.observeTime now).value family port := fun now => (consistent.observeTime_value now family port).symm
  cases call with
  | allocate owner now =>
    change PortMove _ _ _ ((quarantine.observeTime now).setFamily owner _).lastNowMillis _
      (observeValue ((quarantine.observeTime now).setFamily owner _).lastNowMillis _)
      ((((quarantine.observeTime now).setFamily owner _).family family).expiresAt port)
    rw [setFamily_family, setFamily_lastNowMillis, observeTime_lastNowMillis, start]
    exact consistent.allocate_move owner family now port
  | claim owner claimed =>
    change PortMove _ _ _ (quarantine.setFamily owner _).lastNowMillis _ (quarantine.value family port)
      (((quarantine.setFamily owner _).family family).expiresAt port)
    rw [setFamily_family, setFamily_lastNowMillis]
    exact consistent.claim_move owner family claimed port
  | unclaim owner given =>
    rw [decide_eq_false (fun out => nomatch out)]
    exact giveBack_move (fun other => FamilyPorts.unclaim_expiresAt _ given other)
      (fun sameFamily samePort => .unclaimed (by rw [sameFamily, samePort]))
  | release owner given now =>
    change PortMove _ _ _ ((quarantine.observeTime now).setFamily owner _).lastNowMillis _
      (observeValue ((quarantine.observeTime now).setFamily owner _).lastNowMillis _)
      (((quarantine.observeTime now).setFamily owner _).value family port)
    rw [setFamily_lastNowMillis, observeTime_lastNowMillis, start, decide_eq_false (fun out => nomatch out)]
    exact giveBack_move (fun other => FamilyPorts.release_expiresAt _ given other _)
      (fun sameFamily samePort => .released (by rw [sameFamily, samePort]))
  | deferRelease owner given =>
    rw [decide_eq_false (fun out => nomatch out)]
    exact giveBack_move (fun other => FamilyPorts.deferRelease_expiresAt _ given other)
      (fun sameFamily samePort => .deferred (by rw [sameFamily, samePort]))
  | reap now =>
    have after : (quarantine.step (.reap now)).value family port =
        (((quarantine.observeTime now).family family).reap (max quarantine.lastNowMillis now)).1.expiresAt port := by
      cases family <;> rfl
    have before : quarantine.observed (.reap now) family port = (quarantine.observeTime now).value family port := start now
    rw [after, before, (((consistent.observeTime now).ports family).reap _).2.1, decide_eq_false (fun out => nomatch out)]
    exact .reaped _

end PortQuarantine

end Ferrum.Tun
