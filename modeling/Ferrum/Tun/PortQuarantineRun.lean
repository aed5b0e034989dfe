import Ferrum.Tun.PortQuarantineStep

namespace Ferrum.Tun.PortQuarantine

theorem lastNowMillis_le_step (quarantine : PortQuarantine) (call : PortCall) :
    quarantine.lastNowMillis ≤ (quarantine.step call).lastNowMillis := by
  cases call with
  | allocate family now | release family port now => exact (le_max_left _ now).trans (setFamily_lastNowMillis _ _ _).ge
  | claim family port | unclaim family port | deferRelease family port => exact (setFamily_lastNowMillis _ _ _).ge
  | reap now => exact le_max_left _ now

variable {quarantine : PortQuarantine} {family : AddressFamily} {port : Port} {bound : Int}

theorem Consistent.active_step (consistent : quarantine.Consistent) {call : PortCall}
    (isActive : quarantine.value family port = activePort)
    (owned : ¬call.GivesBack family port) :
    (quarantine.step call).value family port = activePort ∧ ¬quarantine.HandsOut call family port := by
  have start : quarantine.observed call family port = activePort := by
    unfold observed observeValue
    rw [isActive, if_neg active_ne_pending, ite_self]
  have move := consistent.move call family port
  rw [start] at move
  generalize after : (quarantine.step call).value family port = value at move
  generalize handed : decide (quarantine.HandsOut call family port) = out at move
  cases move with
  | kept => exact ⟨rfl, of_decide_eq_false handed⟩
  | reaped => exact ⟨reapValue_active _, of_decide_eq_false handed⟩
  | taken usable free => exact absurd ((reapValue_active _).symm.trans free) available_ne_active.symm
  | unclaimed same => exact absurd (.inl same) owned
  | released same => exact absurd (.inr (.inl ⟨_, same⟩)) owned
  | deferred same => exact absurd (.inr (.inr same)) owned

/-- A value that keeps its port from being handed out before the clock reaches `bound`. -/
def Withheld (bound clock value : Int) : Prop :=
  value = pendingReleasePort ∧ bound ≤ clock + portQuarantineMillis ∨ Timed value ∧ bound ≤ value ∨ bound ≤ clock

theorem Withheld.observe {clock later value : Int} (withheld : Withheld bound clock value)
    (nonneg : 0 ≤ later) (ordered : clock ≤ later) : Withheld bound later (observeValue later value) := by
  unfold observeValue
  rcases withheld with ⟨rfl, recent⟩ | ⟨timed, beyond⟩ | reached
  · rw [if_pos rfl]
    cases found : quarantineDeadline later with
    | none => exact .inl ⟨rfl, by omega⟩
    | some deadline =>
      obtain ⟨rfl, below⟩ := (quarantineDeadline_eq_some nonneg).mp found
      exact .inr (.inl ⟨timed_deadline nonneg below, by simp only [Option.getD_some]; omega⟩)
  · rw [if_neg timed.2.2]
    exact .inr (.inl ⟨timed, beyond⟩)
  · exact .inr (.inr (reached.trans ordered))

theorem Withheld.move {clock before after : Int} {call : PortCall}
    {handed : Bool} (move : PortMove call family port clock handed before after)
    (withheld : Withheld bound clock before) : Withheld bound clock after ∧ (handed = true → bound ≤ clock) := by
  have owned : before = activePort → bound ≤ clock := by
    rintro rfl
    rcases withheld with ⟨pending, _⟩ | ⟨timed, _⟩ | reached
    · exact absurd pending active_ne_pending
    · exact absurd rfl timed.2.1
    · exact reached
  cases move with
  | kept => exact ⟨withheld, fun impossible => nomatch impossible⟩
  | reaped =>
    refine ⟨?_, fun impossible => nomatch impossible⟩
    rcases withheld with ⟨rfl, recent⟩ | ⟨timed, beyond⟩ | reached
    · rw [reapValue_pending]
      exact .inl ⟨rfl, recent⟩
    · by_cases due : before ≤ clock
      · exact .inr (.inr (beyond.trans due))
      · rw [reapValue_of_later fun _ => not_le.mp due]
        exact .inr (.inl ⟨timed, beyond⟩)
    · exact .inr (.inr reached)
  | taken usable free =>
    have reached : bound ≤ clock := by
      rcases withheld with ⟨rfl, _⟩ | ⟨timed, beyond⟩ | reached
      · rw [reapValue_pending] at free
        exact absurd free available_ne_pending.symm
      · by_contra early
        rw [reapValue_of_later fun _ => by omega] at free
        exact timed.1 free
      · exact reached
    exact ⟨.inr (.inr reached), fun _ => reached⟩
  | unclaimed | released | deferred => exact ⟨.inr (.inr (owned rfl)), fun impossible => nomatch impossible⟩

section

variable (consistent : quarantine.Consistent)
include consistent

theorem Consistent.withheld_step {call : PortCall}
    (withheld : Withheld bound quarantine.lastNowMillis (quarantine.value family port)) :
    Withheld bound (quarantine.step call).lastNowMillis ((quarantine.step call).value family port) ∧
      (quarantine.HandsOut call family port → bound ≤ (quarantine.step call).lastNowMillis) := by
  have ordered := quarantine.lastNowMillis_le_step call
  have start : Withheld bound (quarantine.step call).lastNowMillis (quarantine.observed call family port) := by
    unfold observed
    split
    · exact withheld.observe (consistent.clock.trans ordered) ordered
    · rcases withheld with ⟨pending, recent⟩ | timed | reached
      · exact .inl ⟨pending, by omega⟩
      · exact .inr (.inl timed)
      · exact .inr (.inr (reached.trans ordered))
  obtain ⟨after, handed⟩ := Withheld.move (consistent.move call family port) start
  exact ⟨after, fun out => handed (decide_eq_true out)⟩

theorem Consistent.withheld_run
    (withheld : Withheld bound quarantine.lastNowMillis (quarantine.value family port)) (calls : List PortCall)
    (again : PortCall) (out : (quarantine.run calls).HandsOut again family port) :
    bound ≤ ((quarantine.run calls).step again).lastNowMillis := by
  induction calls generalizing quarantine with
  | nil => exact (consistent.withheld_step withheld).2 out
  | cons call rest ih => exact ih (consistent.step call) (consistent.withheld_step withheld).1 out

theorem Consistent.handsOut {call : PortCall} (out : quarantine.HandsOut call family port) :
    port ≠ 0 ∧ (quarantine.step call).value family port = activePort := by
  have move := consistent.move call family port
  rw [decide_eq_true out] at move
  generalize after : (quarantine.step call).value family port = value at move
  cases move with
  | taken usable free => exact ⟨usable, rfl⟩

theorem Consistent.active_run (isActive : quarantine.value family port = activePort) {calls : List PortCall}
    (owned : ∀ call ∈ calls, ¬call.GivesBack family port) : (quarantine.run calls).value family port = activePort := by
  induction calls generalizing quarantine with
  | nil => exact isActive
  | cons call rest ih =>
    exact ih (consistent.step call) (consistent.active_step isActive (owned call List.mem_cons_self)).1
      fun later member => owned later (List.mem_cons_of_mem _ member)

theorem Consistent.handsOut_not_active
    {call : PortCall} (out : quarantine.HandsOut call family port) : quarantine.value family port ≠ activePort := by
  intro isActive
  refine (consistent.active_step isActive ?_).2 out
  rintro (same | ⟨_, same⟩ | same) <;> subst same <;> exact nomatch out

theorem Consistent.release_withheld (isActive : quarantine.value family port = activePort) (now : Int) :
    Withheld (max quarantine.lastNowMillis now + portQuarantineMillis)
      (quarantine.step (.release family port now)).lastNowMillis
      ((quarantine.step (.release family port now)).value family port) := by
  have nonneg : 0 ≤ max quarantine.lastNowMillis now := le_max_of_le_left consistent.clock
  have usable : port ≠ 0 := by
    rintro rfl
    exact available_ne_active ((consistent.ports family).reserved.symm.trans isActive)
  have stays : ((quarantine.observeTime now).family family).expiresAt port = activePort := by
    rw [consistent.observeTime_value, isActive, observeValue, if_neg active_ne_pending]
  have clock : (quarantine.step (.release family port now)).lastNowMillis = max quarantine.lastNowMillis now :=
    setFamily_lastNowMillis _ _ _
  have after : (quarantine.step (.release family port now)).value family port =
      (quarantineDeadline (max quarantine.lastNowMillis now)).getD pendingReleasePort := by
    change (((quarantine.observeTime now).setFamily family _).family family).expiresAt port = _
    rw [setFamily_family, if_pos rfl, FamilyPorts.release_expiresAt, if_pos ⟨rfl, usable, stays⟩]
    rfl
  rw [after, clock]
  cases found : quarantineDeadline (max quarantine.lastNowMillis now) with
  | none => exact .inl ⟨rfl, le_rfl⟩
  | some deadline =>
    obtain ⟨rfl, below⟩ := (quarantineDeadline_eq_some nonneg).mp found
    exact .inr (.inl ⟨timed_deadline nonneg below, le_rfl⟩)

theorem Consistent.deferRelease_pending (isActive : quarantine.value family port = activePort) :
    (quarantine.step (.deferRelease family port)).value family port = pendingReleasePort := by
  have usable : port ≠ 0 := by
    rintro rfl
    exact available_ne_active ((consistent.ports family).reserved.symm.trans isActive)
  change ((quarantine.setFamily family _).family family).expiresAt port = _
  rw [setFamily_family, if_pos rfl, FamilyPorts.deferRelease_expiresAt, if_pos ⟨rfl, usable, isActive⟩]

theorem Consistent.pending_step (pending : quarantine.value family port = pendingReleasePort) (call : PortCall) :
    ¬quarantine.HandsOut call family port ∧
      (call.observes = false → (quarantine.step call).value family port = pendingReleasePort) ∧
      Withheld ((quarantine.step call).lastNowMillis + portQuarantineMillis) (quarantine.step call).lastNowMillis
        ((quarantine.step call).value family port) := by
  have ordered := quarantine.lastNowMillis_le_step call
  have start : Withheld ((quarantine.step call).lastNowMillis + portQuarantineMillis)
      (quarantine.step call).lastNowMillis (quarantine.observed call family port) := by
    unfold observed
    split
    · have pendingNow : Withheld ((quarantine.step call).lastNowMillis + portQuarantineMillis)
          (quarantine.step call).lastNowMillis (quarantine.value family port) := .inl ⟨pending, le_rfl⟩
      exact pendingNow.observe (consistent.clock.trans ordered) le_rfl
    · exact .inl ⟨pending, le_rfl⟩
  obtain ⟨after, handed⟩ := Withheld.move (consistent.move call family port) start
  refine ⟨?_, ?_, after⟩
  · intro out
    have reached := handed (decide_eq_true out)
    unfold portQuarantineMillis at reached
    omega
  · intro quiet
    have move := consistent.move call family port
    rw [observed, quiet, pending] at move
    generalize (quarantine.step call).value family port = value at move
    generalize decide (quarantine.HandsOut call family port) = out at move
    simp only [Bool.false_eq_true, if_false] at move
    generalize same : pendingReleasePort = start at move
    cases move with
    | kept => exact rfl
    | reaped =>
      subst same
      exact reapValue_pending _
    | taken usable free =>
      subst same
      exact absurd ((reapValue_pending _).symm.trans free) available_ne_pending.symm
    | unclaimed | released | deferred => exact absurd same.symm active_ne_pending

theorem Consistent.pending_run (pending : quarantine.value family port = pendingReleasePort)
    {calls : List PortCall} (quiet : ∀ call ∈ calls, call.observes = false) :
    (quarantine.run calls).value family port = pendingReleasePort := by
  induction calls generalizing quarantine with
  | nil => exact pending
  | cons call rest ih =>
    exact ih (consistent.step call) ((consistent.pending_step pending call).2.1 (quiet call List.mem_cons_self))
      fun later member => quiet later (List.mem_cons_of_mem _ member)

end

/-- In every state that a run reaches the counters, the pending list and the heap mirror the tables, a port is handed out
again only after 240 s of the observed clock, and `allocate` fails only when no usable port is left. -/
theorem run_isolates_ports (calls : List PortCall) :
    (∀ family, ((new.run calls).family family).Consistent) ∧
    (∀ call family port, (new.run calls).HandsOut call family port →
      port ≠ 0 ∧ (new.run calls).value family port ≠ activePort ∧
      ∀ later, (∀ other ∈ later, ¬other.GivesBack family port) →
        ∀ again, ¬(((new.run calls).step call).run later).HandsOut again family port) ∧
    (∀ family port now, (new.run calls).value family port = activePort →
      ∀ later again, (((new.run calls).step (.release family port now)).run later).HandsOut again family port →
        max (new.run calls).lastNowMillis now + 240000 ≤
          ((((new.run calls).step (.release family port now)).run later).step again).lastNowMillis) ∧
    (∀ family port, (new.run calls).value family port = activePort →
      ∀ quiet, (∀ call ∈ quiet, call.observes = false) →
        ∀ first, ¬(((new.run calls).step (.deferRelease family port)).run quiet).HandsOut first family port ∧
        ∀ later again,
          (((((new.run calls).step (.deferRelease family port)).run quiet).step first).run later).HandsOut again family port →
          ((((new.run calls).step (.deferRelease family port)).run quiet).step first).lastNowMillis + 240000 ≤
            ((((((new.run calls).step (.deferRelease family port)).run quiet).step first).run later).step again).lastNowMillis) ∧
    ∀ family now, ((new.run calls).allocate family now).2 = none → ∀ port, port ≠ 0 →
      ((new.run calls).allocate family now).1.value family port = activePort ∨
        Quarantined (((new.run calls).allocate family now).1.value family port) := by
  have consistent : (new.run calls).Consistent := new_consistent.run calls
  refine ⟨consistent.ports, ?_, ?_, ?_, ?_⟩
  · intro call family port out
    obtain ⟨usable, isActive⟩ := consistent.handsOut out
    refine ⟨usable, consistent.handsOut_not_active out, ?_⟩
    intro later owned again twice
    exact ((consistent.step call).run later).handsOut_not_active twice ((consistent.step call).active_run isActive owned)
  · intro family port now isActive later again out
    exact (consistent.step _).withheld_run (consistent.release_withheld isActive now) later again out
  · intro family port isActive quiet silent first
    have waiting := (consistent.step (.deferRelease family port)).run quiet
    have pending := (consistent.step _).pending_run (consistent.deferRelease_pending isActive) silent
    obtain ⟨kept, _, withheld⟩ := waiting.pending_step pending first
    exact ⟨kept, fun later again out => (waiting.step first).withheld_run withheld later again out⟩
  · intro family now failed port usable
    have after : ((new.run calls).allocate family now).1.value family port =
        ((((new.run calls).observeTime now).family family).allocate (max (new.run calls).lastNowMillis now)).1.expiresAt
          port := by
      change ((((new.run calls).observeTime now).setFamily family _).family family).expiresAt port = _
      rw [setFamily_family, if_pos rfl]
      rfl
    obtain ⟨_, ⟨granted, found, _⟩ | ⟨_, _, taken⟩⟩ :=
      ((consistent.observeTime now).ports family).allocate (max (new.run calls).lastNowMillis now)
    · exact absurd (found.symm.trans failed) (by simp)
    · rw [after]
      by_cases isActive : ((((new.run calls).observeTime now).family family).allocate
          (max (new.run calls).lastNowMillis now)).1.expiresAt port = activePort
      · exact .inl isActive
      · exact .inr ⟨taken port usable, isActive⟩

end Ferrum.Tun.PortQuarantine

namespace Ferrum.Tun

def PortCall.At (now : Int) : PortCall → Prop
  | .allocate _ time | .release _ _ time | .reap time => time = now
  | .claim .. | .unclaim .. | .deferRelease .. => True

namespace PortQuarantine

/-- Calls at one time that leave the owned ports with their owner lead from one state to the other. -/
def Leads (owned : AddressFamily × Port → Prop) (now : Int) (quarantine next : PortQuarantine) : Prop :=
  ∃ calls, next = quarantine.run calls ∧
    ∀ call ∈ calls, call.At now ∧ ∀ identity, owned identity → ¬call.GivesBack identity.1 identity.2

variable {owned : AddressFamily × Port → Prop} {now : Int} {quarantine next : PortQuarantine}

theorem Leads.refl (quarantine : PortQuarantine) : Leads owned now quarantine quarantine :=
  ⟨[], rfl, fun _ member => absurd member List.not_mem_nil⟩

theorem Leads.call {call : PortCall} (atNow : call.At now)
    (keeps : ∀ identity, owned identity → ¬call.GivesBack identity.1 identity.2) :
    Leads owned now quarantine (quarantine.step call) := by
  refine ⟨[call], rfl, ?_⟩
  intro other member
  cases List.mem_singleton.mp member
  exact ⟨atNow, keeps⟩

theorem Leads.trans {last : PortQuarantine} (first : Leads owned now quarantine next) (second : Leads owned now next last) :
    Leads owned now quarantine last := by
  obtain ⟨calls, rfl, keeps⟩ := first
  obtain ⟨more, rfl, also⟩ := second
  refine ⟨calls ++ more, (List.foldl_append).symm, ?_⟩
  intro call member
  rcases List.mem_append.mp member with early | late
  · exact keeps call early
  · exact also call late

theorem Leads.mono {fewer : AddressFamily × Port → Prop} (leads : Leads owned now quarantine next)
    (within : ∀ identity, fewer identity → owned identity) : Leads fewer now quarantine next := by
  obtain ⟨calls, rfl, keeps⟩ := leads
  exact ⟨calls, rfl, fun call member => ⟨(keeps call member).1, fun identity own =>
    (keeps call member).2 identity (within identity own)⟩⟩

theorem Leads.induct (leads : Leads owned now quarantine next) (holds : PortQuarantine → Prop) (start : holds quarantine)
    (keeps : ∀ before call, holds before → call.At now →
      (∀ identity, owned identity → ¬call.GivesBack identity.1 identity.2) → holds (before.step call)) : holds next := by
  obtain ⟨calls, rfl, respects⟩ := leads
  induction calls generalizing quarantine with
  | nil => exact start
  | cons call rest ih =>
    obtain ⟨atNow, free⟩ := respects call List.mem_cons_self
    exact ih (keeps quarantine call start atNow free) fun other member => respects other (List.mem_cons_of_mem _ member)

theorem Leads.consistent (leads : Leads owned now quarantine next) (consistent : quarantine.Consistent) : next.Consistent :=
  leads.induct Consistent consistent fun _ call before _ _ => before.step call

variable {identity : AddressFamily × Port} {bound value : Int}

theorem Leads.active (leads : Leads owned now quarantine next) (consistent : quarantine.Consistent) (own : owned identity)
    (isActive : quarantine.value identity.1 identity.2 = activePort) :
    next.value identity.1 identity.2 = activePort := by
  refine (leads.induct (fun state => state.Consistent ∧ state.value identity.1 identity.2 = activePort)
    ⟨consistent, isActive⟩ ?_).2
  rintro before call ⟨held, stays⟩ _ free
  exact ⟨held.step call, (held.active_step stays (free identity own)).1⟩

theorem Leads.withheld (leads : Leads owned now quarantine next) (consistent : quarantine.Consistent)
    (withheld : Withheld bound quarantine.lastNowMillis (quarantine.value identity.1 identity.2)) :
    Withheld bound next.lastNowMillis (next.value identity.1 identity.2) := by
  refine (leads.induct (fun state => state.Consistent ∧ Withheld bound state.lastNowMillis (state.value identity.1 identity.2))
    ⟨consistent, withheld⟩ ?_).2
  rintro before call ⟨held, kept⟩ _ _
  exact ⟨held.step call, (held.withheld_step kept).1⟩

theorem step_lastNowMillis_le (quarantine : PortQuarantine) {call : PortCall} (atNow : call.At now) :
    (quarantine.step call).lastNowMillis ≤ max quarantine.lastNowMillis now := by
  cases call with
  | allocate family time | release family port time =>
    cases atNow
    exact (setFamily_lastNowMillis _ _ _).le
  | claim family port | unclaim family port | deferRelease family port =>
    exact (setFamily_lastNowMillis _ _ _).le.trans (le_max_left _ _)
  | reap time =>
    cases atNow
    exact le_rfl

theorem Leads.clock (leads : Leads owned now quarantine next) :
    quarantine.lastNowMillis ≤ next.lastNowMillis ∧ next.lastNowMillis ≤ max quarantine.lastNowMillis now := by
  refine leads.induct (fun state => quarantine.lastNowMillis ≤ state.lastNowMillis ∧
    state.lastNowMillis ≤ max quarantine.lastNowMillis now) ⟨le_rfl, le_max_left _ _⟩ ?_
  rintro before call ⟨after, bounded⟩ atNow _
  have step := before.step_lastNowMillis_le atNow
  exact ⟨after.trans (before.lastNowMillis_le_step call), by omega⟩

def Cooling (now value : Int) : Prop := value = pendingReleasePort ∨ Timed value ∧ now < value

theorem Cooling.observe (nonneg : 0 ≤ now) (cooling : Cooling now value) : Cooling now (observeValue now value) := by
  unfold observeValue
  rcases cooling with rfl | ⟨timed, late⟩
  · rw [if_pos rfl]
    cases found : quarantineDeadline now with
    | none => exact .inl rfl
    | some deadline =>
      obtain ⟨rfl, below⟩ := (quarantineDeadline_eq_some nonneg).mp found
      exact .inr ⟨timed_deadline nonneg below, by simp only [Option.getD_some, portQuarantineMillis]; omega⟩
  · rw [if_neg timed.2.2]
    exact .inr ⟨timed, late⟩

theorem Cooling.ne_active (cooling : Cooling now value) : value ≠ activePort := by
  rcases cooling with rfl | ⟨timed, _⟩
  · exact active_ne_pending.symm
  · exact timed.2.1

theorem Cooling.reap {clock : Int} (cooling : Cooling now value) (past : clock ≤ now) : reapValue clock value = value := by
  rcases cooling with rfl | ⟨_, late⟩
  · exact reapValue_pending _
  · exact reapValue_of_later fun _ => by omega

theorem Cooling.ne_available (cooling : Cooling now value) : value ≠ available := by
  rcases cooling with rfl | ⟨timed, _⟩
  · exact available_ne_pending.symm
  · exact timed.1

theorem Withheld.mono {weaker clock : Int} (withheld : Withheld bound clock value) (ordered : weaker ≤ bound) :
    Withheld weaker clock value := by
  rcases withheld with ⟨pending, recent⟩ | ⟨timed, beyond⟩ | reached
  · exact .inl ⟨pending, ordered.trans recent⟩
  · exact .inr (.inl ⟨timed, ordered.trans beyond⟩)
  · exact .inr (.inr (ordered.trans reached))

theorem Withheld.cooling {clock : Int} (withheld : Withheld bound clock value) (ahead : clock < bound)
    (later : now < bound) : Cooling now value := by
  rcases withheld with ⟨pending, _⟩ | ⟨timed, beyond⟩ | reached
  · exact .inl pending
  · exact .inr ⟨timed, later.trans_le beyond⟩
  · omega

theorem Consistent.cooling_step (consistent : quarantine.Consistent) {origin : Int} {call : PortCall} (atNow : call.At now)
    (began : origin ≤ quarantine.lastNowMillis) (clock : quarantine.lastNowMillis ≤ max origin now)
    {family : AddressFamily} {port : Port} (cooling : Cooling (max origin now) (quarantine.value family port)) :
    Cooling (max origin now) ((quarantine.step call).value family port) ∧ ¬quarantine.HandsOut call family port := by
  have past : (quarantine.step call).lastNowMillis ≤ max origin now := by
    have := quarantine.step_lastNowMillis_le atNow
    omega
  have nonneg : 0 ≤ max origin now := consistent.clock.trans clock
  have start : Cooling (max origin now) (quarantine.observed call family port) := by
    unfold observed
    split
    · rename_i observes
      have reached : (quarantine.step call).lastNowMillis = max origin now := by
        have ahead : max quarantine.lastNowMillis now = max origin now := by omega
        rw [← ahead]
        cases call with
        | allocate family time | release family port time =>
          cases atNow
          exact setFamily_lastNowMillis _ _ _
        | claim | unclaim | deferRelease => simp [PortCall.observes] at observes
        | reap time =>
          cases atNow
          rfl
      rw [reached]
      exact cooling.observe nonneg
    · exact cooling
  have move := consistent.move call family port
  generalize (quarantine.step call).value family port = after at move
  generalize before : quarantine.observed call family port = value at move start
  generalize handed : decide (quarantine.HandsOut call family port) = out at move
  cases move with
  | kept => exact ⟨start, of_decide_eq_false handed⟩
  | reaped =>
    rw [start.reap past]
    exact ⟨start, of_decide_eq_false handed⟩
  | taken usable free =>
    rw [start.reap past] at free
    exact absurd free start.ne_available
  | unclaimed | released | deferred => exact absurd rfl start.ne_active

theorem Leads.cooling (leads : Leads owned now quarantine next) (consistent : quarantine.Consistent) {origin : Int}
    (began : origin ≤ quarantine.lastNowMillis) (clock : quarantine.lastNowMillis ≤ max origin now)
    (cooling : Cooling (max origin now) (quarantine.value identity.1 identity.2)) :
    Cooling (max origin now) (next.value identity.1 identity.2) := by
  refine (leads.induct (fun state => state.Consistent ∧ origin ≤ state.lastNowMillis ∧ state.lastNowMillis ≤ max origin now ∧
    Cooling (max origin now) (state.value identity.1 identity.2)) ⟨consistent, began, clock, cooling⟩ ?_).2.2.2
  rintro before call ⟨held, since, until_, stays⟩ atNow _
  have step := before.step_lastNowMillis_le atNow
  exact ⟨held.step call, since.trans (before.lastNowMillis_le_step call), by omega, (held.cooling_step atNow since until_ stays).1⟩

end PortQuarantine

end Ferrum.Tun
