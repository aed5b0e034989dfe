import Ferrum.Tun.SystemTcpRetire

namespace Ferrum.Tun.SystemTcp

open Function List

abbrev Moves (hears : Hears) : SystemTcp → SystemTcp → Prop := Relation.ReflTransGen (Move hears)

variable {origin : Int} {hears : Hears} {system next : SystemTcp}

theorem Sound.moves (sound : system.Sound origin) (moves : Moves hears system next) : next.Sound origin := by
  induction moves with
  | refl => exact sound
  | tail _ move ih => exact ih.move move

theorem retireSlot_lastNowMillis (system : SystemTcp) (slot : Nat) (now : Int) (preserveRewrite : Bool) :
    (system.retireSlot slot now preserveRewrite).lastNowMillis = system.lastNowMillis := by
  cases occupied : system.slots slot with
  | none => simp only [retireSlot, occupied]
  | some mapping =>
    rw [retireSlot_eq occupied]
    split <;> simp

theorem Move.lastNowMillis (move : Move hears system next) : next.lastNowMillis = system.lastNowMillis := by
  cases move with
  | retire preserveRewrite live => exact retireSlot_lastNowMillis _ _ _ _
  | _ => rfl

theorem Moves.lastNowMillis (moves : Moves hears system next) : next.lastNowMillis = system.lastNowMillis := by
  induction moves with
  | refl => rfl
  | tail _ move ih => exact move.lastNowMillis.trans ih

variable {slot : Nat} {mapping : Mapping} {now : Int}

section

variable (live : system.slots slot = some mapping)
include live

theorem Moves.retire (observed : system.lastNowMillis = now)
    (preserveRewrite : Bool) : Moves hears system (system.retireSlot slot now preserveRewrite) := by
  rw [← observed]
  exact .single (.retire preserveRewrite live)

theorem retireSlot_slots (now : Int) (preserveRewrite : Bool) :
    (system.retireSlot slot now preserveRewrite).slots = update system.slots slot none := by
  rw [retireSlot_eq live]
  split <;> simp

theorem retireSlot_fenced (now : Int) (preserveRewrite : Bool) :
    (system.retireSlot slot now preserveRewrite).fenced = system.fenced := by
  rw [retireSlot_eq live]
  split <;> simp

end

theorem Move.unfenced (move : Move hears system next) (unfenced : next.fenced = false) : system.fenced = false := by
  cases move with
  | retire preserveRewrite live => exact (retireSlot_fenced live _ _).symm.trans unfenced
  | fence | clear | stop => cases unfenced
  | revise | schedule | forget | ports | listen | occupy => exact unfenced

theorem Moves.unfenced (moves : Moves hears system next) (unfenced : next.fenced = false) : system.fenced = false := by
  induction moves with
  | refl => exact unfenced
  | tail _ move ih => exact ih (move.unfenced unfenced)

theorem Sound.processAccept (sound : system.Sound origin) (accepted : AcceptedSocket) :
    Moves hears system (system.processAccept system.lastNowMillis accepted) := by
  unfold SystemTcp.processAccept
  split
  · exact .refl
  · rename_i slot found
    split
    · exact .refl
    · rename_i mapping live
      split
      · exact .refl
      · rename_i valid
        obtain ⟨checks, _⟩ := not_or.mp valid
        obtain ⟨unfenced, _, _, quiet, opened, early⟩ := not_not.mp checks
        simp only [Bool.not_eq_true] at unfenced quiet opened
        have accepts : ∀ queued pending, pending.Nodup →
            (∀ other, other ∈ pending ↔ if other = slot then queued = true else other ∈ system.pendingSlots) →
            Move hears system { system.setSlot slot (some { mapping with
              established := true
              deadlineMillis := deadline system.lastNowMillis system.timeoutMillis
              socket := some ⟨system.generation⟩
              pendingFlow := queued }) with pendingSlots := pending } := by
          intro queued pending distinct listed
          refine .revise live (.accept queued unfenced opened early) distinct listed ?_
          intro least atLeast
          obtain ⟨due, atDue, below⟩ := sound.timely.lower slot mapping live
          cases atLeast.symm.trans atDue
          exact ⟨least, atLeast, le_rfl, below.trans (sound.timely.upper slot mapping live)⟩
        have unlisted : slot ∉ system.pendingSlots := by
          intro member
          obtain ⟨other, alive, waits⟩ := (sound.tables.pending slot).mp member
          cases live.symm.trans alive
          simp [quiet] at waits
        have unqueued : Move hears system (system.setSlot slot (some { mapping with
            established := true
            deadlineMillis := deadline system.lastNowMillis system.timeoutMillis
            socket := some ⟨system.generation⟩ })) := by
          have kept : ∀ other, other ∈ system.pendingSlots ↔
              if other = slot then false = true else other ∈ system.pendingSlots := by
            intro other
            split
            · rename_i here
              subst here
              simpa using unlisted
            · rfl
          have move := accepts false system.pendingSlots sound.tables.pendingDistinct kept
          rw [← quiet] at move
          exact move
        split
        · exact .single unqueued
        · refine .single (accepts true (system.pendingSlots ++ [slot]) ?_ ?_)
          · exact nodup_append.mpr ⟨sound.tables.pendingDistinct, by simp, by
              intro other member _ singleton
              cases mem_singleton.mp singleton
              rintro rfl
              exact unlisted member⟩
          · intro other
            rw [mem_append, mem_singleton]
            split
            · rename_i here
              exact iff_of_true (.inr here) rfl
            · rename_i different
              exact or_iff_left different
        · exact .trans (.single unqueued) (Moves.retire (update_self slot _ system.slots) rfl true)

theorem Sound.processAccepts (sound : system.Sound origin) {accepted : List AcceptedSocket}
    (observed : system.lastNowMillis = now) : Moves hears system (system.processAccepts accepted now).1 := by
  unfold SystemTcp.processAccepts
  dsimp only
  generalize accepted.take 16 = batch
  induction batch generalizing system with
  | nil => exact .refl
  | cons first rest ih =>
    subst observed
    have turn : Moves hears system (system.processAccept system.lastNowMillis first) := sound.processAccept first
    exact turn.trans (ih (sound.moves turn) turn.lastNowMillis)

variable {rest : List Nat}

theorem filter_head (absent : slot ∉ rest) : (slot :: rest).filter (· ≠ slot) = rest := by
  rw [filter_cons_of_neg (by simp)]
  refine filter_eq_self.mpr fun other member => ?_
  rw [decide_eq_true_iff]
  rintro rfl
  exact absent member

section

variable (live : system.slots slot = some mapping)
include live

theorem retireSlot_of_pending (waits : mapping.pendingFlow = true)
    (head : system.pendingSlots = slot :: rest) (now : Int) :
    { system with pendingSlots := rest }.retireSlot slot now true = system.retireSlot slot now true := by
  have same : { system with pendingSlots := rest }.detach slot mapping = system.detach slot mapping := by
    have filtered : (slot :: rest).filter (· ≠ slot) = rest.filter (· ≠ slot) := by simp
    simp only [detach, setSlot, assert, waits, if_true, head, filtered]
  simp only [retireSlot, live, same]

theorem retireSlot_of_taken (waits : mapping.pendingFlow = true)
    (head : system.pendingSlots = slot :: rest) (absent : slot ∉ rest) (now : Int) :
    ({ system with pendingSlots := rest }.setSlot slot (some { mapping with pendingFlow := false })).retireSlot slot now true =
      system.retireSlot slot now true := by
  have same : ({ system with pendingSlots := rest }.setSlot slot (some { mapping with pendingFlow := false })).detach slot
      { mapping with pendingFlow := false } = system.detach slot mapping := by
    simp only [detach, setSlot, assert, waits, if_true, head, filter_head absent, update_idem, Bool.false_eq_true,
      if_false]
  have taken : ({ system with pendingSlots := rest }.setSlot slot (some { mapping with pendingFlow := false })).slots slot =
      some { mapping with pendingFlow := false } := update_self slot _ system.slots
  simp only [retireSlot, live, taken, same]
  rfl

theorem retireSlot_pendingSlots (waits : mapping.pendingFlow = true)
    (head : system.pendingSlots = slot :: rest) (absent : slot ∉ rest) (now : Int) (preserveRewrite : Bool) :
    (system.retireSlot slot now preserveRewrite).pendingSlots = rest := by
  rw [retireSlot_eq live]
  split <;> simp only [preserve_pendingSlots, surrender_pendingSlots, waits, if_true, head, filter_head absent]

end

theorem Sound.drainLoop (send : Nat → SendResult) (turns : Nat) {system : SystemTcp} (sound : system.Sound origin)
    (observed : system.lastNowMillis = now) (unfenced : system.fenced = false) (enough : turns ≤ system.pendingSlots.length)
    (worked : Bool) : Moves hears system (drainLoop send now turns system worked).1 := by
  induction turns generalizing system worked with
  | zero => exact .refl
  | succ turns ih =>
    unfold SystemTcp.drainLoop
    cases head : system.pendingSlots with
    | nil => simp [head] at enough
    | cons slot rest =>
      rw [head, length_cons] at enough
      obtain ⟨absent, distinct⟩ := nodup_cons.mp (head ▸ sound.tables.pendingDistinct)
      obtain ⟨mapping, live, waits⟩ := (sound.tables.pending slot).mp (head ▸ mem_cons_self)
      have retires : ∀ worked, Moves hears system
          (SystemTcp.drainLoop send now turns (system.retireSlot slot now true) worked).1 := by
        intro worked
        have turn : Moves hears system (system.retireSlot slot now true) := Moves.retire live observed true
        refine turn.trans (ih (sound.moves turn) (turn.lastNowMillis.trans observed) ?_ ?_ worked)
        · exact (retireSlot_fenced live _ _).trans unfenced
        · rw [retireSlot_pendingSlots live waits head absent]
          omega
      dsimp only
      rw [live]
      dsimp only
      split
      · rw [retireSlot_of_pending live waits head]
        exact retires true
      · split
        · have published : Move hears system ({ system with pendingSlots := rest }.setSlot slot
              (some { mapping with pendingFlow := false })) := by
            refine .revise live .publish distinct ?_ ?_
            · intro other
              split
              · rename_i here
                subst here
                simpa using absent
              · rename_i different
                rw [head, mem_cons, or_iff_right different]
            · intro least atLeast
              obtain ⟨due, atDue, below⟩ := sound.timely.lower slot mapping live
              cases atLeast.symm.trans atDue
              exact ⟨least, atLeast, le_rfl, below⟩
          refine .trans (.single published) (ih (sound.move published) (published.lastNowMillis.trans observed) unfenced ?_ true)
          exact Nat.le_of_succ_le_succ enough
        · exact .refl
        · rw [retireSlot_of_taken live waits head absent]
          exact retires true

theorem Sound.drainPendingFlows (sound : system.Sound origin) (send : Nat → SendResult)
    (observed : system.lastNowMillis = now) : Moves hears system (system.drainPendingFlows send now).1 := by
  unfold SystemTcp.drainPendingFlows
  split
  · exact .refl
  · rename_i unfenced
    exact Sound.drainLoop send _ sound observed (by simpa using unfenced) (min_le_left _ _) false

/-- A loop over slots each of whose turns retires the slot or leaves it, which it does only where the mapping may stay. -/
theorem Sound.foldRetire {β : Type} {turn : SystemTcp × β → Nat → SystemTcp × β} (stays : Mapping → Prop)
    (turns : ∀ state slot, ((turn state slot).1 = state.1 ∧ ∀ mapping, state.1.slots slot = some mapping → stays mapping) ∨
      ∃ held preserve, state.1.slots slot = some held ∧ (turn state slot).1 = state.1.retireSlot slot now preserve)
    (order : List Nat) (state : SystemTcp × β) (sound : state.1.Sound origin) (observed : state.1.lastNowMillis = now) :
    Moves hears state.1 (order.foldl turn state).1 ∧ ∀ slot mapping, (order.foldl turn state).1.slots slot = some mapping →
      state.1.slots slot = some mapping ∧ (slot ∈ order → stays mapping) := by
  induction order generalizing state with
  | nil => exact ⟨.refl, fun slot mapping live => ⟨live, fun member => absurd member not_mem_nil⟩⟩
  | cons first rest ih =>
    rw [foldl_cons]
    rcases turns state first with ⟨same, stay⟩ | ⟨held, preserve, occupied, retires⟩
    · obtain ⟨moves, kept⟩ := ih (turn state first) (same ▸ sound) (same ▸ observed)
      rw [same] at moves kept
      refine ⟨moves, fun slot mapping live => ⟨(kept slot mapping live).1, fun member => ?_⟩⟩
      rcases mem_cons.mp member with rfl | later
      · exact stay mapping (kept slot mapping live).1
      · exact (kept slot mapping live).2 later
    · have moved : Moves hears state.1 (turn state first).1 := retires ▸ Moves.retire occupied observed preserve
      obtain ⟨moves, kept⟩ := ih (turn state first) (sound.moves moved) (moved.lastNowMillis.trans observed)
      refine ⟨moved.trans moves, fun slot mapping live => ?_⟩
      obtain ⟨before, stay⟩ := kept slot mapping live
      rw [retires, retireSlot_slots occupied] at before
      obtain ⟨different, before⟩ := update_none_eq_some.mp before
      exact ⟨before, fun member => stay ((mem_cons.mp member).resolve_left different)⟩

theorem Sound.expireSlots (sound : system.Sound origin) (hears : Hears) (flowDropped : Nat → Bool)
    (observed : system.lastNowMillis = now) :
    Moves hears system (system.expireSlots flowDropped now).1 ∧
      ∀ slot mapping, (system.expireSlots flowDropped now).1.slots slot = some mapping → now < mapping.deadlineMillis := by
  refine And.imp_right (fun kept slot mapping live => ?_) (Sound.foldRetire (now < ·.deadlineMillis) (fun state slot => ?_)
    (List.range system.maxFlows) (system, false) sound observed)
  · obtain ⟨before, early⟩ := kept slot mapping live
    exact early (mem_range.mpr (sound.tables.bounded slot mapping before))
  · cases state.1.slots slot with
    | none => exact .inl ⟨rfl, fun _ live => by cases live⟩
    | some held =>
      dsimp only
      split
      · exact .inr ⟨held, true, rfl, rfl⟩
      · rename_i idle
        refine .inl ⟨rfl, ?_⟩
        rintro _ ⟨⟩
        exact not_le.mp (not_or.mp idle).1

theorem Tables.mem_mappings (tables : system.Tables) (live : system.slots slot = some mapping) :
    mapping ∈ system.mappings :=
  mem_filterMap.mpr ⟨slot, mem_range.mpr (tables.bounded slot mapping live), live⟩

theorem min?_le {values : List Int} {value : Int} (member : value ∈ values) : ∃ least, values.min? = some least ∧ least ≤ value := by
  cases found : values.min? with
  | none =>
    rw [List.min?_eq_none_iff] at found
    simp [found] at member
  | some least => exact ⟨least, rfl, (List.min?_eq_some_iff.mp found).2 value member⟩

theorem Sound.recomputeActiveDeadline (sound : system.Sound origin) : Move hears system system.recomputeActiveDeadline := by
  refine .schedule fun slot mapping live => ?_
  exact min?_le (mem_map.mpr ⟨mapping, sound.tables.mem_mappings live, rfl⟩)

theorem retiredMin_le {retiring : HashMap FlowTuple RetiredMapping} {flow : FlowTuple} {retired : RetiredMapping}
    (found : retiring.lookup flow = some retired) : ∃ least, retiredMin retiring = some least ∧ least ≤ retired.expiresAt :=
  min?_le (mem_map.mpr ⟨retired, HashMap.mem_values.mpr ⟨flow, found⟩, rfl⟩)

theorem reapRetiredEntries (expired : List (Sigma fun _ : FlowTuple => RetiredMapping)) {system : SystemTcp}
    (asserts : system.assertsHeld = true) (distinct : (expired.map Sigma.fst).Nodup)
    (indexed : ∀ entry ∈ expired, system.retiredReverse.lookup entry.2.reverse = some entry.1) :
    ∃ reverse : HashMap ReverseTuple FlowTuple,
      expired.foldl reapRetiredEntry system = { system with retiredReverse := reverse } ∧
      ∀ tuple flow, reverse.lookup tuple = some flow ↔
        system.retiredReverse.lookup tuple = some flow ∧ ∀ entry ∈ expired, entry.2.reverse ≠ tuple := by
  induction expired generalizing system with
  | nil => exact ⟨system.retiredReverse, rfl, fun tuple flow => by simp⟩
  | cons first rest ih =>
    obtain ⟨apart, distinct⟩ := nodup_cons.mp distinct
    have atFirst := indexed first mem_cons_self
    have turn : reapRetiredEntry system first =
        { system with retiredReverse := system.retiredReverse.erase first.2.reverse } := by
      unfold reapRetiredEntry
      rw [assert_true (by rw [atFirst]; simp)]
    have others : ∀ entry ∈ rest, (system.retiredReverse.erase first.2.reverse).lookup entry.2.reverse = some entry.1 := by
      intro entry member
      have atEntry := indexed entry (mem_cons_of_mem _ member)
      rw [HashMap.lookup_erase_eq, if_neg ?_]
      · exact atEntry
      · intro same
        rw [same, atFirst] at atEntry
        exact apart (mem_map.mpr ⟨entry, member, (Option.some.inj atEntry).symm⟩)
    obtain ⟨reverse, folded, looked⟩ :=
      @ih { system with retiredReverse := system.retiredReverse.erase first.2.reverse } asserts distinct others
    refine ⟨reverse, by rw [foldl_cons, turn, folded], fun tuple flow => ?_⟩
    rw [looked]
    change (system.retiredReverse.erase first.2.reverse).lookup tuple = some flow ∧ _ ↔ _
    rw [HashMap.lookup_erase_eq]
    constructor
    · rintro ⟨found, free⟩
      split at found
      · cases found
      · rename_i different
        refine ⟨found, fun entry member => ?_⟩
        rcases mem_cons.mp member with rfl | later
        · exact fun same => different same.symm
        · exact free entry later
    · rintro ⟨found, free⟩
      rw [if_neg (fun same => free first mem_cons_self same.symm)]
      exact ⟨found, fun entry member => free entry (mem_cons_of_mem _ member)⟩

theorem Sound.reapRetired (sound : system.Sound origin) (hears : Hears) {now : Int} (observed : system.lastNowMillis = now) :
    Moves hears system (system.reapRetired now).1 ∧ (system.reapRetired now).1.slots = system.slots ∧
      ∀ flow retired, (system.reapRetired now).1.retiredForward.lookup flow = some retired → now < retired.expiresAt := by
  unfold SystemTcp.reapRetired
  split
  · rename_i early
    refine ⟨.refl, rfl, fun flow retired found => ?_⟩
    obtain ⟨due, atDue, below⟩ := sound.retirement.due flow retired found
    simp only [isDue, atDue, decide_eq_true_eq, not_le] at early
    exact early.trans_le below
  · dsimp only
    have listed : ∀ entry, entry ∈ system.retiredForward.entries.filter (fun entry => decide (entry.2.expiresAt ≤ now)) ↔
        system.retiredForward.lookup entry.1 = some entry.2 ∧ entry.2.expiresAt ≤ now := by
      rintro ⟨flow, retired⟩
      rw [mem_filter, HashMap.mem_entries_iff, decide_eq_true_iff]
    have distinct : ((system.retiredForward.entries.filter fun entry => decide (entry.2.expiresAt ≤ now)).map Sigma.fst).Nodup :=
      List.Nodup.sublist (filter_sublist.map _) system.retiredForward.nodupKeys
    obtain ⟨reverse, folded, looked⟩ := reapRetiredEntries _ sound.asserts distinct fun entry member =>
      (sound.retirement.reverse _ _).mpr ⟨entry.2, ((listed entry).mp member).1, rfl⟩
    have kept : ∀ flow retired,
        (system.retiredForward.retain fun _ mapping => decide (now < mapping.expiresAt)).lookup flow = some retired ↔
          system.retiredForward.lookup flow = some retired ∧ now < retired.expiresAt := by
      intro flow retired
      rw [HashMap.lookup_retain, Option.filter_eq_some_iff, decide_eq_true_iff]
    rw [folded]
    refine ⟨.single (.forget ?_ ?_ ?_ ?_), rfl, fun flow retired found => ((kept flow retired).mp found).2⟩
    · exact fun flow retired found => ((kept flow retired).mp found).1
    · exact fun flow retired found late => (kept flow retired).mpr ⟨found, observed ▸ late⟩
    · intro tuple flow
      rw [looked, sound.retirement.reverse]
      constructor
      · rintro ⟨⟨retired, found, rfl⟩, free⟩
        refine ⟨retired, (kept flow retired).mpr ⟨found, ?_⟩, rfl⟩
        by_contra late
        exact free ⟨flow, retired⟩ ((listed _).mpr ⟨found, not_lt.mp late⟩) rfl
      · rintro ⟨retired, found, rfl⟩
        obtain ⟨found, late⟩ := (kept flow retired).mp found
        refine ⟨⟨retired, found, rfl⟩, fun entry member same => ?_⟩
        obtain ⟨also, due⟩ := (listed entry).mp member
        have here : entry.1 = flow := sound.retirement.distinct entry.1 entry.2 flow retired also found
          (congrArg ReverseTuple.identity same)
        rw [here, found] at also
        cases also
        omega
    · exact fun flow retired found => retiredMin_le found

theorem Sound.dropRetired (sound : system.Sound origin) {flow : FlowTuple} {retired : RetiredMapping}
    (found : system.retiredForward.lookup flow = some retired) (expired : retired.expiresAt ≤ system.lastNowMillis) :
    Move hears system (system.dropRetired flow retired.reverse retired.expiresAt) := by
  have looked : ∀ other another, (system.retiredForward.erase flow).lookup other = some another ↔
      other ≠ flow ∧ system.retiredForward.lookup other = some another := by
    intro other another
    rw [HashMap.lookup_erase_eq]
    split
    · rename_i same
      simp [same]
    · rename_i different
      simp [different]
  have inverse : ∀ tuple other, (system.retiredReverse.erase retired.reverse).lookup tuple = some other ↔
      ∃ another, (system.retiredForward.erase flow).lookup other = some another ∧ another.reverse = tuple := by
    intro tuple other
    rw [HashMap.lookup_erase_eq]
    constructor
    · intro inside
      split at inside
      · cases inside
      · rename_i different
        obtain ⟨another, also, rfl⟩ := (sound.retirement.reverse tuple other).mp inside
        refine ⟨another, (looked other another).mpr ⟨?_, also⟩, rfl⟩
        rintro rfl
        cases found.symm.trans also
        exact different rfl
    · rintro ⟨another, after, rfl⟩
      obtain ⟨different, also⟩ := (looked other another).mp after
      rw [if_neg ?_]
      · exact (sound.retirement.reverse _ _).mpr ⟨another, also, rfl⟩
      · intro same
        exact different (sound.retirement.distinct other another flow retired also found (congrArg ReverseTuple.identity same))
  have forgets : ∀ due, (∀ other another, (system.retiredForward.erase flow).lookup other = some another →
      ∃ early, due = some early ∧ early ≤ another.expiresAt) →
      Move hears system { system with
        retiredForward := system.retiredForward.erase flow
        retiredReverse := system.retiredReverse.erase retired.reverse
        retiredDeadlineMillis := due } := by
    intro due early
    refine .forget (fun other another after => ((looked other another).mp after).2) ?_ inverse early
    intro other another also late
    refine (looked other another).mpr ⟨?_, also⟩
    rintro rfl
    cases found.symm.trans also
    omega
  unfold SystemTcp.dropRetired
  dsimp only
  split
  · exact forgets _ fun other another after => retiredMin_le after
  · exact forgets _ fun other another after => sound.retirement.due other another ((looked other another).mp after).2

theorem Sound.reapPorts (now : Int) (observed : system.lastNowMillis = now) :
    Move hears system { system with quarantine := (system.quarantine.reap now).1 } := by
  have atNow : (PortCall.reap now).At system.lastNowMillis := observed.symm
  refine .ports (.call atNow ?_)
  rintro identity _ (same | ⟨_, same⟩ | same) <;> cases same

theorem observeTime_self (system : SystemTcp) : system.observeTime system.lastNowMillis = system := by
  unfold observeTime
  rw [max_self]

theorem Sound.expire (sound : system.Sound origin) (hears : Hears) (environment : TcpEnvironment) (now : Int) :
    Moves hears (system.observeTime now) (system.expire environment now).1 ∧
      ∀ slot mapping, (system.expire environment now).1.slots slot = some mapping →
        (system.observeTime now).lastNowMillis < mapping.deadlineMillis := by
  unfold SystemTcp.expire
  dsimp only
  have start := sound.observeTime now
  generalize system.observeTime now = first at *
  have accepting : Moves hears first (first.processAccepts environment.accepted first.lastNowMillis).1 :=
    start.processAccepts rfl
  generalize (first.processAccepts environment.accepted first.lastNowMillis).1 = second at *
  have draining : Moves hears second (second.drainPendingFlows environment.drainSend first.lastNowMillis).1 :=
    (start.moves accepting).drainPendingFlows _ accepting.lastNowMillis
  have drained : Moves hears first (second.drainPendingFlows environment.drainSend first.lastNowMillis).1 :=
    accepting.trans draining
  generalize (second.drainPendingFlows environment.drainSend first.lastNowMillis).1 = third at *
  have sound := start.moves drained
  have finish : ∀ fourth, Moves hears first fourth →
      (∀ slot mapping, fourth.slots slot = some mapping → first.lastNowMillis < mapping.deadlineMillis) →
      Moves hears first { (fourth.reapRetired first.lastNowMillis).1 with
          quarantine := ((fourth.reapRetired first.lastNowMillis).1.quarantine.reap first.lastNowMillis).1 } ∧
        ∀ slot mapping, (fourth.reapRetired first.lastNowMillis).1.slots slot = some mapping →
          first.lastNowMillis < mapping.deadlineMillis := by
    intro fourth moves early
    obtain ⟨reaping, kept, _⟩ := (start.moves moves).reapRetired hears moves.lastNowMillis
    have reaped : Moves hears first (fourth.reapRetired first.lastNowMillis).1 := moves.trans reaping
    refine ⟨reaped.tail (Sound.reapPorts _ reaped.lastNowMillis), fun slot mapping live => ?_⟩
    rw [kept] at live
    exact early slot mapping live
  split
  · obtain ⟨sweeping, early⟩ := sound.expireSlots hears environment.flowDropped drained.lastNowMillis
    have swept := drained.trans sweeping
    exact finish _ (swept.tail (start.moves swept).recomputeActiveDeadline) early
  · rename_i idle
    refine finish _ drained fun slot mapping live => ?_
    obtain ⟨due, atDue, below⟩ := sound.timely.lower slot mapping live
    have late := (not_or.mp idle).2
    simp only [isDue, atDue, decide_eq_true_eq, not_le] at late
    exact late.trans_le below

theorem Sound.maintain (sound : system.Sound origin) (hears : Hears) (environment : TcpEnvironment) :
    Moves hears system (system.maintain environment system.lastNowMillis) ∧
      (system.fenced = false → ∀ slot mapping,
        (system.maintain environment system.lastNowMillis).slots slot = some mapping →
          system.lastNowMillis < mapping.deadlineMillis) := by
  unfold SystemTcp.maintain
  split
  · obtain ⟨moves, early⟩ := sound.expire hears environment system.lastNowMillis
    rw [observeTime_self] at moves early
    exact ⟨moves, fun _ => early⟩
  · rename_i idle
    refine ⟨.refl, fun unfenced slot mapping live => ?_⟩
    obtain ⟨due, atDue, below⟩ := sound.timely.lower slot mapping live
    have late : ¬isDue system.activeDeadlineMillis system.lastNowMillis = true :=
      fun isDue => idle ⟨by simp [unfenced], .inl isDue⟩
    simp only [isDue, atDue, decide_eq_true_eq, not_le] at late
    exact late.trans_le below

theorem Sound.retireAll (sound : system.Sound origin) (hears : Hears) (preserveRewrite : Bool) :
    Moves hears system (system.retireAll system.lastNowMillis preserveRewrite).1 ∧
      ∀ slot, (system.retireAll system.lastNowMillis preserveRewrite).1.slots slot = none := by
  obtain ⟨moves, kept⟩ := @Sound.foldRetire origin hears system.lastNowMillis Nat (fun state slot =>
    if (state.1.slots slot).isSome then (state.1.retireSlot slot system.lastNowMillis preserveRewrite, state.2 + 1)
    else state) (fun _ => False) (fun state slot => by
      cases state.1.slots slot with
      | none => exact .inl ⟨rfl, fun _ live => by cases live⟩
      | some held => exact .inr ⟨held, preserveRewrite, rfl, rfl⟩) (List.range system.maxFlows) (system, 0) sound rfl
  unfold SystemTcp.retireAll
  dsimp only
  generalize ((List.range system.maxFlows).foldl _ (system, 0)).1 = after at moves kept
  have idle : ∀ slot, after.slots slot = none := by
    intro slot
    cases live : after.slots slot with
    | none => rfl
    | some mapping =>
      obtain ⟨before, absent⟩ := kept slot mapping live
      exact (absent (mem_range.mpr (sound.tables.bounded slot mapping before))).elim
  have unlisted : after.pendingSlots = [] := by
    refine eq_nil_iff_forall_not_mem.mpr fun slot member => ?_
    obtain ⟨mapping, live, _⟩ := ((sound.moves moves).tables.pending slot).mp member
    simp [idle slot] at live
  refine ⟨?_, idle⟩
  rw [← unlisted]
  exact moves.tail (.schedule fun slot mapping live => by simp [idle slot] at live)

end Ferrum.Tun.SystemTcp
