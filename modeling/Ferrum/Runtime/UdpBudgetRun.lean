import Mathlib.Algebra.Order.BigOperators.Group.List
import Ferrum.Runtime.UdpBudget

namespace Ferrum.Runtime

open Option List

namespace BufferBudgetInner

variable {inner : BufferBudgetInner} {instants : List BudgetInstant} {outcome : BudgetOutcome}

def seen (inner : BufferBudgetInner) : BudgetInstant := ⟨inner.reserved, inner.receiveCache.buffer⟩

theorem getElem?_now (instant : BudgetInstant) : (instants ++ [instant])[instants.length]? = some instant := by simp

variable {call : ReserveCall}

theorem loaded_sound (started : call.since ≤ instants.length) :
    (BudgetActor.loaded call inner.reserved instants.length).Sound inner.limit (instants ++ [inner.seen]) :=
  ⟨started, inner.seen, getElem?_now _, rfl⟩

variable {current capacity : Nat} {handles : LeaseHandles} {stage : ReceiveStage} {event : BudgetEvent}

theorem evictReceiveBuffer_sound {readAt : Nat} (bounded : inner.limit < 2 ^ 64)
    (sound : (BudgetActor.loaded call current readAt).Sound inner.limit instants)
    (full : inner.nextReserved current call.capacity = none)
    (run : inner.evictReceiveBuffer call readAt instants.length = some outcome) :
    outcome.actor.Sound inner.limit (instants ++ [inner.seen]) := by
  obtain ⟨started, seen, here, same⟩ := sound
  have before : readAt < instants.length := (List.getElem?_eq_some_iff.mp here).1
  unfold evictReceiveBuffer at run
  split at run
  · cases run
    simp only [BudgetActor.Sound, length_append, length_singleton]
    omega
  · rename_i empty
    cases run
    refine ⟨started, before.le, ⟨seen, ?_, ?_⟩, inner.seen, getElem?_now _, empty⟩
    · rw [List.getElem?_append_left before, here]
    · simp only [nextReserved, ite_eq_right_iff, reduceCtorEq, imp_false, not_and] at full
      omega

variable {issued : Nat}

theorem compareExchange_sound {next : Nat} {spurious : Bool} (started : call.since ≤ instants.length)
    (run : inner.compareExchange issued instants.length call current next spurious = some outcome) :
    outcome.actor.Sound inner.limit (instants ++ [inner.seen]) := by
  unfold compareExchange at run
  split at run
  · cases run
    trivial
  · cases run
    exact loaded_sound started

theorem lockReceiveBuffer_sound (run : inner.lockReceiveBuffer instants.length = some outcome) :
    outcome.actor.Sound inner.limit (instants ++ [inner.seen]) := by
  unfold lockReceiveBuffer at run
  split at run
  · cases run
    exact .lease _ _
  · cases run
    simp [BudgetActor.Sound]

theorem dropStep_sound (sound : handles.Sound stage) (run : inner.dropStep handles stage = some outcome) :
    outcome.actor.Sound inner.limit (instants ++ [inner.seen]) := by
  cases stage with
  | dropping charge epoch =>
    simp only [dropStep, dropReceiveBuffer] at run
    split at run <;> cases run <;> exact sound.advance (by simp) (by simp)
  | returned charge =>
    cases run
    exact sound.advance (by simp) (by simp)
  | closing charge kind => cases kind <;> cases run <;> exact sound.advance (by simp) (by simp)
  | held charge epoch | closed => cases run

theorem handleStep_sound (sound : handles.Sound stage) (run : inner.handleStep handles stage event = some outcome) :
    outcome.actor.Sound inner.limit (instants ++ [inner.seen]) := by
  cases event with
  | intoDatagram length =>
    simp only [handleStep, intoDatagram] at run
    split at run
    · rename_i leased
      split at run <;> cases run
      · exact sound.dropLease leased
      · exact .datagram _ _
    · cases run
  | dropLease =>
    simp only [handleStep, BufferBudgetInner.dropLease] at run
    split at run
    · rename_i leased
      cases run
      exact sound.dropLease leased
    · cases run
  | clonePayload | dropPayload =>
    simp only [handleStep, ite_none_right_eq_some] at run
    obtain ⟨shared, run⟩ := run
    cases run
    exact ⟨sound.strong, fun _ => sound.payload shared, sound.unique, sound.held⟩
  | dropReceivePayload =>
    simp only [handleStep, ite_none_right_eq_some] at run
    obtain ⟨⟨payload, unshared⟩, run⟩ := run
    cases run
    exact sound.dropReceivePayload payload unshared
  | dropToken =>
    simp only [handleStep, ite_none_right_eq_some] at run
    obtain ⟨token, run⟩ := run
    cases run
    exact sound.dropToken token
  | proceed => exact dropStep_sound sound run
  | _ => cases run

theorem allocate_sound {charge : BudgetCharge} {epoch : Nat}
    (run : inner.allocate charge epoch capacity = some outcome) :
    outcome.actor.Sound inner.limit (instants ++ [inner.seen]) := by
  unfold allocate at run
  split at run <;> cases run
  · exact .lease _ _
  · trivial

variable {actor : BudgetActor}

theorem actorStep_sound (bounded : inner.limit < 2 ^ 64) (sound : actor.Sound inner.limit instants)
    (run : inner.actorStep issued instants.length actor event = some outcome) :
    outcome.actor.Sound inner.limit (instants ++ [inner.seen]) := by
  unfold actorStep at run
  split at run
  · cases run
    exact loaded_sound sound
  · rename_i call current readAt event
    split at run
    · rename_i full
      exact evictReceiveBuffer_sound bounded sound full run
    · obtain ⟨started, seen, here, -⟩ := sound
      exact compareExchange_sound (started.trans (List.getElem?_eq_some_iff.mp here).1.le) run
    · cases run
  · cases run
    exact @BudgetActor.Sound.later _ _ (.loading _) sound _
  · cases run
    trivial
  · exact allocate_sound run
  · cases run
    trivial
  · cases run
    trivial
  · exact lockReceiveBuffer_sound run
  · cases run
    trivial
  · cases run
    trivial
  · cases run
    trivial
  · exact handleStep_sound sound run
  · cases run
    trivial
  · cases run
    trivial
  · cases run

theorem releaseBytes_reserved (covered : capacity ≤ inner.reserved) :
    (inner.releaseBytes capacity).reserved = inner.reserved - capacity :=
  if_pos covered

section

variable (effect : StepEffect inner issued actor outcome)
include effect

theorem StepEffect.ledger (others : List BudgetCharge)
    (bounded : inner.reserved ≤ inner.limit) (covered : ∀ charge ∈ actor.charges, charge.capacity ≤ inner.reserved) :
    ∃ added : List BudgetCharge,
      (outcome.released.toList ++ (outcome.inner.receiveCache.buffer.toList ++ (outcome.actor.charges ++ others))).Perm
        (added ++ (inner.receiveCache.buffer.toList ++ (actor.charges ++ others))) ∧
      outcome.inner.reserved + (outcome.released.toList.map BudgetCharge.capacity).sum =
        inner.reserved + (added.map BudgetCharge.capacity).sum ∧
      outcome.inner.reserved ≤ inner.limit ∧ outcome.inner.limit = inner.limit ∧
      added.map BudgetCharge.id = if outcome.counted then [issued] else [] := by
  cases effect with
  | keep next bound same => exact ⟨[], by simp [same], rfl, bounded, rfl, rfl⟩
  | take next charge bound cached idle owner =>
    exact ⟨[], by simp [takeBuffer, cached, idle, owner], rfl, bounded, rfl, rfl⟩
  | store next charge bound owner current free idle =>
    exact ⟨[], by simp [storeBuffer, free, idle, owner], rfl, bounded, rfl, rfl⟩
  | count next capacity bound fits idle owner =>
    refine ⟨[⟨issued, capacity⟩], ?_, by simp, fits, rfl, rfl⟩
    simp only [toList_none, nil_append, idle, owner, singleton_append]
    exact perm_middle
  | release next charge bound owner idle =>
    have fits := covered charge (by simp [owner])
    have counter := releaseBytes_reserved fits
    refine ⟨[], ?_, ?_, ?_, rfl, rfl⟩
    · simp only [toList_some, idle, owner, nil_append, singleton_append]
      exact perm_middle.symm
    · simp only [counter, toList_some, map_cons, map_nil, sum_cons, sum_nil]
      omega
    · simp only [counter]
      omega

theorem StepEffect.epoch_eq : outcome.inner.receiveCache.epoch = inner.receiveCache.epoch := by
  cases effect <;> rfl

theorem StepEffect.bound : actor.BoundFrom inner outcome.actor := by
  cases effect <;> assumption

end

end BufferBudgetInner

namespace BudgetSystem

variable {limit place : Nat} {system next : BudgetSystem}

def others (system : BudgetSystem) (place : Nat) : List BudgetCharge :=
  (system.actors.eraseIdx place).flatMap BudgetActor.charges

variable {actor : BudgetActor}

theorem live_perm (here : system.actors[place]? = some actor) :
    system.live.Perm (system.inner.receiveCache.buffer.toList ++ (actor.charges ++ system.others place)) := by
  obtain ⟨inside, rfl⟩ := List.getElem?_eq_some_iff.mp here
  exact ((getElem_cons_eraseIdx_perm inside).symm.flatMap_right BudgetActor.charges).append_left _

theorem apply_live_perm (inside : place < system.actors.length) (outcome : BudgetOutcome) :
    (system.apply place outcome).live.Perm
      (outcome.inner.receiveCache.buffer.toList ++ (outcome.actor.charges ++ system.others place)) :=
  ((set_perm_cons_eraseIdx inside outcome.actor).flatMap_right BudgetActor.charges).append_left _

theorem spawn_live (system : BudgetSystem) (inner : BufferBudgetInner) (actor : BudgetActor) :
    (system.spawn inner actor).live =
      inner.receiveCache.buffer.toList ++ (system.actors.flatMap BudgetActor.charges ++ actor.charges) := by
  simp [live, spawn]

/-- The counter is the sum of the live charges and under the limit, each charge is released or live once, and every actor knows
what it must. -/
structure Invariant (limit : Nat) (system : BudgetSystem) : Prop where
  sameLimit : system.inner.limit = limit
  balanced : system.inner.reserved = (system.live.map BudgetCharge.capacity).sum
  bounded : system.inner.reserved ≤ limit
  accounted : ((system.released ++ system.live).map BudgetCharge.id).Perm (List.range system.issued)
  actors : ∀ actor ∈ system.actors, actor.Sound limit system.instants
  epochs : ∀ actor ∈ system.actors, ∀ epoch, actor.epoch? = some epoch → epoch ≤ system.inner.receiveCache.epoch

theorem invariant_new (limit : Nat) : (new limit).Invariant limit :=
  ⟨rfl, rfl, Nat.zero_le _, .nil, nofun, nofun⟩

theorem Invariant.covered (invariant : system.Invariant limit) :
    ∀ charge ∈ system.live, charge.capacity ≤ system.inner.reserved := by
  intro charge member
  rw [invariant.balanced]
  exact single_le_sum (by simp) _ (mem_map_of_mem member)

theorem Invariant.moved (invariant : system.Invariant limit) {added freed : List BudgetCharge}
    (moved : (freed ++ next.live).Perm (added ++ system.live)) (sameLimit : next.inner.limit = system.inner.limit)
    (counter : next.inner.reserved + (freed.map BudgetCharge.capacity).sum =
      system.inner.reserved + (added.map BudgetCharge.capacity).sum)
    (bounded : next.inner.reserved ≤ limit) (logged : next.released = system.released ++ freed)
    (numbered : (added.map BudgetCharge.id ++ List.range system.issued).Perm (List.range next.issued))
    (actors : ∀ actor ∈ next.actors, actor.Sound limit next.instants)
    (epochs : ∀ actor ∈ next.actors, ∀ epoch, actor.epoch? = some epoch → epoch ≤ next.inner.receiveCache.epoch) :
    next.Invariant limit := by
  refine ⟨sameLimit.trans invariant.sameLimit, ?_, bounded, ?_, actors, epochs⟩
  · have total := (moved.map BudgetCharge.capacity).sum_eq
    have balanced := invariant.balanced
    simp only [map_append, sum_append] at total
    omega
  · rw [logged, append_assoc]
    have before : (system.released ++ (freed ++ next.live)).Perm (added ++ (system.released ++ system.live)) := by
      refine (moved.append_left _).trans ?_
      rw [← append_assoc, ← append_assoc]
      exact perm_append_comm.append_right _
    refine (before.map BudgetCharge.id).trans ?_
    rw [map_append]
    exact (invariant.accounted.append_left _).trans numbered

theorem Invariant.spawn (invariant : system.Invariant limit) {inner : BufferBudgetInner}
    (sameLimit : inner.limit = system.inner.limit) (sameCounter : inner.reserved = system.inner.reserved)
    (newer : system.inner.receiveCache.epoch ≤ inner.receiveCache.epoch)
    (moved : (inner.receiveCache.buffer.toList ++ actor.charges).Perm system.inner.receiveCache.buffer.toList)
    (sound : actor.Sound limit (system.instants ++ [system.instant])) (unbound : actor.epoch? = none) :
    (system.spawn inner actor).Invariant limit := by
  refine @Invariant.moved _ _ _ invariant [] [] ?_ sameLimit (by simpa [BudgetSystem.spawn] using sameCounter)
    (sameCounter.trans_le invariant.bounded) (by simp [BudgetSystem.spawn]) (by simp [BudgetSystem.spawn]) ?_ ?_
  · rw [nil_append, nil_append, spawn_live]
    refine (perm_append_comm.append_left _).trans ?_
    rw [← append_assoc]
    exact moved.append_right _
  · intro other member
    simp only [BudgetSystem.spawn, mem_append, mem_singleton] at member
    rcases member with old | rfl
    · exact (invariant.actors other old).later _
    · exact sound
  · intro other member epoch bound
    simp only [BudgetSystem.spawn, mem_append, mem_singleton] at member
    rcases member with old | rfl
    · exact (invariant.epochs other old epoch bound).trans newer
    · rw [unbound] at bound
      cases bound

variable {outcome : BudgetOutcome}

theorem Invariant.apply (invariant : system.Invariant limit) (small : limit < 2 ^ 64) {event : BudgetEvent}
    (here : system.actors[place]? = some actor)
    (run : system.inner.actorStep system.issued system.instants.length actor event = some outcome) :
    (system.apply place outcome).Invariant limit := by
  have effect := BufferBudgetInner.actorStep_effect run
  have inside := (List.getElem?_eq_some_iff.mp here).1
  have member := mem_of_getElem? here
  have before := live_perm here
  have same := invariant.sameLimit
  obtain ⟨added, moved, counter, bounded, sameLimit, numbered⟩ := effect.ledger (system.others place)
    (by rw [same]; exact invariant.bounded)
    (fun charge owned => invariant.covered charge (before.mem_iff.mpr (by simp [owned])))
  refine @Invariant.moved _ _ _ invariant added outcome.released.toList ?_ sameLimit counter
    (bounded.trans_eq same) rfl ?_ ?_ ?_
  · exact ((apply_live_perm inside outcome).append_left _).trans (moved.trans (before.symm.append_left _))
  · rw [numbered]
    simp only [BudgetSystem.apply]
    split
    · rw [List.range_succ]
      exact perm_append_comm
    · rfl
  · intro other changed
    rcases mem_or_eq_of_mem_set changed with old | rfl
    · exact (invariant.actors other old).later _
    · have sound := invariant.actors actor member
      rw [← same] at sound ⊢
      exact BufferBudgetInner.actorStep_sound (by rwa [same]) sound run
  · intro other changed epoch bound
    have kept : (system.apply place outcome).inner.receiveCache.epoch = system.inner.receiveCache.epoch := effect.epoch_eq
    rw [kept]
    rcases mem_or_eq_of_mem_set changed with old | rfl
    · exact invariant.epochs other old epoch bound
    · rcases effect.bound epoch bound with old | ⟨-, rfl⟩
      · exact invariant.epochs actor member epoch old
      · exact le_rfl

theorem Invariant.step (invariant : system.Invariant limit) (small : limit < 2 ^ 64) {move : BudgetMove}
    (run : system.step move = some next) : next.Invariant limit := by
  cases move with
  | callReserve capacity =>
    cases run
    refine invariant.spawn rfl rfl le_rfl ?_ ?_ ?_ <;> unfold reserveActor <;> split <;>
      simp [BudgetActor.charges, BudgetActor.Sound, BudgetActor.epoch?, ReserveCaller.epoch?]
  | callReceiveBuffer =>
    cases run
    exact invariant.spawn rfl rfl le_rfl (by simp [BudgetActor.charges]) trivial rfl
  | clearReceiveCache =>
    simp only [BudgetSystem.step, ite_none_right_eq_some] at run
    obtain ⟨-, run⟩ := run
    cases run
    exact invariant.spawn rfl rfl (Nat.le_succ _) (.refl _) trivial rfl
  | act place event =>
    simp only [BudgetSystem.step, bind_eq_some_iff, map_eq_some_iff] at run
    obtain ⟨actor, here, outcome, run, rfl⟩ := run
    exact invariant.apply small here run

theorem Run.invariant (run : Run system next) (small : limit < 2 ^ 64) (invariant : system.Invariant limit) :
    next.Invariant limit := by
  induction run with
  | nil system => exact invariant
  | cons here rest ih => exact ih (invariant.step small here)

/-- A charge that the cache cannot take back: it is not there, and whoever holds it is bound to an older epoch. -/
structure Fenced (charge : BudgetCharge) (system : BudgetSystem) : Prop where
  absent : system.inner.receiveCache.buffer ≠ some charge
  counted : charge.id < system.issued
  older : ∀ actor ∈ system.actors, charge ∈ actor.charges → ∀ epoch, actor.epoch? = some epoch →
    epoch < system.inner.receiveCache.epoch

variable {charge : BudgetCharge}

theorem Fenced.spawn (fenced : system.Fenced charge) {inner : BufferBudgetInner}
    (absent : inner.receiveCache.buffer ≠ some charge) (newer : system.inner.receiveCache.epoch ≤ inner.receiveCache.epoch)
    (unbound : actor.epoch? = none) : (system.spawn inner actor).Fenced charge := by
  refine ⟨absent, fenced.counted, fun other member owned epoch bound => ?_⟩
  simp only [BudgetSystem.spawn, mem_append, mem_singleton] at member
  rcases member with old | rfl
  · exact (fenced.older other old owned epoch bound).trans_le newer
  · rw [unbound] at bound
    cases bound

theorem Fenced.apply (fenced : system.Fenced charge) (here : system.actors[place]? = some actor)
    (effect : BufferBudgetInner.StepEffect system.inner system.issued actor outcome) :
    (system.apply place outcome).Fenced charge := by
  have member := mem_of_getElem? here
  have older := fenced.older
  -- The other actors are untouched, and this one either had the charge already or gets another one.
  have rest : (charge ∈ outcome.actor.charges → charge ∈ actor.charges) →
      ∀ other ∈ (system.apply place outcome).actors, charge ∈ other.charges → ∀ epoch, other.epoch? = some epoch →
        epoch < (system.apply place outcome).inner.receiveCache.epoch := by
    intro kept other changed owned epoch bound
    have sameEpoch : (system.apply place outcome).inner.receiveCache.epoch = system.inner.receiveCache.epoch :=
      effect.epoch_eq
    rw [sameEpoch]
    rcases mem_or_eq_of_mem_set changed with old | rfl
    · exact older other old owned epoch bound
    · rcases effect.bound epoch bound with old | ⟨idle, -⟩
      · exact older actor member (kept owned) epoch old
      · have impossible := kept owned
        rw [idle] at impossible
        cases impossible
  cases effect with
  | keep next bound same => exact ⟨fenced.absent, fenced.counted, rest (fun owned => same ▸ owned)⟩
  | take next other bound cached idle owner =>
    refine ⟨nofun, fenced.counted, rest (fun owned => ?_)⟩
    simp only [owner, mem_singleton] at owned
    exact absurd (owned ▸ cached) fenced.absent
  | store next other bound owner current free idle =>
    refine ⟨fun same => ?_, fenced.counted, rest (fun owned => by simp [idle] at owned)⟩
    cases some.inj same
    exact absurd (older actor member (by simp [owner]) _ current) (lt_irrefl _)
  | count next capacity bound fits idle owner =>
    have counted := fenced.counted
    refine ⟨fenced.absent, Nat.lt_succ_of_lt counted, rest (fun owned => ?_)⟩
    simp only [owner, mem_singleton] at owned
    subst owned
    exact absurd counted (lt_irrefl _)
  | release next other bound owner idle =>
    exact ⟨fenced.absent, fenced.counted, rest (fun owned => by simp [idle] at owned)⟩

theorem Fenced.step (fenced : system.Fenced charge) {move : BudgetMove} (run : system.step move = some next) :
    next.Fenced charge := by
  cases move with
  | callReserve capacity =>
    cases run
    refine fenced.spawn fenced.absent le_rfl ?_
    unfold reserveActor
    split <;> rfl
  | callReceiveBuffer =>
    cases run
    exact fenced.spawn fenced.absent le_rfl rfl
  | clearReceiveCache =>
    simp only [BudgetSystem.step, ite_none_right_eq_some] at run
    obtain ⟨-, run⟩ := run
    cases run
    exact fenced.spawn nofun (Nat.le_succ _) rfl
  | act place event =>
    simp only [BudgetSystem.step, bind_eq_some_iff, map_eq_some_iff] at run
    obtain ⟨actor, here, outcome, run, rfl⟩ := run
    exact fenced.apply here (BufferBudgetInner.actorStep_effect run)

theorem Run.fenced (run : Run system next) (fenced : system.Fenced charge) : next.Fenced charge := by
  induction run with
  | nil system => exact fenced
  | cons here rest ih => exact ih (fenced.step here)

theorem Invariant.fenced (invariant : system.Invariant limit) (run : system.step .clearReceiveCache = some next)
    (live : charge ∈ system.live) : next.Fenced charge := by
  have counted : charge.id < system.issued := by
    rw [← mem_range, ← invariant.accounted.mem_iff]
    exact mem_map_of_mem (mem_append_right _ live)
  simp only [BudgetSystem.step, ite_none_right_eq_some] at run
  obtain ⟨-, run⟩ := run
  cases run
  refine ⟨nofun, counted, fun actor member owned epoch bound => ?_⟩
  simp only [BudgetSystem.spawn, mem_append, mem_singleton] at member
  rcases member with old | rfl
  · exact Nat.lt_succ_of_le (invariant.epochs actor old epoch bound)
  · cases bound

variable {limit : Nat} {system next : BudgetSystem}

/-- A step releases nothing, or one live charge that the counter covers. -/
def Releases (system next : BudgetSystem) : Prop :=
  next.released = system.released ∨ ∃ charge ∈ system.live, charge.capacity ≤ system.inner.reserved ∧
    next.released = system.released ++ [charge] ∧ next.inner.reserved = system.inner.reserved - charge.capacity

theorem Invariant.releases (invariant : system.Invariant limit) {move : BudgetMove} (run : system.step move = some next) :
    system.Releases next := by
  cases move with
  | callReserve capacity | callReceiveBuffer =>
    cases run
    exact .inl rfl
  | clearReceiveCache =>
    simp only [BudgetSystem.step, ite_none_right_eq_some] at run
    obtain ⟨-, run⟩ := run
    cases run
    exact .inl rfl
  | act place event =>
    simp only [BudgetSystem.step, bind_eq_some_iff, map_eq_some_iff] at run
    obtain ⟨actor, here, outcome, run, rfl⟩ := run
    have before := live_perm here
    cases BufferBudgetInner.actorStep_effect run with
    | release after charge bound owner idle =>
      have live : charge ∈ system.live := before.mem_iff.mpr (by simp [owner])
      have covered := invariant.covered charge live
      exact .inr ⟨charge, live, covered, rfl, BufferBudgetInner.releaseBytes_reserved covered⟩
    | _ => exact .inl (append_nil _)

/-- `BufferLimit` after an instant of the call with no room under the limit and, not before it, one with the cache
empty. -/
def LimitReported (system : BudgetSystem) (call : ReserveCall) (readAt emptyAt : Nat) : Prop :=
  call.since ≤ readAt ∧ readAt ≤ emptyAt ∧
    (∃ seen, system.instants[readAt]? = some seen ∧ system.inner.limit < seen.reserved + call.capacity) ∧
    ∃ seen, system.instants[emptyAt]? = some seen ∧ seen.cached = none

theorem Invariant.unreleased (invariant : system.Invariant limit) {charge : BudgetCharge} (live : charge ∈ system.live) :
    charge.id ∉ system.released.map BudgetCharge.id := by
  intro released
  have distinct := invariant.accounted.nodup_iff.mpr nodup_range
  rw [map_append] at distinct
  exact (disjoint_of_nodup_append distinct) released (mem_map_of_mem live)

/-- Whatever threads do, the counter is the sum of the live charges and within the limit, every charge is live in one
place or was released once, and `BufferLimit` was reported after a counter without room and an empty cache. -/
theorem budget_accounting (small : limit < 2 ^ 64) (reach : Run (.new limit) system) :
    system.inner.reserved = (system.live.map BudgetCharge.capacity).sum ∧ system.inner.reserved ≤ limit ∧
    ((system.released ++ system.live).map BudgetCharge.id).Perm (List.range system.issued) ∧
    (∀ move next, system.step move = some next → system.Releases next) ∧
    (∀ handles stage, .buffer handles stage ∈ system.actors → handles.Alive →
      ∃ charge epoch, stage = .held charge epoch ∧ charge ∈ system.live ∧
        charge.id ∉ system.released.map BudgetCharge.id) ∧
    (∀ cleared last charge, system.step .clearReceiveCache = some cleared → charge ∈ system.live → Run cleared last →
      last.inner.receiveCache.buffer ≠ some charge) ∧
    ∀ call readAt emptyAt, .limited call readAt emptyAt ∈ system.actors → system.LimitReported call readAt emptyAt := by
  have invariant := reach.invariant small (invariant_new limit)
  refine ⟨invariant.balanced, invariant.bounded, invariant.accounted, fun _ _ run => invariant.releases run, ?_, ?_, ?_⟩
  · intro handles stage member alive
    have sound : handles.Sound stage := invariant.actors _ member
    obtain ⟨charge, epoch, rfl⟩ := sound.held_of_alive alive
    have live : charge ∈ system.live :=
      mem_append_right _ (mem_flatMap.mpr ⟨_, member, mem_singleton_self charge⟩)
    exact ⟨charge, epoch, rfl, live, invariant.unreleased live⟩
  · intro cleared last charge run live later
    exact (later.fenced (invariant.fenced run live)).absent
  · intro call readAt emptyAt member
    have sound := invariant.actors _ member
    rw [← invariant.sameLimit] at sound
    exact sound

def runMoves (system : BudgetSystem) : List BudgetMove → Option BudgetSystem
  | [] => some system
  | move :: moves => (system.step move).bind fun next => next.runMoves moves

theorem run_of_runMoves {moves : List BudgetMove} (run : system.runMoves moves = some next) : Run system next := by
  induction moves generalizing system with
  | nil =>
    cases run
    exact .nil _
  | cons move moves ih =>
    simp only [runMoves, bind_eq_some_iff] at run
    obtain ⟨middle, here, rest⟩ := run
    exact .cons here (ih rest)

/-- `BufferLimit` only if at one instant of the call the cache was empty and there was no room under the limit. -/
def LimitReportsExact (system : BudgetSystem) : BudgetActor → Prop
  | .limited call _ _ =>
      ∃ seen ∈ system.instants.drop call.since, seen.cached = none ∧ system.inner.limit < seen.reserved + call.capacity
  | _ => True

instance (system : BudgetSystem) : (actor : BudgetActor) → Decidable (system.LimitReportsExact actor)
  | .limited call _ _ => inferInstanceAs (Decidable (∃ seen ∈ system.instants.drop call.since,
      seen.cached = none ∧ system.inner.limit < seen.reserved + call.capacity))
  | .loading _ | .loaded _ _ _ | .evicted _ _ | .charged _ _ | .refused | .locking | .waiting | .token _ | .buffer _ _
  | .clearing _ | .finished => isTrue trivial

/-- A call of `reserve` up to its token. -/
def reserveMoves (place capacity : Nat) : List BudgetMove :=
  [.callReserve capacity, .act place .proceed, .act place (.exchange false), .act place .proceed]

/-- `receive_buffer` with no buffer in the cache, then its buffer goes back there. -/
def cacheMoves (place : Nat) : List BudgetMove :=
  [.callReceiveBuffer, .act place .proceed, .act place .proceed, .act place (.exchange false),
    .act place (.allocated maxUdpWireDatagramBytes), .act place .dropLease, .act place .proceed, .act place .proceed,
    .act place .proceed]

/-- A megabyte, full with fifteen tokens and the cached buffer. A `reserve` reads the counter; then a token goes, the cached
buffer is leased again, and it finds the cache empty. -/
def sampleRace : List BudgetMove :=
  cacheMoves 0 ++ (List.range 15).flatMap (fun place => reserveMoves (place + 1) maxUdpWireDatagramBytes) ++
    [.callReserve 65507, .act 16 .proceed, .act 1 .dropToken, .callReceiveBuffer, .act 17 .proceed, .act 16 .proceed]

theorem sampleRace_accounting : ∃ system, Run (.new 1048576) system ∧ system.inner.reserved = 982605 ∧
    (system.live.map BudgetCharge.capacity).sum = 982605 := by
  have ran : ((new 1048576).runMoves sampleRace).any (fun system => system.inner.reserved = 982605) = true := by
    decide +kernel
  obtain ⟨system, run, counter⟩ := (any_eq_true _ _).mp ran
  have reach := run_of_runMoves run
  have accounting := budget_accounting (by decide) reach
  have counted := of_decide_eq_true counter
  exact ⟨system, reach, counted, accounting.1.symm.trans counted⟩

theorem sampleRace_limited :
    ∃ system, Run (.new 1048576) system ∧ ¬ ∀ actor ∈ system.actors, system.LimitReportsExact actor := by
  have ran : ((new 1048576).runMoves sampleRace).any
      (fun system => ¬ ∀ actor ∈ system.actors, system.LimitReportsExact actor) = true := by decide +kernel
  obtain ⟨system, run, broken⟩ := (any_eq_true _ _).mp ran
  exact ⟨system, run_of_runMoves run, of_decide_eq_true broken⟩

end BudgetSystem

end Ferrum.Runtime
