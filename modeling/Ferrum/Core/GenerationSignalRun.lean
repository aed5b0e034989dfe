import Mathlib.Data.Finset.Card
import Mathlib.Data.Nat.ModEq
import Ferrum.Core.GenerationSignal

namespace Ferrum.Core

open Option List

namespace GenerationSignal

variable {candidate id : Nat}

theorem searchSubscriber_spec {subscribers : HashMap Nat Waker} {turns next : Nat}
    (found : searchSubscriber subscribers turns candidate = some (id, next)) :
    id ∉ subscribers ∧ ∃ steps, id = wrappingSucc^[steps] candidate ∧
      ∀ earlier < steps, wrappingSucc^[earlier] candidate ∈ subscribers := by
  induction turns generalizing candidate with
  | zero => cases found
  | succ turns ih =>
    unfold searchSubscriber at found
    split at found
    · rename_i taken
      obtain ⟨free, steps, reached, passed⟩ := ih found
      refine ⟨free, steps + 1, reached, ?_⟩
      intro earlier below
      cases earlier with
      | zero => exact taken
      | succ earlier => exact passed earlier (by omega)
    · rename_i free
      cases found
      exact ⟨free, 0, rfl, fun earlier below => absurd below (Nat.not_lt_zero _)⟩

theorem iterate_wrappingSucc (small : candidate < u64Limit) (steps : Nat) :
    wrappingSucc^[steps] candidate = (candidate + steps) % u64Limit := by
  have positive : 0 < u64Limit := by decide
  induction steps with
  | zero => exact (Nat.mod_eq_of_lt small).symm
  | succ steps ih =>
    rw [Function.iterate_succ_apply', ih, wrappingSucc, ← Nat.add_assoc, Nat.add_mod (candidate + steps) 1]
    have below := Nat.mod_lt (candidate + steps) positive
    have one : 1 % u64Limit = 1 := by decide
    rw [one]
    split
    · rename_i last
      rw [last, Nat.mod_self]
    · exact (Nat.mod_eq_of_lt (by omega)).symm

theorem lookup_remove_ne {signal : GenerationSignal} {subscriber : Option Nat} (different : subscriber ≠ some id) :
    (signal.remove subscriber).subscribers.lookup id = signal.subscribers.lookup id := by
  cases subscriber with
  | none => rfl
  | some other => exact AList.lookup_erase_ne fun same => different (by rw [same])

@[simp] theorem remove_generation (signal : GenerationSignal) (subscriber : Option Nat) :
    (signal.remove subscriber).generation = signal.generation := by
  cases subscriber <;> rfl

end GenerationSignal

namespace SignalSystem

variable {system : SignalSystem}

variable {change : Nat} {subscription : GenerationChange}

theorem live_bound (held : system.live change = some subscription) : change < system.changes.length := by
  by_contra outside
  rw [live, List.getElem?_eq_none (by omega)] at held
  cases held

theorem live_set (changes : List (Option GenerationChange)) (signal : GenerationSignal)
    (notifications : List GenerationNotification) (inside : change < changes.length) (entry : Option GenerationChange)
    (other : Nat) :
    live ⟨signal, changes.set change entry, notifications⟩ other =
      if other = change then entry else live ⟨signal, changes, notifications⟩ other := by
  unfold live
  by_cases same : other = change
  · rw [if_pos same, same, List.getElem?_set_self inside]
    rfl
  · rw [if_neg same, List.getElem?_set_ne (Ne.symm same)]

theorem live_append (changes : List (Option GenerationChange)) (signal : GenerationSignal)
    (notifications : List GenerationNotification)
    (entry : Option GenerationChange) (other : Nat) :
    live ⟨signal, changes ++ [entry], notifications⟩ other =
      if other = changes.length then entry else live ⟨signal, changes, notifications⟩ other := by
  unfold live
  by_cases same : other = changes.length
  · rw [if_pos same, same, List.getElem?_append_right le_rfl, Nat.sub_self]
    rfl
  · rw [if_neg same]
    by_cases below : other < changes.length
    · rw [List.getElem?_append_left below]
    · rw [List.getElem?_eq_none (by simp; omega), List.getElem?_eq_none (show changes.length ≤ other by omega)]

/-- What every collisionless run keeps: ids are held once, waiting subscriptions are kept, and a completed one saw another
generation than its baseline. -/
structure Sound (system : SignalSystem) : Prop where
  distinct : ∀ change other subscription subscription' id, system.live change = some subscription →
    system.live other = some subscription' → subscription.subscriber = some id → subscription'.subscriber = some id →
    change = other
  keeps : system.LosesNothing
  behind : ∀ change subscription waker, system.live change = some subscription → subscription.waiting = some waker →
    subscription.completed = none ∧ subscription.baseline ≤ system.signal.generation
  finished : ∀ change subscription generation, system.live change = some subscription →
    subscription.completed = some generation → generation ≠ subscription.baseline ∧ generation ≤ system.signal.generation

theorem sound_new (generation : Nat) : Sound (new generation) := by
  have empty : ∀ change subscription, live (new generation) change ≠ some subscription := by
    intro change subscription held
    exact absurd (live_bound held) (Nat.not_lt_zero _)
  exact ⟨fun change other _ _ _ held => absurd held (empty _ _), fun change _ _ held => absurd held (empty _ _),
    fun change _ _ held => absurd held (empty _ _), fun change _ _ held => absurd held (empty _ _)⟩

/-- What is said of a subscription with respect to a signal and the notifications. -/
structure Fine (system : SignalSystem) (subscription : GenerationChange) : Prop where
  keeps : ∀ waker, subscription.waiting = some waker → system.Kept subscription waker
  behind : ∀ waker, subscription.waiting = some waker →
    subscription.completed = none ∧ subscription.baseline ≤ system.signal.generation
  finished : ∀ generation, subscription.completed = some generation →
    generation ≠ subscription.baseline ∧ generation ≤ system.signal.generation

theorem Sound.fine (sound : Sound system) (held : system.live change = some subscription) : Fine system subscription :=
  ⟨fun waker => sound.keeps change subscription waker held, fun waker => sound.behind change subscription waker held,
    fun generation => sound.finished change subscription generation held⟩

theorem fine_watchFrom (baseline : Nat) : Fine system (GenerationSignal.watchFrom baseline) :=
  ⟨fun _ waits => (by cases waits), fun _ waits => (by cases waits), fun _ done => (by cases done)⟩

theorem Sound.of_fine
    (distinct : ∀ change other subscription subscription' id, system.live change = some subscription →
      system.live other = some subscription' → subscription.subscriber = some id → subscription'.subscriber = some id →
      change = other)
    (fine : ∀ change subscription, system.live change = some subscription → Fine system subscription) : Sound system :=
  ⟨distinct, fun change subscription waker held => (fine change subscription held).keeps waker,
    fun change subscription waker held => (fine change subscription held).behind waker,
    fun change subscription generation held => (fine change subscription held).finished generation⟩

theorem Fine.frame {subscription : GenerationChange} (fine : Fine system subscription) {after : SignalSystem}
    (generation : after.signal.generation = system.signal.generation) (notifications : after.notifications = system.notifications)
    (same : ∀ id, subscription.subscriber = some id →
      after.signal.subscribers.lookup id = system.signal.subscribers.lookup id) : Fine after subscription := by
  refine ⟨?_, ?_, ?_⟩
  · intro waker waits
    rcases fine.keeps waker waits with ⟨current, id, registered, found⟩ | ⟨replaced, kept⟩
    · exact .inl ⟨by rw [generation, current], id, registered, by rw [same id registered, found]⟩
    · exact .inr ⟨by rw [generation]; exact replaced, by rw [notifications]; exact kept⟩
  · rw [generation]
    exact fine.behind
  · rw [generation]
    exact fine.finished

theorem Sound.watch (sound : Sound system) (baseline : Nat) :
    Sound { system with changes := system.changes ++ [some (GenerationSignal.watchFrom baseline)] } := by
  refine .of_fine ?_ ?_
  · intro change other subscription subscription' id held held' registered registered'
    rw [live_append] at held held'
    split at held
    · cases held
      cases registered
    · split at held'
      · cases held'
        cases registered'
      · exact sound.distinct change other subscription subscription' id held held' registered registered'
  · intro change subscription held
    rw [live_append] at held
    split at held
    · cases held
      exact fine_watchFrom baseline
    · exact (sound.fine held).frame rfl rfl fun _ _ => rfl

variable {signal : GenerationSignal} {waker : Waker}

theorem Sound.replace (sound : Sound system) {change : Nat} {subscription : GenerationChange}
    (held : system.live change = some subscription) {entry : Option GenerationChange}
    (generation : signal.generation = system.signal.generation)
    (others : ∀ other subscription' id, other ≠ change → system.live other = some subscription' →
      subscription'.subscriber = some id → signal.subscribers.lookup id = system.signal.subscribers.lookup id ∧
        ∀ now, entry = some now → now.subscriber ≠ some id)
    (fine : ∀ now, entry = some now → Fine ⟨signal, system.changes.set change entry, system.notifications⟩ now) :
    Sound ⟨signal, system.changes.set change entry, system.notifications⟩ := by
  have inside := live_bound held
  refine .of_fine ?_ ?_
  · intro left right subscription' subscription'' id held' held'' registered registered'
    rw [live_set _ _ _ inside] at held' held''
    split at held'
    · rename_i isLeft
      split at held''
      · rename_i isRight
        rw [isLeft, isRight]
      · rename_i notRight
        exact absurd registered ((others right subscription'' id notRight held'' registered').2 _ held')
    · rename_i notLeft
      split at held''
      · exact absurd registered' ((others left subscription' id notLeft held' registered).2 _ held'')
      · exact sound.distinct left right subscription' subscription'' id held' held'' registered registered'
  · intro other subscription' held'
    rw [live_set _ _ _ inside] at held'
    split at held'
    · exact fine _ held'
    · rename_i different
      exact (sound.fine held').frame generation rfl fun id registered => (others other _ id different held' registered).1

theorem not_held_of_free (free : ¬system.NextHeld) {id next : Nat} (found : system.signal.freeSubscriber = some (id, next))
    (held : system.live change = some subscription) : subscription.subscriber ≠ some id := by
  obtain ⟨unregistered, turns, reached, passed⟩ := GenerationSignal.searchSubscriber_spec found
  intro registered
  exact free ⟨turns, id, unregistered, reached, passed, change, subscription, held, registered⟩

theorem Sound.poll (sound : Sound system) (free : ¬system.Collides (.poll change waker))
    {now : GenerationChange} {result : PollResult} (held : system.live change = some subscription)
    (polled : system.signal.poll subscription waker = some (result, now, signal)) :
    Sound ⟨signal, system.changes.set change (some now), system.notifications⟩ := by
  have fine := sound.fine held
  have apart : ∀ other subscription' id, other ≠ change → system.live other = some subscription' →
      subscription'.subscriber = some id → subscription.subscriber ≠ some id := by
    intro other subscription' id different held' registered registered'
    exact different (sound.distinct other change _ _ id held' held registered registered')
  unfold GenerationSignal.poll at polled
  split at polled
  · cases polled
    refine sound.replace held rfl (fun other subscription' id different held' registered => ⟨rfl, ?_⟩) ?_
    · rintro _ ⟨⟩
      exact apart other subscription' id different held' registered
    · rintro _ ⟨⟩
      exact fine.frame rfl rfl fun _ _ => rfl
  rename_i running
  split at polled
  · rename_i replaced
    cases polled
    refine sound.replace held (GenerationSignal.remove_generation _ _) ?_ ?_
    · intro other subscription' id different held' registered
      refine ⟨GenerationSignal.lookup_remove_ne (apart other subscription' id different held' registered), ?_⟩
      rintro _ ⟨⟩ ⟨⟩
    · rintro _ ⟨⟩
      refine ⟨fun _ waits => (by cases waits), fun _ waits => (by cases waits), ?_⟩
      rintro _ ⟨⟩
      exact ⟨replaced, by simp⟩
  rename_i same
  rw [not_not] at same
  -- a pending poll keeps its waker registered under an id that no other subscription holds
  have pending : ∀ id signal, signal.generation = system.signal.generation → signal.subscribers.lookup id = some waker →
      (∀ other, other ≠ id → signal.subscribers.lookup other = system.signal.subscribers.lookup other) →
      (∀ other subscription', other ≠ change → system.live other = some subscription' →
        subscription'.subscriber ≠ some id) → now = { subscription with subscriber := some id, waiting := some waker } →
      Sound ⟨signal, system.changes.set change (some now), system.notifications⟩ := by
    intro id signal generation registered frame unheld isNow
    refine sound.replace held generation ?_ ?_
    · intro other subscription' id' different held' registered'
      have distinct : id' ≠ id := by
        rintro rfl
        exact unheld other subscription' different held' registered'
      refine ⟨frame id' distinct, ?_⟩
      rintro _ ⟨⟩
      rw [isNow]
      exact fun equal => distinct (some.inj equal).symm
    · rintro _ ⟨⟩
      rw [isNow]
      refine ⟨?_, ?_, ?_⟩
      · rintro _ ⟨⟩
        exact .inl ⟨by rw [generation]; exact same, id, rfl, registered⟩
      · rintro _ ⟨⟩
        exact ⟨running, by rw [generation, same]⟩
      · intro generation done
        rw [running] at done
        cases done
  split at polled
  · rename_i id holds
    have self : ({ subscription with waiting := some waker } : GenerationChange) =
        { subscription with subscriber := some id, waiting := some waker } := by rw [← holds]
    have unheld : ∀ other subscription', other ≠ change → system.live other = some subscription' →
        subscription'.subscriber ≠ some id := by
      intro other subscription' different held' registered
      exact apart other subscription' id different held' registered holds
    have inserted : ∀ other, other ≠ id → (system.signal.insert id waker).subscribers.lookup other =
        system.signal.subscribers.lookup other := fun other different => AList.lookup_insert_ne different
    split at polled
    · rename_i registered found
      split at polled
      · rename_i stays
        cases polled
        exact pending id _ rfl (by rw [found, stays]) (fun _ _ => rfl) unheld self
      · cases polled
        exact pending id _ rfl (AList.lookup_insert _) inserted unheld self
    · cases polled
      exact pending id _ rfl (AList.lookup_insert _) inserted unheld self
  · rename_i unregistered
    split at polled
    · rename_i id next found
      cases polled
      have unheld : ¬system.NextHeld := fun next => free ⟨next, subscription, held, running, same.symm, unregistered⟩
      exact pending id _ rfl (AList.lookup_insert _) (fun other different => AList.lookup_insert_ne different)
        (fun other subscription' _ held' => not_held_of_free unheld found held') rfl
    · cases polled

theorem Sound.drop (sound : Sound system) (held : system.live change = some subscription) :
    Sound ⟨system.signal.remove subscription.subscriber, system.changes.set change none, system.notifications⟩ := by
  refine sound.replace held (GenerationSignal.remove_generation _ _) ?_ fun _ entry => (by cases entry)
  intro other subscription' id different held' registered
  refine ⟨GenerationSignal.lookup_remove_ne ?_, fun _ entry => (by cases entry)⟩
  intro registered'
  exact different (sound.distinct other change _ _ id held' held registered registered')

theorem Sound.prepare (sound : Sound system) {generation : Nat} (later : system.signal.generation ≤ generation) :
    Sound ⟨(system.signal.prepareNotification generation).2, system.changes,
      system.notifications ++ [(system.signal.prepareNotification generation).1]⟩ := by
  unfold GenerationSignal.prepareNotification
  split
  · refine .of_fine sound.distinct fun change subscription held => ?_
    have fine := sound.fine held
    refine ⟨?_, fine.behind, fine.finished⟩
    intro waker waits
    rcases fine.keeps waker waits with current | ⟨replaced, notification, listed, kept⟩
    · exact .inl current
    · exact .inr ⟨replaced, notification, mem_append_left _ listed, kept⟩
  · rename_i different
    refine .of_fine sound.distinct fun change subscription held => ?_
    have fine := sound.fine held
    refine ⟨?_, ?_, ?_⟩
    · intro waker waits
      have behind := (fine.behind waker waits).2
      rcases fine.keeps waker waits with ⟨current, id, -, found⟩ | ⟨replaced, notification, listed, kept⟩
      · refine .inr ⟨?_, _, mem_append_right _ (mem_singleton.mpr rfl), current, ?_, .inl ?_⟩
        · intro same
          exact different (current.trans same.symm)
        · intro same
          exact different (current.trans same.symm)
        · exact HashMap.mem_values.mpr ⟨id, found⟩
      · refine .inr ⟨?_, notification, mem_append_left _ listed, kept⟩
        show generation ≠ subscription.baseline
        omega
    · intro waker waits
      exact ⟨(fine.behind waker waits).1, (fine.behind waker waits).2.trans later⟩
    · intro completed done
      exact ⟨(fine.finished completed done).1, (fine.finished completed done).2.trans later⟩

theorem mem_wakeNext {notification : GenerationNotification}
    (kept : waker ∈ notification.pending ∨ waker ∈ notification.awake) :
    waker ∈ (wakeNext notification).pending ∨ waker ∈ (wakeNext notification).awake := by
  have all : waker ∈ (wakeNext notification).awake ++ (wakeNext notification).pending := by
    unfold GenerationNotification.awake GenerationNotification.pending
    rw [take_append_drop]
    exact kept.elim (fun later => mem_of_mem_drop later) (fun sooner => mem_of_mem_take sooner)
  exact (mem_append.mp all).symm

section

variable (sound : Sound system)
include sound

theorem Sound.wake {place : Nat} {found : GenerationNotification}
    (prepared : system.notifications[place]? = some found) :
    Sound ⟨system.signal, system.changes, system.notifications.set place (wakeNext found)⟩ := by
  refine .of_fine sound.distinct fun change subscription held => ?_
  have fine := sound.fine held
  refine ⟨?_, fine.behind, fine.finished⟩
  intro waker waits
  rcases fine.keeps waker waits with current | ⟨replaced, notification, listed, previous, other, kept⟩
  · exact .inl current
  · obtain ⟨here, inside, at_⟩ := getElem_of_mem listed
    refine .inr ⟨replaced, ?_⟩
    by_cases same : here = place
    · subst same
      rw [List.getElem?_eq_getElem inside, some.injEq, at_] at prepared
      subst prepared
      refine ⟨wakeNext notification, ?_, previous, other, mem_wakeNext kept⟩
      exact mem_of_getElem? (List.getElem?_set_self inside)
    · refine ⟨notification, ?_, previous, other, kept⟩
      refine mem_of_getElem? (i := here) ?_
      rw [List.getElem?_set_ne (Ne.symm same), List.getElem?_eq_getElem inside, at_]

theorem Sound.step {event : SignalEvent} (free : ¬system.Collides event) {next : SignalSystem}
    (stepped : system.step event = some next) : Sound next := by
  cases event with
  | watch =>
    cases stepped
    exact sound.watch system.signal.generation
  | watchFrom baseline =>
    cases stepped
    exact sound.watch baseline
  | poll change waker =>
    simp only [SignalSystem.step] at stepped
    split at stepped
    · cases stepped
    · rename_i held
      split at stepped
      · cases stepped
      · rename_i polled
        cases stepped
        exact sound.poll free held polled
  | drop change =>
    simp only [SignalSystem.step] at stepped
    split at stepped
    · cases stepped
    · rename_i held
      cases stepped
      exact sound.drop held
  | prepare generation =>
    simp only [SignalSystem.step] at stepped
    split at stepped
    · rename_i later
      cases stepped
      exact sound.prepare later
    · cases stepped
  | wake place =>
    simp only [SignalSystem.step] at stepped
    split at stepped
    · cases stepped
    · rename_i prepared
      cases stepped
      exact sound.wake prepared

theorem Sound.run {events : List SignalEvent} (free : system.Collisionless events)
    {last : SignalSystem} (ran : system.run events = some last) : Sound last := by
  induction events generalizing system with
  | nil =>
    cases ran
    exact sound
  | cons event rest ih =>
    obtain ⟨next, stepped, ran⟩ := bind_eq_some_iff.mp ran
    exact ih (sound.step free.1 stepped) (free.2 next stepped) ran

end

end SignalSystem

namespace GenerationSignal

end GenerationSignal

namespace SignalSystem

theorem run_append (system : SignalSystem) (events rest : List SignalEvent) :
    system.run (events ++ rest) = (system.run events).bind fun middle => middle.run rest := by
  induction events generalizing system with
  | nil => rfl
  | cons event events ih =>
    simp only [cons_append, run, bind_assoc]
    exact bind_congr fun middle _ => ih middle

def cycle (change : Nat) : List SignalEvent := [.watch, .poll change 2, .drop change]

def detached : GenerationChange := ⟨0, some 0, none, some 1⟩

theorem wrapped : wrappingSucc^[u64Limit - 1] 1 = 0 := by
  rw [GenerationSignal.iterate_wrappingSucc (by decide), show 1 + (u64Limit - 1) = u64Limit by decide, Nat.mod_self]

def early : SignalSystem := ⟨⟨1, 0, ∅⟩, [some ⟨1, none, some 0, none⟩], [⟨0, 1, [], 0⟩]⟩

end SignalSystem

end Ferrum.Core
