import Ferrum.Core.SelectorSwitch

namespace Ferrum.Core

open Option

theorem fits_store {selectors : List Selector} {selector member other place : Nat} :
    Fits (store selectors selector member) other place ↔ Fits selectors other place := by
  unfold Fits
  rw [getElem?_store]
  split
  · constructor
    · intro fits found here
      exact fits { found with selected := member } (by rw [here]; rfl)
    · intro fits found here
      obtain ⟨old, was, rfl⟩ := map_eq_some_iff.mp here
      exact fits old was
  · exact Iff.rfl

theorem SwitchPoint.fits_store {selectors : List Selector} {selector member : Nat} {point : SwitchPoint}
    (fits : point.Fits selectors) : point.Fits (store selectors selector member) := by
  cases point with
  | compare other place | lock other place => exact Core.fits_store.mpr fits
  | inside changed => trivial
  | wake => trivial
  | returned result changed =>
    cases result with
    | error error => exact fits
    | ok done => trivial

namespace SelectorSystem

variable {plans : Nat} {system : SelectorSystem}

variable {call : Nat}

theorem Sound.change (sound : Sound plans system) {point next : ChangePoint} {generation : BitVec 64}
    (held : system.update = some (call, point)) (same : next.changed = point.changed) (fits : next.Fits system.selectors)
    (law : GenerationLaw { system with generation := generation, update := some (call, next) }) :
    Sound plans { system with generation := generation, update := some (call, next) } where
  graph := sound.graph
  roots := sound.roots
  fits := sound.fits
  holder := by
    intro other point' now
    cases now
    rw [same]
    exact ⟨(sound.holder call point held).1, fits⟩
  law := law
  underway := fun root action turns reading =>
    let before := sound.underway root action turns reading
    ⟨before.inside, before.distinct, before.below, before.leads, before.count⟩
  quiet := sound.quiet
  window := sound.window

theorem storeChoice_selectors (system : SelectorSystem) (selector member : Nat) :
    (system.storeChoice selector member).selectors = store system.selectors selector member := by
  unfold storeChoice
  split <;> rfl

theorem storeChoice_rest (system : SelectorSystem) (selector member : Nat) :
    (system.storeChoice selector member).roots = system.roots ∧
      (system.storeChoice selector member).generation = system.generation ∧
      (system.storeChoice selector member).calls = system.calls ∧
      (system.storeChoice selector member).resolution = system.resolution ∧
      (system.storeChoice selector member).passed = system.passed := by
  unfold storeChoice
  split <;> exact ⟨rfl, rfl, rfl, rfl, rfl⟩

variable {selector member : Nat}

theorem mem_storeChoice_window {selectors : List Selector}
    (listed : selectors ∈ (system.storeChoice selector member).window) :
    selectors = store system.selectors selector member ∨ selectors ∈ system.window := by
  unfold storeChoice at listed
  split at listed
  · exact List.mem_cons.mp listed
  · exact .inr listed

theorem Underway.store {action : OutboundAction} {turns : Nat} (before : Underway plans system action turns)
    {after : SelectorSystem} (selectors : after.selectors = Core.store system.selectors selector member)
    (passed : after.passed = system.passed) : Underway plans after action turns := by
  refine ⟨?_, ?_, ?_, ?_, ?_⟩
  · rw [selectors, length_store]
    exact before.inside
  · rw [passed]
    exact before.distinct
  · rw [selectors, passed, length_store]
    exact before.below
  · rw [selectors, passed]
    intro place met next leads
    exact Relation.TransGen.mono (fun a b refers => refers_store.mpr refers) _ _ (before.leads place met next leads)
  · rw [selectors, passed, length_store]
    exact before.count

theorem Sound.store (sound : Sound plans system) {baseline : BitVec 64}
    (held : system.update = some (call, .store selector member baseline)) :
    Sound plans { (system.storeChoice selector member).goto call (.inside true) with
      update := some (call, .publish baseline true) } := by
  obtain ⟨here, fitting, -⟩ := sound.holder call _ held
  obtain ⟨roots, generation, calls, resolution, passed⟩ := storeChoice_rest system selector member
  have selectors := storeChoice_selectors system selector member
  have counted := @changes_set system call (.inside false) (.inside true) here
  refine ⟨?_, ?_, ?_, ?_, ?_, ?_, ?_, ?_⟩
  · simp only [SelectorSystem.goto, selectors]
    exact sound.graph.store fitting
  · simp only [SelectorSystem.goto, selectors, roots, length_store]
    exact sound.roots
  · simp only [SelectorSystem.goto, selectors, calls]
    intro point listed
    rcases mem_set listed with rfl | older
    · trivial
    · exact SwitchPoint.fits_store (sound.fits point older)
  · intro other point now
    simp only [some.injEq, Prod.mk.injEq] at now
    obtain ⟨sameCall, samePoint⟩ := now
    rw [← samePoint, ← sameCall]
    refine ⟨?_, trivial⟩
    have place : ((system.storeChoice selector member).calls.set call (.inside true))[call]? = some (SwitchPoint.inside true) := by
      rw [calls]
      exact List.getElem?_set_self (List.getElem?_eq_some_iff.mp here).1
    exact place
  · have law := sound.law
    rw [GenerationLaw, held] at law
    obtain ⟨odd, same⟩ := law
    refine ⟨by simp only [SelectorSystem.goto, generation]; exact odd, ?_⟩
    have more : (system.goto call (.inside true)).changes = system.changes + 1 := by
      simpa [changed] using counted
    simp only [total, changes, SelectorSystem.goto, calls] at more ⊢
    rw [more, same, total, changes]
    simp only [if_true]
    rw [Nat.mul_add, BitVec.ofNat_add]
    rfl
  · simp only [SelectorSystem.goto, resolution]
    intro root action turns reading
    exact (sound.underway root action turns reading).store selectors passed
  · simp only [SelectorSystem.goto, resolution]
    exact sound.quiet
  · simp only [SelectorSystem.goto, selectors, length_store]
    intro past listed
    rcases mem_storeChoice_window listed with rfl | older
    · exact length_store _ _ _
    · exact sound.window past older

theorem Sound.unlock (sound : Sound plans system) {notification : Bool}
    (held : system.update = some (call, .unlock notification)) :
    Sound plans { system.goto call (if notification then .wake else .returned (.ok ()) false) with update := none } := by
  obtain ⟨here, -⟩ := sound.holder call _ held
  have kept := @changes_goto system call _ (if notification then .wake else .returned (.ok ()) false) here
    (by cases notification <;> rfl)
  refine ⟨sound.graph, sound.roots, ?_, by simp, ?_, ?_, sound.quiet, sound.window⟩
  · intro point listed
    rcases mem_set listed with rfl | older
    · cases notification <;> trivial
    · exact sound.fits point older
  · have law := sound.law
    rw [GenerationLaw, held] at law
    simp only [GenerationLaw, total, changes, SelectorSystem.goto] at kept law ⊢
    rw [kept]
    exact law
  · intro root action turns reading
    have before := sound.underway root action turns reading
    exact ⟨before.inside, before.distinct, before.below, before.leads, before.count⟩

theorem Sound.changeTurn (sound : Sound plans system) {point : ChangePoint} (held : system.update = some (call, point)) :
    Sound plans (system.changeTurn call point) := by
  obtain ⟨-, fitting⟩ := sound.holder call point held
  have law := sound.law
  rw [GenerationLaw, held] at law
  cases point with
  | load selector member =>
    rw [SelectorSystem.changeTurn]
    split
    · exact sound.change held rfl fitting ⟨law, law⟩
    · exact sound
  | exchange selector member generation =>
    rw [SelectorSystem.changeTurn]
    split
    · exact sound.change held rfl fitting ⟨rfl, law.2⟩
    · exact sound.change held rfl fitting law.1
  | recheck selector member baseline =>
    rw [SelectorSystem.changeTurn]
    split
    · exact sound.change held rfl trivial ⟨law.1, (BitVec.add_zero baseline).trans law.2⟩
    · rename_i different
      exact sound.change held rfl ⟨fitting, different⟩ law
  | store selector member baseline => exact sound.store held
  | publish baseline changed =>
    rw [SelectorSystem.changeTurn]
    cases changed with
    | false | true => exact sound.change held rfl trivial law.2
  | notify => exact sound.change held rfl trivial law
  | unlock notification => exact sound.unlock held

variable {next : SelectorSystem}

section

variable (sound : Sound plans system)
include sound

theorem Sound.turn (moved : system.turn call = some next) : Sound plans next := by
  unfold SelectorSystem.turn at moved
  split at moved
  · rename_i selector member here
    have fitting := sound.fits _ (List.mem_of_getElem? here)
    split at moved
    · cases moved
      exact sound.goto here (by simp) rfl trivial
    · cases moved
      exact sound.goto here (by simp) rfl fitting
  · rename_i selector member here
    have fitting := sound.fits _ (List.mem_of_getElem? here)
    split at moved
    · rename_i free
      cases moved
      have kept := @changes_goto system call _ (.inside false) here rfl
      refine ⟨sound.graph, sound.roots, ?_, ?_, ?_, ?_, sound.quiet, sound.window⟩
      · intro point listed
        rcases mem_set listed with rfl | older
        · trivial
        · exact sound.fits point older
      · intro other point now
        cases now
        exact ⟨List.getElem?_set_self (List.getElem?_eq_some_iff.mp here).1, fitting⟩
      · have law := sound.law
        rw [GenerationLaw, free] at law
        simp only [GenerationLaw, total, changes, SelectorSystem.goto] at kept law ⊢
        rw [kept]
        exact law
      · intro root action turns reading
        have before := sound.underway root action turns reading
        exact ⟨before.inside, before.distinct, before.below, before.leads, before.count⟩
    · cases moved
  · split at moved
    · rename_i holder point held
      split at moved
      · rename_i same
        cases moved
        subst same
        exact sound.changeTurn held
      · cases moved
    · cases moved
  · rename_i here
    cases moved
    exact sound.goto here (by simp) rfl trivial
  · cases moved

theorem Sound.beginResolution {root : OutboundAction} (listed : root ∈ system.roots) :
    Sound plans (system.beginResolution root) := by
  refine ⟨sound.graph, sound.roots, sound.fits, sound.holder, sound.law, ?_, by simp [SelectorSystem.beginResolution], ?_⟩
  · intro root' action turns reading
    cases reading
    exact ⟨sound.roots root listed, List.nodup_nil, by simp [SelectorSystem.beginResolution],
      by simp [SelectorSystem.beginResolution], by simp [SelectorSystem.beginResolution]⟩
  · simp [SelectorSystem.beginResolution]

theorem Sound.readTurn_cases (moved : system.readTurn = some next) :
    (∃ root plan turns, system.resolution = .reading root (.plan plan) (turns + 1) ∧
      next = { system with resolution := .returned root plan }) ∨
    ∃ root selector turns action, system.resolution = .reading root (.selector selector) (turns + 1) ∧
      chosenAction system.selectors selector = some action ∧ selector ∉ system.passed ∧
      next = { system with resolution := .reading root action turns, passed := selector :: system.passed } ∧
      Underway plans next action turns := by
  unfold SelectorSystem.readTurn at moved
  split at moved
  · rename_i root action turns reading
    have before := sound.underway root action turns reading
    split at moved
    · have short := DepthFirst.length_le_of_nodup before.distinct before.below
      have count := before.count
      omega
    · cases moved
      exact .inl ⟨root, _, _, reading, rfl⟩
    · rename_i turns selector
      obtain ⟨action, chosen, inside⟩ := sound.graph.chosenAction before.inside
      rw [chosen] at moved
      cases moved
      have fresh : selector ∉ system.passed := fun met => sound.graph.acyclic selector (before.leads selector met selector rfl)
      refine .inr ⟨root, selector, turns, action, reading, chosen, fresh, rfl, inside,
        List.nodup_cons.mpr ⟨fresh, before.distinct⟩, ?_, ?_, ?_⟩
      · intro place met
        rcases List.mem_cons.mp met with rfl | met
        · exact before.inside
        · exact before.below place met
      · rintro place met other rfl
        rcases List.mem_cons.mp met with rfl | met
        · exact .single (chosenAction_refers chosen)
        · exact (before.leads place met selector rfl).tail (chosenAction_refers chosen)
      · have count := before.count
        simp only [List.length_cons]
        omega
  · cases moved

theorem Sound.readTurn (moved : system.readTurn = some next) : Sound plans next := by
  rcases sound.readTurn_cases moved with ⟨root, plan, turns, -, rfl⟩ | ⟨root, selector, turns, action, -, -, -, rfl, after⟩
  · exact ⟨sound.graph, sound.roots, sound.fits, sound.holder, sound.law, by simp, by simp, sound.window⟩
  · refine ⟨sound.graph, sound.roots, sound.fits, sound.holder, sound.law, ?_, by simp, sound.window⟩
    intro root' action' turns' reading
    cases reading
    exact after

theorem Sound.step {event : SelectorEvent} (moved : system.step event = some next) : Sound plans next := by
  cases event with
  | switch selectorTag memberTag =>
    cases moved
    exact sound.beginSwitch selectorTag memberTag
  | turn call => exact sound.turn moved
  | begin handle =>
    rw [SelectorSystem.step] at moved
    split at moved
    · cases moved
    · obtain ⟨root, here, rfl⟩ := map_eq_some_iff.mp moved
      exact sound.beginResolution (List.mem_of_getElem? here)
  | read => exact sound.readTurn moved

theorem Sound.run {events : List SelectorEvent} {last : SelectorSystem}
    (ran : system.run events = some last) : Sound plans last := by
  induction events generalizing system with
  | nil =>
    cases ran
    exact sound
  | cons event rest ih =>
    obtain ⟨next, moved, later⟩ := bind_eq_some_iff.mp ran
    exact ih (sound.step moved) later

end

end SelectorSystem

end Ferrum.Core
