import Ferrum.Core.SelectorSwitchRun

namespace Ferrum.Core

open Option List

/-- The selectors that a resolution has read under one selection, the last one first. -/
inductive Walk (selectors : List Selector) (root : OutboundAction) : List Nat → OutboundAction → Prop
  | start : Walk selectors root [] root
  | next {passed : List Nat} {selector : Nat} {action : OutboundAction} (before : Walk selectors root passed (.selector selector))
      (chosen : chosenAction selectors selector = some action) : Walk selectors root (selector :: passed) action

variable {selectors : List Selector} {action : OutboundAction} {passed : List Nat}

theorem Walk.congr {other : List Selector} {root : OutboundAction} (walk : Walk selectors root passed action)
    (same : ∀ place ∈ passed, chosenAction other place = chosenAction selectors place) : Walk other root passed action := by
  induction walk with
  | start => exact .start
  | next before chosen ih =>
    refine .next (ih fun place met => same place (mem_cons_of_mem _ met)) ?_
    rw [same _ mem_cons_self, chosen]

theorem Walk.resolveLoop {root : OutboundAction} (walk : Walk selectors root passed action) (turns : Nat) :
    Core.resolveLoop selectors (turns + passed.length) root = Core.resolveLoop selectors turns action := by
  induction walk generalizing turns with
  | start => rfl
  | @next passed selector action before chosen ih =>
    have more := ih (turns + 1)
    rw [Core.resolveLoop, chosen] at more
    rw [length_cons, show turns + (passed.length + 1) = turns + 1 + passed.length by omega]
    exact more

namespace SelectorSystem

variable {plans : Nat} {system : SelectorSystem}

/-- Some selection of the window explains what was read and agrees with the current one on the rest; it is the current one until
a passed selector changes. -/
def Explained (system : SelectorSystem) (root action : OutboundAction) : Prop :=
  ∃ selectors ∈ system.window, Walk selectors root system.passed action ∧
    (∀ place, place ∉ system.passed → chosenAction selectors place = chosenAction system.selectors place) ∧
    (system.moved = false → selectors = system.selectors)

def Tracked (system : SelectorSystem) : Prop :=
  (∀ root action turns, system.resolution = .reading root action turns → system.Explained root action) ∧ system.Linearizable

variable {next : SelectorSystem}

section

variable (tracked : system.Tracked)
include tracked

theorem Tracked.congr (selectors : next.selectors = system.selectors)
    (resolution : next.resolution = system.resolution) (window : next.window = system.window)
    (passed : next.passed = system.passed) (moved : next.moved = system.moved) : next.Tracked := by
  unfold Tracked Explained Linearizable at *
  rw [selectors, resolution, window, passed, moved]
  exact tracked

theorem Tracked.storeChoice {selector member : Nat}
    (orderly : system.Reading → system.moved = false) : (system.storeChoice selector member).Tracked := by
  unfold SelectorSystem.storeChoice
  split
  · rename_i root action turns reading
    refine ⟨?_, ?_⟩
    · intro root' action' turns' same
      obtain ⟨past, listed, walk, rest, current⟩ := tracked.1 root' action' turns' same
      have still := orderly ⟨root, action, turns, reading⟩
      obtain rfl := current still
      by_cases met : selector ∈ system.passed
      · refine ⟨system.selectors, mem_cons_of_mem _ listed, walk, ?_, by simp [met]⟩
        intro place fresh
        rw [chosenAction_store]
        rintro rfl
        exact fresh met
      · refine ⟨_, mem_cons_self, walk.congr ?_, fun _ _ => rfl, fun _ => rfl⟩
        intro place read
        rw [chosenAction_store]
        rintro rfl
        exact met read
    · intro root' plan returned
      rw [reading] at returned
      cases returned
  · rename_i notReading
    refine ⟨?_, tracked.2⟩
    intro root action turns reading
    exact absurd reading (notReading root action turns)

theorem Tracked.changeTurn {call : Nat} {point : ChangePoint}
    (held : system.update = some (call, point)) (orderly : system.orderly (.turn call) = true) :
    (system.changeTurn call point).Tracked := by
  cases point with
  | load selector member =>
    rw [SelectorSystem.changeTurn]
    split
    · exact tracked.congr rfl rfl rfl rfl rfl
    · exact tracked
  | exchange selector member generation | recheck selector member baseline =>
    rw [SelectorSystem.changeTurn]
    split <;> exact tracked.congr rfl rfl rfl rfl rfl
  | store selector member baseline =>
    have still : system.Reading → system.moved = false := by
      rintro ⟨root, action, turns, reading⟩
      simpa [SelectorSystem.orderly, held, reading] using orderly
    have stored := @Tracked.storeChoice system tracked selector member still
    exact stored.congr rfl rfl rfl rfl rfl
  | publish baseline changed | notify | unlock notification => exact tracked.congr rfl rfl rfl rfl rfl

theorem Tracked.turn {call : Nat} (orderly : system.orderly (.turn call) = true)
    (moved : system.turn call = some next) : next.Tracked := by
  unfold SelectorSystem.turn at moved
  split at moved
  · split at moved
    · cases moved
      exact tracked.congr rfl rfl rfl rfl rfl
    · cases moved
      exact tracked.congr rfl rfl rfl rfl rfl
  · split at moved
    · cases moved
      exact tracked.congr rfl rfl rfl rfl rfl
    · cases moved
  · split at moved
    · rename_i holder point held
      split at moved
      · rename_i same
        cases moved
        subst same
        exact tracked.changeTurn held orderly
      · cases moved
    · cases moved
  · cases moved
    exact tracked.congr rfl rfl rfl rfl rfl
  · cases moved

theorem Tracked.readTurn (sound : Sound plans system) (moved : system.readTurn = some next) : next.Tracked := by
  rcases sound.readTurn_cases moved with
    ⟨root, plan, turns, reading, rfl⟩ | ⟨root, selector, turns, action, reading, chosen, fresh, rfl, -⟩
  · refine ⟨by simp, ?_⟩
    intro root' plan' returned
    cases returned
    obtain ⟨past, listed, walk, -, -⟩ := tracked.1 _ _ _ reading
    refine ⟨past, listed, ?_⟩
    have count := (sound.underway _ _ _ reading).count
    rw [resolve, sound.window past listed, ← count, walk.resolveLoop]
    rfl
  · refine ⟨?_, by simp [Linearizable]⟩
    intro root' action' turns' same
    cases same
    obtain ⟨past, listed, walk, rest, current⟩ := tracked.1 _ _ _ reading
    refine ⟨past, listed, .next walk (by rw [rest selector fresh, chosen]), ?_, current⟩
    intro place unread
    exact rest place fun met => unread (mem_cons_of_mem _ met)

theorem Tracked.step (sound : Sound plans system) {event : SelectorEvent}
    (orderly : system.orderly event = true) (moved : system.step event = some next) : next.Tracked := by
  cases event with
  | switch selectorTag memberTag =>
    cases moved
    unfold beginSwitch
    split <;> exact tracked.congr rfl rfl rfl rfl rfl
  | turn call => exact tracked.turn orderly moved
  | begin handle =>
    rw [SelectorSystem.step] at moved
    split at moved
    · cases moved
    · obtain ⟨root, -, rfl⟩ := map_eq_some_iff.mp moved
      refine ⟨?_, by simp [Linearizable, beginResolution]⟩
      intro root' action turns reading
      cases reading
      exact ⟨system.selectors, mem_singleton.mpr rfl, .start, fun _ _ => rfl, fun _ => rfl⟩
  | read => exact tracked.readTurn sound moved

theorem Tracked.run {events : List SelectorEvent} {last : SelectorSystem} (sound : Sound plans system)
    (orderly : system.orderlyRun events = true) (ran : system.run events = some last) : last.Tracked := by
  induction events generalizing system with
  | nil =>
    cases ran
    exact tracked
  | cons event rest ih =>
    obtain ⟨next, moved, later⟩ := bind_eq_some_iff.mp ran
    rw [orderlyRun, moved, Bool.and_eq_true] at orderly
    exact ih (tracked.step sound orderly.1 moved) (sound.step moved) orderly.2 later

end

theorem new_tracked (compiled : CompiledEgress) : (new compiled).Tracked := ⟨by simp [new], by simp [new, Linearizable]⟩

theorem Sound.generation_eq (sound : Sound plans system) (settled : ¬system.Changing) : system.generation = system.total := by
  have law := sound.law
  unfold GenerationLaw at law
  split at law
  · exact law.1
  · rename_i call selector member baseline held
    exact absurd ⟨call, _, held, .inl ⟨selector, member, baseline, .inl rfl⟩⟩ settled
  · rename_i call selector member baseline held
    exact absurd ⟨call, _, held, .inl ⟨selector, member, baseline, .inr rfl⟩⟩ settled
  · rename_i call baseline changed held
    exact absurd ⟨call, _, held, .inr ⟨baseline, changed, rfl⟩⟩ settled
  · exact law

/-- Over any compiled graph a resolution always returns, the generation is twice the number of changes, and where no two
changes tear a resolution its plan is the one of a selection that was current while it ran. -/
theorem selector_snapshots_linearizable {inbounds : List TaggedInbound} {outbounds : List TaggedOutbound}
    {plans : List TaggedPlan} {definitions : List SelectorDefinition} {roots : List Tag} {compiled : CompiledEgress}
    (accepted : compileEgressPlansWithRoots inbounds outbounds plans definitions roots = .ok compiled)
    {events : List SelectorEvent} {system : SelectorSystem} (ran : (new compiled).run events = some system) :
    system.resolution ≠ .panicked ∧
      (¬system.Changing → system.generation = BitVec.ofNat 64 (2 * system.changes) ∧ system.generation.toNat % 2 = 0) ∧
      (∀ error changed, .returned (.error error) changed ∈ system.calls → changed = false) ∧
      (∀ call selector member baseline, system.update = some (call, .store selector member baseline) →
        system.currentChoice selector ≠ some member) ∧
      ((new compiled).orderlyRun events = true → system.Linearizable) := by
  have start := new_sound (compile_valid accepted)
  have sound := start.run ran
  refine ⟨sound.quiet, fun settled => ?_, ?_, ?_, fun orderly => ((new_tracked compiled).run start orderly ran).2⟩
  · have even := sound.generation_eq settled
    exact ⟨even, by rw [even]; exact total_even system⟩
  · intro error changed listed
    exact sound.fits _ listed
  · intro call selector member baseline held
    exact (sound.holder call _ held).2.2

/-! ### A torn resolution -/

/-- `inner` has two outbounds, `outer` has `inner` and a third one. -/
def nestedGraph : CompiledEgress where
  selectors :=
    [⟨[105], [⟨[97], .plan 0⟩, ⟨[98], .plan 1⟩], 0⟩, ⟨[111], [⟨[105], .selector 0⟩, ⟨[99], .plan 2⟩], 0⟩]
  plans := [[0], [1], [2]]
  roots := [.selector 1]

def nestedDefinitions : List SelectorDefinition :=
  [⟨[105], [[97], [98]], some [97]⟩, ⟨[111], [[105], [99]], some [105]⟩]

theorem nestedGraph_accepted :
    compileEgressPlansWithRoots [⟨[101], 0⟩] [⟨[97], 0⟩, ⟨[98], 1⟩, ⟨[99], 2⟩] [] nestedDefinitions [[111]] = .ok nestedGraph := by
  decide

/-- A switch of `outer` away from `inner` and then one of `inner`, both between the two reads of one resolution. -/
def tornEvents : List SelectorEvent :=
  [.begin 0, .read, .switch [111] [99]] ++ List.replicate 10 (.turn 0) ++ [.switch [105] [98]] ++
    List.replicate 10 (.turn 1) ++ [.read, .read]

def quietEvents : List SelectorEvent := [.begin 0, .read, .switch [111] [99]] ++ List.replicate 10 (.turn 0) ++ [.read, .read]

theorem quietEvents_linearizable :
    ∃ system, (new nestedGraph).run quietEvents = some system ∧ system.resolution = .returned (.selector 1) 0 ∧
      system.Linearizable ∧ system.generation = BitVec.ofNat 64 (2 * system.changes) := by
  have properties := @selector_snapshots_linearizable _ _ _ _ _ _ nestedGraph_accepted quietEvents _ rfl
  refine ⟨_, rfl, by decide, properties.2.2.2.2 (by decide), (properties.2.1 ?_).1⟩
  rintro ⟨call, point, held, -⟩
  cases held

/-- The torn resolution returns the plan of the choice that `inner` got after `outer` had left it. -/
theorem tornEvents_not_linearizable : ∃ system, (new nestedGraph).run tornEvents = some system ∧ ¬system.Linearizable := by
  refine ⟨_, rfl, fun linearizable => ?_⟩
  obtain ⟨selectors, listed, plan⟩ := linearizable (.selector 1) 1 (by decide)
  revert selectors
  decide

end SelectorSystem

/-- The plans that some choices can lead an action to. -/
inductive Reaches (selectors : List Selector) : OutboundAction → Nat → Prop
  | plan (index : Nat) : Reaches selectors (.plan index) index
  | selector {place plan : Nat} {found : Selector} {member : SelectorMember} (here : selectors[place]? = some found)
      (listed : member ∈ found.members) (reaches : Reaches selectors member.action plan) :
      Reaches selectors (.selector place) plan

def switchAll : List Selector → List (Tag × Tag) → Except SelectorError (List Selector)
  | selectors, [] => .ok selectors
  | selectors, (selectorTag, memberTag) :: rest => do
    let selectors ← switch selectors selectorTag memberTag
    switchAll selectors rest

def SameMembers (selectors after : List Selector) : Prop :=
  ∀ place : Nat, after[place]?.map (fun found => (found.tag, found.members)) =
    selectors[place]?.map fun found => (found.tag, found.members)

theorem SameMembers.refl (selectors : List Selector) : SameMembers selectors selectors := fun _ => rfl

theorem SameMembers.trans {first second third : List Selector} (left : SameMembers first second)
    (right : SameMembers second third) : SameMembers first third := fun place => (right place).trans (left place)

theorem SameMembers.symm {first second : List Selector} (same : SameMembers first second) : SameMembers second first :=
  fun place => (same place).symm

theorem sameMembers_store (selectors : List Selector) (selector member : Nat) :
    SameMembers selectors (store selectors selector member) := by
  intro place
  rw [getElem?_store]
  split
  · rw [Option.map_map]
    rfl
  · rfl

variable {after : List Selector}

theorem SameMembers.at (same : SameMembers selectors after) {place : Nat} {found : Selector}
    (here : selectors[place]? = some found) :
    ∃ found', after[place]? = some found' ∧ found'.tag = found.tag ∧ found'.members = found.members := by
  have equal := same place
  rw [here] at equal
  obtain ⟨found', here', pair⟩ := map_eq_some_iff.mp equal
  exact ⟨found', here', congrArg Prod.fst pair, congrArg Prod.snd pair⟩

theorem SameMembers.length (same : SameMembers selectors after) : after.length = selectors.length := by
  have lists : (after.map fun found => (found.tag, found.members)) = selectors.map fun found => (found.tag, found.members) := by
    apply ext_getElem?
    intro place
    rw [List.getElem?_map, List.getElem?_map]
    exact same place
  simpa using congrArg List.length lists

variable {plan : Nat}

theorem Reaches.congr (same : SameMembers selectors after) (reaches : Reaches selectors action plan) :
    Reaches after action plan := by
  induction reaches with
  | plan index => exact .plan index
  | selector here listed _ ih =>
    obtain ⟨found', here', -, members⟩ := same.at here
    exact .selector here' (members ▸ listed) ih

variable {plans : Nat}

theorem switchAll_spec (graph : SelectorGraph selectors plans) {switches : List (Tag × Tag)}
    (ran : switchAll selectors switches = .ok after) : SelectorGraph after plans ∧ SameMembers selectors after := by
  induction switches generalizing selectors with
  | nil =>
    cases ran
    exact ⟨graph, .refl _⟩
  | cons pair rest ih =>
    obtain ⟨selectorTag, memberTag⟩ := pair
    obtain ⟨between, first, later⟩ := bind_eq_ok.mp ran
    obtain ⟨kept, same⟩ := ih (graph.switch first) later
    obtain ⟨selector, member, -, rfl⟩ := switch_eq_ok.mp first
    exact ⟨kept, (sameMembers_store selectors selector member).trans same⟩

theorem switchAll_snoc {between : List Selector} {switches : List (Tag × Tag)} {pair : Tag × Tag}
    (ran : switchAll selectors switches = .ok between) :
    switchAll selectors (switches ++ [pair]) = switch between pair.1 pair.2 := by
  induction switches generalizing selectors with
  | nil =>
    cases ran
    simp only [nil_append, switchAll]
    cases switch between pair.1 pair.2 <;> rfl
  | cons first rest ih =>
    obtain ⟨next, stepped, later⟩ := bind_eq_ok.mp ran
    rw [cons_append, switchAll, stepped]
    exact ih later

theorem reaches_of_resolveLoop {turns : Nat} (resolved : resolveLoop selectors turns action = some plan) :
    Reaches selectors action plan := by
  induction turns generalizing action with
  | zero => cases resolved
  | succ turns ih =>
    cases action with
    | plan index =>
      cases resolved
      exact .plan _
    | selector place =>
      rw [resolveLoop] at resolved
      split at resolved
      · cases resolved
      · rename_i next chosen
        obtain ⟨found, here, action⟩ := chosenAction_eq_some.mp chosen
        obtain ⟨member, entry, rfl⟩ := map_eq_some_iff.mp action
        exact .selector here (mem_of_getElem? entry) (ih resolved)

theorem resolveLoop_unique {turns turns' : Nat} {plan' : Nat} (resolved : resolveLoop selectors turns action = some plan)
    (resolved' : resolveLoop selectors turns' action = some plan') : plan = plan' := by
  induction turns generalizing turns' action with
  | zero => cases resolved
  | succ turns ih =>
    cases turns' with
    | zero => cases resolved'
    | succ turns' =>
      cases action with
      | plan index =>
        cases resolved
        cases resolved'
        rfl
      | selector place =>
        rw [resolveLoop] at resolved resolved'
        split at resolved
        · cases resolved
        · rename_i next chosen
          rw [chosen] at resolved'
          exact ih resolved resolved'

theorem Walk.head {place : Nat} {first last : OutboundAction} (chosen : chosenAction selectors place = some first)
    (walk : Walk selectors first passed last) : Walk selectors (.selector place) (passed ++ [place]) last := by
  induction walk with
  | start => exact .next .start chosen
  | next _ chosen ih => exact .next ih chosen

def Below (selectors : List Selector) (action : OutboundAction) (place : Nat) : Prop :=
  ∃ top, action = .selector top ∧ Relation.ReflTransGen (Refers selectors) top place

theorem findIdx?_eq_some_of_nodup {α β : Type} [DecidableEq β] {f : α → β} {values : List α}
    (distinct : (values.map f).Nodup) {i : Nat} {a : α} (here : values[i]? = some a) : (values.findIdx? fun b => f b = f a) = some i := by
  obtain ⟨inside, rfl⟩ := List.getElem?_eq_some_iff.mp here
  rw [List.findIdx?_eq_some_iff_getElem]
  refine ⟨inside, by simp, fun j less => ?_⟩
  have apart := pairwise_iff_getElem.mp distinct j i (by simpa using Nat.lt_trans less inside) (by simpa using inside)
    less
  simpa using apart

theorem Reaches.switches (graph : SelectorGraph selectors plans) (reaches : Reaches selectors action plan) :
    ∃ switches after passed, switchAll selectors switches = .ok after ∧ Walk after action passed (.plan plan) ∧
      ∀ place ∈ passed, Below selectors action place := by
  induction reaches with
  | plan index => exact ⟨[], selectors, [], rfl, .start, by simp⟩
  | @selector place plan found member here listed _ ih =>
    obtain ⟨switches, after, passed, ran, walk, below⟩ := ih
    obtain ⟨afterGraph, same⟩ := switchAll_spec graph ran
    obtain ⟨found', here', tag, members⟩ := same.at here
    obtain ⟨i, entry⟩ := mem_iff_getElem?.mp (members ▸ listed : member ∈ found'.members)
    have hit : findMember after found'.tag member.tag = .ok (place, i) :=
      findMember_eq_ok.mpr ⟨findIdx?_eq_some_of_nodup afterGraph.tags here', found', here',
        findIdx?_eq_some_of_nodup (afterGraph.memberTags found' (mem_of_getElem? here')) entry⟩
    have refersHere : ∀ below, member.action = .selector below → Refers selectors place below := fun below leads =>
      ⟨found, here, member, listed, leads⟩
    have fresh : place ∉ passed := by
      intro met
      obtain ⟨top, leads, path⟩ := below place met
      exact graph.acyclic place (Relation.TransGen.head' (refersHere top leads) path)
    have chosen : chosenAction (store after place i) place = some member.action := by
      rw [chosenAction_eq_some]
      refine ⟨{ found' with selected := i }, ?_, by rw [entry]; rfl⟩
      rw [getElem?_store, if_pos rfl, here']
      rfl
    refine ⟨switches ++ [(found'.tag, member.tag)], store after place i, passed ++ [place], ?_, ?_, ?_⟩
    · rw [switchAll_snoc ran]
      exact switch_eq_ok.mpr ⟨place, i, hit, rfl⟩
    · refine Walk.head chosen (walk.congr fun other met => chosenAction_store ?_)
      rintro rfl
      exact fresh met
    · intro other met
      rcases mem_append.mp met with inner | last
      · obtain ⟨top, leads, path⟩ := below other inner
        exact ⟨place, rfl, path.head (refersHere top leads)⟩
      · rw [mem_singleton.mp last]
        exact ⟨place, rfl, .refl⟩

theorem reaches_iff_switches (graph : SelectorGraph selectors plans) (inside : action.Inside selectors.length plans) :
    Reaches selectors action plan ↔
      ∃ switches after, switchAll selectors switches = .ok after ∧ resolve after action = some plan := by
  constructor
  · intro reaches
    obtain ⟨switches, after, passed, ran, walk, -⟩ := reaches.switches graph
    obtain ⟨afterGraph, same⟩ := switchAll_spec graph ran
    have length := same.length
    obtain ⟨other, resolved, -⟩ := afterGraph.resolve (length.symm ▸ inside)
    have walked := walk.resolveLoop 1
    rw [resolveLoop] at walked
    have equal := resolveLoop_unique walked resolved
    exact ⟨switches, after, ran, equal.symm ▸ resolved⟩
  · rintro ⟨switches, after, ran, resolved⟩
    obtain ⟨-, same⟩ := switchAll_spec graph ran
    exact (reaches_of_resolveLoop resolved).congr same.symm

end Ferrum.Core
