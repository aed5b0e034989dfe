import Ferrum.Core.SelectorCompiled

namespace Ferrum.Core

/-- Where a call of `switch` stands inside the update lock. -/
inductive ChangePoint
  | load (selector member : Nat)
  | exchange (selector member : Nat) (generation : BitVec 64)
  | recheck (selector member : Nat) (baseline : BitVec 64)
  | store (selector member : Nat) (baseline : BitVec 64)
  | publish (baseline : BitVec 64) (changed : Bool)
  | notify
  | unlock (notification : Bool)
  deriving DecidableEq, Repr

/-- Where a call of `switch` stands. One that is inside, awake or returned knows whether it has changed a selection. -/
inductive SwitchPoint
  | compare (selector member : Nat)
  | lock (selector member : Nat)
  | inside (changed : Bool)
  | wake
  | returned (result : Except SelectorError Unit) (changed : Bool)
  deriving DecidableEq, Repr

inductive Resolution
  | idle
  | reading (root action : OutboundAction) (turns : Nat)
  | returned (root : OutboundAction) (plan : Nat)
  | panicked
  deriving DecidableEq, Repr

/-- The handles' actions, the shared selector state, the calls of `switch`, of which `update` holds the lock, and one
resolution. The last three fields watch it: selections current since, selectors read, one changed since. -/
structure SelectorSystem where
  roots : List OutboundAction
  selectors : List Selector
  generation : BitVec 64
  update : Option (Nat × ChangePoint)
  calls : List SwitchPoint
  resolution : Resolution
  window : List (List Selector)
  passed : List Nat
  moved : Bool
  deriving DecidableEq, Repr

inductive SelectorEvent
  | switch (selectorTag memberTag : Tag)
  | turn (call : Nat)
  | begin (handle : Nat)
  | read
  deriving DecidableEq, Repr

namespace SelectorSystem

def new (compiled : CompiledEgress) : SelectorSystem :=
  ⟨compiled.roots, compiled.selectors, 0, none, [], .idle, [], [], false⟩

section

variable (system : SelectorSystem)

def goto (call : Nat) (point : SwitchPoint) : SelectorSystem :=
  { system with calls := system.calls.set call point }

def Reading : Prop := ∃ root action turns, system.resolution = .reading root action turns

/-- The store of a new choice, seen by the resolution if one is under way. -/
def storeChoice (selector member : Nat) : SelectorSystem :=
  match system.resolution with
  | .reading _ _ _ =>
    { system with
      selectors := store system.selectors selector member
      window := store system.selectors selector member :: system.window
      moved := system.moved || system.passed.contains selector }
  | _ => { system with selectors := store system.selectors selector member }

/-- A call looks its tags up, which reads nothing that changes. -/
def beginSwitch (selectorTag memberTag : Tag) : SelectorSystem :=
  match findMember system.selectors selectorTag memberTag with
  | .error error => { system with calls := system.calls ++ [.returned (.error error) false] }
  | .ok (selector, member) => { system with calls := system.calls ++ [.compare selector member] }

def currentChoice (selector : Nat) : Option Nat :=
  system.selectors[selector]?.map Selector.selected

end

/-- The next atomic step inside the lock. `begin_change` waits while the generation is odd. -/
def changeTurn (system : SelectorSystem) (call : Nat) : ChangePoint → SelectorSystem
  | .load selector member =>
    if system.generation.toNat % 2 = 0 then { system with update := some (call, .exchange selector member system.generation) }
    else system
  | .exchange selector member generation =>
    if system.generation = generation then
      { system with generation := generation + 1, update := some (call, .recheck selector member generation) }
    else { system with update := some (call, .load selector member) }
  | .recheck selector member baseline =>
    if system.currentChoice selector = some member then { system with update := some (call, .publish baseline false) }
    else { system with update := some (call, .store selector member baseline) }
  | .store selector member baseline =>
    { (system.storeChoice selector member).goto call (.inside true) with update := some (call, .publish baseline true) }
  | .publish baseline changed =>
    { system with
      generation := baseline + (if changed then 2 else 0)
      update := some (call, if changed then .notify else .unlock false) }
  | .notify => { system with update := some (call, .unlock true) }
  | .unlock notification =>
    { system.goto call (if notification then .wake else .returned (.ok ()) false) with update := none }

/-- The next atomic step of a call; none while it waits for the lock or has returned. -/
def turn (system : SelectorSystem) (call : Nat) : Option SelectorSystem :=
  match system.calls[call]? with
  | some (.compare selector member) =>
    if system.currentChoice selector = some member then some (system.goto call (.returned (.ok ()) false))
    else some (system.goto call (.lock selector member))
  | some (.lock selector member) =>
    if system.update = none then
      some { system.goto call (.inside false) with update := some (call, .load selector member) }
    else none
  | some (.inside _) =>
    match system.update with
    | some (holder, point) => if holder = call then some (system.changeTurn call point) else none
    | none => none
  | some .wake => some (system.goto call (.returned (.ok ()) true))
  | _ => none

def beginResolution (system : SelectorSystem) (root : OutboundAction) : SelectorSystem :=
  { system with
    resolution := .reading root root (system.selectors.length + 1)
    window := [system.selectors]
    passed := []
    moved := false }

/-- One turn of the loop of `resolve`. -/
def readTurn (system : SelectorSystem) : Option SelectorSystem :=
  match system.resolution with
  | .reading root action turns =>
    match turns, action with
    | 0, _ => some { system with resolution := .panicked }
    | _ + 1, .plan plan => some { system with resolution := .returned root plan }
    | turns + 1, .selector selector =>
      match chosenAction system.selectors selector with
      | none => some { system with resolution := .panicked }
      | some action => some { system with resolution := .reading root action turns, passed := selector :: system.passed }
  | _ => none

def step (system : SelectorSystem) : SelectorEvent → Option SelectorSystem
  | .switch selectorTag memberTag => some (system.beginSwitch selectorTag memberTag)
  | .turn call => system.turn call
  | .begin handle =>
    match system.resolution with
    | .reading _ _ _ => none
    | _ => system.roots[handle]?.map system.beginResolution
  | .read => system.readTurn

def run (system : SelectorSystem) : List SelectorEvent → Option SelectorSystem
  | [] => some system
  | event :: rest => (system.step event).bind fun system => system.run rest

/-- The plan that a resolution has returned is the one of a selection that was current while it ran. -/
def Linearizable (system : SelectorSystem) : Prop :=
  ∀ root plan, system.resolution = .returned root plan → ∃ selectors ∈ system.window, resolve selectors root = some plan

/-- Some call has taken the generation to an odd value and has not published yet. -/
def Changing (system : SelectorSystem) : Prop :=
  ∃ call point, system.update = some (call, point) ∧
    ((∃ selector member baseline, point = .recheck selector member baseline ∨ point = .store selector member baseline) ∨
      ∃ baseline changed, point = .publish baseline changed)

def changed : SwitchPoint → Bool
  | .inside changed => changed
  | .wake => true
  | .returned _ changed => changed
  | _ => false

def changes (system : SelectorSystem) : Nat := system.calls.countP changed

/-- Once the resolution has passed a selector that has changed since, no choice changes any more until it returns. -/
def orderly (system : SelectorSystem) : SelectorEvent → Bool
  | .turn call =>
    match system.update, system.resolution with
    | some (holder, .store _ _ _), .reading _ _ _ => holder != call || !system.moved
    | _, _ => true
  | _ => true

def orderlyRun (system : SelectorSystem) : List SelectorEvent → Bool
  | [] => true
  | event :: rest =>
    system.orderly event &&
      match system.step event with
      | some next => next.orderlyRun rest
      | none => true

end SelectorSystem

def SwitchPoint.Fits (selectors : List Selector) : SwitchPoint → Prop
  | .compare selector member => Core.Fits selectors selector member
  | .lock selector member => Core.Fits selectors selector member
  | .returned (.error _) changed => changed = false
  | _ => True

def ChangePoint.Fits (selectors : List Selector) : ChangePoint → Prop
  | .load selector member => Core.Fits selectors selector member
  | .exchange selector member _ => Core.Fits selectors selector member
  | .recheck selector member _ => Core.Fits selectors selector member
  | .store selector member _ =>
    Core.Fits selectors selector member ∧ selectors[selector]?.map Selector.selected ≠ some member
  | _ => True

def ChangePoint.changed : ChangePoint → Bool
  | .publish _ changed => changed
  | .notify => true
  | .unlock notification => notification
  | _ => false

namespace SelectorSystem

def total (system : SelectorSystem) : BitVec 64 := BitVec.ofNat 64 (2 * system.changes)

def GenerationLaw (system : SelectorSystem) : Prop :=
  match system.update with
  | some (_, .exchange _ _ generation) => system.generation = system.total ∧ generation = system.total
  | some (_, .recheck _ _ baseline) => system.generation = baseline + 1 ∧ baseline = system.total
  | some (_, .store _ _ baseline) => system.generation = baseline + 1 ∧ baseline = system.total
  | some (_, .publish baseline changed) =>
    system.generation = baseline + 1 ∧ baseline + (if changed then 2 else 0) = system.total
  | _ => system.generation = system.total

/-- What the read selectors have to do with the next one. -/
structure Underway (plans : Nat) (system : SelectorSystem) (action : OutboundAction) (turns : Nat) : Prop where
  inside : action.Inside system.selectors.length plans
  distinct : system.passed.Nodup
  below : ∀ place ∈ system.passed, place < system.selectors.length
  leads : ∀ place ∈ system.passed, ∀ selector, action = .selector selector →
    Relation.TransGen (Refers system.selectors) place selector
  count : turns + system.passed.length = system.selectors.length + 1

structure Sound (plans : Nat) (system : SelectorSystem) : Prop where
  graph : SelectorGraph system.selectors plans
  roots : ∀ root ∈ system.roots, root.Inside system.selectors.length plans
  fits : ∀ point ∈ system.calls, point.Fits system.selectors
  holder : ∀ call point, system.update = some (call, point) →
    system.calls[call]? = some (.inside point.changed) ∧ point.Fits system.selectors
  law : system.GenerationLaw
  underway : ∀ root action turns, system.resolution = .reading root action turns → Underway plans system action turns
  quiet : system.resolution ≠ .panicked
  window : ∀ selectors ∈ system.window, selectors.length = system.selectors.length

variable {plans : Nat} {system : SelectorSystem}

theorem total_even (system : SelectorSystem) : system.total.toNat % 2 = 0 := by
  unfold total
  rw [BitVec.toNat_ofNat]
  omega

theorem changes_set {call : Nat} {old new : SwitchPoint} (here : system.calls[call]? = some old) :
    (system.goto call new).changes + (if changed old then 1 else 0) = system.changes + (if changed new then 1 else 0) := by
  obtain ⟨inside, at_⟩ := List.getElem?_eq_some_iff.mp here
  have counted := @List.countP_set _ changed system.calls call new inside
  have atLeast : (if changed old then 1 else 0) ≤ system.calls.countP changed := by
    split
    · rename_i is
      exact List.countP_pos_iff.mpr ⟨old, List.mem_of_getElem? here, is⟩
    · exact Nat.zero_le _
  simp only [changes, goto] at counted ⊢
  rw [counted, at_]
  omega

theorem changes_goto {call : Nat} {old new : SwitchPoint} (here : system.calls[call]? = some old)
    (same : changed new = changed old) : (system.goto call new).changes = system.changes := by
  have moved := @changes_set system call old new here
  rw [same] at moved
  omega

theorem mem_set {calls : List SwitchPoint} {call : Nat} {new point : SwitchPoint} (listed : point ∈ calls.set call new) :
    point = new ∨ point ∈ calls := by
  rcases List.mem_or_eq_of_mem_set listed with old | rfl
  · exact .inr old
  · exact .inl rfl

theorem new_sound {compiled : CompiledEgress} (valid : compiled.Valid) : Sound compiled.plans.length (new compiled) where
  graph := valid.graph
  roots := valid.roots
  fits := by simp [new]
  holder := by simp [new]
  law := rfl
  underway := by simp [new]
  quiet := by simp [new]
  window := by simp [new]

theorem Sound.goto (sound : Sound plans system) {call : Nat} {old new : SwitchPoint} (here : system.calls[call]? = some old)
    (outside : ∀ changed, old ≠ .inside changed) (same : changed new = changed old) (fits : new.Fits system.selectors) :
    Sound plans (system.goto call new) where
  graph := sound.graph
  roots := sound.roots
  fits := by
    intro point listed
    rcases mem_set listed with rfl | older
    · exact fits
    · exact sound.fits point older
  holder := by
    intro other point held
    obtain ⟨at_, fitting⟩ := sound.holder other point held
    refine ⟨?_, fitting⟩
    have different : call ≠ other := by
      rintro rfl
      rw [here] at at_
      exact outside _ (Option.some.inj at_)
    change (system.calls.set call new)[other]? = _
    rw [List.getElem?_set_ne different, at_]
  law := by
    have kept := changes_goto here same
    have law := sound.law
    unfold GenerationLaw total at law ⊢
    rw [kept]
    exact law
  underway := fun root action turns reading =>
    let before := sound.underway root action turns reading
    ⟨before.inside, before.distinct, before.below, before.leads, before.count⟩
  quiet := sound.quiet
  window := sound.window

theorem Sound.beginSwitch (sound : Sound plans system) (selectorTag memberTag : Tag) :
    Sound plans (system.beginSwitch selectorTag memberTag) := by
  have append : ∀ point : SwitchPoint, point.Fits system.selectors → changed point = false →
      Sound plans { system with calls := system.calls ++ [point] } := by
    intro point fits unchanged
    have kept : ({ system with calls := system.calls ++ [point] } : SelectorSystem).changes = system.changes := by
      simp [changes, List.countP_append, unchanged]
    refine ⟨sound.graph, sound.roots, ?_, ?_, ?_, ?_, sound.quiet, sound.window⟩
    · intro other listed
      rcases List.mem_append.mp listed with older | newer
      · exact sound.fits other older
      · rw [List.mem_singleton.mp newer]
        exact fits
    · intro call point' held
      obtain ⟨at_, fitting⟩ := sound.holder call point' held
      exact ⟨by rw [List.getElem?_append_left (List.getElem?_eq_some_iff.mp at_).1, at_], fitting⟩
    · have law := sound.law
      unfold GenerationLaw total at law ⊢
      rw [kept]
      exact law
    · intro root action turns reading
      have before := sound.underway root action turns reading
      exact ⟨before.inside, before.distinct, before.below, before.leads, before.count⟩
  unfold SelectorSystem.beginSwitch
  split
  · exact append _ rfl rfl
  · rename_i selector member hit
    exact append _ (findMember_fits hit) rfl

end SelectorSystem

end Ferrum.Core
