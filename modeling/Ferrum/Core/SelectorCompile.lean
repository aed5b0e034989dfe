import Ferrum.Lib.Checked
import Ferrum.Lib.DepthFirst

namespace Ferrum.Core

open Option List

abbrev Tag := List UInt8

def maxSelectors : Nat := 64

def maxSelectorMembers : Nat := 64

/-- The last plan or the next selector of a resolution. -/
inductive OutboundAction
  | plan (plan : Nat)
  | selector (selector : Nat)
  deriving DecidableEq, Repr

structure SelectorMember where
  tag : Tag
  action : OutboundAction
  deriving DecidableEq, Repr

structure Selector where
  tag : Tag
  members : List SelectorMember
  selected : Nat
  deriving DecidableEq, Repr

inductive SelectorError
  | unknownSelector
  | unknownMember
  deriving DecidableEq, Repr

section

variable (selectors : List Selector)

/-- What one turn of the resolution reads: the member that the selector has chosen. -/
def chosenAction (selector : Nat) : Option OutboundAction :=
  match selectors[selector]? with
  | none => none
  | some found => found.members[found.selected]?.map SelectorMember.action

/-- The turns of `resolve`; the end of the loop is `unreachable!`. -/
def resolveLoop (selectors : List Selector) : Nat → OutboundAction → Option Nat
  | 0, _ => none
  | _ + 1, .plan plan => some plan
  | turns + 1, .selector selector =>
    match chosenAction selectors selector with
    | none => none
    | some action => resolveLoop selectors turns action

def resolve (action : OutboundAction) : Option Nat :=
  resolveLoop selectors (selectors.length + 1) action

/-- What `switch` looks up before it reads a choice: the selector and the place of the member. -/
def findMember (selectorTag memberTag : Tag) : Except SelectorError (Nat × Nat) := do
  let selector ← orError (selectors.findIdx? fun selector => selector.tag = selectorTag) .unknownSelector
  let found ← orError selectors[selector]? .unknownSelector
  let member ← orError (found.members.findIdx? fun member => member.tag = memberTag) .unknownMember
  .ok (selector, member)

def store (selector member : Nat) : List Selector :=
  selectors.modify selector fun found => { found with selected := member }

/-- `switch` with nobody else around. -/
def switch (selectorTag memberTag : Tag) : Except SelectorError (List Selector) := do
  let (selector, member) ← findMember selectors selectorTag memberTag
  .ok (store selectors selector member)

def Refers (a b : Nat) : Prop :=
  ∃ found, selectors[a]? = some found ∧ ∃ member ∈ found.members, member.action = .selector b

end

def OutboundAction.Inside (selectors plans : Nat) : OutboundAction → Prop
  | .plan index => index < plans
  | .selector index => index < selectors

/-- The graph that compilation leaves: every member inside, a choice everywhere, no cycle, unique tags. -/
structure SelectorGraph (selectors : List Selector) (plans : Nat) : Prop where
  inside : ∀ found ∈ selectors, ∀ member ∈ found.members, member.action.Inside selectors.length plans
  chosen : ∀ found ∈ selectors, found.selected < found.members.length
  acyclic : ∀ selector, ¬Relation.TransGen (Refers selectors) selector selector
  tags : (selectors.map Selector.tag).Nodup
  memberTags : ∀ found ∈ selectors, (found.members.map SelectorMember.tag).Nodup

variable {selectors : List Selector} {plans : Nat}

variable {selector member : Nat} {selectorTag memberTag : Tag}

variable {action : OutboundAction} {after : List Selector}

theorem chosenAction_eq_some : chosenAction selectors selector = some action ↔
      ∃ found, selectors[selector]? = some found ∧ found.members[found.selected]?.map SelectorMember.action = some action := by
  unfold chosenAction
  cases selectors[selector]? with
  | none => simp
  | some found => simp

theorem chosenAction_refers {next : Nat} (chosen : chosenAction selectors selector = some (.selector next)) :
    Refers selectors selector next := by
  obtain ⟨found, here, action⟩ := chosenAction_eq_some.mp chosen
  obtain ⟨member, place, same⟩ := map_eq_some_iff.mp action
  exact ⟨found, here, member, mem_of_getElem? place, same⟩

theorem SelectorGraph.chosenAction (graph : SelectorGraph selectors plans) (inside : selector < selectors.length) :
    ∃ action, Core.chosenAction selectors selector = some action ∧ action.Inside selectors.length plans := by
  have member : selectors[selector] ∈ selectors := getElem_mem inside
  have chosen := graph.chosen _ member
  refine ⟨(selectors[selector].members[selectors[selector].selected]).action, ?_,
    graph.inside _ member _ (getElem_mem chosen)⟩
  rw [chosenAction_eq_some]
  exact ⟨_, List.getElem?_eq_getElem inside, by rw [List.getElem?_eq_getElem chosen]; rfl⟩

theorem SelectorGraph.resolveLoop (graph : SelectorGraph selectors plans) {turns : Nat} {action : OutboundAction}
    {seen : List Nat} (inside : action.Inside selectors.length plans) (distinct : seen.Nodup)
    (below : ∀ place ∈ seen, place < selectors.length)
    (leads : ∀ place ∈ seen, ∀ selector, action = .selector selector → Relation.TransGen (Refers selectors) place selector)
    (enough : selectors.length < turns + seen.length) : ∃ plan, Core.resolveLoop selectors turns action = some plan ∧ plan < plans := by
  induction turns generalizing action seen with
  | zero =>
    have short := DepthFirst.length_le_of_nodup distinct below
    omega
  | succ turns ih =>
    cases action with
    | plan plan => exact ⟨plan, rfl, inside⟩
    | selector selector =>
      obtain ⟨next, chosen, nextInside⟩ := graph.chosenAction inside
      have fresh : selector ∉ seen := fun met => graph.acyclic selector (leads selector met selector rfl)
      have path : ∀ place ∈ selector :: seen, ∀ other, next = .selector other →
          Relation.TransGen (Refers selectors) place other := by
        rintro place met other rfl
        rcases mem_cons.mp met with rfl | met
        · exact .single (chosenAction_refers chosen)
        · exact (leads place met selector rfl).tail (chosenAction_refers chosen)
      have bounded : ∀ place ∈ selector :: seen, place < selectors.length := by
        intro place met
        rcases mem_cons.mp met with rfl | met
        · exact inside
        · exact below place met
      obtain ⟨plan, result, bound⟩ := ih nextInside (nodup_cons.mpr ⟨fresh, distinct⟩) bounded path
        (by rw [length_cons]; omega)
      exact ⟨plan, by rw [Core.resolveLoop, chosen]; exact result, bound⟩

theorem SelectorGraph.resolve (graph : SelectorGraph selectors plans)
    (inside : action.Inside selectors.length plans) : ∃ plan, Core.resolve selectors action = some plan ∧ plan < plans :=
  @SelectorGraph.resolveLoop selectors plans graph (selectors.length + 1) action [] inside nodup_nil (by simp) (by simp)
    (by simp)

/-! ### A store keeps the graph -/

@[simp] theorem length_store (selectors : List Selector) (selector member : Nat) :
    (store selectors selector member).length = selectors.length := length_modify _ _ _

theorem getElem?_store (selectors : List Selector) (selector member place : Nat) :
    (store selectors selector member)[place]? =
      if selector = place then selectors[place]?.map fun found => { found with selected := member } else selectors[place]? := by
  unfold store
  rw [List.getElem?_modify]
  split <;> simp

theorem chosenAction_store {place : Nat} (other : selector ≠ place) :
    chosenAction (store selectors selector member) place = chosenAction selectors place := by
  unfold chosenAction
  rw [getElem?_store, if_neg other]

theorem mem_store {found : Selector} (inside : found ∈ store selectors selector member) :
    ∃ old ∈ selectors, found.tag = old.tag ∧ found.members = old.members := by
  obtain ⟨place, here⟩ := mem_iff_getElem?.mp inside
  rw [getElem?_store] at here
  split at here
  · obtain ⟨old, was, rfl⟩ := map_eq_some_iff.mp here
    exact ⟨old, mem_of_getElem? was, rfl, rfl⟩
  · exact ⟨found, mem_of_getElem? here, rfl, rfl⟩

theorem refers_store {a b : Nat} : Refers (store selectors selector member) a b ↔ Refers selectors a b := by
  unfold Refers
  rw [getElem?_store]
  by_cases same : selector = a
  · simp [same]
  · simp [same]

theorem map_tag_store (selectors : List Selector) (selector member : Nat) :
    (store selectors selector member).map Selector.tag = selectors.map Selector.tag := by
  apply ext_getElem?
  intro place
  rw [List.getElem?_map, List.getElem?_map, getElem?_store]
  split
  · cases selectors[place]? <;> rfl
  · rfl

/-- The place of a stored choice is one of a member. -/
def Fits (selectors : List Selector) (selector member : Nat) : Prop :=
  ∀ found, selectors[selector]? = some found → member < found.members.length

theorem SelectorGraph.store (graph : SelectorGraph selectors plans)
    (fits : Fits selectors selector member) : SelectorGraph (store selectors selector member) plans where
  inside := by
    intro found inside entry listed
    obtain ⟨old, was, -, same⟩ := mem_store inside
    rw [length_store]
    exact graph.inside old was entry (same ▸ listed)
  chosen := by
    intro found inside
    obtain ⟨place, here⟩ := mem_iff_getElem?.mp inside
    rw [getElem?_store] at here
    split at here
    · rename_i same
      subst same
      obtain ⟨old, was, rfl⟩ := map_eq_some_iff.mp here
      exact fits old was
    · exact graph.chosen found (mem_of_getElem? here)
  acyclic := by
    intro place cycle
    exact graph.acyclic place (Relation.TransGen.mono (fun a b refers => refers_store.mp refers) _ _ cycle)
  tags := by
    rw [map_tag_store]
    exact graph.tags
  memberTags := by
    intro found inside
    obtain ⟨old, was, -, same⟩ := mem_store inside
    rw [same]
    exact graph.memberTags old was

theorem findMember_eq_ok : findMember selectors selectorTag memberTag = .ok (selector, member) ↔
      (selectors.findIdx? fun found => found.tag = selectorTag) = some selector ∧
        ∃ found, selectors[selector]? = some found ∧
          (found.members.findIdx? fun entry => entry.tag = memberTag) = some member := by
  unfold findMember
  cases first : selectors.findIdx? fun found => found.tag = selectorTag with
  | none => simp [orError, bind, Except.bind]
  | some place =>
    cases here : selectors[place]? with
    | none =>
      have inside := (List.findIdx?_eq_some_iff_findIdx_eq.mp first).1
      rw [List.getElem?_eq_getElem inside] at here
      cases here
    | some found =>
      cases second : found.members.findIdx? fun entry => entry.tag = memberTag with
      | none =>
        simp only [orError, here, second, bind, Except.bind, reduceCtorEq, some.injEq, false_iff, not_and]
        rintro rfl ⟨other, same, hit⟩
        rw [here] at same
        cases same
        rw [second] at hit
        cases hit
      | some entry =>
        simp only [orError, here, second, bind, Except.bind, Except.ok.injEq, Prod.mk.injEq, some.injEq]
        constructor
        · rintro ⟨rfl, rfl⟩
          exact ⟨rfl, found, here, second⟩
        · rintro ⟨rfl, other, same, hit⟩
          rw [here] at same
          cases same
          rw [second] at hit
          cases hit
          exact ⟨rfl, rfl⟩

theorem findMember_fits
    (hit : findMember selectors selectorTag memberTag = .ok (selector, member)) : Fits selectors selector member := by
  obtain ⟨-, found, here, place⟩ := findMember_eq_ok.mp hit
  intro other same
  rw [here] at same
  cases same
  exact (List.findIdx?_eq_some_iff_findIdx_eq.mp place).1

theorem switch_eq_ok : switch selectors selectorTag memberTag = .ok after ↔
      ∃ selector member, findMember selectors selectorTag memberTag = .ok (selector, member) ∧
        after = store selectors selector member := by
  unfold switch
  rw [bind_eq_ok]
  constructor
  · rintro ⟨⟨selector, member⟩, hit, same⟩
    exact ⟨selector, member, hit, (Except.ok.inj same).symm⟩
  · rintro ⟨selector, member, hit, rfl⟩
    exact ⟨(selector, member), hit, rfl⟩

theorem SelectorGraph.switch (graph : SelectorGraph selectors plans)
    (switched : switch selectors selectorTag memberTag = .ok after) : SelectorGraph after plans := by
  obtain ⟨selector, member, hit, rfl⟩ := switch_eq_ok.mp switched
  exact graph.store (findMember_fits hit)

def maxEgressIdentities : Nat := 64

structure TaggedInbound where
  tag : Tag
  inbound : Nat
  deriving DecidableEq, Repr

structure TaggedOutbound where
  tag : Tag
  outbound : Nat
  deriving DecidableEq, Repr

structure TaggedPlan where
  tag : Tag
  hops : List Nat
  deriving DecidableEq, Repr

structure SelectorDefinition where
  tag : Tag
  outbounds : List Tag
  default : Option Tag
  deriving DecidableEq, Repr

inductive SelectorCompileError
  | inbounds
  | outbounds
  | plans
  | planTag
  | planHops
  | selectors
  | selectorTag
  | selectorOutbounds
  | selectorDefault
  | extraRoot
  | unreachableOutbound
  | unreachablePlan
  | unreachableSelector
  deriving DecidableEq, Repr

/-- ASCII letters and digits, `.`, `_` and `-`. -/
def tagByte (byte : UInt8) : Bool :=
  (48 ≤ byte && byte ≤ 57) || (65 ≤ byte && byte ≤ 90) || (97 ≤ byte && byte ≤ 122) || byte == 46 || byte == 95 || byte == 45

def validTag (tag : Tag) : Bool := (decide (1 ≤ tag.length) && decide (tag.length ≤ 64)) && tag.all tagByte

/-- One of the elements is bad beside those before it. -/
def anyAfter {α : Type} (bad : List α → α → Bool) : List α → List α → Bool
  | _, [] => false
  | earlier, a :: rest => bad earlier a || anyAfter bad (earlier ++ [a]) rest

def validatePlans (inbounds : List TaggedInbound) (outbounds : List TaggedOutbound) :
    List TaggedPlan → List TaggedPlan → Checked SelectorCompileError Unit
  | _, [] => .ok ()
  | earlier, plan :: rest => do
    Checked.failIf (!validTag plan.tag || inbounds.any (fun inbound => inbound.tag = plan.tag) ||
      outbounds.any (fun outbound => outbound.tag = plan.tag) || earlier.any fun other => other.tag = plan.tag) .planTag
    Checked.failIf (!(decide (2 ≤ plan.hops.length) && decide (plan.hops.length ≤ 8)) ||
      anyAfter (fun before hop => !outbounds.any (fun candidate => candidate.outbound = hop) || before.contains hop) [] plan.hops)
      .planHops
    validatePlans inbounds outbounds (earlier ++ [plan]) rest

def validateIdentities (inbounds : List TaggedInbound) (outbounds : List TaggedOutbound) (plans : List TaggedPlan)
    (definitions : List SelectorDefinition) : Checked SelectorCompileError Unit := do
  Checked.failIf (!(decide (1 ≤ inbounds.length) && decide (inbounds.length ≤ maxEgressIdentities)) ||
    anyAfter (fun earlier inbound => !validTag inbound.tag ||
      earlier.any fun other => other.tag = inbound.tag || other.inbound = inbound.inbound) [] inbounds) .inbounds
  Checked.failIf (!(decide (1 ≤ outbounds.length) && decide (outbounds.length ≤ maxEgressIdentities)) ||
    anyAfter (fun earlier outbound => !validTag outbound.tag || inbounds.any (fun inbound => inbound.tag = outbound.tag) ||
      earlier.any fun other => other.tag = outbound.tag || other.outbound = outbound.outbound) [] outbounds) .outbounds
  Checked.failIf (plans.length > maxSelectors) .plans
  validatePlans inbounds outbounds [] plans
  Checked.failIf (definitions.length > maxSelectors) .selectors
  Checked.failIf (anyAfter (fun earlier selector => !validTag selector.tag ||
    inbounds.any (fun inbound => inbound.tag = selector.tag) || outbounds.any (fun outbound => outbound.tag = selector.tag) ||
    plans.any (fun plan => plan.tag = selector.tag) || earlier.any fun other => other.tag = selector.tag) [] definitions)
    .selectorTag

/-- The outbounds first, then the plans, then the selectors. -/
def resolveTag (outbounds : List TaggedOutbound) (plans : List TaggedPlan) (definitions : List SelectorDefinition) (tag : Tag) :
    Option OutboundAction :=
  ((outbounds.findIdx? fun outbound => outbound.tag = tag).map .plan).or
    (((plans.findIdx? fun plan => plan.tag = tag).map fun plan => .plan (outbounds.length + plan)).or
      ((definitions.findIdx? fun selector => selector.tag = tag).map .selector))

def tagIsResolvable (outbounds : List TaggedOutbound) (plans : List TaggedPlan) (definitions : List SelectorDefinition)
    (tag : Tag) : Bool :=
  validTag tag && (outbounds.any (fun candidate => candidate.tag = tag) || plans.any (fun candidate => candidate.tag = tag) ||
    definitions.any fun candidate => candidate.tag = tag)

def compileMembers (resolveTag : Tag → Option OutboundAction) :
    List Tag → List Tag → Checked SelectorCompileError (List SelectorMember)
  | _, [] => .ok []
  | earlier, tag :: rest => do
    Checked.failIf (!validTag tag || earlier.contains tag) .selectorOutbounds
    let action ← Checked.okOr (resolveTag tag) .selectorOutbounds
    let members ← compileMembers resolveTag (earlier ++ [tag]) rest
    .ok (⟨tag, action⟩ :: members)

def compileSelector (resolveTag : Tag → Option OutboundAction) (definition : SelectorDefinition) :
    Checked SelectorCompileError Selector := do
  Checked.failIf (!(decide (1 ≤ definition.outbounds.length) && decide (definition.outbounds.length ≤ maxSelectorMembers)))
    .selectorOutbounds
  let members ← compileMembers resolveTag [] definition.outbounds
  let default ← Checked.okOr ((definition.default.filter validTag).bind fun default =>
    definition.outbounds.findIdx? fun tag => tag = default) .selectorDefault
  .ok ⟨definition.tag, members, default⟩

def compileSelectors (resolveTag : Tag → Option OutboundAction) :
    List SelectorDefinition → Checked SelectorCompileError (List Selector)
  | [] => .ok []
  | definition :: rest => do
    let selector ← compileSelector resolveTag definition
    let selectors ← compileSelectors resolveTag rest
    .ok (selector :: selectors)

/-! ### The two walks over the compiled graph -/

def visitMembers (visit : Nat → List Nat → Checked SelectorCompileError (List Nat)) :
    List SelectorMember → List Nat → Checked SelectorCompileError (List Nat)
  | [], marks => .ok marks
  | member :: rest, marks =>
    match member.action with
    | .plan _ => visitMembers visit rest marks
    | .selector next => do
      let marks ← visit next marks
      visitMembers visit rest marks

/-- The recursion of `validate_acyclic`: marks 1 while a selector is open, 2 when it is complete; the first argument bounds the
stack. -/
def visit (selectors : List Selector) : Nat → Nat → List Nat → Checked SelectorCompileError (List Nat)
  | 0, _, _ => .error .panic
  | depth + 1, selector, marks => do
    let mark ← Checked.index marks selector
    if mark = 1 then Checked.fail .selectorOutbounds
    else if mark = 2 then .ok marks
    else do
      let found ← Checked.index selectors selector
      let marks ← visitMembers (visit selectors depth) found.members (marks.set selector 1)
      .ok (marks.set selector 2)

def visitAll (selectors : List Selector) : List Nat → List Nat → Checked SelectorCompileError (List Nat)
  | [], marks => .ok marks
  | selector :: rest, marks => do
    let marks ← visit selectors (selectors.length + 1) selector marks
    visitAll selectors rest marks

def validateAcyclic (selectors : List Selector) : Checked SelectorCompileError Unit := do
  let _ ← visitAll selectors (List.range selectors.length) (List.replicate selectors.length 0)
  .ok ()

structure Reached where
  plans : List Bool
  selectors : List Bool
  deriving DecidableEq, Repr

def reachMembers (reach : OutboundAction → Reached → Checked SelectorCompileError Reached) :
    List SelectorMember → Reached → Checked SelectorCompileError Reached
  | [], reached => .ok reached
  | member :: rest, reached => do
    let reached ← reach member.action reached
    reachMembers reach rest reached

/-- The recursion of `validate_reachability`. -/
def reach (selectors : List Selector) : Nat → OutboundAction → Reached → Checked SelectorCompileError Reached
  | 0, _, _ => .error .panic
  | _ + 1, .plan plan, reached => do
    let _ ← Checked.index reached.plans plan
    .ok { reached with plans := reached.plans.set plan true }
  | depth + 1, .selector selector, reached => do
    let seen ← Checked.index reached.selectors selector
    if seen then .ok reached
    else do
      let found ← Checked.index selectors selector
      reachMembers (reach selectors depth) found.members { reached with selectors := reached.selectors.set selector true }

def reachAll (selectors : List Selector) : List OutboundAction → Reached → Checked SelectorCompileError Reached
  | [], reached => .ok reached
  | root :: rest, reached => do
    let reached ← reach selectors (selectors.length + 1) root reached
    reachAll selectors rest reached

/-- The outbounds that the hops of the reached plans name. -/
def reachOutbounds (outbounds : List TaggedOutbound) : List Nat → List Bool → Checked SelectorCompileError (List Bool)
  | [], reached => .ok reached
  | hop :: rest, reached => do
    let index ← Checked.expect (outbounds.findIdx? fun candidate => candidate.outbound = hop)
    reachOutbounds outbounds rest (reached.set index true)

def validateReachability (selectors : List Selector) (outbounds : List TaggedOutbound) (plans : List (List Nat))
    (roots : List OutboundAction) : Checked SelectorCompileError Unit := do
  let reached ← reachAll selectors roots ⟨List.replicate plans.length false, List.replicate selectors.length false⟩
  Checked.failIf (reached.selectors.contains false) .unreachableSelector
  Checked.failIf ((reached.plans.drop outbounds.length).contains false) .unreachablePlan
  let hops := ((plans.zip reached.plans).filter Prod.snd).flatMap Prod.fst
  let reachedOutbounds ← reachOutbounds outbounds hops (List.replicate outbounds.length false)
  Checked.failIf (reachedOutbounds.contains false) .unreachableOutbound

def compileRoots (outbounds : List TaggedOutbound) (plans : List TaggedPlan) (definitions : List SelectorDefinition) :
    List Tag → Checked SelectorCompileError (List OutboundAction)
  | [] => .ok []
  | tag :: rest => do
    let action ← Checked.okOr
      (if tagIsResolvable outbounds plans definitions tag then resolveTag outbounds plans definitions tag else none) .extraRoot
    let actions ← compileRoots outbounds plans definitions rest
    .ok (action :: actions)

/-- What the control and the handles share, and the action of each handle. -/
structure CompiledEgress where
  selectors : List Selector
  plans : List (List Nat)
  roots : List OutboundAction
  deriving DecidableEq, Repr

def compilePlans (outbounds : List TaggedOutbound) (plans : List TaggedPlan) : List (List Nat) :=
  (outbounds.map fun outbound => [outbound.outbound]) ++ plans.map TaggedPlan.hops

def compileEgressPlansWithRoots (inbounds : List TaggedInbound) (outbounds : List TaggedOutbound) (plans : List TaggedPlan)
    (definitions : List SelectorDefinition) (roots : List Tag) : Checked SelectorCompileError CompiledEgress := do
  validateIdentities inbounds outbounds plans definitions
  let selectors ← compileSelectors (resolveTag outbounds plans definitions) definitions
  validateAcyclic selectors
  let actions ← compileRoots outbounds plans definitions roots
  validateReachability selectors outbounds (compilePlans outbounds plans) actions
  .ok ⟨selectors, compilePlans outbounds plans, actions⟩

/-- The plan that a handle's snapshot returns. -/
def snapshot (selectors : List Selector) (plans : List (List Nat)) (action : OutboundAction) : Option (List Nat) :=
  (resolve selectors action).bind fun plan => plans[plan]?

end Ferrum.Core
