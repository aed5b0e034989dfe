import Ferrum.Core.SelectorCompile

namespace Ferrum.Core

open List Checked

variable {selectors : List Selector} {outbounds : List TaggedOutbound} {plans : List TaggedPlan}
  {definitions : List SelectorDefinition}

def mark (marks : List Nat) (selector : Nat) : Nat := marks.getD selector 0

theorem mark_set {marks : List Nat} {selector value : Nat} (inside : selector < marks.length) (place : Nat) :
    mark (marks.set selector value) place = if place = selector then value else mark marks place := by
  unfold mark
  rw [getD_eq_getElem?_getD, getD_eq_getElem?_getD, List.getElem?_set]
  by_cases same : place = selector
  · simp [same, inside]
  · simp [same, Ne.symm same]

/-- The marks of an unfinished walk: what is marked 2 is finished. -/
structure Marked (selectors : List Selector) (marks : List Nat) : Prop where
  length : marks.length = selectors.length
  values : ∀ selector, mark marks selector ≤ 2
  finished : DepthFirst.Finished (Refers selectors) fun selector => mark marks selector = 2

/-- A part of the walk that has returned leaves the open selectors open and only completes others. -/
structure Walked (before after : List Nat) : Prop where
  length : after.length = before.length
  opened : ∀ selector, mark after selector = 1 ↔ mark before selector = 1
  complete : ∀ selector, mark before selector = 2 → mark after selector = 2
  fresh : ∀ selector, mark after selector = 0 → mark before selector = 0

theorem Walked.refl (marks : List Nat) : Walked marks marks := ⟨rfl, fun _ => Iff.rfl, fun _ => id, fun _ => id⟩

theorem Walked.trans {first second third : List Nat} (left : Walked first second) (right : Walked second third) :
    Walked first third :=
  ⟨right.length.trans left.length, fun selector => (right.opened selector).trans (left.opened selector),
    fun selector done => right.complete selector (left.complete selector done),
    fun selector untouched => left.fresh selector (right.fresh selector untouched)⟩

def MembersInside (selectors : List Selector) : Prop :=
  ∀ found ∈ selectors, ∀ member ∈ found.members, ∀ next, member.action = .selector next → next < selectors.length

def Visits (selectors : List Selector) (go : Nat → List Nat → Checked SelectorCompileError (List Nat)) : Prop :=
  ∀ selector marks marks', Marked selectors marks → selector < selectors.length → go selector marks = .ok marks' →
    Marked selectors marks' ∧ Walked marks marks' ∧ mark marks' selector = 2

theorem visitMembers_spec {go : Nat → List Nat → Checked SelectorCompileError (List Nat)} (visits : Visits selectors go)
    {members : List SelectorMember}
    (inside : ∀ member ∈ members, ∀ next, member.action = .selector next → next < selectors.length) {marks marks' : List Nat}
    (marked : Marked selectors marks) (run : visitMembers go members marks = .ok marks') :
    Marked selectors marks' ∧ Walked marks marks' ∧
      ∀ member ∈ members, ∀ next, member.action = .selector next → mark marks' next = 2 := by
  induction members generalizing marks with
  | nil =>
    cases run
    exact ⟨marked, Walked.refl _, by simp⟩
  | cons member rest ih =>
    have insideRest := fun other listed => inside other (mem_cons_of_mem _ listed)
    rw [visitMembers] at run
    cases action : member.action with
    | plan plan =>
      rw [action] at run
      obtain ⟨marked', walked, complete⟩ := ih insideRest marked run
      refine ⟨marked', walked, ?_⟩
      intro other listed next leads
      rcases mem_cons.mp listed with rfl | listed
      · rw [action] at leads
        cases leads
      · exact complete other listed next leads
    | selector child =>
      rw [action] at run
      obtain ⟨between, first, second⟩ := bind_eq_ok.mp run
      obtain ⟨markedBetween, walkedFirst, done⟩ := visits child marks between marked
        (inside member mem_cons_self child action) first
      obtain ⟨marked', walked, complete⟩ := ih insideRest markedBetween second
      refine ⟨marked', walkedFirst.trans walked, ?_⟩
      intro other listed next leads
      rcases mem_cons.mp listed with rfl | listed
      · rw [action] at leads
        cases leads
        exact walked.complete child done
      · exact complete other listed next leads

theorem Marked.open {marks : List Nat} (marked : Marked selectors marks) {selector : Nat} (small : selector < selectors.length)
    (incomplete : mark marks selector ≠ 2) : Marked selectors (marks.set selector 1) := by
  have bound : selector < marks.length := by rw [marked.length]; exact small
  refine ⟨by rw [length_set, marked.length], fun other => ?_, marked.finished.congr fun other => ?_⟩
  · rw [mark_set bound]
    split
    · decide
    · exact marked.values other
  · rw [mark_set bound]
    split
    · rename_i same
      subst same
      exact ⟨fun bad => absurd bad incomplete, fun bad => absurd bad (by decide)⟩
    · exact Iff.rfl

theorem visit_spec (inside : MembersInside selectors) (depth : Nat) : Visits selectors (visit selectors depth) := by
  induction depth with
  | zero =>
    intro selector marks marks' _ _ run
    cases run
  | succ depth ih =>
    intro selector marks marks' marked small run
    have bound : selector < marks.length := by rw [marked.length]; exact small
    rw [visit] at run
    obtain ⟨value, read, run⟩ := bind_eq_ok.mp run
    have value_eq : mark marks selector = value := by
      have here := index_eq_ok.mp read
      simp [mark, getD_eq_getElem?_getD, here]
    by_cases opened : value = 1
    · rw [if_pos opened] at run
      cases run
    rw [if_neg opened] at run
    by_cases complete : value = 2
    · rw [if_pos complete] at run
      cases run
      exact ⟨marked, Walked.refl marks, value_eq.trans complete⟩
    rw [if_neg complete] at run
    obtain ⟨found, here, run⟩ := bind_eq_ok.mp run
    obtain ⟨between, members, last⟩ := bind_eq_ok.mp run
    cases last
    have place := index_eq_ok.mp here
    have listed : found ∈ selectors := mem_of_getElem? place
    have entered : Marked selectors (marks.set selector 1) := marked.open small (by rw [value_eq]; exact complete)
    obtain ⟨markedBetween, walked, children⟩ := visitMembers_spec ih (inside found listed) entered members
    have boundBetween : selector < between.length := by rw [markedBetween.length]; exact small
    have still : mark between selector = 1 := by
      rw [walked.opened, mark_set bound, if_pos rfl]
    refine ⟨⟨by rw [length_set, markedBetween.length], fun other => ?_, ?_⟩, ⟨?_, ?_, ?_, ?_⟩, ?_⟩
    · rw [mark_set boundBetween]
      split
      · exact Nat.le_refl 2
      · exact markedBetween.values other
    · have unfinished : ¬mark between selector = 2 := by
        rw [still]
        decide
      have needed : ∀ next, Refers selectors selector next → mark between next = 2 := by
        rintro next ⟨same, again, member, inMembers, leads⟩
        rw [place] at again
        cases again
        exact children member inMembers next leads
      refine (markedBetween.finished.finish unfinished needed).congr fun other => ?_
      rw [mark_set boundBetween]
      by_cases same : other = selector
      · simp [same]
      · simp [same]
    · rw [length_set, walked.length, length_set]
    · intro other
      rw [mark_set boundBetween]
      by_cases same : other = selector
      · subst same
        simp [value_eq, opened]
      · rw [if_neg same, walked.opened, mark_set bound, if_neg same]
    · intro other done
      rw [mark_set boundBetween]
      by_cases same : other = selector
      · simp [same]
      · rw [if_neg same]
        exact walked.complete other (by rw [mark_set bound, if_neg same]; exact done)
    · intro other untouched
      rw [mark_set boundBetween] at untouched
      by_cases same : other = selector
      · rw [if_pos same] at untouched
        cases untouched
      · rw [if_neg same] at untouched
        have before := walked.fresh other untouched
        rwa [mark_set bound, if_neg same] at before
    · rw [mark_set boundBetween, if_pos rfl]

theorem visitAll_spec (inside : MembersInside selectors) {todo marks marks' : List Nat}
    (small : ∀ selector ∈ todo, selector < selectors.length) (marked : Marked selectors marks)
    (run : visitAll selectors todo marks = .ok marks') :
    Marked selectors marks' ∧ Walked marks marks' ∧ ∀ selector ∈ todo, mark marks' selector = 2 := by
  induction todo generalizing marks with
  | nil =>
    cases run
    exact ⟨marked, Walked.refl _, by simp⟩
  | cons selector rest ih =>
    rw [visitAll] at run
    obtain ⟨between, first, second⟩ := bind_eq_ok.mp run
    obtain ⟨markedBetween, walkedFirst, done⟩ := visit_spec inside _ selector marks between marked
      (small selector mem_cons_self) first
    obtain ⟨marked', walked, complete⟩ := ih (fun other listed => small other (mem_cons_of_mem _ listed)) markedBetween second
    refine ⟨marked', walkedFirst.trans walked, ?_⟩
    intro other listed
    rcases mem_cons.mp listed with rfl | listed
    · exact walked.complete other done
    · exact complete other listed

theorem marked_start (selectors : List Selector) : Marked selectors (List.replicate selectors.length 0) := by
  have untouched : ∀ selector, mark (List.replicate selectors.length 0) selector = 0 := by
    intro selector
    rw [mark, getD_eq_getElem?_getD, List.getElem?_replicate]
    split <;> rfl
  refine ⟨length_replicate, fun selector => ?_, DepthFirst.finished_none.congr fun selector => ?_⟩
  · rw [untouched]
    exact Nat.zero_le 2
  · rw [untouched]
    simp

theorem refers_lt {a b : Nat} (refers : Refers selectors a b) : a < selectors.length := by
  obtain ⟨found, here, -⟩ := refers
  exact (List.getElem?_eq_some_iff.mp here).1

theorem validateAcyclic_acyclic (inside : MembersInside selectors) (run : validateAcyclic selectors = .ok ()) (selector : Nat) :
    ¬Relation.TransGen (Refers selectors) selector selector := by
  obtain ⟨marks, walk, -⟩ := bind_eq_ok.mp run
  obtain ⟨marked, -, complete⟩ := visitAll_spec inside (fun other listed => mem_range.mp listed) (marked_start selectors) walk
  intro cycle
  obtain ⟨next, refers, -⟩ := Relation.TransGen.head'_iff.mp cycle
  exact marked.finished.acyclic selector (complete selector (mem_range.mpr (refers_lt refers))) cycle

/-! ### The walks end -/

variable {selectors : List Selector} {inbounds : List TaggedInbound} {outbounds : List TaggedOutbound}
  {plans : List TaggedPlan} {definitions : List SelectorDefinition}

theorem resolveTag_eq_some {tag : Tag} {action : OutboundAction} (found : resolveTag outbounds plans definitions tag = some action) :
    (∃ i, action = .plan i ∧ outbounds.findIdx? (fun outbound => outbound.tag = tag) = some i) ∨
      (∃ i, action = .plan (outbounds.length + i) ∧ plans.findIdx? (fun plan => plan.tag = tag) = some i) ∨
      ∃ i, action = .selector i ∧ definitions.findIdx? (fun selector => selector.tag = tag) = some i := by
  unfold resolveTag at found
  rcases Option.or_eq_some_iff.mp found with first | ⟨-, rest⟩
  · obtain ⟨i, here, same⟩ := Option.map_eq_some_iff.mp first
    exact Or.inl ⟨i, same.symm, here⟩
  · rcases Option.or_eq_some_iff.mp rest with second | ⟨-, third⟩
    · obtain ⟨i, here, same⟩ := Option.map_eq_some_iff.mp second
      exact Or.inr (Or.inl ⟨i, same.symm, here⟩)
    · obtain ⟨i, here, same⟩ := Option.map_eq_some_iff.mp third
      exact Or.inr (Or.inr ⟨i, same.symm, here⟩)

theorem resolveTag_inside {tag : Tag} {action : OutboundAction} (found : resolveTag outbounds plans definitions tag = some action) :
    action.Inside definitions.length (compilePlans outbounds plans).length := by
  have length : (compilePlans outbounds plans).length = outbounds.length + plans.length := by simp [compilePlans]
  rw [length]
  rcases resolveTag_eq_some found with ⟨i, rfl, here⟩ | ⟨i, rfl, here⟩ | ⟨i, rfl, here⟩
  all_goals
    have small := (List.findIdx?_eq_some_iff_findIdx_eq.mp here).1
    simp only [OutboundAction.Inside]
    omega

/-! ### Members and selectors -/

structure MembersOf (resolveTag : Tag → Option OutboundAction) (tags : List Tag) (members : List SelectorMember) : Prop where
  tagged : members.map SelectorMember.tag = tags
  actions : ∀ member ∈ members, resolveTag member.tag = some member.action
  distinct : tags.Nodup

theorem compileMembers_spec {resolveTag : Tag → Option OutboundAction} {earlier tags : List Tag} {members : List SelectorMember}
    (run : compileMembers resolveTag earlier tags = .ok members) :
    MembersOf resolveTag tags members ∧ ∀ tag ∈ tags, tag ∉ earlier := by
  induction tags generalizing earlier members with
  | nil =>
    cases run
    exact ⟨⟨rfl, by simp, nodup_nil⟩, by simp⟩
  | cons tag rest ih =>
    rw [compileMembers] at run
    obtain ⟨⟨⟩, checked, run⟩ := bind_eq_ok.mp run
    obtain ⟨action, resolved, run⟩ := bind_eq_ok.mp run
    obtain ⟨others, later, last⟩ := bind_eq_ok.mp run
    cases last
    obtain ⟨rests, apart⟩ := ih later
    have fresh : tag ∉ earlier := by
      intro inside
      have refused := failIf_eq_ok.mp checked
      simp [inside] at refused
    refine ⟨⟨by rw [map_cons, rests.tagged], ?_, nodup_cons.mpr ⟨?_, rests.distinct⟩⟩, ?_⟩
    · intro member listed
      rcases mem_cons.mp listed with rfl | listed
      · exact okOr_eq_ok.mp resolved
      · exact rests.actions member listed
    · intro again
      exact apart tag again (by simp)
    · intro other listed
      rcases mem_cons.mp listed with rfl | listed
      · exact fresh
      · intro inside
        exact apart other listed (mem_append_left _ inside)

structure SelectorOf (resolveTag : Tag → Option OutboundAction) (definition : SelectorDefinition) (selector : Selector) : Prop where
  tag : selector.tag = definition.tag
  members : MembersOf resolveTag definition.outbounds selector.members
  chosen : selector.selected < selector.members.length

theorem compileSelector_spec {resolveTag : Tag → Option OutboundAction} {definition : SelectorDefinition} {selector : Selector}
    (run : compileSelector resolveTag definition = .ok selector) : SelectorOf resolveTag definition selector := by
  obtain ⟨⟨⟩, -, run⟩ := bind_eq_ok.mp run
  obtain ⟨members, compiled, run⟩ := bind_eq_ok.mp run
  obtain ⟨default, place, last⟩ := bind_eq_ok.mp run
  cases last
  have spec := (compileMembers_spec compiled).1
  refine ⟨rfl, spec, ?_⟩
  obtain ⟨tag, -, here⟩ := Option.bind_eq_some_iff.mp (okOr_eq_ok.mp place)
  have small := (List.findIdx?_eq_some_iff_findIdx_eq.mp here).1
  have length := congrArg List.length spec.tagged
  rw [length_map] at length
  rw [length]
  exact small

theorem compileSelectors_spec {resolveTag : Tag → Option OutboundAction} {definitions : List SelectorDefinition}
    {selectors : List Selector} (run : compileSelectors resolveTag definitions = .ok selectors) :
    List.Forall₂ (SelectorOf resolveTag) definitions selectors := by
  induction definitions generalizing selectors with
  | nil =>
    cases run
    exact .nil
  | cons definition rest ih =>
    obtain ⟨selector, first, run⟩ := bind_eq_ok.mp run
    obtain ⟨others, later, last⟩ := bind_eq_ok.mp run
    cases last
    exact .cons (compileSelector_spec first) (ih later)

theorem map_tag_of_spec {resolveTag : Tag → Option OutboundAction}
    (spec : List.Forall₂ (SelectorOf resolveTag) definitions selectors) :
    selectors.map Selector.tag = definitions.map SelectorDefinition.tag := by
  induction spec with
  | nil => rfl
  | cons first _ ih => rw [map_cons, map_cons, ih, first.tag]

theorem forall₂_getElem? {α β : Type} {relation : α → β → Prop} {left : List α} {right : List β}
    (related : List.Forall₂ relation left right) {i : Nat} {b : β} (here : right[i]? = some b) :
    ∃ a, left[i]? = some a ∧ relation a b := by
  induction related generalizing i with
  | nil => simp at here
  | cons first _ ih =>
    cases i with
    | zero =>
      cases here
      exact ⟨_, rfl, first⟩
    | succ i => exact ih here

/-! ### The identities are distinct -/

theorem anyAfter_pairwise {α : Type} {bad : List α → α → Bool} {relation : α → α → Prop}
    (apart : ∀ earlier a, bad earlier a = false → ∀ other ∈ earlier, relation other a) {earlier all : List α}
    (passed : anyAfter bad earlier all = false) : all.Pairwise relation ∧ ∀ a ∈ all, ∀ other ∈ earlier, relation other a := by
  induction all generalizing earlier with
  | nil => exact ⟨.nil, by simp⟩
  | cons a rest ih =>
    rw [anyAfter, Bool.or_eq_false_iff] at passed
    obtain ⟨first, later⟩ := passed
    obtain ⟨pairwise, before⟩ := ih later
    refine ⟨pairwise_cons.mpr ⟨fun b listed => before b listed a (by simp), pairwise⟩, ?_⟩
    intro b listed other inside
    rcases mem_cons.mp listed with rfl | listed
    · exact apart earlier b first other inside
    · exact before b listed other (mem_append_left _ inside)

theorem validateIdentities_tags (run : validateIdentities inbounds outbounds plans definitions = .ok ()) :
    (definitions.map SelectorDefinition.tag).Nodup := by
  obtain ⟨⟨⟩, -, run⟩ := bind_eq_ok.mp run
  obtain ⟨⟨⟩, -, run⟩ := bind_eq_ok.mp run
  obtain ⟨⟨⟩, -, run⟩ := bind_eq_ok.mp run
  obtain ⟨⟨⟩, -, run⟩ := bind_eq_ok.mp run
  obtain ⟨⟨⟩, -, run⟩ := bind_eq_ok.mp run
  have passed := failIf_eq_ok.mp run
  simp only [Bool.not_eq_true] at passed
  have distinct := (@anyAfter_pairwise _ _ (fun first second : SelectorDefinition => first.tag ≠ second.tag)
    (fun earlier selector fine other inside same => ?_) _ _ passed).1
  · exact pairwise_map.mpr distinct
  · simp only [Bool.or_eq_false_iff, any_eq_false] at fine
    exact fine.2 other inside (by simpa using same)

/-! ### What a compilation returns -/

structure CompiledEgress.Valid (compiled : CompiledEgress) : Prop where
  graph : SelectorGraph compiled.selectors compiled.plans.length
  roots : ∀ root ∈ compiled.roots, root.Inside compiled.selectors.length compiled.plans.length

theorem compileRoots_spec {roots : List Tag} {actions : List OutboundAction}
    (run : compileRoots outbounds plans definitions roots = .ok actions) :
    List.Forall₂ (fun tag action => resolveTag outbounds plans definitions tag = some action) roots actions := by
  induction roots generalizing actions with
  | nil =>
    cases run
    exact .nil
  | cons tag rest ih =>
    obtain ⟨action, first, run⟩ := bind_eq_ok.mp run
    obtain ⟨others, later, last⟩ := bind_eq_ok.mp run
    cases last
    refine .cons ?_ (ih later)
    have found := okOr_eq_ok.mp first
    split at found
    · exact found
    · cases found

theorem compile_eq_ok {roots : List Tag} {compiled : CompiledEgress}
    (run : compileEgressPlansWithRoots inbounds outbounds plans definitions roots = .ok compiled) :
    validateIdentities inbounds outbounds plans definitions = .ok () ∧
      compileSelectors (resolveTag outbounds plans definitions) definitions = .ok compiled.selectors ∧
      validateAcyclic compiled.selectors = .ok () ∧ compiled.plans = compilePlans outbounds plans ∧
      compileRoots outbounds plans definitions roots = .ok compiled.roots := by
  obtain ⟨⟨⟩, identities, run⟩ := bind_eq_ok.mp run
  obtain ⟨selectors, built, run⟩ := bind_eq_ok.mp run
  obtain ⟨⟨⟩, acyclic, run⟩ := bind_eq_ok.mp run
  obtain ⟨actions, rooted, run⟩ := bind_eq_ok.mp run
  obtain ⟨⟨⟩, -, last⟩ := bind_eq_ok.mp run
  cases last
  exact ⟨identities, built, acyclic, rfl, rooted⟩

theorem membersInside_of_spec (spec : List.Forall₂ (SelectorOf (resolveTag outbounds plans definitions)) definitions selectors)
    {found : Selector} (listed : found ∈ selectors) {member : SelectorMember} (inside : member ∈ found.members) :
    member.action.Inside selectors.length (compilePlans outbounds plans).length := by
  obtain ⟨i, here⟩ := mem_iff_getElem?.mp listed
  obtain ⟨definition, -, of⟩ := forall₂_getElem? spec here
  rw [← spec.length_eq]
  exact resolveTag_inside (of.members.actions member inside)

theorem membersInside_of_compiled
    (spec : List.Forall₂ (SelectorOf (resolveTag outbounds plans definitions)) definitions selectors) : MembersInside selectors := by
  intro found listed member inside next leads
  have small := membersInside_of_spec spec listed inside
  rw [leads] at small
  exact small

theorem compile_valid {roots : List Tag} {compiled : CompiledEgress}
    (run : compileEgressPlansWithRoots inbounds outbounds plans definitions roots = .ok compiled) : compiled.Valid := by
  obtain ⟨identities, built, acyclic, planned, rooted⟩ := compile_eq_ok run
  have spec := compileSelectors_spec built
  have selectorOf : ∀ found ∈ compiled.selectors, ∃ definition, SelectorOf (resolveTag outbounds plans definitions) definition found := by
    intro found listed
    obtain ⟨i, here⟩ := mem_iff_getElem?.mp listed
    obtain ⟨definition, -, of⟩ := forall₂_getElem? spec here
    exact ⟨definition, of⟩
  refine ⟨⟨?_, ?_, validateAcyclic_acyclic (membersInside_of_compiled spec) acyclic, ?_, ?_⟩, ?_⟩
  · intro found listed member inside
    rw [planned]
    exact membersInside_of_spec spec listed inside
  · intro found listed
    obtain ⟨definition, of⟩ := selectorOf found listed
    exact of.chosen
  · rw [map_tag_of_spec spec]
    exact validateIdentities_tags identities
  · intro found listed
    obtain ⟨definition, of⟩ := selectorOf found listed
    rw [of.members.tagged]
    exact of.members.distinct
  · intro root listed
    obtain ⟨i, here⟩ := mem_iff_getElem?.mp listed
    obtain ⟨tag, -, resolved⟩ := forall₂_getElem? (compileRoots_spec rooted) here
    rw [planned, ← spec.length_eq]
    exact resolveTag_inside resolved

end Ferrum.Core
