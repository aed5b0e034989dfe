import Ferrum.Config.EgressGraphAdmit

namespace Ferrum.Config

open List Checked
open Ferrum.Core (Tag TaggedInbound TaggedOutbound TaggedPlan SelectorDefinition OutboundAction switchAll snapshot Reaches)

/-- The action that stands for a reference: the outbounds are the first plans. -/
def PreparedEgressRef.toAction (outbounds : Nat) : PreparedEgressRef → OutboundAction
  | .outbound index => .plan index
  | .chain index => .plan (outbounds + index)
  | .selector index => .selector index

def taggedOutbounds (outbounds : List Tag) : List TaggedOutbound := outbounds.zipIdx.map fun (tag, index) => ⟨tag, index⟩

def definitions (selectors : List RawSelector) : List SelectorDefinition :=
  selectors.map fun selector => ⟨selector.tag, selector.outbounds, selector.default⟩

theorem map_tag_taggedOutbounds (outbounds : List Tag) : (taggedOutbounds outbounds).map TaggedOutbound.tag = outbounds := by
  unfold taggedOutbounds
  rw [map_map]
  exact zipIdx_map_fst 0 outbounds

theorem getElem?_taggedOutbounds {outbounds : List Tag} {index : Nat} {tag : Tag} (here : outbounds[index]? = some tag) :
    (taggedOutbounds outbounds)[index]? = some ⟨tag, index⟩ := by
  simp [taggedOutbounds, List.getElem?_zipIdx, here]

theorem map_tag_definitions (selectors : List RawSelector) :
    (definitions selectors).map SelectorDefinition.tag = selectors.map RawSelector.tag := by
  unfold definitions
  rw [map_map]
  rfl

theorem findIdx?_none {α : Type} {f : α → Tag} {values : List α} {tag : Tag} (absent : tag ∉ values.map f) :
    (values.findIdx? fun value => f value = tag) = none := by
  rw [List.findIdx?_eq_none_iff]
  intro value listed
  simp only [decide_eq_false_iff_not]
  rintro rfl
  exact absent (mem_map_of_mem listed)

namespace AdmittedEgressGraph

variable {selectors : List RawSelector}

variable {tags : HashMap Tag PreparedEgressRef} {plans : List TaggedPlan} {tag : Tag} {names : List Tag}
  {raw : RawClientRoot} {outbounds : List RawClientOutbound}

theorem Names.resolveTag {outbounds chains : List Tag}
    (names : Names tags outbounds chains (selectors.map RawSelector.tag))
    (planned : plans.map TaggedPlan.tag = chains) {reference : PreparedEgressRef}
    (found : tags.lookup tag = some reference) :
    Core.resolveTag (taggedOutbounds outbounds) plans (definitions selectors) tag = some (reference.toAction outbounds.length) := by
  have place := names.lookup tag reference found
  obtain ⟨notChain, notSelector, notBoth⟩ := names.apart tag
  have outboundTags := map_tag_taggedOutbounds outbounds
  have definitionTags := map_tag_definitions selectors
  have length : (taggedOutbounds outbounds).length = outbounds.length := by simp [taggedOutbounds]
  unfold Core.resolveTag
  cases reference with
  | outbound index =>
    have hit := Core.findIdx?_eq_some_of_nodup (by rw [outboundTags]; exact names.outboundsDistinct) (getElem?_taggedOutbounds place)
    rw [hit]
    rfl
  | chain index =>
    have listed : tag ∈ chains := mem_of_getElem? place
    have first := @findIdx?_none _ TaggedOutbound.tag (taggedOutbounds outbounds) tag
      (by rw [outboundTags]; exact fun inside => notChain ⟨inside, listed⟩)
    have at_ : (plans.map TaggedPlan.tag)[index]? = some tag := by rw [planned]; exact place
    rw [List.getElem?_map] at at_
    obtain ⟨plan, here, rfl⟩ := Option.map_eq_some_iff.mp at_
    have hit := Core.findIdx?_eq_some_of_nodup (by rw [planned]; exact names.chainsDistinct) here
    rw [first, hit, length]
    rfl
  | selector index =>
    have listed : tag ∈ selectors.map RawSelector.tag := mem_of_getElem? place
    have first := @findIdx?_none _ TaggedOutbound.tag (taggedOutbounds outbounds) tag
      (by rw [outboundTags]; exact fun inside => notSelector ⟨inside, listed⟩)
    have second := @findIdx?_none _ TaggedPlan.tag plans tag (by rw [planned]; exact fun inside => notBoth ⟨inside, listed⟩)
    have at_ : ((definitions selectors).map SelectorDefinition.tag)[index]? = some tag := by rw [definitionTags]; exact place
    rw [List.getElem?_map] at at_
    obtain ⟨definition, here, rfl⟩ := Option.map_eq_some_iff.mp at_
    have hit := Core.findIdx?_eq_some_of_nodup (by rw [definitionTags]; exact names.selectorsDistinct) here
    rw [first, second, hit]
    rfl

variable {chains : List RawChain}

theorem taggedPlans_spec {hops : List (List Nat)}
    (named : chains.map RawChain.tag = names.map some) (length : hops.length = chains.length)
    (run : taggedPlans chains hops = .ok plans) : plans.map TaggedPlan.tag = names ∧ plans.map TaggedPlan.hops = hops := by
  induction chains generalizing hops names plans with
  | nil =>
    cases hops with
    | nil =>
      cases run
      cases names with
      | nil => exact ⟨rfl, rfl⟩
      | cons name rest => cases named
    | cons first rest => cases length
  | cons chain rest ih =>
    cases hops with
    | nil => cases length
    | cons first others =>
      cases names with
      | nil => cases named
      | cons name rest' =>
        rw [taggedPlans] at run
        obtain ⟨tag, present, run⟩ := bind_eq_ok.mp run
        obtain ⟨plans', later, last⟩ := bind_eq_ok.mp run
        cases last
        simp only [map_cons, List.cons.injEq] at named
        obtain ⟨tags, hops'⟩ := ih named.2 (by simpa using length) later
        rw [named.1] at present
        cases present
        exact ⟨by rw [map_cons, tags], by rw [map_cons, hops']⟩

theorem resolveRoots_spec {graph : AdmittedEgressGraph} {field : Nat → ConfigField} {index : Nat} {tags : List Tag}
    {roots : List PreparedEgressRef} (run : resolveRoots graph field index tags = .ok roots) :
    List.Forall₂ (fun tag root => graph.tags.lookup tag = some root) tags roots := by
  induction tags generalizing index roots with
  | nil =>
    cases run
    exact .nil
  | cons tag rest ih =>
    rw [resolveRoots] at run
    obtain ⟨root, first, run⟩ := bind_eq_ok.mp run
    obtain ⟨others, later, last⟩ := bind_eq_ok.mp run
    cases last
    exact .cons (resolveIn_eq_ok first) (ih later)

/-- The compiled selectors and plans are those of the graph, member by member. -/
structure Mirrors (graph : AdmittedEgressGraph) (compiled : Core.CompiledEgress) : Prop where
  selectors : List.Forall₂ (fun members found => found.members.map Core.SelectorMember.action =
    members.map (PreparedEgressRef.toAction graph.outbounds)) graph.selectors compiled.selectors
  outbounds : ∀ index < graph.outbounds, compiled.plans[index]? = some [index]
  chains : ∀ index, compiled.plans[graph.outbounds + index]? = graph.chains[index]?

variable {graph : AdmittedEgressGraph} {compiled : Core.CompiledEgress}

theorem forall₂_getElem?_left {α β : Type} {relation : α → β → Prop} {left : List α} {right : List β}
    (related : List.Forall₂ relation left right) {i : Nat} {a : α} (here : left[i]? = some a) :
    ∃ b, right[i]? = some b ∧ relation a b := by
  obtain ⟨b, at_, flipped⟩ := Core.forall₂_getElem? related.flip here
  exact ⟨b, at_, flipped⟩

variable {egress : PreparedEgressRef}

theorem Mirrors.reaches (mirrors : Mirrors graph compiled) (admitted : graph.Admitted) {outbound : Nat}
    (inside : egress.Inside graph) (hop : graph.FirstHop egress outbound) :
    ∃ plan rest, Reaches compiled.selectors (egress.toAction graph.outbounds) plan ∧ compiled.plans[plan]? = some (outbound :: rest) := by
  induction hop with
  | outbound index => exact ⟨index, [], .plan index, mirrors.outbounds index inside⟩
  | @chain index first rest here => exact ⟨_, rest, .plan _, by rw [mirrors.chains, here]⟩
  | @selector index outbound members member here listed _ ih =>
    obtain ⟨plan, rest, reaches, head⟩ := ih (admitted.inside members (mem_of_getElem? here) member listed)
    obtain ⟨found, at_, actions⟩ := forall₂_getElem?_left mirrors.selectors here
    have action : member.toAction graph.outbounds ∈ found.members.map Core.SelectorMember.action := by
      rw [actions]
      exact mem_map_of_mem listed
    obtain ⟨entry, inMembers, same⟩ := mem_map.mp action
    exact ⟨plan, rest, .selector at_ inMembers (same ▸ reaches), head⟩

theorem Mirrors.firstHop (mirrors : Mirrors graph compiled) (admitted : graph.Admitted) {action : OutboundAction}
    {plan : Nat} (reaches : Reaches compiled.selectors action plan) (inside : egress.Inside graph)
    (same : egress.toAction graph.outbounds = action) :
    ∃ outbound rest, compiled.plans[plan]? = some (outbound :: rest) ∧ graph.FirstHop egress outbound := by
  induction reaches generalizing egress with
  | plan index =>
    cases egress with
    | outbound place =>
      cases same
      exact ⟨index, [], mirrors.outbounds index inside, .outbound index⟩
    | chain place =>
      cases same
      have here := List.getElem?_eq_getElem (show place < graph.chains.length from inside)
      obtain ⟨first, rest, shape, -⟩ := admitted.hops _ (getElem_mem (show place < graph.chains.length from inside))
      rw [shape] at here
      exact ⟨first, rest, by rw [mirrors.chains, here], .chain here⟩
    | selector place => cases same
  | @selector place plan found member here listed _ ih =>
    cases egress with
    | outbound index => cases same
    | chain index => cases same
    | selector index =>
      cases same
      obtain ⟨members, at_, actions⟩ := Core.forall₂_getElem? mirrors.selectors here
      have action : member.action ∈ members.map (PreparedEgressRef.toAction graph.outbounds) := by
        rw [← actions]
        exact mem_map_of_mem listed
      obtain ⟨reference, inMembers, equal⟩ := mem_map.mp action
      obtain ⟨outbound, rest, head, hop⟩ := ih (admitted.inside members (mem_of_getElem? at_) reference inMembers) equal
      exact ⟨outbound, rest, head, .selector at_ inMembers hop⟩

theorem mirrors_members {outbounds : Nat} {resolveTag : Tag → Option OutboundAction}
    (agree : ∀ tag reference, tags.lookup tag = some reference → resolveTag tag = some (reference.toAction outbounds))
    {members : List PreparedEgressRef} {found : List Core.SelectorMember}
    (references : List.Forall₂ (fun tag reference => tags.lookup tag = some reference) names members)
    (tagged : found.map Core.SelectorMember.tag = names)
    (actions : ∀ member ∈ found, resolveTag member.tag = some member.action) :
    found.map Core.SelectorMember.action = members.map (PreparedEgressRef.toAction outbounds) := by
  induction references generalizing found with
  | nil =>
    cases found with
    | nil => rfl
    | cons member rest => cases tagged
  | @cons tag reference names members lookup _ ih =>
    cases found with
    | nil => cases tagged
    | cons member rest =>
      simp only [map_cons, List.cons.injEq] at tagged
      have here := actions member mem_cons_self
      rw [tagged.1, agree tag reference lookup] at here
      rw [map_cons, map_cons, ih tagged.2 fun other listed => actions other (mem_cons_of_mem _ listed)]
      exact congrArg (· :: _) (Option.some.inj here).symm

theorem forall₂_of_getElem? {α β : Type} {relation : α → β → Prop} {left : List α} {right : List β}
    (length : left.length = right.length)
    (related : ∀ (i : Nat) a b, left[i]? = some a → right[i]? = some b → relation a b) : List.Forall₂ relation left right := by
  induction left generalizing right with
  | nil =>
    cases right with
    | nil => exact .nil
    | cons b rest => cases length
  | cons a left ih =>
    cases right with
    | nil => cases length
    | cons b right =>
      exact .cons (related 0 a b rfl rfl) (ih (by simpa using length) fun i c d here there => related (i + 1) c d here there)

variable {chainNames : List Tag}

theorem validateClientGraph_spec {routeRoots detourTags : List Tag} {explicitRoute : Bool}
    {validated : ValidatedClientGraph}
    (admission : Admission (raw.outbounds.getD []) (raw.selectors.getD []) (raw.chains.getD []) graph chainNames)
    (run : validateClientGraph raw graph routeRoots detourTags explicitRoute = .ok validated) :
    validated.compiled.Valid ∧ Mirrors graph validated.compiled ∧
      List.Forall₂ (fun egress root => root = egress.toAction graph.outbounds) validated.roots validated.compiled.roots ∧
      ∀ egress ∈ validated.roots, ∃ tag, graph.tags.lookup tag = some egress := by
  obtain ⟨⟨⟩, -, run⟩ := bind_eq_ok.mp run
  obtain ⟨plans, plansRun, run⟩ := bind_eq_ok.mp run
  obtain ⟨routeEgress, routeRun, run⟩ := bind_eq_ok.mp run
  obtain ⟨detourEgress, detourRun, run⟩ := bind_eq_ok.mp run
  obtain ⟨compiled, compiledRun, last⟩ := bind_eq_ok.mp run
  cases last
  obtain ⟨planTags, planHops⟩ := taggedPlans_spec admission.chainsNamed admission.chainCount plansRun
  have accepted : Core.compileEgressPlansWithRoots _ (taggedOutbounds ((raw.outbounds.getD []).map RawClientOutbound.tag)) plans
      (definitions (raw.selectors.getD [])) (routeRoots ++ detourTags) = .ok compiled := checked_mapError_eq_ok.mp compiledRun
  obtain ⟨-, built, -, planned, rooted⟩ := Core.compile_eq_ok accepted
  have agree : ∀ tag reference, graph.tags.lookup tag = some reference →
      Core.resolveTag (taggedOutbounds ((raw.outbounds.getD []).map RawClientOutbound.tag)) plans
        (definitions (raw.selectors.getD [])) tag = some (reference.toAction graph.outbounds) := by
    intro tag reference found
    have same := admission.names.resolveTag planTags found
    rwa [length_map, ← admission.outboundCount] at same
  have roots : List.Forall₂ (fun tag root => graph.tags.lookup tag = some root) (routeRoots ++ detourTags)
      (routeEgress ++ detourEgress) := rel_append (resolveRoots_spec routeRun) (resolveRoots_spec detourRun)
  have spec := Core.compileSelectors_spec built
  have compiledRoots := Core.compileRoots_spec rooted
  have length : (taggedOutbounds ((raw.outbounds.getD []).map RawClientOutbound.tag)).length = graph.outbounds := by
    rw [admission.outboundCount]
    simp [taggedOutbounds]
  refine ⟨Core.compile_valid accepted, ⟨?_, ?_, ?_⟩, ?_, ?_⟩
  · refine forall₂_of_getElem? ?_ fun i members found here at_ => ?_
    · rw [← admission.members.length_eq, ← spec.length_eq]
      simp [definitions]
    · obtain ⟨selector, there, references⟩ := Core.forall₂_getElem? admission.members here
      obtain ⟨definition, same, of⟩ := Core.forall₂_getElem? spec at_
      rw [definitions, List.getElem?_map, there] at same
      cases same
      exact mirrors_members agree references of.members.tagged of.members.actions
  · intro index small
    have inside : index < ((raw.outbounds.getD []).map RawClientOutbound.tag).length := by
      rw [length_map, ← admission.outboundCount]
      exact small
    have here := getElem?_taggedOutbounds (List.getElem?_eq_getElem inside)
    rw [planned, Core.compilePlans, List.getElem?_append_left (by simpa [taggedOutbounds] using inside), List.getElem?_map, here]
    rfl
  · intro index
    rw [planned, Core.compilePlans, List.getElem?_append_right (by rw [length_map, length]; omega), length_map, length,
      Nat.add_sub_cancel_left, planHops]
  · refine forall₂_of_getElem? ?_ fun i egress root here at_ => ?_
    · rw [← roots.length_eq, compiledRoots.length_eq]
    · obtain ⟨tag, there, found⟩ := Core.forall₂_getElem? roots here
      obtain ⟨tag', there', resolved⟩ := Core.forall₂_getElem? compiledRoots at_
      rw [there] at there'
      cases there'
      rw [agree tag egress found] at resolved
      exact (Option.some.inj resolved).symm
  · intro egress listed
    obtain ⟨i, here⟩ := mem_iff_getElem?.mp listed
    obtain ⟨tag, -, found⟩ := Core.forall₂_getElem? roots here
    exact ⟨tag, found⟩

theorem Admission.inside (admission : Admission outbounds selectors chains graph chainNames)
    (found : graph.tags.lookup tag = some egress) : egress.Inside graph := by
  have place := admission.names.lookup tag egress found
  cases egress with
  | outbound index =>
    have bound := (List.getElem?_eq_some_iff.mp place).1
    rw [length_map, ← admission.outboundCount] at bound
    exact bound
  | selector index =>
    have bound := (List.getElem?_eq_some_iff.mp place).1
    rw [length_map, admission.members.length_eq] at bound
    exact bound
  | chain index =>
    have bound := (List.getElem?_eq_some_iff.mp place).1
    have same := congrArg List.length admission.chainsNamed
    rw [length_map, length_map] at same
    rw [← same, ← admission.chainCount] at bound
    exact bound

variable {derived : AdmittedEgressGraph}

theorem Derived.admission (same : Derived graph derived)
    (admission : Admission outbounds selectors chains graph chainNames) :
    Admission outbounds selectors chains derived chainNames where
  names := by
    rw [same.tags]
    exact admission.names
  chainsNamed := admission.chainsNamed
  outboundCount := same.outbounds.trans admission.outboundCount
  chainCount := by
    rw [same.chains]
    exact admission.chainCount
  members := by
    rw [same.tags, same.selectors]
    exact admission.members

theorem Derived.mirrors (same : Derived graph derived) (mirrors : Mirrors derived compiled) :
    Mirrors graph compiled where
  selectors := by
    rw [← same.selectors, ← same.outbounds]
    exact mirrors.selectors
  outbounds := by
    rw [← same.outbounds]
    exact mirrors.outbounds
  chains := by
    rw [← same.outbounds, ← same.chains]
    exact mirrors.chains

theorem validateCount_few {count : Nat} {field : ConfigField} (run : validateCount count field = .ok ()) : count ≤ 64 := by
  have good := failIf_eq_ok.mp run
  omega

theorem admitClient_few (run : admitClient raw = .ok ()) : (raw.outbounds.getD []).length ≤ 64 := by
  obtain ⟨⟨⟩, -, run⟩ := bind_eq_ok.mp run
  obtain ⟨⟨⟩, counted, -⟩ := bind_eq_ok.mp run
  exact validateCount_few counted

/-- The first hops of one handle, under every choice that switches can make, are the bits of its graph node. -/
def HopsExact (graph : AdmittedEgressGraph) (compiled : Core.CompiledEgress) (egress : PreparedEgressRef) (root : OutboundAction) :
    Prop :=
  (∀ switches selectors, switchAll compiled.selectors switches = .ok selectors →
    ∃ first rest, snapshot selectors compiled.plans root = some (first :: rest) ∧
      (graph.firstHopsOf egress).getLsbD first = true) ∧
  ∀ outbound, (graph.firstHopsOf egress).getLsbD outbound = true →
    ∃ switches selectors rest, switchAll compiled.selectors switches = .ok selectors ∧
      snapshot selectors compiled.plans root = some (outbound :: rest)

theorem Mirrors.hopsExact (mirrors : Mirrors graph compiled) (valid : compiled.Valid) (admitted : graph.Admitted)
    (derivation : Derived graph derived) {root : OutboundAction} (inside : egress.Inside graph)
    (same : root = egress.toAction graph.outbounds) (rooted : root.Inside compiled.selectors.length compiled.plans.length) :
    HopsExact derived compiled egress root := by
  subst same
  refine ⟨fun switches selectors ran => ?_, fun outbound bit => ?_⟩
  · obtain ⟨after, members⟩ := Core.switchAll_spec valid.graph ran
    obtain ⟨plan, resolved, -⟩ := after.resolve (members.length.symm ▸ rooted)
    obtain ⟨first, rest, head, hop⟩ :=
      mirrors.firstHop admitted ((Core.reaches_iff_switches valid.graph rooted).mpr ⟨switches, selectors, ran, resolved⟩) inside rfl
    exact ⟨first, rest, by rw [snapshot, resolved]; exact head, (derivation.hops egress inside first).mpr hop⟩
  · obtain ⟨plan, rest, reaches, head⟩ := mirrors.reaches admitted inside ((derivation.hops egress inside outbound).mp bit)
    obtain ⟨switches, selectors, ran, resolved⟩ := (Core.reaches_iff_switches valid.graph rooted).mp reaches
    exact ⟨switches, selectors, rest, ran, by rw [snapshot, resolved]; exact head⟩

/-- The bits of an accepted client's egress graph are exactly the first hops of its handles; their derivation fails exactly on a
cycle, and reports it. -/
theorem egress_graph_exact :
    (∀ raw graph routeRoots detourTags explicitRoute validated, client raw = .ok graph →
      validateClientGraph raw graph routeRoots detourTags explicitRoute = .ok validated →
      validated.roots.length = validated.compiled.roots.length ∧
        ∀ (i : Nat) egress root, validated.roots[i]? = some egress → validated.compiled.roots[i]? = some root →
          HopsExact graph validated.compiled egress root) ∧
      ∀ raw graph, admitClient raw = .ok () →
        admitGraph (inboundTags raw) (raw.outbounds.getD []) (raw.selectors.getD []) (raw.chains.getD []) = .ok graph →
        ((∃ derived, graph.deriveSelectors = .ok derived) ↔ graph.Acyclic) ∧
          ∀ halt, graph.deriveSelectors = .error halt →
            ∃ cycle, halt = .error (.dependencyCycle (cycle.map selectorNode)) ∧ ClosedPath graph.RefersTo cycle := by
  refine ⟨?_, ?_⟩
  · intro raw graph routeRoots detourTags explicitRoute validated built accepted
    obtain ⟨⟨⟩, checked, built⟩ := bind_eq_ok.mp built
    obtain ⟨declared, admission, derivation⟩ := bind_eq_ok.mp built
    obtain ⟨⟨chainNames, admission⟩, admitted⟩ := admitGraph_spec admission
    have admitted := admitted (admitClient_few checked)
    rcases deriveSelectors_cases admitted with ⟨derived, derives, -, same⟩ | ⟨cycle, fails, -⟩
    · rw [derives] at derivation
      cases derivation
      obtain ⟨valid, mirrors, roots, named⟩ := validateClientGraph_spec (same.admission admission) accepted
      rw [same.outbounds] at roots
      refine ⟨roots.length_eq, fun i egress root here at_ => ?_⟩
      obtain ⟨egress', there, equal⟩ := Core.forall₂_getElem? roots at_
      rw [here] at there
      cases there
      obtain ⟨tag, found⟩ := named egress (mem_of_getElem? here)
      rw [same.tags] at found
      exact (same.mirrors mirrors).hopsExact valid admitted same (admission.inside found) equal
        (valid.roots root (mem_of_getElem? at_))
    · rw [fails] at derivation
      cases derivation
  · intro raw graph checked admission
    rcases deriveSelectors_cases ((admitGraph_spec admission).2 (admitClient_few checked)) with
      ⟨derived, derives, acyclic, -⟩ | ⟨cycle, fails, closed⟩
    · refine ⟨⟨fun _ => acyclic, fun _ => ⟨derived, derives⟩⟩, fun halt failed => ?_⟩
      rw [derives] at failed
      cases failed
    · refine ⟨⟨fun ⟨derived, derives⟩ => ?_, fun acyclic => ?_⟩, fun halt failed => ?_⟩
      · rw [fails] at derives
        cases derives
      · obtain ⟨selector, cyclic⟩ := DependencyGraph.ClosedPath.transGen closed
        exact absurd cyclic (acyclic selector)
      · rw [fails] at failed
        cases failed
        exact ⟨cycle, rfl, closed⟩

/-- Two selectors, the first one under the second, over a direct outbound, a chain and one of its hops. -/
def sampleRoot : RawClientRoot where
  inbounds := some [⟨[105]⟩]
  outbounds := some [⟨[97], some direct⟩, ⟨[98], none⟩, ⟨[99], none⟩]
  chains := some [⟨some [107], some [[98], [99]]⟩]
  selectors := some [⟨[115], [[97], [107]], some [97]⟩, ⟨[116], [[115], [98]], some [115]⟩]
  route := none
  dns := none
  tun := none

theorem sampleRoot_exact :
    (∃ graph validated, client sampleRoot = .ok graph ∧
      validateClientGraph sampleRoot graph [[116]] [] true = .ok validated ∧
      HopsExact graph validated.compiled (.selector 1) (.selector 1)) ∧
      ∃ graph, admitGraph (inboundTags sampleRoot) (sampleRoot.outbounds.getD []) (sampleRoot.selectors.getD [])
        (sampleRoot.chains.getD []) = .ok graph ∧ graph.Acyclic := by
  refine ⟨⟨_, _, rfl, rfl, (egress_graph_exact.1 sampleRoot _ [[116]] [] true _ rfl rfl).2 0 _ _ rfl rfl⟩, _, rfl, ?_⟩
  exact (egress_graph_exact.2 sampleRoot _ rfl rfl).1.mp ⟨_, rfl⟩

end AdmittedEgressGraph

end Ferrum.Config
