import Ferrum.Config.EgressGraphAcyclic
import Ferrum.Core.SelectorLinearizable

namespace Ferrum.Config

open List Checked
open Ferrum.Core (Tag TaggedInbound TaggedOutbound TaggedPlan SelectorDefinition OutboundAction)

namespace AdmittedEgressGraph

/-- The names of a cohort, all new and distinct, with their places in the map. -/
structure Registered (reference : Nat → Option PreparedEgressRef) (index : Nat) (tags : List (Option Tag))
    (before after : Registry) (names : List Tag) : Prop where
  named : tags = names.map some
  distinct : names.Nodup
  fresh : ∀ name ∈ names, name ∉ before.identities
  identities : ∀ name, name ∈ after.identities ↔ name ∈ names ∨ name ∈ before.identities
  placed : ∀ i name, names[i]? = some name → after.tags.lookup name = (reference (index + i)).or (before.tags.lookup name)
  kept : ∀ name, name ∉ names → after.tags.lookup name = before.tags.lookup name

theorem lookup_placeTag (tags : HashMap Tag PreparedEgressRef) (name : Tag) (reference : Option PreparedEgressRef) (other : Tag) :
    (placeTag tags name reference).lookup other = if other = name then reference.or (tags.lookup other) else tags.lookup other := by
  cases reference with
  | none => simp [placeTag]
  | some value =>
    rw [placeTag, HashMap.lookup_insert_eq]
    split <;> rfl

theorem register_spec {field missing : ConfigField} {reference : Nat → Option PreparedEgressRef} {index : Nat}
    {tags : List (Option Tag)} {before after : Registry}
    (run : register field missing reference index tags before = .ok after) :
    ∃ names, Registered reference index tags before after names := by
  induction tags generalizing index before with
  | nil =>
    cases run
    exact ⟨[], rfl, nodup_nil, by simp, by simp, by simp, by simp⟩
  | cons tag rest ih =>
    rw [register] at run
    obtain ⟨name, present, run⟩ := bind_eq_ok.mp run
    obtain ⟨⟨⟩, -, run⟩ := bind_eq_ok.mp run
    obtain ⟨⟨⟩, unused, run⟩ := bind_eq_ok.mp run
    have new : name ∉ before.identities := failIf_eq_ok.mp unused
    obtain ⟨names, registered⟩ := ih run
    obtain rfl := okOr_eq_ok.mp present
    have notLater : name ∉ names := fun again => registered.fresh name again (by simp)
    have inserted := lookup_placeTag before.tags name (reference index)
    refine ⟨name :: names, by rw [registered.named]; rfl, nodup_cons.mpr ⟨notLater, registered.distinct⟩, ?_, ?_, ?_, ?_⟩
    · intro other listed
      rcases mem_cons.mp listed with rfl | listed
      · exact new
      · exact fun inside => registered.fresh other listed (mem_cons_of_mem _ inside)
    · intro other
      rw [registered.identities]
      simp only [mem_cons]
      tauto
    · intro i other here
      cases i with
      | zero =>
        cases here
        rw [registered.kept name notLater]
        simpa using inserted name
      | succ i =>
        have later : names[i]? = some other := here
        have different : other ≠ name := by
          rintro rfl
          exact notLater (mem_of_getElem? later)
        rw [registered.placed i other later, inserted other, if_neg different, show index + 1 + i = index + (i + 1) by omega]
    · intro other absent
      simp only [mem_cons, not_or] at absent
      rw [registered.kept other absent.2, inserted other, if_neg absent.1]

/-- What the map of an admitted graph says: the place of each outbound, chain and selector, all names apart. -/
structure Names (tags : HashMap Tag PreparedEgressRef) (outbounds chains selectors : List Tag) : Prop where
  outboundsDistinct : outbounds.Nodup
  chainsDistinct : chains.Nodup
  selectorsDistinct : selectors.Nodup
  apart : ∀ name, ¬(name ∈ outbounds ∧ name ∈ chains) ∧ ¬(name ∈ outbounds ∧ name ∈ selectors) ∧
    ¬(name ∈ chains ∧ name ∈ selectors)
  lookup : ∀ name reference, tags.lookup name = some reference →
    match reference with
    | .outbound index => outbounds[index]? = some name
    | .chain index => chains[index]? = some name
    | .selector index => selectors[index]? = some name

theorem names_of_registered {inbounds outbounds chains selectors : List (Option Tag)} {first second third fourth : Registry}
    {inboundNames outboundNames chainNames selectorNames : List Tag}
    (inbound : Registered (fun _ => none) 0 inbounds ⟨[], ∅⟩ first inboundNames)
    (outbound : Registered (fun index => some (.outbound index)) 0 outbounds first second outboundNames)
    (chain : Registered (fun index => some (.chain index)) 0 chains second third chainNames)
    (selector : Registered (fun index => some (.selector index)) 0 selectors third fourth selectorNames) :
    Names fourth.tags outboundNames chainNames selectorNames := by
  have empty : ∀ name, first.tags.lookup name = none := by
    intro name
    by_cases listed : name ∈ inboundNames
    · obtain ⟨i, here⟩ := mem_iff_getElem?.mp listed
      rw [inbound.placed i name here]
      rfl
    · rw [inbound.kept name listed]
      rfl
  refine ⟨outbound.distinct, chain.distinct, selector.distinct, fun name => ⟨?_, ?_, ?_⟩, ?_⟩
  · rintro ⟨left, right⟩
    exact chain.fresh name right ((outbound.identities name).mpr (.inl left))
  · rintro ⟨left, right⟩
    exact selector.fresh name right ((chain.identities name).mpr (.inr ((outbound.identities name).mpr (.inl left))))
  · rintro ⟨left, right⟩
    exact selector.fresh name right ((chain.identities name).mpr (.inl left))
  · intro name reference found
    by_cases inSelectors : name ∈ selectorNames
    · obtain ⟨i, here⟩ := mem_iff_getElem?.mp inSelectors
      rw [selector.placed i name here] at found
      cases found
      simpa using here
    rw [selector.kept name inSelectors] at found
    by_cases inChains : name ∈ chainNames
    · obtain ⟨i, here⟩ := mem_iff_getElem?.mp inChains
      rw [chain.placed i name here] at found
      cases found
      simpa using here
    rw [chain.kept name inChains] at found
    by_cases inOutbounds : name ∈ outboundNames
    · obtain ⟨i, here⟩ := mem_iff_getElem?.mp inOutbounds
      rw [outbound.placed i name here] at found
      cases found
      simpa using here
    rw [outbound.kept name inOutbounds, empty] at found
    cases found

/-! ### References of members and hops -/

variable {tags : HashMap Tag PreparedEgressRef}

theorem resolveIn_eq_ok {tag : Tag} {field : ConfigField} {reference : PreparedEgressRef}
    (run : resolveIn tags tag field = .ok reference) : tags.lookup tag = some reference := by
  obtain ⟨⟨⟩, -, run⟩ := bind_eq_ok.mp run
  exact okOr_eq_ok.mp run

variable {outbounds : Nat}

theorem selectorMembers_spec {selectors : Nat} {seen : Words} {members : List Tag} {references : List PreparedEgressRef}
    (run : selectorMembers tags outbounds selectors seen members = .ok references) :
    List.Forall₂ (fun tag reference => tags.lookup tag = some reference) members references := by
  induction members generalizing seen references with
  | nil =>
    cases run
    exact .nil
  | cons member rest ih =>
    rw [selectorMembers] at run
    obtain ⟨reference, found, run⟩ := bind_eq_ok.mp run
    obtain ⟨⟨⟩, -, run⟩ := bind_eq_ok.mp run
    obtain ⟨⟨⟩, -, run⟩ := bind_eq_ok.mp run
    obtain ⟨others, later, last⟩ := bind_eq_ok.mp run
    cases last
    exact .cons (resolveIn_eq_ok found) (ih later)

theorem buildSelectors_spec {selectors : Nat} {raw : List RawSelector} {built : List (List PreparedEgressRef)}
    (run : buildSelectors tags outbounds selectors raw = .ok built) :
    List.Forall₂ (fun selector members =>
      List.Forall₂ (fun tag reference => tags.lookup tag = some reference) selector.outbounds members) raw built := by
  induction raw generalizing built with
  | nil =>
    cases run
    exact .nil
  | cons selector rest ih =>
    rw [buildSelectors] at run
    obtain ⟨members, first, run⟩ := bind_eq_ok.mp run
    obtain ⟨default, -, run⟩ := bind_eq_ok.mp run
    obtain ⟨reference, -, run⟩ := bind_eq_ok.mp run
    obtain ⟨⟨⟩, -, run⟩ := bind_eq_ok.mp run
    obtain ⟨others, later, last⟩ := bind_eq_ok.mp run
    cases last
    exact .cons (selectorMembers_spec first) (ih later)

theorem chainHops_spec {direct : List Bool} {seen : BitVec 64} {hops : List Tag} {typed : List Nat}
    (run : chainHops tags direct seen hops = .ok typed) : ∀ hop ∈ typed, hop < direct.length := by
  induction hops generalizing seen typed with
  | nil =>
    cases run
    simp
  | cons hop rest ih =>
    rw [chainHops] at run
    obtain ⟨reference, -, run⟩ := bind_eq_ok.mp run
    cases reference with
    | outbound outbound =>
      obtain ⟨isDirect, read, run⟩ := bind_eq_ok.mp run
      obtain ⟨⟨⟩, -, run⟩ := bind_eq_ok.mp run
      obtain ⟨others, later, last⟩ := bind_eq_ok.mp run
      cases last
      intro other listed
      rcases mem_cons.mp listed with rfl | listed
      · unfold Checked.index Checked.expect at read
        cases here : direct[other]? with
        | none =>
          rw [here] at read
          cases read
        | some value => exact (List.getElem?_eq_some_iff.mp here).1
      · exact ih later other listed
    | selector index => cases run
    | chain index => cases run

theorem buildChains_spec {direct : List Bool} {raw : List RawChain} {built : List (List Nat)}
    (run : buildChains tags direct raw = .ok built) :
    built.length = raw.length ∧ ∀ chain ∈ built, ∃ first rest, chain = first :: rest ∧ first < direct.length := by
  induction raw generalizing built with
  | nil =>
    cases run
    exact ⟨rfl, by simp⟩
  | cons chain rest ih =>
    rw [buildChains] at run
    obtain ⟨hops, -, run⟩ := bind_eq_ok.mp run
    obtain ⟨typed, first, run⟩ := bind_eq_ok.mp run
    obtain ⟨head, read, run⟩ := bind_eq_ok.mp run
    obtain ⟨others, later, last⟩ := bind_eq_ok.mp run
    cases last
    obtain ⟨length, all⟩ := ih later
    refine ⟨by rw [length_cons, length_cons, length], ?_⟩
    intro other listed
    rcases mem_cons.mp listed with rfl | listed
    · cases other with
      | nil => cases read
      | cons hop tail => exact ⟨hop, tail, rfl, chainHops_spec first hop mem_cons_self⟩
    · exact all other listed

theorem chainTargets_length {chains : List (List Nat)} {targets : List Bool}
    (run : chainTargets outbounds chains = .ok targets) : targets.length = chains.length := by
  induction chains generalizing targets with
  | nil =>
    cases run
    rfl
  | cons chain rest ih =>
    rw [chainTargets] at run
    obtain ⟨terminal, -, run⟩ := bind_eq_ok.mp run
    obtain ⟨accepts, -, run⟩ := bind_eq_ok.mp run
    obtain ⟨others, later, last⟩ := bind_eq_ok.mp run
    cases last
    rw [length_cons, length_cons, ih later]

/-- The parts of an admission, and what they are good for. -/
structure Admission (outbounds : List RawClientOutbound) (selectors : List RawSelector) (chains : List RawChain)
    (graph : AdmittedEgressGraph) (chainNames : List Tag) : Prop where
  names : Names graph.tags (outbounds.map RawClientOutbound.tag) chainNames (selectors.map RawSelector.tag)
  chainsNamed : chains.map RawChain.tag = chainNames.map some
  outboundCount : graph.outbounds = outbounds.length
  chainCount : graph.chains.length = chains.length
  members : List.Forall₂ (fun selector members =>
    List.Forall₂ (fun tag reference => graph.tags.lookup tag = some reference) selector.outbounds members) selectors graph.selectors

theorem map_some_injective {α : Type} {left right : List α} (same : left.map some = right.map some) : left = right :=
  map_injective_iff.mpr (Option.some_injective α) same

theorem admitGraph_spec {inbounds : List Tag} {outbounds : List RawClientOutbound} {selectors : List RawSelector}
    {chains : List RawChain}
    {graph : AdmittedEgressGraph} (run : admitGraph inbounds outbounds selectors chains = .ok graph) :
    (∃ chainNames, Admission outbounds selectors chains graph chainNames) ∧ (outbounds.length ≤ 64 → graph.Admitted) := by
  obtain ⟨first, inboundRun, run⟩ := bind_eq_ok.mp run
  obtain ⟨second, outboundRun, run⟩ := bind_eq_ok.mp run
  obtain ⟨third, chainRun, run⟩ := bind_eq_ok.mp run
  obtain ⟨fourth, selectorRun, run⟩ := bind_eq_ok.mp run
  obtain ⟨hops, hopsRun, run⟩ := bind_eq_ok.mp run
  obtain ⟨members, membersRun, run⟩ := bind_eq_ok.mp run
  obtain ⟨targets, targetsRun, last⟩ := bind_eq_ok.mp run
  cases last
  obtain ⟨inboundNames, inbound⟩ := register_spec inboundRun
  obtain ⟨outboundNames, outbound⟩ := register_spec outboundRun
  obtain ⟨chainNames, chain⟩ := register_spec chainRun
  obtain ⟨selectorNames, selector⟩ := register_spec selectorRun
  have outboundTags : outbounds.map RawClientOutbound.tag = outboundNames := map_some_injective (by
    rw [← outbound.named, map_map]
    rfl)
  have selectorTags : selectors.map RawSelector.tag = selectorNames := map_some_injective (by
    rw [← selector.named, map_map]
    rfl)
  have names := names_of_registered inbound outbound chain selector
  have spec := buildSelectors_spec membersRun
  obtain ⟨chainLength, chainsGood⟩ := buildChains_spec hopsRun
  rw [length_map] at chainsGood
  have chainNamesLength : chainNames.length = chains.length := by
    have same := congrArg List.length chain.named
    simpa using same.symm
  refine ⟨⟨chainNames, by rw [outboundTags, selectorTags]; exact names, chain.named, rfl, chainLength, spec⟩, fun few => ?_⟩
  refine ⟨few, ?_, chainsGood, ?_, ?_, ?_, ?_⟩
  · intro found listed member inside
    obtain ⟨i, here⟩ := mem_iff_getElem?.mp listed
    obtain ⟨raw, -, references⟩ := Core.forall₂_getElem? spec here
    obtain ⟨j, at_⟩ := mem_iff_getElem?.mp inside
    obtain ⟨tag, -, found⟩ := Core.forall₂_getElem? references at_
    have place := names.lookup tag member found
    cases member with
    | outbound index =>
      have bound := (List.getElem?_eq_some_iff.mp place).1
      rw [← outboundTags, length_map] at bound
      exact bound
    | selector index =>
      have bound := (List.getElem?_eq_some_iff.mp place).1
      rw [← selectorTags, length_map, spec.length_eq] at bound
      exact bound
    | chain index =>
      have bound := (List.getElem?_eq_some_iff.mp place).1
      rw [chainNamesLength, ← chainLength] at bound
      exact bound
  · simp only [length_append, length_map, length_range, length_replicate, spec.length_eq]
  · simp only [length_append, length_replicate, spec.length_eq, chainTargets_length targetsRun]
  · intro index small
    rw [append_assoc, List.getElem?_append_left (by simpa using small)]
    simp [small]
  · intro index chain' here
    have length : ((List.range outbounds.length).map outboundBit ++ List.replicate selectors.length (0 : BitVec 64)).length =
        outbounds.length + members.length := by simp [spec.length_eq]
    rw [List.getElem?_append_right (by rw [length]; exact Nat.le_add_right _ _), length, Nat.add_sub_cancel_left,
      List.getElem?_map, here]
    rfl

end AdmittedEgressGraph

end Ferrum.Config
