import Ferrum.Dns.Response

namespace Ferrum.Dns

open List

variable {Name : Type} [BEq Name]

def aliasOf (record : ResourceRecord Name) : Option (Name × Nat) :=
  match record.data with
  | .cname target => some (target, record.ttl)
  | _ => none

def owned (answers : List (ResourceRecord Name)) (owner : Name) : List (ResourceRecord Name) :=
  answers.filter fun record => record.name == owner

def aliases (answers : List (ResourceRecord Name)) (owner : Name) : List (Name × Nat) := (owned answers owner).filterMap aliasOf

/-- No two of the targets differ, nor does one differ from the target that is already known. -/
def Agree (next : Option Name) (targets : List (Name × Nat)) : Prop :=
  ∀ target ∈ targets, (∀ known ∈ next, (known == target.1) = true) ∧ ∀ other ∈ targets, (target.1 == other.1) = true

theorem agree_cons [EquivBEq Name] {next : Option Name} {target : Name × Nat} {targets : List (Name × Nat)} :
    Agree next (target :: targets) ↔ (∀ known ∈ next, (known == target.1) = true) ∧ Agree (some target.1) targets := by
  constructor
  · intro agree
    refine ⟨(agree target mem_cons_self).1, fun other member => ⟨fun known same => ?_, fun third later => ?_⟩⟩
    · rw [← Option.mem_some.mp same]
      exact (agree target mem_cons_self).2 other (mem_cons_of_mem _ member)
    · exact (agree other (mem_cons_of_mem _ member)).2 third (mem_cons_of_mem _ later)
  · rintro ⟨first, agree⟩ other member
    have toOther : (target.1 == other.1) = true := by
      rcases mem_cons.mp member with rfl | later
      · exact BEq.rfl
      · exact (agree other later).1 _ rfl
    refine ⟨fun known same => BEq.trans (first known same) toOther, fun third later => ?_⟩
    rcases mem_cons.mp later with rfl | last
    · exact BEq.symm toOther
    · exact BEq.trans (BEq.symm toOther) ((agree third last).1 _ rfl)

def minTtls (ttl : Option Nat) (targets : List (Name × Nat)) : Option Nat :=
  targets.foldl (fun ttl target => minTtl ttl target.2) ttl

theorem record_cname {scan next : OwnerScan Name} {name target : Name} {ttl : Nat} :
    scan.record { name, ttl, data := .cname target } = some next ↔
      (∀ known ∈ scan.next, (known == target) = true) ∧
        next = { scan with next := some target, ttl := minTtl scan.ttl ttl } := by
  obtain ⟨known, hasAddress, least⟩ := scan
  cases known with
  | none => simp [OwnerScan.record, @eq_comm _ next]
  | some known =>
    by_cases same : (known == target) = true
    · simp [OwnerScan.record, bne, same, @eq_comm _ next]
    · simp [OwnerScan.record, bne, same]

theorem foldlM_record [EquivBEq Name] (records : List (ResourceRecord Name)) (scan result : OwnerScan Name) :
    records.foldlM OwnerScan.record scan = some result ↔ Agree scan.next (records.filterMap aliasOf) ∧
      result =
        { next := ((records.filterMap aliasOf).getLast?.map Prod.fst).or scan.next
          hasAddress := scan.hasAddress || records.any isAddress
          ttl := minTtls scan.ttl (records.filterMap aliasOf) } := by
  induction records generalizing scan with
  | nil =>
    have agree : Agree scan.next ([] : List (Name × Nat)) := nofun
    obtain ⟨next, hasAddress, ttl⟩ := scan
    simp [agree, minTtls, @eq_comm _ result]
  | cons record records ih =>
    obtain ⟨name, ttl, data⟩ := record
    rw [foldlM_cons, Option.bind_eq_bind, Option.bind_eq_some_iff]
    cases data with
    | cname target =>
      have here : aliasOf { name, ttl, data := RData.cname target } = some (target, ttl) := rfl
      simp only [record_cname, ih, filterMap_cons_some here, agree_cons, any_cons]
      have last : (((target, ttl) :: records.filterMap aliasOf).getLast?.map Prod.fst).or scan.next =
          ((records.filterMap aliasOf).getLast?.map Prod.fst).or (some target) := by
        rw [List.getLast?_cons]
        cases (records.filterMap aliasOf).getLast? <;> rfl
      rw [last]
      constructor
      · rintro ⟨middle, ⟨known, rfl⟩, agree, rfl⟩
        exact ⟨⟨known, agree⟩, rfl⟩
      · rintro ⟨⟨known, agree⟩, rfl⟩
        exact ⟨_, ⟨known, rfl⟩, agree, rfl⟩
    | a address =>
      have here : aliasOf { name, ttl, data := (RData.a address : RData Name) } = none := rfl
      simp [OwnerScan.record, ih, filterMap_cons_none here, isAddress]
    | aaaa address =>
      have here : aliasOf { name, ttl, data := (RData.aaaa address : RData Name) } = none := rfl
      simp [OwnerScan.record, ih, filterMap_cons_none here, isAddress]
    | soa minimum =>
      have here : aliasOf { name, ttl, data := (RData.soa minimum : RData Name) } = none := rfl
      simp [OwnerScan.record, ih, filterMap_cons_none here, isAddress]
    | other =>
      have here : aliasOf { name, ttl, data := (RData.other : RData Name) } = none := rfl
      simp [OwnerScan.record, ih, filterMap_cons_none here, isAddress]

theorem scanOwner_eq_some [EquivBEq Name] {answers : List (ResourceRecord Name)} {owner : Name} {ttl : Option Nat}
    {scan : OwnerScan Name} : scanOwner answers owner ttl = some scan ↔ Agree none (aliases answers owner) ∧
      scan =
        { next := (aliases answers owner).getLast?.map Prod.fst
          hasAddress := (owned answers owner).any isAddress
          ttl := minTtls ttl (aliases answers owner) } := by
  have spec := foldlM_record (owned answers owner) { next := none, hasAddress := false, ttl } scan
  rwa [Option.or_none, Bool.false_or] at spec

theorem minTtls_eq_some {α : Type} {ttl : Option Nat} {targets : List (α × Nat)} {least : Nat} :
    targets.foldl (fun ttl target => minTtl ttl target.2) ttl = some least ↔
      least ∈ ttl.toList ++ targets.map Prod.snd ∧ ∀ other ∈ ttl.toList ++ targets.map Prod.snd, least ≤ other := by
  induction targets generalizing ttl with
  | nil =>
    cases ttl with
    | none => simp
    | some ttl =>
      simp only [foldl_nil, Option.some.injEq, Option.toList_some, map_nil, append_nil, mem_singleton,
        forall_eq]
      omega
  | cons target targets ih =>
    rw [foldl_cons, ih]
    cases ttl with
    | none => simp [minTtl]
    | some ttl =>
      simp only [minTtl, Option.elim_some, Option.toList_some, singleton_append, mem_cons, map_cons,
        forall_eq_or_imp, Nat.le_min]
      rcases Nat.le_total ttl target.2 with le | ge
      · rw [Nat.min_eq_left le]
        constructor
        · rintro ⟨member, first, rest⟩
          exact ⟨member.imp id .inr, first.1, first.2, rest⟩
        · rintro ⟨member, first, second, rest⟩
          refine ⟨?_, ⟨first, second⟩, rest⟩
          rcases member with same | same | later
          · exact .inl same
          · exact .inl (by omega)
          · exact .inr later
      · rw [Nat.min_eq_right ge]
        constructor
        · rintro ⟨member, first, rest⟩
          exact ⟨.inr member, first.1, first.2, rest⟩
        · rintro ⟨member, first, second, rest⟩
          refine ⟨?_, ⟨first, second⟩, rest⟩
          rcases member with same | same | later
          · exact .inl (by omega)
          · exact .inl same
          · exact .inr later

theorem minTtls_eq_none {α : Type} {ttl : Option Nat} {targets : List (α × Nat)} :
    targets.foldl (fun ttl target => minTtl ttl target.2) ttl = none ↔ ttl = none ∧ targets = [] := by
  induction targets generalizing ttl with
  | nil => simp
  | cons target targets ih =>
    rw [foldl_cons, ih]
    simp [minTtl]

section Reaching

variable [EquivBEq Name] {answers : List (ResourceRecord Name)} {owner x y : Name}

theorem owned_congr (same : (x == y) = true) : owned answers x = owned answers y := by
  refine filter_congr fun record _ => ?_
  rw [Bool.eq_iff_iff]
  exact ⟨fun named => BEq.trans named same, fun named => BEq.trans named (BEq.symm same)⟩

theorem aliases_congr (same : (x == y) = true) : aliases answers x = aliases answers y := by
  rw [aliases, owned_congr same, aliases]

section

variable (answers : List (ResourceRecord Name))

def Alias (owner target : Name) : Prop := target ∈ (aliases answers owner).map Prod.fst

def Reaches : Name → Name → Prop := Relation.ReflTransGen (Alias answers)

def Acyclic (qname : Name) : Prop :=
  ∀ x y, Reaches answers qname x → Relation.TransGen (Alias answers) x y → ¬(y == x) = true

def WellFormed (qname : Name) : Prop :=
  ∀ x target, Reaches answers qname x → Alias answers x target →
    (∀ other, Alias answers x other → (target == other) = true) ∧ ∀ record ∈ owned answers x, isAddress record = false

end

omit [EquivBEq Name] in
theorem agree_none_iff : Agree none (aliases answers owner) ↔
    ∀ target other, Alias answers owner target → Alias answers owner other → (target == other) = true := by
  simp only [Agree, Option.not_mem_none, false_imp_iff, implies_true, true_and, Alias, mem_map]
  constructor
  · rintro agree - - ⟨one, memberOne, rfl⟩ ⟨other, memberOther, rfl⟩
    exact agree one memberOne other memberOther
  · intro agree one memberOne other memberOther
    exact agree _ _ ⟨one, memberOne, rfl⟩ ⟨other, memberOther, rfl⟩

theorem alias_congr (same : (x == y) = true) {target : Name} (step : Alias answers x target) : Alias answers y target := by
  unfold Alias at step ⊢
  rwa [← aliases_congr same]

/-- How many aliases are followed from a name to one that is none. -/
inductive Depth (answers : List (ResourceRecord Name)) : Nat → Name → Prop
  | last {owner : Name} (none : aliases answers owner = []) : Depth answers 0 owner
  | follow {owner next : Name} {n : Nat} (step : Alias answers owner next)
      (agree : ∀ other, Alias answers owner other → (next == other) = true)
      (bare : ∀ record ∈ owned answers owner, isAddress record = false) (rest : Depth answers n next) :
      Depth answers (n + 1) owner

variable {n : Nat}

theorem Depth.congr (depth : Depth answers n x) (same : (x == y) = true) : Depth answers n y := by
  cases depth with
  | last none =>
    refine .last ?_
    rwa [← aliases_congr same]
  | follow step agree bare rest =>
    refine .follow (alias_congr same step) (fun other named => agree other (alias_congr (BEq.symm same) named)) ?_ rest
    rwa [← owned_congr same]

omit [EquivBEq Name] in
theorem not_alias (none : aliases answers x = []) : ¬Alias answers x y := by
  simp [Alias, none]

theorem Depth.alias (depth : Depth answers n x) (step : Alias answers x y) : ∃ m, n = m + 1 ∧ Depth answers m y := by
  cases depth with
  | last none => exact absurd step (not_alias none)
  | follow _ agree _ rest => exact ⟨_, rfl, rest.congr (agree y step)⟩

theorem Depth.unique {m : Nat} (left : Depth answers n x) (right : Depth answers m x) : n = m := by
  induction left generalizing m with
  | last none =>
    cases right with
    | last => rfl
    | follow step => exact absurd step (not_alias none)
  | follow step agree bare rest ih =>
    obtain ⟨k, rfl, deeper⟩ := right.alias step
    rw [ih deeper]

theorem Depth.reaches (depth : Depth answers n x) (path : Reaches answers x y) : ∃ m, m ≤ n ∧ Depth answers m y := by
  induction path with
  | refl => exact ⟨n, le_rfl, depth⟩
  | tail _ step ih =>
    obtain ⟨m, le, middle⟩ := ih
    obtain ⟨k, rfl, last⟩ := middle.alias step
    exact ⟨k, by omega, last⟩

theorem Depth.follows (depth : Depth answers n x) (path : Relation.TransGen (Alias answers) x y) :
    ∃ m, m < n ∧ Depth answers m y := by
  obtain ⟨z, step, rest⟩ := Relation.TransGen.head'_iff.mp path
  obtain ⟨k, rfl, next⟩ := depth.alias step
  obtain ⟨m, le, last⟩ := next.reaches rest
  exact ⟨m, by omega, last⟩

theorem Depth.acyclic (depth : Depth answers n x) : Acyclic answers x := by
  intro z y path cycle same
  obtain ⟨m, -, here⟩ := depth.reaches path
  obtain ⟨k, less, later⟩ := here.follows cycle
  have := here.unique (later.congr same)
  omega

theorem Depth.wellFormed (depth : Depth answers n x) : WellFormed answers x := by
  intro z target path step
  obtain ⟨m, -, here⟩ := depth.reaches path
  cases here with
  | last none => exact absurd step (not_alias none)
  | follow _ agree bare _ => exact ⟨fun other named => BEq.trans (BEq.symm (agree target step)) (agree other named), bare⟩

theorem walkOwners_eq_some {turns : Nat} {ttl result : Option Nat} {final : Name}
    (walked : walkOwners answers turns owner ttl = some (final, result)) :
    (∃ n, Depth answers n owner) ∧ Reaches answers owner final ∧ aliases answers final = [] ∧
      ∃ followed, result = minTtls ttl followed ∧
        ∀ target, target ∈ followed ↔ ∃ x, Reaches answers owner x ∧ target ∈ aliases answers x := by
  induction turns generalizing owner ttl with
  | zero => cases walked
  | succ turns ih =>
    rw [walkOwners, Option.bind_eq_bind, Option.bind_eq_some_iff] at walked
    obtain ⟨scan, scanned, walked⟩ := walked
    obtain ⟨agree, rfl⟩ := scanOwner_eq_some.mp scanned
    cases last : (aliases answers owner).getLast? with
    | none =>
      have none : aliases answers owner = [] := List.getLast?_eq_none_iff.mp last
      simp only [last, Option.map_none, Option.some.injEq, Prod.mk.injEq] at walked
      obtain ⟨rfl, rfl⟩ := walked
      refine ⟨⟨0, .last none⟩, .refl, none, aliases answers owner, rfl, fun target => ⟨fun member => ⟨owner, .refl, member⟩, ?_⟩⟩
      rintro ⟨x, path, member⟩
      rcases Relation.ReflTransGen.cases_head path with rfl | ⟨next, step, -⟩
      · exact member
      · exact absurd step (not_alias none)
    | some target =>
      have step : Alias answers owner target.1 := mem_map_of_mem (mem_of_getLast? last)
      simp only [last, Option.map_some] at walked
      split at walked
      · cases walked
      · rename_i bare
        have single := fun other named => agree_none_iff.mp agree target.1 other step named
        obtain ⟨⟨n, depth⟩, path, none, followed, least, members⟩ := ih walked
        refine ⟨⟨n + 1, .follow step single ?_ depth⟩, path.head step, none, aliases answers owner ++ followed, ?_, ?_⟩
        · simpa using bare
        · rw [least, minTtls, minTtls, minTtls, foldl_append]
        · intro pair
          rw [mem_append, members]
          constructor
          · rintro (here | ⟨x, rest, member⟩)
            · exact ⟨owner, .refl, here⟩
            · exact ⟨x, rest.head step, member⟩
          · rintro ⟨x, rest, member⟩
            rcases Relation.ReflTransGen.cases_head rest with rfl | ⟨next, first, rest⟩
            · exact .inl member
            · right
              have same := single next first
              rcases Relation.ReflTransGen.cases_head rest with rfl | ⟨after, second, rest⟩
              · exact ⟨target.1, .refl, by rwa [aliases_congr same]⟩
              · exact ⟨x, rest.head (alias_congr (BEq.symm same) second), member⟩

def unvisited (answers : List (ResourceRecord Name)) (visited : List Name) : List (ResourceRecord Name) :=
  answers.filter fun record => !visited.any (record.name == ·)

theorem unvisited_lt {visited : List Name} {target : Name} (step : Alias answers owner target)
    (fresh : ∀ known ∈ visited, ¬(owner == known) = true) :
    (unvisited answers (owner :: visited)).length < (unvisited answers visited).length := by
  have more : (unvisited answers (owner :: visited)) =
      (unvisited answers visited).filter fun record => !(record.name == owner) := by
    unfold unvisited
    rw [filter_filter]
    refine filter_congr fun record _ => ?_
    rw [any_cons, Bool.not_or]
  obtain ⟨pair, member, -⟩ := mem_map.mp step
  obtain ⟨record, mine, -⟩ := mem_filterMap.mp member
  obtain ⟨inside, named⟩ := mem_filter.mp mine
  have here : record ∈ unvisited answers visited := by
    refine mem_filter.mpr ⟨inside, ?_⟩
    simp only [Bool.not_eq_true', any_eq_false]
    exact fun known member same => fresh known member (BEq.trans (BEq.symm named) same)
  rw [more]
  refine length_filter_lt_length_iff_exists.mpr ⟨record, here, ?_⟩
  simp [named]

theorem walkOwners_isSome {qname : Name} (acyclic : Acyclic answers qname) (wellFormed : WellFormed answers qname)
    {turns : Nat} {visited : List Name} {ttl : Option Nat} (path : Reaches answers qname owner)
    (before : ∀ known ∈ visited, Reaches answers qname known ∧ Relation.TransGen (Alias answers) known owner)
    (enough : (unvisited answers visited).length < turns) : (walkOwners answers turns owner ttl).isSome = true := by
  induction turns generalizing owner visited ttl with
  | zero => exact absurd enough (Nat.not_lt_zero _)
  | succ turns ih =>
    have agree : Agree none (aliases answers owner) :=
      agree_none_iff.mpr fun target other first second => (wellFormed owner target path first).1 other second
    have scanned := (@scanOwner_eq_some _ _ _ answers owner ttl _).mpr ⟨agree, rfl⟩
    rw [walkOwners, scanned]
    cases last : (aliases answers owner).getLast? with
    | none => rfl
    | some target =>
      have step : Alias answers owner target.1 := mem_map_of_mem (mem_of_getLast? last)
      have bare : (owned answers owner).any isAddress = false := by
        simpa using (wellFormed owner target.1 path step).2
      have fresh : ∀ known ∈ visited, ¬(owner == known) = true :=
        fun known member => acyclic known owner (before known member).1 (before known member).2
      simp only [Option.bind_eq_bind, Option.bind_some, Option.map_some, bare, Bool.false_eq_true, if_false]
      refine @ih _ (owner :: visited) _ (path.tail step) ?_ ?_
      · intro known member
        rcases mem_cons.mp member with rfl | old
        · exact ⟨path, .single step⟩
        · exact ⟨(before known old).1, (before known old).2.tail step⟩
      · have fewer := unvisited_lt step fresh
        omega

end Reaching

end Ferrum.Dns
