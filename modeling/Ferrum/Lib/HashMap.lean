import Mathlib.Data.List.AList

namespace Ferrum

open Function

universe u v

/-- A finite map with unique keys. Iteration order carries no meaning for any user of it. -/
abbrev HashMap (K : Type u) (V : Type v) := AList fun _ : K => V

namespace HashMap

variable {K : Type u} {V : Type v}

def len (map : HashMap K V) : Nat := map.entries.length

def values (map : HashMap K V) : List V := map.entries.map Sigma.snd

/-- Keeps the entries that satisfy the predicate. -/
def retain (keep : K → V → Bool) (map : HashMap K V) : HashMap K V where
  entries := map.entries.filter fun entry => keep entry.1 entry.2
  nodupKeys := List.NodupKeys.sublist List.filter_sublist map.nodupKeys

@[simp] theorem len_empty : len (∅ : HashMap K V) = 0 := rfl

theorem len_eq_keys (map : HashMap K V) : map.len = map.keys.length := by
  simp [len, AList.keys, List.keys]

variable {map : HashMap K V} {key : K} {value : V}

theorem len_pos (member : key ∈ map) : 0 < map.len := by
  rw [len_eq_keys]
  exact List.length_pos_of_mem (AList.mem_keys.mp member)

theorem len_le {left right : HashMap K V} (known : ∀ key, key ∈ left → key ∈ right) : left.len ≤ right.len := by
  rw [len_eq_keys, len_eq_keys]
  refine (List.subperm_of_subset left.keys_nodup fun key member => ?_).length_le
  exact AList.mem_keys.mp (known key (AList.mem_keys.mpr member))

variable [DecidableEq K]

theorem len_insert (value : V) (absent : key ∉ map) : len (map.insert key value) = map.len + 1 := by
  rw [len, AList.entries_insert_of_notMem absent]
  rfl

theorem len_erase (member : key ∈ map) : len (map.erase key) = map.len - 1 := by
  rw [len_eq_keys, len_eq_keys, AList.keys_erase]
  exact List.length_erase_of_mem (AList.mem_keys.mp member)

theorem len_erase_absent (absent : key ∉ map) : len (map.erase key) = map.len := by
  rw [len_eq_keys, len_eq_keys, AList.keys_erase, List.erase_of_not_mem fun member => absent (AList.mem_keys.mpr member)]

theorem len_insert_mem (value : V) (member : key ∈ map) : len (map.insert key value) = map.len := by
  have erased := len_erase member
  have positive := len_pos member
  rw [len, AList.entries_insert]
  change len (map.erase key) + 1 = map.len
  omega

theorem erase_insert (value : V) (absent : key ∉ map) : (map.insert key value).erase key = map := by
  refine AList.ext ?_
  change List.kerase key (map.insert key value).entries = map.entries
  rw [AList.entries_insert_of_notMem absent]
  exact List.kerase_cons_eq rfl

theorem mem_of_lookup (found : map.lookup key = some value) : key ∈ map :=
  AList.lookup_isSome.mp (by rw [found]; rfl)

theorem mem_entries_iff : ⟨key, value⟩ ∈ map.entries ↔ map.lookup key = some value :=
  (AList.mem_lookup_iff (s := map)).symm

theorem mem_values : value ∈ map.values ↔ ∃ key, map.lookup key = some value := by
  constructor
  · intro member
    obtain ⟨⟨key, found⟩, inside, rfl⟩ := List.mem_map.mp member
    exact ⟨key, mem_entries_iff.mp inside⟩
  · rintro ⟨key, found⟩
    exact List.mem_map.mpr ⟨⟨key, value⟩, mem_entries_iff.mpr found, rfl⟩

theorem lookup_insert_eq (map : HashMap K V) (key other : K) (value : V) :
    (map.insert key value).lookup other = if other = key then some value else map.lookup other := by
  split
  · rename_i same
    subst same
    exact AList.lookup_insert map
  · rename_i different
    exact AList.lookup_insert_ne different

theorem lookup_erase_eq (map : HashMap K V) (key other : K) :
    (map.erase key).lookup other = if other = key then none else map.lookup other := by
  split
  · rename_i same
    subst same
    exact AList.lookup_erase other map
  · rename_i different
    exact AList.lookup_erase_ne different

theorem lookup_retain (keep : K → V → Bool) (map : HashMap K V) (key : K) :
    (map.retain keep).lookup key = (map.lookup key).filter (keep key) := by
  apply Option.ext
  intro value
  rw [← mem_entries_iff, Option.filter_eq_some_iff, ← mem_entries_iff]
  exact List.mem_filter

end HashMap

variable {K : Type u} {V : Type v} [DecidableEq K]

/-- The index maps a key to a slot exactly when the slot holds a value with this key. -/
def Indexes (index : HashMap K Nat) (slots : Nat → Option V) (key : V → K) : Prop :=
  ∀ entry slot, index.lookup entry = some slot ↔ ∃ value, slots slot = some value ∧ key value = entry

variable {slots : Nat → Option V} {slot other : Nat} {value : V}

theorem update_eq_some {content : Option V} : update slots slot content other = some value ↔
      other = slot ∧ content = some value ∨ other ≠ slot ∧ slots other = some value := by
  rw [update_apply]
  split
  · rename_i same
    simp [same]
  · rename_i different
    simp [different]

theorem update_none_eq_some :
    update slots slot none other = some value ↔ other ≠ slot ∧ slots other = some value := by
  rw [update_eq_some]
  simp

namespace Indexes

variable {index : HashMap K Nat} {slots : Nat → Option V} {key : V → K}

section

variable (indexes : Indexes index slots key)
include indexes

variable {slot : Nat} {value : V}

theorem lookup (held : slots slot = some value) : index.lookup (key value) = some slot :=
  (indexes _ _).mpr ⟨value, held, rfl⟩

theorem unique {other : Nat} {another : V} (held : slots slot = some value)
    (also : slots other = some another) (same : key value = key another) : slot = other := by
  have found := indexes.lookup held
  rw [same, indexes.lookup also] at found
  exact (Option.some.inj found).symm

theorem congr {after : Nat → Option V}
    (back : ∀ slot value, after slot = some value → ∃ old, slots slot = some old ∧ key old = key value)
    (forth : ∀ slot old, slots slot = some old → ∃ value, after slot = some value ∧ key old = key value) :
    Indexes index after key := by
  intro entry slot
  rw [indexes entry slot]
  constructor
  · rintro ⟨old, held, rfl⟩
    obtain ⟨value, now, same⟩ := forth slot old held
    exact ⟨value, now, same.symm⟩
  · rintro ⟨value, now, rfl⟩
    exact back slot value now

theorem erase (held : slots slot = some value) : Indexes (index.erase (key value)) (update slots slot none) key := by
  intro entry other
  rw [HashMap.lookup_erase_eq]
  constructor
  · intro found
    split at found
    · cases found
    · rename_i different
      obtain ⟨another, also, rfl⟩ := (indexes _ _).mp found
      refine ⟨another, update_none_eq_some.mpr ⟨?_, also⟩, rfl⟩
      rintro rfl
      cases held.symm.trans also
      exact different rfl
  · rintro ⟨another, after, rfl⟩
    obtain ⟨different, also⟩ := update_none_eq_some.mp after
    rw [if_neg fun same => different (indexes.unique also held same)]
    exact indexes.lookup also

theorem insert {slot : Nat} {value : V} (free : slots slot = none) (absent : index.lookup (key value) = none) :
    Indexes (index.insert (key value) slot) (update slots slot (some value)) key := by
  intro entry other
  rw [HashMap.lookup_insert_eq]
  split
  · rename_i same
    subst same
    constructor
    · intro found
      cases found
      exact ⟨value, update_eq_some.mpr (.inl ⟨rfl, rfl⟩), rfl⟩
    · rintro ⟨another, after, same⟩
      rcases update_eq_some.mp after with ⟨rfl, _⟩ | ⟨_, old⟩
      · rfl
      · have found := indexes.lookup old
        rw [same, absent] at found
        cases found
  · rename_i different
    rw [indexes entry other]
    constructor
    · rintro ⟨another, old, rfl⟩
      refine ⟨another, update_eq_some.mpr (.inr ⟨?_, old⟩), rfl⟩
      rintro rfl
      simp [free] at old
    · rintro ⟨another, after, rfl⟩
      rcases update_eq_some.mp after with ⟨_, isNew⟩ | ⟨_, old⟩
      · cases isNew
        exact absurd rfl different
      · exact ⟨another, old, rfl⟩

end

end Indexes

end Ferrum
