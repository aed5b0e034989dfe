import Mathlib.Data.Fin.Basic
import Mathlib.Data.Nat.ModEq

namespace Ferrum

open Function List

/-- A queue of at most `depth` values in a fixed array, from `head` on and around its end. -/
structure RingQueue (α : Type) (depth : Nat) where
  entries : Fin depth → Option α
  head : Nat
  len : Nat

namespace RingQueue

variable {α : Type} {depth : Nat} [NeZero depth]

def new : RingQueue α depth := { entries := fun _ => none, head := 0, len := 0 }

def tail (queue : RingQueue α depth) : Fin depth := Fin.ofNat depth (queue.head + queue.len)

def pushBack (queue : RingQueue α depth) (value : α) : RingQueue α depth :=
  { queue with entries := update queue.entries queue.tail (some value), len := queue.len + 1 }

def popFront (queue : RingQueue α depth) : Option α × RingQueue α depth :=
  if queue.len = 0 then (none, queue)
  else
    (queue.entries (Fin.ofNat depth queue.head),
      { entries := update queue.entries (Fin.ofNat depth queue.head) none
        head := (queue.head + 1) % depth
        len := queue.len - 1 })

/-- The queue holds these values in this order, and its other places are empty. -/
structure Holds (queue : RingQueue α depth) (values : List α) : Prop where
  head : queue.head < depth
  len : queue.len = values.length
  bounded : values.length ≤ depth
  entries : ∀ k, k < depth → queue.entries (Fin.ofNat depth (queue.head + k)) = values[k]?

theorem holds_new : (new : RingQueue α depth).Holds [] where
  head := Nat.pos_of_ne_zero (NeZero.ne depth)
  len := rfl
  bounded := Nat.zero_le _
  entries := fun _ _ => rfl

variable {queue : RingQueue α depth} {values : List α}

theorem ofNat_add_inj {head j k : Nat} (first : j < depth) (second : k < depth)
    (same : Fin.ofNat depth (head + j) = Fin.ofNat depth (head + k)) : j = k := by
  have values : (head + j) % depth = (head + k) % depth := congrArg Fin.val same
  have shifted : j ≡ k [MOD depth] := Nat.ModEq.add_left_cancel' head values
  rwa [Nat.ModEq, Nat.mod_eq_of_lt first, Nat.mod_eq_of_lt second] at shifted

theorem Holds.tail_free (holds : queue.Holds values) (room : values.length < depth) : queue.entries queue.tail = none := by
  rw [tail, holds.len, holds.entries _ room]
  simp

theorem Holds.pushBack (holds : queue.Holds values) (room : values.length < depth) (value : α) :
    (queue.pushBack value).Holds (values ++ [value]) where
  head := holds.head
  len := by simp [RingQueue.pushBack, holds.len]
  bounded := by
    rw [length_append]
    exact room
  entries := by
    intro k small
    simp only [RingQueue.pushBack, tail, holds.len]
    by_cases last : k = values.length
    · subst last
      rw [update_self]
      simp
    · rw [update_of_ne (fun same => last (ofNat_add_inj small room same)), holds.entries k small]
      rcases Nat.lt_or_ge k values.length with inside | outside
      · rw [List.getElem?_append_left inside]
      · rw [List.getElem?_eq_none outside, List.getElem?_eq_none]
        rw [length_append, length_singleton]
        omega

theorem Holds.popFront_nil (holds : queue.Holds []) : queue.popFront = (none, queue) := by
  have empty : queue.len = 0 := holds.len
  rw [popFront, if_pos empty]

theorem Holds.popFront_cons {value : α} (holds : queue.Holds (value :: values)) :
    queue.popFront.1 = some value ∧ queue.popFront.2.Holds values := by
  have filled : queue.len ≠ 0 := by simp [holds.len]
  have positive : 0 < depth := Nat.pos_of_ne_zero (NeZero.ne depth)
  have shorter : values.length < depth := holds.bounded
  rw [popFront, if_neg filled]
  refine ⟨?_, ?_, ?_, shorter.le, ?_⟩
  · have first := holds.entries 0 positive
    simpa using first
  · exact Nat.mod_lt _ positive
  · simp [holds.len]
  · intro k small
    have place : Fin.ofNat depth ((queue.head + 1) % depth + k) = Fin.ofNat depth (queue.head + (k + 1)) := by
      apply Fin.ext
      simp only [Fin.val_ofNat]
      rw [Nat.mod_add_mod]
      congr 1
      omega
    simp only [place]
    rcases Nat.lt_or_ge (k + 1) depth with inside | wrapped
    · have apart : Fin.ofNat depth (queue.head + (k + 1)) ≠ Fin.ofNat depth queue.head := by
        intro same
        have distance : k + 1 = 0 := @ofNat_add_inj depth _ queue.head (k + 1) 0 inside positive (by simpa using same)
        omega
      rw [update_of_ne apart, holds.entries (k + 1) inside]
      simp
    · have whole : k + 1 = depth := by omega
      have around : Fin.ofNat depth (queue.head + (k + 1)) = Fin.ofNat depth queue.head := by
        apply Fin.ext
        simp [whole]
      rw [around, update_self, List.getElem?_eq_none (by omega)]

end RingQueue

/-- Slots that are reused in a ring: from `head` on and around the end they stand for these values. -/
structure SlotRing {σ α : Type} (stands : σ → α → Prop) (slots : List σ) (head : Nat) (values : List α) : Prop where
  inside : head < slots.length
  bounded : values.length ≤ slots.length
  entries : ∀ k value, values[k]? = some value →
    ∃ slot, slots[(head + k) % slots.length]? = some slot ∧ stands slot value

namespace SlotRing

variable {σ α : Type} {stands : σ → α → Prop} {slots : List σ} {head : Nat} {values : List α}

theorem empty (inside : head < slots.length) : SlotRing stands slots head [] :=
  ⟨inside, Nat.zero_le _, fun _ _ found => by cases found⟩

theorem index_inj {n head j k : Nat} (first : j < n) (second : k < n) (same : (head + j) % n = (head + k) % n) : j = k := by
  have shifted : j ≡ k [MOD n] := Nat.ModEq.add_left_cancel' head same
  rwa [Nat.ModEq, Nat.mod_eq_of_lt first, Nat.mod_eq_of_lt second] at shifted

section

variable (ring : SlotRing stands slots head values)
include ring

theorem tail_lt : (head + values.length) % slots.length < slots.length :=
  Nat.mod_lt _ (Nat.zero_lt_of_lt ring.inside)

theorem write_tail (room : values.length < slots.length) (slot : σ) :
    SlotRing stands (slots.set ((head + values.length) % slots.length) slot) head values := by
  refine ⟨by simpa using ring.inside, by simpa using ring.bounded, fun k value found => ?_⟩
  obtain ⟨kept, atK, holds⟩ := ring.entries k value found
  have inside := (List.getElem?_eq_some_iff.mp found).1
  refine ⟨kept, ?_, holds⟩
  rw [length_set, List.getElem?_set_ne, atK]
  intro same
  have together := index_inj room (inside.trans room) same
  omega

theorem push {slot : σ} {value : α} (room : values.length < slots.length) (holds : stands slot value) :
    SlotRing stands (slots.set ((head + values.length) % slots.length) slot) head (values ++ [value]) := by
  have written := ring.write_tail room slot
  refine ⟨written.inside, by rw [length_append, length_singleton, length_set]; exact room, fun k found atK => ?_⟩
  rcases Nat.lt_or_ge k values.length with before | after
  · rw [List.getElem?_append_left before] at atK
    exact written.entries k found atK
  · have bound := (List.getElem?_eq_some_iff.mp atK).1
    rw [length_append, length_singleton] at bound
    have last : k = values.length := by omega
    subst last
    rw [List.getElem?_append_right (Nat.le_refl _), Nat.sub_self] at atK
    cases atK
    refine ⟨slot, ?_, holds⟩
    rw [length_set, List.getElem?_set_self ring.tail_lt]

end

theorem front {value : α} (ring : SlotRing stands slots head (value :: values)) :
    ∃ slot, slots[head]? = some slot ∧ stands slot value := by
  obtain ⟨slot, found, holds⟩ := ring.entries 0 value rfl
  rw [Nat.add_zero, Nat.mod_eq_of_lt ring.inside] at found
  exact ⟨slot, found, holds⟩

theorem pop {value : α} (ring : SlotRing stands slots head (value :: values)) (slot : σ) :
    SlotRing stands (slots.set head slot) ((head + 1) % slots.length) values := by
  have positive := Nat.zero_lt_of_lt ring.inside
  have bounded := ring.bounded
  rw [length_cons] at bounded
  refine ⟨by rw [length_set]; exact Nat.mod_lt _ positive, by rw [length_set]; omega, fun k found atK => ?_⟩
  obtain ⟨kept, place, holds⟩ := ring.entries (k + 1) found atK
  have inside := (List.getElem?_eq_some_iff.mp atK).1
  refine ⟨kept, ?_, holds⟩
  rw [length_set, Nat.mod_add_mod, Nat.add_right_comm, Nat.add_assoc, List.getElem?_set_ne, place]
  intro same
  have first : (head + 0) % slots.length = (head + (k + 1)) % slots.length := by
    rw [Nat.add_zero, Nat.mod_eq_of_lt ring.inside]
    exact same
  have together := index_inj positive (by omega) first
  omega

end SlotRing

end Ferrum
