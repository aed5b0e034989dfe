import Mathlib.Data.List.Sort
import Mathlib.Data.Prod.Lex

namespace Ferrum

open List

/-- A priority queue that pops its least entry first, as the sorted list of its entries. -/
structure MinHeap (α : Type) [LinearOrder α] where
  entries : List α
  sorted : entries.Pairwise (· ≤ ·)

namespace MinHeap

variable {α σ : Type} [LinearOrder α]

def empty : MinHeap α := ⟨[], .nil⟩

variable (heap : MinHeap α)

def len : Nat := heap.entries.length

def peek : Option α := heap.entries.head?

def ofList (entries : List α) : MinHeap α :=
  ⟨entries.insertionSort (· ≤ ·), pairwise_insertionSort (· ≤ ·) entries⟩

def push (a : α) : MinHeap α :=
  ⟨heap.entries.orderedInsert (· ≤ ·) a, heap.sorted.orderedInsert a heap.entries⟩

def pop : MinHeap α := ⟨heap.entries.tail, heap.sorted.tail⟩

/-- The loop that pops entries while they are due and runs `body` on each of them. -/
def popWhileLoop (due : α → Bool) (body : σ → α → σ) : σ → List α → σ × List α
  | s, [] => (s, [])
  | s, a :: rest => if due a then popWhileLoop due body (body s a) rest else (s, a :: rest)

omit [LinearOrder α] in
theorem popWhileLoop_suffix (due : α → Bool) (body : σ → α → σ) (s : σ) (entries : List α) :
    (popWhileLoop due body s entries).2 <:+ entries := by
  induction entries generalizing s with
  | nil => exact suffix_rfl
  | cons a rest ih =>
    unfold popWhileLoop
    split
    · exact (ih (body s a)).trans (suffix_cons a rest)
    · exact suffix_rfl

def popWhile (due : α → Bool) (body : σ → α → σ) (s : σ) : σ × MinHeap α :=
  ((popWhileLoop due body s heap.entries).1,
    ⟨(popWhileLoop due body s heap.entries).2,
      heap.sorted.sublist (popWhileLoop_suffix due body s heap.entries).sublist⟩)

@[simp] theorem mem_push {heap : MinHeap α} {a b : α} : b ∈ (heap.push a).entries ↔ b = a ∨ b ∈ heap.entries :=
  mem_orderedInsert (· ≤ ·)

variable {a : α} {due : α → Bool} {body : σ → α → σ} {s : σ}

@[simp] theorem mem_ofList {entries : List α} : a ∈ (ofList entries).entries ↔ a ∈ entries :=
  mem_insertionSort (· ≤ ·)

theorem push_perm (a : α) : (heap.push a).entries.Perm (a :: heap.entries) :=
  perm_orderedInsert (· ≤ ·) a heap.entries

theorem push_nodup {heap : MinHeap α} (distinct : heap.entries.Nodup) (absent : a ∉ heap.entries) :
    (heap.push a).entries.Nodup :=
  (heap.push_perm a).nodup_iff.mpr (nodup_cons.mpr ⟨absent, distinct⟩)

theorem count_push [BEq α] [LawfulBEq α] (a : α) : (heap.push a).entries.count a = heap.entries.count a + 1 :=
  (heap.push_perm a).count_eq a |>.trans count_cons_self

theorem len_push (a : α) : (heap.push a).len = heap.len + 1 := orderedInsert_length (· ≤ ·) heap.entries a

theorem len_ofList (entries : List α) : (ofList entries).len = entries.length := length_insertionSort (· ≤ ·) entries

theorem ofList_nodup {entries : List α} : (ofList entries).entries.Nodup ↔ entries.Nodup :=
  (perm_insertionSort (· ≤ ·) entries).nodup_iff

theorem popWhile_sublist (due : α → Bool) (body : σ → α → σ) (s : σ) :
    (heap.popWhile due body s).2.entries.Sublist heap.entries := (popWhileLoop_suffix due body s heap.entries).sublist

theorem popWhile_none {heap : MinHeap α}
    (none : ∀ a ∈ heap.entries, due a = false) : heap.popWhile due body s = (s, heap) := by
  have stops : popWhileLoop due body s heap.entries = (s, heap.entries) := by
    cases same : heap.entries with
    | nil => rfl
    | cons a rest =>
      rw [popWhileLoop, none a (same ▸ mem_cons_self)]
      rfl
  obtain ⟨entries, sorted⟩ := heap
  unfold popWhile
  simp only at stops ⊢
  simp only [stops]

theorem popWhile_head {heap : MinHeap α} (first : (heap.popWhile due body s).2.peek = some a) : due a = false := by
  suffices loop : ∀ (entries : List α) (s : σ), (popWhileLoop due body s entries).2.head? = some a → due a = false from
    loop heap.entries s first
  intro entries
  induction entries with
  | nil => intro s none; simp [popWhileLoop] at none
  | cons next rest ih =>
    intro s head
    unfold popWhileLoop at head
    split at head
    · exact ih _ head
    · rename_i notDue
      cases Option.some.inj head
      simpa using notDue

theorem peek_least {heap : MinHeap α} {b : α} (first : heap.peek = some a) (member : b ∈ heap.entries) : a ≤ b := by
  obtain ⟨rest, same⟩ := List.head?_eq_some_iff.mp first
  have sorted := heap.sorted
  rw [same] at sorted member
  rcases mem_cons.mp member with rfl | later
  · exact le_refl _
  · exact (pairwise_cons.mp sorted).1 b later

theorem peek_mem {heap : MinHeap α} (first : heap.peek = some a) : a ∈ heap.entries := mem_of_head? first

theorem peek_eq_none {heap : MinHeap α} (empty : heap.peek = none) : heap.entries = [] := List.head?_eq_none_iff.mp empty

theorem popWhile_rule {heap : MinHeap α} (P : σ → List α → Prop)
    (start : P s heap.entries) (step : ∀ s a rest, due a = true → P s (a :: rest) → P (body s a) rest) :
    P (heap.popWhile due body s).1 (heap.popWhile due body s).2.entries := by
  suffices loop : ∀ entries s, P s entries →
      P (popWhileLoop due body s entries).1 (popWhileLoop due body s entries).2 from loop heap.entries s start
  intro entries
  induction entries with
  | nil => exact fun s held => held
  | cons a rest ih =>
    intro s held
    unfold popWhileLoop
    split
    · rename_i isDue
      exact ih (body s a) (step s a rest isDue held)
    · exact held

theorem popWhile_not_due {heap : MinHeap α} (ordered : ∀ a b, a ≤ b → due b = true → due a = true)
    (member : a ∈ (heap.popWhile due body s).2.entries) : due a = false := by
  suffices loop : ∀ (entries : List α) (s : σ), entries.Pairwise (· ≤ ·) →
      a ∈ (popWhileLoop due body s entries).2 → due a = false from loop heap.entries s heap.sorted member
  intro entries
  induction entries with
  | nil => intro s _ inside; simp [popWhileLoop] at inside
  | cons first rest ih =>
    intro s sorted inside
    obtain ⟨least, sortedRest⟩ := pairwise_cons.mp sorted
    unfold popWhileLoop at inside
    split at inside
    · exact ih _ sortedRest inside
    · rename_i notDue
      rcases mem_cons.mp inside with rfl | later
      · simpa using notDue
      · by_contra isDue
        exact notDue (ordered first a (least a later) (by simpa using isDue))

end MinHeap

end Ferrum

namespace Ferrum.HeapOrder

open List

variable {τ : Type} [LinearOrder τ]

def parent (child : Nat) : Nat := (child - 1) / 2

theorem parent_lt {child : Nat} (below : 0 < child) : parent child < child := by
  unfold parent
  omega

def Ordered (length : Nat) (key : Nat → τ) : Prop := ∀ child, 0 < child → child < length → key (parent child) ≤ key child

/-- Only pairs that touch the hole may be out of order, and around the hole the order holds. -/
structure Near (length : Nat) (key : Nat → τ) (hole : Nat) : Prop where
  away : ∀ child, 0 < child → child < length → child ≠ hole → parent child ≠ hole → key (parent child) ≤ key child
  around : 0 < hole → ∀ child, 0 < child → child < length → parent child = hole → key (parent hole) ≤ key child

def Above (key : Nat → τ) (hole : Nat) : Prop := 0 < hole → key (parent hole) ≤ key hole

def Below (length : Nat) (key : Nat → τ) (hole : Nat) : Prop :=
  ∀ child, 0 < child → child < length → parent child = hole → key hole ≤ key child

def swapped (key : Nat → τ) (left right : Nat) : Nat → τ := fun position =>
  if position = left then key right else if position = right then key left else key position

variable {length : Nat} {key : Nat → τ} {hole : Nat}

theorem Ordered.of_near (near : Near length key hole) (above : Above key hole) (below : Below length key hole) :
    Ordered length key := by
  intro child positive inside
  by_cases same : child = hole
  · subst same
    exact above positive
  · by_cases under : parent child = hole
    · rw [under]
      exact below child positive inside under
    · exact near.away child positive inside same under

theorem Ordered.root (ordered : Ordered length key) (position : Nat) (inside : position < length) : key 0 ≤ key position := by
  induction position using Nat.strongRecOn with
  | ind position ih =>
    by_cases root : position = 0
    · rw [root]
    · have up := parent_lt (Nat.pos_of_ne_zero root)
      exact le_trans (ih (parent position) up (by omega)) (ordered position (Nat.pos_of_ne_zero root) inside)

theorem Ordered.near_last (ordered : Ordered length key) : Near (length + 1) key length := by
  refine ⟨fun child positive bound other _ => ordered child positive (by omega), fun _ child positive bound under => ?_⟩
  have deeper := parent_lt positive
  omega

theorem below_last : Below (length + 1) key length := by
  intro child positive bound under
  have deeper := parent_lt positive
  omega

theorem Near.up (near : Near length key hole) (positive : 0 < hole) (inside : hole < length) (less : key hole < key (parent hole)) :
    Near length (swapped key hole (parent hole)) (parent hole) ∧
      Below length (swapped key hole (parent hole)) (parent hole) := by
  have up := parent_lt positive
  have at_hole : swapped key hole (parent hole) hole = key (parent hole) := by simp [swapped]
  have at_parent : swapped key hole (parent hole) (parent hole) = key hole := by
    simp [swapped, Nat.ne_of_lt up]
  have at_other : ∀ position, position ≠ hole → position ≠ parent hole →
      swapped key hole (parent hole) position = key position := by
    intro position first second
    simp [swapped, first, second]
  have sibling : ∀ child, 0 < child → child < length → child ≠ hole → parent child = parent hole →
      key (parent hole) ≤ key child := by
    intro child deeper bound other under
    have fine := near.away child deeper bound other (by omega)
    rwa [under] at fine
  refine ⟨⟨?_, ?_⟩, ?_⟩
  · intro child deeper bound notParent notUnder
    by_cases same : child = hole
    · subst same
      exact absurd rfl notUnder
    · rw [at_other child same notParent]
      by_cases under : parent child = hole
      · rw [under, at_hole]
        exact near.around positive child deeper bound under
      · rw [at_other _ under notUnder]
        exact near.away child deeper bound same under
  · intro higher child deeper bound under
    have top := parent_lt higher
    have grand : key (parent (parent hole)) ≤ key (parent hole) :=
      near.away (parent hole) higher (by omega) (by omega) (by omega)
    rw [at_other (parent (parent hole)) (by omega) (by omega)]
    by_cases same : child = hole
    · rw [same, at_hole]
      exact grand
    · rw [at_other child same (by have := parent_lt deeper; omega)]
      exact le_trans grand (sibling child deeper bound same under)
  · intro child deeper bound under
    rw [at_parent]
    by_cases same : child = hole
    · rw [same, at_hole]
      exact le_of_lt less
    · rw [at_other child same (by have := parent_lt deeper; omega)]
      exact le_of_lt (lt_of_lt_of_le less (sibling child deeper bound same under))

theorem Near.down (near : Near length key hole) {child : Nat} (positive : 0 < child) (inside : child < length)
    (under : parent child = hole) (less : key child < key hole)
    (least : ∀ other, 0 < other → other < length → parent other = hole → key child ≤ key other) :
    Near length (swapped key hole child) child ∧ Above (swapped key hole child) child := by
  have deeper := parent_lt positive
  rw [under] at deeper
  have at_hole : swapped key hole child hole = key child := by simp [swapped]
  have at_child : swapped key hole child child = key hole := by simp [swapped, Nat.ne_of_gt deeper]
  have at_other : ∀ position, position ≠ hole → position ≠ child → swapped key hole child position = key position := by
    intro position first second
    simp [swapped, first, second]
  refine ⟨⟨?_, ?_⟩, ?_⟩
  · intro other above bound notChild notUnder
    by_cases same : other = hole
    · subst same
      have up := parent_lt above
      rw [at_hole, at_other _ (by omega) (by omega)]
      exact near.around above child positive inside under
    · rw [at_other other same notChild]
      by_cases sibling : parent other = hole
      · rw [sibling, at_hole]
        exact least other above bound sibling
      · rw [at_other _ sibling notUnder]
        exact near.away other above bound same sibling
  · intro _ other above bound grand
    have further := parent_lt above
    rw [under, at_hole, at_other other (by omega) (by omega)]
    have fine := near.away other above bound (by omega) (by omega)
    rwa [grand] at fine
  · intro _
    rw [under, at_hole, at_child]
    exact le_of_lt less

end Ferrum.HeapOrder
