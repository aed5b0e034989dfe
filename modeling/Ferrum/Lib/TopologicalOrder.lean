import Mathlib.Data.List.Infix
import Mathlib.Data.List.Lex
import Mathlib.Data.List.Nodup
import Mathlib.Order.Lattice

namespace Ferrum.TopologicalOrder

open List

variable {α : Type} (member : α → Prop) (needs : α → α → Prop)

def Available (done : List α) (a : α) : Prop := member a ∧ a ∉ done ∧ ∀ b, needs a b → b ∈ done

/-- Each element was available when its turn came. -/
def Follows (done rest : List α) : Prop :=
  ∀ front a back, rest = front ++ a :: back → Available member needs (done ++ front) a

/-- Each element was the smallest available one when its turn came. -/
def Greedy [LE α] (done rest : List α) : Prop :=
  ∀ front a back, rest = front ++ a :: back →
    Available member needs (done ++ front) a ∧ ∀ b, Available member needs (done ++ front) b → a ≤ b

variable {member needs}

variable {done rest : List α} {a : α}

theorem Follows.head (follows : Follows member needs done (a :: rest)) : Available member needs done a := by
  have first := follows [] a rest rfl
  rwa [append_nil] at first

theorem Follows.tail (follows : Follows member needs done (a :: rest)) : Follows member needs (done ++ [a]) rest := by
  intro front b back split
  have later := follows (a :: front) b back (by rw [split]; rfl)
  rwa [append_assoc]

theorem Follows.needed {b : α} (follows : Follows member needs [] done) (inside : a ∈ done)
    (need : needs a b) : b ∈ done := by
  obtain ⟨front, back, split⟩ := append_of_mem inside
  have before := (follows front a back split).2.2 b need
  rw [split]
  exact mem_append_left _ before

theorem Follows.nodup (follows : Follows member needs [] done) : done.Nodup := by
  induction done using List.reverseRecOn with
  | nil => exact nodup_nil
  | append_singleton front a ih =>
    have fresh := (follows front a [] rfl).2.1
    rw [nodup_append]
    refine ⟨ih fun left b right split => follows left b (right ++ [a]) (by rw [split]; simp), nodup_singleton a, ?_⟩
    intro x left y right same
    rw [mem_singleton] at right
    subst same right
    exact fresh left

theorem Follows.mem (follows : Follows member needs [] done) (inside : a ∈ done) : member a := by
  obtain ⟨front, back, split⟩ := append_of_mem inside
  exact (follows front a back split).1

theorem Follows.before [DecidableEq α] {b : α} (follows : Follows member needs [] done)
    (inside : a ∈ done) (need : needs a b) : done.idxOf b < done.idxOf a := by
  obtain ⟨front, back, split⟩ := append_of_mem inside
  have turn : Available member needs front a := follows front a back split
  have before : b ∈ front := turn.2.2 b need
  rw [split, idxOf_append_of_mem before, idxOf_append_of_notMem turn.2.1, idxOf_cons_self]
  have bound := idxOf_lt_length_of_mem before
  omega

theorem follows_of_before [DecidableEq α] {order : List α} (distinct : order.Nodup) (all : ∀ a, a ∈ order ↔ member a)
    (before : ∀ a b, needs a b → order.idxOf b < order.idxOf a) : Follows member needs [] order := by
  intro front a back split
  have inside : a ∈ order := by rw [split]; simp
  have apart := distinct
  rw [split, nodup_append] at apart
  have fresh : a ∉ front := fun here => apart.2.2 a here a (by simp) rfl
  refine ⟨(all a).mp inside, fresh, fun b need => ?_⟩
  have earlier := before a b need
  rw [split, idxOf_append_of_notMem fresh, idxOf_cons_self] at earlier
  by_contra missing
  rw [nil_append] at missing
  rw [idxOf_append_of_notMem missing] at earlier
  omega

theorem Greedy.follows [LE α] (greedy : Greedy member needs done rest) : Follows member needs done rest :=
  fun front a back split => (greedy front a back split).1

theorem Greedy.nil [LE α] (done : List α) : Greedy member needs done [] := by
  intro front a back split
  simp at split

theorem Greedy.snoc [LE α] (greedy : Greedy member needs [] done)
    (available : Available member needs done a) (least : ∀ b, Available member needs done b → a ≤ b) :
    Greedy member needs [] (done ++ [a]) := by
  intro front b back split
  rcases eq_nil_or_concat back with none | ⟨back', last, shape⟩
  · subst none
    obtain ⟨same, single⟩ := append_inj' split rfl
    cases List.cons.inj single with
    | intro sameHead _ =>
      subst same sameHead
      exact ⟨available, least⟩
  · subst shape
    have regroup : done ++ [a] = (front ++ b :: back') ++ [last] := by simpa using split
    obtain ⟨same, -⟩ := append_inj' regroup rfl
    exact greedy front b back' same

theorem Greedy.le_of_follows [LinearOrder α] {other : List α} (greedy : Greedy member needs done rest)
    (follows : Follows member needs done other) (length : rest.length = other.length) :
    other = rest ∨ List.Lex (· < ·) rest other := by
  induction rest generalizing done other with
  | nil =>
    cases other with
    | nil => exact .inl rfl
    | cons b other => simp at length
  | cons a rest ih =>
    cases other with
    | nil => simp at length
    | cons b other =>
      have first := greedy [] a rest rfl
      rw [append_nil] at first
      rcases lt_or_eq_of_le (first.2 b follows.head) with less | same
      · exact .inr (.rel less)
      · subst same
        have later : Greedy member needs (done ++ [a]) rest := by
          intro front c back split
          have turn := greedy (a :: front) c back (by rw [split]; rfl)
          rwa [append_assoc]
        rcases ih later follows.tail (by simpa using length) with equal | below
        · exact .inl (by rw [equal])
        · exact .inr (.cons below)

theorem Greedy.map {β : Type} [LE α] [LE β] {member' : β → Prop} {needs' : β → β → Prop} {f : α → β}
    (greedy : Greedy member needs [] done) (into : ∀ a, member a → member' (f a))
    (onto : ∀ b, member' b → ∃ a, member a ∧ f a = b) (injective : ∀ a b, member a → member b → f a = f b → a = b)
    (mono : ∀ a b, member a → member b → a ≤ b → f a ≤ f b) (closed : ∀ x y, needs' x y → member' y)
    (target : ∀ a b, needs a b → member b) (same : ∀ a b, member a → member b → (needs' (f a) (f b) ↔ needs a b)) :
    Greedy member' needs' [] (done.map f) := by
  have transfer : ∀ front : List α, (∀ b ∈ front, member b) → ∀ a, member a →
      (Available member' needs' (front.map f) (f a) ↔ Available member needs front a) := by
    intro front inside a memberA
    constructor
    · rintro ⟨-, fresh, all⟩
      refine ⟨memberA, fun here => fresh (mem_map_of_mem here), fun b need => ?_⟩
      obtain ⟨c, there, equal⟩ := mem_map.mp (all (f b) ((same a b memberA (target a b need)).mpr need))
      exact injective c b (inside c there) (target a b need) equal ▸ there
    · rintro ⟨-, fresh, all⟩
      refine ⟨into a memberA, fun here => ?_, fun y need => ?_⟩
      · obtain ⟨c, there, equal⟩ := mem_map.mp here
        exact fresh (injective c a (inside c there) memberA equal ▸ there)
      · obtain ⟨b, memberB, equal⟩ := onto y (closed _ _ need)
        subst equal
        exact mem_map_of_mem (all b ((same a b memberA memberB).mp need))
  intro front b back split
  obtain ⟨front', rest, whole, frontEq, restEq⟩ := map_eq_append_iff.mp split
  obtain ⟨a, back', restSplit, headEq, -⟩ := map_eq_cons_iff.mp restEq
  subst restSplit frontEq headEq
  obtain ⟨available, least⟩ := greedy front' a back' whole
  rw [nil_append] at available least
  have inside : ∀ c ∈ front', member c := fun c here =>
    greedy.follows.mem (by rw [whole]; exact mem_append_left _ here)
  refine ⟨(transfer front' inside a available.1).mpr available, fun y other => ?_⟩
  obtain ⟨c, memberC, equal⟩ := onto y other.1
  subst equal
  exact mono a c available.1 memberC (least c ((transfer front' inside c memberC).mp other))

theorem acyclic_of_before [DecidableEq α] {order : List α} (before : ∀ a b, needs a b → order.idxOf b < order.idxOf a)
    (a : α) : ¬Relation.TransGen needs a a := by
  have descends : ∀ b, Relation.TransGen needs a b → order.idxOf b < order.idxOf a := by
    intro b path
    induction path with
    | single need => exact before _ _ need
    | tail _ need ih => exact Nat.lt_trans (before _ _ need) ih
  exact fun loop => Nat.lt_irrefl _ (descends a loop)

end Ferrum.TopologicalOrder
