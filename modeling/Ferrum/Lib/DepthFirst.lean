import Mathlib.Data.List.Perm.Subperm

namespace Ferrum.DepthFirst

variable {α : Type} {needs : α → α → Prop}

/-- What a search has finished: with each element all that it needs, and none of it on a cycle. -/
structure Finished (needs : α → α → Prop) (done : α → Prop) : Prop where
  closed : ∀ a b, done a → needs a b → done b
  acyclic : ∀ a, done a → ¬Relation.TransGen needs a a

theorem finished_none : Finished needs fun _ => False := ⟨nofun, nofun⟩

theorem Finished.reach {done : α → Prop} (finished : Finished needs done) {a b : α} (start : done a)
    (path : Relation.TransGen needs a b) : done b := by
  induction path with
  | single step => exact finished.closed _ _ start step
  | tail _ step ih => exact finished.closed _ _ ih step

theorem Finished.finish {done : α → Prop} (finished : Finished needs done) {node : α} (fresh : ¬done node)
    (children : ∀ b, needs node b → done b) : Finished needs fun a => done a ∨ a = node := by
  refine ⟨?_, ?_⟩
  · rintro a b (old | rfl) need
    · exact .inl (finished.closed a b old need)
    · exact .inl (children b need)
  · rintro a (old | rfl) cycle
    · exact finished.acyclic a old cycle
    · obtain ⟨b, need, rest⟩ := Relation.TransGen.head'_iff.mp cycle
      rcases Relation.reflTransGen_iff_eq_or_transGen.mp rest with same | path
      · exact fresh (same ▸ children b need)
      · exact fresh (finished.reach (children b need) path)

theorem Finished.congr {done done' : α → Prop} (finished : Finished needs done) (same : ∀ a, done a ↔ done' a) :
    Finished needs done' :=
  ⟨fun a b inside need => (same b).mp (finished.closed a b ((same a).mpr inside) need),
    fun a inside => finished.acyclic a ((same a).mpr inside)⟩

theorem length_le_of_nodup {count : Nat} {path : List Nat} (distinct : path.Nodup) (below : ∀ a ∈ path, a < count) :
    path.length ≤ count := by
  have subset : path ⊆ List.range count := fun a inside => List.mem_range.mpr (below a inside)
  have bound := (List.subperm_of_subset distinct subset).length_le
  rwa [List.length_range] at bound

end Ferrum.DepthFirst
