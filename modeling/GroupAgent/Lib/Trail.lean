import Mathlib.Data.List.Basic
import Mathlib.Logic.Relation

/-!
# Trails along a relation

A walk that keeps the elements it has left behind. Along a relation without cycles (`Acyclic`) a
walk never comes back to one of them (`Trail.notMem`), so inside a finite range it ends.

* `Trail.start`, `Trail.step`: a walk begins nowhere, and goes on along the relation.
* `Trail.length_lt`: a walk among `n` elements has left fewer than `n` behind.

It bounds a loop that follows the relation without a count of its own, by a bound on what it may
pass.
-/

namespace GroupAgent.Lib

variable {α : Type} {r : α → α → Prop}

/-- No element leads back to itself. -/
def Acyclic (r : α → α → Prop) : Prop := ∀ a, ¬ Relation.TransGen r a a

/-- The distinct elements a walk has left behind on its way to `a`. -/
structure Trail (r : α → α → Prop) (visited : List α) (a : α) : Prop where
  distinct : visited.Nodup
  leads : ∀ b ∈ visited, Relation.TransGen r b a

theorem Trail.start (a : α) : Trail r [] a := ⟨List.nodup_nil, by simp⟩

/-- A walk does not come back to where it has been. -/
theorem Trail.notMem (hr : Acyclic r) {visited : List α} {a : α} (h : Trail r visited a) :
    a ∉ visited := fun ha => hr a (h.leads a ha)

theorem Trail.step (hr : Acyclic r) {visited : List α} {a b : α} (h : Trail r visited a)
    (hab : r a b) : Trail r (a :: visited) b where
  distinct := List.nodup_cons.mpr ⟨h.notMem hr, h.distinct⟩
  leads := by
    intro c hc
    rcases List.mem_cons.mp hc with rfl | hc
    · exact .single hab
    · exact (h.leads c hc).tail hab

/-- Inside a finite range a walk is shorter than the range is long. -/
theorem Trail.length_lt (hr : Acyclic r) {visited range : List α} {a : α} (h : Trail r visited a)
    (hrange : ∀ b ∈ a :: visited, b ∈ range) : visited.length < range.length := by
  have hnodup : (a :: visited).Nodup := List.nodup_cons.mpr ⟨h.notMem hr, h.distinct⟩
  exact hnodup.length_le_of_subset hrange

end GroupAgent.Lib
