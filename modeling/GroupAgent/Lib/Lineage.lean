import Mathlib.Data.List.Basic

/-!
# Parent-linked histories

A history is a list whose elements name their predecessor: each has a key, and the key of the one
it follows as its parent. `Linked key parent prev l` says that `l` is such a chain behind `prev`,
and `tip` is where the next element has to link to.

* `linked_append`, `linked_snoc`: chains are joined, and extended, at their tip.
* `lastKey`: the key of the last element, if there is one. `tip_none`, `tip_some`: it is the tip,
  or else where the chain began.

Keys may repeat here; that the elements of a chain have different keys is for whoever builds one.
-/

namespace GroupAgent.Lib

variable {α κ : Type} {key : α → κ} {parent : α → Option κ}

/-- The first element's parent is `prev`, every other's the key of the one before it. -/
def Linked (key : α → κ) (parent : α → Option κ) : Option κ → List α → Prop
  | _, [] => True
  | prev, a :: l => parent a = prev ∧ Linked key parent (some (key a)) l

/-- The key of the last element, or `prev` when there is none. -/
def tip (key : α → κ) : Option κ → List α → Option κ
  | prev, [] => prev
  | _, a :: l => tip key (some (key a)) l

theorem tip_append {prev : Option κ} {l l' : List α} :
    tip key prev (l ++ l') = tip key (tip key prev l) l' := by
  induction l generalizing prev with
  | nil => rfl
  | cons a l ih => exact ih

theorem tip_none (l : List α) : tip key none l = l.getLast?.map key := by
  have hcons : ∀ (a : α) (l : List α), tip key (some (key a)) l = ((a :: l).getLast?).map key := by
    intro a l
    induction l generalizing a with
    | nil => rfl
    | cons b l ih =>
      rw [List.getLast?_cons_cons]
      exact ih b
  cases l with
  | nil => rfl
  | cons a l => exact hcons a l

/-- The key of the last element of a chain behind an element of key `k`. -/
def lastKey (key : α → κ) : κ → List α → κ
  | k, [] => k
  | _, a :: l => lastKey key (key a) l

theorem tip_some (k : κ) (l : List α) : tip key (some k) l = some (lastKey key k l) := by
  induction l generalizing k with
  | nil => rfl
  | cons a l ih => exact ih (key a)

theorem lastKey_snoc (k : κ) (l : List α) (a : α) : lastKey key k (l ++ [a]) = key a := by
  induction l generalizing k with
  | nil => rfl
  | cons b l ih => exact ih (key b)

theorem lastKey_cons_mem (k : κ) (a : α) (l : List α) :
    ∃ b ∈ a :: l, lastKey key k (a :: l) = key b ∧ (a :: l).getLast? = some b := by
  induction l generalizing k a with
  | nil => exact ⟨a, List.mem_singleton.mpr rfl, rfl, rfl⟩
  | cons b l ih =>
    obtain ⟨c, hc, hlast, hget⟩ := ih (key a) b
    exact ⟨c, List.mem_cons_of_mem _ hc, hlast, by rw [List.getLast?_cons_cons, hget]⟩

theorem linked_append {prev : Option κ} {l l' : List α} :
    Linked key parent prev (l ++ l') ↔
      Linked key parent prev l ∧ Linked key parent (tip key prev l) l' := by
  induction l generalizing prev with
  | nil => exact ⟨fun h => ⟨trivial, h⟩, And.right⟩
  | cons a l ih =>
    show parent a = prev ∧ Linked key parent (some (key a)) (l ++ l') ↔ _
    rw [ih, ← and_assoc]
    rfl

theorem linked_snoc {prev : Option κ} {l : List α} {a : α} (h : Linked key parent prev l)
    (ha : parent a = tip key prev l) : Linked key parent prev (l ++ [a]) :=
  linked_append.mpr ⟨h, ha, trivial⟩

end GroupAgent.Lib
