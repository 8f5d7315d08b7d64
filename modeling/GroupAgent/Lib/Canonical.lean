import Mathlib.Data.List.Sort
import Mathlib.Data.List.Forall2

/-!
# Sorted lists without repeats

A list is put in canonical form by sorting it by a numeric key (`sortByKey`) and dropping the
repeats that are now adjacent (`dedupAdjacent`).

* `KeyInjOn`: the key tells the elements apart. `StrictlyBy`: the list is strictly increasing in
  its keys.
* `canonical_strict`, `mem_canonical`: the canonical form is strictly increasing and has the same
  elements. There is one such list (`canonical_of_strict`), so it is determined by which elements
  occur.
* `map_sortByKey`: a map that keeps keys commutes with the sorting.
* `pairwise_iff_of_related`: a relation along two lists that are matched, read on either of them.
-/

namespace GroupAgent.Lib

variable {α β : Type}

/-- Stable sort by a numeric key. -/
def sortByKey (key : α → Nat) (l : List α) : List α := l.insertionSort fun a b => key a ≤ key b

/-- Drop every element equal to the one before it. -/
def dedupAdjacent [DecidableEq α] : List α → List α
  | [] => []
  | [a] => [a]
  | a :: b :: l => if a = b then dedupAdjacent (b :: l) else a :: dedupAdjacent (b :: l)

/-- Sort by a numeric key, then drop adjacent repeats. -/
def canonical [DecidableEq α] (key : α → Nat) (l : List α) : List α :=
  dedupAdjacent (sortByKey key l)

/-- The key tells the elements of a list apart. -/
def KeyInjOn (key : α → Nat) (l : List α) : Prop := ∀ a ∈ l, ∀ b ∈ l, key a = key b → a = b

/-- Strictly increasing keys. -/
def StrictlyBy (key : α → Nat) (l : List α) : Prop := l.Pairwise fun a b => key a < key b

/-! ## Sorting -/

theorem StrictlyBy.nodup {key : α → Nat} {l : List α} (h : StrictlyBy key l) : l.Nodup := by
  refine List.Pairwise.imp (fun {a b} hlt => ?_) h
  rintro rfl
  exact Nat.lt_irrefl _ hlt

@[simp] theorem mem_sortByKey {key : α → Nat} {l : List α} {a : α} :
    a ∈ sortByKey key l ↔ a ∈ l := List.mem_insertionSort _

theorem sortByKey_perm (key : α → Nat) (l : List α) : (sortByKey key l).Perm l :=
  List.perm_insertionSort _ l

theorem sortByKey_sorted (key : α → Nat) (l : List α) :
    (sortByKey key l).Pairwise fun a b => key a ≤ key b := by
  have : Std.Total fun a b : α => key a ≤ key b := ⟨fun a b => Nat.le_total (key a) (key b)⟩
  have : IsTrans α fun a b : α => key a ≤ key b := ⟨fun _ _ _ => Nat.le_trans⟩
  exact List.pairwise_insertionSort _ l

theorem sortByKey_of_sorted {key : α → Nat} {l : List α}
    (h : l.Pairwise fun a b => key a ≤ key b) : sortByKey key l = l :=
  List.Pairwise.insertionSort_eq h

/-- A key-preserving map commutes with sorting. -/
theorem map_sortByKey {key : α → Nat} {key' : β → Nat} (f : α → β) {l : List α}
    (h : ∀ a ∈ l, ∀ b ∈ l, key a ≤ key b ↔ key' (f a) ≤ key' (f b)) :
    (sortByKey key l).map f = sortByKey key' (l.map f) :=
  List.map_insertionSort _ _ f l h

/-! ## Dropping repeats -/

section Dedup

variable [DecidableEq α]

@[simp] theorem mem_dedupAdjacent {a : α} : ∀ {l : List α}, a ∈ dedupAdjacent l ↔ a ∈ l
  | [] => Iff.rfl
  | [_] => Iff.rfl
  | b :: c :: l => by
    unfold dedupAdjacent
    split
    · rename_i h
      rw [mem_dedupAdjacent, h]
      simp
    · rw [List.mem_cons, mem_dedupAdjacent, List.mem_cons (a := a) (b := b)]

theorem dedupAdjacent_strict {key : α → Nat} : ∀ {l : List α}, KeyInjOn key l →
    (l.Pairwise fun a b => key a ≤ key b) → StrictlyBy key (dedupAdjacent l)
  | [], _, _ => List.Pairwise.nil
  | [_], _, _ => List.pairwise_singleton _ _
  | a :: b :: l, hinj, hs => by
    have hinj' : KeyInjOn key (b :: l) := fun c hc d hd =>
      hinj c (List.mem_cons_of_mem a hc) d (List.mem_cons_of_mem a hd)
    have ih := dedupAdjacent_strict hinj' (List.pairwise_cons.mp hs).2
    unfold dedupAdjacent
    split
    · exact ih
    · rename_i hab
      refine List.pairwise_cons.mpr ⟨fun c hc => ?_, ih⟩
      rw [mem_dedupAdjacent] at hc
      have hac : key a ≤ key b := (List.pairwise_cons.mp hs).1 b List.mem_cons_self
      have hlt : key a < key b := by
        refine Nat.lt_of_le_of_ne hac fun he => hab ?_
        exact hinj a List.mem_cons_self b (List.mem_cons_of_mem a List.mem_cons_self) he
      rcases List.mem_cons.mp hc with rfl | hc
      · exact hlt
      · exact Nat.lt_of_lt_of_le hlt
          ((List.pairwise_cons.mp (List.pairwise_cons.mp hs).2).1 c hc)

theorem dedupAdjacent_of_strict {key : α → Nat} : ∀ {l : List α}, StrictlyBy key l →
    dedupAdjacent l = l
  | [], _ => rfl
  | [_], _ => rfl
  | a :: b :: l, h => by
    have hab : a ≠ b := by
      rintro rfl
      exact Nat.lt_irrefl _ ((List.pairwise_cons.mp h).1 a List.mem_cons_self)
    unfold dedupAdjacent
    rw [if_neg hab, dedupAdjacent_of_strict (List.pairwise_cons.mp h).2]

/-! ## The canonical form -/

@[simp] theorem mem_canonical {key : α → Nat} {l : List α} {a : α} :
    a ∈ canonical key l ↔ a ∈ l := by
  unfold canonical
  rw [mem_dedupAdjacent, mem_sortByKey]

theorem canonical_strict {key : α → Nat} {l : List α} (h : KeyInjOn key l) :
    StrictlyBy key (canonical key l) :=
  dedupAdjacent_strict (fun a ha b hb => h a (mem_sortByKey.mp ha) b (mem_sortByKey.mp hb))
    (sortByKey_sorted key l)

theorem canonical_of_strict {key : α → Nat} {l : List α} (h : StrictlyBy key l) :
    canonical key l = l := by
  unfold canonical
  rw [sortByKey_of_sorted (h.imp Nat.le_of_lt), dedupAdjacent_of_strict h]

end Dedup

/-! ## Lists related element by element -/

section Related

variable {R : α → β → Prop} {l : List α} {m : List β}

theorem forall_mem_iff_of_related (h : List.Forall₂ R l m) {P : α → Prop} {Q : β → Prop}
    (hiff : ∀ a b, R a b → (P a ↔ Q b)) : (∀ a ∈ l, P a) ↔ ∀ b ∈ m, Q b := by
  induction h with
  | nil => simp
  | @cons a b l m hab _ ih => simp only [List.forall_mem_cons, ih, hiff a b hab]

/-- Related lists have the same order, in orders the relation carries over. -/
theorem pairwise_iff_of_related (h : List.Forall₂ R l m) {S : α → α → Prop} {T : β → β → Prop}
    (hiff : ∀ a b a' b', R a b → R a' b' → (S a a' ↔ T b b')) : l.Pairwise S ↔ m.Pairwise T := by
  induction h with
  | nil => simp
  | @cons a b l m hab hrest ih =>
    rw [List.pairwise_cons, List.pairwise_cons, ih]
    exact and_congr_left fun _ =>
      forall_mem_iff_of_related hrest fun a' b' hab' => hiff a b a' b' hab hab'

end Related

end GroupAgent.Lib
