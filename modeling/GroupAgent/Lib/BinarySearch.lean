import Mathlib.Data.List.Pairwise
import Mathlib.Order.Compare
import Mathlib.Order.Lattice

/-!
# Binary search

`slice::binary_search_by`, as it halves the window. On a list in strictly increasing order of keys
it finds the entry of a key, if there is one.

* `searchFrom_eq`: the window keeps what is looked for.
* **`binarySearchBy_eq_some`**, `binarySearchBy_eq_find?`: what is found.
-/

namespace GroupAgent.Lib

variable {α κ : Type}

/-- The loop, over a window that starts at `base`. -/
def searchFrom (f : α → Ordering) (l : List α) (size base : Nat) : Nat :=
  if _ : 1 < size then
    let half := size / 2
    let mid := base + half
    searchFrom f l (size - half) (if l[mid]?.map f = some .gt then base else mid)
  else base
termination_by size
decreasing_by omega

/-- The place of an entry that `f` says is equal. -/
def binarySearchBy (f : α → Ordering) (l : List α) : Option Nat :=
  if l = [] then none
  else
    let base := searchFrom f l l.length 0
    if l[base]?.map f = some .eq then some base else none

theorem binarySearchBy_sound {f : α → Ordering} {l : List α} {i : Nat}
    (h : binarySearchBy f l = some i) : l[i]?.map f = some .eq := by
  unfold binarySearchBy at h
  split at h
  · cases h
  · simp only at h
    split at h
    · rename_i heq
      cases h
      exact heq
    · cases h

/-- The entry at `k` is the one that is equal: those before it are less, those after it greater. -/
structure Aims (f : α → Ordering) (l : List α) (k : Nat) : Prop where
  lt : k < l.length
  eq : l[k]?.map f = some .eq
  before : ∀ i < k, l[i]?.map f = some .lt
  after : ∀ i, k < i → i < l.length → l[i]?.map f = some .gt

/-- The window keeps the entry that is equal, down to a window of one. -/
theorem searchFrom_eq {f : α → Ordering} {l : List α} {k : Nat} (h : Aims f l k) :
    ∀ {size base : Nat}, base ≤ k → k < base + size → base + size ≤ l.length →
      searchFrom f l size base = k := by
  intro size
  induction size using Nat.strongRecOn with
  | _ size ih =>
    intro base hbase hk hsize
    rw [searchFrom]
    by_cases hone : 1 < size
    · rw [dif_pos hone]
      simp only
      by_cases hgt : l[base + size / 2]?.map f = some .gt
      · rw [if_pos hgt]
        -- the middle is greater, so the entry is before it
        have hlt : k < base + size / 2 := by
          by_contra hle
          rcases Nat.lt_or_eq_of_le (Nat.not_lt.mp hle) with hbefore | heq
          · rw [h.before _ hbefore] at hgt
            cases hgt
          · rw [heq, h.eq] at hgt
            cases hgt
        exact ih _ (by omega) hbase (by omega) (by omega)
      · rw [if_neg hgt]
        have hle : base + size / 2 ≤ k := by
          by_contra hafter
          exact hgt (h.after _ (Nat.not_le.mp hafter) (by omega))
        exact ih _ (by omega) hle (by omega) (by omega)
    · rw [dif_neg hone]
      omega

section Keys

variable [LinearOrder κ] {key : α → κ} {l : List α} {k : κ}

theorem aims_of_sorted (hl : l.Pairwise fun a b => key a < key b) {i : Nat} {a : α}
    (hi : l[i]? = some a) (ha : key a = k) : Aims (fun a => compare (key a) k) l i := by
  obtain ⟨hlt, rfl⟩ := List.getElem?_eq_some_iff.mp hi
  have hsorted := List.pairwise_iff_getElem.mp hl
  refine ⟨hlt, ?_, fun j hj => ?_, fun j hj hjlt => ?_⟩
  · rw [List.getElem?_eq_getElem hlt, Option.map_some, ha, compare_eq_iff_eq.mpr rfl]
  · have hjlt : j < l.length := Nat.lt_trans hj hlt
    rw [List.getElem?_eq_getElem hjlt, Option.map_some, compare_lt_iff_lt.mpr]
    rw [← ha]
    exact hsorted j i hjlt hlt hj
  · rw [List.getElem?_eq_getElem hjlt, Option.map_some, compare_gt_iff_gt.mpr]
    rw [← ha]
    exact hsorted i j hlt hjlt hj

/-- In a list in increasing order of keys, the entry of a key is found. -/
theorem binarySearchBy_eq_some (hl : l.Pairwise fun a b => key a < key b) {i : Nat} :
    binarySearchBy (fun a => compare (key a) k) l = some i ↔ ∃ a, l[i]? = some a ∧ key a = k := by
  constructor
  · intro h
    obtain ⟨a, ha, heq⟩ := Option.map_eq_some_iff.mp (binarySearchBy_sound h)
    exact ⟨a, ha, compare_eq_iff_eq.mp heq⟩
  · rintro ⟨a, hi, ha⟩
    have haims := aims_of_sorted hl hi ha
    have hfound : searchFrom (fun a => compare (key a) k) l l.length 0 = i :=
      searchFrom_eq haims (Nat.zero_le i) (by have := haims.lt; omega) (by omega)
    have hne : l ≠ [] := List.ne_nil_of_length_pos (Nat.zero_lt_of_lt haims.lt)
    unfold binarySearchBy
    simp only [if_neg hne, hfound, haims.eq, if_true]

/-- In a list in increasing order of keys, a search finds what a scan for the key finds. -/
theorem binarySearchBy_eq_find? (hl : l.Pairwise fun a b => key a < key b) {p : α → Bool}
    (hp : ∀ a, p a = true ↔ key a = k) :
    ((binarySearchBy (fun a => compare (key a) k) l).bind fun i => l[i]?) = l.find? p := by
  cases hfound : binarySearchBy (fun a => compare (key a) k) l with
  | none =>
    symm
    rw [Option.bind_none, List.find?_eq_none]
    intro a ha heq
    obtain ⟨i, hi⟩ := List.mem_iff_getElem?.mp ha
    have hsome := (binarySearchBy_eq_some hl).mpr ⟨a, hi, (hp a).mp heq⟩
    rw [hfound] at hsome
    cases hsome
  | some i =>
    obtain ⟨a, hi, ha⟩ := (binarySearchBy_eq_some hl).mp hfound
    obtain ⟨hlt, rfl⟩ := List.getElem?_eq_some_iff.mp hi
    symm
    rw [Option.bind_some, hi, List.find?_eq_some_iff_getElem]
    refine ⟨(hp _).mpr ha, i, hlt, rfl, fun j hj => ?_⟩
    have hbefore := List.pairwise_iff_getElem.mp hl j i (Nat.lt_trans hj hlt) hlt hj
    rw [ha] at hbefore
    rw [Bool.not_eq_true', eq_false_of_ne_true fun h => hbefore.ne ((hp _).mp h)]

end Keys

end GroupAgent.Lib
