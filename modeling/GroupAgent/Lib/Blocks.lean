import Mathlib.Data.List.Nodup

/-!
# Lists laid out in keyed blocks

A list of keyed entries is laid out as one list, entry after entry, each as a block of its own
length.

* `offsetOf len k` is where the block of key `k` starts, and `totalOf` the length of the layout.
* `offsetOf_split`: the offset of an entry is the length of what stands before it.
* `getElem?_flatMap`, `exists_block`: an element of the layout is the element of one block at one
  place, and every place of every block is an element of the layout.
* `exists_offsetOf`: so every index of the layout is an offset and a place within a block.

The blocks may differ in length, and some may be empty. Keys are only compared; a key that occurs
twice has the offset of its first entry.
-/

namespace GroupAgent.Lib

variable {κ α β : Type} [DecidableEq κ]

/-- Where the block of a key starts. -/
def offsetOf (len : κ × α → Nat) (k : κ) : List (κ × α) → Nat
  | [] => 0
  | p :: l => if p.1 = k then 0 else len p + offsetOf len k l

/-- The length of all blocks. -/
def totalOf (len : κ × α → Nat) : List (κ × α) → Nat
  | [] => 0
  | p :: l => len p + totalOf len l

omit [DecidableEq κ] in
theorem length_flatMap {len : κ × α → Nat} {f : κ × α → List β} (hlen : ∀ p, (f p).length = len p) :
    ∀ l : List (κ × α), (l.flatMap f).length = totalOf len l
  | [] => rfl
  | p :: l => by
    rw [List.flatMap_cons, List.length_append, hlen, length_flatMap hlen l, totalOf]

omit [DecidableEq κ] in
theorem totalOf_append (len : κ × α → Nat) : ∀ l l' : List (κ × α),
    totalOf len (l ++ l') = totalOf len l + totalOf len l'
  | [], l' => by simp [totalOf]
  | p :: l, l' => by
    rw [List.cons_append, totalOf, totalOf, totalOf_append len l l', Nat.add_assoc]

/-- A block starts where the blocks before it end. -/
theorem offsetOf_split {len : κ × α → Nat} {p : κ × α} : ∀ {done rest : List (κ × α)},
    ((done ++ p :: rest).map Prod.fst).Nodup →
      offsetOf len p.1 (done ++ p :: rest) = totalOf len done
  | [], rest, _ => by simp [offsetOf, totalOf]
  | q :: done, rest, h => by
    rw [List.cons_append, List.map_cons, List.nodup_cons] at h
    have hne : q.1 ≠ p.1 := by
      intro he
      exact h.1 (List.mem_map.mpr ⟨p, by simp, he.symm⟩)
    rw [List.cons_append, offsetOf, if_neg hne, offsetOf_split h.2, totalOf]

/-- The elements of a block stand at its offset. -/
theorem getElem?_flatMap {len : κ × α → Nat} {f : κ × α → List β}
    (hlen : ∀ p, (f p).length = len p) {l : List (κ × α)} (hn : (l.map Prod.fst).Nodup)
    {p : κ × α} (hp : p ∈ l) {j : Nat} (hj : j < len p) :
    (l.flatMap f)[offsetOf len p.1 l + j]? = (f p)[j]? := by
  obtain ⟨done, rest, rfl⟩ := List.append_of_mem hp
  rw [offsetOf_split hn, List.flatMap_append, List.flatMap_cons,
    List.getElem?_append_right (by rw [length_flatMap hlen]; omega), length_flatMap hlen,
    Nat.add_sub_cancel_left, List.getElem?_append_left (by rw [hlen]; exact hj)]

omit [DecidableEq κ] in
/-- Every place of the layout is a place of a block. -/
theorem exists_block {len : κ × α → Nat} : ∀ {l : List (κ × α)} {i : Nat}, i < totalOf len l →
    ∃ done p rest j, l = done ++ p :: rest ∧ j < len p ∧ i = totalOf len done + j
  | [], i, h => absurd h (Nat.not_lt_zero i)
  | p :: l, i, h => by
    by_cases hi : i < len p
    · exact ⟨[], p, l, i, rfl, hi, by simp [totalOf]⟩
    · rw [totalOf] at h
      have hlt : i - len p < totalOf len l := by omega
      obtain ⟨done, q, rest, j, hl, hj, he⟩ := exists_block hlt
      refine ⟨p :: done, q, rest, j, by rw [hl, List.cons_append], hj, ?_⟩
      rw [totalOf]
      omega

theorem exists_offsetOf {len : κ × α → Nat} {l : List (κ × α)} (hn : (l.map Prod.fst).Nodup)
    {i : Nat} (h : i < totalOf len l) : ∃ p ∈ l, ∃ j < len p, i = offsetOf len p.1 l + j := by
  obtain ⟨done, p, rest, j, rfl, hj, hi⟩ := exists_block h
  exact ⟨p, by simp, j, hj, by rw [offsetOf_split hn, hi]⟩

end GroupAgent.Lib
