import Mathlib.Data.List.Forall2
import Mathlib.Data.List.Nodup

/-!
# Keyed lists

A table kept as a list whose rows have a key. `lookup key k l` is the first row with key `k`; where
the keys do not repeat it is the only one (`lookup_iff`).

* `lookup_append`, `lookup_singleton`: a row that is added is found unless its key was there.
* `lookup_map`, `lookup_map_congr`, `lookup_filterMap`: a change of rows that keeps keys commutes
  with looking up.
* `lookup_rel`: two tables that are matched row by row, with equal keys, answer with matched rows.
* `nodup_snoc`, `filter_key`: keys stay without repeats behind a new row, and the rows of a key are
  at most one.
-/

namespace GroupAgent.Lib

variable {α β κ κ' : Type} [DecidableEq κ] [DecidableEq κ'] {key : α → κ}

/-- The first row with a key. -/
def lookup (key : α → κ) (k : κ) (l : List α) : Option α := l.find? fun a => key a = k

theorem lookup_key {k : κ} {l : List α} {a : α} (h : lookup key k l = some a) : key a = k := by
  unfold lookup at h
  simpa using List.find?_some h

theorem mem_of_lookup {k : κ} {l : List α} {a : α} (h : lookup key k l = some a) : a ∈ l :=
  List.mem_of_find?_eq_some h

theorem lookup_eq_none {k : κ} {l : List α} : lookup key k l = none ↔ ∀ a ∈ l, key a ≠ k := by
  unfold lookup
  simp

theorem lookup_append (k : κ) (l l' : List α) :
    lookup key k (l ++ l') = (lookup key k l).or (lookup key k l') := List.find?_append

theorem lookup_singleton (k : κ) (a : α) :
    lookup key k [a] = if key a = k then some a else none := by
  unfold lookup
  by_cases h : key a = k <;> simp [h]

theorem lookup_map (f : β → α) (k : κ) (l : List β) :
    lookup key k (l.map f) = (lookup (fun b => key (f b)) k l).map f := by
  unfold lookup
  rw [List.find?_map]
  rfl

/-- An update that keeps the keys. -/
theorem lookup_map_congr {f : α → α} (hf : ∀ a, key (f a) = key a) (k : κ) (l : List α) :
    lookup key k (l.map f) = (lookup key k l).map f := by
  rw [lookup_map, funext hf]

theorem lookup_iff {l : List α} (hl : (l.map key).Nodup) {k : κ} {a : α} :
    lookup key k l = some a ↔ a ∈ l ∧ key a = k := by
  constructor
  · intro h
    exact ⟨mem_of_lookup h, lookup_key h⟩
  · rintro ⟨hmem, rfl⟩
    cases h : lookup key (key a) l with
    | none => exact absurd rfl (lookup_eq_none.mp h a hmem)
    | some b => rw [List.inj_on_of_nodup_map hl (mem_of_lookup h) hmem (lookup_key h)]

theorem nodup_snoc {l : List α} (hl : (l.map key).Nodup) {a : α}
    (ha : lookup key (key a) l = none) : ((l ++ [a]).map key).Nodup := by
  rw [List.map_append]
  refine hl.append (List.nodup_singleton _) ?_
  rintro k hk hk'
  obtain ⟨b, hb, rfl⟩ := List.mem_map.mp hk
  exact lookup_eq_none.mp ha b hb (List.mem_singleton.mp hk')

/-- The rows with a key, where keys do not repeat. -/
theorem filter_key {l : List α} (hl : (l.map key).Nodup) (k : κ) :
    (l.filter fun a => key a = k) = (lookup key k l).toList := by
  induction l with
  | nil => rfl
  | cons a l ih =>
    obtain ⟨ha, hl⟩ := List.nodup_cons.mp hl
    unfold lookup at ih ⊢
    by_cases hk : key a = k
    · have hrest : lookup key k l = none := by
        rw [lookup_eq_none]
        intro b hb hbk
        exact ha (List.mem_map.mpr ⟨b, hb, by rw [hbk, hk]⟩)
      have hnil : (l.filter fun a => key a = k) = [] := by
        rw [ih hl, show l.find? _ = none from hrest]
        rfl
      simp [hk, hnil]
    · simp [hk, ih hl]

/-- Looking up a second key besides one that does not repeat. -/
theorem lookup_pair {key' : α → κ'} {l : List α} (hl : (l.map key).Nodup) (k : κ) (k' : κ') :
    lookup (fun a => (key' a, key a)) (k', k) l =
      (lookup key k l).filter fun a => key' a = k' := by
  induction l with
  | nil => rfl
  | cons a l ih =>
    obtain ⟨ha, hl⟩ := List.nodup_cons.mp hl
    have ih := ih hl
    unfold lookup at ih ⊢
    by_cases hk : key a = k
    · have hrest : lookup key k l = none := by
        rw [lookup_eq_none]
        intro b hb hbk
        exact ha (List.mem_map.mpr ⟨b, hb, by rw [hbk, hk]⟩)
      rw [show l.find? (fun a => decide (key a = k)) = none from hrest] at ih
      by_cases hk' : key' a = k'
      · simp [hk, hk', Option.filter]
      · simp only [List.find?_cons, Prod.mk.injEq, hk, hk', and_true, decide_false, decide_true,
          Option.filter, Bool.false_eq_true, if_false]
        simpa using ih
    · simpa [hk] using ih

/-- Looking a key up in what a partial map leaves of a table. -/
theorem lookup_filterMap {key' : β → κ'} {f : α → Option β} {l : List α} (hl : (l.map key).Nodup)
    {k : κ} {k' : κ'} (hk : ∀ a b, f a = some b → (key' b = k' ↔ key a = k)) :
    lookup key' k' (l.filterMap f) = (lookup key k l).bind f := by
  induction l with
  | nil => rfl
  | cons a l ih =>
    obtain ⟨ha, hl⟩ := List.nodup_cons.mp hl
    have ih := ih hl
    unfold lookup at ih ⊢
    cases hf : f a with
    | some b =>
      by_cases hkey : key a = k
      · simp [hf, hkey, (hk a b hf).mpr hkey]
      · have hkey' : ¬key' b = k' := fun h => hkey ((hk a b hf).mp h)
        simp [hf, hkey, hkey', ih]
    | none =>
      by_cases hkey : key a = k
      · have hrest : lookup key k l = none := by
          rw [lookup_eq_none]
          intro b hb hbk
          exact ha (List.mem_map.mpr ⟨b, hb, by rw [hbk, hkey]⟩)
        rw [show l.find? _ = none from hrest] at ih
        simp [hf, hkey, ih]
      · simp [hf, hkey, ih]

/-- Two tables whose rows correspond answer a lookup alike. -/
theorem lookup_rel {key' : β → κ'} {R : α → β → Prop} {k : κ} {k' : κ'}
    (hR : ∀ a b, R a b → (key a = k ↔ key' b = k')) {l : List α} {l' : List β}
    (h : List.Forall₂ R l l') : (lookup key k l = none ∧ lookup key' k' l' = none) ∨
      ∃ a b, lookup key k l = some a ∧ lookup key' k' l' = some b ∧ R a b := by
  induction h with
  | nil => exact .inl ⟨rfl, rfl⟩
  | @cons a b l l' hab _ ih =>
    unfold lookup at ih ⊢
    by_cases hk : key a = k
    · have hk' : key' b = k' := (hR a b hab).mp hk
      exact .inr ⟨a, b, by simp [hk], by simp [hk'], hab⟩
    · have hk' : ¬key' b = k' := fun h => hk ((hR a b hab).mpr h)
      simpa [hk, hk'] using ih

/-- What corresponds to a part of a list is a part of what corresponds to the list. -/
theorem forall₂_sublist {R : α → β → Prop} {l k : List α} {l' : List β}
    (h : List.Forall₂ R l l') (hk : k.Sublist l) : ∃ k', k'.Sublist l' ∧ List.Forall₂ R k k' := by
  induction hk generalizing l' with
  | slnil => exact ⟨[], List.nil_sublist _, .nil⟩
  | cons a _ ih =>
    cases h with
    | cons hab h =>
      obtain ⟨k', hsub, hrel⟩ := ih h
      exact ⟨k', hsub.cons _, hrel⟩
  | cons_cons a _ ih =>
    cases h with
    | cons hab h =>
      obtain ⟨k', hsub, hrel⟩ := ih h
      exact ⟨_, hsub.cons_cons _, .cons hab hrel⟩

end GroupAgent.Lib
