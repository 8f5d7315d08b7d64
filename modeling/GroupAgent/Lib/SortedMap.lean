import GroupAgent.Lib.Except
import Mathlib.Data.String.Basic
import Mathlib.Data.List.Pairwise

/-!
# Finite maps in key order

A `BTreeMap`, as the list of its entries in strictly increasing key order. `upsert` is its one
update: what is there, if anything, decides what is written.

* `get?_upsert_self`, `get?_upsert_of_ne`: what is read after a write.
* **`ext_get?`**, **`eq_of_perm`**: a map is what is read from it, and its entries in any order.
* **`foldlM_insert_eq_ok`**: a loop that writes at new keys only.
-/

namespace GroupAgent.Lib

variable {κ α : Type} [LinearOrder κ]

/-- Write at a key of an ordered list, by what is there. -/
def upsertEntries (k : κ) (f : Option α → α) : List (κ × α) → List (κ × α)
  | [] => [(k, f none)]
  | e :: l =>
    if k < e.1 then (k, f none) :: e :: l
    else if e.1 < k then e :: upsertEntries k f l
    else (k, f (some e.2)) :: l

theorem upsertEntries_keys {k : κ} {f : Option α → α} {e : κ × α} :
    ∀ {l : List (κ × α)}, e ∈ upsertEntries k f l → e.1 = k ∨ e ∈ l
  | [], h => .inl (congrArg Prod.fst (List.mem_singleton.mp h))
  | d :: l, h => by
    unfold upsertEntries at h
    split at h
    · rcases List.mem_cons.mp h with rfl | h
      · exact .inl rfl
      · exact .inr h
    · split at h
      · rcases List.mem_cons.mp h with rfl | h
        · exact .inr List.mem_cons_self
        · exact (upsertEntries_keys h).imp_right (List.mem_cons_of_mem d)
      · rcases List.mem_cons.mp h with rfl | h
        · exact .inl rfl
        · exact .inr (List.mem_cons_of_mem d h)

theorem upsertEntries_sorted {k : κ} {f : Option α → α} :
    ∀ {l : List (κ × α)}, (l.Pairwise fun a b => a.1 < b.1) →
      (upsertEntries k f l).Pairwise fun a b => a.1 < b.1
  | [], _ => List.pairwise_singleton _ _
  | e :: l, h => by
    obtain ⟨he, hl⟩ := List.pairwise_cons.mp h
    unfold upsertEntries
    split
    · rename_i hk
      refine List.pairwise_cons.mpr ⟨fun d hd => ?_, h⟩
      rcases List.mem_cons.mp hd with rfl | hd
      · exact hk
      · exact hk.trans (he d hd)
    · split
      · rename_i hk
        refine List.pairwise_cons.mpr ⟨fun d hd => ?_, upsertEntries_sorted hl⟩
        rcases upsertEntries_keys hd with hd | hd
        · rw [hd]
          exact hk
        · exact he d hd
      · rename_i hge hle
        have heq : e.1 = k := le_antisymm (not_lt.mp hge) (not_lt.mp hle)
        refine List.pairwise_cons.mpr ⟨fun d hd => ?_, hl⟩
        show k < d.1
        rw [← heq]
        exact he d hd

/-- A finite map, in key order. -/
structure SortedMap (κ α : Type) [LinearOrder κ] where
  entries : List (κ × α)
  sorted : entries.Pairwise fun a b => a.1 < b.1

namespace SortedMap

def empty : SortedMap κ α := ⟨[], List.Pairwise.nil⟩

def get? (m : SortedMap κ α) (k : κ) : Option α := m.entries.lookup k

def length (m : SortedMap κ α) : Nat := m.entries.length

/-- Write at a key, by what is there. -/
def upsert (m : SortedMap κ α) (k : κ) (f : Option α → α) : SortedMap κ α :=
  ⟨upsertEntries k f m.entries, upsertEntries_sorted m.sorted⟩

/-- `entry(k).or_insert(a)` for each entry of another map, in order. -/
def orInsertAll (m other : SortedMap κ α) : SortedMap κ α :=
  other.entries.foldl (fun m e => m.upsert e.1 fun old => old.getD e.2) m

/-- `insert` of entries, in order. -/
def insertAll (m : SortedMap κ α) (entries : List (κ × α)) : SortedMap κ α :=
  entries.foldl (fun m e => m.upsert e.1 fun _ => e.2) m

/-! ## Reading -/

section Reading

theorem lookup_of_lt {k : κ} : ∀ {l : List (κ × α)}, (∀ e ∈ l, k < e.1) → l.lookup k = none
  | [], _ => rfl
  | e :: l, h => by
    have hne : (k == e.1) = false := beq_false_of_ne (h e List.mem_cons_self).ne
    rw [List.lookup_cons, hne]
    exact lookup_of_lt fun d hd => h d (List.mem_cons_of_mem e hd)

/-- A write reads what is there, and nothing else. -/
theorem upsertEntries_eq {k : κ} {f : Option α → α} : ∀ {l : List (κ × α)},
    (l.Pairwise fun a b => a.1 < b.1) → upsertEntries k f l = upsertEntries k (fun _ => f (l.lookup k)) l
  | [], _ => rfl
  | e :: l, h => by
    obtain ⟨he, hl⟩ := List.pairwise_cons.mp h
    unfold upsertEntries
    by_cases hlt : k < e.1
    · have hnone : (e :: l).lookup k = none := by
        refine lookup_of_lt fun d hd => ?_
        rcases List.mem_cons.mp hd with rfl | hd
        · exact hlt
        · exact hlt.trans (he d hd)
      rw [if_pos hlt, if_pos hlt, hnone]
    · rw [if_neg hlt, if_neg hlt]
      by_cases hgt : e.1 < k
      · have hne : (k == e.1) = false := beq_false_of_ne hgt.ne'
        rw [if_pos hgt, if_pos hgt, List.lookup_cons, hne, upsertEntries_eq hl]
      · have heq : k = e.1 := le_antisymm (not_lt.mp hgt) (not_lt.mp hlt)
        rw [if_neg hgt, if_neg hgt, List.lookup_cons, heq, beq_self_eq_true]

theorem upsertEntries_twice {k : κ} {f g : Option α → α} : ∀ {l : List (κ × α)},
    upsertEntries k g (upsertEntries k f l) = upsertEntries k (fun old => g (some (f old))) l
  | [] => by simp [upsertEntries]
  | e :: l => by
    by_cases hlt : k < e.1
    · simp [upsertEntries, hlt]
    · by_cases hgt : e.1 < k
      · simp only [upsertEntries, if_neg hlt, if_pos hgt]
        rw [upsertEntries_twice]
      · simp [upsertEntries, hlt, hgt]

theorem lookup_upsertEntries_self {k : κ} {a : α} : ∀ {l : List (κ × α)},
    (upsertEntries k (fun _ => a) l).lookup k = some a
  | [] => by simp [upsertEntries]
  | e :: l => by
    unfold upsertEntries
    by_cases hlt : k < e.1
    · rw [if_pos hlt]
      simp
    · rw [if_neg hlt]
      by_cases hgt : e.1 < k
      · have hne : (k == e.1) = false := beq_false_of_ne hgt.ne'
        rw [if_pos hgt, List.lookup_cons, hne]
        exact lookup_upsertEntries_self
      · rw [if_neg hgt]
        simp

theorem lookup_upsertEntries_of_ne {k k' : κ} (hne : k' ≠ k) {f : Option α → α} :
    ∀ {l : List (κ × α)}, (upsertEntries k f l).lookup k' = l.lookup k'
  | [] => by
    have hbeq : (k' == k) = false := beq_false_of_ne hne
    simp [upsertEntries, List.lookup_cons, hbeq]
  | e :: l => by
    have hbeq : (k' == k) = false := beq_false_of_ne hne
    unfold upsertEntries
    by_cases hlt : k < e.1
    · rw [if_pos hlt, List.lookup_cons, hbeq]
    · rw [if_neg hlt]
      by_cases hgt : e.1 < k
      · rw [if_pos hgt, List.lookup_cons, List.lookup_cons, lookup_upsertEntries_of_ne hne]
      · have heq : k = e.1 := le_antisymm (not_lt.mp hgt) (not_lt.mp hlt)
        rw [if_neg hgt, List.lookup_cons, List.lookup_cons, ← heq, hbeq]

variable {m m' : SortedMap κ α} {k k' : κ}

@[simp] theorem get?_empty (k : κ) : (empty : SortedMap κ α).get? k = none := rfl

theorem upsert_eq (m : SortedMap κ α) (k : κ) (f : Option α → α) :
    m.upsert k f = m.upsert k fun _ => f (m.get? k) := by
  unfold upsert get?
  simp only [SortedMap.mk.injEq]
  exact upsertEntries_eq m.sorted

theorem upsert_upsert (m : SortedMap κ α) (k : κ) (f g : Option α → α) :
    (m.upsert k f).upsert k g = m.upsert k fun old => g (some (f old)) := by
  unfold upsert
  simp only [SortedMap.mk.injEq]
  exact upsertEntries_twice

theorem get?_upsert_self (m : SortedMap κ α) (k : κ) (f : Option α → α) :
    (m.upsert k f).get? k = some (f (m.get? k)) := by
  rw [upsert_eq]
  exact lookup_upsertEntries_self

theorem get?_upsert_of_ne (hne : k' ≠ k) (f : Option α → α) :
    (m.upsert k f).get? k' = m.get? k' := lookup_upsertEntries_of_ne hne

/-- The entries are what is read. -/
theorem mem_entries {a : α} : (k, a) ∈ m.entries ↔ m.get? k = some a := by
  obtain ⟨l, hl⟩ := m
  show (k, a) ∈ l ↔ l.lookup k = some a
  induction l with
  | nil => simp
  | cons e l ih =>
    obtain ⟨he, hl⟩ := List.pairwise_cons.mp hl
    rw [List.mem_cons, List.lookup_cons]
    by_cases heq : k = e.1
    · rw [heq, beq_self_eq_true]
      constructor
      · rintro (h | h)
        · rw [← h]
        · exact absurd (he _ h) (lt_irrefl _)
      · intro h
        have h : e.2 = a := Option.some.inj h
        exact .inl (by rw [← h])
    · have hbeq : (k == e.1) = false := beq_false_of_ne heq
      rw [hbeq, ← ih hl]
      constructor
      · rintro (h | h)
        · exact absurd (congrArg Prod.fst h) heq
        · exact h
      · exact .inr

/-- A scan for a key, of what is made of the entries, finds what is read. -/
theorem find?_map_entries {β : Type} {f : κ × α → β} {p : β → Bool} {k : κ}
    (hp : ∀ e ∈ m.entries, p (f e) = true ↔ e.1 = k) :
    (m.entries.map f).find? p = (m.get? k).map fun a => f (k, a) := by
  obtain ⟨l, hl⟩ := m
  show (l.map f).find? p = (l.lookup k).map fun a => f (k, a)
  replace hp : ∀ e ∈ l, p (f e) = true ↔ e.1 = k := hp
  clear hl
  induction l with
  | nil => rfl
  | cons e l ih =>
    obtain ⟨he, hl⟩ := List.forall_mem_cons.mp hp
    rw [List.map_cons, List.find?_cons, List.lookup_cons, ih hl]
    by_cases heq : k = e.1
    · subst heq
      simp [he.mpr rfl]
    · rw [beq_false_of_ne heq, eq_false_of_ne_true fun h => heq (he.mp h).symm]

theorem upsertEntries_perm {k : κ} {f : Option α → α} : ∀ {l : List (κ × α)},
    l.lookup k = none → (upsertEntries k f l).Perm ((k, f none) :: l)
  | [], _ => .refl _
  | e :: l, h => by
    unfold upsertEntries
    by_cases hlt : k < e.1
    · rw [if_pos hlt]
    · rw [if_neg hlt]
      by_cases heq : k = e.1
      · rw [List.lookup_cons, heq, beq_self_eq_true] at h
        cases h
      · rw [List.lookup_cons, beq_false_of_ne heq] at h
        rw [if_pos (lt_of_le_of_ne (not_lt.mp hlt) (Ne.symm heq))]
        exact ((upsertEntries_perm h).cons e).trans (List.Perm.swap _ _ _)

/-- Entries at new keys are all there. -/
theorem insertAll_perm : ∀ {l : List (κ × α)} {m : SortedMap κ α}, (l.map Prod.fst).Nodup →
    (∀ k ∈ l.map Prod.fst, m.get? k = none) → (m.insertAll l).entries.Perm (m.entries ++ l)
  | [], m, _, _ => by
    rw [List.append_nil]
    rfl
  | e :: l, m, hnodup, hnew => by
    obtain ⟨hnotMem, hnodup⟩ := List.nodup_cons.mp hnodup
    obtain ⟨hkey, hnew⟩ := List.forall_mem_cons.mp hnew
    have hrest : ((m.upsert e.1 fun _ => e.2).insertAll l).entries.Perm
        ((m.upsert e.1 fun _ => e.2).entries ++ l) := by
      refine insertAll_perm hnodup fun k hk => ?_
      have hne : k ≠ e.1 := fun h => hnotMem (h ▸ hk)
      rw [get?_upsert_of_ne hne]
      exact hnew k hk
    have hone : (m.upsert e.1 fun _ => e.2).entries.Perm (e :: m.entries) := upsertEntries_perm hkey
    exact hrest.trans ((hone.append_right l).trans List.perm_middle.symm)

/-- Two maps with the same entries are one. -/
theorem eq_of_perm (h : m.entries.Perm m'.entries) : m = m' := by
  obtain ⟨l, hl⟩ := m
  obtain ⟨l', hl'⟩ := m'
  rw [SortedMap.mk.injEq]
  exact h.eq_of_pairwise (fun _ _ _ _ h h' => absurd (h.trans h') (lt_irrefl _)) hl hl'

theorem insertAll_empty_perm {l : List (κ × α)} (h : (l.map Prod.fst).Nodup) :
    ((empty : SortedMap κ α).insertAll l).entries.Perm l :=
  insertAll_perm h fun _ _ => rfl

theorem nodup_keys (m : SortedMap κ α) : (m.entries.map Prod.fst).Nodup :=
  (List.pairwise_map.mpr m.sorted).imp ne_of_lt

/-- Entries in key order are what an empty map with them has. -/
theorem insertAll_sorted {l : List (κ × α)} (h : (l.map Prod.fst).Pairwise (· < ·)) :
    (empty : SortedMap κ α).insertAll l = ⟨l, List.pairwise_map.mp h⟩ :=
  eq_of_perm (insertAll_empty_perm (h.imp ne_of_lt))

theorem insertAll_entries (m : SortedMap κ α) : empty.insertAll m.entries = m :=
  eq_of_perm (insertAll_empty_perm m.nodup_keys)

/-- The order in which entries are inserted does not matter. -/
theorem insertAll_congr {l l' : List (κ × α)} (h : (l.map Prod.fst).Nodup) (hperm : l.Perm l') :
    (empty : SortedMap κ α).insertAll l = empty.insertAll l' := by
  have h' : (l'.map Prod.fst).Nodup := (hperm.map Prod.fst).nodup_iff.mp h
  exact eq_of_perm ((insertAll_empty_perm h).trans (hperm.trans (insertAll_empty_perm h').symm))

theorem length_upsertEntries {k : κ} {f : Option α → α} : ∀ {l : List (κ × α)},
    (l.Pairwise fun a b => a.1 < b.1) →
      (upsertEntries k f l).length = l.length + if l.lookup k = none then 1 else 0
  | [], _ => rfl
  | e :: l, h => by
    obtain ⟨he, hl⟩ := List.pairwise_cons.mp h
    unfold upsertEntries
    by_cases hlt : k < e.1
    · have hnone : (e :: l).lookup k = none := by
        refine lookup_of_lt fun d hd => ?_
        rcases List.mem_cons.mp hd with rfl | hd
        · exact hlt
        · exact hlt.trans (he d hd)
      rw [if_pos hlt, if_pos hnone]
      rfl
    · rw [if_neg hlt]
      by_cases hgt : e.1 < k
      · have hne : (k == e.1) = false := beq_false_of_ne hgt.ne'
        rw [if_pos hgt, List.lookup_cons, hne, List.length_cons, length_upsertEntries hl,
          List.length_cons]
        show l.length + (if l.lookup k = none then 1 else 0) + 1 =
          l.length + 1 + if l.lookup k = none then 1 else 0
        omega
      · have heq : k = e.1 := le_antisymm (not_lt.mp hgt) (not_lt.mp hlt)
        rw [if_neg hgt, List.lookup_cons, heq, beq_self_eq_true]
        simp

/-- A write at a new key is one entry more. -/
theorem length_upsert (m : SortedMap κ α) (k : κ) (f : Option α → α) :
    (m.upsert k f).length = m.length + if m.get? k = none then 1 else 0 :=
  length_upsertEntries m.sorted

/-- The keys of `other` that are new are the entries more. -/
theorem length_orInsertAll (m other : SortedMap κ α) : (m.orInsertAll other).length =
    m.length + other.entries.countP fun e => decide ((m.get? e.1).isNone) := by
  obtain ⟨l, hl⟩ := other
  unfold orInsertAll
  simp only
  induction l generalizing m with
  | nil => rfl
  | cons e l ih =>
    obtain ⟨he, hl⟩ := List.pairwise_cons.mp hl
    rw [List.foldl_cons, ih _ hl, length_upsert, List.countP_cons]
    -- the keys that follow are other keys
    have hrest : l.countP (fun d => decide
        (((m.upsert e.1 fun old => old.getD e.2).get? d.1).isNone)) =
        l.countP fun d => decide ((m.get? d.1).isNone) := by
      refine List.countP_congr fun d hd => ?_
      rw [get?_upsert_of_ne (he d hd).ne']
    rw [hrest]
    cases m.get? e.1 with
    | none => simp; omega
    | some a => simp

/-- What is read after the keys of `other` that are new were written. -/
theorem get?_orInsertAll (m other : SortedMap κ α) (k : κ) :
    (m.orInsertAll other).get? k = (m.get? k).or (other.get? k) := by
  obtain ⟨l, hl⟩ := other
  show (l.foldl (fun m e => m.upsert e.1 fun old => old.getD e.2) m).get? k = (m.get? k).or (l.lookup k)
  clear hl
  induction l generalizing m with
  | nil => simp
  | cons e l ih =>
    rw [List.foldl_cons, ih, List.lookup_cons]
    by_cases heq : k = e.1
    · subst heq
      rw [get?_upsert_self, beq_self_eq_true]
      cases m.get? e.1 <;> rfl
    · rw [get?_upsert_of_ne heq, beq_false_of_ne heq]

/-- A function on every value. -/
def mapValues {β : Type} (f : α → β) (m : SortedMap κ α) : SortedMap κ β :=
  ⟨m.entries.map fun e => (e.1, f e.2), List.pairwise_map.mpr m.sorted⟩

theorem get?_mapValues {β : Type} (f : α → β) (m : SortedMap κ α) (k : κ) :
    (m.mapValues f).get? k = (m.get? k).map f := by
  obtain ⟨l, hl⟩ := m
  show (l.map fun e => (e.1, f e.2)).lookup k = (l.lookup k).map f
  clear hl
  induction l with
  | nil => rfl
  | cons e l ih =>
    rw [List.map_cons, List.lookup_cons, List.lookup_cons, ih]
    cases k == e.1 <;> rfl

/-- **A map is what is read from it.** -/
theorem ext_get? (h : ∀ k, m.get? k = m'.get? k) : m = m' := by
  have hmem : ∀ e, e ∈ m.entries ↔ e ∈ m'.entries := by
    rintro ⟨k, a⟩
    rw [mem_entries, mem_entries, h]
  have hsorted : ∀ m : SortedMap κ α, m.entries.Nodup := fun m =>
    m.sorted.imp fun h heq => h.ne (congrArg Prod.fst heq)
  have hperm : m.entries.Perm m'.entries :=
    (List.perm_ext_iff_of_nodup (hsorted m) (hsorted m')).mpr hmem
  exact eq_of_perm hperm

end Reading

section Loop

variable {ε σ β : Type} (read : σ → SortedMap κ α) {put : σ → κ × α → σ}
  {R : β → κ × α → Prop} {step : σ → β → Except ε σ}

/-- A loop that makes an entry of each element, and refuses a key that is there, succeeds when all
keys are new and different. -/
theorem foldlM_insert_eq_ok (hput : ∀ s e, read (put s e) = (read s).upsert e.1 fun _ => e.2)
    (hstep : ∀ s b s', step s b = .ok s' ↔ ∃ e, R b e ∧ (read s).get? e.1 = none ∧ s' = put s e) :
    ∀ {l : List β} {s s' : σ}, l.foldlM step s = .ok s' ↔ ∃ es, List.Forall₂ R l es ∧
      (es.map Prod.fst).Nodup ∧ (∀ k ∈ es.map Prod.fst, (read s).get? k = none) ∧
        s' = es.foldl put s
  | [], s, s' => by
    constructor
    · intro h
      obtain rfl := Except.ok.inj h
      exact ⟨[], .nil, List.nodup_nil, fun _ h => absurd h List.not_mem_nil, rfl⟩
    · rintro ⟨es, hall, -, -, rfl⟩
      cases hall
      rfl
  | b :: l, s, s' => by
    rw [List.foldlM_cons, bind_eq_ok]
    constructor
    · rintro ⟨next, hnext, hrest⟩
      obtain ⟨e, he, hnew, rfl⟩ := (hstep s b next).mp hnext
      obtain ⟨es, hall, hnodup, hfresh, rfl⟩ := (foldlM_insert_eq_ok hput hstep).mp hrest
      have hne : ∀ k ∈ es.map Prod.fst, k ≠ e.1 := by
        rintro k hk rfl
        have hread := hfresh _ hk
        rw [hput, get?_upsert_self] at hread
        cases hread
      refine ⟨e :: es, .cons he hall, List.nodup_cons.mpr ⟨fun h => hne _ h rfl, hnodup⟩,
        List.forall_mem_cons.mpr ⟨hnew, fun k hk => ?_⟩, rfl⟩
      rw [← hfresh k hk, hput, get?_upsert_of_ne (hne k hk)]
    · rintro ⟨es, hall, hnodup, hfresh, rfl⟩
      cases hall with
      | @cons _ e _ es he hall =>
        obtain ⟨hnotMem, hnodup⟩ := List.nodup_cons.mp hnodup
        obtain ⟨hnew, hfresh⟩ := List.forall_mem_cons.mp hfresh
        refine ⟨put s e, (hstep _ _ _).mpr ⟨e, he, hnew, rfl⟩, (foldlM_insert_eq_ok hput hstep).mpr
          ⟨es, hall, hnodup, fun k hk => ?_, rfl⟩⟩
        have hne : k ≠ e.1 := fun h => hnotMem (h ▸ hk)
        rw [hput, get?_upsert_of_ne hne]
        exact hfresh k hk

end Loop

end SortedMap

end GroupAgent.Lib
