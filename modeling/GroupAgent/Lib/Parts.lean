import GroupAgent.Lib.Lineage
import Mathlib.Data.List.Induction
import Mathlib.Data.List.Nodup

/-!
# Histories of several owners

A history whose elements have owners is parted when the elements of each owner stand together, one
block after the other. Whoever links each of its elements to the one it added before can only go on
as long as nobody else comes between: **`exists_parted`**.
-/

namespace GroupAgent.Lib

variable {ι α β κ : Type} [DecidableEq ι] {key : α → κ} {parent : α → Option κ}

/-! ## Chains -/

section Linked

variable {prev : Option κ}

omit [DecidableEq ι] in
theorem linked_map {f : β → α} {l : List β} : Linked key parent prev (l.map f) ↔
    Linked (fun b => key (f b)) (fun b => parent (f b)) prev l := by
  induction l generalizing prev with
  | nil => exact Iff.rfl
  | cons b l ih => exact and_congr_right fun _ => ih

omit [DecidableEq ι] in
theorem Linked.parent_mem {l : List α} (h : Linked key parent prev l) {a : α} (ha : a ∈ l) :
    parent a = prev ∨ ∃ b ∈ l, parent a = some (key b) := by
  induction l generalizing prev with
  | nil => cases ha
  | cons b l ih =>
    rcases List.mem_cons.mp ha with rfl | ha
    · exact .inl h.1
    · obtain hb | ⟨b', hmem, hb'⟩ := ih h.2 ha
      · exact .inr ⟨b, List.mem_cons_self, hb⟩
      · exact .inr ⟨b', List.mem_cons_of_mem _ hmem, hb'⟩

omit [DecidableEq ι] in
/-- No two elements of a chain have one parent. -/
theorem Linked.parents_nodup {l : List α} (h : Linked key parent prev l)
    (hkeys : (l.map key).Nodup) (hprev : ∀ a ∈ l, some (key a) ≠ prev) : (l.map parent).Nodup := by
  induction l generalizing prev with
  | nil => exact List.nodup_nil
  | cons a l ih =>
    rw [List.map_cons, List.nodup_cons] at hkeys
    rw [List.map_cons, List.nodup_cons]
    refine ⟨fun hmem => ?_, ih h.2 hkeys.2 fun b hb heq => ?_⟩
    · obtain ⟨b, hb, hparent⟩ := List.mem_map.mp hmem
      have hhead : parent b = prev := hparent.trans h.1
      obtain htop | ⟨b', hb', hparent'⟩ := h.2.parent_mem hb
      · exact hprev a List.mem_cons_self (htop.symm.trans hhead)
      · exact hprev b' (List.mem_cons_of_mem _ hb') (hparent'.symm.trans hhead)
    · exact hkeys.1 (Option.some.inj heq ▸ List.mem_map_of_mem hb)

end Linked

/-! ## Owners -/

/-- What one owner added. -/
def ownedBy (i : ι) (l : List (ι × α)) : List α := (l.filter fun p => p.1 = i).map Prod.snd

/-- The list is laid out in blocks, one for each owner. -/
structure Parted (l : List (ι × α)) (blocks : List (ι × List α)) : Prop where
  owners : (blocks.map Prod.fst).Nodup
  nonempty : ∀ b ∈ blocks, b.2 ≠ []
  layout : l = blocks.flatMap fun b => b.2.map fun a => (b.1, a)

section Owned

variable {l l' : List (ι × α)} {i j : ι} {a : α}

theorem ownedBy_append : ownedBy i (l ++ l') = ownedBy i l ++ ownedBy i l' := by
  unfold ownedBy
  rw [List.filter_append, List.map_append]

theorem ownedBy_cons_self : ownedBy i ((i, a) :: l) = a :: ownedBy i l := by
  unfold ownedBy
  rw [List.filter_cons_of_pos (by simp), List.map_cons]

theorem ownedBy_cons_of_ne (h : j ≠ i) : ownedBy i ((j, a) :: l) = ownedBy i l := by
  unfold ownedBy
  rw [List.filter_cons_of_neg (by simpa using h)]

theorem mem_ownedBy : a ∈ ownedBy i l ↔ (i, a) ∈ l := by
  unfold ownedBy
  simp

theorem ownedBy_block (i j : ι) (as : List α) :
    ownedBy i (as.map fun a => (j, a)) = if j = i then as else [] := by
  unfold ownedBy
  by_cases h : j = i
  · simp [h, List.filter_map, Function.comp_def]
  · simp [h, List.filter_map, Function.comp_def]

end Owned

section Parted

variable {l : List (ι × α)} {blocks : List (ι × List α)}

omit [DecidableEq ι] in
theorem Parted.elements (h : Parted l blocks) : l.map Prod.snd = blocks.flatMap Prod.snd := by
  rw [h.layout, List.map_flatMap]
  simp [Function.comp_def]

/-- The elements of owners that are not `i` are not its. -/
theorem ownedBy_flatMap_of_notMem {i : ι} : ∀ {blocks : List (ι × List α)},
    i ∉ blocks.map Prod.fst → ownedBy i (blocks.flatMap fun b => b.2.map fun a => (b.1, a)) = []
  | [], _ => rfl
  | b :: blocks, h => by
    rw [List.map_cons, List.mem_cons, not_or] at h
    rw [List.flatMap_cons, ownedBy_append, ownedBy_block, if_neg (Ne.symm h.1),
      ownedBy_flatMap_of_notMem h.2, List.nil_append]

/-- **A block holds everything that its owner added.** -/
theorem Parted.owned (h : Parted l blocks) {b : ι × List α} (hb : b ∈ blocks) :
    ownedBy b.1 l = b.2 := by
  obtain ⟨before, after, rfl⟩ := List.append_of_mem hb
  have howners := h.owners
  rw [List.map_append, List.map_cons, List.nodup_middle, List.nodup_cons, List.mem_append,
    not_or] at howners
  rw [h.layout, List.flatMap_append, List.flatMap_cons, ownedBy_append, ownedBy_append,
    ownedBy_flatMap_of_notMem howners.1.1, ownedBy_flatMap_of_notMem howners.1.2, ownedBy_block,
    if_pos rfl, List.nil_append, List.append_nil]

omit [DecidableEq ι] in
/-- Every owner has a block. -/
theorem Parted.block (h : Parted l blocks) {i : ι} {a : α} (ha : (i, a) ∈ l) :
    ∃ as, (i, as) ∈ blocks ∧ a ∈ as := by
  rw [h.layout] at ha
  obtain ⟨⟨j, as⟩, hb, hmem⟩ := List.mem_flatMap.mp ha
  obtain ⟨a', ha', heq⟩ := List.mem_map.mp hmem
  cases heq
  exact ⟨as, hb, ha'⟩

omit [DecidableEq ι] in
/-- A new owner starts a block. -/
theorem Parted.start (h : Parted l blocks) {i : ι} (hi : i ∉ blocks.map Prod.fst) (a : α) :
    Parted (l ++ [(i, a)]) (blocks ++ [(i, [a])]) where
  owners := by
    rw [List.map_append, List.nodup_append]
    refine ⟨h.owners, List.nodup_singleton _, ?_⟩
    rintro j hj _ hk rfl
    obtain rfl := List.mem_singleton.mp hk
    exact hi hj
  nonempty b hb := by
    rcases List.mem_append.mp hb with hb | hb
    · exact h.nonempty b hb
    · rw [List.mem_singleton.mp hb]
      exact List.cons_ne_nil _ _
  layout := by
    rw [List.flatMap_append, ← h.layout]
    rfl

omit [DecidableEq ι] in
/-- The last owner goes on with its block. -/
theorem Parted.extend {b : ι × List α} (h : Parted l (blocks ++ [b])) (a : α) :
    Parted (l ++ [(b.1, a)]) (blocks ++ [(b.1, b.2 ++ [a])]) where
  owners := by
    have howners := h.owners
    rw [List.map_append] at howners ⊢
    exact howners
  nonempty b' hb' := by
    rcases List.mem_append.mp hb' with hb' | hb'
    · exact h.nonempty b' (List.mem_append_left _ hb')
    · rw [List.mem_singleton.mp hb']
      simp
  layout := by
    rw [h.layout]
    simp

/-- **Owners who link each of their elements to the one they added before come one after the
other.** -/
theorem exists_parted {prev : Option κ} {start : ι → Option κ} {l : List (ι × α)}
    (hkeys : (l.map fun p => key p.2).Nodup) (hall : Linked key parent prev (l.map Prod.snd))
    (howned : ∀ i, Linked key parent (start i) (ownedBy i l)) : ∃ blocks, Parted l blocks := by
  induction l using List.reverseRecOn with
  | nil => exact ⟨[], List.nodup_nil, nofun, rfl⟩
  | append_singleton l p ih =>
    obtain ⟨i, a⟩ := p
    rw [List.map_append, List.map_singleton, linked_append] at hall
    rw [List.map_append, List.nodup_append] at hkeys
    obtain ⟨blocks, hparted⟩ := ih hkeys.1 hall.1 fun j => by
      have hj := howned j
      rw [ownedBy_append, linked_append] at hj
      exact hj.1
    have hlast := howned i
    rw [ownedBy_append, ownedBy_cons_self, linked_append] at hlast
    obtain ⟨-, hown, -⟩ := hlast
    cases hi : ownedBy i l using List.reverseRecOn with
    | nil =>
      refine ⟨_, hparted.start (fun hmem => ?_) a⟩
      obtain ⟨b, hb, rfl⟩ := List.mem_map.mp hmem
      exact hparted.nonempty b hb ((hparted.owned hb).symm.trans hi)
    | append_singleton own x =>
      -- both say which element the new one links to
      rw [hi, tip_append] at hown
      have hx : (i, x) ∈ l := mem_ownedBy.mp (by rw [hi]; simp)
      cases blocks using List.reverseRecOn with
      | nil =>
        obtain rfl := hparted.layout
        cases hx
      | append_singleton blocks b =>
        obtain ⟨j, bs⟩ := b
        cases bs using List.reverseRecOn with
        | nil => exact absurd rfl (hparted.nonempty (j, []) (by simp))
        | append_singleton bs y =>
          have hy : l = (blocks.flatMap fun b => b.2.map fun a => (b.1, a)) ++
              bs.map (fun a => (j, a)) ++ [(j, y)] := by
            rw [hparted.layout]
            simp
          have htip := hall.2.1
          rw [hy, List.map_append, tip_append] at htip
          have hkey : key x = key y := Option.some.inj (hown.symm.trans htip)
          have hsame : (i, x) = (j, y) :=
            List.inj_on_of_nodup_map hkeys.1 hx (by rw [hy]; simp) hkey
          obtain rfl : i = j := congrArg Prod.fst hsame
          exact ⟨_, hparted.extend a⟩

end Parted

end GroupAgent.Lib
