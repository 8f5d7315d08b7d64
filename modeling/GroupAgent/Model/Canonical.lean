import GroupAgent.Model.Extensions
import Mathlib.Data.List.Nodup
import Mathlib.Data.List.Perm.Subperm

/-!
# Values up to the order of keys

Model of `canonical` (`schema.rs:139-153` of `crates/group-agent-model/src/structured_output`) and
of `==` on `serde_json::Value`.

* The order of the keys of an object is that of the list, as with the feature `preserve_order`. A
  map that keeps its keys sorted has the values that are `Sorted`.
* `Permuted` is what the canonical form is for: keys moved within an object, at any depth.

Results:
* **`canonical_eq_iff`**: two values have one canonical form exactly when they are permuted.
* `canonical_idempotent`, and `canonical_of_sorted`: a sorted value is its own canonical form.
* `same_iff`: `==` is the same relation on values without numbers, whose two zeros are equal.
  `same_of_sorted`: on sorted values it compares key by key.

Premise: an object has no key twice, which the map of `serde_json` guarantees. The text of a
canonical value is the matter of `Serialize` and `Writing`.
-/

namespace GroupAgent.Model

open GroupAgent.Lib

/-- What a number keeps: a negative one is below zero, and a float is finite. -/
def JsonNumber.Kept : JsonNumber → Prop
  | .posInt _ => True
  | .negInt value => value < 0
  | .float value => value.isFinite

namespace Json

/-! ## Values and what is in them -/

/-- Values by their depth: what holds of a container follows from what holds of what is in it. -/
@[elab_as_elim] theorem induct {motive : Json → Prop} (null : motive .null)
    (bool : ∀ value, motive (.bool value)) (number : ∀ value, motive (.number value))
    (string : ∀ value, motive (.string value))
    (array : ∀ values, (∀ value ∈ values, motive value) → motive (.array values))
    (object : ∀ entries : List (String × Json), (∀ entry ∈ entries, motive entry.2) →
      motive (.object entries)) (value : Json) : motive value :=
  @Json.rec motive (fun values => ∀ value ∈ values, motive value)
    (fun entries => ∀ entry ∈ entries, motive entry.2) (fun entry => motive entry.2)
    null bool number string array object
    (fun _ h => absurd h List.not_mem_nil)
    (fun _ _ hvalue hvalues => List.forall_mem_cons.mpr ⟨hvalue, hvalues⟩)
    (fun _ h => absurd h List.not_mem_nil)
    (fun _ _ hentry hentries => List.forall_mem_cons.mpr ⟨hentry, hentries⟩)
    (fun _ _ hvalue => hvalue) value

mutual

/-- A property of every value in a value, itself included. -/
def Everywhere (p : Json → Prop) : Json → Prop
  | .array values => p (.array values) ∧ EverywhereValues p values
  | .object entries => p (.object entries) ∧ EverywhereEntries p entries
  | value => p value

def EverywhereValues (p : Json → Prop) : List Json → Prop
  | [] => True
  | value :: values => Everywhere p value ∧ EverywhereValues p values

def EverywhereEntries (p : Json → Prop) : List (String × Json) → Prop
  | [] => True
  | (_, value) :: entries => Everywhere p value ∧ EverywhereEntries p entries

end

section Everywhere

variable {p q : Json → Prop} {values : List Json} {entries : List (String × Json)}

theorem everywhere_array :
    Everywhere p (.array values) ↔ p (.array values) ∧ ∀ value ∈ values, Everywhere p value := by
  have hvalues : ∀ values, EverywhereValues p values ↔ ∀ value ∈ values, Everywhere p value := by
    intro values
    induction values with
    | nil => simp [EverywhereValues]
    | cons value values ih => simp [EverywhereValues, ih]
  rw [Everywhere, hvalues]

theorem everywhere_object : Everywhere p (.object entries) ↔
    p (.object entries) ∧ ∀ entry ∈ entries, Everywhere p entry.2 := by
  have hentries : ∀ entries, EverywhereEntries p entries ↔
      ∀ entry ∈ entries, Everywhere p entry.2 := by
    intro entries
    induction entries with
    | nil => simp [EverywhereEntries]
    | cons entry entries ih =>
      rw [EverywhereEntries, ih, List.forall_mem_cons]
  rw [Everywhere, hentries]

end Everywhere

/-- What the types of a value keep. The keys of a map are different. -/
def Kept : Json → Prop
  | .object entries => (entries.map Prod.fst).Nodup
  | .number value => value.Kept
  | _ => True

/-- A `serde_json::Value`. -/
abbrev WellFormed (value : Json) : Prop := value.Everywhere Kept

/-- The keys of an object are in order. -/
def KeysSorted : Json → Prop
  | .object entries => (entries.map Prod.fst).Pairwise (· < ·)
  | _ => True

def NoNumber : Json → Prop
  | .number _ => False
  | _ => True

/-- A value of sorted maps. -/
abbrev Sorted (value : Json) : Prop := value.Everywhere KeysSorted

/-! ## The canonical form -/

mutual

/-- `canonical`. The children are made canonical before the keys are sorted, not after it, which
makes no difference: `canonical_object`. -/
def canonical : Json → Json
  | .object map => .object (SortedMap.empty.insertAll (canonicalEntries map)).entries
  | .array values => .array (canonicalValues values)
  | other => other

def canonicalValues : List Json → List Json
  | [] => []
  | value :: values => canonical value :: canonicalValues values

def canonicalEntries : List (String × Json) → List (String × Json)
  | [] => []
  | (key, value) :: entries => (key, canonical value) :: canonicalEntries entries

end

mutual

/-- `==` of values: the order of keys does not matter. -/
def same : Json → Json → Bool
  | .null, .null => true
  | .bool a, .bool b => a == b
  | .number a, .number b => a.eq b
  | .string a, .string b => a == b
  | .array a, .array b => sameValues a b
  | .object a, .object b => a.length == b.length && sameEntries a b
  | _, _ => false

def sameValues : List Json → List Json → Bool
  | [], [] => true
  | a :: as, b :: bs => same a b && sameValues as bs
  | _, _ => false

/-- Every entry is one of the other map. -/
def sameEntries : List (String × Json) → List (String × Json) → Bool
  | [], _ => true
  | (key, a) :: as, other => (other.lookup key).any (same a) && sameEntries as other

end

/-- Keys moved within an object, at any depth. -/
inductive Permuted : Json → Json → Prop where
  | refl (value : Json) : Permuted value value
  | trans {a b c : Json} : Permuted a b → Permuted b c → Permuted a c
  | keys {entries entries' : List (String × Json)} :
      entries.Perm entries' → Permuted (.object entries) (.object entries')
  | element {a b : Json} (before after : List Json) :
      Permuted a b → Permuted (.array (before ++ a :: after)) (.array (before ++ b :: after))
  | entry {a b : Json} (before : List (String × Json)) (key : String)
      (after : List (String × Json)) : Permuted a b →
        Permuted (.object (before ++ (key, a) :: after)) (.object (before ++ (key, b) :: after))

section Canonical

variable {values : List Json} {entries map : List (String × Json)} {a b c : Json}

/-- An entry with its value changed. -/
def onValue (f : Json → Json) (entry : String × Json) : String × Json := (entry.1, f entry.2)

theorem keys_onValue (f : Json → Json) (entries : List (String × Json)) :
    (entries.map (onValue f)).map Prod.fst = entries.map Prod.fst := by
  rw [List.map_map]
  rfl

theorem canonicalValues_eq (values : List Json) : canonicalValues values = values.map canonical := by
  induction values with
  | nil => rfl
  | cons value values ih => rw [canonicalValues, ih, List.map_cons]

theorem canonicalEntries_eq (entries : List (String × Json)) :
    canonicalEntries entries = entries.map (onValue canonical) := by
  induction entries with
  | nil => rfl
  | cons entry entries ih =>
    rw [canonicalEntries, ih, List.map_cons]
    rfl

theorem canonical_array : canonical (.array values) = .array (values.map canonical) := by
  rw [canonical, canonicalValues_eq]

theorem canonical_sorts : canonical (.object map) =
    .object (SortedMap.empty.insertAll (map.map (onValue canonical))).entries := by
  rw [canonical, canonicalEntries_eq]

/-- The entries of a canonical object are those of the object, in another order. -/
theorem canonical_object_perm (h : (Json.object map).WellFormed) :
    ∃ sorted, canonical (.object map) = .object sorted ∧
      sorted.Perm (map.map (onValue canonical)) ∧ (sorted.map Prod.fst).Pairwise (· < ·) := by
  refine ⟨_, canonical_sorts, SortedMap.insertAll_empty_perm ?_,
    List.pairwise_map.mpr (SortedMap.sorted _)⟩
  rw [keys_onValue]
  exact (everywhere_object.mp h).1

/-! ## Sorted values -/

theorem canonical_sorted (h : a.WellFormed) : (canonical a).Sorted := by
  induction a using induct with
  | array values ih =>
    rw [canonical_array]
    exact everywhere_array.mpr ⟨trivial, List.forall_mem_map.mpr fun value hvalue =>
      ih value hvalue ((everywhere_array.mp h).2 value hvalue)⟩
  | object entries ih =>
    obtain ⟨sorted, hsorted, hperm, hkeys⟩ := canonical_object_perm h
    rw [hsorted]
    refine everywhere_object.mpr ⟨hkeys, fun entry hentry => ?_⟩
    obtain ⟨entry, hmem, rfl⟩ := List.mem_map.mp (hperm.mem_iff.mp hentry)
    exact ih entry hmem ((everywhere_object.mp h).2 entry hmem)
  | _ => exact trivial

/-- A sorted value is its own canonical form. -/
theorem canonical_of_sorted (h : a.Sorted) : canonical a = a := by
  induction a using induct with
  | array values ih =>
    have hvalues : ∀ value ∈ values, canonical value = value := fun value hvalue =>
      ih value hvalue ((everywhere_array.mp h).2 value hvalue)
    rw [canonical_array, List.map_congr_left hvalues, List.map_id']
  | object entries ih =>
    obtain ⟨hkeys, hvalues⟩ := everywhere_object.mp h
    have hentries : ∀ entry ∈ entries, onValue canonical entry = entry := fun entry hentry =>
      Prod.ext rfl (ih entry hentry (hvalues entry hentry))
    rw [canonical_sorts, List.map_congr_left hentries, List.map_id',
      SortedMap.insertAll_sorted hkeys]
  | _ => rfl

/-- A canonical form is its own canonical form. -/
theorem canonical_idempotent (h : a.WellFormed) : canonical (canonical a) = canonical a :=
  canonical_of_sorted (canonical_sorted h)

/-! ## Permuted values -/

namespace Permuted

theorem symm (h : Permuted a b) : Permuted b a := by
  induction h with
  | refl value => exact .refl value
  | trans _ _ ih ih' => exact ih'.trans ih
  | keys hperm => exact .keys hperm.symm
  | element before after _ ih => exact .element before after ih
  | entry before key after _ ih => exact .entry before key after ih

/-- One element after the other. -/
theorem array {f : Json → Json} (h : ∀ value ∈ values, Permuted value (f value)) :
    Permuted (.array values) (.array (values.map f)) := by
  suffices hfrom : ∀ before, Permuted (.array (before ++ values))
      (.array (before ++ values.map f)) from hfrom []
  induction values with
  | nil => exact fun before => .refl _
  | cons value values ih =>
    obtain ⟨hvalue, hvalues⟩ := List.forall_mem_cons.mp h
    intro before
    have hrest := ih hvalues (before ++ [f value])
    rw [List.append_assoc, List.append_assoc] at hrest
    exact (element before values hvalue).trans hrest

/-- One entry after the other. -/
theorem object {f : Json → Json} (h : ∀ entry ∈ entries, Permuted entry.2 (f entry.2)) :
    Permuted (.object entries) (.object (entries.map (onValue f))) := by
  suffices hfrom : ∀ before, Permuted (.object (before ++ entries))
      (.object (before ++ entries.map (onValue f))) from hfrom []
  induction entries with
  | nil => exact fun before => .refl _
  | cons e entries ih =>
    obtain ⟨hentry, hentries⟩ := List.forall_mem_cons.mp h
    intro before
    have hrest := ih hentries (before ++ [onValue f e])
    rw [List.append_assoc, List.append_assoc] at hrest
    exact (entry before e.1 entries hentry).trans hrest

/-- Moving keys keeps a value well formed. -/
theorem wellFormed (h : Permuted a b) : a.WellFormed → b.WellFormed := by
  induction h with
  | refl _ => exact id
  | trans _ _ ih ih' => exact ih' ∘ ih
  | keys hperm =>
    intro ha
    obtain ⟨hkeys, hvalues⟩ := everywhere_object.mp ha
    exact everywhere_object.mpr ⟨(hperm.map Prod.fst).nodup_iff.mp hkeys,
      fun entry hentry => hvalues entry (hperm.mem_iff.mpr hentry)⟩
  | element before after _ ih =>
    simp only [WellFormed, everywhere_array, List.forall_mem_append, List.forall_mem_cons]
    rintro ⟨hkept, hbefore, ha, hafter⟩
    exact ⟨hkept, hbefore, ih ha, hafter⟩
  | entry before key after _ ih =>
    simp only [WellFormed, everywhere_object, List.forall_mem_append, List.forall_mem_cons, Kept,
      List.map_append, List.map_cons]
    rintro ⟨hkept, hbefore, ha, hafter⟩
    exact ⟨hkept, hbefore, ih ha, hafter⟩

/-- Moving keys keeps the canonical form. -/
theorem canonical_eq (h : Permuted a b) : a.WellFormed → a.canonical = b.canonical := by
  induction h with
  | refl _ => exact fun _ => rfl
  | trans hab _ ih ih' => exact fun ha => (ih ha).trans (ih' (hab.wellFormed ha))
  | keys hperm =>
    intro ha
    rw [canonical_sorts, canonical_sorts, SortedMap.insertAll_congr ?_ (hperm.map _)]
    rw [keys_onValue]
    exact (everywhere_object.mp ha).1
  | element before after _ ih =>
    intro ha
    have hmem := (everywhere_array.mp ha).2 _ (List.mem_append_right before List.mem_cons_self)
    rw [canonical_array, canonical_array, List.map_append, List.map_append, List.map_cons,
      List.map_cons, ih hmem]
  | entry before key after _ ih =>
    intro ha
    have hmem := (everywhere_object.mp ha).2 _ (List.mem_append_right before List.mem_cons_self)
    rw [canonical_sorts, canonical_sorts, List.map_append, List.map_append, List.map_cons,
      List.map_cons, onValue, onValue, ih hmem]

end Permuted

/-- The canonical form is reached by moving keys. -/
theorem permuted_canonical (h : a.WellFormed) : Permuted a a.canonical := by
  induction a using induct with
  | array values ih =>
    rw [canonical_array]
    exact .array fun value hvalue => ih value hvalue ((everywhere_array.mp h).2 value hvalue)
  | object entries ih =>
    obtain ⟨sorted, hsorted, hperm, -⟩ := canonical_object_perm h
    have hvalues : Permuted (.object entries) (.object (entries.map (onValue canonical))) :=
      .object fun entry hentry => ih entry hentry ((everywhere_object.mp h).2 entry hentry)
    rw [hsorted]
    exact hvalues.trans (.keys hperm.symm)
  | _ => exact .refl _

/-- **The canonical form tells values apart, up to the order of keys.** -/
theorem canonical_eq_iff (ha : a.WellFormed) (hb : b.WellFormed) :
    a.canonical = b.canonical ↔ Permuted a b := by
  constructor
  · intro h
    have hcanonical := permuted_canonical ha
    rw [h] at hcanonical
    exact hcanonical.trans (permuted_canonical hb).symm
  · exact fun h => h.canonical_eq ha

end Canonical

/-! ## Equality of values -/

section Same

variable {a b : Json}

theorem sameValues_iff {as : List Json} (h : ∀ a ∈ as, ∀ b : Json, b.WellFormed →
    (same a b = true ↔ a.canonical = b.canonical)) : ∀ {bs : List Json},
      (∀ b ∈ bs, b.WellFormed) →
        (sameValues as bs = true ↔ as.map canonical = bs.map canonical) := by
  induction as with
  | nil =>
    intro bs _
    cases bs <;> simp [sameValues]
  | cons a as ih =>
    obtain ⟨ha, has⟩ := List.forall_mem_cons.mp h
    intro bs hbs
    cases bs with
    | nil => simp [sameValues]
    | cons b bs =>
      obtain ⟨hb, hbs⟩ := List.forall_mem_cons.mp hbs
      rw [sameValues, Bool.and_eq_true, ha b hb, ih has hbs, List.map_cons, List.map_cons,
        List.cons.injEq]

theorem sameEntries_iff {other entries : List (String × Json)} :
    sameEntries entries other = true ↔
      ∀ entry ∈ entries, ∃ b, other.lookup entry.1 = some b ∧ same entry.2 b = true := by
  induction entries with
  | nil => simp [sameEntries]
  | cons entry entries ih =>
    rw [sameEntries, Bool.and_eq_true, ih, List.forall_mem_cons, Option.any_eq_true]

/-- Where no key is there twice, a lookup finds each entry. -/
theorem lookup_eq_some {entries : List (String × Json)} (h : (entries.map Prod.fst).Nodup)
    {key : String} : entries.lookup key = some a ↔ (key, a) ∈ entries := by
  induction entries with
  | nil => simp
  | cons entry entries ih =>
    obtain ⟨k, value⟩ := entry
    obtain ⟨hnot, hnodup⟩ := List.nodup_cons.mp h
    rw [List.lookup_cons, List.mem_cons, Prod.mk.injEq]
    by_cases hk : key = k
    · subst hk
      have hmem : (key, a) ∉ entries := fun hmem => hnot (List.mem_map.mpr ⟨_, hmem, rfl⟩)
      simp [hmem, eq_comm]
    · rw [beq_false_of_ne hk, ih hnodup]
      simp [hk]

/-- As many entries, each with an equal one in the other map, are the same entries made canonical. -/
theorem sameEntries_perm {as bs : List (String × Json)} (has : (as.map Prod.fst).Nodup)
    (hbs : (bs.map Prod.fst).Nodup) (h : ∀ entry ∈ as, ∀ entry' ∈ bs,
      (same entry.2 entry'.2 = true ↔ entry.2.canonical = entry'.2.canonical)) :
    (as.length = bs.length ∧ sameEntries as bs = true) ↔
      (as.map (onValue canonical)).Perm (bs.map (onValue canonical)) := by
  rw [sameEntries_iff]
  constructor
  · rintro ⟨hlength, hsame⟩
    have hsub : as.map (onValue canonical) ⊆ bs.map (onValue canonical) := by
      intro entry hentry
      obtain ⟨entry, hmem, rfl⟩ := List.mem_map.mp hentry
      obtain ⟨b, hb, heq⟩ := hsame entry hmem
      have hmem' := (lookup_eq_some hbs).mp hb
      refine List.mem_map.mpr ⟨_, hmem', ?_⟩
      rw [onValue, onValue, (h entry hmem _ hmem').mp heq]
    have hnodup : (as.map (onValue canonical)).Nodup :=
      List.Nodup.of_map Prod.fst (by rwa [keys_onValue])
    refine (List.subperm_of_subset hnodup hsub).perm_of_length_le ?_
    rw [List.length_map, List.length_map, hlength]
  · intro hperm
    refine ⟨by simpa using hperm.length_eq, fun entry hmem => ?_⟩
    obtain ⟨⟨key, b⟩, hmem', heq⟩ :=
      List.mem_map.mp (hperm.mem_iff.mp (List.mem_map_of_mem hmem))
    obtain ⟨hkey, hvalue⟩ := Prod.mk.injEq .. ▸ heq
    subst hkey
    exact ⟨b, (lookup_eq_some hbs).mpr hmem', (h entry hmem _ hmem').mpr hvalue.symm⟩

/-- Two maps with the same entries have one canonical form. -/
theorem canonical_object_eq {as bs : List (String × Json)} (ha : (Json.object as).WellFormed)
    (hb : (Json.object bs).WellFormed) : canonical (.object as) = canonical (.object bs) ↔
      (as.map (onValue canonical)).Perm (bs.map (onValue canonical)) := by
  rw [canonical_sorts, canonical_sorts, object.injEq]
  have hperm : ∀ {entries : List (String × Json)}, (Json.object entries).WellFormed →
      (SortedMap.empty.insertAll (entries.map (onValue canonical))).entries.Perm
        (entries.map (onValue canonical)) := fun h =>
    SortedMap.insertAll_empty_perm (by rw [keys_onValue]; exact (everywhere_object.mp h).1)
  constructor
  · intro h
    exact (hperm ha).symm.trans (h ▸ hperm hb)
  · exact fun h => congrArg _ (SortedMap.eq_of_perm ((hperm ha).trans (h.trans (hperm hb).symm)))

/-- `==` is to have one canonical form. -/
theorem same_iff (hnumber : a.Everywhere NoNumber) (ha : a.WellFormed) (hb : b.WellFormed) :
    same a b = true ↔ a.canonical = b.canonical := by
  induction a using induct generalizing b with
  | number value => exact absurd hnumber id
  | array as ih =>
    cases b with
    | array bs =>
      have hvalues : sameValues as bs = true ↔ as.map canonical = bs.map canonical :=
        sameValues_iff (fun a hmem b hb => ih a hmem ((everywhere_array.mp hnumber).2 a hmem)
          ((everywhere_array.mp ha).2 a hmem) hb) (everywhere_array.mp hb).2
      rw [same, hvalues, canonical_array, canonical_array, array.injEq]
    | _ => simp [same, canonical]
  | object as ih =>
    cases b with
    | object bs =>
      obtain ⟨hkeys, hvalues⟩ := everywhere_object.mp ha
      obtain ⟨hkeys', hvalues'⟩ := everywhere_object.mp hb
      rw [canonical_object_eq ha hb, same, Bool.and_eq_true, beq_iff_eq]
      exact sameEntries_perm hkeys hkeys' fun entry hmem entry' hmem' => ih entry hmem
        ((everywhere_object.mp hnumber).2 entry hmem) (hvalues entry hmem) (hvalues' entry' hmem')
    | _ => simp [same, canonical]
  | _ => cases b <;> simp [same, canonical]

/-! ## Equality of sorted values -/

/-- Entries at another key are not looked at. -/
theorem sameEntries_cons {entry : String × Json} {other : List (String × Json)} :
    ∀ {entries : List (String × Json)}, entry.1 ∉ entries.map Prod.fst →
      sameEntries entries (entry :: other) = sameEntries entries other
  | [], _ => rfl
  | (key, a) :: entries, h => by
    obtain ⟨hne, hrest⟩ := not_or.mp (List.mem_cons.not.mp h)
    rw [sameEntries, sameEntries, List.lookup_cons, beq_false_of_ne (Ne.symm hne),
      sameEntries_cons hrest]

/-- As many entries, each at a key of the other map, are at the same keys. -/
theorem keys_eq {as bs : List (String × Json)} (has : (as.map Prod.fst).Pairwise (· < ·))
    (hbs : (bs.map Prod.fst).Pairwise (· < ·)) (hlength : as.length = bs.length)
    (hsame : sameEntries as bs = true) : as.map Prod.fst = bs.map Prod.fst := by
  have hsub : as.map Prod.fst ⊆ bs.map Prod.fst := by
    intro key hkey
    obtain ⟨entry, hmem, rfl⟩ := List.mem_map.mp hkey
    obtain ⟨b, hb, -⟩ := sameEntries_iff.mp hsame entry hmem
    exact List.mem_map.mpr ⟨_, (lookup_eq_some (hbs.imp ne_of_lt)).mp hb, rfl⟩
  have hperm : (as.map Prod.fst).Perm (bs.map Prod.fst) :=
    (List.subperm_of_subset (has.imp ne_of_lt) hsub).perm_of_length_le (by simp [hlength])
  exact hperm.eq_of_pairwise (fun _ _ _ _ h h' => absurd (h.trans h') (lt_irrefl _)) has hbs

/-- With the keys of both in order, the entries are compared one after the other. -/
theorem eqEntries_iff : ∀ {as bs : List (String × Json)},
    (as.map Prod.fst).Pairwise (· < ·) → (bs.map Prod.fst).Pairwise (· < ·) →
      (∀ entry ∈ as, ∀ entry' ∈ bs, entry.2.same entry'.2 = entry.2.eq entry'.2) →
        (eqEntries as bs = true ↔ as.length = bs.length ∧ sameEntries as bs = true)
  | [], [], _, _, _ => by simp [eqEntries, sameEntries]
  | [], _ :: _, _, _, _ => by simp [eqEntries]
  | _ :: _, [], _, _, _ => by simp [eqEntries]
  | (key, a) :: as, (key', b) :: bs, has, hbs, h => by
    by_cases hne : key = key'
    · subst hne
      obtain ⟨hkey, has⟩ := List.pairwise_cons.mp has
      obtain ⟨-, hbs⟩ := List.pairwise_cons.mp hbs
      have hnot : key ∉ as.map Prod.fst := fun hmem => lt_irrefl _ (hkey key hmem)
      have hrest := eqEntries_iff has hbs fun entry hmem entry' hmem' =>
        h entry (List.mem_cons_of_mem _ hmem) entry' (List.mem_cons_of_mem _ hmem')
      have hhead := h (key, a) List.mem_cons_self (key, b) List.mem_cons_self
      rw [eqEntries, sameEntries, sameEntries_cons hnot, List.lookup_cons]
      simp only [beq_self_eq_true, Bool.true_and, Bool.and_eq_true, Option.any_some, hrest,
        List.length_cons, Nat.add_right_cancel_iff, ← hhead]
      exact and_left_comm
    · constructor
      · intro heq
        simp [eqEntries, hne] at heq
      · rintro ⟨hlength, hsame⟩
        exact absurd (List.cons.inj (keys_eq has hbs hlength hsame)).1 hne

/-- For sorted maps, `==` compares the entries in order. -/
theorem same_of_sorted (ha : a.Sorted) (hb : b.Sorted) : same a b = a.eq b := by
  induction a using induct generalizing b with
  | array as ih =>
    cases b with
    | array bs =>
      rw [same, Json.eq]
      have hvalues := (everywhere_array.mp ha).2
      have hvalues' := (everywhere_array.mp hb).2
      clear ha hb
      induction as generalizing bs with
      | nil => cases bs <;> rfl
      | cons a as ihs =>
        cases bs with
        | nil => rfl
        | cons b bs =>
          obtain ⟨ha, has⟩ := List.forall_mem_cons.mp hvalues
          obtain ⟨hb, hbs⟩ := List.forall_mem_cons.mp hvalues'
          rw [sameValues, eqValues, ih a List.mem_cons_self ha hb,
            ihs (fun a hmem => ih a (List.mem_cons_of_mem _ hmem)) bs has hbs]
    | _ => rfl
  | object as ih =>
    cases b with
    | object bs =>
      obtain ⟨hkeys, hvalues⟩ := everywhere_object.mp ha
      obtain ⟨hkeys', hvalues'⟩ := everywhere_object.mp hb
      rw [same, Json.eq, Bool.eq_iff_iff, Bool.and_eq_true, beq_iff_eq]
      exact (eqEntries_iff hkeys hkeys' fun entry hmem entry' hmem' =>
        ih entry hmem (hvalues entry hmem) (hvalues' entry' hmem')).symm
    | _ => rfl
  | _ => cases b <;> rfl

end Same

end Json

end GroupAgent.Model
