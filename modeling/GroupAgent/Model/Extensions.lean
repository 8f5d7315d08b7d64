import GroupAgent.Lib.SortedMap
import GroupAgent.Lib.Except
import Mathlib.Data.List.DropRight

/-!
# JSON values and extensions

`serde_json::Value` as the model crate uses it, and `Extensions` (`extensions.rs:15`, `insert`
38-51, the merging of two 93-120) of `crates/group-agent-model/src`.

* A number is a nonnegative integer of 64 bits, a negative one, or a float. A float is its bits;
  comparisons are those of IEEE 754 on the bits, and nothing is computed.
* `str::trim` removes Unicode white space, `char::is_whitespace`.
* The keys of `Extensions` are trimmed and nonempty, which is a field. They are kept in the order
  of a `BTreeMap`, as a sorted map of `Lib`.
* A merge checks every key before it changes any.

Out of scope: `Debug`, which prints the number of entries, and the deserialization of `Extensions`,
which no modelled function calls.
-/

namespace GroupAgent.Model

open GroupAgent.Lib

/-! ## White space -/

/-- `char::is_whitespace`: the Unicode property `White_Space`. -/
def isWhitespace (c : Char) : Bool :=
  let n := c.toNat
  (0x9 ≤ n && n ≤ 0xD) || n == 0x20 || n == 0x85 || n == 0xA0 || n == 0x1680 ||
    (0x2000 ≤ n && n ≤ 0x200A) || n == 0x2028 || n == 0x2029 || n == 0x202F || n == 0x205F ||
    n == 0x3000

/-- `str::trim`. -/
def trim (s : String) : String :=
  String.ofList ((s.toList.dropWhile isWhitespace).reverse.dropWhile isWhitespace).reverse

theorem trim_toList (s : String) :
    (trim s).toList = (s.toList.dropWhile isWhitespace).rdropWhile isWhitespace := by
  unfold trim
  rw [String.toList_ofList]
  rfl

/-- A trimmed text is trimmed. -/
theorem trim_trim (s : String) : trim (trim s) = trim s := by
  apply String.toList_inj.mp
  rw [trim_toList, trim_toList]
  generalize hl : s.toList.dropWhile isWhitespace = l
  have hhead : ∀ c ∈ (l.rdropWhile isWhitespace).head?, isWhitespace c = false := by
    intro c hc
    obtain ⟨t, ht⟩ := List.rdropWhile_prefix isWhitespace (l := l)
    cases hr : l.rdropWhile isWhitespace with
    | nil =>
      rw [hr] at hc
      cases hc
    | cons d r =>
      rw [hr] at hc ht
      cases hc
      have hd : l.head? = some c := by
        rw [← ht]
        rfl
      have hnot := List.head?_dropWhile_not isWhitespace s.toList
      rw [hl, hd] at hnot
      simpa using hnot
  have hdrop : (l.rdropWhile isWhitespace).dropWhile isWhitespace = l.rdropWhile isWhitespace := by
    cases hr : l.rdropWhile isWhitespace with
    | nil => rfl
    | cons d r =>
      rw [List.dropWhile_cons_of_neg]
      rw [hhead d (by rw [hr]; rfl)]
      exact Bool.false_ne_true
  rw [hdrop, List.rdropWhile_idempotent]

/-! ## Floats and JSON -/

/-- A 64-bit float, by its bits. -/
structure F64 where
  bits : UInt64
  deriving DecidableEq, Repr

namespace F64

/-- The bits without the sign. -/
def magnitude (x : F64) : UInt64 := x.bits &&& 0x7FFFFFFFFFFFFFFF

def isFinite (x : F64) : Bool := x.magnitude < 0x7FF0000000000000

/-- `x < 0.0`, for a finite `x`. -/
def ltZero (x : F64) : Bool := x.bits != x.magnitude && x.magnitude != 0

/-- `x > 1.0`, for a finite `x`. -/
def gtOne (x : F64) : Bool := x.bits == x.magnitude && 0x3FF0000000000000 < x.magnitude

/-- `x == y`, for finite values: the two zeros are equal. -/
def eq (x y : F64) : Bool := x.bits == y.bits || (x.magnitude == 0 && y.magnitude == 0)

end F64

/-- `serde_json::Number`. A float in a JSON value is finite. -/
inductive JsonNumber where
  | posInt (value : UInt64)
  | negInt (value : Int64)
  | float (value : F64)

def JsonNumber.eq : JsonNumber → JsonNumber → Bool
  | .posInt a, .posInt b => a == b
  | .negInt a, .negInt b => a == b
  | .float a, .float b => a.eq b
  | _, _ => false

/-- `serde_json::Value`, objects with their entries in key order. -/
inductive Json where
  | null
  | bool (value : Bool)
  | number (value : JsonNumber)
  | string (value : String)
  | array (values : List Json)
  | object (entries : List (String × Json))

mutual

/-- `==` on JSON values. -/
def Json.eq : Json → Json → Bool
  | .null, .null => true
  | .bool a, .bool b => a == b
  | .number a, .number b => a.eq b
  | .string a, .string b => a == b
  | .array a, .array b => Json.eqValues a b
  | .object a, .object b => Json.eqEntries a b
  | _, _ => false

def Json.eqValues : List Json → List Json → Bool
  | [], [] => true
  | a :: as, b :: bs => Json.eq a b && Json.eqValues as bs
  | _, _ => false

def Json.eqEntries : List (String × Json) → List (String × Json) → Bool
  | [], [] => true
  | (k, a) :: as, (l, b) :: bs => k == l && Json.eq a b && Json.eqEntries as bs
  | _, _ => false

end

theorem JsonNumber.eq_refl (a : JsonNumber) : a.eq a = true := by
  cases a <;> simp [JsonNumber.eq, F64.eq]

mutual

/-- A value equals itself: no float in it is a NaN. -/
theorem Json.eq_refl : ∀ a : Json, a.eq a = true
  | .null => by simp [Json.eq]
  | .bool _ => by simp [Json.eq]
  | .number n => by simp [Json.eq, n.eq_refl]
  | .string _ => by simp [Json.eq]
  | .array as => by simp [Json.eq, Json.eqValues_refl as]
  | .object as => by simp [Json.eq, Json.eqEntries_refl as]

theorem Json.eqValues_refl : ∀ as : List Json, Json.eqValues as as = true
  | [] => by simp [Json.eqValues]
  | a :: as => by simp [Json.eqValues, Json.eq_refl a, Json.eqValues_refl as]

theorem Json.eqEntries_refl : ∀ as : List (String × Json), Json.eqEntries as as = true
  | [] => by simp [Json.eqEntries]
  | (_, a) :: as => by simp [Json.eqEntries, Json.eq_refl a, Json.eqEntries_refl as]

end

/-! ## Reading JSON -/

/-- `Value::get` of a field. -/
def field? (value : Json) (key : String) : Option Json :=
  match value with
  | .object entries => entries.lookup key
  | _ => none

def asObject? : Json → Option (List (String × Json))
  | .object entries => some entries
  | _ => none

def asArray? : Json → Option (List Json)
  | .array values => some values
  | _ => none

def asStr? : Json → Option String
  | .string value => some value
  | _ => none

def asBool? : Json → Option Bool
  | .bool value => some value
  | _ => none

/-- `Value::as_u64`. -/
def asU64? : Json → Option UInt64
  | .number (.posInt value) => some value
  | _ => none

def isNull : Json → Bool
  | .null => true
  | _ => false

/-- A field that is there and not null. -/
def nonnull (value : Option Json) : Option Json := value.filter fun v => !isNull v

/-- A value that is there is the expected one. -/
theorem any_ne_eq_false {α : Type} [DecidableEq α] {value : Option α} {a : α} :
    value.any (· ≠ a) = false ↔ ∀ b ∈ value, b = a := by
  cases value <;> simp

/-- `Map::insert` of an object. -/
def setField (key : String) (value : Json) : Json → Json
  | .object entries => .object (upsertEntries key (fun _ => value) entries)
  | other => other

/-- `Map::remove` of an object. -/
def eraseField (key : String) : Json → Json
  | .object entries => .object (entries.filter fun entry => entry.1 ≠ key)
  | other => other

/-! ## Extensions -/

/-- A key as `Extensions` keeps it: trimmed and nonempty. -/
def IsKey (key : String) : Prop := trim key = key ∧ key ≠ ""

/-- Ordered provider-neutral extension data. -/
structure Extensions where
  map : SortedMap String Json
  keys : ∀ e ∈ map.entries, IsKey e.1

/-- Conflicting cumulative or fragmented extension data. -/
inductive ExtensionMergeError where
  | conflictingValue (key : String)
  deriving DecidableEq, Repr

/-- An entry that cannot be inserted. -/
inductive ExtensionError where
  | emptyKey
  | duplicateKey (key : String)
  deriving DecidableEq, Repr

namespace Extensions

def empty : Extensions := ⟨.empty, fun _ h => absurd h List.not_mem_nil⟩

def length (self : Extensions) : Nat := self.map.length

def get? (self : Extensions) (key : String) : Option Json := self.map.get? key

/-- Insert a value at a new key, trimmed. -/
def insert (self : Extensions) (key : String) (value : Json) : Except ExtensionError Extensions :=
  if h : trim key = "" then .error .emptyKey
  else if (self.map.get? (trim key)).isSome then .error (.duplicateKey (trim key))
  else .ok ⟨self.map.upsert (trim key) fun _ => value, fun e he => by
    rcases upsertEntries_keys he with hkey | hkey
    · rw [hkey]
      exact ⟨trim_trim key, h⟩
    · exact self.keys e hkey⟩

/-- How many keys of `other` are new, if none conflicts. -/
def validateIdempotentMerge (self other : Extensions) : Except ExtensionMergeError Nat :=
  other.map.entries.foldlM (fun additionalKeys (key, value) =>
    match self.get? key with
    | some existing =>
      if existing.eq value then .ok additionalKeys else .error (.conflictingValue key)
    | none => .ok (additionalKeys + 1)) 0

theorem foldl_upsert_keys {f : Json → Option Json → Json} :
    ∀ {l : List (String × Json)} {m : SortedMap String Json}, (∀ e ∈ m.entries, IsKey e.1) →
      (∀ e ∈ l, IsKey e.1) →
      ∀ e ∈ (l.foldl (fun m e => m.upsert e.1 (f e.2)) m).entries, IsKey e.1
  | [], _, hm, _ => hm
  | d :: l, m, hm, hl => by
    refine foldl_upsert_keys (l := l) (fun e he => ?_) fun e he => hl e (List.mem_cons_of_mem d he)
    rcases upsertEntries_keys he with h | h
    · rw [h]
      exact hl d List.mem_cons_self
    · exact hm e h

/-- Insert the keys that are new. -/
def commitIdempotentMerge (self other : Extensions) : Extensions :=
  ⟨self.map.orInsertAll other.map, foldl_upsert_keys (f := fun v old => old.getD v) self.keys other.keys⟩

/-! ## What a merge adds -/

theorem validateEntries_eq_ok {self : Extensions} : ∀ {l : List (String × Json)} {k n : Nat},
    l.foldlM (fun additionalKeys (key, value) =>
      match self.get? key with
      | some existing =>
        if existing.eq value then (.ok additionalKeys : Except ExtensionMergeError Nat)
        else .error (.conflictingValue key)
      | none => .ok (additionalKeys + 1)) k = .ok n →
      n = k + l.countP fun e => decide ((self.get? e.1).isNone)
  | [], k, n, h => by
    cases h
    rfl
  | e :: l, k, n, h => by
    rw [List.foldlM_cons] at h
    obtain ⟨j, hj, h⟩ := bind_eq_ok.mp h
    rw [validateEntries_eq_ok h, List.countP_cons]
    simp only at hj
    cases hget : self.get? e.1 with
    | none =>
      rw [hget] at hj
      cases hj
      simp
      omega
    | some existing =>
      rw [hget] at hj
      simp only at hj
      split at hj
      · cases hj
        simp
      · cases hj

/-- A merge that is checked adds the keys that were counted. -/
theorem length_commit {self other : Extensions} {n : Nat}
    (h : self.validateIdempotentMerge other = .ok n) :
    (self.commitIdempotentMerge other).length = self.length + n := by
  unfold validateIdempotentMerge at h
  rw [validateEntries_eq_ok h, Nat.zero_add]
  exact SortedMap.length_orInsertAll self.map other.map

/-- A merge is accepted exactly when the values at keys that are there already are the same. -/
theorem validate_iff {self other : Extensions} : (∃ n, self.validateIdempotentMerge other = .ok n) ↔
    ∀ key existing value, self.get? key = some existing → other.get? key = some value →
      existing.eq value = true := by
  have hmem : ∀ e, e ∈ other.map.entries ↔ other.get? e.1 = some e.2 := fun e => SortedMap.mem_entries
  have hentries : (∀ key existing value, self.get? key = some existing → other.get? key = some value →
      existing.eq value = true) ↔
      ∀ e ∈ other.map.entries, ∀ existing, self.get? e.1 = some existing → existing.eq e.2 = true :=
    ⟨fun h e he existing hget => h e.1 existing e.2 hget ((hmem e).mp he),
      fun h key existing value hget hother => h (key, value) ((hmem (key, value)).mpr hother) existing hget⟩
  rw [hentries]
  unfold validateIdempotentMerge
  generalize 0 = count
  generalize other.map.entries = l
  induction l generalizing count with
  | nil => exact ⟨nofun, fun _ => ⟨count, rfl⟩⟩
  | cons e l ih =>
    rw [List.foldlM_cons, List.forall_mem_cons]
    cases hget : self.get? e.1 with
    | none =>
      simp only [hget, ok_bind]
      exact (ih (count + 1)).trans ⟨fun h => ⟨nofun, h⟩, fun h => h.2⟩
    | some existing =>
      by_cases he : existing.eq e.2 = true
      · simp only [hget, he, if_true, ok_bind]
        exact (ih count).trans ⟨fun h => ⟨fun _ hx => Option.some.inj hx ▸ he, h⟩, fun h => h.2⟩
      · simp only [hget, he]
        exact ⟨nofun, fun h => absurd (h.1 existing rfl) he⟩

theorem get?_commit (self other : Extensions) (key : String) :
    (self.commitIdempotentMerge other).get? key = (self.get? key).or (other.get? key) :=
  SortedMap.get?_orInsertAll self.map other.map key

@[ext] theorem ext_get? {a b : Extensions} (h : ∀ key, a.get? key = b.get? key) : a = b := by
  obtain ⟨a, _⟩ := a
  obtain ⟨b, _⟩ := b
  obtain rfl : a = b := SortedMap.ext_get? h
  rfl

@[simp] theorem commit_empty (self : Extensions) : self.commitIdempotentMerge .empty = self := rfl

@[simp] theorem validate_empty (self : Extensions) : self.validateIdempotentMerge .empty = .ok 0 := rfl

end Extensions

end GroupAgent.Model
