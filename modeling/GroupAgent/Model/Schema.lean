import GroupAgent.Model.Serialize
import Mathlib.Algebra.BigOperators.Group.List.Basic
import Mathlib.Algebra.GroupWithZero.Nat

/-!
# Admission of output schemas

Model of `admit` and `visit` (`schema.rs:5-27`, 34-136 of
`crates/group-agent-model/src/structured_output`), the admission of an output schema, and of the
profile `group-json-output/1` it is for (`docs/specs/022-structured-output.md`).

* `visit` goes through a schema with three counters that all its calls share: properties, enum
  entries, and bytes of text. They are threaded through the recursion here; `usize` does not
  overflow on a value in memory.
* `InProfile` states the profile without an order of checks: the name, the kinds, the keywords each
  kind allows, what an object requires of its properties (`Profiled`), and the limits on depth, on
  the counters and on the serialized size.
* The size of a schema in bytes is that of its compact form (`Serialize`), with the texts of floats
  as a parameter.

Results: **`admit_iff`**: a name and a schema are admitted exactly when they are of the profile.

Out of scope: which of several errors a schema outside the profile gives, beyond what the
definitions say.
-/

namespace GroupAgent.Model

open GroupAgent.Lib

/-! ## Admission -/

/-- Admission failure for the bounded schema profile. -/
inductive OutputSchemaError where
  | invalidName
  | unsupportedProfile
  | limitExceeded
  | compilation (source : String)
  deriving DecidableEq, Repr

/-- Whether a byte may stand in the name of a contract. -/
def isNameByte (b : UInt8) : Bool :=
  (0x30 ≤ b && b ≤ 0x39) || (0x41 ≤ b && b ≤ 0x5A) || (0x61 ≤ b && b ≤ 0x7A) || b == 0x5F ||
    b == 0x2D

/-- What has been counted so far, over the whole schema. -/
@[ext] structure Counts where
  properties : Nat
  enums : Nat
  bytes : Nat
  deriving DecidableEq, Repr

/-- `ok_or(Error::UnsupportedProfile)`. -/
def orUnsupported {α : Type} : Option α → Except OutputSchemaError α
  | some a => .ok a
  | none => .error .unsupportedProfile

/-- The type a node names, alone or with `null`. -/
def kindOf (obj : List (String × Json)) : Except OutputSchemaError String :=
  match obj.lookup "type" with
  | some (.string s) => .ok s
  | some (.array [a, b]) => do
    let a ← orUnsupported (asStr? a)
    let b ← orUnsupported (asStr? b)
    if a = "null" ∧ b ≠ "null" then .ok b
    else if b = "null" ∧ a ≠ "null" then .ok a
    else .error .unsupportedProfile
  | _ => .error .unsupportedProfile

/-- Whether a node of a type may have a keyword. -/
def allowedKey (kind key : String) : Bool :=
  if key = "type" ∨ key = "description" then true
  else if key = "properties" ∨ key = "required" ∨ key = "additionalProperties" then kind = "object"
  else if key = "items" then kind = "array"
  else if key = "enum" then kind = "string"
  else false

/-- A name that is required must be a new one, of a property. -/
def requireName (properties : List (String × Json)) (names : List String) (name : String) :
    Except OutputSchemaError (List String) :=
  if (properties.lookup name).isNone ∨ name ∈ names then .error .unsupportedProfile
  else .ok (names ++ [name])

def checkRequired (properties : List (String × Json)) (required : List Json) :
    Except OutputSchemaError (List String) :=
  required.foldlM
    (fun names name => orUnsupported (asStr? name) >>= requireName properties names) []

/-- An entry of an enum: a text, or null where `nullable`. -/
def entryOf (nullable : Bool) (value : Json) : Except OutputSchemaError (Option String) :=
  if isNull value ∧ nullable then .ok none else some <$> orUnsupported (asStr? value)

/-- An entry of an enum must be a new one. Its bytes count. -/
def admitEntry (state : List (Option String) × Counts) (entry : Option String) :
    Except OutputSchemaError (List (Option String) × Counts) :=
  if entry ∈ state.1 then .error .unsupportedProfile
  else
    .ok (state.1 ++ [entry],
      { state.2 with bytes := state.2.bytes + entry.elim 0 String.utf8ByteSize })

def checkEnum (nullable : Bool) (values : List Json) (counts : Counts) :
    Except OutputSchemaError Counts := do
  let (_, counts) ←
    values.foldlM (fun state value => entryOf nullable value >>= admitEntry state) ([], counts)
  pure counts

/-- A property is counted by its name, and its schema is visited. -/
def visitProperty (visit : Json → Counts → Except OutputSchemaError Counts) (counts : Counts)
    (property : String × Json) : Except OutputSchemaError Counts :=
  let counts := { counts with bytes := counts.bytes + property.1.utf8ByteSize }
  if 16384 < counts.bytes then .error .limitExceeded else visit property.2 counts

/-- The keywords of the type of a node, with `visit` for the nodes below it. -/
def visitKind (visit : Json → Counts → Except OutputSchemaError Counts) (obj : List (String × Json))
    (counts : Counts) (kind : String) : Except OutputSchemaError Counts :=
  match kind with
  | "object" => do
    let properties ← orUnsupported ((obj.lookup "properties").bind asObject?)
    let required ← orUnsupported ((obj.lookup "required").bind asArray?)
    if (obj.lookup "additionalProperties").bind asBool? ≠ some false ∨
        required.length ≠ properties.length then
      throw .unsupportedProfile
    let _ ← checkRequired properties required
    let counts := { counts with properties := counts.properties + properties.length }
    if 256 < counts.properties then throw .limitExceeded
    properties.foldlM (visitProperty visit) counts
  | "array" => do
    let items ← orUnsupported (obj.lookup "items")
    visit items counts
  | "string" =>
    match obj.lookup "enum" with
    | some values => do
      let values ← orUnsupported (asArray? values)
      if values = [] then throw .unsupportedProfile
      let counts := { counts with enums := counts.enums + values.length }
      if 256 < counts.enums then throw .limitExceeded
      checkEnum ((obj.lookup "type").bind asArray?).isSome values counts
    | none => pure counts
  | "number" | "integer" | "boolean" => pure counts
  | _ => throw .unsupportedProfile

/-- The description of a node, if it has one. -/
def visitDescription (obj : List (String × Json)) (counts : Counts) :
    Except OutputSchemaError Counts :=
  match obj.lookup "description" with
  | some description => do
    let description ← orUnsupported (asStr? description)
    pure { counts with bytes := counts.bytes + description.utf8ByteSize }
  | none => pure counts

/-- Check a node of the schema, and count what is in it. -/
def visit (schema : Json) (depth : Nat) (counts : Counts) : Except OutputSchemaError Counts :=
  if _ : 8 < depth then .error .limitExceeded
  else do
    let obj ← orUnsupported (asObject? schema)
    let kind ← kindOf obj
    (obj.map Prod.fst).forM fun key =>
      if allowedKey kind key then pure () else throw .unsupportedProfile
    let counts ← visitDescription obj counts
    let counts ← visitKind (fun child counts => visit child (depth + 1) counts) obj counts kind
    if 16384 < counts.bytes then throw .limitExceeded
    pure counts
termination_by 9 - depth
decreasing_by omega

/-- Admit a schema under a name. -/
def admitSchema (zmij : F64 → List UInt8) (name : String) (schema : Json) :
    Except OutputSchemaError Unit := do
  if name = "" ∨ 64 < name.utf8ByteSize ∨ ¬(utf8Bytes name).all isNameByte then throw .invalidName
  let _ ← visit schema 1 ⟨0, 0, 0⟩
  if (field? schema "type").bind asStr? ≠ some "object" then throw .unsupportedProfile
  if 65536 < (schema.toVec zmij).length then throw .limitExceeded

/-! ## The profile -/

/-- The types of the profile. -/
inductive SchemaKind where
  | object
  | array
  | string
  | integer
  | number
  | boolean
  deriving DecidableEq, Repr

def SchemaKind.name : SchemaKind → String
  | .object => "object"
  | .array => "array"
  | .string => "string"
  | .integer => "integer"
  | .number => "number"
  | .boolean => "boolean"

/-- The keywords a node of a type may have. -/
def SchemaKind.keywords : SchemaKind → List String
  | .object => ["type", "description", "properties", "required", "additionalProperties"]
  | .array => ["type", "description", "items"]
  | .string => ["type", "description", "enum"]
  | .integer | .number | .boolean => ["type", "description"]

/-- The type of a node: alone, or nullable, with `null` on either side. -/
inductive Typed (kind : SchemaKind) : (nullable : Bool) → Json → Prop where
  | plain : Typed kind false (.string kind.name)
  | nullLast : Typed kind true (.array [.string kind.name, .string "null"])
  | nullFirst : Typed kind true (.array [.string "null", .string kind.name])

/-- An entry of an enum: a text, or null. -/
def enumEntry : Option String → Json
  | none => .null
  | some text => .string text

/-- What a node of a type has besides its description, where `child` is what holds of the nodes
below it. -/
def Shape (child : Json → Prop) (obj : List (String × Json)) (nullable : Bool) : SchemaKind → Prop
  | .object => ∃ (properties : List (String × Json)) (required : List String),
      obj.lookup "properties" = some (.object properties) ∧
      obj.lookup "required" = some (.array (required.map .string)) ∧
      (required.Nodup ∧ required.Perm (properties.map Prod.fst)) ∧
      obj.lookup "additionalProperties" = some (.bool false) ∧ ∀ entry ∈ properties, child entry.2
  | .array => ∃ items, obj.lookup "items" = some items ∧ child items
  | .string => ∀ enum ∈ obj.lookup "enum", ∃ entries : List (Option String),
      enum = .array (entries.map enumEntry) ∧ entries ≠ [] ∧ entries.Nodup ∧
        (none ∈ entries → nullable)
  | .integer | .number | .boolean => True

/-- A node of the profile, with at most so many levels of nodes. -/
def Profiled : (levels : Nat) → Json → Prop
  | 0, _ => False
  | levels + 1, schema => ∃ obj type kind nullable, schema = .object obj ∧
      obj.lookup "type" = some type ∧ Typed kind nullable type ∧
      (∀ key ∈ obj.map Prod.fst, key ∈ kind.keywords) ∧
      (∀ description ∈ obj.lookup "description", ∃ text, description = .string text) ∧
      Shape (Profiled levels) obj nullable kind

/-- The nodes directly below a node. -/
def childNodes (obj : List (String × Json)) : List Json :=
  (((obj.lookup "properties").bind asObject?).getD []).map Prod.snd ++ (obj.lookup "items").toList

/-- The nodes of a schema, on the first levels. -/
def schemaNodes : (levels : Nat) → Json → List (List (String × Json))
  | 0, _ => []
  | levels + 1, schema => ((asObject? schema).toList).flatMap fun obj =>
      obj :: (childNodes obj).flatMap (schemaNodes levels)

/-- What is counted at one node: its properties, its enum entries, and the bytes of its description,
of the names of its properties, and of its enum. -/
def nodeCounts (obj : List (String × Json)) : Counts :=
  let properties := ((obj.lookup "properties").bind asObject?).getD []
  let enum := ((obj.lookup "enum").bind asArray?).getD []
  let texts := ((obj.lookup "description").bind asStr?).toList ++ properties.map Prod.fst ++
    enum.filterMap asStr?
  ⟨properties.length, enum.length, (texts.map String.utf8ByteSize).sum⟩

instance : Zero Counts := ⟨⟨0, 0, 0⟩⟩

instance : Add Counts :=
  ⟨fun a b => ⟨a.properties + b.properties, a.enums + b.enums, a.bytes + b.bytes⟩⟩

@[simp] theorem Counts.properties_add (a b : Counts) :
    (a + b).properties = a.properties + b.properties := rfl

@[simp] theorem Counts.enums_add (a b : Counts) : (a + b).enums = a.enums + b.enums := rfl

@[simp] theorem Counts.bytes_add (a b : Counts) : (a + b).bytes = a.bytes + b.bytes := rfl

@[simp] theorem Counts.properties_zero : (0 : Counts).properties = 0 := rfl

@[simp] theorem Counts.enums_zero : (0 : Counts).enums = 0 := rfl

@[simp] theorem Counts.bytes_zero : (0 : Counts).bytes = 0 := rfl

instance : AddCommMonoid Counts where
  add_assoc a b c := by ext <;> simp <;> omega
  zero_add a := by ext <;> simp
  add_zero a := by ext <;> simp
  add_comm a b := by ext <;> simp <;> omega
  nsmul := nsmulRec

/-- What is counted over a schema. -/
def schemaCounts (levels : Nat) (schema : Json) : Counts :=
  ((schemaNodes levels schema).map nodeCounts).sum

/-- The bounds of the profile. -/
structure Counts.Within (counts : Counts) : Prop where
  properties : counts.properties ≤ 256
  enums : counts.enums ≤ 256
  bytes : counts.bytes ≤ 16384

/-- The characters of a name. -/
def NameChar (c : Char) : Prop :=
  ('A' ≤ c ∧ c ≤ 'Z') ∨ ('a' ≤ c ∧ c ≤ 'z') ∨ ('0' ≤ c ∧ c ≤ '9') ∨ c = '_' ∨ c = '-'

/-- The profile `group-json-output/1`, of a schema under a name. -/
structure InProfile (zmij : F64 → List UInt8) (name : String) (schema : Json) : Prop where
  length : 1 ≤ name.toList.length ∧ name.toList.length ≤ 64
  name : ∀ c ∈ name.toList, NameChar c
  node : Profiled 8 schema
  root : field? schema "type" = some (.string "object")
  counts : (schemaCounts 8 schema).Within
  serialized : (schema.toVec zmij).length ≤ 64 * 1024

/-! ## The parts of a node -/

@[simp] theorem orUnsupported_eq_ok {α : Type} {x : Option α} {a : α} :
    orUnsupported x = .ok a ↔ x = some a := by
  cases x <;> simp [orUnsupported]

@[simp] theorem asStr?_eq_some {value : Json} {text : String} :
    asStr? value = some text ↔ value = .string text := by
  cases value <;> simp [asStr?]

@[simp] theorem asArray?_eq_some {value : Json} {values : List Json} :
    asArray? value = some values ↔ value = .array values := by
  cases value <;> simp [asArray?]

@[simp] theorem asObject?_eq_some {value : Json} {entries : List (String × Json)} :
    asObject? value = some entries ↔ value = .object entries := by
  cases value <;> simp [asObject?]

@[simp] theorem asBool?_eq_some {value : Json} {b : Bool} :
    asBool? value = some b ↔ value = .bool b := by
  cases value <;> simp [asBool?]

theorem bind_asObject?_eq_some {value : Option Json} {entries : List (String × Json)} :
    value.bind asObject? = some entries ↔ value = some (.object entries) := by
  simp [Option.bind_eq_some_iff]

theorem bind_asArray?_eq_some {value : Option Json} {values : List Json} :
    value.bind asArray? = some values ↔ value = some (.array values) := by
  simp [Option.bind_eq_some_iff]

theorem bind_asBool?_eq_some {value : Option Json} {b : Bool} :
    value.bind asBool? = some b ↔ value = some (.bool b) := by
  simp [Option.bind_eq_some_iff]

theorem SchemaKind.name_ne_null (kind : SchemaKind) : kind.name ≠ "null" := by
  cases kind <;> decide

/-- The type that is read is the one of the profile. -/
theorem kindOf_iff {obj : List (String × Json)} {kind : SchemaKind} :
    kindOf obj = .ok kind.name ↔
      ∃ nullable type, obj.lookup "type" = some type ∧ Typed kind nullable type := by
  have hne := kind.name_ne_null
  unfold kindOf
  constructor
  · intro h
    split at h
    · rename_i s hs
      cases h
      exact ⟨false, _, hs, .plain⟩
    · rename_i a b hs
      obtain ⟨a', ha, ha'⟩ := bind_eq_ok.mp h
      obtain ⟨b', hb, hpair⟩ := bind_eq_ok.mp ha'
      obtain rfl := asStr?_eq_some.mp (orUnsupported_eq_ok.mp ha)
      obtain rfl := asStr?_eq_some.mp (orUnsupported_eq_ok.mp hb)
      split at hpair
      · rename_i hnull
        obtain ⟨rfl, -⟩ := hnull
        cases hpair
        exact ⟨true, _, hs, .nullFirst⟩
      · split at hpair
        · rename_i hnull
          obtain ⟨rfl, -⟩ := hnull
          cases hpair
          exact ⟨true, _, hs, .nullLast⟩
        · cases hpair
    · cases h
  · rintro ⟨nullable, type, htype, htyped⟩
    rw [htype]
    cases htyped <;> simp [asStr?, orUnsupported, hne]

/-- A type that is read and not one of the profile. -/
theorem visitKind_other {f : Json → Counts → Except OutputSchemaError Counts}
    {obj : List (String × Json)} {counts counts' : Counts} {kind : String}
    (h : visitKind f obj counts kind = .ok counts') : ∃ k : SchemaKind, kind = k.name := by
  unfold visitKind at h
  split at h
  · exact ⟨.object, rfl⟩
  · exact ⟨.array, rfl⟩
  · exact ⟨.string, rfl⟩
  · exact ⟨.number, rfl⟩
  · exact ⟨.integer, rfl⟩
  · exact ⟨.boolean, rfl⟩
  · cases h

theorem allowedKey_iff {kind : SchemaKind} {key : String} :
    allowedKey kind.name key = true ↔ key ∈ kind.keywords := by
  unfold allowedKey
  cases kind <;> simp [SchemaKind.name, SchemaKind.keywords] <;> grind

theorem isArray_of_typed {kind : SchemaKind} {nullable : Bool} {type : Json}
    (h : Typed kind nullable type) : (asArray? type).isSome = nullable := by
  cases h <;> rfl

/-! ## The loops of a node -/

theorem lookup_isSome_iff {entries : List (String × Json)} {key : String} :
    (entries.lookup key).isSome ↔ key ∈ entries.map Prod.fst := by
  induction entries with
  | nil => simp
  | cons entry entries ih =>
    obtain ⟨k, value⟩ := entry
    by_cases hk : key = k
    · simp [hk]
    · have hne : (key == k) = false := by simp [hk]
      simp only [List.lookup_cons, hne, List.map_cons, List.mem_cons, hk, false_or, ih]

theorem requireName_eq_ok {properties : List (String × Json)} {names names' : List String}
    {name : String} : requireName properties names name = .ok names' ↔
      name ∈ properties.map Prod.fst ∧ name ∉ names ∧ names' = names ++ [name] := by
  unfold requireName
  rw [← lookup_isSome_iff]
  by_cases hmem : name ∈ names
  · simp [hmem]
  · cases properties.lookup name <;> simp [hmem, eq_comm]

theorem entryOf_eq_ok {nullable : Bool} {value : Json} {entry : Option String} :
    entryOf nullable value = .ok entry ↔
      value = enumEntry entry ∧ (entry = none → nullable = true) := by
  unfold entryOf
  cases value <;> cases nullable <;> cases entry <;>
    simp [isNull, asStr?, orUnsupported, enumEntry, eq_comm]

theorem admitEntry_eq_ok {state state' : List (Option String) × Counts} {entry : Option String} :
    admitEntry state entry = .ok state' ↔ True ∧ entry ∉ state.1 ∧ state' = (state.1 ++ [entry],
      { state.2 with bytes := state.2.bytes + entry.elim 0 String.utf8ByteSize }) := by
  unfold admitEntry
  by_cases hmem : entry ∈ state.1
  · simp [hmem]
  · simp [hmem, eq_comm]

/-- The names that are required are different ones, of properties. -/
theorem checkRequired_iff {properties : List (String × Json)} {required : List Json} :
    (∃ names, checkRequired properties required = .ok names) ↔
      ∃ names : List String, required = names.map .string ∧ names.Nodup ∧
        ∀ name ∈ names, name ∈ properties.map Prod.fst := by
  have hread : ∀ (value : Json) (name : String),
      orUnsupported (asStr? value) = .ok name ↔ value = .string name ∧ True := by simp
  have hseen : ∀ (names : List String) (name : String), id (names ++ [name]) = id names ++ [name] :=
    fun _ _ => rfl
  have hloop : ∀ {names : List String}, checkRequired properties required = .ok names ↔ _ :=
    foldlM_read_eq_ok (fun _ => True) (fun _ _ _ => rfl) (fun _ _ _ _ _ => trivial) trivial
  have hcollect : ∀ {r names : List String}, r.foldlM (requireName properties) [] = .ok names ↔ _ :=
    collect_eq_ok hseen (fun _ _ _ => requireName_eq_ok) List.nodup_nil
  constructor
  · rintro ⟨names, h⟩
    obtain ⟨r, hr, h⟩ := hloop.mp h
    obtain ⟨-, hnodup, hmem⟩ := hcollect.mp h
    exact ⟨r, ((mapM_eq_ok_map hread).mp hr).1, hnodup, hmem⟩
  · rintro ⟨r, hr, hnodup, hmem⟩
    have hdone := hcollect.mpr ⟨rfl, hnodup, hmem⟩
    exact ⟨_, hloop.mpr ⟨r, (mapM_eq_ok_map hread).mpr ⟨hr, fun _ _ => trivial⟩, hdone⟩⟩

/-- The bytes of the entries of an enum are those of its texts. -/
theorem countEntries (entries : List (Option String)) (state : List (Option String) × Counts) :
    (entries.foldl (fun state entry => (state.1 ++ [entry],
      { state.2 with bytes := state.2.bytes + entry.elim 0 String.utf8ByteSize })) state).2 =
      state.2 +
        ⟨0, 0, (((entries.map enumEntry).filterMap asStr?).map String.utf8ByteSize).sum⟩ := by
  induction entries generalizing state with
  | nil => ext <;> simp
  | cons entry entries ih =>
    rw [List.foldl_cons, ih]
    cases entry with
    | none => ext <;> simp [enumEntry, asStr?, List.filterMap_cons]
    | some text => ext <;> simp [enumEntry, asStr?, Nat.add_assoc]

/-- The entries of an enum are different ones, and their bytes are counted. -/
theorem checkEnum_iff {nullable : Bool} {values : List Json} {counts counts' : Counts} :
    checkEnum nullable values counts = .ok counts' ↔
      (∃ entries : List (Option String), values = entries.map enumEntry ∧ entries.Nodup ∧
        (none ∈ entries → nullable)) ∧
      counts' = counts + ⟨0, 0, ((values.filterMap asStr?).map String.utf8ByteSize).sum⟩ := by
  have hseen : ∀ (state : List (Option String) × Counts) (entry : Option String),
      ((state.1 ++ [entry],
        { state.2 with bytes := state.2.bytes + entry.elim 0 String.utf8ByteSize }) :
        List (Option String) × Counts).1 = state.1 ++ [entry] := fun _ _ => rfl
  have hloop : ∀ {state : List (Option String) × Counts},
      values.foldlM (fun state value => entryOf nullable value >>= admitEntry state) ([], counts) =
        .ok state ↔ _ :=
    foldlM_read_eq_ok (fun _ => True) (fun _ _ _ => rfl) (fun _ _ _ _ _ => trivial) trivial
  have hread : ∀ {r : List (Option String)}, values.mapM (entryOf nullable) = .ok r ↔ _ :=
    mapM_eq_ok_map fun _ _ => entryOf_eq_ok
  have hcollect : ∀ {r : List (Option String)} {state : List (Option String) × Counts},
      r.foldlM admitEntry ([], counts) = .ok state ↔ _ :=
    collect_eq_ok hseen (fun _ _ _ => admitEntry_eq_ok) List.nodup_nil
  constructor
  · intro h
    obtain ⟨state, hstate, h⟩ := bind_eq_ok.mp h
    obtain rfl := Except.ok.inj h
    obtain ⟨r, hr, hfold⟩ := hloop.mp hstate
    obtain ⟨rfl, hnull⟩ := hread.mp hr
    obtain ⟨rfl, hnodup, -⟩ := hcollect.mp hfold
    exact ⟨⟨r, rfl, hnodup, fun h => hnull _ h rfl⟩, countEntries r _⟩
  · rintro ⟨⟨r, rfl, hnodup, hnull⟩, rfl⟩
    have hdone := hcollect.mpr ⟨rfl, hnodup, fun _ _ => trivial⟩
    have hr := hread.mpr ⟨rfl, fun entry hmem he => hnull (he ▸ hmem)⟩
    refine bind_eq_ok.mpr ⟨_, hloop.mpr ⟨r, hr, hdone⟩, ?_⟩
    exact congrArg Except.ok (countEntries r _)

/-! ## Counting -/

theorem Counts.Within.of_add {a b : Counts} (h : (a + b).Within) : a.Within where
  properties := Nat.le_trans (Nat.le_add_right _ _) h.properties
  enums := Nat.le_trans (Nat.le_add_right _ _) h.enums
  bytes := Nat.le_trans (Nat.le_add_right _ _) h.bytes

theorem checkKeys_iff {obj : List (String × Json)} {kind : SchemaKind} {u : Unit} :
    ((obj.map Prod.fst).forM fun key =>
      if allowedKey kind.name key then pure () else throw .unsupportedProfile) =
        (.ok u : Except OutputSchemaError Unit) ↔
          ∀ key ∈ obj.map Prod.fst, key ∈ kind.keywords := by
  refine forM_eq_ok.trans (forall₂_congr fun key _ => ?_)
  rw [← allowedKey_iff]
  by_cases h : allowedKey kind.name key = true
  · simp [h]
  · simp [h]

/-- What is counted for the description of a node. -/
def describedCounts (obj : List (String × Json)) : Counts :=
  ⟨0, 0, ((((obj.lookup "description").bind asStr?).toList).map String.utf8ByteSize).sum⟩

/-- What is counted for the properties of a node. -/
def propertyCounts (properties : List (String × Json)) : Counts :=
  ⟨properties.length, 0, ((properties.map Prod.fst).map String.utf8ByteSize).sum⟩

/-- What is counted for the enum of a node. -/
def enumCounts (enum : List Json) : Counts :=
  ⟨0, enum.length, ((enum.filterMap asStr?).map String.utf8ByteSize).sum⟩

theorem nodeCounts_eq (obj : List (String × Json)) :
    nodeCounts obj = describedCounts obj +
      (propertyCounts (((obj.lookup "properties").bind asObject?).getD []) +
        enumCounts (((obj.lookup "enum").bind asArray?).getD [])) := by
  ext
  · simp [nodeCounts, describedCounts, propertyCounts, enumCounts]
  · simp [nodeCounts, describedCounts, propertyCounts, enumCounts]
  · simp [nodeCounts, describedCounts, propertyCounts, enumCounts]

theorem schemaCounts_object (levels : Nat) (obj : List (String × Json)) :
    schemaCounts (levels + 1) (.object obj) =
      nodeCounts obj + ((childNodes obj).map (schemaCounts levels)).sum := by
  have hflat : ∀ nodes : List Json, ((nodes.flatMap (schemaNodes levels)).map nodeCounts).sum =
      (nodes.map (schemaCounts levels)).sum := by
    intro nodes
    induction nodes with
    | nil => rfl
    | cons node nodes ih =>
      rw [List.flatMap_cons, List.map_append, List.sum_append, ih, List.map_cons, List.sum_cons]
      rfl
  simp [schemaCounts, schemaNodes, asObject?, hflat]

/-- The description of a node is a text, and its bytes are counted. -/
theorem visitDescription_iff {obj : List (String × Json)} {counts counts' : Counts} :
    visitDescription obj counts = .ok counts' ↔
      (∀ description ∈ obj.lookup "description", ∃ text, description = .string text) ∧
        counts' = counts + describedCounts obj := by
  unfold visitDescription describedCounts
  cases obj.lookup "description" with
  | none => simp [Counts.ext_iff, pure, Except.pure, eq_comm]
  | some description =>
    cases description <;>
      simp [asStr?, orUnsupported, Counts.ext_iff, pure, Except.pure, bind, Except.bind, eq_comm]

/-! ## The nodes -/

section Node

variable {f : Json → Counts → Except OutputSchemaError Counts} {child : Json → Prop}
  {count : Json → Counts}

/-- What a visit does: it accepts what `child` holds of, and adds what `count` counts. -/
def Visits (f : Json → Counts → Except OutputSchemaError Counts) (child : Json → Prop)
    (count : Json → Counts) : Prop :=
  ∀ schema counts counts', counts.properties ≤ 256 → counts.enums ≤ 256 →
    (f schema counts = .ok counts' ↔
      child schema ∧ counts' = counts + count schema ∧ counts'.Within)

/-- The loop over the properties visits all of them. -/
theorem visitProperties_iff (hf : Visits f child count) :
    ∀ {properties : List (String × Json)} {counts counts' : Counts}, counts.properties ≤ 256 →
      counts.enums ≤ 256 →
      (properties.foldlM (visitProperty f) counts = .ok counts' ∧ counts'.bytes ≤ 16384 ↔
        (∀ entry ∈ properties, child entry.2) ∧
          counts' = counts + (⟨0, 0, ((properties.map Prod.fst).map String.utf8ByteSize).sum⟩ +
            ((properties.map Prod.snd).map count).sum) ∧ counts'.Within)
  | [], counts, counts', hp, he => by
    have hzero : counts + ((⟨0, 0, 0⟩ : Counts) + 0) = counts := by ext <;> simp
    constructor
    · rintro ⟨h, hbytes⟩
      obtain rfl := Except.ok.inj h
      exact ⟨fun _ h => absurd h List.not_mem_nil, hzero.symm, hp, he, hbytes⟩
    · rintro ⟨-, rfl, hw⟩
      exact ⟨congrArg Except.ok hzero.symm, hw.bytes⟩
  | (name, schema) :: properties, counts, counts', hp, he => by
    have hsum : counts + ((⟨0, 0, (((name, schema) :: properties).map Prod.fst).map
          String.utf8ByteSize |>.sum⟩ : Counts) +
          ((((name, schema) :: properties).map Prod.snd).map count).sum) =
        { counts with bytes := counts.bytes + name.utf8ByteSize } + count schema +
          (⟨0, 0, ((properties.map Prod.fst).map String.utf8ByteSize).sum⟩ +
            ((properties.map Prod.snd).map count).sum) := by
      ext <;> simp <;> omega
    rw [hsum, List.foldlM_cons, List.forall_mem_cons]
    constructor
    · rintro ⟨h, hbytes⟩
      obtain ⟨c, hc, hrest⟩ := bind_eq_ok.mp h
      unfold visitProperty at hc
      obtain ⟨hle, hc⟩ := ite_error_eq_ok.mp hc
      obtain ⟨hchild, rfl, hw⟩ :=
        (hf schema { counts with bytes := counts.bytes + name.utf8ByteSize } c hp he).mp hc
      obtain ⟨hall, hcounts, hw'⟩ :=
        (visitProperties_iff hf hw.properties hw.enums).mp ⟨hrest, hbytes⟩
      exact ⟨⟨hchild, hall⟩, hcounts, hw'⟩
    · rintro ⟨⟨hchild, hall⟩, rfl, hw⟩
      have hw' := hw.of_add
      obtain ⟨hrest, hbytes⟩ :=
        (visitProperties_iff hf hw'.properties hw'.enums).mpr ⟨hall, rfl, hw⟩
      have hc := (hf schema { counts with bytes := counts.bytes + name.utf8ByteSize } _ hp he).mpr
        ⟨hchild, rfl, hw'⟩
      exact ⟨bind_eq_ok.mpr ⟨_, ite_error_eq_ok.mpr ⟨Nat.not_lt.mpr hw'.of_add.bytes, hc⟩, hrest⟩,
        hbytes⟩

/-- Where there is nothing to visit. -/
theorem visitNothing_iff {counts counts' : Counts} (hp : counts.properties ≤ 256)
    (he : counts.enums ≤ 256) :
    (.ok counts : Except OutputSchemaError Counts) = .ok counts' ∧ counts'.bytes ≤ 16384 ↔
      counts' = counts ∧ counts'.Within := by
  constructor
  · rintro ⟨h, hbytes⟩
    obtain rfl := Except.ok.inj h
    exact ⟨rfl, hp, he, hbytes⟩
  · rintro ⟨rfl, hw⟩
    exact ⟨rfl, hw.bytes⟩

theorem visitKind_array (hf : Visits f child count) {obj : List (String × Json)}
    {counts counts' : Counts} (hp : counts.properties ≤ 256) (he : counts.enums ≤ 256) :
    visitKind f obj counts "array" = .ok counts' ↔ ∃ items, obj.lookup "items" = some items ∧
      child items ∧ counts' = counts + count items ∧ counts'.Within := by
  unfold visitKind
  simp only [bind_eq_ok, orUnsupported_eq_ok, hf _ _ _ hp he]

theorem visitKind_object (hf : Visits f child count) {obj : List (String × Json)}
    {counts counts' : Counts} (he : counts.enums ≤ 256) :
    visitKind f obj counts "object" = .ok counts' ∧ counts'.bytes ≤ 16384 ↔
      ∃ (properties : List (String × Json)) (required : List String),
        obj.lookup "properties" = some (.object properties) ∧
        obj.lookup "required" = some (.array (required.map .string)) ∧
        (required.Nodup ∧ required.Perm (properties.map Prod.fst)) ∧
        obj.lookup "additionalProperties" = some (.bool false) ∧
        (∀ entry ∈ properties, child entry.2) ∧
        counts' = counts + (propertyCounts properties + ((properties.map Prod.snd).map count).sum) ∧
        counts'.Within := by
  unfold visitKind
  constructor
  · rintro ⟨h, hbytes⟩
    obtain ⟨properties, hproperties, h⟩ := bind_eq_ok.mp h
    obtain ⟨required, hrequired, h⟩ := bind_eq_ok.mp h
    obtain ⟨hclosed, h⟩ := ite_error_eq_ok.mp h
    obtain ⟨names, hnames, h⟩ := bind_eq_ok.mp h
    obtain ⟨hle, h⟩ := ite_error_eq_ok.mp h
    obtain ⟨hall, hcounts, hw⟩ := (visitProperties_iff hf (Nat.not_lt.mp hle) he).mp ⟨h, hbytes⟩
    obtain ⟨names, rfl, hnodup, hmem⟩ := checkRequired_iff.mp ⟨names, hnames⟩
    simp only [not_or, not_not, List.length_map] at hclosed
    refine ⟨properties, names, bind_asObject?_eq_some.mp (orUnsupported_eq_ok.mp hproperties),
      bind_asArray?_eq_some.mp (orUnsupported_eq_ok.mp hrequired), ⟨hnodup, ?_⟩,
      bind_asBool?_eq_some.mp hclosed.1, hall, ?_, hw⟩
    · refine (List.subperm_of_subset hnodup hmem).perm_of_length_le ?_
      rw [List.length_map, hclosed.2]
    · rw [hcounts]
      ext <;> simp [propertyCounts, Nat.add_assoc]
  · rintro ⟨properties, names, hproperties, hrequired, ⟨hnodup, hperm⟩, hclosed, hall, rfl, hw⟩
    have hcounts :
        counts + (propertyCounts properties + ((properties.map Prod.snd).map count).sum) =
        { counts with properties := counts.properties + properties.length } +
          (⟨0, 0, ((properties.map Prod.fst).map String.utf8ByteSize).sum⟩ +
            ((properties.map Prod.snd).map count).sum) := by
      ext <;> simp [propertyCounts, Nat.add_assoc]
    rw [hcounts] at hw ⊢
    have hlength : names.length = properties.length := by simpa using hperm.length_eq
    obtain ⟨hloop, hbytes⟩ := (visitProperties_iff hf hw.of_add.properties he).mpr ⟨hall, rfl, hw⟩
    obtain ⟨r, hr⟩ := checkRequired_iff.mpr ⟨names, rfl, hnodup, fun name h => hperm.mem_iff.mp h⟩
    refine ⟨?_, hbytes⟩
    simp only [hproperties, hrequired, hclosed, Option.bind_some, asObject?, asArray?, asBool?,
      orUnsupported, ok_bind, List.length_map, hlength, hr]
    exact ite_error_eq_ok.mpr ⟨by simp,
      ite_error_eq_ok.mpr ⟨Nat.not_lt.mpr hw.of_add.properties, hloop⟩⟩

theorem visitKind_string {obj : List (String × Json)} {counts counts' : Counts}
    (hp : counts.properties ≤ 256) (he : counts.enums ≤ 256) {nullable : Bool} {type : Json}
    (htype : obj.lookup "type" = some type) (htyped : Typed .string nullable type) :
    visitKind f obj counts "string" = .ok counts' ∧ counts'.bytes ≤ 16384 ↔
      (∀ enum ∈ obj.lookup "enum", ∃ entries : List (Option String),
        enum = .array (entries.map enumEntry) ∧ entries ≠ [] ∧ entries.Nodup ∧
          (none ∈ entries → nullable)) ∧
      counts' = counts + enumCounts (((obj.lookup "enum").bind asArray?).getD []) ∧
        counts'.Within := by
  have hnull : ((obj.lookup "type").bind asArray?).isSome = nullable := by
    rw [htype]
    exact isArray_of_typed htyped
  unfold visitKind
  rw [hnull]
  cases henum : obj.lookup "enum" with
  | none =>
    have hnone : counts + enumCounts (((none : Option Json).bind asArray?).getD []) = counts := by
      ext <;> simp [enumCounts]
    rw [hnone, and_iff_right (nofun : ∀ enum ∈ (none : Option Json), _)]
    exact visitNothing_iff hp he
  | some enum =>
    constructor
    · rintro ⟨h, hbytes⟩
      obtain ⟨values, hvalues, h⟩ := bind_eq_ok.mp h
      obtain ⟨hne, h⟩ := ite_error_eq_ok.mp h
      obtain ⟨hle, h⟩ := ite_error_eq_ok.mp h
      obtain ⟨⟨entries, rfl, hnodup, hnone⟩, hcounts⟩ := checkEnum_iff.mp h
      obtain rfl := asArray?_eq_some.mp (orUnsupported_eq_ok.mp hvalues)
      have hsum : counts' = counts + enumCounts (entries.map enumEntry) := by
        rw [hcounts]
        ext <;> simp [enumCounts]
      refine ⟨fun enum h => ⟨entries, (Option.mem_some.mp h).symm, ?_, hnodup, hnone⟩, hsum, ?_⟩
      · simpa using hne
      · rw [hcounts]
        exact ⟨hp, Nat.not_lt.mp hle, hcounts ▸ hbytes⟩
    · rintro ⟨hshape, rfl, hw⟩
      obtain ⟨entries, rfl, hne, hnodup, hnone⟩ := hshape enum rfl
      have hsum : counts + enumCounts (entries.map enumEntry) =
          { counts with enums := counts.enums + (entries.map enumEntry).length } +
            ⟨0, 0, (((entries.map enumEntry).filterMap asStr?).map String.utf8ByteSize).sum⟩ := by
        ext <;> simp [enumCounts]
      have hlist := checkEnum_iff.mpr ⟨⟨entries, rfl, hnodup, hnone⟩, hsum⟩
      have hle : counts.enums + (entries.map enumEntry).length ≤ 256 := hw.enums
      refine ⟨?_, hw.bytes⟩
      simp only [asArray?, orUnsupported, ok_bind]
      exact ite_error_eq_ok.mpr ⟨by simpa using hne,
        ite_error_eq_ok.mpr ⟨Nat.not_lt.mpr hle, hlist⟩⟩

/-- A node of a type is visited as the profile says. -/
theorem visitKind_iff (hf : Visits f child count) {obj : List (String × Json)} {kind : SchemaKind}
    {nullable : Bool} {type : Json} {counts counts' : Counts} (hp : counts.properties ≤ 256)
    (he : counts.enums ≤ 256) (htype : obj.lookup "type" = some type)
    (htyped : Typed kind nullable type) (hkeys : ∀ key ∈ obj.map Prod.fst, key ∈ kind.keywords) :
    visitKind f obj counts kind.name = .ok counts' ∧ counts'.bytes ≤ 16384 ↔
      Shape child obj nullable kind ∧
      counts' = counts + ((propertyCounts (((obj.lookup "properties").bind asObject?).getD []) +
        enumCounts (((obj.lookup "enum").bind asArray?).getD [])) +
          ((childNodes obj).map count).sum) ∧ counts'.Within := by
  have habsent : ∀ key, key ∉ kind.keywords → obj.lookup key = none := by
    intro key hkey
    rw [← Option.not_isSome_iff_eq_none, lookup_isSome_iff]
    exact fun h => hkey (hkeys key h)
  have hscalar : obj.lookup "properties" = none → obj.lookup "items" = none →
      obj.lookup "enum" = none →
        ((.ok counts : Except OutputSchemaError Counts) = .ok counts' ∧ counts'.bytes ≤ 16384 ↔
          True ∧ counts' = counts +
            ((propertyCounts (((obj.lookup "properties").bind asObject?).getD []) +
              enumCounts (((obj.lookup "enum").bind asArray?).getD [])) +
                ((childNodes obj).map count).sum) ∧ counts'.Within) := by
    intro hproperties hitems henum
    have hnone : propertyCounts [] + enumCounts [] = 0 := rfl
    rw [visitNothing_iff hp he, true_and]
    simp [hproperties, hitems, henum, childNodes, hnone]
  cases kind with
  | object =>
    have hitems := habsent "items" (by decide)
    have henum := habsent "enum" (by decide)
    have hnoEnum : enumCounts [] = 0 := rfl
    refine (visitKind_object hf he).trans ?_
    simp only [Shape, childNodes, hitems, henum]
    constructor
    · rintro ⟨properties, required, hproperties, hrequired, hnames, hclosed, hall, hcounts, hw⟩
      refine ⟨⟨properties, required, hproperties, hrequired, hnames, hclosed, hall⟩, ?_, hw⟩
      simpa [hproperties, asObject?, hnoEnum] using hcounts
    · rintro ⟨⟨properties, required, hproperties, hrequired, hnames, hclosed, hall⟩, hcounts, hw⟩
      refine ⟨properties, required, hproperties, hrequired, hnames, hclosed, hall, ?_, hw⟩
      simpa [hproperties, asObject?, hnoEnum] using hcounts
  | array =>
    have hproperties := habsent "properties" (by decide)
    have henum := habsent "enum" (by decide)
    have hnone : propertyCounts [] + enumCounts [] = 0 := rfl
    simp only [SchemaKind.name, visitKind_array hf hp he, Shape, childNodes, hproperties, henum]
    constructor
    · rintro ⟨⟨items, hitems, hchild, hcounts, hw⟩, -⟩
      refine ⟨⟨items, hitems, hchild⟩, ?_, hw⟩
      simpa [hitems, hnone] using hcounts
    · rintro ⟨⟨items, hitems, hchild⟩, hcounts, hw⟩
      refine ⟨⟨items, hitems, hchild, ?_, hw⟩, hw.bytes⟩
      simpa [hitems, hnone] using hcounts
  | string =>
    have hproperties := habsent "properties" (by decide)
    have hitems := habsent "items" (by decide)
    have hnone : propertyCounts [] = 0 := rfl
    refine (visitKind_string hp he htype htyped).trans ?_
    simp [Shape, childNodes, hproperties, hitems, hnone]
  | integer | number | boolean =>
    exact hscalar (habsent "properties" (by decide)) (habsent "items" (by decide))
      (habsent "enum" (by decide))

end Node

/-- A visit accepts the nodes of the profile, and counts what is in them. -/
theorem visit_iff : ∀ {levels depth : Nat}, depth + levels = 9 →
    Visits (fun schema counts => visit schema depth counts) (Profiled levels) (schemaCounts levels)
  | 0, depth, hd => by
    intro schema counts counts' _ _
    have hdeep : visit schema depth counts = .error .limitExceeded := by
      rw [visit, dif_pos (by omega)]
    simp only [hdeep, Profiled, false_and, reduceCtorEq]
  | levels + 1, depth, hd => by
    intro schema counts counts' hp he
    have hchild : Visits (fun schema counts => visit schema (depth + 1) counts) (Profiled levels)
        (schemaCounts levels) := visit_iff (by omega)
    have hp' : ∀ obj, (counts + describedCounts obj).properties ≤ 256 := fun _ => hp
    have he' : ∀ obj, (counts + describedCounts obj).enums ≤ 256 := fun _ => he
    have hsum : ∀ obj, counts + schemaCounts (levels + 1) (.object obj) =
        counts + describedCounts obj +
          ((propertyCounts (((obj.lookup "properties").bind asObject?).getD []) +
            enumCounts (((obj.lookup "enum").bind asArray?).getD [])) +
              ((childNodes obj).map (schemaCounts levels)).sum) := by
      intro obj
      rw [schemaCounts_object, nodeCounts_eq]
      simp only [add_assoc]
    simp only [Profiled]
    rw [visit, dif_neg (by omega)]
    constructor
    · intro h
      obtain ⟨obj, hobj, hread⟩ := bind_eq_ok.mp h
      obtain ⟨kind, hkind, hallowed⟩ := bind_eq_ok.mp hread
      obtain ⟨_, hkeys, hdescribe⟩ := bind_eq_ok.mp hallowed
      obtain ⟨c, hc, hbelow⟩ := bind_eq_ok.mp hdescribe
      obtain ⟨c', hc', hdone⟩ := bind_eq_ok.mp hbelow
      obtain ⟨hbytes, heq⟩ := ite_error_eq_ok.mp hdone
      obtain rfl := Except.ok.inj heq
      obtain ⟨kind, rfl⟩ := visitKind_other hc'
      obtain ⟨nullable, type, htype, htyped⟩ := kindOf_iff.mp hkind
      obtain ⟨hdescription, rfl⟩ := visitDescription_iff.mp hc
      obtain ⟨hshape, hcounts, hw⟩ := (visitKind_iff hchild (hp' obj) (he' obj) htype htyped
        (checkKeys_iff.mp hkeys)).mp ⟨hc', Nat.not_lt.mp hbytes⟩
      obtain rfl := asObject?_eq_some.mp (orUnsupported_eq_ok.mp hobj)
      exact ⟨⟨obj, type, kind, nullable, rfl, htype, htyped, checkKeys_iff.mp hkeys, hdescription,
        hshape⟩, hcounts.trans (hsum obj).symm, hw⟩
    · rintro ⟨⟨obj, type, kind, nullable, rfl, htype, htyped, hkeys, hdescription, hshape⟩, rfl, hw⟩
      rw [hsum obj] at hw ⊢
      obtain ⟨hkind, hbytes⟩ := (visitKind_iff hchild (hp' obj) (he' obj) htype htyped
        hkeys).mpr ⟨hshape, rfl, hw⟩
      refine bind_eq_ok.mpr ⟨obj, rfl, bind_eq_ok.mpr ⟨_, kindOf_iff.mpr ⟨_, _, htype, htyped⟩, ?_⟩⟩
      refine bind_eq_ok.mpr ⟨(), checkKeys_iff.mpr hkeys, ?_⟩
      refine bind_eq_ok.mpr ⟨_, visitDescription_iff.mpr ⟨hdescription, rfl⟩, ?_⟩
      exact bind_eq_ok.mpr ⟨_, hkind, ite_error_eq_ok.mpr ⟨Nat.not_lt.mpr hbytes, rfl⟩⟩

/-! ## The name -/

theorem isNameByte_toNat {b : UInt8} : isNameByte b = true ↔
    (48 ≤ b.toNat ∧ b.toNat ≤ 57) ∨ (65 ≤ b.toNat ∧ b.toNat ≤ 90) ∨ (97 ≤ b.toNat ∧ b.toNat ≤ 122) ∨
      b.toNat = 95 ∨ b.toNat = 45 := by
  have h1 : b = 0x5F ↔ b.toNat = 95 := by rw [← UInt8.toNat_inj]; rfl
  have h2 : b = 0x2D ↔ b.toNat = 45 := by rw [← UInt8.toNat_inj]; rfl
  unfold isNameByte
  simp [UInt8.le_iff_toNat_le, or_assoc, h1, h2]

theorem NameChar.toNat {c : Char} : NameChar c ↔
    (48 ≤ c.toNat ∧ c.toNat ≤ 57) ∨ (65 ≤ c.toNat ∧ c.toNat ≤ 90) ∨ (97 ≤ c.toNat ∧ c.toNat ≤ 122) ∨
      c.toNat = 95 ∨ c.toNat = 45 := by
  have heq : ∀ d : Char, c = d ↔ c.toNat = d.toNat := by
    intro d
    rw [Char.ext_iff, ← UInt32.toNat_inj]
    rfl
  have hle : ∀ a b : Char, a ≤ b ↔ a.toNat ≤ b.toNat := fun _ _ => Iff.rfl
  simp only [NameChar, heq, hle, Char.reduceToNat]
  omega

theorem encode_nameChar {c : Char} :
    (String.utf8EncodeChar c).all isNameByte = true ↔ NameChar c := by
  rw [NameChar.toNat]
  unfold String.utf8EncodeChar
  change (List.all (if c.toNat ≤ 127 then _ else _) _ = true) ↔ _
  split
  · rename_i h
    have hbyte : (UInt8.ofNat c.val.toNat).toNat = c.toNat := by
      rw [UInt8.toNat_ofNat']
      exact Nat.mod_eq_of_lt (Nat.lt_of_le_of_lt h (by decide))
    simp only [List.all_cons, List.all_nil, Bool.and_true, isNameByte_toNat, hbyte]
  · rename_i h
    -- the first byte of a longer encoding has its high bit set
    have hhigh : ∀ n : Nat, 128 ≤ n % 256 → isNameByte (UInt8.ofNat n) ≠ true := by
      intro n hn h
      rw [isNameByte_toNat, UInt8.toNat_ofNat'] at h
      omega
    refine iff_of_false (fun hall => ?_) (by omega)
    split at hall
    · exact hhigh _ (by omega) (List.all_eq_true.mp hall _ List.mem_cons_self)
    split at hall
    · exact hhigh _ (by omega) (List.all_eq_true.mp hall _ List.mem_cons_self)
    · exact hhigh _ (by omega) (List.all_eq_true.mp hall _ List.mem_cons_self)

theorem utf8Bytes_length (text : String) : (utf8Bytes text).length = text.utf8ByteSize := by
  rw [← String.size_toByteArray, ← text.ofList_toList, String.toByteArray_ofList, List.utf8Encode,
    List.size_toByteArray]
  simp [utf8Bytes]

theorem nameBytes_iff {name : String} : (utf8Bytes name).all isNameByte = true ↔
    ∀ c ∈ name.toList, NameChar c := by
  rw [utf8Bytes, List.all_flatMap, List.all_eq_true]
  simp only [encode_nameChar]

theorem nameLength {name : String} (h : ∀ c ∈ name.toList, NameChar c) :
    name.utf8ByteSize = name.toList.length := by
  rw [← utf8Bytes_length, utf8Bytes, List.length_flatMap]
  have hone : ∀ c ∈ name.toList, (String.utf8EncodeChar c).length = 1 := by
    intro c hc
    have hc := NameChar.toNat.mp (h c hc)
    rw [String.length_utf8EncodeChar, Char.utf8Size_eq_one_iff, UInt32.le_iff_toNat_le]
    change c.toNat ≤ 127
    omega
  rw [List.map_congr_left hone]
  simp

/-- Admission is exactly the profile. -/
theorem admit_iff (zmij : F64 → List UInt8) (name : String) (schema : Json) :
    admitSchema zmij name schema = .ok () ↔ InProfile zmij name schema := by
  have hroot : (field? schema "type").bind asStr? = some "object" ↔
      field? schema "type" = some (.string "object") := by simp [Option.bind_eq_some_iff]
  have hvisit := fun counts' => visit_iff (by decide : 1 + 8 = 9) schema ⟨0, 0, 0⟩ counts'
    (Nat.zero_le 256) (Nat.zero_le 256)
  have hzero : (⟨0, 0, 0⟩ : Counts) + schemaCounts 8 schema = schemaCounts 8 schema :=
    zero_add (schemaCounts 8 schema)
  constructor
  · intro h
    obtain ⟨hname, hseen⟩ := ite_error_eq_ok.mp h
    obtain ⟨counts, hcounts, hcheck⟩ := bind_eq_ok.mp hseen
    obtain ⟨htype, hsize⟩ := ite_error_eq_ok.mp hcheck
    obtain ⟨hsize, -⟩ := ite_error_eq_ok.mp hsize
    obtain ⟨hnode, rfl, hw⟩ := (hvisit counts).mp hcounts
    simp only [not_or, not_not, nameBytes_iff] at hname
    obtain ⟨hne, hlong, hchars⟩ := hname
    rw [nameLength hchars] at hlong
    exact {
      length := ⟨List.length_pos_iff.mpr fun h => hne (String.toList_eq_nil_iff.mp h), by omega⟩
      name := hchars
      node := hnode
      root := hroot.mp (not_not.mp htype)
      counts := hzero ▸ hw
      serialized := Nat.not_lt.mp hsize }
  · intro h
    have hne : name ≠ "" := by
      rintro rfl
      exact absurd h.length.1 (by decide)
    have hsize := h.length.2
    rw [← nameLength h.name] at hsize
    have hname :
        ¬(name = "" ∨ 64 < name.utf8ByteSize ∨ ¬(utf8Bytes name).all isNameByte = true) := by
      simp only [not_or, not_not, nameBytes_iff]
      exact ⟨hne, by omega, h.name⟩
    refine ite_error_eq_ok.mpr ⟨hname, bind_eq_ok.mpr ⟨_, (hvisit _).mpr ⟨h.node, rfl, ?_⟩, ?_⟩⟩
    · exact hzero.symm ▸ h.counts
    · exact ite_error_eq_ok.mpr ⟨not_not.mpr (hroot.mpr h.root),
        ite_error_eq_ok.mpr ⟨Nat.not_lt.mpr h.serialized, rfl⟩⟩

end GroupAgent.Model
