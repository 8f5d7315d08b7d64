import GroupAgent.Model.Response
import GroupAgent.Model.Schema
import GroupAgent.Model.Writing

/-!
# The identity of a contract

Model of `StructuredOutput::new` (`structured_output/mod.rs:29-46`) and of `==` on contracts
(104-106) in `crates/group-agent-model/src`.

* A contract is made of a name and a schema that are admitted (`Schema`), the compiled schema and
  the identity, which is the hash of a text with the name and the canonical schema in it.
* The schema compiler of the crate `jsonschema` (`compile`), SHA-256 (`sha256`) and the text of
  floats (`zmij`) are parameters.

Results: **`contract_identity`**: two contracts have one identity exactly when they are equal.

Premises: of the hash, what is relied on is said of the two texts that are hashed: they do not
collide. Of the texts of floats, that they can be read back (`Writing`). Neither says anything of
contracts.
-/

namespace GroupAgent.Model

open GroupAgent.Lib

namespace StructuredOutput

/-! ## Contracts -/

/-- The lowercase hexadecimal digits of a byte. -/
def hexByte (b : UInt8) : List Char := [(b.toNat / 16).digitChar, (b.toNat % 16).digitChar]

/-- `format!("\x7b:x\x7d", digest)`. -/
def lowerHex (digest : Vector UInt8 32) : String := String.ofList (digest.toList.flatMap hexByte)

/-- What a contract is identified by: its profile, name and schema. -/
def identity (name : String) (schema : Json) : Json :=
  .array [.string "group-json-output/1", .string name, schema]

section New

variable (zmij : F64 → List UInt8) (sha256 : List UInt8 → Vector UInt8 32)
  (compile : Json → Except String (Json → Except String Unit)) (parse : String → Except String Json)

/-- The text that is hashed. -/
def encoded (name : String) (schema : Json) : List UInt8 :=
  (identity name schema).canonical.toVec zmij

/-- Compile a contract. -/
def new (name : String) (schema : Json) : Except OutputSchemaError StructuredOutput := do
  admitSchema zmij name schema
  let validator ← (compile schema).mapError .compilation
  pure { name, schema, contractId := lowerHex (sha256 (encoded zmij name schema)), parse, validator }

end New

/-- `==` on contracts. -/
def eq (self other : StructuredOutput) : Bool :=
  self.name == other.name && self.schema.same other.schema

variable {zmij : F64 → List UInt8} {sha256 : List UInt8 → Vector UInt8 32}
  {compile : Json → Except String (Json → Except String Unit)}
  {parse : String → Except String Json} {name : String} {schema : Json} {c : StructuredOutput}

theorem new_eq_ok : new zmij sha256 compile parse name schema = .ok c ↔
    admitSchema zmij name schema = .ok () ∧ ∃ validator, compile schema = .ok validator ∧
      c = ⟨name, schema, lowerHex (sha256 (encoded zmij name schema)), parse, validator⟩ := by
  unfold new
  constructor
  · intro h
    obtain ⟨_, hadmitted, h⟩ := bind_eq_ok.mp h
    obtain ⟨validator, hcompile, h⟩ := bind_eq_ok.mp h
    exact ⟨hadmitted, validator, mapError_eq_ok.mp hcompile, (Except.ok.inj h).symm⟩
  · rintro ⟨hadmitted, validator, hcompile, rfl⟩
    rw [hadmitted, hcompile]
    rfl

/-! ## The digits of a hash -/

theorem hexByte_prefixCode : PrefixCode hexByte := by
  intro a b s t _ _ h
  have hdigit : ∀ m < 16, ∀ n < 16, Nat.digitChar m = Nat.digitChar n → m = n := by decide
  simp only [hexByte, List.cons_append, List.cons.injEq] at h
  obtain ⟨hhigh, hlow, -⟩ := h
  have ha := a.toNat_lt
  have hb := b.toNat_lt
  have hhigh := hdigit _ (by omega) _ (by omega) hhigh
  have hlow := hdigit _ (by omega) _ (by omega) hlow
  exact UInt8.toNat_inj.mp (by omega)

theorem lowerHex_injective : Function.Injective lowerHex := by
  intro a b h
  have hdigits : ∀ bytes, Recovers (fun s => s = []) (List.flatMap hexByte) bytes := fun bytes =>
    .flatMap (fun b _ => hexByte_prefixCode b) (fun _ _ => trivial) (fun _ _ => trivial)
      fun _ _ h => by simp [hexByte] at h
  have hlist := Recovers.injective hdigits rfl (String.ofList_inj.mp h)
  exact Vector.toList_inj.mp hlist

/-! ## Admitted schemas -/

theorem noNumber_string (s : String) : (Json.string s).Everywhere Json.NoNumber := trivial

theorem noNumber_strings (texts : List String) :
    (Json.array (texts.map .string)).Everywhere Json.NoNumber :=
  Json.everywhere_array.mpr ⟨trivial, List.forall_mem_map.mpr fun text _ => noNumber_string text⟩

theorem noNumber_typed {kind : SchemaKind} {nullable : Bool} {type : Json}
    (h : Typed kind nullable type) : type.Everywhere Json.NoNumber := by
  cases h with
  | plain => exact noNumber_string _
  | nullLast => exact noNumber_strings [kind.name, "null"]
  | nullFirst => exact noNumber_strings ["null", kind.name]

theorem noNumber_enum (entries : List (Option String)) :
    (Json.array (entries.map enumEntry)).Everywhere Json.NoNumber :=
  Json.everywhere_array.mpr ⟨trivial, List.forall_mem_map.mpr fun entry _ => by
    cases entry <;> trivial⟩

/-- What is below a node of the profile has no numbers if its child nodes have none. -/
theorem noNumber_shape {child : Json → Prop} {obj : List (String × Json)} {nullable : Bool}
    {kind : SchemaKind} (hshape : Shape child obj nullable kind)
    (hchild : ∀ node : Json, node.WellFormed → child node → node.Everywhere Json.NoNumber)
    {key : String} {value : Json} (hget : obj.lookup key = some value)
    (hvalue : value.WellFormed) (hkey : key ∈ kind.keywords) (htype : key ≠ "type")
    (hdescription : key ≠ "description") : value.Everywhere Json.NoNumber := by
  cases kind with
  | object =>
    obtain ⟨properties, required, hproperties, hrequired, -, hclosed, hnodes⟩ := hshape
    simp only [SchemaKind.keywords, List.mem_cons, htype, hdescription, List.not_mem_nil, or_false,
      false_or] at hkey
    rcases hkey with rfl | rfl | rfl
    · cases hget.symm.trans hproperties
      exact Json.everywhere_object.mpr ⟨trivial, fun entry hmem =>
        hchild _ ((Json.everywhere_object.mp hvalue).2 entry hmem) (hnodes entry hmem)⟩
    · cases hget.symm.trans hrequired
      exact noNumber_strings required
    · cases hget.symm.trans hclosed
      exact trivial
  | array =>
    obtain ⟨items, hitems, hnode⟩ := hshape
    simp only [SchemaKind.keywords, List.mem_cons, htype, hdescription, List.not_mem_nil, or_false,
      false_or] at hkey
    subst hkey
    cases hget.symm.trans hitems
    exact hchild _ hvalue hnode
  | string =>
    simp only [SchemaKind.keywords, List.mem_cons, htype, hdescription, List.not_mem_nil, or_false,
      false_or] at hkey
    subst hkey
    obtain ⟨entries, rfl, -⟩ := hshape value hget
    exact noNumber_enum entries
  | _ => simp [SchemaKind.keywords, htype, hdescription] at hkey

/-- No value of a schema of the profile is a number. -/
theorem noNumber_profiled {levels : Nat} : ∀ {schema : Json}, schema.WellFormed →
    Profiled levels schema → schema.Everywhere Json.NoNumber := by
  induction levels with
  | zero => exact fun _ h => h.elim
  | succ levels ih =>
    rintro schema hschema ⟨obj, type, kind, nullable, rfl, htype, htyped, hkeys, htext, hshape⟩
    obtain ⟨hnodup, hvalues⟩ := Json.everywhere_object.mp hschema
    refine Json.everywhere_object.mpr ⟨trivial, ?_⟩
    rintro ⟨key, value⟩ hmem
    have hget := (Json.lookup_eq_some hnodup).mpr hmem
    by_cases hk : key = "type"
    · subst hk
      cases hget.symm.trans htype
      exact noNumber_typed htyped
    · by_cases hk' : key = "description"
      · subst hk'
        obtain ⟨text, rfl⟩ := htext value hget
        exact noNumber_string text
      · exact noNumber_shape hshape (fun node => ih) hget (hvalues _ hmem)
          (hkeys key (List.mem_map_of_mem hmem)) hk hk'

theorem noNumber_admitted (h : schema.WellFormed) (hadmitted : admitSchema zmij name schema = .ok ()) :
    schema.Everywhere Json.NoNumber := by
  obtain ⟨-, hvisit⟩ := ite_error_eq_ok.mp hadmitted
  obtain ⟨counts, hcounts, -⟩ := bind_eq_ok.mp hvisit
  exact noNumber_profiled h ((visit_iff (by decide : 1 + 8 = 9) schema ⟨0, 0, 0⟩ counts
    (Nat.zero_le 256) (Nat.zero_le 256)).mp hcounts).1

/-! ## Identity -/

theorem wellFormed_identity (h : schema.WellFormed) : (identity name schema).WellFormed := by
  refine Json.everywhere_array.mpr ⟨trivial, fun value hmem => ?_⟩
  simp only [List.mem_cons, List.not_mem_nil, or_false] at hmem
  rcases hmem with rfl | rfl | rfl
  · exact trivial
  · exact trivial
  · exact h

/-- What is hashed is one text exactly for one name and a permuted schema. -/
theorem encoded_eq_iff (hz : FloatText zmij) {name' : String} {schema' : Json}
    (h : schema.WellFormed) (h' : schema'.WellFormed) :
    encoded zmij name schema = encoded zmij name' schema' ↔
      name = name' ∧ schema.canonical = schema'.canonical := by
  have hidentity : (identity name schema).canonical.WellFormed :=
    (Json.permuted_canonical (wellFormed_identity h)).wellFormed (wellFormed_identity h)
  have hidentity' : (identity name' schema').canonical.WellFormed :=
    (Json.permuted_canonical (wellFormed_identity h')).wellFormed (wellFormed_identity h')
  rw [encoded, encoded, toVec_inj hz hidentity hidentity', identity, identity,
    Json.canonical_array, Json.canonical_array]
  simp [Json.canonical]

end StructuredOutput

open StructuredOutput in
/-- The canonical form has one text for all orders of keys, and no text for values that differ in
anything else. Two contracts have one identity exactly when they are equal, which is to have one
name and schemas that differ in the order of keys at most, as long as their texts do not collide. -/
theorem contract_identity {zmij : F64 → List UInt8} (hz : FloatText zmij) :
    (∀ a b : Json, a.WellFormed → b.WellFormed →
      (a.canonical.toVec zmij = b.canonical.toVec zmij ↔ a.Permuted b)) ∧
    (∀ a : Json, a.WellFormed → a.canonical.canonical = a.canonical) ∧
    ∀ (sha256 : List UInt8 → Vector UInt8 32)
      (compile : Json → Except String (Json → Except String Unit))
      (parse : String → Except String Json) (name name' : String) (schema schema' : Json)
      (c c' : StructuredOutput), schema.WellFormed → schema'.WellFormed →
      new zmij sha256 compile parse name schema = .ok c →
      new zmij sha256 compile parse name' schema' = .ok c' →
      (sha256 (encoded zmij name schema) = sha256 (encoded zmij name' schema') →
        encoded zmij name schema = encoded zmij name' schema') →
      (c.contractId = c'.contractId ↔ c.eq c' = true) ∧
      (c.eq c' = true ↔ name = name' ∧ schema.Permuted schema') := by
  refine ⟨fun a b ha hb => ?_, fun a ha => Json.canonical_idempotent ha, ?_⟩
  · have hcanonical := (Json.permuted_canonical ha).wellFormed ha
    have hcanonical' := (Json.permuted_canonical hb).wellFormed hb
    rw [toVec_inj hz hcanonical hcanonical', Json.canonical_eq_iff ha hb]
  · intro sha256 compile parse name name' schema schema' c c' h h' hc hc' hcollide
    obtain ⟨hadmitted, validator, -, rfl⟩ := new_eq_ok.mp hc
    obtain ⟨-, validator', -, rfl⟩ := new_eq_ok.mp hc'
    have heq : (StructuredOutput.eq ⟨name, schema, lowerHex (sha256 (encoded zmij name schema)),
        parse, validator⟩ ⟨name', schema', lowerHex (sha256 (encoded zmij name' schema')), parse,
        validator'⟩ = true) ↔ name = name' ∧ schema.canonical = schema'.canonical := by
      rw [StructuredOutput.eq, Bool.and_eq_true, beq_iff_eq,
        Json.same_iff (noNumber_admitted h hadmitted) h h']
    constructor
    · rw [heq, ← encoded_eq_iff hz h h']
      exact ⟨fun hid => hcollide (lowerHex_injective hid), fun hencoded => by rw [hencoded]⟩
    · rw [heq, Json.canonical_eq_iff h h']

/-- Texts for floats: that of 1.5, and others for the others. -/
def floatText (x : F64) : List UInt8 :=
  if x.bits = 0x3FF8000000000000 then utf8Bytes "1.5"
  else utf8Bytes (toString x.bits.toNat) ++ utf8Bytes ".0"

theorem floatText_floatText : FloatText floatText where
  bytes x _ b hb := by
    have hpoint : ∀ b ∈ utf8Bytes "1.5", isNumberByte b := by decide +kernel
    have hzero : ∀ b ∈ utf8Bytes ".0", isNumberByte b := by decide +kernel
    unfold floatText at hb
    split at hb
    · exact hpoint b hb
    · rcases List.mem_append.mp hb with hb | hb
      · exact isNumberByte_of_digit (digit_of_mem_decimal hb)
      · exact hzero b hb
  fraction x _ := by
    unfold floatText
    split
    · exact .inl (by decide +kernel)
    · exact .inl (List.mem_append_right _ (by decide +kernel))
  injective x y _ _ h := by
    have hpoint : utf8Bytes "1.5" = [0x31, 0x2E, 0x35] := by decide +kernel
    have hzero : utf8Bytes ".0" = [0x2E, 0x30] := by decide +kernel
    have hlast : ∀ n : Nat, utf8Bytes "1.5" ≠ utf8Bytes (toString n) ++ utf8Bytes ".0" := by
      intro n heq
      have heq := congrArg List.getLast? heq
      rw [hpoint, hzero] at heq
      simp at heq
    obtain ⟨x⟩ := x
    obtain ⟨y⟩ := y
    simp only [floatText] at h
    split_ifs at h with hx hy hy
    · rw [hx, hy]
    · exact absurd h (hlast _)
    · exact absurd h.symm (hlast _)
    · exact congrArg _ (UInt64.toNat_inj.mp (decimal_injective (List.append_cancel_right h)))

/-- A schema of two properties. -/
def answerSchema (properties : List (String × Json)) : Json := .object [
  ("type", .string "object"), ("properties", .object properties),
  ("required", .array [.string "b", .string "a"]), ("additionalProperties", .bool false)]

def answerA : String × Json := ("a", .object [("type", .string "string")])

def answerB : String × Json := ("b", .object [("type", .string "integer")])

/-- The SHA-256 of the text of the contract `Answer`, and of that of the contract `Reply`. -/
def answerDigest (bytes : List UInt8) : Vector UInt8 32 :=
  if bytes = StructuredOutput.encoded floatText "Answer" (answerSchema [answerA, answerB]) then
    #v[0x96, 0x50, 0x83, 0xF0, 0x6F, 0x9A, 0x31, 0xCE, 0xF0, 0x60, 0x15, 0x7F, 0x8E, 0x79, 0xBF,
      0x28, 0x4E, 0x90, 0x8E, 0xA6, 0xE3, 0xB4, 0xA0, 0x8E, 0x8B, 0xA7, 0xD9, 0x77, 0xB0, 0x32,
      0x88, 0x03]
  else
    #v[0xF9, 0xEA, 0xC4, 0x2E, 0x6B, 0x27, 0x3A, 0x46, 0x5F, 0x38, 0xE1, 0xE8, 0x29, 0x57, 0x41,
      0x3A, 0x4C, 0x16, 0xA1, 0xA9, 0x0F, 0xC5, 0xFE, 0x90, 0xF4, 0x1D, 0xC2, 0xD0, 0xC6, 0xAA,
      0x1E, 0xA1]

/-- A contract with a schema of two properties, which are given in one order or the other. -/
def answerContract (name : String) (properties : List (String × Json)) :
    Except OutputSchemaError StructuredOutput :=
  StructuredOutput.new floatText answerDigest (fun _ => .ok fun _ => .ok ()) (fun _ => .error "") name
    (answerSchema properties)

theorem wellFormed_answer {properties : List (String × Json)}
    (h : properties.Perm [answerA, answerB]) : (answerSchema properties).WellFormed := by
  have hkeys : (properties.map Prod.fst).Nodup := (h.map Prod.fst).nodup_iff.mpr (by decide)
  have hvalues : ∀ entry ∈ properties, entry.2.WellFormed := by
    intro entry hmem
    have hmem := h.mem_iff.mp hmem
    simp only [List.mem_cons, List.not_mem_nil, or_false] at hmem
    rcases hmem with rfl | rfl <;> simp [answerA, answerB, Json.everywhere_object, Json.Kept,
      Json.Everywhere]
  have hrequired : (Json.array [.string "b", .string "a"]).WellFormed :=
    Json.everywhere_array.mpr ⟨trivial, by simp [Json.Everywhere, Json.Kept]⟩
  refine Json.everywhere_object.mpr ⟨by simp [Json.Kept], fun entry hmem => ?_⟩
  simp only [List.mem_cons, List.not_mem_nil, or_false] at hmem
  rcases hmem with rfl | rfl | rfl | rfl
  · exact trivial
  · exact Json.everywhere_object.mpr ⟨hkeys, hvalues⟩
  · exact hrequired
  · exact trivial

theorem exists_answer (name : String) (properties : List (String × Json))
    (h : admitSchema floatText name (answerSchema properties) = .ok ()) :
    ∃ c, answerContract name properties = .ok c :=
  ⟨_, StructuredOutput.new_eq_ok.mpr ⟨h, _, rfl, rfl⟩⟩

/-- The order of the two properties makes no other contract, another name does. -/
theorem contract_identity_answer : ∃ c c' c'' : StructuredOutput,
    answerContract "Answer" [answerA, answerB] = .ok c ∧
    answerContract "Answer" [answerB, answerA] = .ok c' ∧
    answerContract "Reply" [answerA, answerB] = .ok c'' ∧
    c.contractId = c'.contractId ∧ c.contractId ≠ c''.contractId := by
  obtain ⟨c, hc⟩ := exists_answer "Answer" [answerA, answerB] (by decide +kernel)
  obtain ⟨c', hc'⟩ := exists_answer "Answer" [answerB, answerA] (by decide +kernel)
  obtain ⟨c'', hc''⟩ := exists_answer "Reply" [answerA, answerB] (by decide +kernel)
  have hidentity := (contract_identity floatText_floatText).2.2 answerDigest
    (fun _ => .ok fun _ => .ok ()) fun _ => .error ""
  have hA := wellFormed_answer (List.Perm.refl [answerA, answerB])
  have hB := wellFormed_answer (List.Perm.swap answerA answerB [])
  have hpermuted : (answerSchema [answerA, answerB]).Permuted (answerSchema [answerB, answerA]) :=
    .entry [("type", .string "object")] "properties" _ (.keys (List.Perm.swap answerB answerA []))
  refine ⟨c, c', c'', hc, hc', hc'', ?_, ?_⟩
  · have hsame := hidentity "Answer" "Answer" _ _ c c' hA hB hc hc' fun _ => by decide +kernel
    exact hsame.1.mpr (hsame.2.mpr ⟨rfl, hpermuted⟩)
  · have hother := hidentity "Answer" "Reply" _ _ c c'' hA hA hc hc'' (by decide +kernel)
    intro heq
    exact absurd (hother.2.mp (hother.1.mp heq)).1 (by decide)

end GroupAgent.Model
