import GroupAgent.Lib.Code
import GroupAgent.Model.Canonical
import GroupAgent.Model.Serialize

/-!
# The compact form can be read back

Two values with one text, as `Json.toVec` writes it, are one value, their keys in the same order
(`toVec_inj`). A text ends by itself, except that of a number, which ends at the first byte that is
not of a number (`toVec_recovers`).

* The proof follows the grammar: literals and numbers by their bytes, texts by the escaping (a code
  of `Lib.Code`), arrays and objects by their parts and the separators between them.
* A float and an integer have no text in common: the one has a point or an exponent, the other has
  neither.

Premise: the texts of floats are those of the parameter `zmij`; what is relied on is `FloatText`,
that they consist of the bytes of numbers, have a point or an exponent, and differ for different
floats.
-/

namespace GroupAgent.Model

open GroupAgent.Lib

/-! ## Texts -/

theorem utf8Bytes_injective : Function.Injective utf8Bytes := by
  intro a b h
  have hencode : a.toList.utf8Encode = b.toList.utf8Encode := by
    unfold List.utf8Encode
    exact congrArg _ h
  rw [← String.toByteArray_inj]
  simpa using hencode

/-- The byte that an escape sequence stands for, or that stands for itself. -/
def unescape : List UInt8 → Option UInt8
  | 0x5C :: 0x75 :: _ :: _ :: hi :: lo :: _ => some (unhex hi * 16 + unhex lo)
  | 0x5C :: 0x62 :: _ => some 0x08
  | 0x5C :: 0x74 :: _ => some 0x09
  | 0x5C :: 0x6E :: _ => some 0x0A
  | 0x5C :: 0x66 :: _ => some 0x0C
  | 0x5C :: 0x72 :: _ => some 0x0D
  | 0x5C :: b :: _ => some b
  | b :: _ => some b
  | [] => none
where
  unhex (b : UInt8) : UInt8 := if b < 0x3A then b - 0x30 else b - 0x57

theorem unhex_hexDigit {b : UInt8} (h : b < 0x20) :
    unescape.unhex (hexDigit (b >>> 4)) * 16 + unescape.unhex (hexDigit (b &&& 0xF)) = b := by
  have hall : ∀ n : Fin 32, unescape.unhex (hexDigit (UInt8.ofNat n >>> 4)) * 16 +
      unescape.unhex (hexDigit (UInt8.ofNat n &&& 0xF)) = UInt8.ofNat n := by decide
  have hb := hall ⟨b.toNat, UInt8.lt_iff_toNat_lt.mp h⟩
  rwa [UInt8.ofNat_toNat] at hb

theorem unescape_escapeByte (b : UInt8) (s : List UInt8) : unescape (escapeByte b ++ s) = some b := by
  unfold escapeByte
  split_ifs with hmark hb ht hn hf hr hcontrol
  · rcases hmark with rfl | rfl <;> rfl
  · rw [hb]
    rfl
  · rw [ht]
    rfl
  · rw [hn]
    rfl
  · rw [hf]
    rfl
  · rw [hr]
    rfl
  · exact congrArg some (unhex_hexDigit hcontrol)
  · have hne : b ≠ 0x5C := fun h => hmark (.inr h)
    simp [unescape, hne]

theorem escapeByte_prefixCode : PrefixCode escapeByte := .of_read unescape unescape_escapeByte

theorem escapeByte_ne_quote (b : UInt8) (s : List UInt8) :
    (escapeByte b ++ s).head? ≠ some 0x22 := by
  unfold escapeByte
  split_ifs with hmark <;> simp
  exact fun h => hmark (.inl h)

/-- A quoted text ends by itself. -/
theorem quoted_prefixCode : PrefixCode quoted := by
  intro text
  have hbytes : Recovers (fun s => s.head? = some 0x22) (List.flatMap escapeByte) (utf8Bytes text) :=
    .flatMap (fun b _ => escapeByte_prefixCode b) (fun _ _ => trivial) (fun _ _ => trivial)
      escapeByte_ne_quote
  exact (hbytes.enclose [0x22] [0x22] fun _ => rfl).comp utf8Bytes_injective

/-! ## Numbers -/

/-- The bytes of a number: digits, signs, a point, and the mark of an exponent. -/
def isNumberByte (b : UInt8) : Bool :=
  (0x30 ≤ b && b ≤ 0x39) || b == 0x2B || b == 0x2D || b == 0x2E || b == 0x65

/-- What is relied on of the texts of finite floats: bytes of a number with a point or an exponent
among them, and no text for two floats. -/
structure FloatText (zmij : F64 → List UInt8) : Prop where
  bytes : ∀ x, x.isFinite → ∀ b ∈ zmij x, isNumberByte b
  fraction : ∀ x, x.isFinite → 0x2E ∈ zmij x ∨ 0x65 ∈ zmij x
  injective : ∀ x y, x.isFinite → y.isFinite → zmij x = zmij y → x = y

theorem digit_of_mem_decimal {n : Nat} {b : UInt8} (h : b ∈ utf8Bytes (toString n)) :
    0x30 ≤ b ∧ b ≤ 0x39 := by
  obtain ⟨c, hc, hb⟩ := List.mem_flatMap.mp h
  rw [show toString n = n.repr from rfl, Nat.toList_repr] at hc
  have hdigit := Nat.isDigit_of_mem_toDigits (by decide) (by decide) hc
  rw [Char.isDigit, Bool.and_eq_true, decide_eq_true_iff, decide_eq_true_iff] at hdigit
  obtain ⟨hlow, hhigh⟩ := hdigit
  rw [ge_iff_le, UInt32.le_iff_toNat_le] at hlow
  rw [UInt32.le_iff_toNat_le] at hhigh
  have hone : c.utf8Size = 1 := by
    rw [Char.utf8Size_eq_one_iff, UInt32.le_iff_toNat_le]
    exact hhigh.trans (by decide)
  rw [String.utf8EncodeChar_eq_singleton hone, List.mem_singleton] at hb
  subst hb
  rw [UInt8.le_iff_toNat_le, UInt8.le_iff_toNat_le, UInt32.toNat_toUInt8]
  have hlow : 48 ≤ c.val.toNat := hlow
  have hhigh : c.val.toNat ≤ 57 := hhigh
  constructor
  · show 48 ≤ c.val.toNat % 2 ^ 8
    omega
  · show c.val.toNat % 2 ^ 8 ≤ 57
    omega

theorem decimal_injective {m n : Nat} (h : utf8Bytes (toString m) = utf8Bytes (toString n)) :
    m = n := by
  have hrepr : m.repr = n.repr := utf8Bytes_injective h
  rw [← Nat.ofDigitChars_ten_toDigits (n := m), ← Nat.toList_repr, hrepr, Nat.toList_repr,
    Nat.ofDigitChars_ten_toDigits]

theorem toVec_negInt {zmij : F64 → List UInt8} {value : Int64} (h : value < 0) :
    (JsonNumber.negInt value).toVec zmij = 0x2D :: utf8Bytes (toString value.toInt.natAbs) := by
  have hneg : value.toInt < 0 := Int64.lt_iff_toInt_lt.mp h
  obtain ⟨n, hn⟩ := Int.eq_negSucc_of_lt_zero hneg
  have hstring : toString (Int.negSucc n) = "-" ++ n.succ.repr := rfl
  rw [JsonNumber.toVec, hn, Int.natAbs_negSucc, hstring, utf8Bytes, String.toList_append,
    List.flatMap_append]
  rfl

section Number

variable {zmij : F64 → List UInt8} {b : UInt8}

theorem isNumberByte_of_digit (h : 0x30 ≤ b ∧ b ≤ 0x39) : isNumberByte b = true := by
  simp [isNumberByte, h]

theorem digit_ne (h : 0x30 ≤ b ∧ b ≤ 0x39) : b ≠ 0x2D ∧ b ≠ 0x2E ∧ b ≠ 0x65 := by
  refine ⟨?_, ?_, ?_⟩ <;> rintro rfl <;> revert h <;> decide

theorem isNumberByte_toVec (hz : FloatText zmij) {value : JsonNumber} (h : value.Kept) :
    ∀ b ∈ value.toVec zmij, isNumberByte b := by
  intro b hb
  cases value with
  | posInt value => exact isNumberByte_of_digit (digit_of_mem_decimal hb)
  | negInt value =>
    rw [toVec_negInt h] at hb
    rcases List.mem_cons.mp hb with rfl | hb
    · rfl
    · exact isNumberByte_of_digit (digit_of_mem_decimal hb)
  | float value => exact hz.bytes value h b hb

/-- A float is told from an integer by its point or exponent. -/
theorem toVec_float_ne (hz : FloatText zmij) {value : F64} (h : value.isFinite)
    {bytes : List UInt8} (hbytes : ∀ b ∈ bytes, b ≠ 0x2E ∧ b ≠ 0x65) : zmij value ≠ bytes := by
  rintro rfl
  rcases hz.fraction value h with hpoint | hexp
  · exact (hbytes _ hpoint).1 rfl
  · exact (hbytes _ hexp).2 rfl

theorem posInt_bytes {value : UInt64} (hb : b ∈ (JsonNumber.posInt value).toVec zmij) :
    b ≠ 0x2D ∧ b ≠ 0x2E ∧ b ≠ 0x65 := digit_ne (digit_of_mem_decimal hb)

theorem negInt_bytes {value : Int64} (h : value < 0)
    (hb : b ∈ (JsonNumber.negInt value).toVec zmij) : b ≠ 0x2E ∧ b ≠ 0x65 := by
  rw [toVec_negInt h] at hb
  rcases List.mem_cons.mp hb with rfl | hb
  · decide
  · exact (digit_ne (digit_of_mem_decimal hb)).2

theorem posInt_ne_negInt {value : UInt64} {value' : Int64} (h : value' < 0) :
    (JsonNumber.posInt value).toVec zmij ≠ (JsonNumber.negInt value').toVec zmij := by
  intro heq
  have hmem : 0x2D ∈ (JsonNumber.negInt value').toVec zmij := by
    rw [toVec_negInt h]
    exact List.mem_cons_self
  rw [← heq] at hmem
  exact (posInt_bytes hmem).1 rfl

theorem toVec_number_injective (hz : FloatText zmij) :
    Function.Injective fun value : {value : JsonNumber // value.Kept} => value.1.toVec zmij := by
  rintro ⟨a, ha⟩ ⟨b, hb⟩ h
  simp only [Subtype.mk.injEq]
  cases a with
  | posInt a =>
    cases b with
    | posInt b => exact congrArg _ (UInt64.toNat_inj.mp (decimal_injective h))
    | negInt b => exact absurd h (posInt_ne_negInt hb)
    | float b => exact absurd h.symm (toVec_float_ne hz hb fun _ hmem => (posInt_bytes hmem).2)
  | negInt a =>
    cases b with
    | posInt b => exact absurd h.symm (posInt_ne_negInt ha)
    | negInt b =>
      simp only [toVec_negInt ha, toVec_negInt hb, List.cons.injEq, true_and] at h
      have hneg : a.toInt < 0 := Int64.lt_iff_toInt_lt.mp ha
      have hneg' : b.toInt < 0 := Int64.lt_iff_toInt_lt.mp hb
      have habs := decimal_injective h
      exact congrArg _ (Int64.toInt_inj.mp (by omega))
    | float b => exact absurd h.symm (toVec_float_ne hz hb fun _ => negInt_bytes ha)
  | float a =>
    cases b with
    | posInt b => exact absurd h (toVec_float_ne hz ha fun _ hmem => (posInt_bytes hmem).2)
    | negInt b => exact absurd h (toVec_float_ne hz ha fun _ => negInt_bytes hb)
    | float b => exact congrArg _ (hz.injective a b ha hb h)

theorem decimal_ne_nil (n : Nat) : utf8Bytes (toString n) ≠ [] := by
  intro h
  have hempty : toString n = "" := utf8Bytes_injective h
  have hdigits : n.repr.toList = [] := congrArg String.toList hempty
  exact Nat.toDigits_ne_nil (Nat.toList_repr ▸ hdigits)

theorem toVec_number_ne_nil (hz : FloatText zmij) {value : JsonNumber} (h : value.Kept) :
    value.toVec zmij ≠ [] := by
  cases value with
  | posInt value => exact decimal_ne_nil _
  | negInt value =>
    rw [toVec_negInt h]
    exact List.cons_ne_nil _ _
  | float value => exact (hz.fraction value h).elim List.ne_nil_of_mem List.ne_nil_of_mem

/-- The text of a number ends at the first byte that is not of a number. -/
def NumberEnds (s : List UInt8) : Prop := ∀ b ∈ s.head?, ¬isNumberByte b

theorem number_recovers (hz : FloatText zmij) (value : {value : JsonNumber // value.Kept}) :
    Recovers NumberEnds (fun value : {value : JsonNumber // value.Kept} => value.1.toVec zmij)
      value :=
  .token (toVec_number_injective hz) fun value => isNumberByte_toVec hz value.2

end Number

/-! ## Values -/

section Value

variable (zmij : F64 → List UInt8)

theorem toVecValues_eq : ∀ values, Json.toVecValues zmij values =
    separate 0x2C (Json.toVec zmij) values
  | [] => rfl
  | [_] => by simp only [Json.toVecValues, separate]
  | value :: value' :: values => by
    rw [Json.toVecValues, separate, toVecValues_eq (value' :: values)]
    simp

/-- An entry of an object. -/
def toVecEntry (entry : String × Json) : List UInt8 := quoted entry.1 ++ 0x3A :: entry.2.toVec zmij

theorem toVecEntries_eq : ∀ entries, Json.toVecEntries zmij entries =
    separate 0x2C (toVecEntry zmij) entries
  | [] => rfl
  | [(_, _)] => by simp only [Json.toVecEntries, separate, toVecEntry]
  | (_, _) :: entry :: entries => by
    rw [Json.toVecEntries, separate, toVecEntries_eq (entry :: entries), toVecEntry]
    simp

/-- What the first byte of a text can be. -/
def Json.Leads : Json → UInt8 → Prop
  | .null, b => b = 0x6E
  | .bool true, b => b = 0x74
  | .bool false, b => b = 0x66
  | .number _, b => isNumberByte b
  | .string _, b => b = 0x22
  | .array _, b => b = 0x5B
  | .object _, b => b = 0x7B

/-- Two values of one type; the type of a Boolean is its value. -/
inductive Json.SameKind : Json → Json → Prop where
  | null : SameKind .null .null
  | bool (value : Bool) : SameKind (.bool value) (.bool value)
  | number (a b : JsonNumber) : SameKind (.number a) (.number b)
  | string (a b : String) : SameKind (.string a) (.string b)
  | array (as bs : List Json) : SameKind (.array as) (.array bs)
  | object (as bs : List (String × Json)) : SameKind (.object as) (.object bs)

variable {zmij} {a b : Json}

theorem sameKind_of_leads {c : UInt8} (ha : a.Leads c) (hb : b.Leads c) : a.SameKind b := by
  rcases a with _ | (_ | _) | _ | _ | _ | _ <;> rcases b with _ | (_ | _) | _ | _ | _ | _ <;>
    simp only [Json.Leads] at ha hb
  -- the marks of two types differ, and none is a byte of a number
  all_goals first
    | constructor
    | (subst ha; exact absurd hb (by decide))
    | (subst hb; exact absurd ha (by decide))

theorem exists_leads (hz : FloatText zmij) (h : a.WellFormed) :
    ∃ c rest, a.toVec zmij = c :: rest ∧ a.Leads c := by
  cases a with
  | null => exact ⟨_, _, rfl, rfl⟩
  | bool value => cases value <;> exact ⟨_, _, rfl, rfl⟩
  | number value =>
    have hne := toVec_number_ne_nil hz h
    obtain ⟨c, rest, hrest⟩ := List.exists_cons_of_ne_nil hne
    refine ⟨c, rest, by rw [Json.toVec, hrest], isNumberByte_toVec hz h c ?_⟩
    rw [hrest]
    exact List.mem_cons_self
  | string value => exact ⟨_, _, by rw [Json.toVec, quoted]; rfl, rfl⟩
  | array values => exact ⟨_, _, by rw [Json.toVec]; rfl, rfl⟩
  | object entries => exact ⟨_, _, by rw [Json.toVec]; rfl, rfl⟩

/-- Two texts that begin in the same way are of values of one type. -/
theorem sameKind_of_toVec (hz : FloatText zmij) (ha : a.WellFormed) (hb : b.WellFormed)
    {s t : List UInt8} (h : a.toVec zmij ++ s = b.toVec zmij ++ t) : a.SameKind b := by
  obtain ⟨c, rest, hc, hlead⟩ := exists_leads hz ha
  obtain ⟨c', rest', hc', hlead'⟩ := exists_leads hz hb
  rw [hc, hc', List.cons_append, List.cons_append, List.cons.injEq] at h
  rw [← h.1] at hlead'
  exact sameKind_of_leads hlead hlead'

theorem not_leads_bracket (a : Json) : ¬a.Leads 0x5D := by
  rcases a with _ | (_ | _) | _ | _ | _ | _ <;> simp only [Json.Leads] <;> decide

theorem head?_toVec_ne (hz : FloatText zmij) (h : a.WellFormed) {c : UInt8}
    (hc : ∀ a : Json, ¬a.Leads c) (s : List UInt8) : (a.toVec zmij ++ s).head? ≠ some c := by
  obtain ⟨c', rest, hrest, hlead⟩ := exists_leads hz h
  rw [hrest]
  intro heq
  have heq : c' = c := Option.some.inj heq
  exact hc a (heq ▸ hlead)

/-- A `serde_json::Value`. -/
abbrev JsonValue := {value : Json // value.WellFormed}

theorem exists_values {values : List Json} (h : (Json.array values).WellFormed) :
    ∃ vs : List JsonValue, vs.map Subtype.val = values :=
  ⟨values.attachWith _ (Json.everywhere_array.mp h).2, List.attachWith_map_subtype_val _⟩

theorem exists_entries {entries : List (String × Json)} (h : (Json.object entries).WellFormed) :
    ∃ es : List (String × JsonValue), es.map (Prod.map id Subtype.val) = entries := by
  refine ⟨entries.pmap (fun entry hentry => (entry.1, ⟨entry.2, hentry⟩))
    (Json.everywhere_object.mp h).2, ?_⟩
  rw [List.map_pmap]
  exact (List.pmap_eq_map (f := id) _).trans (List.map_id _)

/-- An entry ends where its value does. -/
theorem entry_recovers {entry : String × JsonValue} (h : Recovers NumberEnds
    (fun value : JsonValue => value.1.toVec zmij) entry.2) :
    Recovers NumberEnds (toVecEntry zmij ∘ Prod.map id Subtype.val) entry := by
  have hvalue : Recovers NumberEnds (fun value : JsonValue => 0x3A :: value.1.toVec zmij) entry.2 :=
    fun b s t hs ht heq => h b s t hs ht (List.cons.inj heq).2
  exact Recovers.append (quoted_prefixCode entry.1) hvalue fun _ _ _ => trivial

theorem numberEnds_of_head? {s : List UInt8} {c : UInt8} (hc : isNumberByte c = false)
    (h : s.head? = some c) : NumberEnds s := by
  intro b hb
  rw [h] at hb
  cases hb
  rw [hc]
  exact Bool.false_ne_true

/-- **A text in front of no byte of a number is of one value.** -/
theorem toVec_recovers (hz : FloatText zmij) (h : a.WellFormed) :
    Recovers NumberEnds (fun value : JsonValue => value.1.toVec zmij) ⟨a, h⟩ := by
  induction a using Json.induct with
  | null =>
    rintro ⟨b, hb⟩ s t hs ht heq
    cases sameKind_of_toVec hz h hb heq
    rfl
  | bool value =>
    rintro ⟨b, hb⟩ s t hs ht heq
    cases sameKind_of_toVec hz h hb heq
    rfl
  | number value =>
    rintro ⟨b, hb⟩ s t hs ht heq
    cases sameKind_of_toVec hz h hb heq with
    | number _ value' =>
      have hvalue := number_recovers hz ⟨value, h⟩ ⟨value', hb⟩ s t hs ht heq
      cases hvalue
      rfl
  | string value =>
    rintro ⟨b, hb⟩ s t hs ht heq
    cases sameKind_of_toVec hz h hb heq with
    | string _ value' =>
      simp only [Json.toVec] at heq
      cases quoted_prefixCode value value' s t trivial trivial heq
      rfl
  | array values ih =>
    rintro ⟨b, hb⟩ s t hs ht heq
    cases sameKind_of_toVec hz h hb heq with
    | array _ values' =>
      obtain ⟨vs, rfl⟩ := exists_values h
      obtain ⟨vs', rfl⟩ := exists_values hb
      have hvalues : Recovers (fun s => s.head? = some 0x5D)
          (separate 0x2C fun value : JsonValue => value.1.toVec zmij) vs :=
        .separate (fun value hmem => ih value.1 (List.mem_map_of_mem hmem) value.2)
          (fun _ => numberEnds_of_head? rfl rfl) (fun _ => numberEnds_of_head? rfl)
          (fun value s => head?_toVec_ne hz value.2 not_leads_bracket s) (fun _ => by simp)
      simp only [Json.toVec, toVecValues_eq, separate_map] at heq
      cases hvalues.enclose [0x5B] [0x5D] (fun _ => rfl) vs' s t trivial trivial heq
      rfl
  | object entries ih =>
    rintro ⟨b, hb⟩ s t hs ht heq
    cases sameKind_of_toVec hz h hb heq with
    | object _ entries' =>
      obtain ⟨es, rfl⟩ := exists_entries h
      obtain ⟨es', rfl⟩ := exists_entries hb
      have hentries : Recovers (fun s => s.head? = some 0x7D)
          (separate 0x2C (toVecEntry zmij ∘ Prod.map id Subtype.val)) es :=
        .separate (fun entry hmem => entry_recovers (ih _ (List.mem_map_of_mem hmem) entry.2.2))
          (fun _ => numberEnds_of_head? rfl rfl) (fun _ => numberEnds_of_head? rfl)
          (fun _ _ => by simp [toVecEntry, quoted]) (fun _ => by simp)
      simp only [Json.toVec, toVecEntries_eq, separate_map] at heq
      cases hentries.enclose [0x7B] [0x7D] (fun _ => rfl) es' s t trivial trivial heq
      rfl

/-- **A text is of one value.** -/
theorem toVec_inj (hz : FloatText zmij) (ha : a.WellFormed) (hb : b.WellFormed) :
    a.toVec zmij = b.toVec zmij ↔ a = b := by
  constructor
  · intro h
    have hnil : NumberEnds [] := fun _ hb => absurd hb (Option.not_mem_none _)
    have heq : a.toVec zmij ++ [] = b.toVec zmij ++ [] := by rw [h]
    exact congrArg Subtype.val (toVec_recovers hz ha ⟨b, hb⟩ [] [] hnil hnil heq)
  · exact congrArg _

end Value

end GroupAgent.Model
