import GroupAgent.Model.Response

/-!
# Strict JSON

Model of `Json` and `parse` (`validate.rs:5`, its visitor 20-59, 61-66 of
`crates/group-agent-model/src/structured_output`), the reading of a structured output, and of JSON
documents.

* `serde_json` is not in the repository: its deserializer is a parameter, over the tokens of a
  text, and `Deserializer.Standard` is what is documented of it: it reads the grammar of JSON,
  token by token, and rejects everything else.
* The visitor of the source builds a value, counts the depth, and refuses a key that an object has
  already. It is called by the deserializer, part by part.
* `Doc`: the documents of JSON, as they are spelled. Two of them may denote one value.

Results:
* **`strict_parsing`**: a text is accepted exactly when it is one document without repeated keys,
  with its numbers in range and its depth within the limit, and the value is what the document
  denotes.
* **`validateResponse_iff`**: what a contract accepts whose `parse` is this one: a finished answer
  within the size, whose text is one strict document that fits the schema.

Out of scope: the messages of syntax errors and their positions.
-/

namespace GroupAgent.Model

open GroupAgent.Lib

/-! ## The deserializer -/

/-- What a number of a text is read as. -/
inductive ParserNumber where
  | u64 (value : UInt64)
  | i64 (value : Int64)
  | f64 (value : F64)

/-- A token of a text. A number that is out of range has no value. The text of a string is the one
with its escapes resolved. -/
inductive Token where
  | null
  | bool (value : Bool)
  | number (spelling : String) (value : Option ParserNumber)
  | string (spelling text : String)
  | beginArray
  | endArray
  | beginObject
  | endObject
  | comma
  | colon
  | invalid

/-- What a visitor is called with. -/
inductive Found where
  | unit
  | bool (value : Bool)
  | number (value : ParserNumber)
  | str (text : String)
  | seq
  | map

/-- What a token begins. -/
def Token.found? : Token → Option Found
  | .null => some .unit
  | .bool value => some (.bool value)
  | .number _ value => value.map .number
  | .string _ text => some (.str text)
  | .beginArray => some .seq
  | .beginObject => some .map
  | _ => none

/-- `serde_json::Deserializer`, its `SeqAccess` and its `MapAccess`, over the tokens left. -/
structure Deserializer (ε : Type) where
  custom : String → ε
  tokens : String → List Token
  any : List Token → Except ε (Found × List Token)
  nextElement : (first : Bool) → List Token → Except ε (Option (List Token))
  nextKey : (first : Bool) → List Token → Except ε (Option (String × List Token))
  colon : List Token → Except ε (List Token)
  endSeq : List Token → Except ε (List Token)
  endMap : List Token → Except ε (List Token)
  finish : List Token → Except ε Unit

/-- What stands before an element, or a member. -/
def separator (first : Bool) : List Token := if first then [] else [.comma]

/-- The deserializer reads JSON: elements and members are between their brackets, with a comma
between two of them, and a colon follows a key. -/
structure Deserializer.Standard {ε : Type} (d : Deserializer ε) : Prop where
  any : ∀ {ts found rest}, d.any ts = .ok (found, rest) ↔
    ∃ t, ts = t :: rest ∧ t.found? = some found
  noElement : ∀ {first ts}, d.nextElement first ts = .ok none ↔ ts.head? = some .endArray
  element : ∀ {first ts rest}, d.nextElement first ts = .ok (some rest) ↔
    ts = separator first ++ rest ∧ ∃ t, rest.head? = some t ∧ t ≠ .endArray
  noKey : ∀ {first ts}, d.nextKey first ts = .ok none ↔ ts.head? = some .endObject
  key : ∀ {first ts key rest}, d.nextKey first ts = .ok (some (key, rest)) ↔
    ∃ spelling, ts = separator first ++ .string spelling key :: rest
  colon : ∀ {ts rest}, d.colon ts = .ok rest ↔ ts = .colon :: rest
  endSeq : ∀ {ts rest}, d.endSeq ts = .ok rest ↔ ts = .endArray :: rest
  endMap : ∀ {ts rest}, d.endMap ts = .ok rest ↔ ts = .endObject :: rest
  finish : ∀ {ts}, d.finish ts = .ok () ↔ ts = []

/-! ## The visitor -/

section Visitor

variable {ε : Type} (d : Deserializer ε)

/-- `Number::from`, and `Number::from_f64`. -/
def ParserNumber.json? : ParserNumber → Option JsonNumber
  | .u64 value => some (.posInt value)
  | .i64 value => some (if value < 0 then .negInt value else .posInt value.toUInt64)
  | .f64 value => if value.isFinite then some (.float value) else none

/-- `visit_u64`, `visit_i64` and `visit_f64`. -/
def visitNumber (number : ParserNumber) : Except ε Json :=
  match number.json? with
  | some number => .ok (.number number)
  | none => .error (d.custom "invalid number")

/-- The loop of `visit_seq`. It ends: every turn takes a token. -/
def visitSeq (element : List Token → Except ε (Json × List Token)) :
    (fuel : Nat) → (first : Bool) → List Json → List Token → Except ε (List Json × List Token)
  | 0, _, _, _ => .error (d.custom "")
  | fuel + 1, first, values, ts => do
    match ← d.nextElement first ts with
    | none => pure (values, ts)
    | some ts => do
      let (value, ts) ← element ts
      visitSeq element fuel false (values ++ [value]) ts

/-- The loop of `visit_map`. -/
def visitMap (element : List Token → Except ε (Json × List Token)) :
    (fuel : Nat) → (first : Bool) → SortedMap String Json → List Token →
      Except ε (SortedMap String Json × List Token)
  | 0, _, _, _ => .error (d.custom "")
  | fuel + 1, first, values, ts => do
    match ← d.nextKey first ts with
    | none => pure (values, ts)
    | some (key, ts) =>
      if (values.get? key).isSome then throw (d.custom "duplicate object key")
      let ts ← d.colon ts
      let (value, ts) ← element ts
      visitMap element fuel false (values.upsert key fun _ => value) ts

/-- Read one value, at a depth. -/
def deserialize (depth : Nat) (ts : List Token) : Except ε (Json × List Token) :=
  if _ : 64 < depth then .error (d.custom "JSON nesting limit exceeded")
  else do
    let (found, ts) ← d.any ts
    match found with
    | .unit => pure (.null, ts)
    | .bool value => pure (.bool value, ts)
    | .number number => do
      let value ← visitNumber d number
      pure (value, ts)
    | .str text => pure (.string text, ts)
    | .seq => do
      let (values, ts) ←
        visitSeq d (fun ts => deserialize (depth + 1) ts) (ts.length + 1) true [] ts
      let ts ← d.endSeq ts
      pure (.array values, ts)
    | .map => do
      let (values, ts) ←
        visitMap d (fun ts => deserialize (depth + 1) ts) (ts.length + 1) true .empty ts
      let ts ← d.endMap ts
      pure (.object values.entries, ts)
termination_by 65 - depth
decreasing_by all_goals omega

/-- Read a text. -/
def parse (text : String) : Except ε Json := do
  let (value, ts) ← deserialize d 1 (d.tokens text)
  d.finish ts
  pure value

end Visitor

/-! ## Documents -/

/-- A JSON document, as it is spelled. -/
inductive Doc where
  | null
  | bool (value : Bool)
  | number (spelling : String) (value : Option ParserNumber)
  | string (spelling text : String)
  | array (elements : List Doc)
  | object (members : List ((String × String) × Doc))

mutual

/-- The tokens of a document. -/
def Doc.spell : Doc → List Token
  | .null => [.null]
  | .bool value => [.bool value]
  | .number spelling value => [.number spelling value]
  | .string spelling text => [.string spelling text]
  | .array elements => .beginArray :: spellElements true elements ++ [.endArray]
  | .object members => .beginObject :: spellMembers true members ++ [.endObject]

def spellElements : (first : Bool) → List Doc → List Token
  | _, [] => []
  | first, doc :: docs => separator first ++ doc.spell ++ spellElements false docs

def spellMembers : (first : Bool) → List ((String × String) × Doc) → List Token
  | _, [] => []
  | first, ((spelling, text), doc) :: members =>
    separator first ++ .string spelling text :: .colon :: doc.spell ++ spellMembers false members

end

/-- The documents directly below a document. -/
def Doc.children : Doc → List Doc
  | .array elements => elements
  | .object members => members.map Prod.snd
  | _ => []

/-- A document stands in another at a level. The root is level 1. -/
inductive Doc.At (part : Doc) : (level : Nat) → Doc → Prop where
  | root : Doc.At part 1 part
  | child {level : Nat} {doc child : Doc} : child ∈ doc.children → Doc.At part level child →
      Doc.At part (level + 1) doc

/-- The keys of the members of an object, with their escapes resolved. -/
def memberKeys (members : List ((String × String) × Doc)) : List String :=
  members.map fun member => member.1.2

/-- No object has a key twice. -/
def Doc.Distinct (doc : Doc) : Prop :=
  ∀ level members, Doc.At (.object members) level doc → (memberKeys members).Nodup

/-- Every number is in the representable range. -/
def Doc.InRange (doc : Doc) : Prop :=
  ∀ level spelling value, Doc.At (.number spelling value) level doc →
    ∃ number json, value = some number ∧ number.json? = some json

/-- Every value is at most so many levels deep. -/
def Doc.Shallow (levels : Nat) (doc : Doc) : Prop :=
  ∀ level part, Doc.At part level doc → level ≤ levels

/-- The value of a document: a list for an array, and the entries in key order for an object. -/
inductive Doc.Denotes : Doc → Json → Prop where
  | null : Denotes .null .null
  | bool {value : Bool} : Denotes (.bool value) (.bool value)
  | number {spelling : String} {number : ParserNumber} {json : JsonNumber} :
      number.json? = some json → Denotes (.number spelling (some number)) (.number json)
  | string {spelling text : String} : Denotes (.string spelling text) (.string text)
  | array {elements : List Doc} {values : List Json} : List.Forall₂ Denotes elements values →
      Denotes (.array elements) (.array values)
  | object {members : List ((String × String) × Doc)} {values : List Json}
      {entries : List (String × Json)} : List.Forall₂ Denotes (members.map Prod.snd) values →
      entries.Perm ((memberKeys members).zip values) → (entries.Pairwise fun a b => a.1 < b.1) →
      Denotes (.object members) (.object entries)

/-! ## What a document has -/

section All

variable {q q' : Nat → Doc → Prop} {doc : Doc}

/-- What holds of every part of a document, at its level. -/
def Doc.All (q : Nat → Doc → Prop) (doc : Doc) : Prop :=
  ∀ level part, Doc.At part level doc → q level part

/-- What holds of every part holds of the document, and of what is in the documents below it. -/
theorem Doc.all_iff : doc.All q ↔
    q 1 doc ∧ ∀ child ∈ doc.children, child.All fun level => q (level + 1) := by
  constructor
  · intro h
    exact ⟨h 1 doc .root, fun child hchild level part hat => h _ part (.child hchild hat)⟩
  · rintro ⟨hroot, hbelow⟩ level part hat
    cases hat with
    | root => exact hroot
    | child hchild hat => exact hbelow _ hchild _ _ hat

theorem Doc.All.imp (h : doc.All q) (hq : ∀ level part, q level part → q' level part) :
    doc.All q' := fun level part hat => hq level part (h level part hat)

/-- What a visitor checks at one document. -/
def Doc.Fair : Doc → Prop
  | .number _ value => ∃ number json, value = some number ∧ number.json? = some json
  | .object members => (memberKeys members).Nodup
  | _ => True

/-- What a visitor with so many levels left accepts, and the value it returns. -/
def Doc.Reads (levels : Nat) (doc : Doc) (value : Json) : Prop :=
  doc.All (fun level part => level ≤ levels ∧ part.Fair) ∧ doc.Denotes value

theorem Doc.all_fair_iff : doc.All (fun _ part => part.Fair) ↔ doc.Distinct ∧ doc.InRange := by
  constructor
  · intro h
    exact ⟨fun level members => h level (.object members),
      fun level spelling value => h level (.number spelling value)⟩
  · rintro ⟨hdistinct, hrange⟩ level part hat
    cases part with
    | number spelling value => exact hrange level spelling value hat
    | object members => exact hdistinct level members hat
    | null | bool | string | array => trivial

theorem Doc.reads_iff {levels : Nat} {value : Json} : doc.Reads levels value ↔
    (doc.Distinct ∧ doc.InRange ∧ doc.Shallow levels) ∧ doc.Denotes value := by
  refine and_congr_left' ?_
  rw [← and_assoc, ← Doc.all_fair_iff]
  constructor
  · intro h
    exact ⟨h.imp fun _ _ => And.right, h.imp fun _ _ => And.left⟩
  · rintro ⟨hfair, hshallow⟩ level part hat
    exact ⟨hshallow level part hat, hfair level part hat⟩

/-- One level less is left below a document. -/
theorem Doc.all_succ_iff {levels : Nat} :
    doc.All (fun level part => level ≤ levels + 1 ∧ part.Fair) ↔
      doc.Fair ∧
        ∀ child ∈ doc.children, child.All fun level part => level ≤ levels ∧ part.Fair := by
  rw [Doc.all_iff]
  simp only [Nat.add_le_add_iff_right]
  exact and_congr_left' (and_iff_right (Nat.le_add_left 1 levels))

end All

/-! ## The loops -/

/-- A document begins with a token that begins a value. -/
theorem Doc.spell_head (doc : Doc) : ∃ t ts, doc.spell = t :: ts ∧ t ≠ .endArray := by
  cases doc <;> simp [Doc.spell]

section Loops

variable {ε : Type} {d : Deserializer ε} {element : List Token → Except ε (Json × List Token)}
  {p : Doc → Json → Prop}

/-- An element is read where a document is spelled. -/
def ReadsOne (element : List Token → Except ε (Json × List Token)) (p : Doc → Json → Prop) : Prop :=
  ∀ {ts value rest}, element ts = .ok (value, rest) ↔ ∃ doc, ts = doc.spell ++ rest ∧ p doc value

/-- The loop of a sequence reads the elements up to the bracket. -/
theorem visitSeq_iff (hd : d.Standard) (hone : ReadsOne element p) :
    ∀ {fuel : Nat} {first : Bool} {values values' : List Json} {ts rest : List Token},
      ts.length < fuel →
      (visitSeq d element fuel first values ts = .ok (values', rest) ↔
        ∃ docs more, values' = values ++ more ∧ List.Forall₂ p docs more ∧
          ts = spellElements first docs ++ rest ∧ rest.head? = some .endArray)
  | 0, _, _, _, _, _, hfuel => absurd hfuel (Nat.not_lt_zero _)
  | fuel + 1, first, values, values', ts, rest, hfuel => by
    unfold visitSeq
    constructor
    · intro h
      obtain ⟨next, hnext, hturn⟩ := bind_eq_ok.mp h
      cases next with
      | none =>
        cases hturn
        exact ⟨[], [], (List.append_nil values).symm, .nil, rfl, hd.noElement.mp hnext⟩
      | some ts₁ =>
        obtain ⟨hts, -⟩ := hd.element.mp hnext
        obtain ⟨⟨value, ts₂⟩, hvalue, hrest⟩ := bind_eq_ok.mp hturn
        obtain ⟨doc, hdoc, hp⟩ := hone.mp hvalue
        have hshort : ts₂.length < fuel := by
          obtain ⟨t, ts', hhead, -⟩ := doc.spell_head
          rw [hts, hdoc, hhead] at hfuel
          simp only [List.length_append, List.length_cons] at hfuel
          omega
        obtain ⟨docs, more, rfl, hall, hspell, hend⟩ := (visitSeq_iff hd hone hshort).mp hrest
        refine ⟨doc :: docs, value :: more, by simp, .cons hp hall, ?_, hend⟩
        rw [hts, hdoc, hspell, spellElements]
        simp only [List.append_assoc]
    · rintro ⟨docs, more, rfl, hall, hts, hend⟩
      cases hall with
      | nil =>
        refine bind_eq_ok.mpr ⟨none, hd.noElement.mpr (hts ▸ hend), ?_⟩
        rw [List.append_nil, hts]
        rfl
      | @cons doc value docs more hp hall =>
        obtain ⟨t, ts', hhead, hne⟩ := doc.spell_head
        have hsplit : ts =
            separator first ++ (doc.spell ++ (spellElements false docs ++ rest)) := by
          rw [hts, spellElements]
          simp only [List.append_assoc]
        have hnext := hd.element.mpr ⟨hsplit, t, by rw [hhead]; rfl, hne⟩
        have hshort : (spellElements false docs ++ rest).length < fuel := by
          rw [hsplit, hhead] at hfuel
          simp only [List.length_append, List.length_cons] at hfuel ⊢
          omega
        refine bind_eq_ok.mpr ⟨_, hnext, bind_eq_ok.mpr ⟨_, hone.mpr ⟨doc, rfl, hp⟩, ?_⟩⟩
        exact (visitSeq_iff hd hone hshort).mpr ⟨docs, more, by simp, hall, rfl, hend⟩

/-- The loop of a map reads the members up to the bracket. Their keys are new ones. -/
theorem visitMap_iff (hd : d.Standard) (hone : ReadsOne element p) :
    ∀ {fuel : Nat} {first : Bool} {values values' : SortedMap String Json} {ts rest : List Token},
      ts.length < fuel →
      (visitMap d element fuel first values ts = .ok (values', rest) ↔
        ∃ members more, values' = values.insertAll ((memberKeys members).zip more) ∧
          List.Forall₂ p (members.map Prod.snd) more ∧ (memberKeys members).Nodup ∧
          (∀ key ∈ memberKeys members, values.get? key = none) ∧
          ts = spellMembers first members ++ rest ∧ rest.head? = some .endObject)
  | 0, _, _, _, _, _, hfuel => absurd hfuel (Nat.not_lt_zero _)
  | fuel + 1, first, values, values', ts, rest, hfuel => by
    unfold visitMap
    constructor
    · intro h
      obtain ⟨next, hnext, hturn⟩ := bind_eq_ok.mp h
      cases next with
      | none =>
        cases hturn
        exact ⟨[], [], rfl, .nil, List.nodup_nil, fun _ h => absurd h List.not_mem_nil, rfl,
          hd.noKey.mp hnext⟩
      | some found =>
        obtain ⟨key, ts₁⟩ := found
        obtain ⟨spelling, hts⟩ := hd.key.mp hnext
        obtain ⟨hnew, hmember⟩ := ite_error_eq_ok.mp hturn
        obtain ⟨ts₂, hcolon, hread⟩ := bind_eq_ok.mp hmember
        obtain ⟨⟨value, ts₃⟩, hvalue, hrest⟩ := bind_eq_ok.mp hread
        obtain ⟨doc, hdoc, hp⟩ := hone.mp hvalue
        rw [hd.colon.mp hcolon, hdoc] at hts
        have hshort : ts₃.length < fuel := by
          rw [hts] at hfuel
          simp only [List.length_append, List.length_cons] at hfuel
          omega
        obtain ⟨members, more, rfl, hall, hnodup, hfresh, hspell, hend⟩ :=
          (visitMap_iff hd hone hshort).mp hrest
        have hkey : values.get? key = none := Option.not_isSome_iff_eq_none.mp hnew
        have hne : ∀ k ∈ memberKeys members, k ≠ key := by
          intro k hk heq
          have hread := hfresh k hk
          rw [heq, SortedMap.get?_upsert_self] at hread
          cases hread
        refine ⟨((spelling, key), doc) :: members, value :: more, rfl, .cons hp hall,
          List.nodup_cons.mpr ⟨fun h => hne key h rfl, hnodup⟩, ?_, ?_, hend⟩
        · refine List.forall_mem_cons.mpr ⟨hkey, fun k hk => ?_⟩
          rw [← hfresh k hk, SortedMap.get?_upsert_of_ne (hne k hk)]
        · rw [hts, hspell, spellMembers]
          simp
    · rintro ⟨members, more, rfl, hall, hnodup, hfresh, hts, hend⟩
      cases members with
      | nil =>
        cases hall
        refine bind_eq_ok.mpr ⟨none, hd.noKey.mpr (hts ▸ hend), ?_⟩
        rw [hts]
        rfl
      | cons member members =>
        obtain ⟨⟨spelling, key⟩, doc⟩ := member
        cases hall with
        | @cons _ value _ more hp hall =>
          obtain ⟨hnotMem, hnodup⟩ := List.nodup_cons.mp hnodup
          obtain ⟨hkey, hfresh⟩ := List.forall_mem_cons.mp hfresh
          have hsplit : ts = separator first ++ .string spelling key :: .colon ::
              (doc.spell ++ (spellMembers false members ++ rest)) := by
            rw [hts, spellMembers]
            simp
          have hnext := hd.key.mpr ⟨spelling, hsplit⟩
          have hshort : (spellMembers false members ++ rest).length < fuel := by
            rw [hsplit] at hfuel
            simp only [List.length_append, List.length_cons] at hfuel ⊢
            omega
          refine bind_eq_ok.mpr ⟨_, hnext, ite_error_eq_ok.mpr ⟨by rw [hkey]; nofun, ?_⟩⟩
          refine bind_eq_ok.mpr ⟨_, hd.colon.mpr rfl, ?_⟩
          refine bind_eq_ok.mpr ⟨_, hone.mpr ⟨doc, rfl, hp⟩, ?_⟩
          refine (visitMap_iff hd hone hshort).mpr
            ⟨members, more, rfl, hall, hnodup, fun k hk => ?_, rfl, hend⟩
          have hne : k ≠ key := fun h => hnotMem (h ▸ hk)
          rw [SortedMap.get?_upsert_of_ne hne]
          exact hfresh k hk

end Loops

/-! ## The value -/

section Value

variable {ε : Type} {d : Deserializer ε}

theorem visitNumber_eq_ok {number : ParserNumber} {value : Json} :
    visitNumber d number = .ok value ↔ ∃ json, number.json? = some json ∧ value = .number json := by
  unfold visitNumber
  cases number.json? with
  | none => simp
  | some json => simp [eq_comm]

/-- A document without documents below it is read when it is fair. -/
theorem Doc.reads_leaf {levels : Nat} {doc : Doc} {value : Json} (h : doc.children = []) :
    doc.Reads (levels + 1) value ↔ doc.Fair ∧ doc.Denotes value := by
  unfold Doc.Reads
  rw [Doc.all_succ_iff, h]
  simp

theorem Doc.reads_null {levels : Nat} {value : Json} :
    Doc.null.Reads (levels + 1) value ↔ value = .null := by
  rw [Doc.reads_leaf rfl]
  constructor
  · rintro ⟨-, hdenotes⟩
    cases hdenotes
    rfl
  · rintro rfl
    exact ⟨trivial, .null⟩

theorem Doc.reads_bool {levels : Nat} {b : Bool} {value : Json} :
    (Doc.bool b).Reads (levels + 1) value ↔ value = .bool b := by
  rw [Doc.reads_leaf rfl]
  constructor
  · rintro ⟨-, hdenotes⟩
    cases hdenotes
    rfl
  · rintro rfl
    exact ⟨trivial, .bool⟩

theorem Doc.reads_string {levels : Nat} {spelling text : String} {value : Json} :
    (Doc.string spelling text).Reads (levels + 1) value ↔ value = .string text := by
  rw [Doc.reads_leaf rfl]
  constructor
  · rintro ⟨-, hdenotes⟩
    cases hdenotes
    rfl
  · rintro rfl
    exact ⟨trivial, .string⟩

theorem Doc.reads_number {levels : Nat} {spelling : String} {number : Option ParserNumber}
    {value : Json} : (Doc.number spelling number).Reads (levels + 1) value ↔
      ∃ n json, number = some n ∧ n.json? = some json ∧ value = .number json := by
  rw [Doc.reads_leaf rfl]
  constructor
  · rintro ⟨-, hdenotes⟩
    cases hdenotes with
    | number hjson => exact ⟨_, _, rfl, hjson, rfl⟩
  · rintro ⟨n, json, rfl, hjson, rfl⟩
    exact ⟨⟨n, json, rfl, hjson⟩, .number hjson⟩

/-- The documents below are read, each with its value. -/
theorem forall₂_reads {levels : Nat} : ∀ {docs : List Doc} {values : List Json},
    List.Forall₂ (Doc.Reads levels) docs values ↔
      (∀ doc ∈ docs, doc.All fun level part => level ≤ levels ∧ part.Fair) ∧
        List.Forall₂ Doc.Denotes docs values
  | [], values => by
    rw [List.forall₂_nil_left_iff, List.forall₂_nil_left_iff]
    exact (and_iff_right fun _ h => absurd h List.not_mem_nil).symm
  | doc :: docs, values => by
    rw [List.forall₂_cons_left_iff, List.forall₂_cons_left_iff, List.forall_mem_cons]
    constructor
    · rintro ⟨value, values, ⟨hall, hdenotes⟩, hrest, rfl⟩
      obtain ⟨halls, hmore⟩ := forall₂_reads.mp hrest
      exact ⟨⟨hall, halls⟩, value, values, hdenotes, hmore, rfl⟩
    · rintro ⟨⟨hall, halls⟩, value, values, hdenotes, hmore, rfl⟩
      exact ⟨value, values, ⟨hall, hdenotes⟩, forall₂_reads.mpr ⟨halls, hmore⟩, rfl⟩

theorem Doc.reads_array {levels : Nat} {elements : List Doc} {value : Json} :
    (Doc.array elements).Reads (levels + 1) value ↔
      ∃ values, List.Forall₂ (Doc.Reads levels) elements values ∧ value = .array values := by
  unfold Doc.Reads
  rw [Doc.all_succ_iff]
  constructor
  · rintro ⟨⟨-, hbelow⟩, hdenotes⟩
    cases hdenotes with
    | array hvalues => exact ⟨_, forall₂_reads.mpr ⟨hbelow, hvalues⟩, rfl⟩
  · rintro ⟨values, hreads, rfl⟩
    obtain ⟨hbelow, hvalues⟩ := forall₂_reads.mp hreads
    exact ⟨⟨trivial, hbelow⟩, .array hvalues⟩

theorem memberKeys_zip {members : List ((String × String) × Doc)} {values : List Json}
    {p : Doc → Json → Prop} (h : List.Forall₂ p (members.map Prod.snd) values) :
    ((memberKeys members).zip values).map Prod.fst = memberKeys members := by
  refine List.map_fst_zip (Nat.le_of_eq ?_)
  rw [← h.length_eq, memberKeys, List.length_map, List.length_map]

theorem Doc.reads_object {levels : Nat} {members : List ((String × String) × Doc)} {value : Json} :
    (Doc.object members).Reads (levels + 1) value ↔
      ∃ values, List.Forall₂ (Doc.Reads levels) (members.map Prod.snd) values ∧
        (memberKeys members).Nodup ∧
        value = .object (SortedMap.empty.insertAll ((memberKeys members).zip values)).entries := by
  have hperm : ∀ {values : List Json}, List.Forall₂ Doc.Denotes (members.map Prod.snd) values →
      (memberKeys members).Nodup →
      ((SortedMap.empty.insertAll ((memberKeys members).zip values)).entries).Perm
        ((memberKeys members).zip values) := by
    intro values hvalues hnodup
    have hkeys := memberKeys_zip hvalues
    exact SortedMap.insertAll_perm (hkeys.symm ▸ hnodup) fun _ _ => rfl
  unfold Doc.Reads
  rw [Doc.all_succ_iff]
  constructor
  · rintro ⟨⟨hnodup, hbelow⟩, hdenotes⟩
    cases hdenotes with
    | @object _ values entries hvalues hentries hsorted =>
      have heq : (⟨entries, hsorted⟩ : SortedMap String Json) =
          SortedMap.empty.insertAll ((memberKeys members).zip values) :=
        SortedMap.eq_of_perm (hentries.trans (hperm hvalues hnodup).symm)
      exact ⟨values, forall₂_reads.mpr ⟨hbelow, hvalues⟩, hnodup,
        congrArg (fun m : SortedMap String Json => Json.object m.entries) heq⟩
  · rintro ⟨values, hreads, hnodup, rfl⟩
    obtain ⟨hbelow, hvalues⟩ := forall₂_reads.mp hreads
    exact ⟨⟨hnodup, hbelow⟩, .object hvalues (hperm hvalues hnodup) (SortedMap.sorted _)⟩

/-- The visitor reads a document that is fair, with so many levels left. -/
theorem deserialize_iff (hd : d.Standard) : ∀ {levels depth : Nat}, depth + levels = 65 →
    ReadsOne (deserialize d depth) (Doc.Reads levels)
  | 0, depth, hdepth, ts, value, rest => by
    have hdeep : deserialize d depth ts = .error (d.custom "JSON nesting limit exceeded") := by
      rw [deserialize, dif_pos (by omega)]
    rw [hdeep]
    refine iff_of_false nofun ?_
    rintro ⟨doc, -, hall, -⟩
    exact absurd (hall 1 doc .root).1 (by decide)
  | levels + 1, depth, hdepth, ts, value, rest => by
    have hone : ReadsOne (fun ts => deserialize d (depth + 1) ts) (Doc.Reads levels) :=
      deserialize_iff hd (by omega)
    rw [deserialize, dif_neg (by omega)]
    constructor
    · intro h
      obtain ⟨⟨found, ts₁⟩, hany, hvisit⟩ := bind_eq_ok.mp h
      obtain ⟨t, rfl, hfound⟩ := hd.any.mp hany
      cases t with
      | null =>
        cases hfound
        cases hvisit
        exact ⟨.null, rfl, Doc.reads_null.mpr rfl⟩
      | bool b =>
        cases hfound
        cases hvisit
        exact ⟨.bool b, rfl, Doc.reads_bool.mpr rfl⟩
      | number spelling number =>
        obtain ⟨n, rfl, rfl⟩ := Option.map_eq_some_iff.mp hfound
        obtain ⟨v, hv, hdone⟩ := bind_eq_ok.mp hvisit
        cases hdone
        obtain ⟨json, hjson, rfl⟩ := visitNumber_eq_ok.mp hv
        exact ⟨.number spelling (some n), rfl, Doc.reads_number.mpr ⟨n, json, rfl, hjson, rfl⟩⟩
      | string spelling text =>
        cases hfound
        cases hvisit
        exact ⟨.string spelling text, rfl, Doc.reads_string.mpr rfl⟩
      | beginArray =>
        cases hfound
        obtain ⟨⟨values, ts₂⟩, hloop, hclose⟩ := bind_eq_ok.mp hvisit
        obtain ⟨ts₃, hend, hdone⟩ := bind_eq_ok.mp hclose
        cases hdone
        obtain ⟨docs, more, rfl, hall, rfl, -⟩ :=
          (visitSeq_iff hd hone (Nat.lt_succ_self _)).mp hloop
        rw [hd.endSeq.mp hend]
        exact ⟨.array docs, by simp [Doc.spell], Doc.reads_array.mpr ⟨values, hall, rfl⟩⟩
      | beginObject =>
        cases hfound
        obtain ⟨⟨values, ts₂⟩, hloop, hclose⟩ := bind_eq_ok.mp hvisit
        obtain ⟨ts₃, hend, hdone⟩ := bind_eq_ok.mp hclose
        cases hdone
        obtain ⟨members, more, rfl, hall, hnodup, -, rfl, -⟩ :=
          (visitMap_iff hd hone (Nat.lt_succ_self _)).mp hloop
        rw [hd.endMap.mp hend]
        exact ⟨.object members, by simp [Doc.spell],
          Doc.reads_object.mpr ⟨more, hall, hnodup, rfl⟩⟩
      | endArray | endObject | comma | colon | invalid => cases hfound
    · rintro ⟨doc, rfl, hreads⟩
      cases doc with
      | null =>
        obtain rfl := Doc.reads_null.mp hreads
        exact bind_eq_ok.mpr ⟨(.unit, rest), hd.any.mpr ⟨.null, rfl, rfl⟩, rfl⟩
      | bool b =>
        obtain rfl := Doc.reads_bool.mp hreads
        exact bind_eq_ok.mpr ⟨(.bool b, rest), hd.any.mpr ⟨.bool b, rfl, rfl⟩, rfl⟩
      | number spelling number =>
        obtain ⟨n, json, rfl, hjson, rfl⟩ := Doc.reads_number.mp hreads
        refine bind_eq_ok.mpr ⟨(.number n, rest),
          hd.any.mpr ⟨.number spelling (some n), rfl, rfl⟩, ?_⟩
        exact bind_eq_ok.mpr ⟨_, visitNumber_eq_ok.mpr ⟨json, hjson, rfl⟩, rfl⟩
      | string spelling text =>
        obtain rfl := Doc.reads_string.mp hreads
        exact bind_eq_ok.mpr ⟨(.str text, rest), hd.any.mpr ⟨.string spelling text, rfl, rfl⟩, rfl⟩
      | array docs =>
        obtain ⟨values, hall, rfl⟩ := Doc.reads_array.mp hreads
        have hspell : (Doc.array docs).spell ++ rest =
            .beginArray :: (spellElements true docs ++ .endArray :: rest) := by simp [Doc.spell]
        have hloop : visitSeq d (fun ts => deserialize d (depth + 1) ts) _ true []
            (spellElements true docs ++ .endArray :: rest) = .ok (values, .endArray :: rest) :=
          (visitSeq_iff hd hone (Nat.lt_succ_self _)).mpr
            ⟨docs, values, (List.nil_append values).symm, hall, rfl, rfl⟩
        refine bind_eq_ok.mpr ⟨_, hd.any.mpr ⟨.beginArray, hspell, rfl⟩, ?_⟩
        exact bind_eq_ok.mpr ⟨_, hloop, bind_eq_ok.mpr ⟨rest, hd.endSeq.mpr rfl, rfl⟩⟩
      | object members =>
        obtain ⟨values, hall, hnodup, rfl⟩ := Doc.reads_object.mp hreads
        have hspell : (Doc.object members).spell ++ rest =
            .beginObject :: (spellMembers true members ++ .endObject :: rest) := by simp [Doc.spell]
        have hloop : visitMap d (fun ts => deserialize d (depth + 1) ts) _ true .empty
            (spellMembers true members ++ .endObject :: rest) = .ok (_, .endObject :: rest) :=
          (visitMap_iff hd hone (Nat.lt_succ_self _)).mpr
            ⟨members, values, rfl, hall, hnodup, fun _ _ => rfl, rfl, rfl⟩
        refine bind_eq_ok.mpr ⟨_, hd.any.mpr ⟨.beginObject, hspell, rfl⟩, ?_⟩
        exact bind_eq_ok.mpr ⟨_, hloop, bind_eq_ok.mpr ⟨rest, hd.endMap.mpr rfl, rfl⟩⟩

/-- A document that is fair has a value. -/
theorem Doc.reads_total : ∀ {levels : Nat} {doc : Doc},
    doc.All (fun level part => level ≤ levels ∧ part.Fair) → ∃ value, doc.Reads levels value
  | 0, doc, hall => absurd (hall 1 doc .root).1 (by decide)
  | levels + 1, doc, hall => by
    obtain ⟨hfair, hbelow⟩ := Doc.all_succ_iff.mp hall
    have hchildren : ∀ docs : List Doc,
        (∀ doc ∈ docs, doc.All fun level part => level ≤ levels ∧ part.Fair) →
          ∃ values, List.Forall₂ (Doc.Reads levels) docs values := by
      intro docs
      induction docs with
      | nil => exact fun _ => ⟨[], .nil⟩
      | cons doc docs ih =>
        intro h
        obtain ⟨hdoc, hdocs⟩ := List.forall_mem_cons.mp h
        obtain ⟨value, hvalue⟩ := Doc.reads_total hdoc
        obtain ⟨values, hvalues⟩ := ih hdocs
        exact ⟨value :: values, .cons hvalue hvalues⟩
    cases doc with
    | null => exact ⟨_, Doc.reads_null.mpr rfl⟩
    | bool b => exact ⟨_, Doc.reads_bool.mpr rfl⟩
    | string spelling text => exact ⟨_, Doc.reads_string.mpr rfl⟩
    | number spelling number =>
      obtain ⟨n, json, rfl, hjson⟩ := hfair
      exact ⟨_, Doc.reads_number.mpr ⟨n, json, rfl, hjson, rfl⟩⟩
    | array docs =>
      obtain ⟨values, hvalues⟩ := hchildren docs hbelow
      exact ⟨_, Doc.reads_array.mpr ⟨values, hvalues, rfl⟩⟩
    | object members =>
      obtain ⟨values, hvalues⟩ := hchildren (members.map Prod.snd) hbelow
      exact ⟨_, Doc.reads_object.mpr ⟨values, hvalues, hfair, rfl⟩⟩

/-- A text that is read is one document that a visitor with 64 levels reads. -/
theorem parse_eq_ok (hd : d.Standard) {text : String} {value : Json} :
    parse d text = .ok value ↔ ∃ doc : Doc, d.tokens text = doc.spell ∧ doc.Reads 64 value := by
  have hone : ReadsOne (deserialize d 1) (Doc.Reads 64) := deserialize_iff hd (by decide)
  unfold parse
  constructor
  · intro h
    obtain ⟨⟨v, ts⟩, hvalue, hrest⟩ := bind_eq_ok.mp h
    obtain ⟨u, hfinish, hdone⟩ := bind_eq_ok.mp hrest
    cases hdone
    obtain ⟨doc, hdoc, hreads⟩ := hone.mp hvalue
    rw [hd.finish.mp hfinish, List.append_nil] at hdoc
    exact ⟨doc, hdoc, hreads⟩
  · rintro ⟨doc, hdoc, hreads⟩
    have hvalue := hone.mpr ⟨doc, hdoc.trans (List.append_nil _).symm, hreads⟩
    exact bind_eq_ok.mpr ⟨_, hvalue, bind_eq_ok.mpr ⟨(), hd.finish.mpr rfl, rfl⟩⟩

/-- **What a contract accepts**, when it reads its texts with this deserializer: the text of an answer
that has come to its end, as one strict document whose value its schema admits. -/
theorem validateResponse_iff {d : Deserializer String} (hd : d.Standard) {self : StructuredOutput}
    (hparse : self.parse = parse d) {response : ChatResponse} {value : Json} :
    self.validateResponse response = .ok (some ⟨value⟩) ↔
      (∃ bytes, StructuredOutput.textBytes 0 response.message.content = .ok bytes) ∧
      response.message.toolCalls = [] ∧ response.finishReason = .stop ∧
      (∃ doc : Doc, d.tokens response.message.textContent = doc.spell ∧
        (doc.Distinct ∧ doc.InRange ∧ doc.Shallow 64) ∧ doc.Denotes value) ∧
      self.validator value = .ok () := by
  have hvalue : (∃ doc : Doc, d.tokens response.message.textContent = doc.spell ∧
      (doc.Distinct ∧ doc.InRange ∧ doc.Shallow 64) ∧ doc.Denotes value) ↔
      self.parse response.message.textContent = .ok value := by
    rw [hparse, parse_eq_ok hd]
    simp only [Doc.reads_iff]
  rw [hvalue]
  unfold StructuredOutput.validateResponse
  constructor
  · intro h
    obtain ⟨bytes, hbytes, h⟩ := bind_eq_ok.mp h
    refine ⟨⟨bytes, hbytes⟩, ?_⟩
    by_cases hcalls : response.message.toolCalls = []
    · by_cases hstop : response.finishReason = .stop
      · simp only [hcalls, hstop, ne_eq, not_true_eq_false, if_false] at h
        obtain ⟨read, hread, h⟩ := bind_eq_ok.mp h
        obtain ⟨⟨⟩, hvalid, h⟩ := bind_eq_ok.mp h
        cases h
        exact ⟨hcalls, hstop, mapError_eq_ok.mp hread, mapError_eq_ok.mp hvalid⟩
      · simp [hcalls, hstop] at h
    · by_cases hreason : response.finishReason = .toolCalls
      · by_cases hnodup : response.message.callIds.Nodup
        · simp [hcalls, hreason, hnodup] at h
        · simp [hcalls, hreason, hnodup] at h
      · simp [hcalls, hreason] at h
  · rintro ⟨⟨bytes, hbytes⟩, hcalls, hstop, hread, hvalid⟩
    simp [hbytes, hcalls, hstop, hread, hvalid]

/-- A text is read when it is one document, without a key twice in an object, a number out of range
or a value more than 64 levels deep. What is read is the value of the document. -/
theorem strict_parsing (hd : d.Standard) (text : String) :
    ((∃ value, parse d text = .ok value) ↔
      ∃ doc : Doc, d.tokens text = doc.spell ∧ doc.Distinct ∧ doc.InRange ∧ doc.Shallow 64) ∧
    ∀ value, parse d text = .ok value ↔
      ∃ doc : Doc, d.tokens text = doc.spell ∧ (doc.Distinct ∧ doc.InRange ∧ doc.Shallow 64) ∧
        doc.Denotes value := by
  have hvalue : ∀ value, parse d text = .ok value ↔
      ∃ doc : Doc, d.tokens text = doc.spell ∧ (doc.Distinct ∧ doc.InRange ∧ doc.Shallow 64) ∧
        doc.Denotes value := by
    intro value
    rw [parse_eq_ok hd]
    simp only [Doc.reads_iff]
  refine ⟨?_, hvalue⟩
  constructor
  · rintro ⟨value, h⟩
    obtain ⟨doc, hdoc, hfair, -⟩ := (hvalue value).mp h
    exact ⟨doc, hdoc, hfair⟩
  · rintro ⟨doc, hdoc, hdistinct, hrange, hshallow⟩
    have hall : doc.All fun level part => level ≤ 64 ∧ part.Fair := fun level part hat =>
      ⟨hshallow level part hat, Doc.all_fair_iff.mpr ⟨hdistinct, hrange⟩ level part hat⟩
    obtain ⟨value, hreads⟩ := Doc.reads_total hall
    exact ⟨value, (parse_eq_ok hd).mpr ⟨doc, hdoc, hreads⟩⟩

end Value

/-! ## A deserializer -/

/-- What follows a separator. -/
def afterSeparator : (first : Bool) → List Token → Option (List Token)
  | true, ts => some ts
  | false, .comma :: ts => some ts
  | false, _ => none

/-- A deserializer over given tokens. -/
def tokenReader (tokens : String → List Token) : Deserializer String where
  custom message := message
  tokens := tokens
  any
    | t :: ts =>
      match t.found? with
      | some found => .ok (found, ts)
      | none => .error "expected value"
    | [] => .error "EOF while parsing a value"
  nextElement first ts :=
    match ts with
    | .endArray :: _ => .ok none
    | ts =>
      match afterSeparator first ts with
      | some (.endArray :: _) => .error "trailing comma"
      | some (t :: ts) => .ok (some (t :: ts))
      | _ => .error "expected `,` or `]`"
  nextKey first ts :=
    match ts with
    | .endObject :: _ => .ok none
    | ts =>
      match afterSeparator first ts with
      | some (.string _ key :: ts) => .ok (some (key, ts))
      | _ => .error "key must be a string"
  colon
    | .colon :: ts => .ok ts
    | _ => .error "expected `:`"
  endSeq
    | .endArray :: ts => .ok ts
    | _ => .error "trailing characters"
  endMap
    | .endObject :: ts => .ok ts
    | _ => .error "trailing characters"
  finish
    | [] => .ok ()
    | _ => .error "trailing characters"

theorem afterSeparator_eq_some {first : Bool} {ts rest : List Token} :
    afterSeparator first ts = some rest ↔ ts = separator first ++ rest := by
  cases first with
  | true => simp [afterSeparator, separator]
  | false =>
    cases ts with
    | nil => simp [afterSeparator, separator]
    | cons t ts => cases t <;> simp [afterSeparator, separator]

section Standard

variable {tokens : String → List Token} {first : Bool} {ts rest : List Token} {key : String}

theorem nextElement_of_end (h : ts.head? = some .endArray) :
    (tokenReader tokens).nextElement first ts = .ok none := by
  obtain ⟨ts', rfl⟩ := List.head?_eq_some_iff.mp h
  rfl

theorem nextElement_of_ne (h : ts.head? ≠ some .endArray) :
    (tokenReader tokens).nextElement first ts = match afterSeparator first ts with
      | some (.endArray :: _) => .error "trailing comma"
      | some (t :: ts) => .ok (some (t :: ts))
      | _ => .error "expected `,` or `]`" := by
  cases ts with
  | nil => rfl
  | cons t ts =>
    cases t with
    | endArray => exact absurd rfl h
    | _ => rfl

/-- The next element, where the array does not end. -/
theorem nextElement_eq_ok (h : ts.head? ≠ some .endArray) {found : Option (List Token)} :
    (tokenReader tokens).nextElement first ts = .ok found ↔ ∃ t rest, found = some (t :: rest) ∧
      afterSeparator first ts = some (t :: rest) ∧ t ≠ .endArray := by
  rw [nextElement_of_ne h]
  match hafter : afterSeparator first ts with
  | none => exact ⟨nofun, fun ⟨_, _, _, h, _⟩ => nomatch h⟩
  | some [] => exact ⟨nofun, fun ⟨_, _, _, h, _⟩ => nomatch h⟩
  | some (t :: rest) =>
    by_cases ht : t = .endArray
    · subst ht
      refine ⟨nofun, ?_⟩
      rintro ⟨t', rest', -, hafter, hne⟩
      cases hafter
      exact absurd rfl hne
    · have hmatch : (match some (t :: rest) with
          | some (.endArray :: _) => Except.error "trailing comma"
          | some (t :: ts) => .ok (some (t :: ts))
          | _ => .error "expected `,` or `]`") = .ok (some (t :: rest)) := by
        cases t with
        | endArray => exact absurd rfl ht
        | _ => rfl
      rw [hmatch]
      constructor
      · intro h
        exact ⟨t, rest, (Except.ok.inj h).symm, rfl, ht⟩
      · rintro ⟨t', rest', rfl, hafter, -⟩
        cases hafter
        rfl

theorem nextKey_of_end (h : ts.head? = some .endObject) :
    (tokenReader tokens).nextKey first ts = .ok none := by
  obtain ⟨ts', rfl⟩ := List.head?_eq_some_iff.mp h
  rfl

theorem nextKey_of_ne (h : ts.head? ≠ some .endObject) :
    (tokenReader tokens).nextKey first ts = match afterSeparator first ts with
      | some (.string _ key :: ts) => .ok (some (key, ts))
      | _ => .error "key must be a string" := by
  cases ts with
  | nil => rfl
  | cons t ts =>
    cases t with
    | endObject => exact absurd rfl h
    | _ => rfl

/-- The next key, where the object does not end. -/
theorem nextKey_eq_ok (h : ts.head? ≠ some .endObject) {found : Option (String × List Token)} :
    (tokenReader tokens).nextKey first ts = .ok found ↔ ∃ spelling key rest,
      found = some (key, rest) ∧ afterSeparator first ts = some (.string spelling key :: rest) := by
  rw [nextKey_of_ne h]
  split
  · rename_i spelling key rest hafter
    constructor
    · intro h
      exact ⟨spelling, key, rest, (Except.ok.inj h).symm, hafter⟩
    · rintro ⟨spelling', key', rest', rfl, hafter'⟩
      rw [hafter] at hafter'
      cases hafter'
      rfl
  · rename_i hnot
    exact ⟨nofun, fun ⟨_, _, _, _, hafter⟩ => absurd hafter (hnot _ _ _)⟩

/-- What stands after a separator does not end a sequence before it. -/
theorem head_ne_end {last : Token} (hcomma : last ≠ .comma) (h : ts = separator first ++ rest)
    (hrest : rest.head? ≠ some last) : ts.head? ≠ some last := by
  subst h
  cases first with
  | true => exact hrest
  | false => exact fun heq => hcomma (Option.some.inj heq).symm

theorem tokenReader_standard (tokens : String → List Token) : (tokenReader tokens).Standard where
  any {ts found rest} := by
    cases ts with
    | nil => simp [tokenReader]
    | cons t ts => cases h : t.found? <;> simp [tokenReader, h, eq_comm, and_comm]
  noElement {first ts} := by
    refine ⟨fun h => ?_, nextElement_of_end⟩
    by_contra hne
    obtain ⟨t, rest, hfound, -⟩ := (nextElement_eq_ok hne).mp h
    cases hfound
  element {first ts rest} := by
    constructor
    · intro h
      by_cases hend : ts.head? = some .endArray
      · rw [nextElement_of_end hend] at h
        cases h
      · obtain ⟨t, rest', hfound, hafter, ht⟩ := (nextElement_eq_ok hend).mp h
        cases hfound
        exact ⟨afterSeparator_eq_some.mp hafter, t, rfl, ht⟩
    · rintro ⟨hts, t, hhead, ht⟩
      obtain ⟨rest', rfl⟩ := List.head?_eq_some_iff.mp hhead
      have hne : ts.head? ≠ some .endArray :=
        head_ne_end Token.noConfusion hts fun heq => ht (Option.some.inj heq)
      exact (nextElement_eq_ok hne).mpr ⟨t, rest', rfl, afterSeparator_eq_some.mpr hts, ht⟩
  noKey {first ts} := by
    refine ⟨fun h => ?_, nextKey_of_end⟩
    by_contra hne
    obtain ⟨spelling, key, rest, hfound, -⟩ := (nextKey_eq_ok hne).mp h
    cases hfound
  key {first ts key rest} := by
    constructor
    · intro h
      by_cases hend : ts.head? = some .endObject
      · rw [nextKey_of_end hend] at h
        cases h
      · obtain ⟨spelling, key', rest', hfound, hafter⟩ := (nextKey_eq_ok hend).mp h
        cases hfound
        exact ⟨spelling, afterSeparator_eq_some.mp hafter⟩
    · rintro ⟨spelling, hts⟩
      have hne : ts.head? ≠ some .endObject :=
        head_ne_end Token.noConfusion hts fun heq => Token.noConfusion (Option.some.inj heq)
      exact (nextKey_eq_ok hne).mpr ⟨spelling, key, rest, rfl, afterSeparator_eq_some.mpr hts⟩
  colon {ts rest} := by
    unfold tokenReader
    simp only
    split <;> simp_all
  endSeq {ts rest} := by
    unfold tokenReader
    simp only
    split <;> simp_all
  endMap {ts rest} := by
    unfold tokenReader
    simp only
    split <;> simp_all
  finish {ts} := by
    unfold tokenReader
    simp only
    split <;> simp_all

end Standard

/-- The tokens of one text: an object with an array, under a key that is spelled with an escape. -/
def exampleTokens (text : String) : List Token :=
  if text = "\x7b\"\\u0061\":[null]\x7d" then
    [.beginObject, .string "\"\\u0061\"" "a", .colon, .beginArray, .null, .endArray, .endObject]
  else [.invalid]

theorem strict_parsing_example :
    parse (tokenReader exampleTokens) "\x7b\"\\u0061\":[null]\x7d" =
        .ok (.object [("a", .array [.null])]) ∧
      ∃ value, parse (tokenReader exampleTokens) "\x7b\"\\u0061\":[null]\x7d" = .ok value := by
  have hinner : (Doc.array [.null]).Reads 63 (.array [.null]) :=
    Doc.reads_array.mpr ⟨[.null], .cons (Doc.reads_null.mpr rfl) .nil, rfl⟩
  have hreads : (Doc.object [(("\"\\u0061\"", "a"), .array [.null])]).Reads 64
      (.object [("a", .array [.null])]) :=
    Doc.reads_object.mpr ⟨[.array [.null]], .cons hinner .nil, List.pairwise_singleton _ _, rfl⟩
  have hvalue := ((strict_parsing (tokenReader_standard exampleTokens)
    "\x7b\"\\u0061\":[null]\x7d").2 (.object [("a", .array [.null])])).mpr
      ⟨.object [(("\"\\u0061\"", "a"), .array [.null])], by
        simp [tokenReader, exampleTokens, Doc.spell, spellMembers, spellElements, separator],
        Doc.reads_iff.mp hreads⟩
  exact ⟨hvalue, _, hvalue⟩

end GroupAgent.Model
