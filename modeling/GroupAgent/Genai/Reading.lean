import GroupAgent.Genai.Complete

/-!
# What reading a frame needs

The checks of the chunk decoder on a frame (`push_value`, `tool`, `usage` and `optional_string`,
`decode.rs:69-170`, 198-337, in `crates/group-agent-genai/src/openai_chat`), field by field.

* `text?`, `wholeText?`, `entries?`, `index?`: what a field is read as, if it can be. A field that
  is absent is read like one that is `null`.
* `ReadsCall`, `ReadsDelta`, `ReadsHeader`: what an entry of `tool_calls`, a delta and a chunk must
  have.

Results: **`readTool_eq_ok`**, **`readChoice_eq_ok`**, **`readFrame_eq_ok`**: that is enough.

The statements are about which frames are read and as what. Which error an unreadable frame gives
is said by the definitions of `Decode` alone.
-/

namespace GroupAgent.Genai

open GroupAgent.Lib GroupAgent.Model

/-- An optional text. -/
def optional? (value : Option Json) : Option (Option String) :=
  match nonnull value with
  | none => some none
  | some value => (asStr? value).map some

/-- A text that is empty where there is none. -/
def wholeText? (value : Option Json) : Option String := (optional? value).map fun text => text.getD ""

/-- The entries of `tool_calls`. -/
def entries? (value : Option Json) : Option (List Json) :=
  match nonnull value with
  | none => some []
  | some tools => asArray? tools

def index? (tool : Json) : Option Nat := ((field? tool "index").bind asU64?).map UInt64.toNat

def function? (tool : Json) : Option (List (String × Json)) := (field? tool "function").bind asObject?

/-- A field of the function of a call. -/
def functionField? (tool : Json) (key : String) : Option Json :=
  (function? tool).bind fun function => function.lookup key

/-- An entry of `tool_calls` reads as a fragment, up to its index. -/
structure ReadsCall (tool : Json) (fragment : Fragment) : Prop where
  kind : ∃ kind, optional? (field? tool "type") = some kind ∧ ∀ text ∈ kind, text = "function"
  function : (function? tool).isSome
  id : optional? (field? tool "id") = some fragment.id
  name : optional? (functionField? tool "name") = some fragment.name
  arguments : wholeText? (functionField? tool "arguments") = some fragment.arguments

/-- A delta reads as a content and fragments. -/
structure ReadsDelta (config : GenaiAdapterConfig) (delta : Json) (content : Option String)
    (fragments : List Fragment) : Prop where
  object : (asObject? delta).isSome
  role : ∃ role, optional? (field? delta "role") = some role ∧ ∀ text ∈ role, text = "assistant"
  supported : ∀ field ∈ unsupportedFields, nonnull (field? delta field) = none
  content : optional? (field? delta "content") = some content
  tools : ∃ tools, entries? (field? delta "tool_calls") = some tools ∧
    tools.length ≤ config.streamingLimits.maxToolCalls.toNat ∧
    List.Forall₂ (fun tool fragment => readTool config.streamingLimits.maxToolCalls tool = .ok fragment)
      tools fragments

/-- What a chunk says of its response. -/
structure ReadsHeader (chunk : Json) (id : Option ResponseId) (model : Option ModelId) : Prop where
  error : nonnull (field? chunk "error") = none
  id : readIdentity ResponseId.new chunk "id" = .ok id
  model : readIdentity ModelId.new chunk "model" = .ok model

section Reading

variable {config : GenaiAdapterConfig} {structured : Bool} {maximum : UInt32} {value chunk tool : Json}
  {fragment : Fragment} {choice : Choice} {frame : Frame} {content : Option String}
  {fragments : List Fragment}

theorem optionalString_eq_ok {value : Option Json} {field : String} {text : Option String} :
    optionalString value field = .ok text ↔ optional? value = some text := by
  unfold optionalString optional?
  cases nonnull value with
  | none => simp
  | some value => cases hs : asStr? value <;> simp [hs]

/-- A check that a text is the one that is expected, if there is any. -/
theorem optional_is_iff {value : Option Json} {word : String} :
    (∃ text, optional? value = some text ∧ ∀ t ∈ text, t = word) ↔
      ∀ v ∈ nonnull value, v = .string word := by
  unfold optional?
  cases nonnull value with
  | none => simp
  | some value =>
    cases value with
    | string s => simp [asStr?, eq_comm]
    | _ => simp [asStr?]

theorem readTool_eq_ok : readTool maximum tool = .ok fragment ↔
    index? tool = some fragment.index ∧ fragment.index < maximum.toNat ∧ ReadsCall tool fragment := by
  have hbound : maximum.toNat < 2 ^ 32 := maximum.toNat_lt
  unfold readTool
  have hindex : ((field? tool "index").bind asU64?).map UInt64.toNat = index? tool := rfl
  rw [hindex]
  cases hi : (index? tool).filter (· < 2 ^ 32) with
  | none =>
    refine ⟨fun h => (by cases h), fun ⟨h, hlt, _⟩ => ?_⟩
    rw [h, Option.filter_some, if_pos (decide_eq_true (hlt.trans hbound))] at hi
    cases hi
  | some index =>
    obtain ⟨hindex, -⟩ := Option.filter_eq_some_iff.mp hi
    rw [hindex]
    simp only
    by_cases hmax : maximum.toNat ≤ index
    · rw [if_pos hmax]
      refine ⟨fun h => (by cases h), fun ⟨h, hlt, _⟩ => ?_⟩
      obtain rfl := Option.some.inj h
      exact absurd hmax (not_le.mpr hlt)
    · rw [if_neg hmax]
      constructor
      · intro h
        obtain ⟨kind, hkind, h⟩ := bind_eq_ok.mp h
        split at h
        · cases h
        · rename_i hfunction
          split at h
          · rename_i function hfun
            obtain ⟨id, hid, h⟩ := bind_eq_ok.mp h
            obtain ⟨name, hname, h⟩ := bind_eq_ok.mp h
            obtain ⟨arguments, harguments, h⟩ := bind_eq_ok.mp h
            obtain rfl := Except.ok.inj h
            have hfield : ∀ key, functionField? tool key = function.lookup key := fun key => by
              unfold functionField? function?
              rw [hfun]
              rfl
            refine ⟨rfl, not_le.mp hmax, ⟨kind, optionalString_eq_ok.mp hkind, ?_⟩, ?_,
              optionalString_eq_ok.mp hid, ?_, ?_⟩
            · exact any_ne_eq_false.mp (Bool.not_eq_true _ ▸ hfunction)
            · unfold function?
              rw [hfun]
              rfl
            · rw [hfield]
              exact optionalString_eq_ok.mp hname
            · rw [hfield]
              unfold wholeText?
              rw [optionalString_eq_ok.mp harguments]
              rfl
          · cases h
      · rintro ⟨hsome, -, ⟨kind, hkind, hword⟩, hfunction, hid, hname, harguments⟩
        obtain rfl := Option.some.inj hsome
        obtain ⟨function, hfun⟩ := Option.isSome_iff_exists.mp hfunction
        have hfield : ∀ key, functionField? tool key = function.lookup key := fun key => by
          unfold functionField?
          rw [hfun]
          rfl
        unfold function? at hfun
        rw [hfield] at hname harguments
        obtain ⟨arguments, harguments, hwhole⟩ := Option.map_eq_some_iff.mp harguments
        refine bind_eq_ok.mpr ⟨kind, optionalString_eq_ok.mpr hkind, ?_⟩
        rw [if_neg (by rw [any_ne_eq_false.mpr hword]; decide), hfun]
        exact bind_eq_ok.mpr ⟨_, optionalString_eq_ok.mpr hid, bind_eq_ok.mpr
          ⟨_, optionalString_eq_ok.mpr hname, bind_eq_ok.mpr
            ⟨arguments, optionalString_eq_ok.mpr harguments, by rw [hwhole]; rfl⟩⟩⟩

theorem checkDelta_eq_ok {delta : List (String × Json)} :
    Decoder.checkDelta structured delta = .ok () ↔
      (∃ role, optional? (delta.lookup "role") = some role ∧ ∀ text ∈ role, text = "assistant") ∧
        ∀ field ∈ unsupportedFields, nonnull (delta.lookup field) = none := by
  have hforM : (unsupportedFields.forM fun field =>
      if (nonnull (delta.lookup field)).isSome then throw (invalid field) else pure () :
        Except GenaiMappingError Unit) = .ok () ↔
      ∀ field ∈ unsupportedFields, nonnull (delta.lookup field) = none := by
    rw [forM_eq_ok]
    refine forall_congr' fun field => forall_congr' fun _ => ?_
    cases nonnull (delta.lookup field) with
    | none => exact ⟨fun _ => rfl, fun _ => rfl⟩
    | some value => exact ⟨fun h => (by cases h), fun h => (by cases h)⟩
  unfold Decoder.checkDelta
  constructor
  · intro h
    obtain ⟨role, hrole, h⟩ := bind_eq_ok.mp h
    by_cases hword : role.any (· ≠ "assistant") = true
    · rw [if_pos hword] at h
      cases h
    · rw [if_neg hword] at h
      refine ⟨⟨role, optionalString_eq_ok.mp hrole,
        any_ne_eq_false.mp (Bool.not_eq_true _ ▸ hword)⟩, hforM.mp ?_⟩
      cases structured with
      | false => exact h
      | true =>
        simp only [if_true] at h
        cases hrefusal : nonnull (delta.lookup "refusal") with
        | none =>
          rw [hrefusal] at h
          exact h
        | some refusal =>
          rw [hrefusal] at h
          simp only at h
          by_cases hstr : (asStr? refusal).isNone = true
          · rw [if_pos hstr] at h
            cases h
          · rw [if_neg hstr] at h
            cases h
  · rintro ⟨⟨role, hrole, hword⟩, hall⟩
    refine bind_eq_ok.mpr ⟨role, optionalString_eq_ok.mpr hrole, ?_⟩
    rw [if_neg (by rw [any_ne_eq_false.mpr hword]; decide)]
    have hrefusal : nonnull (delta.lookup "refusal") = none :=
      hall "refusal" (by simp [unsupportedFields])
    cases structured with
    | false => exact hforM.mpr hall
    | true =>
      simp only [if_true, hrefusal]
      exact hforM.mpr hall

theorem readTools_eq_ok {delta : List (String × Json)} :
    readTools config delta = .ok fragments ↔ ∃ tools,
      entries? (delta.lookup "tool_calls") = some tools ∧
      tools.length ≤ config.streamingLimits.maxToolCalls.toNat ∧
      List.Forall₂ (fun tool fragment =>
        readTool config.streamingLimits.maxToolCalls tool = .ok fragment) tools fragments := by
  unfold readTools entries?
  cases nonnull (delta.lookup "tool_calls") with
  | none =>
    constructor
    · intro h
      obtain rfl := Except.ok.inj h
      exact ⟨[], rfl, Nat.zero_le _, .nil⟩
    · rintro ⟨tools, h, -, hread⟩
      obtain rfl := Option.some.inj h
      cases hread
      rfl
  | some value =>
    simp only
    cases asArray? value with
    | none => exact ⟨fun h => (by cases h), fun ⟨_, h, _⟩ => (by cases h)⟩
    | some tools =>
      simp only [Option.some.injEq, exists_eq_left']
      by_cases hlength : config.streamingLimits.maxToolCalls.toNat < tools.length
      · rw [if_pos hlength]
        exact ⟨fun h => (by cases h), fun ⟨h, _⟩ => absurd hlength (not_lt.mpr h)⟩
      · rw [if_neg hlength]
        show tools.mapM _ = Except.ok fragments ↔ _
        rw [mapM_eq_ok]
        exact ⟨fun h => ⟨not_lt.mp hlength, h⟩, And.right⟩

/-- **What reading a choice needs.** -/
theorem readChoice_eq_ok : readChoice config structured value = .ok choice ↔
    (field? value "index").bind asU64? = some 0 ∧ ∃ delta, field? value "delta" = some delta ∧
      ReadsDelta config delta choice.content choice.fragments ∧
      optional? (field? value "finish_reason") = some choice.reason := by
  unfold readChoice
  by_cases hindex : (field? value "index").bind asU64? = some 0
  · rw [if_neg (not_not.mpr hindex)]
    cases hdelta : field? value "delta" with
    | none => exact ⟨fun h => (by cases h), fun ⟨_, _, h, _⟩ => (by cases h)⟩
    | some delta =>
      rw [Option.bind_some]
      cases hobject : asObject? delta with
      | none =>
        refine ⟨fun h => (by cases h), ?_⟩
        rintro ⟨-, _, hsome, hreads, -⟩
        obtain rfl := Option.some.inj hsome
        have hsome := hreads.object
        rw [hobject] at hsome
        cases hsome
      | some object =>
        have hfield : ∀ key, field? delta key = object.lookup key := fun key => by
          cases delta with
          | object entries =>
            obtain rfl := Option.some.inj hobject
            rfl
          | _ => cases hobject
        constructor
        · intro h
          obtain ⟨u, hcheck, h⟩ := bind_eq_ok.mp h
          obtain ⟨content, hcontent, h⟩ := bind_eq_ok.mp h
          obtain ⟨fragments, hfragments, h⟩ := bind_eq_ok.mp h
          obtain ⟨reason, hreason, h⟩ := bind_eq_ok.mp h
          obtain rfl := Except.ok.inj h
          obtain ⟨hrole, hsupported⟩ := checkDelta_eq_ok.mp hcheck
          simp only [← hfield] at hrole hsupported hcontent
          have htools := readTools_eq_ok.mp hfragments
          rw [← hfield] at htools
          exact ⟨hindex, delta, rfl, ⟨hobject ▸ rfl, hrole, hsupported,
            optionalString_eq_ok.mp hcontent, htools⟩, optionalString_eq_ok.mp hreason⟩
        · rintro ⟨-, _, hsome, hreads, hreason⟩
          obtain rfl := Option.some.inj hsome
          obtain ⟨-, hrole, hsupported, hcontent, htools⟩ := hreads
          simp only [hfield] at hrole hsupported hcontent htools
          exact bind_eq_ok.mpr ⟨(), checkDelta_eq_ok.mpr ⟨hrole, hsupported⟩, bind_eq_ok.mpr
            ⟨_, optionalString_eq_ok.mpr hcontent, bind_eq_ok.mpr
              ⟨_, readTools_eq_ok.mpr htools, bind_eq_ok.mpr
                ⟨_, optionalString_eq_ok.mpr hreason, rfl⟩⟩⟩⟩
  · rw [if_pos hindex]
    exact ⟨fun h => (by cases h), fun h => absurd h.1 hindex⟩

theorem checkFrame_eq_ok {object : List (String × Json)} : Decoder.checkFrame object = .ok () ↔
    nonnull (object.lookup "error") = none ∧
      ∀ kind ∈ object.lookup "object", asStr? kind = some "chat.completion.chunk" := by
  unfold Decoder.checkFrame
  cases nonnull (object.lookup "error") with
  | some error => exact ⟨fun h => (by cases h), fun h => (by cases h.1)⟩
  | none =>
    cases object.lookup "object" with
    | none => exact ⟨fun _ => ⟨rfl, by simp⟩, fun _ => rfl⟩
    | some kind =>
      show (if asStr? kind ≠ some "chat.completion.chunk" then _ else _) = _ ↔ _
      by_cases hkind : asStr? kind = some "chat.completion.chunk"
      · rw [if_neg (not_not.mpr hkind)]
        exact iff_of_true rfl ⟨rfl, fun k hk => Option.some.inj hk ▸ hkind⟩
      · rw [if_pos hkind]
        exact ⟨nofun, fun h => absurd (h.2 kind rfl) hkind⟩

/-- **What reading a frame needs.** -/
theorem readFrame_eq_ok : readFrame config structured chunk = .ok frame ↔
    ReadsHeader chunk frame.id frame.model ∧
      (∀ kind ∈ field? chunk "object", asStr? kind = some "chat.completion.chunk") ∧
      ∃ choices, field? chunk "choices" = some (.array choices) ∧ choices.length ≤ 1 ∧ readChoices config structured choices = .ok frame.choice ∧
      Decoder.frameUsage config.retainUsageDetails chunk choices.isEmpty = .ok frame.usage := by
  have harray : ∀ {v : Option Json} {choices : List Json},
      v.bind asArray? = some choices ↔ v = some (.array choices) := by
    intro v choices
    cases v with
    | none => simp
    | some v => cases v <;> simp [asArray?]
  unfold readFrame
  cases hobject : asObject? chunk with
  | none =>
    refine ⟨fun h => (by cases h), ?_⟩
    rintro ⟨-, -, choices, hchoices, -⟩
    cases chunk with
    | object entries => cases hobject
    | _ => cases hchoices
  | some object =>
    have hfield : ∀ key, field? chunk key = object.lookup key := fun key => by
      cases chunk with
      | object entries =>
        obtain rfl := Option.some.inj hobject
        rfl
      | _ => cases hobject
    simp only
    constructor
    · intro h
      obtain ⟨u, hcheck, h⟩ := bind_eq_ok.mp h
      obtain ⟨id, hid, h⟩ := bind_eq_ok.mp h
      obtain ⟨model, hmodel, h⟩ := bind_eq_ok.mp h
      split at h
      · rename_i choices hchoices
        split at h
        · cases h
        · rename_i hlength
          obtain ⟨choice, hchoice, h⟩ := bind_eq_ok.mp h
          obtain ⟨usage, husage, h⟩ := bind_eq_ok.mp h
          obtain rfl := Except.ok.inj h
          obtain ⟨herror, hkind⟩ := checkFrame_eq_ok.mp hcheck
          rw [← hfield] at herror hkind
          exact ⟨⟨herror, hid, hmodel⟩, hkind, choices, harray.mp hchoices, not_lt.mp hlength, hchoice,
            husage⟩
      · cases h
    · rintro ⟨⟨herror, hid, hmodel⟩, hkind, choices, hchoices, hlength, hchoice, husage⟩
      rw [hfield] at herror hkind
      refine bind_eq_ok.mpr ⟨(), checkFrame_eq_ok.mpr ⟨herror, hkind⟩, bind_eq_ok.mpr ⟨_, hid,
        bind_eq_ok.mpr ⟨_, hmodel, ?_⟩⟩⟩
      rw [harray.mpr hchoices]
      simp only
      rw [if_neg (not_lt.mpr hlength)]
      exact bind_eq_ok.mpr ⟨_, hchoice, bind_eq_ok.mpr ⟨_, husage, rfl⟩⟩

end Reading

end GroupAgent.Genai
