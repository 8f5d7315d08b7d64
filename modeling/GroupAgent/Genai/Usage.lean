import GroupAgent.Genai.Mapping

/-!
# Usage, stop reasons and signatures

Model of `crates/group-agent-genai/src/usage.rs` (`usage.rs:8-66`), and of `map_finish_reason`
(`response.rs:389-403`) and `reconcile_signatures` (405-418), which a stream and a response share.

* The types of `genai` are as far as the mappings read them. A detail object is what
  `serde_json::to_value` makes of it.
* A counter of `genai` is a signed number of 32 bits; a negative one is rejected, with the name of
  the counter.
* `insert_of_new`: a key that is trimmed and new is inserted.

Out of scope: the counters that only other providers report, which no mapping reads.
-/

namespace GroupAgent.Genai

open GroupAgent.Lib GroupAgent.Model

/-! ## The types of `genai` -/

/-- `genai::chat::Usage`. -/
structure GenaiUsage where
  promptTokens : Option Int32
  completionTokens : Option Int32
  totalTokens : Option Int32
  promptTokensDetails : Option (Except String Json)
  completionTokensDetails : Option (Except String Json)

/-- `Usage::default`. -/
def GenaiUsage.default : GenaiUsage := ⟨none, none, none, none, none⟩

inductive StopReason where
  | completed (raw : String)
  | maxTokens (raw : String)
  | toolCall (raw : String)
  | contentFilter (raw : String)
  | stopSequence (raw : String)
  | other (raw : String)

/-- `genai::adapter::AdapterKind`: its name in lower case, and whether it is `OpenAIResp`. -/
structure AdapterKind where
  lower : String
  isResponses : Bool

structure ModelIden where
  adapterKind : AdapterKind
  modelName : String

/-! ## Usage -/

/-- `u64::try_from` of a counter. -/
def mapCounter (field : String) (value : Option Int32) : Except GenaiMappingError (Option UInt64) :=
  match value with
  | none => .ok none
  | some value =>
    if value.toInt < 0 then .error (.negativeTokenCount field)
    else .ok (some (.ofNat value.toInt.toNat))

/-- A detail object that is retained. -/
def insertDetails (extensions : Extensions) (key : String) (details : Option (Except String Json)) :
    Except GenaiMappingError Extensions :=
  match details with
  | none => .ok extensions
  | some details => do
    let value ← details.mapError (.usageDetailSerialization key)
    insert extensions key value

def mapGenaiUsage (usage : GenaiUsage) (retainDetails : Bool) :
    Except GenaiMappingError (Option TokenUsage) := do
  let hasAny := usage.promptTokens.isSome || usage.completionTokens.isSome ||
    usage.totalTokens.isSome || usage.promptTokensDetails.isSome ||
    usage.completionTokensDetails.isSome
  if !hasAny then pure none
  else
    let input ← mapCounter "prompt_tokens" usage.promptTokens
    let output ← mapCounter "completion_tokens" usage.completionTokens
    let total ← mapCounter "total_tokens" usage.totalTokens
    let extensions ←
      if retainDetails then do
        let extensions ← insertDetails .empty PROMPT_TOKEN_DETAILS usage.promptTokensDetails
        insertDetails extensions COMPLETION_TOKEN_DETAILS usage.completionTokensDetails
      else pure .empty
    let usage ← (TokenUsage.fromParts input output total).mapError .invalidTokenUsage
    pure (some { usage with extensions })

/-! ## Stop reasons and signatures -/

def mapFinishReason : Option StopReason → FinishReason × String
  | some (.completed raw) => (.stop, raw)
  | some (.stopSequence raw) => (.stop, raw)
  | some (.maxTokens raw) => (.length, raw)
  | some (.toolCall raw) => (.toolCalls, raw)
  | some (.contentFilter raw) => (.contentFilter, raw)
  | some (.other raw) => (.other raw, raw)
  | none => (.other "unspecified", "unspecified")

def reconcileSignatures (streamedOrOrdered : List String) (attached : Option (List String)) :
    Except GenaiMappingError (List String) :=
  match streamedOrOrdered.isEmpty, attached with
  | true, none => .ok []
  | true, some attached => .ok attached
  | false, none => .ok streamedOrOrdered
  | false, some [] => .ok streamedOrOrdered
  | false, some attached =>
    if streamedOrOrdered = attached then .ok streamedOrOrdered
    else .error .conflictingThoughtSignatures

/-- Signatures that are on one side only are taken from there. -/
theorem reconcileSignatures_nil (attached : Option (List String)) :
    reconcileSignatures [] attached = .ok (attached.getD []) := by
  cases attached <;> rfl

theorem reconcileSignatures_eq_ok {ordered : List String} {attached : Option (List String)}
    {signatures : List String} : reconcileSignatures ordered attached = .ok signatures ↔
      if ordered = [] then signatures = attached.getD []
      else signatures = ordered ∧ (attached.getD [] = [] ∨ attached = some ordered) := by
  cases ordered with
  | nil =>
    rw [reconcileSignatures_nil, if_pos rfl]
    exact ⟨fun h => (Except.ok.inj h).symm, fun h => h ▸ rfl⟩
  | cons s ordered =>
    rw [if_neg (List.cons_ne_nil _ _)]
    match attached with
    | none => simp [reconcileSignatures, eq_comm]
    | some [] => simp [reconcileSignatures, eq_comm]
    | some (a :: as) =>
      simp only [reconcileSignatures, List.isEmpty_cons, Option.getD_some, reduceCtorEq, false_or,
        Option.some.injEq]
      by_cases h : s :: ordered = a :: as
      · simp [h, eq_comm]
      · rw [if_neg h]
        exact ⟨nofun, fun h' => absurd h'.2.symm h⟩

/-! ## Extensions -/

/-- A key that is trimmed and new is inserted. -/
theorem insert_of_new {extensions : Extensions} {key : String} (hkey : IsKey key)
    (hnew : extensions.get? key = none) (value : Json) : ∃ extensions',
      insert extensions key value = .ok extensions' ∧ extensions'.get? key = some value ∧
        ∀ other, other ≠ key → extensions'.get? other = extensions.get? other := by
  obtain ⟨htrim, hne⟩ := hkey
  unfold insert Extensions.insert
  unfold Extensions.get? at hnew ⊢
  have hempty : ¬trim key = "" := by rwa [htrim]
  have hget : ¬(extensions.map.get? (trim key)).isSome = true := by
    rw [htrim, hnew]
    exact Bool.false_ne_true
  rw [dif_neg hempty, if_neg hget]
  refine ⟨_, rfl, ?_, fun other hother => ?_⟩
  · show (extensions.map.upsert (trim key) _).get? key = _
    rw [htrim]
    exact SortedMap.get?_upsert_self ..
  · show (extensions.map.upsert (trim key) _).get? other = _
    rw [htrim]
    exact SortedMap.get?_upsert_of_ne hother _

end GroupAgent.Genai
