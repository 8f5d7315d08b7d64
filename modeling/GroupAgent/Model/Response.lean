import GroupAgent.Model.Message

/-!
# Responses and output contracts

Model of `TokenUsage` (`response.rs:94-99`, `validate` 212-239, `merge_snapshot` 188-210),
`FinishReason` and `ChatResponse` (55-68, 309-316), and of `StructuredOutput`
(`structured_output/mod.rs:17`, `validate_response` 61-101) in `crates/group-agent-model/src`.

* Token counts are consistent in every value of `TokenUsage`: every constructor checks them, which
  is a field.
* What a contract does with a text is its own: reading the text as one JSON document (`parse`, on
  the deserializer of `serde_json`) and checking the document against the compiled schema
  (`validator`, of the crate `jsonschema`) are fields of `StructuredOutput`. `Strict` has the
  `parse` of the source and says what a contract with it accepts (`validateResponse_iff`).
* `validate_response` looks at the size first, then at the tool round, then at the finish reason,
  then at the text.

Out of scope: the conversion of an accepted value to a Rust type, which is local to the caller.
-/

namespace GroupAgent.Model

open GroupAgent.Lib

/-! ## Token usage -/

/-- Invalid token accounting or cumulative usage. -/
inductive TokenUsageError where
  | totalOverflow (inputTokens outputTokens : UInt64)
  | inconsistentTotal (inputTokens outputTokens : Option UInt64) (totalTokens : UInt64)
  | counterDecreased (field : String) (previous current : UInt64)
  | extensionConflict (source : ExtensionMergeError)
  deriving DecidableEq, Repr

/-- The counters of one response, each independently optional. -/
structure TokenCounts where
  inputTokens : Option UInt64
  outputTokens : Option UInt64
  totalTokens : Option UInt64
  deriving DecidableEq, Repr

/-- `u64::checked_add`. -/
def checkedAdd (a b : UInt64) : Option UInt64 :=
  if a.toNat + b.toNat < 2 ^ 64 then some (a + b) else none

namespace TokenCounts

/-- Input plus output, only when both are known. -/
def checkedComputedTotal (self : TokenCounts) : Except TokenUsageError (Option UInt64) :=
  match self.inputTokens, self.outputTokens with
  | some inputTokens, some outputTokens =>
    match checkedAdd inputTokens outputTokens with
    | some total => .ok (some total)
    | none => .error (.totalOverflow inputTokens outputTokens)
  | _, _ => .ok none

def validate (self : TokenCounts) : Except TokenUsageError Unit := do
  let computed ← self.checkedComputedTotal
  match self.totalTokens with
  | some totalTokens =>
    let lowerBound := ((computed.or self.inputTokens).or self.outputTokens).getD 0
    if totalTokens < lowerBound then
      throw (.inconsistentTotal self.inputTokens self.outputTokens totalTokens)
    if self.inputTokens.any (totalTokens < ·) || self.outputTokens.any (totalTokens < ·) then
      throw (.inconsistentTotal self.inputTokens self.outputTokens totalTokens)
  | none => pure ()

end TokenCounts

/-- Partial or complete token accounting for one response. -/
structure TokenUsage extends TokenCounts where
  extensions : Extensions
  consistent : toTokenCounts.validate = .ok ()

/-- A counter of a cumulative snapshot must not decrease. -/
def mergeCounter (field : String) (previous current : Option UInt64) :
    Except TokenUsageError (Option UInt64) :=
  match previous, current with
  | some previous, some current =>
    if current < previous then .error (.counterDecreased field previous current)
    else .ok (some current)
  | none, some current => .ok (some current)
  | previous, none => .ok previous

namespace TokenUsage

def fromParts (inputTokens outputTokens totalTokens : Option UInt64) :
    Except TokenUsageError TokenUsage :=
  match h : TokenCounts.validate ⟨inputTokens, outputTokens, totalTokens⟩ with
  | .ok () => .ok ⟨⟨inputTokens, outputTokens, totalTokens⟩, .empty, h⟩
  | .error error => .error error

/-- Merge a cumulative snapshot, checked in full before anything changes. -/
def mergeSnapshot (self snapshot : TokenUsage) : Except TokenUsageError TokenUsage := do
  let inputTokens ← mergeCounter "input_tokens" self.inputTokens snapshot.inputTokens
  let outputTokens ← mergeCounter "output_tokens" self.outputTokens snapshot.outputTokens
  let totalTokens ← mergeCounter "total_tokens" self.totalTokens snapshot.totalTokens
  let merged ← fromParts inputTokens outputTokens totalTokens
  let _ ← (self.extensions.validateIdempotentMerge snapshot.extensions).mapError .extensionConflict
  pure { merged with extensions := self.extensions.commitIdempotentMerge snapshot.extensions }

end TokenUsage

/-! ## Responses -/

/-- Why a model stopped producing output. -/
inductive FinishReason where
  | stop
  | length
  | toolCalls
  | contentFilter
  | error
  | other (reason : String)
  deriving DecidableEq, Repr

/-- A complete provider-neutral chat response. -/
structure ChatResponse where
  message : AssistantMessage
  finishReason : FinishReason
  usage : Option TokenUsage
  responseId : Option ResponseId
  model : Option ModelId
  extensions : Extensions

/-- A response with optional identity and usage left unknown. -/
def ChatResponse.new (message : AssistantMessage) (finishReason : FinishReason) : ChatResponse where
  message
  finishReason
  usage := none
  responseId := none
  model := none
  extensions := .empty

/-! ## Output contracts -/

def MAX_TEXT : Nat := 1024 * 1024

/-- Failure to produce a complete, schema-valid output. -/
inductive StructuredOutputError where
  | refused
  | incomplete
  | invalidToolRound
  | limitExceeded
  | invalidJson (source : String)
  | schemaMismatch (source : String)
  deriving DecidableEq, Repr

/-- Immutable compiled contract for the bounded output profile. -/
structure StructuredOutput where
  name : String
  schema : Json
  contractId : String
  parse : String → Except String Json
  validator : Json → Except String Unit

/-- JSON that passed one output contract. -/
structure ValidatedJsonOutput where
  value : Json

namespace StructuredOutput

/-- Add up the bytes of the text parts, within the limit. -/
def textBytes : Nat → List ContentPart → Except StructuredOutputError Nat
  | bytes, [] => .ok bytes
  | bytes, part :: parts =>
    match part.asText with
    | none => .error .incomplete
    | some text =>
      if bytes + text.utf8ByteSize ≤ MAX_TEXT then textBytes (bytes + text.utf8ByteSize) parts
      else .error .limitExceeded

/-- Check a response. A valid intermediate tool round has no output yet. -/
def validateResponse (self : StructuredOutput) (response : ChatResponse) :
    Except StructuredOutputError (Option ValidatedJsonOutput) := do
  let _ ← textBytes 0 response.message.content
  if response.message.toolCalls ≠ [] then
    if response.finishReason ≠ .toolCalls then throw .invalidToolRound
    if ¬response.message.callIds.Nodup then throw .invalidToolRound
    return none
  if response.finishReason ≠ .stop then throw .incomplete
  let value ← (self.parse response.message.textContent).mapError .invalidJson
  (self.validator value).mapError .schemaMismatch
  pure (some ⟨value⟩)

end StructuredOutput

end GroupAgent.Model
