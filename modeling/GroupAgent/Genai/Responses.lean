import GroupAgent.Genai.Request
import GroupAgent.Genai.Usage
import GroupAgent.Lib.Runs
import GroupAgent.Model.Serialize

/-!
# Responses and the signatures of their calls

Model of `crates/group-agent-genai/src/response.rs`: the mapping of a completed response of `genai`
(`response.rs:19-129`), and the attribution of the encrypted reasoning in the captured body of an
OpenAI Responses response to the tool calls of the response (132-266, 325-359).

* `fromStr` is `serde_json::from_str`, and `zmij` the text of floats.
* A body is measured as a whole (299-323). No text that is in memory overflows the count.
* An output item is read first (`readItem`) and then handled (`captureStep`), as the loop does with
  each item.
* A captured call is matched with the call of the response at the same place; their identifiers,
  names and arguments must agree, or the body is in conflict with the response.

Out of scope: what the provider's parser makes of a body before it is captured.
-/

namespace GroupAgent.Genai

open GroupAgent.Lib GroupAgent.Model

/-! ## The captured body -/

/-- `genai::chat::ChatResponse`. -/
structure GenaiResponse where
  content : List GenaiContentPart
  reasoningContent : Option String
  modelIden : ModelIden
  providerModelIden : ModelIden
  stopReason : Option StopReason
  usage : GenaiUsage
  capturedRawBody : Option Json
  responseId : Option String

/-- A function call of the captured body. -/
structure RawToolCall where
  callId : String
  name : String
  arguments : Json

structure CapturedToolCall extends RawToolCall where
  signatures : List String

/-- What an output item is, as far as the signatures go. -/
inductive OutputItem where
  | reasoning (signature : Option String)
  | functionCall (call : RawToolCall)
  | other

/-- `ok_or(InvalidResponsesRawField)`. -/
def rawField {α : Type} (field : String) : Option α → Except GenaiMappingError α
  | some value => .ok value
  | none => .error (.invalidResponsesRawField field)

def requiredRawString (item : Json) (field : String) : Except GenaiMappingError String :=
  rawField field ((field? item field).bind asStr?)

def readItem (fromStr : String → Except String Json) (item : Json) :
    Except GenaiMappingError OutputItem := do
  let itemType ← rawField "output[].type" ((field? item "type").bind asStr?)
  if itemType = "reasoning" then
    match field? item "encrypted_content" with
    | some signature => do
      let signature ← rawField "output[].encrypted_content" (asStr? signature)
      if signature = "" then throw (.invalidResponsesRawField "output[].encrypted_content")
      pure (.reasoning (some signature))
    | none => pure (.reasoning none)
  else if itemType = "function_call" then do
    let callId ← requiredRawString item "call_id"
    let name ← requiredRawString item "name"
    let arguments ← requiredRawString item "arguments"
    let arguments ← (fromStr arguments).mapError .invalidResponsesToolArguments
    pure (.functionCall ⟨callId, name, arguments⟩)
  else pure .other

structure CaptureState where
  capturedCalls : List CapturedToolCall
  pendingSignatures : List String
  signatureBytes : Nat

def pushDistinctSignature (limits : GenaiStreamingLimits) (state : CaptureState)
    (signature : String) : Except GenaiMappingError CaptureState :=
  if signature ∈ state.pendingSignatures then .ok state
  else if limits.maxThoughtSignaturesPerToolCall ≤ state.pendingSignatures.length then
    .error (.thoughtSignatureCountExceeded limits.maxThoughtSignaturesPerToolCall)
  else if limits.maxThoughtSignatureBytes < state.signatureBytes + signature.utf8ByteSize then
    .error (.thoughtSignatureLimitExceeded limits.maxThoughtSignatureBytes)
  else .ok { state with
    pendingSignatures := state.pendingSignatures ++ [signature]
    signatureBytes := state.signatureBytes + signature.utf8ByteSize }

/-- Signatures belong to the function call that follows them at once. -/
def captureStep (limits : GenaiStreamingLimits) (state : CaptureState) :
    OutputItem → Except GenaiMappingError CaptureState
  | .reasoning (some signature) => pushDistinctSignature limits state signature
  | .reasoning none => .ok state
  | .functionCall call => .ok { state with
      capturedCalls := state.capturedCalls ++ [⟨call, state.pendingSignatures⟩]
      pendingSignatures := [] }
  | .other =>
    if state.pendingSignatures = [] then .ok state else .error .ambiguousResponsesThoughtSignature

/-- The function calls of the output items, each with its signatures. -/
def captureCalls (fromStr : String → Except String Json) (limits : GenaiStreamingLimits)
    (output : List Json) : Except GenaiMappingError (List CapturedToolCall) := do
  let state ← output.foldlM (fun state item => readItem fromStr item >>= captureStep limits state)
    ⟨[], [], 0⟩
  if state.pendingSignatures = [] then pure state.capturedCalls
  else throw .ambiguousResponsesThoughtSignature

def measureParserAdmission (zmij : F64 → List UInt8) (value : Json) (maximum initial : Nat) :
    Except GenaiMappingError Nat :=
  let written := initial + (value.toVec zmij).length
  if written ≤ maximum then .ok written
  else .error (.responsesParserAdmissionLimitExceeded maximum)

/-! ## Attaching the signatures -/

def asToolCall? : GenaiContentPart → Option GenaiToolCall
  | .toolCall call => some call
  | _ => none

def attachCall (normalized : GenaiToolCall) (captured : CapturedToolCall) :
    Except GenaiMappingError GenaiToolCall :=
  if normalized.callId ≠ captured.callId ∨ normalized.fnName ≠ captured.name ∨
      normalized.fnArguments.eq captured.arguments = false then
    .error .conflictingResponsesToolCall
  else if normalized.thoughtSignatures.getD [] = [] then
    if captured.signatures = [] then .ok normalized
    else .ok { normalized with thoughtSignatures := some captured.signatures }
  else if normalized.thoughtSignatures = some captured.signatures then .ok normalized
  else .error .conflictingThoughtSignatures

/-- The calls of the content, one after the other, with the captured ones. -/
def attachCalls : List GenaiContentPart → List CapturedToolCall →
    Except GenaiMappingError (List GenaiContentPart)
  | .toolCall call :: parts, captured :: rest => do
    let call ← attachCall call captured
    let parts ← attachCalls parts rest
    pure (.toolCall call :: parts)
  | part :: parts, captured => do
    let parts ← attachCalls parts captured
    pure (part :: parts)
  | [], _ => pure []

section Attach

variable (fromStr : String → Except String Json) (zmij : F64 → List UInt8)

def attachOpenaiResponsesContinuation (response : GenaiResponse) (config : GenaiAdapterConfig) :
    Except GenaiMappingError GenaiResponse := do
  if ¬response.modelIden.adapterKind.isResponses then
    return { response with capturedRawBody := none }
  let hasToolCalls := response.content.any fun part => (asToolCall? part).isSome
  match response.capturedRawBody with
  | none => if hasToolCalls then throw .missingResponsesRawBody else pure response
  | some rawBody => do
    let response := { response with capturedRawBody := none }
    if ¬hasToolCalls then return response
    let _ ← measureParserAdmission zmij rawBody config.responsesParserAdmissionLimit 0
    let rawId ← rawField "id" ((field? rawBody "id").bind asStr?)
    if response.responseId ≠ some rawId then throw .conflictingResponsesIdentity
    let output ← rawField "output" ((field? rawBody "output").bind asArray?)
    let capturedCalls ← captureCalls fromStr config.streamingLimits output
    if (response.content.filterMap asToolCall?).length ≠ capturedCalls.length then
      throw .conflictingResponsesToolCall
    let content ← attachCalls response.content capturedCalls
    pure { response with content }

end Attach

/-! ## The mapping of a response -/

/-- A list that is retained where there is anything in it. -/
def insertUnlessEmpty (extensions : Extensions) (key : String) (values : List String) :
    Except GenaiMappingError Extensions :=
  if values = [] then pure extensions else insertStringList extensions key values

def mapResponseCall (call : GenaiToolCall) (signatures : List String) :
    Except GenaiMappingError ToolCall := do
  let id ← (ToolCallId.new call.callId).mapError (.invalidIdentifier "tool_call.call_id")
  let name ← (ToolName.new call.fnName).mapError (.invalidIdentifier "tool_call.fn_name")
  let extensions ← insertUnlessEmpty .empty THOUGHT_SIGNATURES signatures
  pure ⟨id, name, call.fnArguments, extensions⟩

structure ContentState where
  textParts : List ContentPart
  toolCalls : List ToolCall
  pendingSignatures : List String
  reasoningParts : List String

def contentStep (state : ContentState) : GenaiContentPart → Except GenaiMappingError ContentState
  | .text text => .ok { state with textParts := state.textParts ++ [.text text] }
  | .toolCall call => do
    let signatures ← reconcileSignatures state.pendingSignatures call.thoughtSignatures
    let call ← mapResponseCall call signatures
    pure { state with toolCalls := state.toolCalls ++ [call], pendingSignatures := [] }
  | .thoughtSignature signature =>
    .ok { state with pendingSignatures := state.pendingSignatures ++ [signature] }
  | .reasoningContent reasoning =>
    .ok { state with reasoningParts := state.reasoningParts ++ [reasoning] }
  | .binary => .error (.unsupportedResponseContent "Binary")
  | .custom => .error (.unsupportedResponseContent "Custom")
  | .toolResponse _ => .error (.unsupportedResponseContent "ToolResponse in assistant response")

section Response

variable (fromStr : String → Except String Json) (zmij : F64 → List UInt8)

def mapChatResponse (response : GenaiResponse) (config : GenaiAdapterConfig) :
    Except GenaiMappingError ChatResponse := do
  let response ← attachOpenaiResponsesContinuation fromStr zmij response config
  let state ← response.content.foldlM contentStep ⟨[], [], [], []⟩
  let reasoningParts := if config.retainReasoningContent then
    state.reasoningParts ++ response.reasoningContent.toList else []
  let messageExtensions ← insertUnlessEmpty .empty REASONING_CONTENT reasoningParts
  let extensions ← insertUnlessEmpty .empty REASONING_CONTENT reasoningParts
  let extensions ← insertUnlessEmpty extensions THOUGHT_SIGNATURES state.pendingSignatures
  let resolvedModel := response.modelIden.modelName
  let providerModel := response.providerModelIden.modelName
  let extensions ← insertString extensions RESOLVED_MODEL resolvedModel
  let extensions ← insertString extensions PROVIDER_MODEL providerModel
  let extensions ← insertString extensions ADAPTER_KIND response.modelIden.adapterKind.lower
  let reason := mapFinishReason response.stopReason
  let extensions ← insertString extensions RAW_STOP_REASON reason.2
  let usage ← mapGenaiUsage response.usage config.retainUsageDetails
  let responseId ← response.responseId.mapM fun id =>
    (ResponseId.new id).mapError (.invalidIdentifier "response_id")
  let model ← (ModelId.new providerModel).mapError (.invalidIdentifier "provider_model")
  pure {
    message := ⟨state.textParts, state.toolCalls, messageExtensions⟩
    finishReason := reason.1, usage, responseId, model := some model, extensions }

end Response

end GroupAgent.Genai
