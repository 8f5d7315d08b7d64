import GroupAgent.Genai.Responses
import GroupAgent.Prebuilt.EventStream

/-!
# Text streams of `genai`

Model of `GenaiEventStream` (`stream.rs:21-36`, its methods 46-118, `handle_end` 217-358,
`poll_next` 397-483, `checked_signature_total` 486-498) of `crates/group-agent-genai/src`, which
wraps the stream of `genai` where no tools are offered.

* `inner` is what the provider stream answers to each poll, and `Ready(None)` after that. Its
  errors come as `map_genai_error` makes them.
* No text that is in memory overflows a count of bytes.
* A failure leaves the fields as they were before the event. A stream that failed reads none of
  them again.
* A poll first hands out what is queued, then polls the provider until an event queues something,
  the provider is pending, or the stream is over.

Out of scope: tool calls. An `End` that brings tool calls fails before they are normalized, so no
tool call is ever known; `normalize_tool_call` and its state (120-215) are left out.
-/

namespace GroupAgent.Genai

open GroupAgent.Lib GroupAgent.Model
open GroupAgent.Prebuilt (Poll)

/-! ## The events of `genai` -/

/-- `genai::chat::StreamEnd`. -/
structure StreamEnd where
  capturedUsage : Option GenaiUsage
  capturedStopReason : Option StopReason
  capturedContent : Option (List GenaiContentPart)
  capturedReasoningContent : Option String
  capturedResponseId : Option String

/-- `genai::chat::ChatStreamEvent`, which may get more. -/
inductive GenaiStreamEvent where
  | start
  | chunk (content : String)
  | reasoningChunk (content : String)
  | thoughtSignatureChunk (content : String)
  | toolCallChunk (call : GenaiToolCall)
  | streamEnd (captured : StreamEnd)
  | future

/-- What the provider stream answers to a poll. -/
abbrev Answer := Poll (Option (Except ModelError GenaiStreamEvent))

abbrev Item := Except ModelError ChatStreamEvent

structure GenaiEventStream where
  inner : List Answer
  resolvedModel : ModelIden
  provider : ProviderId
  model : ModelId
  config : GenaiAdapterConfig
  pending : List Item
  sawStart : Bool
  sawEnd : Bool
  terminal : Bool
  reasoning : String
  thoughtSignatures : List String
  thoughtSignatureBytes : Nat

namespace GenaiEventStream

def new (inner : List Answer) (resolvedModel : ModelIden) (config : GenaiAdapterConfig)
    (provider : ProviderId) (model : ModelId) : GenaiEventStream where
  inner
  resolvedModel
  provider
  model
  config
  pending := []
  sawStart := false
  sawEnd := false
  terminal := false
  reasoning := ""
  thoughtSignatures := []
  thoughtSignatureBytes := 0

def fail (this : GenaiEventStream) (error : GenaiMappingError) :
    Poll (Option Item) × GenaiEventStream :=
  (.ready (some (.error (error.intoModelError this.provider this.model))),
    { this with terminal := true, pending := [] })

def pushReasoning (this : GenaiEventStream) (chunk : String) :
    Except GenaiMappingError GenaiEventStream :=
  let maximum := this.config.streamingLimits.maxReasoningBytes
  if ¬this.config.retainReasoningContent then .ok this
  else if this.reasoning.utf8ByteSize + chunk.utf8ByteSize ≤ maximum then
    .ok { this with reasoning := this.reasoning ++ chunk }
  else .error (.reasoningLimitExceeded maximum)

def checkedSignatureTotal (current additional maximum : Nat) : Except GenaiMappingError Nat :=
  let next := current + additional
  if maximum < next then .error (.thoughtSignatureLimitExceeded maximum) else .ok next

def pushSignature (this : GenaiEventStream) (signature : String) :
    Except GenaiMappingError GenaiEventStream := do
  let maximum := this.config.streamingLimits.maxThoughtSignatureBytes
  let next ← checkedSignatureTotal this.thoughtSignatureBytes signature.utf8ByteSize maximum
  pure { this with
    thoughtSignatureBytes := next
    thoughtSignatures := this.thoughtSignatures ++ [signature] }

/-! ## The end -/

/-- The loop over the captured content. -/
structure Capturing where
  stream : GenaiEventStream
  signatures : List String
  calls : List GenaiToolCall

def capturePart (state : Capturing) : GenaiContentPart → Except GenaiMappingError Capturing
  | .thoughtSignature signature => .ok { state with signatures := state.signatures ++ [signature] }
  | .toolCall call => .ok { state with calls := state.calls ++ [call] }
  | .text _ => .ok state
  | .reasoningContent reasoning =>
    if state.stream.config.retainReasoningContent then do
      let stream ← state.stream.pushReasoning reasoning
      pure { state with stream }
    else .ok state
  | .binary => .error (.unsupportedResponseContent "Binary")
  | .custom => .error (.unsupportedResponseContent "Custom")
  | .toolResponse _ => .error (.unsupportedResponseContent "ToolResponse in assistant stream")

/-- The captured signatures are taken where there are none, and compared where there are. -/
def captureSignatures (this : GenaiEventStream) (captured : List String) :
    Except GenaiMappingError GenaiEventStream := do
  let signatures ← reconcileSignatures this.thoughtSignatures (some captured)
  if this.thoughtSignatures = [] then signatures.foldlM pushSignature this else pure this

/-- The captured reasoning is taken where there is none, and compared where there is. -/
def captureReasoning (this : GenaiEventStream) (captured : Option String) :
    Except GenaiMappingError GenaiEventStream :=
  match this.config.retainReasoningContent, captured with
  | true, some captured =>
    if this.reasoning = "" then this.pushReasoning captured
    else if this.reasoning ≠ captured then .error .conflictingReasoningContent
    else .ok this
  | _, _ => .ok this

/-- What is retained for the extensions of the response. -/
def retained (this : GenaiEventStream) : List String :=
  if this.config.retainReasoningContent ∧ this.reasoning ≠ "" then [this.reasoning] else []

def responseExtensions (this : GenaiEventStream) (rawStopReason : String) :
    Except GenaiMappingError Extensions := do
  let extensions ← insertString .empty RESOLVED_MODEL this.resolvedModel.modelName
  let extensions ← insertString extensions ADAPTER_KIND this.resolvedModel.adapterKind.lower
  let extensions ← insertString extensions RAW_STOP_REASON rawStopReason
  let extensions ← insertUnlessEmpty extensions REASONING_CONTENT this.retained
  insertUnlessEmpty extensions THOUGHT_SIGNATURES this.thoughtSignatures

/-- The part of `handle_end` after the captured content and reasoning. -/
def queueEnd (this : GenaiEventStream) (captured : StreamEnd) :
    Except GenaiMappingError GenaiEventStream := do
  let reason := mapFinishReason captured.capturedStopReason
  let extensions ← this.responseExtensions reason.2
  let responseId ← captured.capturedResponseId.mapM fun id =>
    (ResponseId.new id).mapError (.invalidIdentifier "stream.response_id")
  let model ← (ModelId.new this.resolvedModel.modelName).mapError
    (.invalidIdentifier "stream.resolved_model")
  let usage ← mapGenaiUsage (captured.capturedUsage.getD .default) this.config.retainUsageDetails
  pure { this with
    reasoning := if this.retained = [] then this.reasoning else ""
    thoughtSignatures := []
    pending := this.pending ++ [.ok (.responseStarted responseId (some model) extensions)] ++
      usage.toList.map (fun usage => .ok (.usage usage)) ++ [.ok (.finished reason.1)]
    sawEnd := true }

def handleEnd (this : GenaiEventStream) (captured : StreamEnd) :
    Except GenaiMappingError GenaiEventStream := do
  let content ← (captured.capturedContent.getD []).foldlM capturePart ⟨this, [], []⟩
  let this ← content.stream.captureSignatures content.signatures
  if content.calls ≠ [] then throw .unexpectedToolCallInTextOnlyStream
  let this ← this.captureReasoning captured.capturedReasoningContent
  this.queueEnd captured

/-! ## Polling -/

/-- The provider stream is at its end. -/
def ended (this : GenaiEventStream) : Poll (Option Item) × GenaiEventStream :=
  if this.sawEnd then (.ready none, { this with terminal := true }) else this.fail .missingStreamEnd

/-- A round of the loop of a poll: what is returned, or nothing where the loop goes on. -/
def pollOnce (this : GenaiEventStream) : Answer → Option (Poll (Option Item)) × GenaiEventStream
  | .pending => (some .pending, this)
  | .ready none => this.ended.map some id
  | .ready (some (.error error)) =>
    (some (.ready (some (.error error))), { this with terminal := true })
  | .ready (some (.ok .start)) =>
    if this.sawStart then (this.fail .duplicateStreamStart).map some id
    else (none, { this with sawStart := true })
  | .ready (some (.ok (.chunk content))) => (some (.ready (some (.ok (.textDelta content)))), this)
  | .ready (some (.ok (.reasoningChunk content))) =>
    match this.pushReasoning content with
    | .ok this => (none, this)
    | .error error => (this.fail error).map some id
  | .ready (some (.ok (.thoughtSignatureChunk _))) =>
    (this.fail .unexpectedThoughtSignatureInTextOnlyStream).map some id
  | .ready (some (.ok (.toolCallChunk _))) =>
    (this.fail .unexpectedToolCallInTextOnlyStream).map some id
  | .ready (some (.ok (.streamEnd captured))) =>
    if this.sawEnd then (this.fail .conflictingTerminalToolCall).map some id
    else
      match this.handleEnd captured with
      | .error error => (this.fail error).map some id
      | .ok this =>
        match this.pending with
        | event :: pending =>
          (some (.ready (some event)), { this with pending, terminal := pending.isEmpty })
        | [] => (some (.ready none), this) -- an end queues events
  | .ready (some (.ok .future)) =>
    (this.fail (.unsupportedResponseContent "future genai stream event")).map some id

/-- The loop of a poll over `inner`. -/
def pollInner (this : GenaiEventStream) : List Answer → Poll (Option Item) × GenaiEventStream
  | [] => this.ended
  | answer :: inner =>
    match { this with inner }.pollOnce answer with
    | (some poll, this) => (poll, this)
    | (none, this) => pollInner this inner

def pollNext (this : GenaiEventStream) : Poll (Option Item) × GenaiEventStream :=
  if this.terminal then (.ready none, this)
  else
    match this.pending with
    | event :: pending =>
      (.ready (some event), { this with pending, terminal := this.sawEnd && pending.isEmpty })
    | [] => this.pollInner this.inner

/-- The state after a number of polls. -/
def after (this : GenaiEventStream) : Nat → GenaiEventStream
  | 0 => this
  | n + 1 => this.pollNext.2.after n

/-- What the stream yields over a number of polls. -/
def yields (this : GenaiEventStream) : Nat → List (Option Item)
  | 0 => []
  | n + 1 => this.pollNext.1.value?.toList ++ this.pollNext.2.yields n

end GenaiEventStream

end GroupAgent.Genai
