import GroupAgent.Genai.Mapping

/-!
# The chunk decoder

Model of `Decoder` (`decode.rs:24-37`, its methods 40-326, `optional_string` 329-337) of
`crates/group-agent-genai/src/openai_chat`, which turns the data of SSE events into stream events,
for the supported single-choice Chat protocol.

* `choice` and `tool` are cut where they stop reading the frame and start to look at what came
  before. The order of the checks is that of the source, and each error names the field it is
  about.
* `fromStr` is `serde_json::from_str`. A JSON object is the list of its members, and a member is
  looked up by its key.
* `structured`: the decoder is for a structured response, in which a refusal has an error of its
  own.
* `[DONE]` finishes the decoder, which needs a finish reason and arguments that are JSON.
* A rejected frame may have queued events of its own. The stream ends with its error and never
  yields them, so a rejected frame leaves no decoder here.

Out of scope: the fields of a chunk that no branch reads, such as its time and its log
probabilities.
-/

namespace GroupAgent.Genai

open GroupAgent.Lib GroupAgent.Model

structure Call where
  id : ToolCallId
  name : ToolName
  arguments : String

structure Decoder where
  config : GenaiAdapterConfig
  structured : Bool
  calls : SortedMap Nat Call
  ids : List String
  argumentBytes : Nat
  responseId : Option ResponseId
  model : Option ModelId
  finish : Option (FinishReason × String)
  pending : List ChatStreamEvent
  done : Bool
  resolvedModel : String

def optionalString (value : Option Json) (field : String) : Except GenaiMappingError (Option String) :=
  match nonnull value with
  | none => .ok none
  | some value => match asStr? value with
    | some text => .ok (some text)
    | none => .error (invalid field)

/-- One entry of `tool_calls`, as it is read. -/
structure Fragment where
  index : Nat
  id : Option String
  name : Option String
  arguments : String

/-- Read one entry of `tool_calls`. -/
def readTool (maximum : UInt32) (value : Json) : Except GenaiMappingError Fragment := do
  let some index := (((field? value "index").bind asU64?).map UInt64.toNat).filter (· < 2 ^ 32)
    | throw (invalid "tool index")
  if maximum.toNat ≤ index then throw (.streamToolCallLimit maximum)
  let kind ← optionalString (field? value "type") "tool type"
  if kind.any (· ≠ "function") then throw (invalid "tool type")
  let some function := (field? value "function").bind asObject? | throw (invalid "tool function")
  let id ← optionalString (field? value "id") "tool id"
  let name ← optionalString (function.lookup "name") "tool name"
  let arguments ← optionalString (function.lookup "arguments") "tool arguments"
  pure ⟨index, id, name, arguments.getD ""⟩

/-- Fields of a delta that are rejected rather than silently omitted. -/
def unsupportedFields : List String :=
  ["function_call", "refusal", "audio", "reasoning", "reasoning_content", "thought_signature"]

namespace Decoder

def new (config : GenaiAdapterConfig) (resolvedModel : String) (structured : Bool) : Decoder where
  config
  structured
  calls := .empty
  ids := []
  argumentBytes := 0
  responseId := none
  model := none
  finish := none
  pending := []
  done := false
  resolvedModel

/-- One identity of the response, which must not change. -/
def keepIdentity {α : Type} [DecidableEq α] (new : String → Except IdentifierError α)
    (field changed : String) (old : Option α) (value : Json) :
    Except GenaiMappingError (Option α) := do
  match ← optionalString (field? value field) field with
  | none => pure old
  | some text => do
    let a ← (new text).mapError (.invalidIdentifier field)
    if old.any (· ≠ a) then throw (invalid changed)
    pure (some a)

def identity (self : Decoder) (value : Json) : Except GenaiMappingError Decoder := do
  let responseId ← keepIdentity ResponseId.new "id" "changed response id" self.responseId value
  let model ← keepIdentity ModelId.new "model" "changed model" self.model value
  pure { self with responseId, model }

/-- The call of a fragment, which is there already or starts here. -/
def callOf (self : Decoder) (fragment : Fragment) :
    Except GenaiMappingError (Decoder × Call × ToolCallDelta) :=
  match self.calls.get? fragment.index with
  | some call => do
    if fragment.id.any (· ≠ call.id.value) || fragment.name.any (· ≠ call.name.value) then
      throw (invalid "changed tool identity")
    pure (self, call, ⟨fragment.index, none, none, "", .empty⟩)
  | none => do
    let some id := fragment.id | throw (invalid "missing tool id")
    let id ← (ToolCallId.new id).mapError (.invalidIdentifier "tool id")
    let some name := fragment.name | throw (invalid "missing tool name")
    let name ← (ToolName.new name).mapError (.invalidIdentifier "tool name")
    if id.value ∈ self.ids then throw (invalid "duplicate tool id")
    pure ({ self with ids := id.value :: self.ids }, ⟨id, name, ""⟩,
      ⟨fragment.index, some id, some name, "", .empty⟩)

/-- Take one fragment of a call. -/
def addFragment (self : Decoder) (fragment : Fragment) : Except GenaiMappingError Decoder := do
  let (self, call, delta) ← self.callOf fragment
  let maximum := self.config.streamingLimits.maxToolArgumentBytes
  let argumentBytes := self.argumentBytes + fragment.arguments.utf8ByteSize
  if maximum < argumentBytes then throw (.openAiChatByteLimit "tool arguments" maximum)
  pure { self with
    argumentBytes
    calls := self.calls.upsert fragment.index fun _ =>
      { call with arguments := call.arguments ++ fragment.arguments }
    pending := self.pending ++
      [.toolCallDelta { delta with argumentsFragment := fragment.arguments }] }

def tool (self : Decoder) (value : Json) : Except GenaiMappingError Decoder := do
  let fragment ← readTool self.config.streamingLimits.maxToolCalls value
  self.addFragment fragment

/-- A finish reason goes with the calls so far. -/
def finishOf (noCalls : Bool) (reason : String) : Except GenaiMappingError (FinishReason × String) :=
  if reason = "stop" ∧ noCalls then .ok (.stop, "stop")
  else if reason = "length" ∧ noCalls then .ok (.length, "length")
  else if reason = "content_filter" ∧ noCalls then .ok (.contentFilter, "content_filter")
  else if reason = "tool_calls" ∧ ¬noCalls then .ok (.toolCalls, "tool_calls")
  else .error (invalid "finish_reason/tool_calls")

/-- What the delta of a choice must not say. -/
def checkDelta (structured : Bool) (delta : List (String × Json)) : Except GenaiMappingError Unit := do
  let role ← optionalString (delta.lookup "role") "role"
  if role.any (· ≠ "assistant") then throw (invalid "role")
  if structured then
    if let some refusal := nonnull (delta.lookup "refusal") then
      if (asStr? refusal).isNone then throw (invalid "refusal")
      throw (.structuredOutput .refused)
  unsupportedFields.forM fun field =>
    if (nonnull (delta.lookup field)).isSome then throw (invalid field) else pure ()

/-- The text of a delta, if there is any. -/
def addText (self : Decoder) (content : Option String) : Decoder :=
  match content.filter (· ≠ "") with
  | some content => { self with pending := self.pending ++ [.textDelta content] }
  | none => self

/-- The entries of `tool_calls`. -/
def tools (self : Decoder) (delta : List (String × Json)) : Except GenaiMappingError Decoder :=
  match nonnull (delta.lookup "tool_calls") with
  | none => .ok self
  | some tools => do
    let some tools := asArray? tools | throw (invalid "tool_calls")
    -- Bound per-frame event expansion even when all entries reuse one index.
    if self.config.streamingLimits.maxToolCalls.toNat < tools.length then
      throw (.streamToolCallLimit self.config.streamingLimits.maxToolCalls)
    tools.foldlM tool self

/-- The one choice of a chunk. -/
def choice (self : Decoder) (choice : Json) : Except GenaiMappingError Decoder := do
  if self.finish.isSome then throw (invalid "choice after finish_reason")
  if (field? choice "index").bind asU64? ≠ some 0 then throw (invalid "choice index")
  if self.responseId.isNone || self.model.isNone then throw (invalid "response identity")
  let some delta := (field? choice "delta").bind asObject? | throw (invalid "delta")
  checkDelta self.structured delta
  let content ← optionalString (delta.lookup "content") "content"
  let self ← (self.addText content).tools delta
  match ← optionalString (field? choice "finish_reason") "finish_reason" with
  | none => pure self
  | some reason => do
    let finish ← finishOf self.calls.entries.isEmpty reason
    pure { self with finish := some finish }

/-- One counter of a usage object. -/
def counter (object : List (String × Json)) (name : String) :
    Except GenaiMappingError (Option UInt64) :=
  match nonnull (object.lookup name) with
  | none => .ok none
  | some value => match asU64? value with
    | some count => .ok (some count)
    | none => .error (invalid name)

/-- The details of a usage object that are retained. -/
def usageDetails (retain : Bool) (object : List (String × Json)) : Except GenaiMappingError Extensions :=
  [("prompt_tokens_details", PROMPT_TOKEN_DETAILS),
    ("completion_tokens_details", COMPLETION_TOKEN_DETAILS)].foldlM (fun extensions (field, key) =>
      match nonnull (object.lookup field) with
      | none => .ok extensions
      | some details =>
        if (asObject? details).isNone then .error (invalid field)
        else if retain then insert extensions key details
        else .ok extensions) .empty

def usage (retain : Bool) (value : Json) : Except GenaiMappingError TokenUsage := do
  let some object := asObject? value | throw (invalid "usage")
  let extensions ← usageDetails retain object
  let promptTokens ← counter object "prompt_tokens"
  let completionTokens ← counter object "completion_tokens"
  let totalTokens ← counter object "total_tokens"
  let usage ← (TokenUsage.fromParts promptTokens completionTokens totalTokens).mapError
    .invalidTokenUsage
  pure { usage with extensions }

/-- What a frame must not say. -/
def checkFrame (object : List (String × Json)) : Except GenaiMappingError Unit := do
  if (nonnull (object.lookup "error")).isSome then throw (invalid "provider error")
  if let some kind := object.lookup "object" then
    if asStr? kind ≠ some "chat.completion.chunk" then throw (invalid "object")

/-- The usage of a frame, which a frame without choices must have. -/
def frameUsage (retain : Bool) (value : Json) (noChoices : Bool) :
    Except GenaiMappingError (Option TokenUsage) :=
  match nonnull (field? value "usage") with
  | some value => some <$> usage retain value
  | none => if noChoices then .error (invalid "empty usage tail") else .ok none

/-- The choices of a frame, of which there is at most one. -/
def choices (self : Decoder) (choices : List Json) : Except GenaiMappingError Decoder :=
  match choices.head? with
  | some first => self.choice first
  | none =>
    if self.finish.isNone then .error (invalid "usage before finish_reason") else .ok self

def pushValue (self : Decoder) (value : Json) : Except GenaiMappingError Decoder := do
  let some object := asObject? value | throw (invalid "chunk")
  checkFrame object
  let self ← self.identity value
  let some choices := (field? value "choices").bind asArray? | throw (invalid "choices")
  if 1 < choices.length then throw (invalid "multiple choices")
  let self ← self.choices choices
  let usage ← frameUsage self.config.retainUsageDetails value choices.isEmpty
  pure { self with pending := self.pending ++ (usage.map .usage).toList }

section Reading

variable (fromStr : String → Except String Json)

/-- What the adapter says of a response. -/
def responseExtensions (resolvedModel raw : String) : Except GenaiMappingError Extensions := do
  let extensions ← insertString .empty ADAPTER_KIND "openai"
  let extensions ← insertString extensions RESOLVED_MODEL resolvedModel
  insertString extensions RAW_STOP_REASON raw

/-- The `[DONE]` frame. -/
def finishStream (self : Decoder) : Except GenaiMappingError Decoder := do
  let some (reason, raw) := self.finish | throw (invalid "missing finish_reason")
  self.calls.entries.forM fun entry => do
    let _ ← (fromStr entry.2.arguments).mapError .invalidAccumulatedToolArguments
  let extensions ← responseExtensions self.resolvedModel raw
  pure { self with
    finish := none
    pending := self.pending ++
      [.responseStarted self.responseId self.model extensions, .finished reason]
    responseId := none
    model := none
    calls := .empty
    ids := []
    done := true }

def push (self : Decoder) (data : String) : Except GenaiMappingError Decoder :=
  if data = "[DONE]" then self.finishStream fromStr
  else do
    let value ← (fromStr data).mapError .openAiChatJson
    self.pushValue value

end Reading

end Decoder

end GroupAgent.Genai
