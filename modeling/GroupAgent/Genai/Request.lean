import GroupAgent.Genai.Mapping
import GroupAgent.Model.Request

/-!
# Requests on the wire

Model of `crates/group-agent-genai/src/request.rs`, which maps a request of `group-agent-model` to
one of `genai` (`request.rs:31-257`), and of `build` (`openai_chat/request.rs:82-199`) and
`message` (201-241), which make the JSON body of the native OpenAI Chat request of it.

* The types of `genai` are as far as the mappings write and read them.
* `toStr` is `serde_json::to_string`.
* `ContentPart` has one variant, so the arms for future content are not there.
* The refusals come in the order of the source: the extensions of the request, its messages one
  after the other, the options, the choice of a tool.

Out of scope: `validate_config` and `endpoint` (8-52, 58-80), which look at the configuration and
not at a request.
-/

namespace GroupAgent.Genai

open GroupAgent.Lib GroupAgent.Model

/-! ## The types of `genai` -/

inductive ChatRole where
  | system
  | user
  | assistant
  | tool

structure GenaiToolCall where
  callId : String
  fnName : String
  fnArguments : Json
  thoughtSignatures : Option (List String)

structure GenaiToolResponse where
  callId : String
  fnName : Option String
  content : String

inductive GenaiContentPart where
  | text (value : String)
  | reasoningContent (value : String)
  | thoughtSignature (value : String)
  | toolCall (call : GenaiToolCall)
  | toolResponse (response : GenaiToolResponse)
  | binary
  | custom

structure GenaiMessage where
  role : ChatRole
  content : List GenaiContentPart

structure GenaiTool where
  name : String
  description : Option String
  schema : Option Json

inductive GenaiToolChoice where
  | auto
  | none
  | required
  | tool (name : String)

structure GenaiRequest where
  messages : List GenaiMessage
  tools : Option (List GenaiTool)
  previousResponseId : Option String
  store : Option Bool

structure GenaiOptions where
  temperature : Option F64
  maxTokens : Option UInt32
  topP : Option F64
  stopSequences : List String
  toolChoice : Option GenaiToolChoice

structure MappedChatRequest where
  request : GenaiRequest
  options : GenaiOptions

/-! ## From a request to `genai` -/

/-- The text parts, one after the other. -/
def joinTextContent (content : List ContentPart) : String :=
  content.foldl (fun text part => match part with | .text value => text ++ value) ""

def mapTextParts (content : List ContentPart) : List GenaiContentPart :=
  if content.isEmpty then [] else [.text (joinTextContent content)]

/-- Tool names by the identifiers of the calls so far. -/
abbrev ToolNames : Type := SortedMap String String

def mapToolCall (call : ToolCall) (knownToolNames : ToolNames) :
    Except GenaiMappingError (List GenaiContentPart × ToolNames) := do
  validateContextExtensions call.extensions [THOUGHT_SIGNATURES]
  let signatures ← stringList call.extensions THOUGHT_SIGNATURES
  let callId := call.id.value
  let fnName := call.name.value
  -- Signatures are parts of their own before the call, not in it.
  pure ((signatures.getD []).map .thoughtSignature ++
      [.toolCall ⟨callId, fnName, call.arguments, none⟩],
    knownToolNames.upsert callId fun _ => fnName)

def mapToolCalls : List ToolCall → ToolNames →
    Except GenaiMappingError (List GenaiContentPart × ToolNames)
  | [], knownToolNames => .ok ([], knownToolNames)
  | call :: calls, knownToolNames => do
    let (parts, knownToolNames) ← mapToolCall call knownToolNames
    let (rest, knownToolNames) ← mapToolCalls calls knownToolNames
    pure (parts ++ rest, knownToolNames)

def mapAssistant (message : AssistantMessage) (knownToolNames : ToolNames) :
    Except GenaiMappingError (GenaiMessage × ToolNames) := do
  validateContextExtensions message.extensions [REASONING_CONTENT]
  let reasoning ← stringList message.extensions REASONING_CONTENT
  let (calls, knownToolNames) ← mapToolCalls message.toolCalls knownToolNames
  pure (⟨.assistant, mapTextParts message.content ++ (reasoning.getD []).map .reasoningContent ++ calls⟩,
    knownToolNames)

def ChatRole.text : ChatRole → String
  | .system => "system"
  | .user => "user"
  | .assistant => "assistant"
  | .tool => "tool"

/-- `json!` of a number. -/
def jsonF64 (value : F64) : Json := if value.isFinite then .number (.float value) else .null

/-- `json!` of an optional text. -/
def jsonOption (value : Option Json) : Json := value.getD .null

section Wire

variable (toStr : Json → Except String String)

/-- A tool call on the wire. -/
def wireCall (callId fnName arguments : String) : Json := .object
  [("function", .object [("arguments", .string arguments), ("name", .string fnName)]),
    ("id", .string callId), ("type", .string "function")]

/-- What `message` has gathered of the parts of a message. -/
structure WireParts where
  text : String
  calls : List Json
  callId : Option String

/-- One part of a message. -/
def wirePart (wire : WireParts) : GenaiContentPart → Except GenaiMappingError WireParts
  | .text value => .ok { wire with text := wire.text ++ value }
  | .toolCall call => do
    let arguments ← (toStr call.fnArguments).mapError .toolArgumentsSerialization
    pure { wire with calls := wire.calls ++ [wireCall call.callId call.fnName arguments] }
  | .toolResponse result =>
    .ok { wire with text := wire.text ++ result.content, callId := some result.callId }
  -- Continuation metadata belonging to other protocols must never be lost.
  | .reasoningContent _ => .error (.unsupportedRequestContent "strict Chat continuation or content")
  | .thoughtSignature _ => .error (.unsupportedRequestContent "strict Chat continuation or content")
  | .binary => .error (.unsupportedRequestContent "strict Chat continuation or content")
  | .custom => .error (.unsupportedRequestContent "strict Chat continuation or content")

/-- The JSON of the parts of a message. -/
def wireOf (role : ChatRole) (wire : WireParts) : Json :=
  let value := Json.object [("role", .string role.text)]
  let value := match wire.callId with
    | some callId => setField "tool_call_id" (.string callId) value
    | none => value
  let value := setField "content"
    (if wire.text = "" ∧ wire.calls ≠ [] then .null else .string wire.text) value
  if wire.calls.isEmpty then value else setField "tool_calls" (.array wire.calls) value

def message (message : GenaiMessage) : Except GenaiMappingError Json :=
  wireOf message.role <$> message.content.foldlM (wirePart toStr) ⟨"", [], none⟩

end Wire

/-- The options of the client that a request may leave to it. -/
structure ChatDefaults where
  temperature : Option F64
  topP : Option F64
  maxTokens : Option UInt32

/-- The name of a limit of output tokens for a model. -/
def maxTokensKey (modelName : String) : String :=
  if ["gpt-5", "o1", "o3", "o4"].any fun start => modelName.startsWith start then "max_completion_tokens"
  else "max_tokens"

def wireTool (tool : GenaiTool) : Json := .object
  [("function", .object [("description", jsonOption (tool.description.map .string)),
      ("name", .string tool.name), ("parameters", jsonOption tool.schema)]),
    ("type", .string "function")]

def wireToolChoice : GenaiToolChoice → Json
  | .auto => .string "auto"
  | .none => .string "none"
  | .required => .string "required"
  | .tool name => .object [("function", .object [("name", .string name)]), ("type", .string "function")]

/-- A field that is set if there is a value for it. -/
def setOption (key : String) (value : Option Json) (body : Json) : Json :=
  match value with
  | some value => setField key value body
  | none => body

/-- The tool choice is sent with tools, or if it is not the default. -/
def sentToolChoice (mapped : MappedChatRequest) : Option Json :=
  match mapped.options.toolChoice with
  | some .auto => if mapped.request.tools.isSome then some (wireToolChoice .auto) else none
  | some choice => some (wireToolChoice choice)
  | none => none

/-- The controls of a body, after its messages. -/
def setControls (modelName : String) (defaults : ChatDefaults) (mapped : MappedChatRequest)
    (streaming : Bool) (output : Option StructuredOutput) (body : Json) : Json :=
  let options := mapped.options
  let body := setOption "tools" (mapped.request.tools.map fun tools => .array (tools.map wireTool)) body
  let body := setOption "tool_choice" (sentToolChoice mapped) body
  let body := setOption "temperature" ((options.temperature.or defaults.temperature).map jsonF64) body
  let body := setOption "top_p" ((options.topP.or defaults.topP).map jsonF64) body
  let body := setOption (maxTokensKey modelName)
    ((options.maxTokens.or defaults.maxTokens).map fun n => .number (.posInt n.toUInt64)) body
  let body := setOption "stop"
    (if options.stopSequences.isEmpty then none else some (.array (options.stopSequences.map .string))) body
  let body := setOption "store" (mapped.request.store.map .bool) body
  let body := setField "stream" (.bool streaming) body
  let body := if streaming then body else eraseField "stream_options" body
  setOption "response_format" (output.map fun output => .object
    [("json_schema", .object [("name", .string output.name), ("schema", output.schema),
      ("strict", .bool true)]), ("type", .string "json_schema")]) body

/-- The body of a request, for a model of this name. -/
def build (toStr : Json → Except String String) (modelName : String) (defaults : ChatDefaults)
    (mapped : MappedChatRequest) (streaming : Bool) (output : Option StructuredOutput) :
    Except GenaiMappingError Json := do
  if mapped.request.previousResponseId.isSome then
    throw (.unsupportedRequestContent "Chat previous_response_id")
  let messages ← mapped.request.messages.mapM (message toStr)
  pure (setControls modelName defaults mapped streaming output (.object
    [("messages", .array messages), ("model", .string modelName), ("n", .number (.posInt 1)),
      ("stream", .bool true), ("stream_options", .object [("include_usage", .bool true)])]))

end GroupAgent.Genai
