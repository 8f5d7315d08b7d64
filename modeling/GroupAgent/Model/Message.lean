import GroupAgent.Model.Extensions

/-!
# Messages and tools

Model of the messages (`message.rs:9-18`, 217-226), the content (`content.rs:11-14`), the tools
(`tool.rs:83-87`, 133-138, 201-204, 261-271) and the identifiers of `metadata.rs` of
`crates/group-agent-model/src`.

* The identifier types are what the two macros for string identifiers declare: text that is not
  blank, which is a field. A blank text is the one error of their constructors.
* `ContentPart` has one variant, text, so `as_text` always finds one.
* The methods that read a message (`text_content`, `has_text`, `tool_calls`) are functions of its
  fields.

Out of scope: `Display` and `Debug`, which hide the content, and the deserialization of
identifiers, which checks what `new` checks.
-/

namespace GroupAgent.Model

open GroupAgent.Lib

/-! ## Identifiers -/

/-- An invalid stable public identifier. -/
inductive IdentifierError where
  | emptyToolName
  | emptyToolCallId
  | emptyProviderId
  | emptyModelId
  | emptyResponseId
  deriving DecidableEq, Repr

/-- Text that is not blank. -/
structure Identifier where
  value : String
  nonblank : trim value ≠ ""
  deriving DecidableEq

def Identifier.new (error : IdentifierError) (value : String) : Except IdentifierError Identifier :=
  if h : trim value = "" then .error error else .ok ⟨value, h⟩

theorem nonblank_a : trim "a" ≠ "" := by decide +kernel

theorem nonblank_b : trim "b" ≠ "" := by decide +kernel

theorem nonblank_echo : trim "echo" ≠ "" := by decide +kernel

/-- A validated, provider-neutral tool name. -/
structure ToolName extends Identifier
  deriving DecidableEq

/-- A stable identifier linking one tool call to its result. -/
structure ToolCallId extends Identifier
  deriving DecidableEq

/-- A stable provider identifier chosen by an adapter. -/
structure ProviderId extends Identifier
  deriving DecidableEq

/-- A stable model identifier. -/
structure ModelId extends Identifier
  deriving DecidableEq

/-- A stable provider response identifier. -/
structure ResponseId extends Identifier
  deriving DecidableEq

def ToolName.new (value : String) : Except IdentifierError ToolName :=
  ToolName.mk <$> Identifier.new .emptyToolName value

def ToolCallId.new (value : String) : Except IdentifierError ToolCallId :=
  ToolCallId.mk <$> Identifier.new .emptyToolCallId value

def ProviderId.new (value : String) : Except IdentifierError ProviderId :=
  ProviderId.mk <$> Identifier.new .emptyProviderId value

def ModelId.new (value : String) : Except IdentifierError ModelId :=
  ModelId.mk <$> Identifier.new .emptyModelId value

def ResponseId.new (value : String) : Except IdentifierError ResponseId :=
  ResponseId.mk <$> Identifier.new .emptyResponseId value

theorem Identifier.new_eq_ok {error : IdentifierError} {value : String} {id : Identifier} :
    Identifier.new error value = .ok id ↔ value = id.value := by
  obtain ⟨text, htext⟩ := id
  unfold Identifier.new
  by_cases h : trim value = ""
  · rw [dif_pos h]
    constructor
    · intro h
      cases h
    · rintro rfl
      exact absurd h htext
  · rw [dif_neg h]
    simp

theorem ToolName.new_eq_ok {value : String} {name : ToolName} :
    ToolName.new value = .ok name ↔ value = name.value := by
  unfold ToolName.new
  rw [map_eq_ok]
  constructor
  · rintro ⟨id, h, rfl⟩
    exact Identifier.new_eq_ok.mp h
  · intro h
    exact ⟨name.toIdentifier, Identifier.new_eq_ok.mpr h, rfl⟩

theorem ToolCallId.new_eq_ok {value : String} {id : ToolCallId} :
    ToolCallId.new value = .ok id ↔ value = id.value := by
  unfold ToolCallId.new
  rw [map_eq_ok]
  constructor
  · rintro ⟨id, h, rfl⟩
    exact Identifier.new_eq_ok.mp h
  · intro h
    exact ⟨id.toIdentifier, Identifier.new_eq_ok.mpr h, rfl⟩

/-! ## Content and tools -/

/-- One provider-neutral part of message content. -/
inductive ContentPart where
  | text (text : String)
  deriving DecidableEq, Repr

def ContentPart.asText : ContentPart → Option String
  | .text value => some value

/-- A tool exposed to a model. -/
structure ToolDefinition where
  name : ToolName
  description : String
  inputSchema : Json

/-- A complete tool call produced by a model. -/
structure ToolCall where
  id : ToolCallId
  name : ToolName
  arguments : Json
  extensions : Extensions

/-- Content returned by application tool execution. -/
structure ToolResult where
  content : List ContentPart
  isError : Bool
  deriving DecidableEq, Repr

def ToolResult.errorText (text : String) : ToolResult := ⟨[.text text], true⟩

/-- How a model should select tools for one request. -/
inductive ToolChoice where
  | auto
  | none
  | required
  | named (name : ToolName)
  deriving DecidableEq

/-! ## Messages -/

structure SystemMessage where
  content : List ContentPart
  deriving DecidableEq, Repr

structure UserMessage where
  content : List ContentPart
  deriving DecidableEq, Repr

/-- An assistant message containing text, tool calls, or both. -/
structure AssistantMessage where
  content : List ContentPart
  toolCalls : List ToolCall
  extensions : Extensions

/-- A tool-result message linked to a prior assistant tool call. -/
structure ToolMessage where
  toolCallId : ToolCallId
  result : ToolResult
  deriving DecidableEq

/-- A provider-neutral chat message. -/
inductive Message where
  | system (message : SystemMessage)
  | user (message : UserMessage)
  | assistant (message : AssistantMessage)
  | tool (message : ToolMessage)

/-- The identifiers of a message's calls, in call order. -/
def AssistantMessage.callIds (self : AssistantMessage) : List ToolCallId :=
  self.toolCalls.map ToolCall.id

/-- The text parts without separators. -/
def AssistantMessage.textContent (self : AssistantMessage) : String :=
  String.join (self.content.filterMap ContentPart.asText)

namespace Message

/-- The ordered content of a message. -/
def content : Message → List ContentPart
  | .system message => message.content
  | .user message => message.content
  | .assistant message => message.content
  | .tool message => message.result.content

/-- The text parts without separators. -/
def textContent (self : Message) : String := String.join (self.content.filterMap ContentPart.asText)

def asAssistant : Message → Option AssistantMessage
  | .assistant message => some message
  | _ => none

def asTool : Message → Option ToolMessage
  | .tool message => some message
  | _ => none

end Message

end GroupAgent.Model
