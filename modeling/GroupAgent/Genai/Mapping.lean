import GroupAgent.Model.Stream

/-!
# The adapter's errors, limits and extensions

Model of `GenaiMappingError` (`error.rs:63-272`, `into_model_error` 275-289, `model_error_kind`
291-346), of the limits of `config.rs` (`config.rs:103-110`) and of the keys and checks of
`extensions.rs` (`extensions.rs:13-155`) of `crates/group-agent-genai/src`, as far as the mappings
of requests, responses and streams use them.

* An error of `serde_json` or of `std::str::from_utf8` is its text.
* `intoModelError` keeps what the error displays as for the source of a model error.
* The keys of the extensions are the source's texts: a key under the adapter's prefix that is not
  known is rejected.

Out of scope: the classification of the errors of `genai` itself (`error.rs:393-442`), of which
streams take the result.
-/

namespace GroupAgent.Genai

open GroupAgent.Lib GroupAgent.Model

/-! ## Errors -/

/-- A request, response or streaming conversion failure. -/
inductive GenaiMappingError where
  | structuredOutput (source : StructuredOutputError)
  | invalidOpenAiChatField (field : String)
  | openAiChatJson (source : String)
  | openAiChatUtf8
  | openAiChatByteLimit (field : String) (maximum : Nat)
  | invalidGroupRequest (source : RequestValidationError)
  | invalidExtensionType (key expected : String)
  | unknownRequestExtension (key : String)
  | responseIdContinuationDisabled
  | parallelToolCallsUnsupported
  | unsupportedRequestContent (kind : String)
  | unsupportedResponseContent (kind : String)
  | unexpectedToolCallInTextOnlyStream
  | unexpectedThoughtSignatureInTextOnlyStream
  | unexpectedStreamToolArgumentsKind
  | invalidIdentifier (field : String) (source : IdentifierError)
  | negativeTokenCount (field : String)
  | invalidTokenUsage (source : TokenUsageError)
  | usageDetailSerialization (key source : String)
  | extensionConstruction (key : String) (source : ExtensionError)
  | duplicateStreamStart
  | missingStreamEnd
  | emptyStreamToolCallId
  | streamToolCallLimit (maximum : UInt32)
  | conflictingStreamToolArguments
  | conflictingTerminalToolCall
  | conflictingThoughtSignatures
  | conflictingReasoningContent
  | reasoningLimitExceeded (maximum : Nat)
  | thoughtSignatureLimitExceeded (maximum : Nat)
  | toolArgumentsSerialization (source : String)
  | invalidAccumulatedToolArguments (source : String)
  | responsesParserAdmissionLimitExceeded (maximum : Nat)
  | responsesParserAdmissionLengthOverflow
  | responsesParserAdmissionMeasurement (source : String)
  | invalidResponsesRawField (field : String)
  | invalidResponsesToolArguments (source : String)
  | missingResponsesRawBody
  | conflictingResponsesIdentity
  | conflictingResponsesToolCall
  | ambiguousResponsesThoughtSignature
  | thoughtSignatureLengthOverflow
  | thoughtSignatureCountExceeded (maximum : Nat)

/-- A frame outside the supported protocol. -/
def invalid (field : String) : GenaiMappingError := .invalidOpenAiChatField field

namespace GenaiMappingError

/-- What the error displays as. -/
def display : GenaiMappingError → String
  | structuredOutput _ => "structured output rejected"
  | invalidOpenAiChatField field => "OpenAI Chat stream protocol violation in `" ++ field ++ "`"
  | openAiChatJson _ => "OpenAI Chat stream JSON decoding failed"
  | openAiChatUtf8 => "OpenAI Chat stream UTF-8 decoding failed"
  | openAiChatByteLimit field maximum =>
    "OpenAI Chat stream `" ++ field ++ "` exceeds byte maximum " ++ toString maximum
  | invalidGroupRequest _ => "group chat request validation failed"
  | invalidExtensionType key expected => "extension `" ++ key ++ "` must contain " ++ expected
  | unknownRequestExtension key => "unknown group.genai request extension `" ++ key ++ "`"
  | responseIdContinuationDisabled => "response ID continuation is disabled"
  | parallelToolCallsUnsupported => "parallel_tool_calls cannot be mapped by genai 0.6.5"
  | unsupportedRequestContent kind => "unsupported Group request content kind `" ++ kind ++ "`"
  | unsupportedResponseContent kind => "unsupported genai response content kind `" ++ kind ++ "`"
  | unexpectedToolCallInTextOnlyStream =>
    "text-only genai stream unexpectedly emitted tool-call data"
  | unexpectedThoughtSignatureInTextOnlyStream =>
    "text-only genai stream unexpectedly emitted thought-signature data"
  | unexpectedStreamToolArgumentsKind =>
    "genai stream tool-call chunk did not contain cumulative raw JSON text"
  | invalidIdentifier field _ => "invalid provider response identifier in `" ++ field ++ "`"
  | negativeTokenCount field => "genai usage field `" ++ field ++ "` contained a negative value"
  | invalidTokenUsage _ => "genai usage violates token accounting invariants"
  | usageDetailSerialization key _ => "genai usage detail `" ++ key ++ "` could not be serialized"
  | extensionConstruction key _ => "failed to construct adapter extension `" ++ key ++ "`"
  | duplicateStreamStart => "genai stream emitted Start more than once"
  | missingStreamEnd => "genai stream reached EOF without End"
  | emptyStreamToolCallId => "genai stream tool call has an empty call id"
  | streamToolCallLimit maximum =>
    "genai stream tool-call count exceeds configured maximum " ++ toString maximum
  | conflictingStreamToolArguments =>
    "genai stream tool-call arguments conflict with prior chunks"
  | conflictingTerminalToolCall =>
    "genai terminal tool-call metadata conflicts with streamed chunks"
  | conflictingThoughtSignatures =>
    "genai terminal thought signatures conflict with streamed signatures"
  | conflictingReasoningContent => "genai terminal reasoning conflicts with streamed reasoning"
  | reasoningLimitExceeded maximum =>
    "genai stream reasoning exceeds configured byte maximum " ++ toString maximum
  | thoughtSignatureLimitExceeded maximum =>
    "genai stream thought signatures exceed configured byte maximum " ++ toString maximum
  | toolArgumentsSerialization _ => "genai tool arguments could not be serialized"
  | invalidAccumulatedToolArguments _ => "accumulated genai tool arguments are not valid JSON"
  | responsesParserAdmissionLimitExceeded maximum =>
    "captured OpenAI Responses value exceeds parser admission byte maximum " ++ toString maximum
  | responsesParserAdmissionLengthOverflow =>
    "captured OpenAI Responses parser admission length overflowed"
  | responsesParserAdmissionMeasurement _ =>
    "captured OpenAI Responses value could not be measured for parser admission"
  | invalidResponsesRawField field =>
    "captured OpenAI Responses field `" ++ field ++ "` is malformed"
  | invalidResponsesToolArguments _ =>
    "captured OpenAI Responses tool arguments are invalid JSON"
  | missingResponsesRawBody => "OpenAI Responses tool continuation body is unavailable"
  | conflictingResponsesIdentity =>
    "captured OpenAI Responses identity conflicts with normalized response"
  | conflictingResponsesToolCall =>
    "captured OpenAI Responses tool call conflicts with normalized response"
  | ambiguousResponsesThoughtSignature =>
    "captured OpenAI Responses reasoning signature has ambiguous ownership"
  | thoughtSignatureLengthOverflow =>
    "captured OpenAI Responses thought-signature length overflowed"
  | thoughtSignatureCountExceeded maximum =>
    "captured OpenAI Responses tool call exceeds distinct-signature maximum " ++ toString maximum

def modelErrorKind : GenaiMappingError → ModelErrorKind
  | structuredOutput _ => .outputValidation
  | invalidGroupRequest _ => .invalidRequest
  | invalidExtensionType _ _ => .invalidRequest
  | unknownRequestExtension _ => .invalidRequest
  | responseIdContinuationDisabled => .invalidRequest
  | parallelToolCallsUnsupported => .invalidRequest
  | unsupportedRequestContent _ => .invalidRequest
  | negativeTokenCount _ => .decode
  | openAiChatJson _ => .decode
  | openAiChatUtf8 => .decode
  | invalidTokenUsage _ => .decode
  | usageDetailSerialization _ _ => .decode
  | toolArgumentsSerialization _ => .decode
  | invalidAccumulatedToolArguments _ => .decode
  | responsesParserAdmissionLimitExceeded _ => .decode
  | responsesParserAdmissionLengthOverflow => .decode
  | responsesParserAdmissionMeasurement _ => .decode
  | invalidResponsesRawField _ => .decode
  | invalidResponsesToolArguments _ => .decode
  | unsupportedResponseContent _ => .protocol
  | invalidOpenAiChatField _ => .protocol
  | openAiChatByteLimit _ _ => .protocol
  | invalidIdentifier _ _ => .protocol
  | extensionConstruction _ _ => .protocol
  | duplicateStreamStart => .protocol
  | missingStreamEnd => .protocol
  | emptyStreamToolCallId => .protocol
  | streamToolCallLimit _ => .protocol
  | conflictingStreamToolArguments => .protocol
  | conflictingTerminalToolCall => .protocol
  | conflictingThoughtSignatures => .protocol
  | conflictingReasoningContent => .protocol
  | reasoningLimitExceeded _ => .protocol
  | thoughtSignatureLimitExceeded _ => .protocol
  | unexpectedToolCallInTextOnlyStream => .protocol
  | unexpectedThoughtSignatureInTextOnlyStream => .protocol
  | unexpectedStreamToolArgumentsKind => .protocol
  | missingResponsesRawBody => .protocol
  | conflictingResponsesIdentity => .protocol
  | conflictingResponsesToolCall => .protocol
  | ambiguousResponsesThoughtSignature => .protocol
  | thoughtSignatureLengthOverflow => .protocol
  | thoughtSignatureCountExceeded _ => .protocol

def intoModelError (self : GenaiMappingError) (provider : ProviderId) (model : ModelId) :
    ModelError :=
  let kind := self.modelErrorKind
  let message := match kind with
    | .invalidRequest => "genai request mapping failed"
    | .unsupportedCapability _ => "genai capability combination is unsupported"
    | .decode => "genai response decoding failed"
    | .protocol => "genai response protocol violation"
    | _ => "genai mapping failed"
  { ModelError.withSource kind message (.foreign self.display) with
    provider := some provider, model := some model, retryability := .never }

end GenaiMappingError

/-! ## Configuration -/

/-- Bounds for online stream normalization. -/
structure GenaiStreamingLimits where
  maxToolCalls : UInt32
  maxReasoningBytes : Nat
  maxThoughtSignatureBytes : Nat
  maxThoughtSignaturesPerToolCall : Nat
  maxSseEventBytes : Nat
  maxToolArgumentBytes : Nat

def GenaiStreamingLimits.new : GenaiStreamingLimits where
  maxToolCalls := 1024
  maxReasoningBytes := 16 * 1024 * 1024
  maxThoughtSignatureBytes := 4 * 1024 * 1024
  maxThoughtSignaturesPerToolCall := 1024
  maxSseEventBytes := 1024 * 1024
  maxToolArgumentBytes := 16 * 1024 * 1024

/-- Immutable adapter policy, with the identity of the model it speaks for. -/
structure GenaiAdapterConfig where
  provider : ProviderId
  model : ModelId
  retainReasoningContent : Bool
  retainUsageDetails : Bool
  allowResponseIdContinuation : Bool
  streamingLimits : GenaiStreamingLimits
  responsesParserAdmissionLimit : Nat

def GenaiAdapterConfig.new (provider : ProviderId) (model : ModelId) : GenaiAdapterConfig where
  provider
  model
  retainReasoningContent := false
  retainUsageDetails := true
  allowResponseIdContinuation := false
  streamingLimits := .new
  responsesParserAdmissionLimit := 8 * 1024 * 1024

/-! ## Extensions -/

def PREFIX : String := "group.genai."
def THOUGHT_SIGNATURES : String := "group.genai.thought_signatures"
def REASONING_CONTENT : String := "group.genai.reasoning_content"
def PROMPT_TOKEN_DETAILS : String := "group.genai.prompt_token_details"
def COMPLETION_TOKEN_DETAILS : String := "group.genai.completion_token_details"
def RESOLVED_MODEL : String := "group.genai.resolved_model"
def PROVIDER_MODEL : String := "group.genai.provider_model"
def ADAPTER_KIND : String := "group.genai.adapter_kind"
def RAW_STOP_REASON : String := "group.genai.raw_stop_reason"

def insert (extensions : Extensions) (key : String) (value : Json) :
    Except GenaiMappingError Extensions :=
  (extensions.insert key value).mapError (.extensionConstruction key)

def insertString (extensions : Extensions) (key value : String) :
    Except GenaiMappingError Extensions :=
  insert extensions key (.string value)

def insertStringList (extensions : Extensions) (key : String) (values : List String) :
    Except GenaiMappingError Extensions :=
  insert extensions key (.array (values.map .string))

def stringList (extensions : Extensions) (key : String) :
    Except GenaiMappingError (Option (List String)) :=
  match extensions.get? key with
  | none => .ok none
  | some value =>
    match asArray? value with
    | none => .error (.invalidExtensionType key "array of strings")
    | some values =>
      some <$> values.mapM fun value => match asStr? value with
        | some value => .ok value
        | none => .error (.invalidExtensionType key "array of strings")

def validateContextExtensions (extensions : Extensions) (allowed : List String) :
    Except GenaiMappingError Unit :=
  extensions.map.entries.forM fun (key, _) =>
    if key.startsWith PREFIX && !allowed.contains key then .error (.unknownRequestExtension key)
    else .ok ()

end GroupAgent.Genai
