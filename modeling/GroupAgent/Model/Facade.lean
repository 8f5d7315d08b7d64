import GroupAgent.Model.Stream
import GroupAgent.Core.Program

/-!
# The chat model facade

Model of `ChatModel` (`model.rs:246-249`, `complete` and `stream` 280-317, `validate_common`
319-344, `require_capability` 346-352) of `crates/group-agent-model/src`.

* The raw adapter is foreign code: one call of it is a job, and everything before and after is
  here, in the fixed order of the source (request validation, common capabilities, streaming,
  dispatch, output validation).
* The adapter only gets requests that passed these checks (`complete_job`, `stream_job`).
* A stream that is asked for with an output contract is put behind the validating wrapper of
  `Stream`.

Results: `complete_validated`, `stream_validated`: what comes back for a request with a contract
was validated against it.

Out of scope: the time the adapter takes, and dropping the future of a call.
-/

namespace GroupAgent.Model

open GroupAgent.Lib GroupAgent.Core

/-- A call of the raw adapter, with a validated request. -/
inductive ModelJob where
  | complete (request : ChatRequest)
  | stream (request : ChatRequest)

def ModelJob.Reply : ModelJob → Type
  | .complete _ => Except ModelError ChatResponse
  | .stream _ => Except ModelError ChatEventStream

/-- A validated chat-model handle, by its metadata. -/
structure ChatModel where
  metadata : ModelMetadata
  valid : metadata.validate = .ok ()

namespace ChatModel

def requireCapability (self : ChatModel) (capability : ModelCapability) : Except ModelError Unit :=
  if self.metadata.capabilities.supports capability then .ok ()
  else .error (.unsupported capability self.metadata)

/-- The message carries a tool call or a tool result. -/
def isToolHistory : Message → Bool
  | .assistant message => !message.toolCalls.isEmpty
  | .tool _ => true
  | _ => false

/-- Request invariants, then common capabilities. -/
def validateCommon (self : ChatModel) (request : ChatRequest) : Except ModelError Unit := do
  request.validate.mapError .invalidRequest
  if request.output.isSome then self.requireCapability .structuredOutput
  let parallel := request.generation.parallelToolCalls == some true
  let usesTools := !request.tools.isEmpty || !(request.toolChoice = .auto || request.toolChoice = .none) ||
    request.messages.any isToolHistory || parallel
  if usesTools then self.requireCapability .toolCalling
  if parallel then self.requireCapability .parallelToolCalls

/-- What becomes of the raw response. -/
def completed (request : ChatRequest) (reply : Except ModelError ChatResponse) :
    Except ModelError ChatResponse := do
  let response ← reply
  match request.output with
  | some output =>
    let _ ← (output.validateResponse response).mapError StructuredOutputError.intoModelError
    pure response
  | none => pure response

/-- Validate and perform one complete response call. -/
def complete (self : ChatModel) (request : ChatRequest) :
    Plan ModelJob ModelJob.Reply (Except ModelError ChatResponse) :=
  match self.validateCommon request with
  | .error error => .done (.error error)
  | .ok () => .call (.complete request) (completed request)

/-- What becomes of the raw stream. -/
def streamed (fromStr : String → Except String Json) (request : ChatRequest)
    (reply : Except ModelError ChatEventStream) : Except ModelError ChatEventStream :=
  reply.map fun stream =>
    match request.output with
    | some output => validateStream fromStr output stream
    | none => stream

/-- Validate and start one incremental response. -/
def stream (self : ChatModel) (fromStr : String → Except String Json) (request : ChatRequest) :
    Plan ModelJob ModelJob.Reply (Except ModelError ChatEventStream) :=
  match (do self.validateCommon request; self.requireCapability .streaming) with
  | .error error => .done (.error error)
  | .ok () => .call (.stream request) (streamed fromStr request)

/-- A response that comes out has passed the request's contract. -/
theorem complete_validated {self : ChatModel} {request : ChatRequest} {response : ChatResponse}
    (h : (self.complete request).Answers (.ok response)) {output : StructuredOutput}
    (houtput : request.output = some output) : ∃ out, output.validateResponse response = .ok out := by
  unfold complete at h
  split at h
  · cases Plan.answers_done.mp h
  · obtain ⟨reply, hreply⟩ := h
    replace hreply : completed request reply = .ok response := hreply
    unfold completed at hreply
    obtain ⟨raw, -, hreply⟩ := bind_eq_ok.mp hreply
    rw [houtput] at hreply
    obtain ⟨out, hout, hreply⟩ := bind_eq_ok.mp hreply
    cases hreply
    exact ⟨out, mapError_eq_ok.mp hout⟩

/-- So has what is collected from a stream that comes out. -/
theorem stream_validated {self : ChatModel} {fromStr : String → Except String Json}
    {request : ChatRequest} {items : ChatEventStream}
    (h : (self.stream fromStr request).Answers (.ok items)) {output : StructuredOutput}
    (houtput : request.output = some output) {ε : Type} {chunk push finish : ModelError → ε}
    {response : ChatResponse}
    (hcollect : collectWith fromStr chunk push finish .new items = .ok response) :
    ∃ out, output.validateResponse response = .ok out := by
  unfold stream at h
  split at h
  · cases Plan.answers_done.mp h
  · obtain ⟨reply, hreply⟩ := h
    replace hreply : streamed fromStr request reply = .ok items := hreply
    obtain ⟨raw, -, rfl⟩ := map_eq_ok.mp hreply
    rw [houtput] at hcollect
    replace hcollect : collectWith fromStr chunk push finish .new (validateStream fromStr output raw) =
      .ok response := hcollect
    unfold validateStream at hcollect
    refine validated_agrees ?_ ?_ ?_ hcollect <;> rfl

/-- The adapter is only called with requests that pass validation. -/
theorem complete_job {self : ChatModel} {request : ChatRequest} {job : ModelJob}
    (h : (self.complete request).job? = some job) :
    job = .complete request ∧ request.validate = .ok () := by
  unfold complete at h
  split at h
  · cases h
  · rename_i hvalid
    obtain ⟨_, hvalid, -⟩ := bind_eq_ok.mp hvalid
    exact ⟨(Option.some.inj h).symm, mapError_eq_ok.mp hvalid⟩

theorem stream_job {self : ChatModel} {fromStr : String → Except String Json} {request : ChatRequest}
    {job : ModelJob} (h : (self.stream fromStr request).job? = some job) :
    job = .stream request ∧ request.validate = .ok () := by
  unfold stream at h
  split at h
  · cases h
  · rename_i hvalid
    obtain ⟨_, hvalid, -⟩ := bind_eq_ok.mp hvalid
    obtain ⟨_, hvalid, -⟩ := bind_eq_ok.mp hvalid
    exact ⟨(Option.some.inj h).symm, mapError_eq_ok.mp hvalid⟩

end ChatModel

end GroupAgent.Model
