import GroupAgent.Model.Request

/-!
# Model errors and streams

Model of `ModelCapabilities` and `ModelMetadata` (`metadata.rs:106-113`, 208-213), `ModelError`
(`error.rs:53-62`), `ChatStreamCollector` (`stream.rs:252-530`) and of the validating wrapper of
structured streams (`structured_output/stream.rs:5-61`) in `crates/group-agent-model/src`.

* A stream is the list of items it yields until it ends.
* `push_active` checks an event in full before it changes anything, so it returns the collector
  after the event. `push` is it with the state machine around: active, then finished, or failed for
  good.
* `fromStr` is `serde_json::from_str`, which reads the arguments of a finished call.
* The wrapper keeps the terminal event back until the inner stream ends and the collected response
  was validated.

Results: **`validated_agrees`**: what a collector behind the wrapper collects is what the wrapper
checked.

Out of scope: the HTTP status and the retry delay of a `ModelError`, which nothing here reads. That
`push` changes nothing before its last check is proved of the method in place, in `Collector`.
-/

namespace GroupAgent.Model

open GroupAgent.Lib

/-! ## Capabilities and metadata -/

/-- One model capability used by common request validation. -/
inductive ModelCapability where
  | structuredOutput
  | streaming
  | toolCalling
  | parallelToolCalls
  | usageReporting
  deriving DecidableEq, Repr

/-- Provider-neutral capabilities declared by a model implementation. -/
structure ModelCapabilities where
  structuredOutput : Bool
  streaming : Bool
  toolCalling : Bool
  parallelToolCalls : Bool
  usageReporting : Bool
  deriving DecidableEq, Repr

def ModelCapabilities.supports (self : ModelCapabilities) : ModelCapability → Bool
  | .structuredOutput => self.structuredOutput
  | .streaming => self.streaming
  | .toolCalling => self.toolCalling
  | .parallelToolCalls => self.parallelToolCalls
  | .usageReporting => self.usageReporting

/-- Provider and model identity plus capabilities. -/
structure ModelMetadata where
  provider : ProviderId
  model : ModelId
  capabilities : ModelCapabilities

/-- Invalid model identity or capability metadata. -/
inductive MetadataValidationError where
  | parallelToolCallsRequireToolCalling
  deriving DecidableEq, Repr

def ModelMetadata.validate (self : ModelMetadata) : Except MetadataValidationError Unit :=
  if self.capabilities.parallelToolCalls && !self.capabilities.toolCalling then
    .error .parallelToolCallsRequireToolCalling
  else .ok ()

/-! ## Errors -/

/-- A streaming protocol or aggregation failure. -/
inductive StreamProtocolError where
  | duplicateResponseStarted
  | eventAfterFinished (event : String)
  | collectorAlreadyFailed
  | missingFinished
  | toolCallIndexTooLarge (index maximum : Nat)
  | duplicateToolCallField (index : Nat) (field : String)
  | conflictingToolCallExtension (index : Nat) (source : ExtensionMergeError)
  | extensionLimitExceeded (index maximum : Nat)
  | textLimitExceeded (maximum : Nat)
  | toolArgumentsLimitExceeded (index maximum : Nat)
  | invalidUsage (source : TokenUsageError)
  | missingToolCallId (index : Nat)
  | missingToolCallName (index : Nat)
  | invalidToolArguments (index : Nat) (source : String)

/-- Classification of a model failure. -/
inductive ModelErrorKind where
  | outputValidation
  | invalidRequest
  | unsupportedCapability (capability : ModelCapability)
  | authentication
  | permissionDenied
  | rateLimited
  | providerUnavailable
  | timeout
  | protocol
  | decode
  | cancelled
  | other
  deriving DecidableEq, Repr

/-- Whether an unchanged retry can help. -/
inductive Retryability where
  | never
  | retryable
  | unknown
  deriving DecidableEq, Repr

/-- The source of a model error: one of the crate's own, or an adapter's. -/
inductive ModelErrorSource where
  | request (source : RequestValidationError)
  | stream (source : StreamProtocolError)
  | output (source : StructuredOutputError)
  | foreign (text : String)

/-- A provider-neutral model failure. -/
structure ModelError where
  kind : ModelErrorKind
  message : String
  provider : Option ProviderId
  model : Option ModelId
  retryability : Retryability
  source : Option ModelErrorSource

def defaultRetryability : ModelErrorKind → Retryability
  | .rateLimited => .retryable
  | .providerUnavailable => .retryable
  | .timeout => .retryable
  | .other => .unknown
  | _ => .never

namespace ModelError

def new (kind : ModelErrorKind) (message : String) : ModelError :=
  ⟨kind, message, none, none, defaultRetryability kind, none⟩

def withSource (kind : ModelErrorKind) (message : String) (source : ModelErrorSource) : ModelError :=
  { new kind message with source := some source }

def invalidRequest (source : RequestValidationError) : ModelError :=
  withSource .invalidRequest "chat request validation failed" (.request source)

/-- `{:?}` of a capability. -/
def capabilityName : ModelCapability → String
  | .structuredOutput => "StructuredOutput"
  | .streaming => "Streaming"
  | .toolCalling => "ToolCalling"
  | .parallelToolCalls => "ParallelToolCalls"
  | .usageReporting => "UsageReporting"

def unsupported (capability : ModelCapability) (metadata : ModelMetadata) : ModelError :=
  { new (.unsupportedCapability capability)
      ("model `" ++ metadata.model.value ++ "` does not support " ++ capabilityName capability) with
    provider := some metadata.provider
    model := some metadata.model
    retryability := .never }

/-- `{:?}` of a kind. -/
def kindName : ModelErrorKind → String
  | .outputValidation => "OutputValidation"
  | .invalidRequest => "InvalidRequest"
  | .unsupportedCapability capability => "UnsupportedCapability(" ++ capabilityName capability ++ ")"
  | .authentication => "Authentication"
  | .permissionDenied => "PermissionDenied"
  | .rateLimited => "RateLimited"
  | .providerUnavailable => "ProviderUnavailable"
  | .timeout => "Timeout"
  | .protocol => "Protocol"
  | .decode => "Decode"
  | .cancelled => "Cancelled"
  | .other => "Other"

/-- What a model error displays as. -/
def display (self : ModelError) : String :=
  "model error (" ++ kindName self.kind ++ ")" ++
    (self.provider.map fun p => " from provider `" ++ p.value ++ "`").getD "" ++
    (self.model.map fun m => " for model `" ++ m.value ++ "`").getD ""

end ModelError

/-- Wrap an output failure. -/
def StructuredOutputError.intoModelError (self : StructuredOutputError) : ModelError :=
  .withSource .outputValidation "structured output validation failed" (.output self)

def protocolError (source : StreamProtocolError) : ModelError :=
  .withSource .protocol "chat stream protocol violation" (.stream source)

def decodeError (source : StreamProtocolError) : ModelError :=
  .withSource .decode "chat stream data could not be decoded" (.stream source)

/-! ## Events -/

/-- One partial tool call in a streamed response. -/
structure ToolCallDelta where
  index : Nat
  id : Option ToolCallId
  name : Option ToolName
  argumentsFragment : String
  extensions : Extensions

/-- One provider-neutral streamed response event. -/
inductive ChatStreamEvent where
  | responseStarted (responseId : Option ResponseId) (model : Option ModelId)
      (extensions : Extensions)
  | textDelta (delta : String)
  | toolCallDelta (delta : ToolCallDelta)
  | usage (usage : TokenUsage)
  | finished (reason : FinishReason)

def eventName : ChatStreamEvent → String
  | .responseStarted _ _ _ => "response_started"
  | .textDelta _ => "text_delta"
  | .toolCallDelta _ => "tool_call_delta"
  | .usage _ => "usage"
  | .finished _ => "finished"

/-- What a stream yields until it ends. -/
abbrev ChatEventStream := List (Except ModelError ChatStreamEvent)

/-! ## The collector -/

structure PendingToolCall where
  id : Option ToolCallId
  name : Option ToolName
  arguments : String
  extensions : Extensions

def PendingToolCall.default : PendingToolCall := ⟨none, none, "", .empty⟩

/-- A call with one fragment more. -/
def PendingToolCall.extend (existing : PendingToolCall)
    (delta : ToolCallDelta) : PendingToolCall where
  id := delta.id.or existing.id
  name := delta.name.or existing.name
  arguments := existing.arguments ++ delta.argumentsFragment
  extensions := existing.extensions.commitIdempotentMerge delta.extensions

inductive CollectorState where
  | active
  | finished
  | failed
  deriving DecidableEq, Repr

/-- The data of a response so far. -/
structure Collected where
  responseId : Option ResponseId
  model : Option ModelId
  extensions : Extensions
  responseStarted : Bool
  text : String
  toolCalls : SortedMap Nat PendingToolCall
  usage : Option TokenUsage
  finishReason : Option FinishReason

structure CollectorLimits where
  maxToolCallIndex : Nat
  maxToolCallExtensions : Nat
  maxTextBytes : Nat
  maxToolArgumentBytes : Nat

/-- Stateful protocol validator and response accumulator. -/
structure ChatStreamCollector where
  state : CollectorState
  data : Collected
  limits : CollectorLimits

namespace ChatStreamCollector

def new : ChatStreamCollector where
  state := .active
  data := ⟨none, none, .empty, false, "", .empty, none, none⟩
  limits := ⟨1024, 256, 16 * 1024 * 1024, 16 * 1024 * 1024⟩

def withMaxTextBytes (self : ChatStreamCollector) (maximum : Nat) : ChatStreamCollector :=
  { self with limits := { self.limits with maxTextBytes := maximum } }

/-- A fragment may supply what is missing, within the limits. -/
def checkToolDelta (limits : CollectorLimits) (existing : PendingToolCall) (delta : ToolCallDelta) :
    Except ModelError Unit := do
  if limits.maxToolCallIndex < delta.index then
    throw (protocolError (.toolCallIndexTooLarge delta.index limits.maxToolCallIndex))
  if delta.id.isSome && existing.id.isSome then
    throw (protocolError (.duplicateToolCallField delta.index "id"))
  if delta.name.isSome && existing.name.isSome then
    throw (protocolError (.duplicateToolCallField delta.index "name"))
  if limits.maxToolArgumentBytes <
      existing.arguments.utf8ByteSize + delta.argumentsFragment.utf8ByteSize then
    throw (protocolError (.toolArgumentsLimitExceeded delta.index limits.maxToolArgumentBytes))
  let newKeys ← (existing.extensions.validateIdempotentMerge delta.extensions).mapError fun source =>
    protocolError (.conflictingToolCallExtension delta.index source)
  if limits.maxToolCallExtensions < existing.extensions.length + newKeys then
    throw (protocolError (.extensionLimitExceeded delta.index limits.maxToolCallExtensions))

/-- Text within the limit. -/
def pushText (limits : CollectorLimits) (data : Collected) (delta : String) :
    Except ModelError Collected :=
  if limits.maxTextBytes < data.text.utf8ByteSize + delta.utf8ByteSize then
    .error (protocolError (.textLimitExceeded limits.maxTextBytes))
  else .ok { data with text := data.text ++ delta }

def pushToolDelta (limits : CollectorLimits) (data : Collected) (delta : ToolCallDelta) :
    Except ModelError Collected :=
  let existing := (data.toolCalls.get? delta.index).getD .default
  (checkToolDelta limits existing delta).map fun _ =>
    { data with toolCalls := data.toolCalls.upsert delta.index fun _ => existing.extend delta }

section Reading

variable (fromStr : String → Except String Json)

/-- One complete call, or what it lacks. -/
def completeCall (entry : Nat × PendingToolCall) : Except ModelError ToolCall := do
  let some id := entry.2.id | throw (protocolError (.missingToolCallId entry.1))
  let some name := entry.2.name | throw (protocolError (.missingToolCallName entry.1))
  let arguments ← (fromStr entry.2.arguments).mapError fun source =>
    decodeError (.invalidToolArguments entry.1 source)
  pure ⟨id, name, arguments, entry.2.extensions⟩

/-- Every call must be complete. -/
def validateFinished (data : Collected) : Except ModelError Unit :=
  data.toolCalls.entries.forM fun entry => do
    let _ ← completeCall fromStr entry

/-- Check one event and apply it. -/
def pushActive (limits : CollectorLimits) (data : Collected) :
    ChatStreamEvent → Except ModelError (CollectorState × Collected)
  | .responseStarted responseId model extensions =>
    if data.responseStarted then .error (protocolError .duplicateResponseStarted)
    else .ok (.active, { data with responseStarted := true, responseId, model, extensions })
  | .textDelta delta => Prod.mk .active <$> pushText limits data delta
  | .toolCallDelta delta => Prod.mk .active <$> pushToolDelta limits data delta
  | .usage usage =>
    match data.usage with
    | some existing =>
      match existing.mergeSnapshot usage with
      | .ok merged => .ok (.active, { data with usage := some merged })
      | .error source => .error (protocolError (.invalidUsage source))
    | none => .ok (.active, { data with usage := some usage })
  | .finished reason => do
    validateFinished fromStr data
    pure (.finished, { data with finishReason := some reason })

/-- Apply one event. The first error while active poisons the collector. -/
def push (self : ChatStreamCollector) (event : ChatStreamEvent) :
    Except ModelError Unit × ChatStreamCollector :=
  match self.state with
  | .failed => (.error (protocolError .collectorAlreadyFailed), self)
  | .finished => (.error (protocolError (.eventAfterFinished (eventName event))), self)
  | .active =>
    match pushActive fromStr self.limits self.data event with
    | .ok (state, data) => (.ok (), { self with state, data })
    | .error error => (.error error, { self with state := .failed })

/-- The response, after the end of the stream. -/
def finish (self : ChatStreamCollector) : Except ModelError ChatResponse := do
  match self.state with
  | .failed => throw (protocolError .collectorAlreadyFailed)
  | .active => throw (protocolError .missingFinished)
  | .finished =>
    let some finishReason := self.data.finishReason | throw (protocolError .missingFinished)
    let calls ← self.data.toolCalls.entries.mapM (completeCall fromStr)
    let content := if self.data.text = "" then [] else [.text self.data.text]
    pure
      { message := ⟨content, calls, .empty⟩
        finishReason
        usage := self.data.usage
        responseId := self.data.responseId
        model := self.data.model
        extensions := self.data.extensions }

end Reading

end ChatStreamCollector

/-! ## Collecting -/

section Collecting

variable (fromStr : String → Except String Json) {ε : Type} (chunk push finish : ModelError → ε)

/-- Consume a stream until its first error and aggregate a response. Errors of items, of pushes and
of the end are told apart. -/
def collectWith : ChatStreamCollector → ChatEventStream → Except ε ChatResponse
  | collector, [] => (collector.finish fromStr).mapError finish
  | _, .error error :: _ => .error (chunk error)
  | collector, .ok event :: items =>
    match collector.push fromStr event with
    | (.error error, _) => .error (push error)
    | (.ok (), collector) => collectWith collector items

/-- Consume a stream, stop on its first item error, and aggregate a response. -/
def collectChatStream (stream : ChatEventStream) : Except ModelError ChatResponse :=
  collectWith fromStr id id id .new stream

end Collecting

/-! ## Structured streams -/

section Validating

variable (fromStr : String → Except String Json) (output : StructuredOutput)

/-- The wrapper past the events so far: its collector, the withheld finish reason, the text bytes. -/
def validateFrom : ChatStreamCollector → Option FinishReason → Nat → ChatEventStream → ChatEventStream
  | collector, terminal, _, [] =>
    match collector.finish fromStr with
    | .error error => [.error error]
    | .ok response =>
      match output.validateResponse response with
      | .error error => [.error error.intoModelError]
      -- the collector verified the terminal event (`expect`)
      | .ok _ => terminal.toList.map fun reason => .ok (.finished reason)
  | _, _, _, .error error :: _ => [.error error]
  | collector, terminal, bytes, .ok event :: items =>
    let total :=
      match terminal, event with
      | none, .textDelta text => bytes + text.utf8ByteSize
      | _, _ => bytes
    if MAX_TEXT < total then [.error StructuredOutputError.limitExceeded.intoModelError]
    else
      match collector.push fromStr event with
      | (.error error, _) => [.error error]
      | (.ok (), collector) =>
        match event with
        | .finished reason => validateFrom collector (some reason) total items
        | event => .ok event :: validateFrom collector terminal total items

/-- Pass a stream through, and its end only after the whole response is checked. -/
def validateStream (raw : ChatEventStream) : ChatEventStream :=
  validateFrom fromStr output (ChatStreamCollector.new.withMaxTextBytes MAX_TEXT) none 0 raw

variable {fromStr output}

namespace ChatStreamCollector

/-- What an accepted event changes does not depend on the limits. -/
theorem pushToolDelta_unique {l l' : CollectorLimits} {data d d' : Collected} {delta : ToolCallDelta}
    (h : pushToolDelta l data delta = .ok d) (h' : pushToolDelta l' data delta = .ok d') : d = d' := by
  obtain ⟨_, -, rfl⟩ := map_eq_ok.mp h
  obtain ⟨_, -, rfl⟩ := map_eq_ok.mp h'
  rfl

theorem pushText_unique {l l' : CollectorLimits} {data d d' : Collected} {delta : String}
    (h : pushText l data delta = .ok d) (h' : pushText l' data delta = .ok d') : d = d' := by
  unfold pushText at h h'
  split at h
  · cases h
  · split at h'
    · cases h'
    · exact (Except.ok.inj h).symm.trans (Except.ok.inj h')

theorem pushActive_unique {l l' : CollectorLimits} {data : Collected} {event : ChatStreamEvent}
    {x x' : CollectorState × Collected} (h : pushActive fromStr l data event = .ok x)
    (h' : pushActive fromStr l' data event = .ok x') : x = x' := by
  cases event with
  | toolCallDelta delta =>
    obtain ⟨d, hd, rfl⟩ := map_eq_ok.mp h
    obtain ⟨d', hd', rfl⟩ := map_eq_ok.mp h'
    rw [pushToolDelta_unique hd hd']
  | textDelta delta =>
    obtain ⟨d, hd, rfl⟩ := map_eq_ok.mp h
    obtain ⟨d', hd', rfl⟩ := map_eq_ok.mp h'
    rw [pushText_unique hd hd']
  -- the other events look at no limit
  | responseStarted responseId model extensions => exact Except.ok.inj (h.symm.trans h')
  | usage usage => exact Except.ok.inj (h.symm.trans h')
  | finished reason => exact Except.ok.inj (h.symm.trans h')

/-- Only a terminal event ends a collector. -/
theorem pushActive_active {l : CollectorLimits} {data : Collected} {event : ChatStreamEvent}
    {x : CollectorState × Collected} (h : pushActive fromStr l data event = .ok x)
    (hevent : ∀ reason, event ≠ .finished reason) : x.1 = .active := by
  cases event with
  | responseStarted responseId model extensions =>
    replace h : (if data.responseStarted then _ else _) = Except.ok x := h
    split at h
    · cases h
    · exact (congrArg Prod.fst (Except.ok.inj h)).symm
  | textDelta delta =>
    obtain ⟨_, -, rfl⟩ := map_eq_ok.mp h
    rfl
  | toolCallDelta delta =>
    obtain ⟨_, -, rfl⟩ := map_eq_ok.mp h
    rfl
  | usage usage =>
    replace h : (match data.usage with
      | some existing => match existing.mergeSnapshot usage with
        | .ok merged => Except.ok (CollectorState.active, { data with usage := some merged })
        | .error source => .error (protocolError (.invalidUsage source))
      | none => .ok (.active, { data with usage := some usage })) = Except.ok x := h
    split at h
    · split at h
      · exact (congrArg Prod.fst (Except.ok.inj h)).symm
      · cases h
    · exact (congrArg Prod.fst (Except.ok.inj h)).symm
  | finished reason => exact absurd rfl (hevent reason)

/-- Accepted by an active collector. -/
theorem push_eq_ok {c c' : ChatStreamCollector} {event : ChatStreamEvent}
    (h : c.push fromStr event = (.ok (), c')) : c.state = .active ∧
      pushActive fromStr c.limits c.data event = .ok (c'.state, c'.data) := by
  unfold push at h
  split at h
  · cases h
  · cases h
  · rename_i hs
    split at h
    · rename_i state data hp
      cases h
      exact ⟨hs, hp⟩
    · cases h

end ChatStreamCollector

variable {ε : Type} {chunk push finish : ModelError → ε}

open ChatStreamCollector

theorem finish_active {c : ChatStreamCollector} (hs : c.state = .active) {r : ChatResponse} :
    c.finish fromStr ≠ .ok r := by
  intro h
  unfold ChatStreamCollector.finish at h
  rw [hs] at h
  cases h

/-- The end of a collector depends on its state and data. -/
theorem finish_congr {c c' : ChatStreamCollector} (hs : c.state = c'.state) (hd : c.data = c'.data) :
    c.finish fromStr = c'.finish fromStr := by
  unfold ChatStreamCollector.finish
  rw [hs, hd]

theorem collectWith_error {c : ChatStreamCollector} {error : ModelError} {items : ChatEventStream}
    {r : ChatResponse} : collectWith fromStr chunk push finish c (.error error :: items) ≠ .ok r := by
  intro h
  cases h

/-- Past the terminal event of the wrapper. -/
theorem validated_terminal {raw : ChatEventStream} {c c' : ChatStreamCollector} {bytes : Nat}
    {reason : FinishReason} {r : ChatResponse} (hactive : c.state = .active)
    (hpush : pushActive fromStr c'.limits c.data (.finished reason) = .ok (c'.state, c'.data))
    (h : collectWith fromStr chunk push finish c
      (validateFrom fromStr output c' (some reason) bytes raw) = .ok r) :
    ∃ out, output.validateResponse r = .ok out := by
  obtain ⟨hstate, hdata⟩ : c'.state = .finished ∧ c'.data = { c.data with finishReason := some reason } := by
    obtain ⟨_, -, h⟩ := bind_eq_ok.mp hpush
    exact ⟨(congrArg Prod.fst (Except.ok.inj h)).symm, (congrArg Prod.snd (Except.ok.inj h)).symm⟩
  cases raw with
  | nil =>
    unfold validateFrom at h
    split at h
    · exact absurd h collectWith_error
    · rename_i response hresponse
      split at h
      · exact absurd h collectWith_error
      · rename_i out hout
        refine ⟨out, ?_⟩
        have hc : c.push fromStr (.finished reason) =
            (.ok (), { c with state := c'.state, data := c'.data }) := by
          unfold ChatStreamCollector.push
          rw [hactive]
          have heq : pushActive fromStr c.limits c.data (.finished reason) = .ok (c'.state, c'.data) :=
            hpush
          rw [heq]
        replace h : collectWith fromStr chunk push finish c [.ok (.finished reason)] = .ok r := h
        unfold collectWith at h
        rw [hc] at h
        have hr := mapError_eq_ok.mp h
        have heq : ChatStreamCollector.finish fromStr { c with state := c'.state, data := c'.data } =
            c'.finish fromStr := finish_congr rfl rfl
        rw [← Except.ok.inj (hresponse.symm.trans (heq.symm.trans hr))]
        exact hout
  | cons item raw =>
    cases item with
    | error error => exact absurd h collectWith_error
    | ok event =>
      unfold validateFrom at h
      simp only [ChatStreamCollector.push, hstate] at h
      split at h
      · exact absurd h collectWith_error
      · exact absurd h collectWith_error

/-- **What is collected behind the wrapper is what the wrapper checked.** -/
theorem validated_agrees {raw : ChatEventStream} : ∀ {c c' : ChatStreamCollector} {bytes : Nat}
    {r : ChatResponse}, c.state = .active → c'.state = .active → c.data = c'.data →
      collectWith fromStr chunk push finish c (validateFrom fromStr output c' none bytes raw) = .ok r →
      ∃ out, output.validateResponse r = .ok out := by
  induction raw with
  | nil =>
    intro c c' bytes r _ hs' _ h
    unfold validateFrom at h
    split at h
    · exact absurd h collectWith_error
    · rename_i response hresponse
      exact absurd hresponse (finish_active hs')
  | cons item raw ih =>
    intro c c' bytes r hs hs' hdata h
    cases item with
    | error error => exact absurd h collectWith_error
    | ok event =>
      unfold validateFrom at h
      generalize (match (none : Option FinishReason), event with
        | none, .textDelta text => bytes + text.utf8ByteSize
        | _, _ => bytes) = total at h
      simp only at h
      split at h
      · exact absurd h collectWith_error
      · split at h
        · exact absurd h collectWith_error
        · rename_i c'' hpush
          obtain ⟨-, hpushed⟩ := push_eq_ok hpush
          rw [← hdata] at hpushed
          split at h
          · exact validated_terminal hs hpushed h
          · rename_i event hne
            unfold collectWith at h
            split at h
            · cases h
            · rename_i d hd
              obtain ⟨-, hd⟩ := push_eq_ok hd
              have heq := pushActive_unique hd hpushed
              have hactive : c''.state = .active := pushActive_active hpushed hne
              have hstate : d.state = c''.state := congrArg Prod.fst heq
              exact ih (hstate.trans hactive) hactive (congrArg Prod.snd heq) h

end Validating

end GroupAgent.Model
