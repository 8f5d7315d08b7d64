import GroupAgent.Genai.Content
import GroupAgent.Genai.Stream

/-!
# The native completion

Model of `crates/group-agent-genai/src/openai_chat/complete.rs`: the body of a response, of at most
`MAX_BODY` bytes (`complete.rs:9`), is rewritten into one chunk (104-139), which goes through the
chunk decoder, and its events through the collector (11-101).

* `fromSlice` is `serde_json::from_slice`.
* `chunkOf` is what `decode` makes of a body before it is decoded: one choice whose `message`
  becomes its `delta`, with an index for each of its tool calls.
* A completion asks for the role `assistant`; the decoder would take a body without one.

Results:
* **`decode_eq_ok`**: what is decoded is that one chunk, and the end.
* **`complete_eq_ok`**: a completion is decoded and collected.

Out of scope: the transport (sending the request, the status, the media type and the reading of the
bytes under the limit), whose results are given.
-/

namespace GroupAgent.Genai

open GroupAgent.Lib GroupAgent.Model GroupAgent.Model.ChatStreamCollector

def MAX_BODY : Nat := 4 * 1024 * 1024

/-- The entries of `tool_calls`, each with its index. -/
def indexTools (tools : List Json) : Except GenaiMappingError (List Json) :=
  tools.zipIdx.mapM fun (tool, index) =>
    if (asObject? tool).isNone then .error (invalid "tool")
    else .ok (setField "index" (.number (.posInt (.ofNat index))) tool)

/-- A message with indices in its calls. -/
def indexMessage (message : Json) : Except GenaiMappingError Json :=
  match nonnull (field? message "tool_calls") with
  | none => .ok message
  | some tools => do
    let some tools := asArray? tools | throw (invalid "tool_calls")
    let tools ← indexTools tools
    pure (setField "tool_calls" (.array tools) message)

/-- The choice of a body as the choice of a chunk. -/
def chunkChoice (choice : Json) : Except GenaiMappingError Json := do
  if (asObject? choice).isNone then throw (invalid "choice")
  let some message := field? choice "message" | throw (invalid "message")
  if (field? message "role").bind asStr? ≠ some "assistant" then throw (invalid "role")
  let message ← indexMessage message
  pure (setField "delta" message (eraseField "message" choice))

/-- The chunk that says all of a body. -/
def chunkOf (value : Json) : Except GenaiMappingError Json := do
  if (field? value "object").bind asStr? ≠ some "chat.completion" then throw (invalid "object")
  let some choices := (field? value "choices").bind asArray? | throw (invalid "choices")
  let [choice] := choices | throw (invalid "multiple or missing choices")
  let choice ← chunkChoice choice
  pure (setField "object" (.string "chat.completion.chunk") (setField "choices" (.array [choice]) value))

section Completing

variable (fromSlice : List UInt8 → Except String Json) (fromStr : String → Except String Json)
  (config : GenaiAdapterConfig) (resolvedModel : String)

def decode (value : Json) : Except GenaiMappingError (List ChatStreamEvent) := do
  let chunk ← chunkOf value
  let decoder ← (Decoder.new config resolvedModel true).pushValue chunk
  let decoder ← decoder.push fromStr "[DONE]"
  pure decoder.pending

def mapping (error : GenaiMappingError) : ModelError := error.intoModelError config.provider config.model

def transport (source : TransportError) : ModelError :=
  let kind : ModelErrorKind :=
    if source.isTimeout then .timeout
    else if source.isBuilder then .invalidRequest
    else .providerUnavailable
  { ModelError.withSource kind "OpenAI Chat transport failed" (.foreign source.text) with
    provider := some config.provider, model := some config.model, retryability := .never }

/-- The rest of a body, within its limit. -/
def receiveBody (body : List UInt8) : List Chunk → Except ModelError (List UInt8)
  | [] => .ok body
  | chunk :: chunks => do
    let chunk ← chunk.mapError (transport config)
    if MAX_BODY < body.length + chunk.length then
      throw (mapping config (.openAiChatByteLimit "completion body" MAX_BODY))
    receiveBody (body ++ chunk) chunks

def complete (request : Except TransportError Response) : Except ModelError ChatResponse := do
  let response ← request.mapError (transport config)
  response.status
  if !eqIgnoreAsciiCase (mediaType response.contentType) "application/json" then
    throw (mapping config (invalid "Content-Type"))
  let body ← receiveBody config [] response.chunks
  let value ← (fromSlice body).mapError (mapping config ∘ .openAiChatJson)
  let events ← (decode fromStr config resolvedModel value).mapError (mapping config)
  collectChatStream fromStr (events.map .ok)

end Completing

section Decoding

variable {fromSlice : List UInt8 → Except String Json} {fromStr : String → Except String Json}
  {config : GenaiAdapterConfig} {resolvedModel : String} {structured : Bool} {value : Json}
  {es : List ChatStreamEvent} {request : Except TransportError Response} {response : ChatResponse}

/-- One frame is taken, and the stream is finished. -/
theorem finishes_one {d : Decoder} {frame : Frame} :
    Finishes fromStr d [frame] es ↔ ∃ d₁ d₂, d.take frame = .ok d₁ ∧
      d₁.finishStream fromStr = .ok d₂ ∧ es = d₂.pending := by
  constructor
  · rintro ⟨front, d₁, d₂, htakes, hfinish, rfl⟩
    cases htakes with
    | @cons _ e _ _ _ _ htake htakes =>
      cases htakes
      obtain ⟨reason, raw, extensions, hf, hall, hext, rfl⟩ := finishStream_eq_ok.mp hfinish
      refine ⟨e, _, htake, finishStream_eq_ok.mpr ⟨reason, raw, extensions, hf, hall, hext, rfl⟩, ?_⟩
      simp
  · rintro ⟨d₁, d₂, htake, hfinish, rfl⟩
    obtain ⟨reason, raw, extensions, hf, hall, hext, rfl⟩ := finishStream_eq_ok.mp hfinish
    refine ⟨_, _, _, .cons htake (.nil _), finishStream_eq_ok.mpr
      ⟨reason, raw, extensions, hf, hall, hext, rfl⟩, ?_⟩
    simp

/-- **A body is decoded as one chunk and the end.** -/
theorem decode_eq_ok : decode fromStr config resolvedModel value = .ok es ↔ ∃ chunk frame,
    chunkOf value = .ok chunk ∧ readFrame config true chunk = .ok frame ∧
      Finishes fromStr (.new config resolvedModel true) [frame] es := by
  unfold decode
  constructor
  · intro h
    obtain ⟨chunk, hchunk, h⟩ := bind_eq_ok.mp h
    obtain ⟨d₁, hpush, h⟩ := bind_eq_ok.mp h
    obtain ⟨d₂, hdone, h⟩ := bind_eq_ok.mp h
    obtain ⟨frame, hread, htake⟩ := Decoder.pushValue_eq_ok.mp hpush
    exact ⟨chunk, frame, hchunk, hread,
      finishes_one.mpr ⟨d₁, d₂, htake, hdone, (Except.ok.inj h).symm⟩⟩
  · rintro ⟨chunk, frame, hchunk, hread, hfinishes⟩
    obtain ⟨d₁, d₂, htake, hdone, rfl⟩ := finishes_one.mp hfinishes
    exact bind_eq_ok.mpr ⟨chunk, hchunk, bind_eq_ok.mpr ⟨d₁,
      Decoder.pushValue_eq_ok.mpr ⟨frame, hread, htake⟩, bind_eq_ok.mpr ⟨d₂, hdone, rfl⟩⟩⟩

/-- Events are consumed by the collector when it collects them. -/
theorem collectWith_eq_ok {ε : Type} {chunk push finish : ModelError → ε} :
    ∀ {es : List ChatStreamEvent} {collector : ChatStreamCollector},
      collectWith fromStr chunk push finish collector (es.map .ok) = .ok response ↔
        (∀ result ∈ (pushAll fromStr collector es).1, result = .ok ()) ∧
          (pushAll fromStr collector es).2.finish fromStr = .ok response
  | [], collector => by
    unfold pushAll
    show (collector.finish fromStr).mapError finish = .ok response ↔ _
    rw [mapError_eq_ok]
    simp
  | event :: es, collector => by
    unfold pushAll
    rw [on_pushInPlace, List.forall_mem_cons]
    rw [List.map_cons, collectWith]
    cases hpush : collector.push fromStr event with
    | mk result next =>
      cases result with
      | error error => simp
      | ok u =>
        simp only [true_and]
        exact collectWith_eq_ok

/-- **A completion is decoded and collected.** -/
theorem complete_eq_ok : complete fromSlice fromStr config resolvedModel request = .ok response ↔
    ∃ received body value es, request = .ok received ∧ received.status = .ok () ∧
      eqIgnoreAsciiCase (mediaType received.contentType) "application/json" = true ∧
      receiveBody config [] received.chunks = .ok body ∧ fromSlice body = .ok value ∧
      decode fromStr config resolvedModel value = .ok es ∧ Collects fromStr new.limits es response := by
  unfold complete
  constructor
  · intro h
    obtain ⟨received, hreceived, h⟩ := bind_eq_ok.mp h
    obtain ⟨u, hstatus, h⟩ := bind_eq_ok.mp h
    split at h
    · cases h
    · rename_i hmedia
      obtain ⟨body, hbody, h⟩ := bind_eq_ok.mp h
      obtain ⟨value, hvalue, h⟩ := bind_eq_ok.mp h
      obtain ⟨es, hdecode, h⟩ := bind_eq_ok.mp h
      refine ⟨received, body, value, es, mapError_eq_ok.mp hreceived, hstatus, ?_, hbody,
        mapError_eq_ok.mp hvalue, mapError_eq_ok.mp hdecode, collectWith_eq_ok.mp h⟩
      simpa using hmedia
  · rintro ⟨received, body, value, es, rfl, hstatus, hmedia, hbody, hvalue, hdecode, hcollects⟩
    refine bind_eq_ok.mpr ⟨received, rfl, bind_eq_ok.mpr ⟨(), hstatus, ?_⟩⟩
    rw [hmedia, if_neg (by decide)]
    exact bind_eq_ok.mpr ⟨body, hbody, bind_eq_ok.mpr ⟨value, mapError_eq_ok.mpr hvalue,
      bind_eq_ok.mpr ⟨es, mapError_eq_ok.mpr hdecode, collectWith_eq_ok.mpr hcollects⟩⟩⟩

end Decoding

end GroupAgent.Genai
