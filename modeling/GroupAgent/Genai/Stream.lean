import GroupAgent.Genai.Sse
import GroupAgent.Genai.Decode

/-!
# The native event stream

Model of `StreamState::next` (`mod.rs:102-181`, its state 92-99, the errors 183-204 of
`crates/group-agent-genai/src/openai_chat`), which `try_unfold` calls until it returns no event or
an error (52-89).

* What the network does is given: what sending the request comes to, and the chunks of the body in
  the order they arrive, the last of which may be a failure.
* `pump` is the loop over the bytes at hand, `receive` the outer loop once a response is there.
* `Emits`: what `try_unfold` yields from a state.
* `decodeBytes`: the items of a body, byte by byte, with no queue and no chunks.

Results: **`emits_iff`**: what is yielded are the items of the body, however it arrives, or one
error when there is no body.

Out of scope: when a chunk arrives. A stream that is dropped has yielded some of its items, in
their order.
-/

namespace GroupAgent.Genai

open GroupAgent.Lib GroupAgent.Model

/-- A failure of `reqwest`. -/
structure TransportError where
  isTimeout : Bool
  isBuilder : Bool
  text : String

/-- A chunk of a body, or the failure to get one. -/
abbrev Chunk := Except TransportError (List UInt8)

/-- An HTTP response. An unsuccessful status comes as the error `map_genai_error` makes of it. -/
structure Response where
  status : Except ModelError Unit
  contentType : Option String
  chunks : List Chunk

/-- The media type of a `Content-Type` header. -/
def mediaType (contentType : Option String) : String :=
  trim (String.ofList ((contentType.getD "").toList.takeWhile (· ≠ ';')))

/-- `str::eq_ignore_ascii_case`. -/
def eqIgnoreAsciiCase (a b : String) : Bool :=
  a.toList.map Char.toLower == b.toList.map Char.toLower

structure StreamState where
  request : Option (Except TransportError Response)
  response : Option (List Chunk)
  bytes : List UInt8
  framer : Framer
  decoder : Decoder
  config : GenaiAdapterConfig

namespace StreamState

/-- The state of `OpenAiChat::stream`, before the first poll. -/
def new (config : GenaiAdapterConfig) (resolvedModel : String) (structured : Bool)
    (request : Except TransportError Response) : StreamState where
  request := some request
  response := none
  bytes := []
  framer := .new config.streamingLimits.maxSseEventBytes
  decoder := .new config resolvedModel structured
  config

def mappingError (self : StreamState) (error : GenaiMappingError) : ModelError :=
  error.intoModelError self.config.provider self.config.model

def httpError (self : StreamState) (source : TransportError) : ModelError :=
  let kind : ModelErrorKind :=
    if source.isTimeout then .timeout
    else if source.isBuilder then .invalidRequest
    else .providerUnavailable
  { ModelError.withSource kind "OpenAI Chat transport failed" (.foreign source.text) with
    provider := some self.config.provider, model := some self.config.model, retryability := .never }

/-- Send the request, once. -/
def send (self : StreamState) : Except ModelError StreamState :=
  match self.request with
  | none => .ok self
  | some request => do
    let self := { self with request := none }
    let response ← request.mapError self.httpError
    response.status
    if !eqIgnoreAsciiCase (mediaType response.contentType) "text/event-stream" then
      throw (self.mappingError (invalid "Content-Type"))
    pure { self with response := some response.chunks }

section Reading

variable (fromStr : String → Except String Json)

/-- Frame the bytes at hand, up to the next frame that has events. -/
def pump (self : StreamState) : List UInt8 → Except ModelError StreamState
  | [] => .ok { self with bytes := [] }
  | byte :: bytes => do
    let (frame, framer) ← (self.framer.push byte).mapError self.mappingError
    let self := { self with framer, bytes }
    match frame with
    | none => self.pump bytes
    | some data => do
      let decoder ← (self.decoder.push fromStr data).mapError self.mappingError
      -- `[DONE]` is the logical boundary: the connection is released and the bytes are dropped.
      if decoder.done then pure { self with decoder, response := none, bytes := [] }
      else if decoder.pending.isEmpty then pump { self with decoder } bytes
      else pure { self with decoder }

/-- The top of the loop: an event that is pending, or the end. -/
def ready? (self : StreamState) : Option (Option ChatStreamEvent × StreamState) :=
  match self.decoder.pending with
  | event :: pending => some (some event, { self with decoder := { self.decoder with pending } })
  | [] => if self.decoder.done then some (none, self) else none

/-- The loop once a response is there, over the chunks still to come. -/
def receive (self : StreamState) : List Chunk → Except ModelError (Option ChatStreamEvent × StreamState)
  | [] => do
    let self ← self.pump fromStr self.bytes
    match self.ready? with
    | some result => pure result
    | none => throw (self.mappingError .missingStreamEnd)
  | chunk :: chunks => do
    let self ← self.pump fromStr self.bytes
    match self.ready? with
    | some result => pure result
    | none =>
      match chunk with
      | .error source => throw (self.httpError source)
      | .ok bytes => receive { self with bytes, response := some chunks } chunks

/-- The next event, or the end of the stream. -/
def next (self : StreamState) : Except ModelError (Option ChatStreamEvent × StreamState) :=
  match self.ready? with
  | some result => .ok result
  | none => do
    let self ← self.send
    -- No response left is no chunk left: both end without `[DONE]`.
    self.receive fromStr (self.response.getD [])

/-- What `try_unfold` yields from a state until it ends. -/
inductive Emits : StreamState → ChatEventStream → Prop
  | done {self self' : StreamState} : self.next fromStr = .ok (none, self') → Emits self []
  | failed {self : StreamState} {error : ModelError} : self.next fromStr = .error error →
      Emits self [.error error]
  | event {self self' : StreamState} {event : ChatStreamEvent} {items : ChatEventStream} :
      self.next fromStr = .ok (some event, self') → Emits self' items →
      Emits self (.ok event :: items)

end Reading

end StreamState

/-! ## The items of a body -/

/-- The bytes that arrive. -/
def arriving : List Chunk → List UInt8
  | .ok bytes :: chunks => bytes ++ arriving chunks
  | _ => []

/-- The failure that cuts a body short, if there is one. -/
def failure? : List Chunk → Option TransportError
  | [] => none
  | .error source :: _ => some source
  | .ok _ :: chunks => failure? chunks

section Items

variable (fromStr : String → Except String Json)

/-- The items of a body, byte by byte, with the error its end is if `[DONE]` does not come. -/
def decodeBytes (onError : GenaiMappingError → ModelError) (ending : ModelError) (framer : Framer)
    (decoder : Decoder) : List UInt8 → ChatEventStream
  | [] => [.error ending]
  | byte :: bytes =>
    match framer.push byte with
    | .error error => [.error (onError error)]
    | .ok (none, framer) => decodeBytes onError ending framer decoder bytes
    | .ok (some data, framer) =>
      match decoder.push fromStr data with
      | .error error => [.error (onError error)]
      | .ok decoder =>
        decoder.pending.map .ok ++
          if decoder.done then []
          else decodeBytes onError ending framer { decoder with pending := [] } bytes

namespace StreamState

variable {fromStr} {s s' : StreamState}

/-- The items of a decoder's queue and of the bytes behind it. -/
def itemsBefore (fromStr : String → Except String Json) (self : StreamState) (ending : ModelError)
    (rest : List UInt8) : ChatEventStream :=
  self.decoder.pending.map .ok ++
    if self.decoder.done then []
    else decodeBytes fromStr self.mappingError ending self.framer { self.decoder with pending := [] }
      (self.bytes ++ rest)

/-- The error a body ends with that does not end with `[DONE]`. -/
def ending (self : StreamState) (chunks : List Chunk) : ModelError :=
  match failure? chunks with
  | some source => self.httpError source
  | none => self.mappingError .missingStreamEnd

/-- The items a state has still to yield. -/
def items (fromStr : String → Except String Json) (self : StreamState) : ChatEventStream :=
  self.itemsBefore fromStr (self.ending (self.response.getD [])) (arriving (self.response.getD []))

/-- A decoder whose queue is empty. -/
theorem noPending {decoder : Decoder} (h : decoder.pending = []) :
    { decoder with pending := [] } = decoder := by
  cases decoder
  cases h
  rfl

/-- What `pump` does with bytes: it takes them away from the front of the body. -/
structure Pumped (fromStr : String → Except String Json) (s s' : StreamState)
    (bytes : List UInt8) : Prop where
  request : s'.request = s.request
  config : s'.config = s.config
  response : s'.decoder.done = false → s'.response = s.response
  empty : s'.decoder.pending = [] → s'.decoder.done = false → s'.bytes = []
  items : ∀ ending rest, decodeBytes fromStr s.mappingError ending s.framer s.decoder
    (bytes ++ rest) = s'.itemsBefore fromStr ending rest

theorem pump_error {error : ModelError} : ∀ {bytes : List UInt8} {s : StreamState},
    s.decoder.pending = [] → s.pump fromStr bytes = .error error → ∀ ending rest,
      decodeBytes fromStr s.mappingError ending s.framer s.decoder (bytes ++ rest) =
        [.error error]
  | [], s, _, h, _, _ => by cases h
  | byte :: bytes, s, hpending, h, ending, rest => by
    unfold pump at h
    rw [List.cons_append]
    unfold decodeBytes
    cases hframe : s.framer.push byte with
    | error source =>
      rw [hframe] at h
      cases h
      rfl
    | ok framed =>
      obtain ⟨frame, framer⟩ := framed
      rw [hframe] at h
      cases frame with
      | none => exact pump_error (s := { s with framer, bytes }) hpending h ending rest
      | some data =>
        simp only [mapError_ok, ok_bind] at h ⊢
        cases hpush : s.decoder.push fromStr data with
        | error source =>
          rw [hpush] at h
          cases h
          rfl
        | ok decoder =>
          rw [hpush] at h
          simp only [mapError_ok, ok_bind] at h ⊢
          by_cases hdone : decoder.done = true
          · rw [if_pos hdone] at h
            cases h
          · rw [if_neg hdone] at h ⊢
            by_cases hnone : decoder.pending.isEmpty = true
            · rw [if_pos hnone] at h
              have hnil := List.isEmpty_iff.mp hnone
              rw [hnil, noPending hnil]
              exact pump_error (s := { s with framer, bytes, decoder }) hnil h ending rest
            · rw [if_neg hnone] at h
              cases h

theorem pump_ok : ∀ {bytes : List UInt8} {s : StreamState}, s.decoder.pending = [] →
    s.decoder.done = false → s.pump fromStr bytes = .ok s' →
      Pumped fromStr s s' bytes
  | [], s, hpending, hdone, h => by
    obtain rfl : { s with bytes := [] } = s' := Except.ok.inj h
    refine ⟨rfl, rfl, fun _ => rfl, fun _ _ => rfl, fun ending rest => ?_⟩
    unfold itemsBefore
    rw [if_neg (by simp [hdone]), hpending, noPending hpending]
    rfl
  | byte :: bytes, s, hpending, hdone, h => by
    unfold pump at h
    cases hframe : s.framer.push byte with
    | error source =>
      rw [hframe] at h
      cases h
    | ok framed =>
      obtain ⟨frame, framer⟩ := framed
      rw [hframe] at h
      cases frame with
      | none =>
        have ih := pump_ok (s := { s with framer, bytes }) hpending hdone h
        refine ⟨ih.request, ih.config, ih.response, ih.empty, fun ending rest => ?_⟩
        rw [← ih.items ending rest, List.cons_append, decodeBytes, hframe]
        rfl
      | some data =>
        simp only [mapError_ok, ok_bind] at h
        cases hpush : s.decoder.push fromStr data with
        | error source =>
          rw [hpush] at h
          cases h
        | ok decoder =>
          rw [hpush] at h
          simp only [mapError_ok, ok_bind] at h
          have hitems : ∀ ending rest, decodeBytes fromStr s.mappingError ending s.framer
              s.decoder (byte :: bytes ++ rest) = decoder.pending.map .ok ++
                if decoder.done then []
                else decodeBytes fromStr s.mappingError ending framer
                  { decoder with pending := [] } (bytes ++ rest) := fun ending rest => by
            rw [List.cons_append, decodeBytes, hframe]
            simp only [hpush]
          by_cases hdone' : decoder.done = true
          · rw [if_pos hdone'] at h
            obtain rfl := Except.ok.inj h
            refine ⟨rfl, rfl, fun hd => absurd (hdone'.symm.trans hd) (by decide), fun _ _ => rfl,
              fun ending rest => ?_⟩
            rw [hitems, if_pos hdone', itemsBefore, if_pos hdone']
          · rw [if_neg hdone'] at h
            by_cases hnone : decoder.pending.isEmpty = true
            · rw [if_pos hnone] at h
              have hnil := List.isEmpty_iff.mp hnone
              have ih := pump_ok (s := { s with framer, bytes, decoder }) hnil
                (Bool.not_eq_true _ ▸ hdone') h
              refine ⟨ih.request, ih.config, ih.response, ih.empty, fun ending rest => ?_⟩
              rw [hitems, if_neg hdone', hnil, ← ih.items ending rest, noPending hnil]
              rfl
            · rw [if_neg hnone] at h
              obtain rfl := Except.ok.inj h
              refine ⟨rfl, rfl, fun _ => rfl, fun hnil _ => ?_, fun ending rest => ?_⟩
              · exact absurd (List.isEmpty_iff.mpr hnil) hnone
              · rw [hitems, if_neg hdone', itemsBefore, if_neg hdone']
                rfl

/-- The items a result of `next` stands for. -/
def resultItems (fromStr : String → Except String Json) :
    Except ModelError (Option ChatStreamEvent × StreamState) → ChatEventStream
  | .error error => [.error error]
  | .ok (none, _) => []
  | .ok (some event, self) => .ok event :: self.items fromStr

theorem ready_none : s.ready? = none ↔ s.decoder.pending = [] ∧ s.decoder.done = false := by
  unfold ready?
  cases s.decoder.pending with
  | cons event pending => simp
  | nil => cases s.decoder.done <;> simp

/-- What is ready is the first of the items, and what is left are the others. -/
theorem ready_items {result : Option ChatStreamEvent × StreamState} {ending : ModelError}
    {rest : List UInt8} (h : s.ready? = some result)
    (hrest : s.decoder.done = false → ending = s.ending (s.response.getD []) ∧
      rest = arriving (s.response.getD [])) :
    s.itemsBefore fromStr ending rest = resultItems fromStr (.ok result) := by
  unfold ready? at h
  cases hpending : s.decoder.pending with
  | nil =>
    rw [hpending] at h
    by_cases hdone : s.decoder.done = true
    · simp only [if_pos hdone, Option.some.injEq] at h
      subst h
      rw [itemsBefore, hpending, if_pos hdone]
      rfl
    · simp [hdone] at h
  | cons event pending =>
    rw [hpending] at h
    obtain rfl := Option.some.inj h
    have hitems : s.itemsBefore fromStr ending rest = .ok event ::
        itemsBefore fromStr { s with decoder := { s.decoder with pending } } ending rest := by
      unfold itemsBefore
      rw [hpending]
      rfl
    rw [hitems]
    show _ = .ok event :: items fromStr { s with decoder := { s.decoder with pending } }
    by_cases hdone : s.decoder.done = true
    · unfold items itemsBefore
      simp [hdone]
    · obtain ⟨rfl, rfl⟩ := hrest (Bool.not_eq_true _ ▸ hdone)
      rfl

/-- What is received are the items of the bytes at hand and of the chunks to come. -/
theorem receive_items : ∀ {chunks : List Chunk} {s : StreamState}, s.decoder.pending = [] →
    s.decoder.done = false → s.response.getD [] = chunks →
      decodeBytes fromStr s.mappingError (s.ending chunks) s.framer s.decoder
        (s.bytes ++ arriving chunks) = resultItems fromStr (s.receive fromStr chunks)
  | chunks, s, hpending, hdone, hresponse => by
    unfold receive
    cases hpump : s.pump fromStr s.bytes with
    | error error =>
      rw [pump_error hpending hpump]
      cases chunks <;> rfl
    | ok s₁ =>
      have hpumped := pump_ok hpending hdone hpump
      rw [hpumped.items]
      have hending : s.ending chunks = s₁.ending chunks := by
        unfold ending httpError mappingError
        rw [hpumped.config]
      cases hready : s₁.ready? with
      | some result =>
        have hitems : s₁.itemsBefore fromStr (s.ending chunks) (arriving chunks) =
            resultItems fromStr (.ok result) := ready_items hready fun hdone => by
          rw [hpumped.response hdone, hresponse]
          exact ⟨hending, rfl⟩
        rw [hitems]
        cases chunks <;> simp [hready]
      | none =>
        obtain ⟨hpending₁, hdone₁⟩ := ready_none.mp hready
        have hbefore : s₁.itemsBefore fromStr (s.ending chunks) (arriving chunks) =
            decodeBytes fromStr s₁.mappingError (s₁.ending chunks) s₁.framer s₁.decoder
              (arriving chunks) := by
          rw [itemsBefore, if_neg (by simp [hdone₁]), noPending hpending₁,
            hpumped.empty hpending₁ hdone₁, hpending₁, hending]
          rfl
        rw [hbefore]
        cases chunks with
        | nil =>
          simp only [ok_bind, hready]
          rfl
        | cons chunk chunks =>
          cases chunk with
          | error source =>
            simp only [ok_bind, hready]
            rfl
          | ok bytes =>
            simp only [ok_bind, hready]
            exact receive_items (s := { s₁ with bytes, response := some chunks }) hpending₁ hdone₁ rfl

/-- **One poll yields the first of the items.** -/
theorem next_items (h : s.request = none) :
    s.items fromStr = resultItems fromStr (s.next fromStr) := by
  unfold next
  cases hready : s.ready? with
  | some result => exact ready_items hready fun _ => ⟨rfl, rfl⟩
  | none =>
    obtain ⟨hpending, hdone⟩ := ready_none.mp hready
    simp only [send, h, ok_bind]
    rw [← receive_items hpending hdone rfl]
    unfold items itemsBefore
    rw [if_neg (by simp [hdone]), noPending hpending, hpending]
    rfl

theorem pump_request : ∀ {bytes : List UInt8} {s : StreamState}, s.pump fromStr bytes = .ok s' →
    s'.request = s.request
  | [], s, h => by
    obtain rfl := Except.ok.inj h
    rfl
  | byte :: bytes, s, h => by
    unfold pump at h
    obtain ⟨⟨frame, framer⟩, -, h⟩ := bind_eq_ok.mp h
    cases frame with
    | none => exact pump_request (s := { s with framer, bytes }) h
    | some data =>
      obtain ⟨decoder, -, h⟩ := bind_eq_ok.mp h
      split at h
      · obtain rfl := Except.ok.inj h
        rfl
      · split at h
        · exact pump_request (s := { s with framer, bytes, decoder }) h
        · obtain rfl := Except.ok.inj h
          rfl

theorem ready_request {result : Option ChatStreamEvent × StreamState} (h : s.ready? = some result) :
    result.2.request = s.request := by
  unfold ready? at h
  split at h
  · obtain rfl := Option.some.inj h
    rfl
  · split at h
    · obtain rfl := Option.some.inj h
      rfl
    · cases h

theorem receive_request {result : Option ChatStreamEvent × StreamState} :
    ∀ {chunks : List Chunk} {s : StreamState}, s.receive fromStr chunks = .ok result →
      result.2.request = s.request
  | [], s, h => by
    unfold receive at h
    obtain ⟨s₁, hpump, h⟩ := bind_eq_ok.mp h
    cases hready : s₁.ready? with
    | some next =>
      rw [hready] at h
      obtain rfl := Except.ok.inj h
      exact (ready_request hready).trans (pump_request hpump)
    | none =>
      rw [hready] at h
      cases h
  | chunk :: chunks, s, h => by
    unfold receive at h
    obtain ⟨s₁, hpump, h⟩ := bind_eq_ok.mp h
    cases hready : s₁.ready? with
    | some next =>
      rw [hready] at h
      obtain rfl := Except.ok.inj h
      exact (ready_request hready).trans (pump_request hpump)
    | none =>
      rw [hready] at h
      cases chunk with
      | error source => cases h
      | ok bytes =>
        have ih : result.2.request = s₁.request :=
          receive_request (s := { s₁ with bytes, response := some chunks }) h
        exact ih.trans (pump_request hpump)

/-- The request is sent once. -/
theorem next_request {result : Option ChatStreamEvent × StreamState} (hrequest : s.request = none)
    (h : s.next fromStr = .ok result) : result.2.request = none := by
  unfold next at h
  cases hready : s.ready? with
  | some next =>
    rw [hready] at h
    obtain rfl := Except.ok.inj h
    exact (ready_request hready).trans hrequest
  | none =>
    simp only [hready, send, hrequest, ok_bind] at h
    exact (receive_request h).trans hrequest

theorem emits_items : ∀ {items : ChatEventStream} {s : StreamState}, s.request = none →
    s.items fromStr = items → Emits fromStr s items
  | items, s, hrequest, hitems => by
    have hnext : s.items fromStr = resultItems fromStr (s.next fromStr) := next_items hrequest
    rw [hitems] at hnext
    cases h : s.next fromStr with
    | error error =>
      rw [h] at hnext
      rw [hnext]
      exact .failed h
    | ok result =>
      obtain ⟨event, s'⟩ := result
      rw [h] at hnext
      cases event with
      | none =>
        rw [hnext]
        exact .done h
      | some event =>
        cases items with
        | nil => cases hnext
        | cons item items =>
          obtain ⟨rfl, hrest⟩ := List.cons.inj hnext
          exact .event h (emits_items (next_request hrequest h) hrest.symm)

theorem Emits.items_eq {items : ChatEventStream} (h : Emits fromStr s items) :
    s.request = none → items = s.items fromStr := by
  induction h with
  | done h =>
    intro hrequest
    rw [next_items hrequest, h]
    rfl
  | failed h =>
    intro hrequest
    rw [next_items hrequest, h]
    rfl
  | event h _ ih =>
    intro hrequest
    rw [next_items hrequest, h, ih (next_request hrequest h)]
    rfl

/-- A first poll sends the request, then polls. -/
theorem next_send (hready : s.ready? = none) (h : s.send = .ok s') (hready' : s'.ready? = none)
    (hrequest : s'.request = none) : s.next fromStr = s'.next fromStr := by
  unfold next
  simp only [hready, hready', h, ok_bind]
  simp only [send, hrequest, ok_bind]

/-- The state once a response is opened. -/
def opened (config : GenaiAdapterConfig) (resolvedModel : String) (structured : Bool)
    (chunks : List Chunk) : StreamState where
  request := none
  response := some chunks
  bytes := []
  framer := .new config.streamingLimits.maxSseEventBytes
  decoder := .new config resolvedModel structured
  config

section Opening

variable {config : GenaiAdapterConfig} {resolvedModel : String} {structured : Bool}
  {request : Except TransportError Response} {chunks : List Chunk}

/-- A response is opened that is a success and an event stream. -/
theorem send_eq_ok : (new config resolvedModel structured request).send = .ok s ↔
    ∃ response, request = .ok response ∧ response.status = .ok () ∧
      eqIgnoreAsciiCase (mediaType response.contentType) "text/event-stream" = true ∧
      s = opened config resolvedModel structured response.chunks := by
  constructor
  · intro h
    obtain ⟨response, hresponse, h⟩ := bind_eq_ok.mp h
    obtain ⟨_, hstatus, h⟩ := bind_eq_ok.mp h
    refine ⟨response, mapError_eq_ok.mp hresponse, hstatus, ?_⟩
    split at h
    · cases h
    · rename_i hmedia
      exact ⟨by simpa using hmedia, (Except.ok.inj h).symm⟩
  · rintro ⟨response, rfl, hstatus, hmedia, rfl⟩
    unfold send
    simp only [new, mapError_ok, ok_bind, hstatus, hmedia]
    rfl

/-- **What a stream yields**: one error, or the items of the body. -/
theorem emits_iff {items : ChatEventStream} :
    Emits fromStr (new config resolvedModel structured request) items ↔
      items = match (new config resolvedModel structured request).send with
        | .error error => [.error error]
        | .ok s => s.items fromStr := by
  have hready : (new config resolvedModel structured request).ready? = none := rfl
  cases hsend : (new config resolvedModel structured request).send with
  | error error =>
    have hnext : (new config resolvedModel structured request).next fromStr = .error error := by
      unfold next
      simp only [hready, hsend]
      rfl
    constructor
    · intro h
      cases h with
      | done h => cases hnext.symm.trans h
      | failed h =>
        cases hnext.symm.trans h
        rfl
      | event h _ => cases hnext.symm.trans h
    · rintro rfl
      exact .failed hnext
  | ok s =>
    obtain ⟨response, -, -, -, hs⟩ := send_eq_ok.mp hsend
    have hrequest : s.request = none := by rw [hs]; rfl
    have hnext : (new config resolvedModel structured request).next fromStr = s.next fromStr :=
      next_send hready hsend (by rw [hs]; rfl) hrequest
    constructor
    · intro h
      refine Emits.items_eq ?_ hrequest
      cases h with
      | done h => exact .done (hnext.symm.trans h)
      | failed h => exact .failed (hnext.symm.trans h)
      | event h hrest => exact .event (hnext.symm.trans h) hrest
    · intro hitems
      cases emits_items hrequest hitems.symm with
      | done h => exact .done (hnext.trans h)
      | failed h => exact .failed (hnext.trans h)
      | event h hrest => exact .event (hnext.trans h) hrest

end Opening

end StreamState

end Items

end GroupAgent.Genai
