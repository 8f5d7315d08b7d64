import GroupAgent.Genai.Stream
import GroupAgent.Genai.Accept
import GroupAgent.Model.Snapshots
import Mathlib.Data.List.Perm.Subperm
import Mathlib.Data.List.Dedup

/-!
# What the native stream emits

The items of a body (`StreamState::next`, `mod.rs:102-181` of
`crates/group-agent-genai/src/openai_chat`), in terms of its frames, and what the collector of
`crates/group-agent-model` makes of them.

* `Outcome`: the events of the accepted frames, then the end or the one error that ends the stream.
* `Shape`: the same with what the frames decode to (`Decodes`), field by field of the JSON a frame
  holds. The decoder itself is not part of it.
* `WithinLimits`: what the collector's limits are about, for a whole sequence of events.

Results:
* `decodeBytes_outcome`: the items of a body are those of its frames.
* **`Ended.collects`**: what a stream emits up to its end is collected, within the limits.
* **`chat_stream`**: what a stream emits, for every body and every way it arrives.

Premise: the request was accepted by the mappings (`Request`); a request that is not yields its one
error. What the network does in between is arbitrary.
-/

namespace GroupAgent.Genai

open GroupAgent.Lib GroupAgent.Model GroupAgent.Model.ChatStreamCollector

section Outcomes

variable (fromStr : String → Except String Json)

/-- Why a stream fails after some accepted frames: the next frame is rejected, or there is none. -/
def Fails (onError : GenaiMappingError → ModelError) (ending : ModelError)
    (frames : List String × Except GenaiMappingError Framer) (accepted : List String) (d : Decoder)
    (error : ModelError) : Prop :=
  (∃ data rest source, frames.1 = accepted ++ data :: rest ∧
    d.push fromStr data = .error source ∧ error = onError source) ∨
  frames.1 = accepted ∧ error = match frames.2 with
    | .error source => onError source
    | .ok _ => ending

/-- The events of the accepted frames, and how the stream ends. -/
def Outcome (onError : GenaiMappingError → ModelError) (ending : ModelError)
    (frames : List String × Except GenaiMappingError Framer) (d : Decoder)
    (items : ChatEventStream) : Prop :=
  ∃ accepted events d', Accepts fromStr d accepted events d' ∧ accepted <+: frames.1 ∧
    (d'.done = true ∧ items = events.map .ok ∨
      d'.done = false ∧ ∃ error, items = events.map .ok ++ [.error error] ∧
        Fails fromStr onError ending frames accepted d' error)

variable {fromStr} {onError : GenaiMappingError → ModelError} {ending ending' : ModelError}

/-- **The items of a body are those of its frames.** -/
theorem decodeBytes_outcome : ∀ {bytes : List UInt8} {framer : Framer} {d : Decoder},
    d.done = false → Outcome fromStr onError ending (framer.frames bytes) d
      (decodeBytes fromStr onError ending framer d bytes)
  | [], framer, d, hrunning =>
    ⟨[], [], d, .nil d, List.nil_prefix, .inr ⟨hrunning, ending, rfl, .inr ⟨rfl, rfl⟩⟩⟩
  | byte :: bytes, framer, d, hrunning => by
    unfold decodeBytes Framer.frames
    cases hframe : framer.push byte with
    | error source =>
      exact ⟨[], [], d, .nil d, List.nil_prefix, .inr ⟨hrunning, _, rfl, .inr ⟨rfl, rfl⟩⟩⟩
    | ok framed =>
      obtain ⟨frame, framer'⟩ := framed
      cases frame with
      | none =>
        simp only [Option.toList_none, List.nil_append]
        exact decodeBytes_outcome hrunning
      | some data =>
        simp only [Option.toList_some, List.singleton_append]
        cases hpush : d.push fromStr data with
        | error source =>
          exact ⟨[], [], d, .nil d, List.nil_prefix, .inr ⟨hrunning, _, rfl,
            .inl ⟨data, _, source, rfl, hpush, rfl⟩⟩⟩
        | ok d₁ =>
          simp only
          by_cases hdone : d₁.done = true
          · rw [if_pos hdone, List.append_nil]
            refine ⟨[data], d₁.pending ++ [], _, .cons hrunning hpush (.nil _),
              List.prefix_append [data] _, .inl ⟨hdone, ?_⟩⟩
            rw [List.append_nil]
          · rw [if_neg hdone]
            have hrunning' : ({ d₁ with pending := [] } : Decoder).done = false :=
              Bool.not_eq_true _ ▸ hdone
            have ih : Outcome fromStr onError ending (framer'.frames bytes) { d₁ with pending := [] } _ :=
              decodeBytes_outcome hrunning'
            obtain ⟨accepted, events, d', haccepts, hprefix, hend⟩ := ih
            refine ⟨data :: accepted, d₁.pending ++ events, d', .cons hrunning hpush haccepts,
              List.cons_prefix_cons.mpr ⟨rfl, hprefix⟩, ?_⟩
            rcases hend with ⟨hdone', hitems⟩ | ⟨hgoing, error, hitems, hfails⟩
            · refine .inl ⟨hdone', ?_⟩
              rw [hitems, List.map_append]
            · refine .inr ⟨hgoing, error, ?_, ?_⟩
              · rw [hitems, List.map_append, List.append_assoc]
              · rcases hfails with ⟨data', rest, source, hframes, hrest⟩ | ⟨hframes, herror⟩
                · exact .inl ⟨data', rest, source, congrArg (data :: ·) hframes, hrest⟩
                · exact .inr ⟨congrArg (data :: ·) hframes, herror⟩

/-- A stream that ended without an error does not depend on what would come after. -/
theorem decodeBytes_more (more : List UInt8) : ∀ {bytes : List UInt8} {framer : Framer} {d : Decoder},
    (∀ error, .error error ∉ decodeBytes fromStr onError ending framer d bytes) →
      decodeBytes fromStr onError ending' framer d (bytes ++ more) =
        decodeBytes fromStr onError ending framer d bytes
  | [], framer, d, h => absurd List.mem_cons_self (h ending)
  | byte :: bytes, framer, d, h => by
    rw [List.cons_append]
    unfold decodeBytes at h ⊢
    cases hframe : framer.push byte with
    | error source => rfl
    | ok framed =>
      obtain ⟨frame, framer'⟩ := framed
      rw [hframe] at h
      cases frame with
      | none => exact decodeBytes_more more h
      | some data =>
        simp only at h ⊢
        cases hpush : d.push fromStr data with
        | error source => rfl
        | ok d₁ =>
          rw [hpush] at h
          simp only at h ⊢
          by_cases hdone : d₁.done = true
          · rw [if_pos hdone, if_pos hdone]
          · rw [if_neg hdone] at h ⊢
            rw [if_neg hdone, decodeBytes_more more fun error herror =>
              h error (List.mem_append_right _ herror)]

end Outcomes

/-! ## What the collector makes of it -/

/-- A sequence of events is within the limits of a collector. -/
structure WithinLimits (limits : CollectorLimits) (es : List ChatStreamEvent) : Prop where
  text : (textOf es).utf8ByteSize ≤ limits.maxTextBytes
  index : ∀ delta, .toolCallDelta delta ∈ es → delta.index ≤ limits.maxToolCallIndex
  arguments : ∀ index, (argumentsOf (deltasAt index es)).utf8ByteSize ≤ limits.maxToolArgumentBytes

section Collecting

variable {fromStr : String → Except String Json} {config : GenaiAdapterConfig}
  {limits : CollectorLimits} {es body : List ChatStreamEvent}

/-- A call of the decoder as the collector has it. -/
def Call.pending (call : Call) : PendingToolCall :=
  ⟨some call.id, some call.name, call.arguments, .empty⟩

theorem mem_deltasAt {index : Nat} {delta : ToolCallDelta} (h : delta ∈ deltasAt index es) :
    .toolCallDelta delta ∈ es := by
  obtain ⟨event, hevent, hdelta⟩ := List.mem_filterMap.mp h
  cases event with
  | toolCallDelta d =>
    replace hdelta : (if d.index = index then some d else none) = some delta := hdelta
    split at hdelta
    · obtain rfl := Option.some.inj hdelta
      exact hevent
    · cases hdelta
  | _ => cases hdelta

/-- What is said of a call is accepted, within the limits. -/
theorem Tells.pendingAfter {index : Nat} {call : Option Call}
    (h : Tells (deltasAt index es) call) (hlimits : WithinLimits limits es) :
    ChatStreamCollector.pendingAfter limits none (deltasAt index es) = .ok (call.map Call.pending) := by
  cases call with
  | none => exact pendingAfter_eq_ok.mpr (.inl ⟨h, rfl⟩)
  | some call =>
    obtain ⟨hids, hnames, harguments, hextensions⟩ := h
    refine pendingAfter_eq_ok.mpr (.inr ⟨?_, _, rfl, fun delta hdelta => ?_, hids, hnames, ?_, ?_, ?_,
      Nat.zero_le _⟩)
    · intro hnil
      rw [hnil] at hids
      cases hids
    · exact hlimits.index delta (mem_deltasAt hdelta)
    · exact (String.empty_append ..).trans harguments
    · refine mergeAll_empty fun e he => ?_
      obtain ⟨delta, hdelta, rfl⟩ := List.mem_map.mp he
      exact hextensions delta hdelta
    · have hbytes := hlimits.arguments index
      rw [harguments] at hbytes
      exact hbytes

/-- The events before the last are accepted, within the limits of the collector. -/
theorem accepts_of_body {calls : SortedMap Nat Call} {id : Option ResponseId} {model : Option ModelId}
    {extensions : Extensions} {usage : Option TokenUsage} (h : Body config calls body)
    (hes : es = body ++ [.responseStarted id model extensions]) (hlimits : WithinLimits limits es)
    (husages : (usages es).foldlM usageAfter none = .ok usage) :
    ∃ data, ChatStreamCollector.Accepts limits new.data es data ∧
      data.toolCalls = calls.mapValues Call.pending := by
  have hstarts : starts es = [(id, model, extensions)] := by
    rw [hes, starts_append, h.starts]
    rfl
  refine ⟨⟨id, model, extensions, true, textOf es, calls.mapValues Call.pending, usage, none⟩,
    ⟨(String.empty_append ..).symm, hlimits.text, fun index => ?_, husages, ?_, ?_,
      fun h => (by cases h), rfl⟩, rfl⟩
  · have htells := h.tells index
    have hdeltas : deltasAt index es = deltasAt index body := by
      rw [hes, deltasAt_append]
      exact List.append_nil _
    rw [← hdeltas] at htells
    rw [SortedMap.get?_mapValues]
    exact htells.pendingAfter hlimits
  · rw [hstarts]
    rfl
  · rw [hstarts]
    rfl

/-- The limits are about the events before the last. -/
theorem WithinLimits.front {reason : FinishReason} (h : WithinLimits limits (es ++ [.finished reason])) :
    WithinLimits limits es := by
  have htext : textOf (es ++ [.finished reason]) = textOf es := by
    unfold textOf
    rw [List.filterMap_append]
    exact congrArg concat (List.append_nil _)
  have hdeltas : ∀ index, deltasAt index (es ++ [.finished reason]) = deltasAt index es := by
    intro index
    rw [deltasAt_append]
    exact List.append_nil _
  refine ⟨htext ▸ h.text, fun delta hdelta => h.index delta (List.mem_append_left _ hdelta),
    fun index => ?_⟩
  rw [← hdeltas]
  exact h.arguments index

/-- **What a stream emits up to its end is collected**, within the limits of the collector. -/
theorem Ended.collects (h : Ended fromStr config es) (hlimits : WithinLimits limits es)
    (husage : Compatible (usages es)) : ∃ response, Collects fromStr limits es response := by
  obtain ⟨body, calls, id, model, extensions, reason, raw, rfl, hbody, hparse, -⟩ := h
  have hsplit : body ++ [.responseStarted id model extensions, .finished reason] =
      (body ++ [.responseStarted id model extensions]) ++ [.finished reason] := by simp
  rw [hsplit] at hlimits husage ⊢
  have husages : usages (body ++ [.responseStarted id model extensions] ++ [.finished reason]) =
      usages (body ++ [.responseStarted id model extensions]) := by
    unfold usages
    rw [List.filterMap_append]
    exact List.append_nil _
  obtain ⟨usage, hmerges⟩ := compatible_merges husage
  rw [husages] at hmerges
  obtain ⟨data, haccepts, hcalls⟩ := accepts_of_body hbody rfl hlimits.front hmerges
  have hunfinished : ∀ event ∈ body ++ [.responseStarted id model extensions], ¬IsTerminal event := by
    apply reasons_eq_nil.mp
    rw [reasons_append, hbody.reasons]
    rfl
  have hpushed : pushBody fromStr limits new.data _ = .ok data :=
    (pushBody_eq_ok hunfinished (Nat.zero_le _)).mpr haccepts
  have hcomplete : Complete fromStr data := by
    intro entry hentry
    rw [hcalls] at hentry
    obtain ⟨⟨index, call⟩, hmem, rfl⟩ := List.mem_map.mp hentry
    obtain ⟨arguments, harguments⟩ := hparse _ hmem
    exact ⟨call.id, call.name, arguments, rfl, rfl, harguments⟩
  have hstate : (ended limits data reason).state = .finished := rfl
  obtain ⟨response, hfinish, -⟩ := finish_carries hstate hcomplete rfl
  exact ⟨response, collects_iff.mpr ⟨_, reason, data, rfl, hunfinished, hpushed,
    validateFinished_eq_ok.mpr hcomplete, hfinish⟩⟩

end Collecting

/-! ## The stream of a response -/

/-- The events among items. -/
def eventsOf (items : ChatEventStream) : List ChatStreamEvent := items.filterMap Except.toOption

/-- The index of the call an event is about. -/
def toolIndex? : ChatStreamEvent → Option Nat
  | .toolCallDelta delta => some delta.index
  | _ => none

/-- Events are within the limits of the adapter. -/
structure Bounded (config : GenaiAdapterConfig) (es : List ChatStreamEvent) : Prop where
  calls : (es.filterMap toolIndex?).dedup.length ≤ config.streamingLimits.maxToolCalls.toNat
  bytes : (es.map argumentSize).sum ≤ config.streamingLimits.maxToolArgumentBytes

/-- The request comes to a response that is opened, whose body arrives in these chunks. -/
def Opens (request : Except TransportError Response) (chunks : List Chunk) : Prop :=
  ∃ response, request = .ok response ∧ response.status = .ok () ∧
    eqIgnoreAsciiCase (mediaType response.contentType) "text/event-stream" = true ∧
    response.chunks = chunks

/-- The items of a body: the events the accepted frames decode to, in their order, then the two events
of `[DONE]` and the end, or one error and the end. -/
def Shape (fromStr : String → Except String Json) (onError : GenaiMappingError → ModelError)
    (ending : ModelError) (frames : List String × Except GenaiMappingError Framer) (d : Decoder)
    (items : ChatEventStream) : Prop :=
  ∃ accepted es d', Accepts fromStr d accepted es d' ∧ accepted <+: frames.1 ∧
    ((∃ front body id model extensions reason, accepted = front ++ ["[DONE]"] ∧ "[DONE]" ∉ front ∧
        es = body ++ [.responseStarted id model extensions, .finished reason] ∧
        Decodes fromStr d.config d.structured front body ∧
        starts body = [] ∧ reasons body = [] ∧ items = es.map .ok) ∨
      "[DONE]" ∉ accepted ∧ Decodes fromStr d.config d.structured accepted es ∧
        starts es = [] ∧ reasons es = [] ∧ ∃ error, items = es.map .ok ++ [.error error] ∧
          Fails fromStr onError ending frames accepted d' error)

section Streams

variable {fromStr : String → Except String Json} {config : GenaiAdapterConfig}
  {resolvedModel : String} {structured : Bool} {items : ChatEventStream}
  {request request' : Except TransportError Response} {chunks chunks' : List Chunk}
  {es : List ChatStreamEvent} {onError : GenaiMappingError → ModelError} {ending : ModelError}
  {frames : List String × Except GenaiMappingError Framer}

theorem eventsOf_ok (es : List ChatStreamEvent) : eventsOf (es.map .ok) = es := by
  unfold eventsOf
  rw [List.filterMap_map]
  exact List.filterMap_some

theorem eventsOf_error (es : List ChatStreamEvent) (error : ModelError) :
    eventsOf (es.map .ok ++ [.error error]) = es := by
  have h := eventsOf_ok es
  unfold eventsOf at h ⊢
  rw [List.filterMap_append, h]
  exact List.append_nil es

/-- Indices below a number are at most so many. -/
theorem dedup_length_le {l : List Nat} {n : Nat} (h : ∀ i ∈ l, i < n) : l.dedup.length ≤ n := by
  have hsub : l.dedup ⊆ List.range n := fun i hi => List.mem_range.mpr (h i (List.mem_dedup.mp hi))
  have hle := (List.Nodup.subperm l.nodup_dedup hsub).length_le
  rwa [List.length_range] at hle

theorem Body.bounded {calls : SortedMap Nat Call} (h : Body config calls es) : Bounded config es := by
  refine ⟨dedup_length_le fun i hi => ?_, h.bytes⟩
  obtain ⟨event, hevent, hindex⟩ := List.mem_filterMap.mp hi
  cases event with
  | toolCallDelta delta =>
    obtain rfl := Option.some.inj hindex
    exact h.below delta hevent
  | _ => cases hindex

theorem Ended.bounded (h : Ended fromStr config es) : Bounded config es := by
  obtain ⟨body, calls, id, model, extensions, reason, raw, rfl, hbody, -⟩ := h
  obtain ⟨hcalls, hbytes⟩ := hbody.bounded
  refine ⟨?_, ?_⟩
  · have hnil : [ChatStreamEvent.responseStarted id model extensions, .finished reason].filterMap
        toolIndex? = [] := rfl
    rw [List.filterMap_append, hnil, List.append_nil]
    exact hcalls
  · rw [List.map_append, List.sum_append]
    simpa [argumentSize] using hbytes

/-- The outcome of a body, with what a decoder has said by then. -/
theorem Outcome.shape (h : Outcome fromStr onError ending frames (.new config resolvedModel structured)
    items) : Shape fromStr onError ending frames (.new config resolvedModel structured) items ∧
      Bounded config (eventsOf items) ∧ ∀ es, items = es.map .ok → Ended fromStr config es := by
  obtain ⟨accepted, es, d', haccepts, hprefix, hend⟩ := h
  have hgoing := haccepts.going (going_new config resolvedModel structured)
  rw [List.nil_append] at hgoing
  rcases hend with ⟨hdone, rfl⟩ | ⟨hrunning, error, rfl, hfails⟩
  · rcases hgoing with ⟨-, hgoing⟩ | ⟨front, hfront, hnot, -, hended⟩
    · exact absurd (hgoing.running.symm.trans hdone) (by decide)
    · refine ⟨⟨accepted, es, d', haccepts, hprefix, .inl ?_⟩, ?_, fun es' hes => ?_⟩
      · obtain ⟨body, calls, id, model, extensions, reason, raw, rfl, hbody, -⟩ := hended
        subst hfront
        obtain ⟨body', d₁, _, _, _, _, hfront, hes⟩ := haccepts.split rfl
        obtain ⟨rfl, -⟩ := List.append_inj' hes rfl
        exact ⟨front, body, id, model, extensions, reason, rfl, hnot, rfl, hfront.decodes hnot,
          hbody.starts, hbody.reasons, rfl⟩
      · rw [eventsOf_ok]
        exact hended.bounded
      · have heq : es = es' := by rw [← eventsOf_ok es, hes, eventsOf_ok]
        rwa [← heq]
  · rcases hgoing with ⟨hnot, hgoing⟩ | ⟨front, -, -, hdone, -⟩
    · refine ⟨⟨accepted, es, d', haccepts, hprefix, .inr
        ⟨hnot, haccepts.decodes hnot, hgoing.starts, hgoing.reasons, error, rfl, hfails⟩⟩, ?_, fun es' hes => ?_⟩
      · rw [eventsOf_error]
        exact hgoing.body.bounded
      · have hmem : (.error error : Except ModelError ChatStreamEvent) ∈ es'.map Except.ok := by
          rw [← hes]
          exact List.mem_append_right _ List.mem_cons_self
        obtain ⟨_, -, h⟩ := List.mem_map.mp hmem
        cases h
    · exact absurd (hrunning.symm.trans hdone) (by decide)

/-- A request that is opened yields the items of its body. -/
theorem Opens.emits_iff (h : Opens request chunks) :
    StreamState.Emits fromStr (.new config resolvedModel structured request) items ↔
      items = (StreamState.opened config resolvedModel structured chunks).items fromStr := by
  obtain ⟨response, rfl, hstatus, hmedia, rfl⟩ := h
  rw [StreamState.emits_iff, StreamState.send_eq_ok.mpr ⟨response, rfl, hstatus, hmedia, rfl⟩]

/-- The items of a body, from its bytes and its end. -/
theorem items_opened : (StreamState.opened config resolvedModel structured chunks).items fromStr =
    decodeBytes fromStr (fun e => e.intoModelError config.provider config.model)
      ((StreamState.opened config resolvedModel structured chunks).ending chunks)
      (.new config.streamingLimits.maxSseEventBytes) (.new config resolvedModel structured)
      (arriving chunks) := rfl

/-- **The native stream.** Every request yields one sequence of items, whatever its chunks. If it is
opened, the items have the shape above and depend on the bytes that arrive and on how they end
only, up to `[DONE]` if it comes; otherwise they are one error. The events are within the limits of
the adapter, and up to an end they are collected. -/
theorem chat_stream (fromStr : String → Except String Json) (config : GenaiAdapterConfig)
    (resolvedModel : String) (structured : Bool) (request : Except TransportError Response) :
    ∃ items, (∀ items', StreamState.Emits fromStr (.new config resolvedModel structured request) items' ↔
        items' = items) ∧
      ((∃ error, items = [.error error]) ∧ (∀ chunks, ¬Opens request chunks) ∨
        ∃ chunks, Opens request chunks ∧
          Shape fromStr (fun e => e.intoModelError config.provider config.model)
            ((StreamState.opened config resolvedModel structured chunks).ending chunks)
            ((Framer.new config.streamingLimits.maxSseEventBytes).frames (arriving chunks))
            (.new config resolvedModel structured) items ∧
          (∀ request' chunks', Opens request' chunks' → arriving chunks' = arriving chunks →
            failure? chunks' = failure? chunks →
            StreamState.Emits fromStr (.new config resolvedModel structured request') items) ∧
          ((∀ error, .error error ∉ items) → ∀ request' chunks' more, Opens request' chunks' →
            arriving chunks' = arriving chunks ++ more →
            StreamState.Emits fromStr (.new config resolvedModel structured request') items)) ∧
      Bounded config (eventsOf items) ∧
      ∀ es, items = es.map .ok → ∀ limits, WithinLimits limits es → Compatible (usages es) →
        ∃ response, Collects fromStr limits es response := by
  by_cases hopens : ∃ chunks, Opens request chunks
  · obtain ⟨chunks, hopens⟩ := hopens
    have houtcome : Outcome fromStr (fun e => e.intoModelError config.provider config.model)
        ((StreamState.opened config resolvedModel structured chunks).ending chunks)
        ((Framer.new config.streamingLimits.maxSseEventBytes).frames (arriving chunks))
        (.new config resolvedModel structured)
        ((StreamState.opened config resolvedModel structured chunks).items fromStr) := by
      rw [items_opened]
      exact decodeBytes_outcome rfl
    obtain ⟨hshape, hbounded, hended⟩ := houtcome.shape
    refine ⟨_, fun items' => hopens.emits_iff, .inr ⟨chunks, hopens, hshape, ?_, ?_⟩, hbounded,
      fun es hes limits hlimits husage => (hended es hes).collects hlimits husage⟩
    · intro request' chunks' hopens' hbytes hfailure
      refine hopens'.emits_iff.mpr ?_
      rw [items_opened, items_opened, hbytes]
      unfold StreamState.ending
      rw [hfailure]
      rfl
    · intro hnone request' chunks' more hopens' hbytes
      refine hopens'.emits_iff.mpr ?_
      rw [items_opened] at hnone
      rw [items_opened, items_opened, hbytes]
      exact (decodeBytes_more more hnone).symm
  · push Not at hopens
    have hsend : ∃ error, (StreamState.new config resolvedModel structured request).send =
        .error error := by
      cases hs : (StreamState.new config resolvedModel structured request).send with
      | error error => exact ⟨error, rfl⟩
      | ok s =>
        obtain ⟨response, hrequest, hstatus, hmedia, -⟩ := StreamState.send_eq_ok.mp hs
        exact absurd ⟨response, hrequest, hstatus, hmedia, rfl⟩ (hopens response.chunks)
    obtain ⟨error, hsend⟩ := hsend
    refine ⟨[.error error], fun items' => ?_, .inl ⟨⟨error, rfl⟩, hopens⟩, ⟨?_, ?_⟩, fun es hes => ?_⟩
    · rw [StreamState.emits_iff, hsend]
    · exact Nat.zero_le _
    · exact Nat.zero_le _
    · cases es with
      | nil => cases hes
      | cons event es => cases hes

end Streams

end GroupAgent.Genai
