import GroupAgent.Model.Collector
import GroupAgent.Model.Facade

/-!
# Structured streams

The validating wrapper (`structured_output/stream.rs:5-61` of `crates/group-agent-model/src`)
against the complete path (`model.rs:280-295`, `validate_response`
`structured_output/mod.rs:61-101`).

* `Wrapper`: the wrapper item by item, also over a stream that has not ended.
* `validateFrom_append`: `validateFrom` is that, and what follows when the inner stream ends.
* The wrapper counts the bytes of text by itself before the collector sees them, and stops at the
  same limit as the complete path.

Results: **`structured_stream`**: the wrapper finishes exactly when the complete path would accept
the response, and otherwise yields one error and ends. Everything before is passed on as it comes,
and the terminal event never before the end.

Out of scope: whether the inner stream ends. One that does not leaves the wrapper without a
terminal event.
-/

namespace GroupAgent.Model

open GroupAgent.Lib ChatStreamCollector

/-! ## The wrapper, item by item -/

/-- The state of a wrapper that has not ended. -/
structure Wrapper where
  collector : ChatStreamCollector
  terminal : Option FinishReason
  bytes : Nat

namespace Wrapper

/-- A wrapper at its start. -/
def start : Wrapper := ⟨ChatStreamCollector.new.withMaxTextBytes MAX_TEXT, none, 0⟩

section Feeding

variable (fromStr : String → Except String Json)

/-- The text bytes past an event. -/
def count (self : Wrapper) (event : ChatStreamEvent) : Nat :=
  match self.terminal, event with
  | none, .textDelta text => self.bytes + text.utf8ByteSize
  | _, _ => self.bytes

/-- What one item of the inner stream leads to: what is yielded, and how the wrapper goes on. -/
def feed (self : Wrapper) : Except ModelError ChatStreamEvent → ChatEventStream × Option Wrapper
  | .error error => ([.error error], none)
  | .ok event =>
    if MAX_TEXT < self.count event then
      ([.error StructuredOutputError.limitExceeded.intoModelError], none)
    else
      match self.collector.push fromStr event with
      | (.error error, _) => ([.error error], none)
      | (.ok (), collector) =>
        match event with
        | .finished reason => ([], some ⟨collector, some reason, self.count event⟩)
        | event => ([.ok event], some ⟨collector, self.terminal, self.count event⟩)

/-- What the items of an inner stream lead to, before it ends. -/
def feedAll : Option Wrapper → ChatEventStream → ChatEventStream × Option Wrapper
  | none, _ => ([], none)
  | some self, [] => ([], some self)
  | some self, item :: items =>
    let fed := self.feed fromStr item
    let rest := feedAll fed.2 items
    (fed.1 ++ rest.1, rest.2)

end Feeding

end Wrapper

section Wrapping

variable {fromStr : String → Except String Json} {output : StructuredOutput}

theorem validateFrom_cons (w : Wrapper) (item : Except ModelError ChatStreamEvent)
    (items : ChatEventStream) :
    validateFrom fromStr output w.collector w.terminal w.bytes (item :: items) =
      (w.feed fromStr item).1 ++ ((w.feed fromStr item).2.elim [] fun w' =>
        validateFrom fromStr output w'.collector w'.terminal w'.bytes items) := by
  obtain ⟨collector, terminal, bytes⟩ := w
  cases item with
  | error error => rfl
  | ok event =>
    conv_lhs => unfold validateFrom
    unfold Wrapper.feed
    show (if MAX_TEXT < Wrapper.count ⟨collector, terminal, bytes⟩ event then _ else _) = _
    by_cases h : MAX_TEXT < Wrapper.count ⟨collector, terminal, bytes⟩ event
    · rw [if_pos h]
      simp only [if_pos h]
      rfl
    · rw [if_neg h]
      simp only [if_neg h]
      cases hpush : collector.push fromStr event with
      | mk result collector' =>
        cases result with
        | error error => rfl
        -- what is yielded depends on whether the event is the end
        | ok u => cases event <;> rfl

/-- A stream is validated as its items come in, and at its end. -/
theorem validateFrom_append (rest : ChatEventStream) : ∀ (items : ChatEventStream) (w : Wrapper),
    validateFrom fromStr output w.collector w.terminal w.bytes (items ++ rest) =
      (Wrapper.feedAll fromStr (some w) items).1 ++
        ((Wrapper.feedAll fromStr (some w) items).2.elim [] fun w' =>
          validateFrom fromStr output w'.collector w'.terminal w'.bytes rest)
  | [], _ => rfl
  | item :: items, w => by
    rw [List.cons_append, validateFrom_cons]
    unfold Wrapper.feedAll
    simp only
    cases hfed : (w.feed fromStr item).2 with
    | none =>
      unfold Wrapper.feedAll
      simp
    | some w' =>
      simp only [Option.elim_some]
      rw [validateFrom_append rest items w', List.append_assoc]

/-- Before the inner stream ends there is no end. -/
theorem feedAll_open : ∀ {items : ChatEventStream} {w : Option Wrapper} {event : ChatStreamEvent},
    .ok event ∈ (Wrapper.feedAll fromStr w items).1 → ¬IsTerminal event
  | items, none, event, h => by
    unfold Wrapper.feedAll at h
    cases h
  | [], some w, event, h => by cases h
  | item :: items, some w, event, h => by
    unfold Wrapper.feedAll at h
    rcases List.mem_append.mp h with h | h
    · cases item with
      | error error =>
        unfold Wrapper.feed at h
        cases List.mem_singleton.mp h
      | ok event' =>
        unfold Wrapper.feed at h
        simp only at h
        split at h
        · cases List.mem_singleton.mp h
        · split at h
          · cases List.mem_singleton.mp h
          · split at h
            · cases h
            · rename_i hne
              cases List.mem_singleton.mp h
              intro hterminal
              cases event with
              | finished reason => exact hne reason rfl
              | _ => exact hterminal
    · exact feedAll_open h

/-! ## What it comes to -/

/-- A wrapper that waits for the terminal event. -/
structure Waiting (w : Wrapper) : Prop where
  active : w.collector.state = .active
  terminal : w.terminal = none
  bytes : w.bytes = w.collector.data.text.utf8ByteSize
  limit : w.collector.limits.maxTextBytes = MAX_TEXT
  within : w.bytes ≤ MAX_TEXT

theorem waiting_start : Waiting Wrapper.start := ⟨rfl, rfl, rfl, rfl, Nat.zero_le _⟩

/-- Text is all that counts. -/
theorem Waiting.count {w : Wrapper} (h : Waiting w) {event : ChatStreamEvent}
    (hevent : ∀ text, event ≠ .textDelta text) : w.count event = w.bytes := by
  unfold Wrapper.count
  rw [h.terminal]
  cases event with
  | textDelta text => exact absurd rfl (hevent text)
  | _ => rfl

/-- A push keeps the limits. -/
theorem push_limits {collector collector' : ChatStreamCollector} {event : ChatStreamEvent}
    (h : collector.push fromStr event = (.ok (), collector')) :
    collector'.limits = collector.limits := by
  unfold ChatStreamCollector.push at h
  split at h
  · cases h
  · cases h
  · split at h
    · cases h
      rfl
    · cases h

/-- Text over the limit of the wrapper is over that of its collector. -/
theorem Waiting.over {w : Wrapper} (h : Waiting w) (fromStr : String → Except String Json)
    {event : ChatStreamEvent} (hover : MAX_TEXT < w.count event) :
    ∃ error, (w.collector.push fromStr event).1 = .error error := by
  by_cases hevent : ∀ text, event ≠ .textDelta text
  · rw [h.count hevent] at hover
    exact absurd h.within (not_le.mpr hover)
  · push Not at hevent
    obtain ⟨text, rfl⟩ := hevent
    unfold Wrapper.count at hover
    rw [h.terminal, h.bytes, ← h.limit] at hover
    unfold ChatStreamCollector.push pushActive pushText
    rw [h.active]
    simp only [hover, if_true]
    exact ⟨_, rfl⟩

/-- An accepted event is within the limit of the wrapper, which goes on waiting unless it was the
end. -/
theorem Waiting.push {w : Wrapper} (h : Waiting w) {event : ChatStreamEvent}
    {collector : ChatStreamCollector} (hpush : w.collector.push fromStr event = (.ok (), collector)) :
    w.count event ≤ MAX_TEXT ∧
      (¬IsTerminal event → Waiting ⟨collector, w.terminal, w.count event⟩) := by
  have hle : w.count event ≤ MAX_TEXT := by
    by_contra hover
    obtain ⟨error, herror⟩ := h.over fromStr (not_le.mp hover)
    rw [hpush] at herror
    cases herror
  obtain ⟨-, hp⟩ := push_eq_ok hpush
  refine ⟨hle, fun hevent => ⟨?_, h.terminal, ?_, ?_, hle⟩⟩
  · refine pushActive_active hp ?_
    rintro reason rfl
    exact hevent trivial
  · show w.count event = collector.data.text.utf8ByteSize
    by_cases htext : ∀ text, event ≠ .textDelta text
    · rw [h.count htext, h.bytes]
      exact congrArg String.utf8ByteSize (pushActive_text hp htext).symm
    · push Not at htext
      obtain ⟨text, rfl⟩ := htext
      obtain ⟨data, hdata, hnext⟩ := map_eq_ok.mp hp
      obtain rfl : data = collector.data := congrArg Prod.snd hnext
      unfold pushText at hdata
      split at hdata
      · cases hdata
      · unfold Wrapper.count
        rw [h.terminal, ← Except.ok.inj hdata, String.utf8ByteSize_append, h.bytes]
  · exact (congrArg CollectorLimits.maxTextBytes (push_limits hpush)).trans h.limit

/-- The complete path would accept what the collector collects. -/
def Accepted (fromStr : String → Except String Json) (output : StructuredOutput)
    (collector : ChatStreamCollector) (raw : ChatEventStream) : Prop :=
  ∃ response, collectWith fromStr id id id collector raw = .ok response ∧
    ∃ out, output.validateResponse response = .ok out

/-- What a wrapper yields is what came in, or a part of it and one error. -/
structure Yields (raw out : ChatEventStream) (accepted : Prop) : Prop where
  passes : accepted → out = raw ∧ ∃ (body : List ChatStreamEvent) (reason : FinishReason),
    (∀ event ∈ body, ¬IsTerminal event) ∧ out = body.map .ok ++ [.ok (.finished reason)]
  fails : ¬accepted → ∃ (body : List ChatStreamEvent) (error : ModelError),
    (∀ event ∈ body, ¬IsTerminal event) ∧ body.map .ok <+: raw ∧ out = body.map .ok ++ [.error error]

/-- One error, for what is not accepted. -/
theorem yields_error {raw : ChatEventStream} {p : Prop} (h : ¬p) (error : ModelError) :
    Yields raw [.error error] p :=
  ⟨fun hp => absurd hp h, fun _ => ⟨[], error, by simp, List.nil_prefix, rfl⟩⟩

/-- One event more, passed through. -/
theorem Yields.cons {raw out : ChatEventStream} {p : Prop} (h : Yields raw out p)
    {event : ChatStreamEvent} (hevent : ¬IsTerminal event) :
    Yields (.ok event :: raw) (.ok event :: out) p := by
  have hcons : ∀ {body : List ChatStreamEvent}, (∀ e ∈ body, ¬IsTerminal e) →
      ∀ e ∈ event :: body, ¬IsTerminal e := fun hbody e he => by
    rcases List.mem_cons.mp he with rfl | he
    · exact hevent
    · exact hbody e he
  constructor
  · intro hp
    obtain ⟨hout, body, reason, hbody, heq⟩ := h.passes hp
    exact ⟨by rw [hout], event :: body, reason, hcons hbody, by rw [heq]; rfl⟩
  · intro hp
    obtain ⟨body, error, hbody, hprefix, heq⟩ := h.fails hp
    refine ⟨event :: body, error, hcons hbody, ?_, by rw [heq]; rfl⟩
    exact List.cons_prefix_cons.mpr ⟨rfl, hprefix⟩

theorem not_accepted_error {collector : ChatStreamCollector} {error : ModelError}
    {items : ChatEventStream} : ¬Accepted fromStr output collector (.error error :: items) := by
  rintro ⟨response, h, -⟩
  exact collectWith_error h

theorem not_accepted_push {collector : ChatStreamCollector} {event : ChatStreamEvent}
    {items : ChatEventStream} {error : ModelError}
    (h : (collector.push fromStr event).1 = .error error) :
    ¬Accepted fromStr output collector (.ok event :: items) := by
  rintro ⟨response, hcollect, -⟩
  unfold collectWith at hcollect
  split at hcollect
  · cases hcollect
  · rename_i hpush
    rw [hpush] at h
    cases h

/-- An accepted event leaves it to the rest. -/
theorem accepted_cons {collector collector' : ChatStreamCollector} {event : ChatStreamEvent}
    {items : ChatEventStream} (h : collector.push fromStr event = (.ok (), collector')) :
    Accepted fromStr output collector (.ok event :: items) ↔
      Accepted fromStr output collector' items := by
  unfold Accepted
  conv_lhs => unfold collectWith
  rw [h]

/-- Past the terminal event, all depends on the end of the inner stream. -/
theorem yields_terminal {collector : ChatStreamCollector} {reason : FinishReason} {bytes : Nat}
    {raw : ChatEventStream} (hs : collector.state = .finished) :
    Yields (.ok (.finished reason) :: raw)
      (validateFrom fromStr output collector (some reason) bytes raw)
      (Accepted fromStr output collector raw) := by
  cases raw with
  | nil =>
    unfold validateFrom
    split
    · rename_i error hfinish
      refine yields_error ?_ error
      rintro ⟨response, hcollect, -⟩
      rw [mapError_eq_ok.mp hcollect] at hfinish
      cases hfinish
    · rename_i response hfinish
      have hcollect : collectWith fromStr id id id collector [] = .ok response :=
        mapError_eq_ok.mpr hfinish
      split
      · rename_i error hvalid
        refine yields_error ?_ error.intoModelError
        rintro ⟨response', hcollect', out, hout⟩
        rw [Except.ok.inj (hcollect.symm.trans hcollect'), hout] at hvalid
        cases hvalid
      · rename_i out hvalid
        refine ⟨fun _ => ⟨rfl, [], reason, by simp, rfl⟩, fun h => absurd ?_ h⟩
        exact ⟨response, hcollect, out, hvalid⟩
  | cons item raw =>
    cases item with
    | error error => exact yields_error not_accepted_error error
    | ok event =>
      have herror : collector.push fromStr event =
          (.error (protocolError (.eventAfterFinished (eventName event))), collector) := by
        unfold ChatStreamCollector.push
        rw [hs]
      have hnot : ¬Accepted fromStr output collector (.ok event :: raw) :=
        not_accepted_push (congrArg Prod.fst herror)
      unfold validateFrom
      simp only [herror]
      split <;> exact yields_error hnot _

/-- What a waiting wrapper yields. -/
theorem yields_waiting : ∀ {raw : ChatEventStream} {w : Wrapper}, Waiting w →
    Yields raw (validateFrom fromStr output w.collector w.terminal w.bytes raw)
      (Accepted fromStr output w.collector raw)
  | [], w, h => by
    have hfinish : w.collector.finish fromStr = .error (protocolError .missingFinished) := by
      unfold ChatStreamCollector.finish
      rw [h.active]
      rfl
    unfold validateFrom
    rw [hfinish]
    refine yields_error ?_ _
    rintro ⟨response, hcollect, -⟩
    rw [mapError_eq_ok.mp hcollect] at hfinish
    cases hfinish
  | .error error :: raw, w, _ => yields_error not_accepted_error error
  | .ok event :: raw, w, h => by
    rw [validateFrom_cons]
    unfold Wrapper.feed
    simp only
    cases hpush : w.collector.push fromStr event with
    | mk result collector =>
      cases result with
      | error error =>
        have hnot : ¬Accepted fromStr output w.collector (.ok event :: raw) :=
          not_accepted_push (congrArg Prod.fst hpush)
        split <;> exact yields_error hnot _
      | ok u =>
        obtain ⟨hle, hwaiting⟩ := h.push hpush
        rw [if_neg (not_lt.mpr hle), accepted_cons hpush]
        cases event with
        | finished reason =>
          obtain ⟨-, hp⟩ := push_eq_ok hpush
          obtain ⟨_, -, hnext⟩ := bind_eq_ok.mp hp
          exact yields_terminal (congrArg Prod.fst (Except.ok.inj hnext)).symm
        | responseStarted responseId model extensions =>
          exact (yields_waiting (hwaiting not_false)).cons not_false
        | textDelta text => exact (yields_waiting (hwaiting not_false)).cons not_false
        | toolCallDelta delta => exact (yields_waiting (hwaiting not_false)).cons not_false
        | usage usage => exact (yields_waiting (hwaiting not_false)).cons not_false

/-! ## The facade -/

/-- The request with an output contract. -/
def contracted (request : ChatRequest) (output : StructuredOutput) : ChatRequest :=
  { request with output := some output }

/-- A complete call with a contract returns a response exactly when the contract accepts it. -/
theorem completed_eq_ok {request : ChatRequest} {response response' : ChatResponse} :
    ChatModel.completed (contracted request output) (.ok response) = .ok response' ↔
      response' = response ∧ ∃ out, output.validateResponse response = .ok out := by
  unfold ChatModel.completed contracted
  simp only [ok_bind]
  constructor
  · intro h
    obtain ⟨out, hout, h⟩ := bind_eq_ok.mp h
    cases h
    exact ⟨rfl, out, mapError_eq_ok.mp hout⟩
  · rintro ⟨rfl, out, hout⟩
    rw [hout]
    rfl

/-- The response that a stream collects to passes the complete path. -/
def Completes (fromStr : String → Except String Json) (request : ChatRequest) (raw : ChatEventStream) :
    Prop :=
  ∃ response, collectWith fromStr id id id (ChatStreamCollector.new.withMaxTextBytes MAX_TEXT) raw =
    .ok response ∧ ChatModel.completed request (.ok response) = .ok response

/-- **Structured streaming agrees with structured completion.** The stream that comes out ends with
the terminal event exactly when the complete path would return the collected response. Then it is
the stream that went in; otherwise it is a part of it and one error. Whatever is yielded before the
inner stream has ended is not the end. -/
theorem structured_stream (fromStr : String → Except String Json) (request : ChatRequest)
    (output : StructuredOutput) (raw : ChatEventStream) :
    ∃ out, ChatModel.streamed fromStr (contracted request output) (.ok raw) = .ok out ∧
      ((∃ reason, .ok (.finished reason) ∈ out) ↔
        Completes fromStr (contracted request output) raw) ∧
      Yields raw out (Completes fromStr (contracted request output) raw) ∧
      ∀ part rest, raw = part ++ rest →
        (Wrapper.feedAll fromStr (some .start) part).1 <+: out ∧
        ∀ event, .ok event ∈ (Wrapper.feedAll fromStr (some .start) part).1 → ¬IsTerminal event := by
  refine ⟨validateStream fromStr output raw, rfl, ?_⟩
  have haccepted : Accepted fromStr output Wrapper.start.collector raw ↔
      Completes fromStr (contracted request output) raw := by
    refine exists_congr fun response => and_congr_right fun _ => ?_
    rw [completed_eq_ok]
    exact ⟨fun h => ⟨rfl, h⟩, And.right⟩
  have hyields : Yields raw (validateStream fromStr output raw)
      (Completes fromStr (contracted request output) raw) :=
    propext haccepted ▸ yields_waiting waiting_start
  refine ⟨⟨fun hend => ?_, fun hcompletes => ?_⟩, hyields, ?_⟩
  · by_contra hnot
    obtain ⟨body, error, hbody, -, hout⟩ := hyields.fails hnot
    obtain ⟨reason, hmem⟩ := hend
    rw [hout] at hmem
    rcases List.mem_append.mp hmem with hmem | hmem
    · obtain ⟨event, hevent, heq⟩ := List.mem_map.mp hmem
      cases heq
      exact hbody _ hevent trivial
    · cases List.mem_singleton.mp hmem
  · obtain ⟨-, body, reason, -, hout⟩ := hyields.passes hcompletes
    exact ⟨reason, by rw [hout]; simp⟩
  · rintro part rest rfl
    refine ⟨?_, fun event => feedAll_open⟩
    have happend : validateStream fromStr output (part ++ rest) = _ :=
      validateFrom_append rest part Wrapper.start
    exact ⟨_, happend.symm⟩

end Wrapping

end GroupAgent.Model
