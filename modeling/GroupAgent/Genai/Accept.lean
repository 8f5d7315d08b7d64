import GroupAgent.Genai.Gather

/-!
# Accepted frames

What a decoder (`decode.rs:24-37`, `push_value` 69-170 and `finish` 303-326 of
`crates/group-agent-genai/src/openai_chat`) has said after any sequence of accepted frames.

* `Accepts`: frames accepted one after the other, with the events they decode to.
* `Going`: what the events before `[DONE]` are: texts, fragments of calls, and usage.
* `Ended`: what `[DONE]` adds: the start of the response with its identity, and its finish. The
  source reads no frame after it.

Results:
* **`Accepts.going`**: the run lemma. After any accepted frames the stream goes on, or `[DONE]` was
  the last of them.
* `Accepts.reads`, `Accepts.decodes`: frames before `[DONE]` add the events of each, and nothing is
  held back.

Out of scope: what a rejected frame says. The stream ends with its error (`Stream`), and no event
of that frame is yielded.
-/

namespace GroupAgent.Genai

open GroupAgent.Lib GroupAgent.Model GroupAgent.Model.ChatStreamCollector

/-- The fragments of a frame. -/
def Frame.fragments (frame : Frame) : List Fragment := (frame.choice.map Choice.fragments).getD []

/-- The text of a frame. -/
def Frame.content (frame : Frame) : Option String := frame.choice.bind Choice.content

/-- The text of a delta as events. -/
def textEvents (content : Option String) : List ChatStreamEvent :=
  ((content.filter (· ≠ "")).map .textDelta).toList

/-- Events of a frame: its text, its fragments and its usage. -/
def FrameEvents (frame : Frame) (events : List ChatStreamEvent) : Prop :=
  ∃ deltas, Deltas deltas frame.fragments ∧
    events = textEvents frame.content ++ deltas ++ (frame.usage.map ChatStreamEvent.usage).toList

section Steps

variable {d d' : Decoder} {choice : Choice} {frame : Frame} {es : List ChatStreamEvent}
  {fragments : List Fragment}

theorem addText_eq (content : Option String) :
    d.addText content = { d with pending := d.pending ++ textEvents content } := by
  unfold Decoder.addText textEvents
  cases content.filter (· ≠ "") with
  | none => simp
  | some text => rfl

/-- What a choice does to a decoder. -/
theorem takeChoice_eq_ok : d.takeChoice choice = .ok d' ↔ d.finish = none ∧
    d.responseId.isSome ∧ d.model.isSome ∧ ∃ d₁,
      choice.fragments.foldlM Decoder.addFragment (d.addText choice.content) = .ok d₁ ∧
        d₁.takeReason choice.reason = .ok d' := by
  unfold Decoder.takeChoice
  cases d.finish with
  | some finish => simp
  | none =>
    cases d.responseId with
    | none => simp
    | some id =>
      cases d.model with
      | none => simp
      | some model => simp [bind_eq_ok]

theorem takeReason_eq_ok {reason : Option String} : d.takeReason reason = .ok d' ↔
    match reason with
    | none => d' = d
    | some reason => ∃ finish, Decoder.finishOf d.calls.entries.isEmpty reason = .ok finish ∧
      d' = { d with finish := some finish } := by
  cases reason with
  | none => exact ⟨fun h => (Except.ok.inj h).symm, fun h => congrArg Except.ok h.symm⟩
  | some reason =>
    unfold Decoder.takeReason
    rw [map_eq_ok]
    exact exists_congr fun finish => and_congr_right fun _ => eq_comm

/-- A decoder that has taken fragments, by what the calls are kept in. -/
theorem Tools.congr (h : Tools d fragments es) {es' : List ChatStreamEvent}
    (hconfig : d'.config = d.config) (hcalls : d'.calls = d.calls) (hids : d'.ids = d.ids)
    (hbytes : d'.argumentBytes = d.argumentBytes)
    (hdeltas : ∀ index, deltasAt index es' = deltasAt index es) : Tools d' fragments es' := by
  refine ⟨?_, ?_, ?_, hbytes.trans h.bytes, ?_, ?_⟩
  · rw [hcalls]
    exact h.comes
  · rw [hids, hcalls]
    exact h.ids
  · rw [hcalls]
    exact h.distinct
  · rw [hbytes, hconfig]
    exact h.limit
  · intro index
    rw [hcalls, hdeltas]
    exact h.tells index

theorem deltasAt_textEvents (index : Nat) (content : Option String) :
    deltasAt index (textEvents content) = [] := by
  unfold textEvents
  cases content.filter (· ≠ "") <;> rfl

theorem deltasAt_usage (index : Nat) (usage : Option TokenUsage) :
    deltasAt index (usage.map ChatStreamEvent.usage).toList = [] := by
  cases usage <;> rfl

/-- A frame that is taken adds its fragments and its events. -/
theorem Tools.take (h : Tools d fragments es) (htake : d.take frame = .ok d') :
    ∃ events, d'.pending = d.pending ++ events ∧ FrameEvents frame events ∧
      Tools d' (fragments ++ frame.fragments) (es ++ events) := by
  obtain ⟨responseId, model, d₁, -, -, hchoice, rfl⟩ := Decoder.take_eq_ok.mp htake
  cases hc : frame.choice with
  | none =>
    rw [hc] at hchoice
    obtain rfl : { d with responseId, model } = d₁ := by
      replace hchoice : (if d.finish.isNone then Except.error _ else Except.ok { d with responseId, model }) =
        Except.ok d₁ := hchoice
      split at hchoice
      · cases hchoice
      · exact Except.ok.inj hchoice
    have hfragments : frame.fragments = [] := by simp [Frame.fragments, hc]
    have hcontent : frame.content = none := by simp [Frame.content, hc]
    refine ⟨(frame.usage.map .usage).toList, rfl, ⟨[], hfragments ▸ .nil, ?_⟩, ?_⟩
    · rw [hcontent]
      rfl
    · rw [hfragments, List.append_nil]
      refine h.congr rfl rfl rfl rfl fun index => ?_
      rw [deltasAt_append, deltasAt_usage, List.append_nil]
  | some choice =>
    rw [hc] at hchoice
    obtain ⟨-, -, -, d₂, hfold, hreason⟩ := takeChoice_eq_ok.mp hchoice
    have hfragments : frame.fragments = choice.fragments := by simp [Frame.fragments, hc]
    have hcontent : frame.content = choice.content := by simp [Frame.content, hc]
    rw [addText_eq] at hfold
    have htext : Tools { d with responseId, model, pending := d.pending ++ textEvents choice.content }
        fragments (es ++ textEvents choice.content) := h.congr rfl rfl rfl rfl fun index => by
      rw [deltasAt_append, deltasAt_textEvents, List.append_nil]
    obtain ⟨deltas, hpending, hdeltas, htools⟩ := htext.fold hfold
    obtain ⟨finish, rfl⟩ : ∃ finish, d₁ = { d₂ with finish } := by
      cases hr : choice.reason with
      | none =>
        rw [hr] at hreason
        exact ⟨d₂.finish, takeReason_eq_ok.mp hreason⟩
      | some reason =>
        rw [hr] at hreason
        obtain ⟨finish, -, h⟩ := takeReason_eq_ok.mp hreason
        exact ⟨some finish, h⟩
    refine ⟨textEvents choice.content ++ deltas ++ (frame.usage.map .usage).toList, ?_, ⟨deltas, ?_, ?_⟩,
      ?_⟩
    · show d₂.pending ++ _ = _
      rw [hpending, List.append_assoc, List.append_assoc, List.append_assoc]
    · rw [hfragments]
      exact hdeltas
    · rw [hcontent]
    · rw [hfragments]
      refine htools.congr rfl rfl rfl rfl fun index => ?_
      rw [← List.append_assoc, ← List.append_assoc, deltasAt_append, deltasAt_usage, List.append_nil]

/-- An index that is read is below the limit. -/
theorem readTool_below {maximum : UInt32} {value : Json} {fragment : Fragment}
    (h : readTool maximum value = .ok fragment) : fragment.index < maximum.toNat := by
  unfold readTool at h
  split at h
  · rename_i index _
    simp only at h
    by_cases hindex : maximum.toNat ≤ index
    · simp [hindex] at h
    · rw [if_neg hindex] at h
      obtain ⟨kind, -, h⟩ := bind_eq_ok.mp h
      split at h
      · cases h
      · split at h
        · obtain ⟨id, -, h⟩ := bind_eq_ok.mp h
          obtain ⟨name, -, h⟩ := bind_eq_ok.mp h
          obtain ⟨arguments, -, h⟩ := bind_eq_ok.mp h
          obtain rfl := Except.ok.inj h
          exact not_le.mp hindex
        · cases h
  · cases h

theorem readTools_below {config : GenaiAdapterConfig} {delta : List (String × Json)}
    (h : readTools config delta = .ok fragments) :
    ∀ fragment ∈ fragments, fragment.index < config.streamingLimits.maxToolCalls.toNat := by
  unfold readTools at h
  split at h
  · obtain rfl := Except.ok.inj h
    simp
  · split at h
    · rename_i tools _
      by_cases hlength : config.streamingLimits.maxToolCalls.toNat < tools.length
      · simp [hlength] at h
      · rw [if_neg hlength] at h
        exact mapM_ok_forall (fun _ _ => readTool_below) h
    · cases h

theorem readChoice_below {config : GenaiAdapterConfig} {structured : Bool} {value : Json}
    (h : readChoice config structured value = .ok choice) :
    ∀ fragment ∈ choice.fragments, fragment.index < config.streamingLimits.maxToolCalls.toNat := by
  unfold readChoice at h
  by_cases hindex : (field? value "index").bind asU64? ≠ some 0
  · simp [hindex] at h
  · rw [if_neg hindex] at h
    split at h
    · obtain ⟨_, -, h⟩ := bind_eq_ok.mp h
      obtain ⟨content, -, h⟩ := bind_eq_ok.mp h
      obtain ⟨fragments, hfragments, h⟩ := bind_eq_ok.mp h
      obtain ⟨reason, -, h⟩ := bind_eq_ok.mp h
      obtain rfl := Except.ok.inj h
      exact readTools_below hfragments
    · cases h

theorem readFrame_below {config : GenaiAdapterConfig} {structured : Bool} {value : Json}
    (h : readFrame config structured value = .ok frame) :
    ∀ fragment ∈ frame.fragments, fragment.index < config.streamingLimits.maxToolCalls.toNat := by
  unfold readFrame at h
  split at h
  · obtain ⟨_, -, h⟩ := bind_eq_ok.mp h
    obtain ⟨id, -, h⟩ := bind_eq_ok.mp h
    obtain ⟨model, -, h⟩ := bind_eq_ok.mp h
    split at h
    · rename_i choices _
      by_cases hlength : 1 < choices.length
      · simp [hlength] at h
      · rw [if_neg hlength] at h
        obtain ⟨choice, hchoice, h⟩ := bind_eq_ok.mp h
        obtain ⟨usage, -, h⟩ := bind_eq_ok.mp h
        obtain rfl := Except.ok.inj h
        unfold readChoices at hchoice
        split at hchoice
        · obtain ⟨c, hc, rfl⟩ := map_eq_ok.mp hchoice
          exact readChoice_below hc
        · obtain rfl := Except.ok.inj hchoice
          simp [Frame.fragments]
    · cases h
  · cases h

/-- What `[DONE]` does to a decoder. -/
theorem finishStream_eq_ok {fromStr : String → Except String Json} :
    d.finishStream fromStr = .ok d' ↔ ∃ reason raw extensions, d.finish = some (reason, raw) ∧
      (∀ entry ∈ d.calls.entries, ∃ arguments, fromStr entry.2.arguments = .ok arguments) ∧
      Decoder.responseExtensions d.resolvedModel raw = .ok extensions ∧
      d' = { d with
        finish := none
        pending := d.pending ++ [.responseStarted d.responseId d.model extensions, .finished reason]
        responseId := none
        model := none
        calls := .empty
        ids := []
        done := true } := by
  unfold Decoder.finishStream
  cases d.finish with
  | none => simp
  | some finish =>
    obtain ⟨reason, raw⟩ := finish
    have hcheck : (d.calls.entries.forM fun entry => do
        let _ ← (fromStr entry.2.arguments).mapError
          GenaiMappingError.invalidAccumulatedToolArguments) = .ok () ↔
        ∀ entry ∈ d.calls.entries, ∃ arguments, fromStr entry.2.arguments = .ok arguments := by
      rw [forM_eq_ok]
      refine forall_congr' fun entry => forall_congr' fun _ => ?_
      cases fromStr entry.2.arguments with
      | ok arguments => exact ⟨fun _ => ⟨arguments, rfl⟩, fun _ => rfl⟩
      | error error => exact ⟨fun h => (by cases h), fun ⟨_, h⟩ => (by cases h)⟩
    constructor
    · intro h
      obtain ⟨u, hall, h⟩ := bind_eq_ok.mp h
      obtain ⟨extensions, hext, h⟩ := bind_eq_ok.mp h
      exact ⟨reason, raw, extensions, rfl, hcheck.mp hall, hext, (Except.ok.inj h).symm⟩
    · rintro ⟨reason', raw', extensions, heq, hall, hext, rfl⟩
      obtain ⟨rfl, rfl⟩ := Prod.mk.inj (Option.some.inj heq)
      exact bind_eq_ok.mpr ⟨(), hcheck.mpr hall, bind_eq_ok.mpr ⟨extensions, hext, rfl⟩⟩

end Steps

/-! ## Runs -/

/-- Frames accepted one after the other, with the events they decode to. -/
inductive Accepts (fromStr : String → Except String Json) :
    Decoder → List String → List ChatStreamEvent → Decoder → Prop
  | nil (d : Decoder) : Accepts fromStr d [] [] d
  | cons {d d₁ d' : Decoder} {data : String} {frames : List String} {es : List ChatStreamEvent} :
      d.done = false → d.push fromStr data = .ok d₁ →
      Accepts fromStr { d₁ with pending := [] } frames es d' →
      Accepts fromStr d (data :: frames) (d₁.pending ++ es) d'

/-- What frames before `[DONE]` decode to: the events of each in its place, and with the first
fragment of a call, and no other, the identifier and the name of the call. -/
def Decodes (fromStr : String → Except String Json) (config : GenaiAdapterConfig)
    (structured : Bool) (datas : List String) (es : List ChatStreamEvent) : Prop :=
  ∃ (frames : List Frame) (parts : List (List ChatStreamEvent)),
    List.Forall₂ (fun data frame => data ≠ "[DONE]" ∧ ∃ value, fromStr data = .ok value ∧
      readFrame config structured value = .ok frame) datas frames ∧
    List.Forall₂ FrameEvents frames parts ∧ es = parts.flatten ∧
    ∀ index, ∃ call, Comes (atIndex index (frames.flatMap Frame.fragments)) call ∧
      Tells (deltasAt index es) call

/-- What events before the last two say. -/
structure Body (config : GenaiAdapterConfig) (calls : SortedMap Nat Call)
    (es : List ChatStreamEvent) : Prop where
  below : ∀ delta, .toolCallDelta delta ∈ es →
    delta.index < config.streamingLimits.maxToolCalls.toNat
  bytes : (es.map argumentSize).sum ≤ config.streamingLimits.maxToolArgumentBytes
  tells : ∀ index, Tells (deltasAt index es) (calls.get? index)
  distinct : ∀ i j c c', calls.get? i = some c → calls.get? j = some c' → c.id.value = c'.id.value → i = j
  starts : starts es = []
  reasons : reasons es = []

/-- A decoder before `[DONE]`, and the events it gave. -/
structure Going (config : GenaiAdapterConfig) (d : Decoder) (es : List ChatStreamEvent) : Prop where
  configured : d.config = config
  pending : d.pending = []
  running : d.done = false
  tools : ∃ fragments, Tools d fragments es ∧ (es.map argumentSize).sum = argumentBytes fragments
  below : ∀ delta, .toolCallDelta delta ∈ es →
    delta.index < config.streamingLimits.maxToolCalls.toNat
  finish : ∀ f ∈ d.finish, Decoder.finishOf d.calls.entries.isEmpty f.2 = .ok f
  starts : starts es = []
  reasons : reasons es = []

/-- All the events of a stream that ended with `[DONE]`. -/
def Ended (fromStr : String → Except String Json) (config : GenaiAdapterConfig)
    (es : List ChatStreamEvent) : Prop :=
  ∃ body calls id model extensions reason raw,
    es = body ++ [.responseStarted id model extensions, .finished reason] ∧
      Body config calls body ∧
      (∀ entry ∈ calls.entries, ∃ arguments, fromStr entry.2.arguments = .ok arguments) ∧
      Decoder.finishOf calls.entries.isEmpty raw = .ok (reason, raw)

section Runs

variable {fromStr : String → Except String Json} {config : GenaiAdapterConfig} {d d₁ d' : Decoder}
  {data : String} {frames : List String} {es events prior : List ChatStreamEvent} {frame : Frame}

theorem Going.body (h : Going config d es) : Body config d.calls es := by
  obtain ⟨fragments, htools, hbytes⟩ := h.tools
  refine ⟨h.below, ?_, htools.tells, htools.distinct, h.starts, h.reasons⟩
  rw [hbytes, ← htools.bytes, ← h.configured]
  exact htools.limit

theorem push_eq_ok (hdata : data ≠ "[DONE]") : d.push fromStr data = .ok d' ↔ ∃ value frame,
    fromStr data = .ok value ∧ readFrame d.config d.structured value = .ok frame ∧
      d.take frame = .ok d' := by
  unfold Decoder.push
  rw [if_neg hdata, bind_eq_ok]
  constructor
  · rintro ⟨value, hvalue, h⟩
    obtain ⟨frame, hread, htake⟩ := Decoder.pushValue_eq_ok.mp h
    exact ⟨value, frame, mapError_eq_ok.mp hvalue, hread, htake⟩
  · rintro ⟨value, frame, hvalue, hread, htake⟩
    exact ⟨value, mapError_eq_ok.mpr hvalue, Decoder.pushValue_eq_ok.mpr ⟨frame, hread, htake⟩⟩

/-- A frame that is taken leaves the configuration and does not end the stream. -/
theorem take_keeps (h : d.take frame = .ok d') : d'.config = d.config ∧ d'.structured = d.structured ∧
    d'.done = d.done ∧ d'.resolvedModel = d.resolvedModel := by
  obtain ⟨responseId, model, d₁, -, -, hchoice, rfl⟩ := Decoder.take_eq_ok.mp h
  cases hc : frame.choice with
  | none =>
    rw [hc] at hchoice
    replace hchoice : (if d.finish.isNone then Except.error _ else Except.ok { d with responseId, model }) =
      Except.ok d₁ := hchoice
    split at hchoice
    · cases hchoice
    · obtain rfl := Except.ok.inj hchoice
      exact ⟨rfl, rfl, rfl, rfl⟩
  | some choice =>
    rw [hc] at hchoice
    obtain ⟨d₂, finish, hkeeps, rfl⟩ := Decoder.takeChoice_keeps hchoice
    exact ⟨hkeeps.config, hkeeps.structured, hkeeps.done, hkeeps.resolvedModel⟩

theorem starts_append : starts (es ++ events) = starts es ++ starts events := List.filterMap_append ..

theorem reasons_append : reasons (es ++ events) = reasons es ++ reasons events :=
  List.filterMap_append ..

/-- The parts of a frame's events. -/
theorem FrameEvents.parts (h : FrameEvents frame events) : starts events = [] ∧ reasons events = [] ∧
    (events.map argumentSize).sum = argumentBytes frame.fragments ∧
    ∀ delta, .toolCallDelta delta ∈ events → ∃ fragment ∈ frame.fragments,
      delta.index = fragment.index := by
  obtain ⟨deltas, hdeltas, rfl⟩ := h
  have htext : ∀ event ∈ textEvents frame.content, ∃ text, event = .textDelta text := by
    intro event hevent
    unfold textEvents at hevent
    rw [Option.mem_toList, Option.map_eq_some_iff] at hevent
    obtain ⟨text, -, rfl⟩ := hevent
    exact ⟨text, rfl⟩
  have husage : ∀ event ∈ (frame.usage.map ChatStreamEvent.usage).toList,
      ∃ usage, event = .usage usage := by
    intro event hevent
    rw [Option.mem_toList, Option.map_eq_some_iff] at hevent
    obtain ⟨usage, -, rfl⟩ := hevent
    exact ⟨usage, rfl⟩
  have hall : ∀ event ∈ textEvents frame.content ++ deltas ++
      (frame.usage.map ChatStreamEvent.usage).toList, start? event = none ∧ reason? event = none := by
    intro event hevent
    rcases List.mem_append.mp hevent with hevent | hevent
    · rcases List.mem_append.mp hevent with hevent | hevent
      · obtain ⟨text, rfl⟩ := htext event hevent
        exact ⟨rfl, rfl⟩
      · obtain ⟨delta, rfl, -⟩ := hdeltas.calls event hevent
        exact ⟨rfl, rfl⟩
    · obtain ⟨usage, rfl⟩ := husage event hevent
      exact ⟨rfl, rfl⟩
  refine ⟨?_, ?_, ?_, fun delta hdelta => ?_⟩
  · exact List.filterMap_eq_nil_iff.mpr fun event hevent => (hall event hevent).1
  · exact List.filterMap_eq_nil_iff.mpr fun event hevent => (hall event hevent).2
  · have hzero : ((textEvents frame.content).map argumentSize).sum = 0 := by
      unfold textEvents
      cases frame.content.filter (· ≠ "") <;> rfl
    have hzero' : ((frame.usage.map ChatStreamEvent.usage).toList.map argumentSize).sum = 0 := by
      cases frame.usage <;> rfl
    rw [List.map_append, List.map_append, List.sum_append, List.sum_append, hdeltas.bytes, hzero,
      hzero', Nat.zero_add, Nat.add_zero]
  · rcases List.mem_append.mp hdelta with hdelta | hdelta
    · rcases List.mem_append.mp hdelta with hdelta | hdelta
      · obtain ⟨text, htext⟩ := htext _ hdelta
        cases htext
      · obtain ⟨delta', heq, hfragment⟩ := hdeltas.calls _ hdelta
        cases heq
        exact hfragment
    · obtain ⟨usage, husage⟩ := husage _ hdelta
      cases husage

/-- The word of a finish reason is the one that was read. -/
theorem finishOf_raw {noCalls : Bool} {reason : String} {finish : FinishReason × String}
    (h : Decoder.finishOf noCalls reason = .ok finish) : finish.2 = reason := by
  unfold Decoder.finishOf at h
  split at h
  · rename_i hstop
    obtain rfl := Except.ok.inj h
    exact hstop.1.symm
  · split at h
    · rename_i hlength
      obtain rfl := Except.ok.inj h
      exact hlength.1.symm
    · split at h
      · rename_i hfilter
        obtain rfl := Except.ok.inj h
        exact hfilter.1.symm
      · split at h
        · rename_i hcalls
          obtain rfl := Except.ok.inj h
          exact hcalls.1.symm
        · cases h

/-- A frame keeps that the finish goes with the calls. -/
theorem take_finish (h : ∀ f ∈ d.finish, Decoder.finishOf d.calls.entries.isEmpty f.2 = .ok f)
    (htake : d.take frame = .ok d') :
    ∀ f ∈ d'.finish, Decoder.finishOf d'.calls.entries.isEmpty f.2 = .ok f := by
  obtain ⟨responseId, model, d₁, -, -, hchoice, rfl⟩ := Decoder.take_eq_ok.mp htake
  cases hc : frame.choice with
  | none =>
    rw [hc] at hchoice
    replace hchoice : (if d.finish.isNone then Except.error _ else
      Except.ok { d with responseId, model }) = Except.ok d₁ := hchoice
    split at hchoice
    · cases hchoice
    · obtain rfl := Except.ok.inj hchoice
      exact h
  | some choice =>
    rw [hc] at hchoice
    obtain ⟨hrunning, -, -, d₂, hfold, hreason⟩ := takeChoice_eq_ok.mp hchoice
    rw [addText_eq] at hfold
    have hkeeps := Decoder.addFragments_keeps hfold
    cases hr : choice.reason with
    | none =>
      rw [hr] at hreason
      obtain rfl : d₁ = d₂ := takeReason_eq_ok.mp hreason
      intro f hf
      rw [show d₁.finish = none from hkeeps.finish.trans hrunning] at hf
      cases hf
    | some reason =>
      rw [hr] at hreason
      obtain ⟨finish, hfinish, rfl⟩ := takeReason_eq_ok.mp hreason
      intro f hf
      obtain rfl := Option.some.inj hf
      rw [finishOf_raw hfinish]
      exact hfinish

/-- One frame before `[DONE]`. -/
theorem Going.take {value : Json} (h : Going config d es)
    (hread : readFrame d.config d.structured value = .ok frame) (htake : d.take frame = .ok d₁) :
    Going config { d₁ with pending := [] } (es ++ d₁.pending) := by
  obtain ⟨fragments, htools, hbytes⟩ := h.tools
  obtain ⟨events, hpending, hevents, htools'⟩ := htools.take htake
  obtain ⟨hconfig, -, hdone, -⟩ := take_keeps htake
  obtain ⟨hstarts, hreasons, hsizes, hindices⟩ := hevents.parts
  rw [h.pending, List.nil_append] at hpending
  rw [hpending]
  refine ⟨hconfig.trans h.configured, rfl, hdone.trans h.running, ⟨_, htools'.congr rfl rfl rfl rfl
    fun _ => rfl, ?_⟩, fun delta hdelta => ?_, fun f hf => take_finish h.finish htake f hf, ?_, ?_⟩
  · rw [List.map_append, List.sum_append, hbytes, hsizes, argumentBytes_append]
  · rcases List.mem_append.mp hdelta with hdelta | hdelta
    · exact h.below delta hdelta
    · obtain ⟨fragment, hfragment, hindex⟩ := hindices delta hdelta
      rw [hindex, ← h.configured]
      exact readFrame_below hread fragment hfragment
  · rw [starts_append, h.starts, hstarts]
    rfl
  · rw [reasons_append, h.reasons, hreasons]
    rfl

/-- The `[DONE]` frame. -/
theorem Going.done (h : Going config d es) (hpush : d.finishStream fromStr = .ok d₁) :
    d₁.done = true ∧ Ended fromStr config (es ++ d₁.pending) := by
  obtain ⟨reason, raw, extensions, hfinish, hall, -, rfl⟩ := finishStream_eq_ok.mp hpush
  refine ⟨rfl, es, d.calls, d.responseId, d.model, extensions, reason, raw, ?_, h.body, hall,
    h.finish (reason, raw) hfinish⟩
  rw [h.pending]
  rfl

/-- **After any accepted frames**: the stream goes on, or `[DONE]` was the last of them. -/
theorem Accepts.going (h : Accepts fromStr d frames es d') : ∀ {prior : List ChatStreamEvent},
    Going config d prior →
      ("[DONE]" ∉ frames ∧ Going config d' (prior ++ es)) ∨
      ∃ front, frames = front ++ ["[DONE]"] ∧ "[DONE]" ∉ front ∧ d'.done = true ∧
        Ended fromStr config (prior ++ es) := by
  induction h with
  | nil d =>
    intro prior hgoing
    rw [List.append_nil]
    exact .inl ⟨by simp, hgoing⟩
  | @cons d d₁ d' data frames es hrunning hpush hrest ih =>
    intro prior hgoing
    by_cases hdata : data = "[DONE]"
    · subst hdata
      obtain ⟨hdone, hended⟩ := hgoing.done hpush
      -- nothing is accepted after `[DONE]`
      cases hrest with
      | nil =>
        rw [List.append_nil]
        exact .inr ⟨[], rfl, by simp, hdone, hended⟩
      | cons hrunning' _ _ => exact absurd (hdone.symm.trans hrunning') (by decide)
    · obtain ⟨value, frame, -, hread, htake⟩ := (push_eq_ok hdata).mp hpush
      rw [← List.append_assoc]
      rcases ih (hgoing.take hread htake) with ⟨hnot, hgoing'⟩ | ⟨front, rfl, hnot, hdone, hended⟩
      · exact .inl ⟨by simp [hnot, Ne.symm hdata], hgoing'⟩
      · exact .inr ⟨data :: front, rfl, by simp [hnot, Ne.symm hdata], hdone, hended⟩

/-- **Frames before `[DONE]`** add the events of each. -/
theorem Accepts.reads {datas : List String} (h : Accepts fromStr d datas es d')
    (hdatas : "[DONE]" ∉ datas) : ∀ {fragments : List Fragment} {prior : List ChatStreamEvent},
      d.pending = [] → Tools d fragments prior →
        ∃ (frames : List Frame) (parts : List (List ChatStreamEvent)),
          List.Forall₂ (fun data frame => data ≠ "[DONE]" ∧ ∃ value, fromStr data = .ok value ∧
            readFrame d.config d.structured value = .ok frame) datas frames ∧
          List.Forall₂ FrameEvents frames parts ∧ es = parts.flatten ∧
          Tools d' (fragments ++ frames.flatMap Frame.fragments) (prior ++ es) := by
  induction h with
  | nil d =>
    intro fragments prior _ htools
    refine ⟨[], [], .nil, .nil, rfl, ?_⟩
    rw [List.flatMap_nil, List.append_nil, List.append_nil]
    exact htools
  | @cons d d₁ d' data datas es _ hpush _ ih =>
    intro fragments prior hpending htools
    obtain ⟨hdata, hdatas⟩ := List.ne_and_not_mem_of_not_mem_cons hdatas
    obtain ⟨value, frame, hvalue, hread, htake⟩ := (push_eq_ok (Ne.symm hdata)).mp hpush
    obtain ⟨events, hevents, hframe, htools'⟩ := htools.take htake
    obtain ⟨hconfig, hstructured, -, -⟩ := take_keeps htake
    rw [hpending, List.nil_append] at hevents
    have hnext : Tools { d₁ with pending := [] } (fragments ++ frame.fragments) (prior ++ events) :=
      htools'.congr rfl rfl rfl rfl fun _ => rfl
    obtain ⟨frames, parts, hframes, hparts, rfl, hrest⟩ := ih hdatas rfl hnext
    rw [hconfig, hstructured] at hframes
    refine ⟨frame :: frames, events :: parts, .cons ⟨Ne.symm hdata, value, hvalue, hread⟩ hframes,
      .cons hframe hparts, ?_, ?_⟩
    · rw [hevents, List.flatten_cons]
    · rw [hevents, List.flatMap_cons, ← List.append_assoc, ← List.append_assoc]
      exact hrest

/-- `[DONE]` adds two events. -/
theorem Accepts.split {front : List String} (h : Accepts fromStr d (front ++ ["[DONE]"]) es d')
    (hpending : d.pending = []) : ∃ body d₁ id model extensions reason,
      Accepts fromStr d front body d₁ ∧
        es = body ++ [.responseStarted id model extensions, .finished reason] := by
  induction front generalizing d es with
  | nil =>
    cases h with
    | cons _ hpush hrest =>
      cases hrest
      have hfinish : d.finishStream fromStr = .ok _ := hpush
      obtain ⟨reason, raw, extensions, -, -, -, rfl⟩ := finishStream_eq_ok.mp hfinish
      refine ⟨[], d, d.responseId, d.model, extensions, reason, .nil d, ?_⟩
      rw [hpending, List.append_nil]
  | cons data front ih =>
    cases h with
    | cons hrunning hpush hrest =>
      obtain ⟨body, d₁, id, model, extensions, reason, haccepts, rfl⟩ := ih hrest rfl
      exact ⟨_, d₁, id, model, extensions, reason, .cons hrunning hpush haccepts,
        (List.append_assoc _ _ _).symm⟩

theorem tools_new (config : GenaiAdapterConfig) (resolvedModel : String) (structured : Bool) :
    Tools (.new config resolvedModel structured) [] [] := by
  refine ⟨fun _ => rfl, fun text => ⟨fun h => (by cases h), ?_⟩, fun i j c c' h => (by cases h), rfl,
    Nat.zero_le _, fun _ => rfl⟩
  rintro ⟨_, _, h, -⟩
  cases h

theorem going_new (config : GenaiAdapterConfig) (resolvedModel : String) (structured : Bool) :
    Going config (.new config resolvedModel structured) [] :=
  ⟨rfl, rfl, rfl, ⟨[], tools_new config resolvedModel structured, rfl⟩, by simp,
    fun f hf => (by cases hf), rfl, rfl⟩

/-- **What the frames of a new decoder decode to**, before `[DONE]`. -/
theorem Accepts.decodes {resolvedModel : String} {structured : Bool} {datas : List String}
    (h : Accepts fromStr (.new config resolvedModel structured) datas es d')
    (hdatas : "[DONE]" ∉ datas) : Decodes fromStr config structured datas es := by
  obtain ⟨frames, parts, hframes, hparts, hes, htools⟩ :=
    h.reads hdatas rfl (tools_new config resolvedModel structured)
  rw [List.nil_append, List.nil_append] at htools
  exact ⟨frames, parts, hframes, hparts, hes, fun index => ⟨_, htools.comes index, htools.tells index⟩⟩

end Runs

end GroupAgent.Genai
