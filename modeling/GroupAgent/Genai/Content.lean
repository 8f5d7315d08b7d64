import GroupAgent.Genai.Accept

/-!
# What a run of frames says

The content of a response, whatever the frames it comes in (`decode.rs:24-37` of
`crates/group-agent-genai/src/openai_chat`).

* `Takes`, `Finishes`: frames are taken one after the other, then the stream is finished (303-326).
* `Speaks`: frames that say a content: choices, the last with the finish reason, and the usage.
* `Admits`: the content is one that a decoder accepts. `Emits`: events that say it.
* `SameCalls`: fragments that come to the same calls.
* `Responds`: a content comes to a response, by the collector of `crates/group-agent-model`.

Results:
* **`Speaks.finishes`**, **`Speaks.admitted`**: frames are accepted by their content.
* **`same_content`**: events that recount the same content say the same.
* **`Speaks.responds_iff`**: so frames come to the response of their content, however they cut it.

Two runs of frames that say one content may differ in every event. What they have in common is what
a collector makes of them.
-/

namespace GroupAgent.Genai

open GroupAgent.Lib GroupAgent.Model GroupAgent.Model.ChatStreamCollector

/-- Frames taken one after the other, with the events they give. -/
inductive Takes : Decoder → List Frame → List ChatStreamEvent → Decoder → Prop
  | nil (d : Decoder) : Takes d [] [] d
  | cons {d d₁ d' : Decoder} {frame : Frame} {frames : List Frame} {es : List ChatStreamEvent} :
      d.take frame = .ok d₁ → Takes { d₁ with pending := [] } frames es d' →
      Takes d (frame :: frames) (d₁.pending ++ es) d'

/-- Frames are taken and the stream is finished, with all its events. -/
def Finishes (fromStr : String → Except String Json) (d : Decoder) (frames : List Frame)
    (es : List ChatStreamEvent) : Prop :=
  ∃ front d₁ d₂, Takes d frames front d₁ ∧ d₁.finishStream fromStr = .ok d₂ ∧ es = front ++ d₂.pending

/-- Frames that say a content: choices up to one with the reason, and the usage with it or after it. -/
inductive Speaks (id : Option ResponseId) (model : Option ModelId) (reason : Option String)
    (usage : Option TokenUsage) : List Frame → String → List Fragment → Prop
  | last (choice : Choice) : choice.reason = reason →
      Speaks id model reason usage [⟨id, model, some choice, usage⟩] (choice.content.getD "")
        choice.fragments
  | tail (choice : Choice) : choice.reason = reason →
      Speaks id model reason usage [⟨id, model, some choice, none⟩, ⟨id, model, none, usage⟩]
        (choice.content.getD "") choice.fragments
  | more (choice : Choice) {frames : List Frame} {text : String} {fragments : List Fragment} :
      choice.reason = none → Speaks id model reason usage frames text fragments →
      Speaks id model reason usage (⟨id, model, some choice, none⟩ :: frames)
        (choice.content.getD "" ++ text) (choice.fragments ++ fragments)

/-- The finish of a decoder goes with its reason and its calls. -/
def FinishedBy (noCalls : Bool) (reason : Option String) (finish : Option (FinishReason × String)) :
    Prop :=
  match reason with
  | none => finish = none
  | some text => ∃ f, Decoder.finishOf noCalls text = .ok f ∧ finish = some f

/-- A decoder that has taken the frames of one response, and the events it gave. -/
structure Told (config : GenaiAdapterConfig) (resolvedModel : String) (id : Option ResponseId)
    (model : Option ModelId) (reason : Option String) (usage : Option TokenUsage) (d : Decoder)
    (text : String) (fragments : List Fragment) (es : List ChatStreamEvent) : Prop where
  configured : d.config = config
  resolved : d.resolvedModel = resolvedModel
  tools : Tools d fragments es
  pending : d.pending = []
  finish : FinishedBy fragments.isEmpty reason d.finish
  text : textOf es = text
  usages : usages es = usage.toList
  starts : starts es = []
  reasons : reasons es = []

/-- The identities of a response are in its first frame. -/
def Identified (id : Option ResponseId) (model : Option ModelId) (d : Decoder) : Prop :=
  d.responseId = id ∧ d.model = model

/-- A decoder may take a frame with these identities. -/
def SameIdentity (id : Option ResponseId) (model : Option ModelId) (d : Decoder) : Prop :=
  (d.responseId = none ∨ d.responseId = id) ∧ (d.model = none ∨ d.model = model)

section Running

variable {config : GenaiAdapterConfig} {resolvedModel : String} {id : Option ResponseId}
  {model : Option ModelId} {reason : Option String} {usage usage' : Option TokenUsage}
  {d d' : Decoder} {choice : Choice} {frame : Frame} {fragments rest : List Fragment}
  {es events : List ChatStreamEvent} {frames : List Frame} {text text' : String}

/-- An identity that does not change is kept. -/
theorem keep_same {α : Type} [DecidableEq α] {old new : Option α} {field : String}
    (h : old = none ∨ old = new) : Decoder.keep old new field = .ok new := by
  have hor : new.or old = new := by
    rcases h with rfl | rfl
    · exact Option.or_none
    · cases old <;> rfl
  refine Decoder.keep_eq_ok.mpr ⟨?_, hor.symm⟩
  intro a ha b hb
  rcases h with rfl | rfl
  · cases hb
  · exact Option.mem_unique hb ha

/-- No call is there before the first fragment. -/
theorem Tools.isEmpty (h : Tools d fragments es) : d.calls.entries.isEmpty = fragments.isEmpty := by
  cases fragments with
  | nil =>
    cases hentries : d.calls.entries with
    | nil => rfl
    | cons entry entries =>
      have hget : d.calls.get? entry.1 = some entry.2 :=
        SortedMap.mem_entries.mp (hentries ▸ List.mem_cons_self)
      have hcomes := h.comes entry.1
      rw [hget] at hcomes
      obtain ⟨⟨first, hfirst, -⟩, -, -⟩ := hcomes
      cases hfirst
  | cons fragment fragments =>
    have hcomes := h.comes fragment.index
    cases hentries : d.calls.entries with
    | nil =>
      have hget : d.calls.get? fragment.index = none := by
        show d.calls.entries.lookup fragment.index = none
        rw [hentries]
        rfl
      rw [hget] at hcomes
      have hmem : fragment ∈ atIndex fragment.index (fragment :: fragments) :=
        mem_atIndex.mpr ⟨List.mem_cons_self, rfl⟩
      rw [show atIndex fragment.index (fragment :: fragments) = [] from hcomes] at hmem
      cases hmem
    | cons entry entries => rfl

theorem Identified.same (h : Identified id model d) : SameIdentity id model d := ⟨.inr h.1, .inr h.2⟩

theorem textOf_append : textOf (es ++ events) = textOf es ++ textOf events := by
  unfold textOf
  rw [List.filterMap_append, concat_append]

theorem usages_append : usages (es ++ events) = usages es ++ usages events := List.filterMap_append ..

/-- The text and the usage of a frame's events. -/
theorem FrameEvents.said (h : FrameEvents frame events) :
    textOf events = frame.content.getD "" ∧ usages events = frame.usage.toList := by
  obtain ⟨deltas, hdeltas, rfl⟩ := h
  have hnone : ∀ event ∈ deltas, text? event = none ∧ usage? event = none := by
    intro event hevent
    obtain ⟨delta, rfl, -⟩ := hdeltas.calls event hevent
    exact ⟨rfl, rfl⟩
  have htext : textOf deltas = "" := by
    unfold textOf
    rw [List.filterMap_eq_nil_iff.mpr fun event hevent => (hnone event hevent).1]
    rfl
  have husage : usages deltas = [] :=
    List.filterMap_eq_nil_iff.mpr fun event hevent => (hnone event hevent).2
  constructor
  · rw [textOf_append, textOf_append, htext]
    have hlast : textOf (frame.usage.map ChatStreamEvent.usage).toList = "" := by
      cases frame.usage <;> rfl
    rw [hlast, String.append_empty, String.append_empty]
    unfold textEvents
    cases frame.content with
    | none => rfl
    | some content =>
      by_cases hempty : content = ""
      · subst hempty
        rfl
      · rw [Option.filter_some, if_pos (decide_eq_true hempty)]
        simp [textOf, text?, concat]
  · rw [usages_append, usages_append, husage, List.append_nil]
    have hfirst : usages (textEvents frame.content) = [] := by
      unfold textEvents
      cases frame.content.filter (· ≠ "") <;> rfl
    rw [hfirst]
    cases frame.usage <;> rfl

/-- One choice of a response is taken. -/
theorem take_choice_iff (hsame : SameIdentity id model d) (hrunning : d.finish = none) :
    d.take ⟨id, model, some choice, usage⟩ = .ok d' ↔ id.isSome ∧ model.isSome ∧ ∃ d₁ d₂,
      choice.fragments.foldlM Decoder.addFragment
        { d with responseId := id, model, pending := d.pending ++ textEvents choice.content } =
          .ok d₁ ∧
      d₁.takeReason choice.reason = .ok d₂ ∧
      d' = { d₂ with pending := d₂.pending ++ (usage.map .usage).toList } := by
  rw [Decoder.take_eq_ok]
  constructor
  · rintro ⟨responseId, model', d₂, hid, hmodel, hchoice, rfl⟩
    obtain rfl := Except.ok.inj ((keep_same hsame.1).symm.trans hid)
    obtain rfl := Except.ok.inj ((keep_same hsame.2).symm.trans hmodel)
    obtain ⟨-, hid', hmodel', d₁, hfold, hreason⟩ := takeChoice_eq_ok.mp hchoice
    rw [addText_eq] at hfold
    exact ⟨hid', hmodel', d₁, d₂, hfold, hreason, rfl⟩
  · rintro ⟨hid, hmodel, d₁, d₂, hfold, hreason, rfl⟩
    refine ⟨id, model, d₂, keep_same hsame.1, keep_same hsame.2, ?_, rfl⟩
    refine takeChoice_eq_ok.mpr ⟨hrunning, hid, hmodel, d₁, ?_, hreason⟩
    rw [addText_eq]
    exact hfold

/-- A choice adds to what has been told. -/
theorem Told.take (h : Told config resolvedModel id model none none d text fragments es)
    (hsame : SameIdentity id model d) (htake : d.take ⟨id, model, some choice, usage⟩ = .ok d') :
    Told config resolvedModel id model choice.reason usage { d' with pending := [] }
        (text ++ choice.content.getD "") (fragments ++ choice.fragments) (es ++ d'.pending) ∧
      Identified id model d' ∧ id.isSome ∧ model.isSome := by
  obtain ⟨events, hpending, hevents, htools⟩ := h.tools.take htake
  obtain ⟨hconfig, -, -, hresolved⟩ := take_keeps htake
  obtain ⟨hstarts, hreasons, -, -⟩ := hevents.parts
  obtain ⟨htext, husages⟩ := hevents.said
  rw [h.pending, List.nil_append] at hpending
  rw [hpending]
  obtain ⟨hid, hmodel, d₁, d₂, hfold, hreason, rfl⟩ := (take_choice_iff hsame h.finish).mp htake
  have hkeeps := Decoder.addFragments_keeps hfold
  have hempty : d₁.calls.entries.isEmpty = (fragments ++ choice.fragments).isEmpty := by
    have hall := htools.isEmpty
    replace hall : d₂.calls.entries.isEmpty = (fragments ++ choice.fragments).isEmpty := hall
    rw [← hall]
    cases hr : choice.reason with
    | none =>
      rw [hr] at hreason
      rw [show d₂ = d₁ from takeReason_eq_ok.mp hreason]
    | some reason =>
      rw [hr] at hreason
      obtain ⟨finish, -, rfl⟩ := takeReason_eq_ok.mp hreason
      rfl
  have hfinish : FinishedBy (fragments ++ choice.fragments).isEmpty choice.reason d₂.finish ∧
      d₂.responseId = id ∧ d₂.model = model := by
    rw [← hempty]
    cases hr : choice.reason with
    | none =>
      rw [hr] at hreason
      obtain rfl : d₂ = d₁ := takeReason_eq_ok.mp hreason
      exact ⟨hkeeps.finish.trans h.finish, hkeeps.responseId, hkeeps.model⟩
    | some reason =>
      rw [hr] at hreason
      obtain ⟨finish, hfinish, rfl⟩ := takeReason_eq_ok.mp hreason
      exact ⟨⟨finish, hfinish, rfl⟩, hkeeps.responseId, hkeeps.model⟩
  refine ⟨⟨hconfig.trans h.configured, hresolved.trans h.resolved,
    htools.congr rfl rfl rfl rfl fun _ => rfl, rfl, hfinish.1, ?_, ?_, ?_, ?_⟩, hfinish.2, hid, hmodel⟩
  · rw [textOf_append, h.text, htext]
    rfl
  · rw [usages_append, h.usages, husages]
    rfl
  · rw [starts_append, h.starts, hstarts]
    rfl
  · rw [reasons_append, h.reasons, hreasons]
    rfl

/-- The usage after the last choice. -/
theorem Told.tail (h : Told config resolvedModel id model reason none d text fragments es)
    (hsame : SameIdentity id model d) (htake : d.take ⟨id, model, none, usage⟩ = .ok d') :
    Told config resolvedModel id model reason usage { d' with pending := [] } text fragments
        (es ++ d'.pending) ∧ Identified id model d' := by
  obtain ⟨events, hpending, hevents, htools⟩ := h.tools.take htake
  obtain ⟨hconfig, -, -, hresolved⟩ := take_keeps htake
  obtain ⟨hstarts, hreasons, -, -⟩ := hevents.parts
  obtain ⟨htext, husages⟩ := hevents.said
  rw [h.pending, List.nil_append] at hpending
  rw [hpending]
  replace htools : Tools d' (fragments ++ []) (es ++ events) := htools
  rw [List.append_nil] at htools
  obtain ⟨responseId, model', d₁, hid, hmodel, hchoice, rfl⟩ := Decoder.take_eq_ok.mp htake
  obtain rfl := Except.ok.inj ((keep_same hsame.1).symm.trans hid)
  obtain rfl := Except.ok.inj ((keep_same hsame.2).symm.trans hmodel)
  have heq : { d with responseId := id, model } = d₁ := by
    replace hchoice : (if d.finish.isNone then Except.error _ else
      Except.ok { d with responseId := id, model }) = Except.ok d₁ := hchoice
    split at hchoice
    · cases hchoice
    · exact Except.ok.inj hchoice
  subst heq
  refine ⟨⟨hconfig.trans h.configured, hresolved.trans h.resolved,
    htools.congr rfl rfl rfl rfl fun _ => rfl, rfl, h.finish, ?_, ?_, ?_, ?_⟩, rfl, rfl⟩
  · rw [textOf_append, h.text, htext]
    exact String.append_empty
  · rw [usages_append, h.usages, husages]
    rfl
  · rw [starts_append, h.starts, hstarts]
    rfl
  · rw [reasons_append, h.reasons, hreasons]
    rfl

/-- A response that has been told up to its reason. -/
theorem Speaks.told (h : Speaks id model reason usage frames text' rest) :
    ∀ {d : Decoder} {text : String} {fragments : List Fragment} {prior : List ChatStreamEvent},
      Told config resolvedModel id model none none d text fragments prior → SameIdentity id model d →
      Takes d frames es d' →
        Told config resolvedModel id model reason usage d' (text ++ text') (fragments ++ rest)
          (prior ++ es) ∧ Identified id model d' ∧ id.isSome ∧ model.isSome := by
  induction h generalizing es d' with
  | last choice hreason =>
    intro d text fragments prior htold hsame htakes
    cases htakes with
    | cons htake htakes =>
      cases htakes
      rw [List.append_nil, ← hreason]
      exact htold.take hsame htake
  | tail choice hreason =>
    intro d text fragments prior htold hsame htakes
    cases htakes with
    | cons htake htakes =>
      obtain ⟨htold₁, hid₁, hsome⟩ := htold.take hsame htake
      cases htakes with
      | cons htake' htakes' =>
        cases htakes'
        obtain ⟨htold₂, hid₂⟩ := htold₁.tail hid₁.same htake'
        rw [hreason, List.append_assoc] at htold₂
        rw [List.append_nil]
        exact ⟨htold₂, hid₂, hsome⟩
  | more choice hnone _ ih =>
    intro d text fragments prior htold hsame htakes
    cases htakes with
    | cons htake htakes =>
      obtain ⟨htold₁, hid₁, -⟩ := htold.take hsame htake
      rw [hnone] at htold₁
      rw [← List.append_assoc, ← List.append_assoc, ← String.append_assoc]
      exact ih htold₁ hid₁.same htakes

/-- A choice is taken that can be gathered, with a reason that goes with its calls. -/
theorem Told.take_ok (h : Told config resolvedModel id model none none d text fragments es)
    (choice : Choice) (usage : Option TokenUsage) (rest : List Fragment)
    (hsame : SameIdentity id model d) (hid : id.isSome) (hmodel : model.isSome)
    {calls : Nat → Option Call} (hgather : Gatherable config.streamingLimits.maxToolArgumentBytes
      (fragments ++ choice.fragments ++ rest) calls)
    (hreason : ∀ text ∈ choice.reason, ∃ f,
      Decoder.finishOf (fragments ++ choice.fragments).isEmpty text = .ok f) :
    ∃ d', d.take ⟨id, model, some choice, usage⟩ = .ok d' := by
  have htools : Tools { d with responseId := id, model, pending := d.pending ++ textEvents choice.content }
      fragments es := h.tools.congr rfl rfl rfl rfl fun _ => rfl
  have hgather' : Gatherable d.config.streamingLimits.maxToolArgumentBytes
      (fragments ++ (choice.fragments ++ rest)) calls := by
    rw [h.configured, ← List.append_assoc]
    exact hgather
  obtain ⟨d₀, hfold₀⟩ := htools.fold_ok hgather'
  rw [List.foldlM_append] at hfold₀
  obtain ⟨d₁, hfold, -⟩ := bind_eq_ok.mp hfold₀
  obtain ⟨events, -, -, htools₁⟩ := htools.fold hfold
  obtain ⟨d₂, htaken⟩ : ∃ d₂, d₁.takeReason choice.reason = .ok d₂ := by
    cases hr : choice.reason with
    | none => exact ⟨d₁, rfl⟩
    | some text =>
      obtain ⟨f, hf⟩ := hreason text hr
      rw [← htools₁.isEmpty] at hf
      exact ⟨_, takeReason_eq_ok.mpr ⟨f, hf, rfl⟩⟩
  exact ⟨_, (take_choice_iff hsame h.finish).mpr ⟨hid, hmodel, d₁, d₂, hfold, htaken, rfl⟩⟩

/-- The usage is taken after the reason. -/
theorem take_tail_ok {f : FinishReason × String} (usage : Option TokenUsage)
    (hfinish : d.finish = some f) (hsame : SameIdentity id model d) : ∃ d', d.take ⟨id, model, none, usage⟩ = .ok d' := by
  refine ⟨_, Decoder.take_eq_ok.mpr ⟨id, model, { d with responseId := id, model }, keep_same hsame.1,
    keep_same hsame.2, ?_, rfl⟩⟩
  show (if d.finish.isNone then Except.error _ else Except.ok _) = _
  rw [hfinish]
  rfl

/-- **Frames are taken by what they say.** -/
theorem Speaks.taken (h : Speaks id model reason usage frames text' rest) (hid : id.isSome)
    (hmodel : model.isSome) {f : FinishReason × String} {word : String} (hword : reason = some word) :
    ∀ {d : Decoder} {text : String} {fragments : List Fragment} {prior : List ChatStreamEvent}
      {calls : Nat → Option Call}, Told config resolvedModel id model none none d text fragments prior →
      SameIdentity id model d →
      Gatherable config.streamingLimits.maxToolArgumentBytes (fragments ++ rest) calls →
      Decoder.finishOf (fragments ++ rest).isEmpty word = .ok f →
        ∃ es d', Takes d frames es d' := by
  induction h with
  | last choice hreason =>
    intro d text fragments prior calls htold hsame hgather hfinish
    obtain ⟨d', htake⟩ := htold.take_ok choice usage [] hsame hid hmodel
      (by rw [List.append_nil]; exact hgather) fun word' hword' => by
        rw [hreason, hword] at hword'
        obtain rfl := Option.some.inj hword'
        exact ⟨f, hfinish⟩
    exact ⟨_, _, .cons htake (.nil _)⟩
  | tail choice hreason =>
    intro d text fragments prior calls htold hsame hgather hfinish
    obtain ⟨d₁, htake⟩ := htold.take_ok choice none [] hsame hid hmodel
      (by rw [List.append_nil]; exact hgather) fun word' hword' => by
        rw [hreason, hword] at hword'
        obtain rfl := Option.some.inj hword'
        exact ⟨f, hfinish⟩
    obtain ⟨htold₁, hid₁, -⟩ := htold.take hsame htake
    have hfinished := htold₁.finish
    rw [hreason, hword] at hfinished
    obtain ⟨f', -, hf'⟩ := hfinished
    obtain ⟨d₂, htake'⟩ := take_tail_ok usage hf' hid₁.same
    exact ⟨_, _, .cons htake (.cons htake' (.nil _))⟩
  | @more choice frames text' rest hnone _ ih =>
    intro d text fragments prior calls htold hsame hgather hfinish
    rw [← List.append_assoc] at hgather hfinish
    obtain ⟨d₁, htake⟩ := htold.take_ok choice none rest hsame hid hmodel hgather
      fun word' hword' => by
        rw [hnone] at hword'
        cases hword'
    obtain ⟨htold₁, hid₁, -⟩ := htold.take hsame htake
    rw [hnone] at htold₁
    obtain ⟨es, d', htakes⟩ := ih htold₁ hid₁.same hgather hfinish
    exact ⟨_, d', .cons htake htakes⟩

end Running

/-! ## The content -/

/-- A content that a decoder accepts, with the calls that its fragments come to. -/
structure Admits (fromStr : String → Except String Json) (config : GenaiAdapterConfig)
    (resolvedModel : String) (id : Option ResponseId) (model : Option ModelId) (reason : Option String)
    (fragments : List Fragment) (calls : Nat → Option Call) (finish : FinishReason × String)
    (extensions : Extensions) : Prop where
  identified : id.isSome ∧ model.isSome
  gathers : Gatherable config.streamingLimits.maxToolArgumentBytes fragments calls
  parses : ∀ index call, calls index = some call → ∃ arguments, fromStr call.arguments = .ok arguments
  finishes : ∃ word, reason = some word ∧ Decoder.finishOf fragments.isEmpty word = .ok finish
  describes : Decoder.responseExtensions resolvedModel finish.2 = .ok extensions

/-- Events that say a content. -/
structure Recounts (text : String) (calls : Nat → Option Call) (usage : Option TokenUsage)
    (start : Metadata) (body : List ChatStreamEvent) : Prop where
  text : textOf body = text
  tells : ∀ index, Tells (deltasAt index body) (calls index)
  usages : usages body = usage.toList
  starts : starts body = [start]
  reasons : reasons body = []

/-- Fragments that come to the same calls. -/
structure SameCalls (fragments fragments' : List Fragment) : Prop where
  comes : ∀ index call, Comes (atIndex index fragments) call ↔ Comes (atIndex index fragments') call
  bytes : argumentBytes fragments = argumentBytes fragments'

section Contents

variable {fromStr : String → Except String Json} {config : GenaiAdapterConfig}
  {resolvedModel : String} {structured : Bool} {id : Option ResponseId} {model : Option ModelId}
  {reason : Option String} {usage : Option TokenUsage} {fragments fragments' : List Fragment}
  {calls : Nat → Option Call} {finish : FinishReason × String} {extensions : Extensions}
  {es body body' : List ChatStreamEvent} {frames : List Frame} {text : String} {start : Metadata}
  {d : Decoder}

theorem told_new (config : GenaiAdapterConfig) (resolvedModel : String) (structured : Bool)
    (id : Option ResponseId) (model : Option ModelId) :
    Told config resolvedModel id model none none (.new config resolvedModel structured) "" [] [] := by
  have htools : Tools (.new config resolvedModel structured) [] [] := by
    obtain ⟨fragments, htools, hbytes⟩ := (going_new config resolvedModel structured).tools
    refine ⟨fun _ => rfl, htools.ids, htools.distinct, rfl, htools.limit, fun _ => rfl⟩
  exact ⟨rfl, rfl, htools, rfl, rfl, rfl, rfl, rfl, rfl⟩

theorem sameIdentity_new : SameIdentity id model (.new config resolvedModel structured) :=
  ⟨.inl rfl, .inl rfl⟩

/-- The calls of a decoder, by their index. -/
theorem calls_parse : (∀ entry ∈ d.calls.entries, ∃ arguments,
      fromStr entry.2.arguments = .ok arguments) ↔
    ∀ index call, d.calls.get? index = some call →
      ∃ arguments, fromStr call.arguments = .ok arguments := by
  constructor
  · intro h index call hcall
    exact h (index, call) (SortedMap.mem_entries.mpr hcall)
  · intro h entry hentry
    exact h entry.1 entry.2 (SortedMap.mem_entries.mp hentry)

/-- **Frames that are accepted say a content that is admitted**, and so do their events. -/
theorem Speaks.finishes (h : Speaks id model reason usage frames text fragments)
    (hfinishes : Finishes fromStr (.new config resolvedModel structured) frames es) :
    ∃ calls finish extensions body,
      Admits fromStr config resolvedModel id model reason fragments calls finish extensions ∧
        Recounts text calls usage (id, model, extensions) body ∧ es = body ++ [.finished finish.1] := by
  obtain ⟨front, d₁, d₂, htakes, hfinish, rfl⟩ := hfinishes
  obtain ⟨htold, hid, hsome⟩ := h.told (told_new config resolvedModel structured id model)
    sameIdentity_new htakes
  rw [String.empty_append, List.nil_append, List.nil_append] at htold
  obtain ⟨f, raw, extensions, hf, hparse, hextensions, rfl⟩ := finishStream_eq_ok.mp hfinish
  have hfinished := htold.finish
  rw [hf] at hfinished
  cases hr : reason with
  | none =>
    rw [hr] at hfinished
    cases hfinished
  | some word =>
    rw [hr] at hfinished
    obtain ⟨finish, hword, heq⟩ := hfinished
    obtain rfl := Option.some.inj heq
    have hgather := htold.tools.gatherable
    rw [htold.configured] at hgather
    refine ⟨d₁.calls.get?, (f, raw), extensions, front ++ [.responseStarted id model extensions],
      ⟨hsome, hgather, calls_parse.mp hparse, ⟨word, rfl, hword⟩, htold.resolved ▸ hextensions⟩,
      ⟨?_, fun index => ?_, ?_, ?_, ?_⟩, ?_⟩
    · rw [textOf_append, htold.text]
      exact String.append_empty
    · rw [deltasAt_append]
      exact (List.append_nil _).symm ▸ htold.tools.tells index
    · rw [usages_append, htold.usages]
      exact List.append_nil _
    · rw [starts_append, htold.starts]
      rfl
    · rw [reasons_append, htold.reasons]
      rfl
    · simp only [htold.pending, hid.1, hid.2, List.nil_append, List.append_assoc, List.cons_append]

/-- **A content that is admitted is accepted**, in any frames. -/
theorem Speaks.admitted (h : Speaks id model reason usage frames text fragments)
    (hadmits : Admits fromStr config resolvedModel id model reason fragments calls finish extensions) :
    ∃ es, Finishes fromStr (.new config resolvedModel structured) frames es := by
  obtain ⟨word, hword, hfinish⟩ := hadmits.finishes
  have hnew := told_new config resolvedModel structured id model
  obtain ⟨es, d₁, htakes⟩ := h.taken hadmits.identified.1 hadmits.identified.2 hword hnew
    sameIdentity_new hadmits.gathers hfinish
  obtain ⟨htold, -, -⟩ := h.told hnew sameIdentity_new htakes
  rw [List.nil_append] at htold
  have hfinished := htold.finish
  rw [hword] at hfinished
  obtain ⟨finish', hfinish', hf⟩ := hfinished
  obtain rfl := Except.ok.inj (hfinish.symm.trans hfinish')
  have hcalls : ∀ index, d₁.calls.get? index = calls index := fun index =>
    (htold.tools.comes index).unique (hadmits.gathers.comes index)
  refine ⟨_, es, d₁, _, htakes, finishStream_eq_ok.mpr ⟨finish.1, finish.2, extensions, hf,
    calls_parse.mpr fun index call hcall => ?_, ?_, rfl⟩, rfl⟩
  · exact hadmits.parses index call ((hcalls index).symm.trans hcall)
  · rw [htold.resolved]
    exact hadmits.describes

theorem SameCalls.symm (h : SameCalls fragments fragments') : SameCalls fragments' fragments :=
  ⟨fun index call => (h.comes index call).symm, h.bytes.symm⟩

theorem SameCalls.isEmpty (h : SameCalls fragments fragments') :
    fragments.isEmpty = fragments'.isEmpty := by
  have hnil : ∀ {fs gs : List Fragment}, SameCalls fs gs → fs = [] → gs = [] := by
    intro fs gs hsame hfs
    subst hfs
    cases gs with
    | nil => rfl
    | cons fragment gs =>
      have hat : atIndex fragment.index (fragment :: gs) = [] :=
        (hsame.comes fragment.index none).mp rfl
      have hmem : fragment ∈ atIndex fragment.index (fragment :: gs) :=
        mem_atIndex.mpr ⟨List.mem_cons_self, rfl⟩
      rw [hat] at hmem
      cases hmem
  rw [Bool.eq_iff_iff, List.isEmpty_iff, List.isEmpty_iff]
  exact ⟨hnil h, hnil h.symm⟩

/-- The way the calls are cut does not matter. -/
theorem Admits.congr (hsame : SameCalls fragments fragments')
    (h : Admits fromStr config resolvedModel id model reason fragments calls finish extensions) :
    Admits fromStr config resolvedModel id model reason fragments' calls finish extensions := by
  refine ⟨h.identified, ⟨fun index => ?_, h.gathers.distinct, ?_⟩, h.parses, ?_, h.describes⟩
  · exact (hsame.comes index _).mp (h.gathers.comes index)
  · rw [← hsame.bytes]
    exact h.gathers.bytes
  · rw [← hsame.isEmpty]
    exact h.finishes

/-- A content is admitted in one way only. -/
theorem Admits.unique {calls' : Nat → Option Call} {finish' : FinishReason × String}
    {extensions' : Extensions}
    (h : Admits fromStr config resolvedModel id model reason fragments calls finish extensions)
    (h' : Admits fromStr config resolvedModel id model reason fragments calls' finish' extensions') :
    calls = calls' ∧ finish = finish' ∧ extensions = extensions' := by
  obtain ⟨word, hword, hfinish⟩ := h.finishes
  obtain ⟨word', hword', hfinish'⟩ := h'.finishes
  obtain rfl := Option.some.inj (hword.symm.trans hword')
  obtain rfl := Except.ok.inj (hfinish.symm.trans hfinish')
  refine ⟨funext fun index => ?_, rfl, Except.ok.inj (h.describes.symm.trans h'.describes)⟩
  exact (h.gathers.comes index).unique (h'.gathers.comes index)

/-- What is told of one call is the same content. -/
theorem sameCall_of_tells {deltas deltas' : List ToolCallDelta} {call : Option Call}
    (h : Tells deltas call) (h' : Tells deltas' call) : SameCall deltas deltas' := by
  cases call with
  | none =>
    rw [show deltas = [] from h, show deltas' = [] from h']
    exact .refl _
  | some call =>
    obtain ⟨hids, hnames, harguments, hextensions⟩ := h
    obtain ⟨hids', hnames', harguments', hextensions'⟩ := h'
    have hempty : ∀ {ds : List ToolCallDelta}, (∀ delta ∈ ds, delta.extensions = .empty) →
        mergeAll .empty (extensionsOf ds) = .ok .empty := fun hall => mergeAll_empty fun e he => by
      obtain ⟨delta, hdelta, rfl⟩ := List.mem_map.mp he
      exact hall delta hdelta
    have hne : ∀ {ds : List ToolCallDelta}, idsOf ds = [call.id] → ds ≠ [] := by
      rintro ds hds rfl
      cases hds
    refine ⟨iff_of_false (hne hids) (hne hids'), hids.trans hids'.symm, hnames.trans hnames'.symm,
      harguments.trans harguments'.symm, ?_⟩
    rw [hempty hextensions, hempty hextensions']

/-- **Events that recount the same content say the same.** -/
theorem same_content (h : Recounts text calls usage start body)
    (h' : Recounts text calls usage start body') : SameContent body body' :=
  ⟨h.text.trans h'.text.symm, fun index => sameCall_of_tells (h.tells index) (h'.tells index),
    h.usages.trans h'.usages.symm, h.starts.trans h'.starts.symm, h.reasons.trans h'.reasons.symm⟩

/-- A content comes to a response. -/
def Responds (fromStr : String → Except String Json) (config : GenaiAdapterConfig)
    (resolvedModel : String) (limits : CollectorLimits) (id : Option ResponseId) (model : Option ModelId)
    (reason : Option String) (usage : Option TokenUsage) (text : String) (fragments : List Fragment)
    (response : ChatResponse) : Prop :=
  ∃ calls finish extensions body,
    Admits fromStr config resolvedModel id model reason fragments calls finish extensions ∧
      Recounts text calls usage (id, model, extensions) body ∧
      Collects fromStr limits (body ++ [.finished finish.1]) response

/-- **Frames come to the response of their content.** -/
theorem Speaks.responds_iff {limits : CollectorLimits} {response : ChatResponse}
    (h : Speaks id model reason usage frames text fragments) :
    (∃ es, Finishes fromStr (.new config resolvedModel structured) frames es ∧
        Collects fromStr limits es response) ↔
      Responds fromStr config resolvedModel limits id model reason usage text fragments response := by
  constructor
  · rintro ⟨es, hfinishes, hcollects⟩
    obtain ⟨calls, finish, extensions, body, hadmits, hrecounts, rfl⟩ := h.finishes hfinishes
    exact ⟨calls, finish, extensions, body, hadmits, hrecounts, hcollects⟩
  · rintro ⟨calls, finish, extensions, body, hadmits, hrecounts, hcollects⟩
    have hadmitted : ∃ es, Finishes fromStr (.new config resolvedModel structured) frames es :=
      h.admitted hadmits
    obtain ⟨es, hfinishes⟩ := hadmitted
    obtain ⟨calls', finish', extensions', body', hadmits', hrecounts', rfl⟩ := h.finishes hfinishes
    obtain ⟨rfl, rfl, rfl⟩ := hadmits.unique hadmits'
    exact ⟨_, hfinishes, collects_congr (same_content hrecounts hrecounts') hcollects⟩

/-- A content comes to the same response, whatever way its calls are cut. -/
theorem Responds.congr {limits : CollectorLimits} {response : ChatResponse}
    (hsame : SameCalls fragments fragments')
    (h : Responds fromStr config resolvedModel limits id model reason usage text fragments response) :
    Responds fromStr config resolvedModel limits id model reason usage text fragments' response := by
  obtain ⟨calls, finish, extensions, body, hadmits, hrest⟩ := h
  exact ⟨calls, finish, extensions, body, hadmits.congr hsame, hrest⟩

end Contents

end GroupAgent.Genai
