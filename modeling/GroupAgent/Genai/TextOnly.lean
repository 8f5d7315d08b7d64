import GroupAgent.Genai.Yielding

/-!
# Text streams and the reasoning that comes twice

What `GenaiEventStream` (`stream.rs:21-36` of `crates/group-agent-genai/src`) is to do, and what it
does:

* `collects_of_completes`: what a stream yields up to its end is collected.
* `expectedReasoning`: the reasoning an `End` is to leave. `captured_eq_expected_iff` compares it
  with what the code retains.
* `TextOnly`: all that a stream is to do, over whatever the provider sends: its text and reasoning
  in order, its one completion or its one error, the limits, and nothing after the end.

An `End` may bring the reasoning that was streamed before it once more. As the separate field it is
compared with what was streamed; as a part of the content it is appended (217-358).

Results: **`textOnly_iff`** says that nothing else is wrong. `reasoning_doubled` is a stream on
which it is.

Out of scope: streams with tools, which the adapter refuses to open for this wrapper
(`adapter.rs:135-149`).
-/

namespace GroupAgent.Genai

open GroupAgent.Lib GroupAgent.Model GroupAgent.Model.ChatStreamCollector
open GroupAgent.Prebuilt (Poll)

/-! ## Collecting -/

section Collecting

variable {config : GenaiAdapterConfig} {reasoning : String} {signatures : List String}
  {tail : List Item} {answers : List Answer}

theorem textOf_finished (es : List ChatStreamEvent) (reason : FinishReason) :
    textOf (es ++ [.finished reason]) = textOf es := by
  have hlast : [ChatStreamEvent.finished reason].filterMap text? = [] := rfl
  unfold textOf
  rw [List.filterMap_append, hlast, List.append_nil]

/-- What is yielded up to the end is collected, if the text is within the limit. -/
theorem collects_of_completes (h : Completes config reasoning signatures tail)
    {es : List ChatStreamEvent} (hes : texts answers ++ tail = es.map .ok)
    (fromStr : String → Except String Json) {limits : CollectorLimits}
    (htext : (textOf es).utf8ByteSize ≤ limits.maxTextBytes) :
    ∃ response, Collects fromStr limits es response := by
  obtain ⟨responseId, model, extensions, reason, usage, rfl, -, -⟩ := h.events
  obtain ⟨body, hbody, rfl⟩ : ∃ body : List ChatStreamEvent,
      body = (answers.filterMap chunk?).map .textDelta ++
        (.responseStarted responseId (some model) extensions :: usage.toList.map .usage) ∧
      es = body ++ [.finished reason] := by
    refine ⟨_, rfl, ?_⟩
    have hinj : Function.Injective (Except.ok : ChatStreamEvent → Item) := fun _ _ => Except.ok.inj
    apply hinj.list_map
    rw [← hes]
    simp [texts, Function.comp_def]
  have hunfinished : ∀ event ∈ body, ¬IsTerminal event := by
    intro event hevent
    rw [hbody, List.mem_append, List.mem_map, List.mem_cons, List.mem_map] at hevent
    obtain ⟨_, -, rfl⟩ | rfl | ⟨_, -, rfl⟩ := hevent
    · exact not_false
    · exact not_false
    · exact not_false
  have hdeltas (index : Nat) : deltasAt index body = [] := by
    rw [hbody]
    cases usage <;> simp [deltasAt, delta?, List.filterMap_map, Function.comp_def]
  have husages : usages body = usage.toList := by
    rw [hbody]
    cases usage with
    | none => simp [usages, usage?, List.filterMap_map, Function.comp_def]
    | some usage =>
      simp [usages, usage?, List.filterMap_map, Function.comp_def]
      rfl
  have hstarts : starts body = [(responseId, some model, extensions)] := by
    rw [hbody]
    cases usage <;> simp [starts, start?, List.filterMap_map, Function.comp_def]
  have hsize : (textOf body).utf8ByteSize ≤ limits.maxTextBytes := by
    rwa [textOf_finished] at htext
  let data : Collected :=
    ⟨responseId, some model, extensions, true, textOf body, .empty, usage, none⟩
  have hpushed : pushBody fromStr limits new.data body = .ok data := by
    refine (pushBody_eq_ok hunfinished (Nat.zero_le _)).mpr ?_
    refine ⟨?_, hsize, ?_, ?_, ?_, ?_, ?_, rfl⟩
    · exact String.empty_append.symm
    · intro index
      rw [hdeltas]
      rfl
    · rw [husages]
      cases usage <;> rfl
    · rw [hstarts]
      rfl
    · rw [hstarts]
      rfl
    · intro hfalse
      cases hfalse
  exact ⟨_, collects_iff.mpr ⟨body, reason, data, rfl, hunfinished, hpushed, rfl, rfl⟩⟩

end Collecting

/-! ## The reasoning of an `End` -/

/-- The reasoning an `End` is to leave. What is captured has to agree with what was streamed, and is
taken where nothing was. -/
def expectedReasoning (config : GenaiAdapterConfig) (streamed : String) (last : StreamEnd) :
    Option String :=
  if streamed = "" then
    if config.Fits (config.kept (concat last.reasoningParts)) then
      taken config (config.kept (concat last.reasoningParts)) last.capturedReasoningContent
    else none
  else if (last.reasoningParts = [] ∨ concat last.reasoningParts = streamed) ∧
      last.capturedReasoningContent.getD streamed = streamed then some streamed
  else none

/-- What is captured agrees with what was streamed. -/
def CapturedAgain (streamed : String) (last : StreamEnd) : Prop :=
  concat last.reasoningParts = streamed ∧ last.capturedReasoningContent.getD streamed = streamed

/-- What was streamed and the parts of the content, one after the other, are within the limit, and
agree with the captured field. -/
def Doubles (config : GenaiAdapterConfig) (streamed : String) (last : StreamEnd) : Prop :=
  config.Fits (streamed ++ concat last.reasoningParts) ∧
    last.capturedReasoningContent.getD (streamed ++ concat last.reasoningParts) =
      streamed ++ concat last.reasoningParts

/-- Nothing was streamed, or no part of the content has reasoning, or what is captured is refused,
as it is to be. -/
def Undisturbed (config : GenaiAdapterConfig) (streamed : String) (last : StreamEnd) : Prop :=
  streamed = "" ∨ last.reasoningParts = [] ∨
    ¬(CapturedAgain streamed last ∨ Doubles config streamed last)

section Reasoning

variable {config : GenaiAdapterConfig} {streamed : String} {last : StreamEnd}

theorem captured_of_parts (hne : streamed ≠ "") (hretain : config.retainReasoningContent = true) :
    capturedReasoning config streamed last =
      if config.Fits (streamed ++ concat last.reasoningParts) then
        if last.capturedReasoningContent.getD (streamed ++ concat last.reasoningParts) =
          streamed ++ concat last.reasoningParts then some (streamed ++ concat last.reasoningParts)
        else none
      else none := by
  have hkept : config.kept (concat last.reasoningParts) = concat last.reasoningParts :=
    if_pos hretain
  have happend : streamed ++ concat last.reasoningParts ≠ "" := by
    intro hempty
    exact hne (String.append_eq_empty_iff.mp hempty).1
  unfold capturedReasoning taken
  simp only [hkept, if_neg happend]

/-- The code retains what it is to retain, unless the parts of the content disturb it. -/
theorem captured_eq_expected_iff (hfits : config.Fits streamed)
    (hretain : streamed ≠ "" → config.retainReasoningContent = true) :
    capturedReasoning config streamed last = expectedReasoning config streamed last ↔
      Undisturbed config streamed last := by
  unfold expectedReasoning Undisturbed
  by_cases hempty : streamed = ""
  · subst hempty
    rw [if_pos rfl]
    unfold capturedReasoning
    simp only [String.empty_append, true_or]
  rw [if_neg hempty, captured_of_parts hempty (hretain hempty)]
  by_cases hparts : last.reasoningParts = []
  · have hconcat : concat last.reasoningParts = "" := by
      rw [hparts]
      rfl
    refine iff_of_true ?_ (.inr (.inl hparts))
    rw [hconcat, String.append_empty, if_pos hfits]
    by_cases hfield : last.capturedReasoningContent.getD streamed = streamed
    · rw [if_pos hfield, if_pos ⟨.inl hparts, hfield⟩]
    · rw [if_neg hfield, if_neg (fun hboth => hfield hboth.2)]
  have hexpected : ((last.reasoningParts = [] ∨ concat last.reasoningParts = streamed) ∧
      last.capturedReasoningContent.getD streamed = streamed) ↔ CapturedAgain streamed last :=
    and_congr_left fun _ => or_iff_right hparts
  by_cases hagain : CapturedAgain streamed last
  · refine iff_of_false (fun heq => ?_) ?_
    · rw [if_pos (hexpected.mpr hagain), hagain.1] at heq
      have hdouble : streamed ++ streamed ≠ streamed := by
        intro hsame
        exact hempty (String.append_eq_left_iff.mp hsame)
      split at heq
      · split at heq
        · exact hdouble (Option.some.inj heq)
        · cases heq
      · cases heq
    · rintro (hnone | hnone | hneither)
      · exact hempty hnone
      · exact hparts hnone
      · exact hneither (.inl hagain)
  rw [if_neg (hexpected.not.mpr hagain)]
  by_cases hdoubles : Doubles config streamed last
  · rw [if_pos hdoubles.1, if_pos hdoubles.2]
    refine iff_of_false (Option.some_ne_none _) ?_
    rintro (hnone | hnone | hneither)
    · exact hempty hnone
    · exact hparts hnone
    · exact hneither (.inr hdoubles)
  · refine iff_of_true ?_ (.inr (.inr (not_or.mpr ⟨hagain, hdoubles⟩)))
    split
    · next hfits' =>
      split
      · next hfield => exact absurd ⟨hfits', hfield⟩ hdoubles
      · rfl
    · rfl

end Reasoning

/-! ## Text streams -/

/-- What a stream does, whatever the provider sends. -/
structure TextOnly (stream : GenaiEventStream) : Prop where
  ordered : ∃ items, stream.Yields items ∧ Ordered stream.config false "" stream.inner items
  collected : ∀ es reason, stream.Yields ((es ++ [.finished reason]).map .ok) →
    ∀ (fromStr : String → Except String Json) (limits : CollectorLimits),
      (textOf es).utf8ByteSize ≤ limits.maxTextBytes →
        ∃ response, Collects fromStr limits (es ++ [.finished reason]) response
  within : ∀ n, (stream.after n).config = stream.config ∧ (stream.after n).Within
  accepted : ∀ before last rest reasoning,
    stream.inner = before ++ .ready (some (.ok (.streamEnd last))) :: rest →
      Passes stream.config false "" before → Ordinary stream.config stream.resolvedModel last →
        expectedReasoning stream.config (streamed stream.config before) last = some reasoning →
          ∃ tail, stream.Yields (texts before ++ tail) ∧
            Completes stream.config reasoning last.signatures tail
  refused : ∀ before last rest,
    stream.inner = before ++ .ready (some (.ok (.streamEnd last))) :: rest →
      Passes stream.config false "" before → Ordinary stream.config stream.resolvedModel last →
        expectedReasoning stream.config (streamed stream.config before) last = none →
          ∃ tail, stream.Yields (texts before ++ tail) ∧ OneError tail

section TextOnly

variable {stream : GenaiEventStream} {before rest : List Answer} {last : StreamEnd}

/-- What comes of an `End`, by the reasoning that is captured. -/
theorem items_end (h : stream.Opened)
    (hordinary : Ordinary stream.config stream.resolvedModel last) :
    (∀ reasoning, capturedReasoning stream.config stream.reasoning last = some reasoning →
      Completes stream.config reasoning last.signatures
        (stream.items (.ready (some (.ok (.streamEnd last))) :: rest))) ∧
    (capturedReasoning stream.config stream.reasoning last = none →
      OneError (stream.items (.ready (some (.ok (.streamEnd last))) :: rest))) := by
  have hopened := h.with_inner rest
  constructor
  · intro reasoning hreasoning
    obtain ⟨next, hend⟩ := GenaiEventStream.handleEnd_of_ordinary hopened hordinary hreasoning
    obtain ⟨-, reasoning', hreasoning', hqueues⟩ := GenaiEventStream.handleEnd_ok hopened hend
    obtain rfl := Option.some.inj (hreasoning.symm.trans hreasoning')
    rw [GenaiEventStream.items_of_end h hend]
    exact hqueues.completes
  · intro hnone
    cases hend : { stream with inner := rest }.handleEnd last with
    | ok next =>
      obtain ⟨-, reasoning, hreasoning, -⟩ := GenaiEventStream.handleEnd_ok hopened hend
      cases hnone.symm.trans hreasoning
    | error error => exact GenaiEventStream.items_of_refused h hend

theorem yields_end (h : stream.Opened)
    (hinner : stream.inner = before ++ .ready (some (.ok (.streamEnd last))) :: rest)
    (hpasses : Passes stream.config stream.sawStart stream.reasoning before)
    (hordinary : Ordinary stream.config stream.resolvedModel last) :
    ∃ tail, stream.Yields (texts before ++ tail) ∧
      (∀ reasoning, capturedReasoning stream.config
          (stream.reasoning ++ streamed stream.config before) last = some reasoning →
        Completes stream.config reasoning last.signatures tail) ∧
      (capturedReasoning stream.config
          (stream.reasoning ++ streamed stream.config before) last = none → OneError tail) := by
  obtain ⟨next, hnext, hconfig, hmodel, hreasoning, hitems⟩ :=
    GenaiEventStream.items_past (.ready (some (.ok (.streamEnd last))) :: rest) h hpasses
  refine ⟨next.items (.ready (some (.ok (.streamEnd last))) :: rest), ?_, ?_⟩
  · rw [← hitems, ← hinner, ← h.due_eq]
    exact GenaiEventStream.yields_due h.valid
  · rw [← hconfig, ← hmodel] at hordinary
    rw [← hreasoning, ← hconfig]
    exact items_end hnext hordinary

theorem yields_ordered (h : stream.Opened) :
    ∃ items, stream.Yields items ∧
      Ordered stream.config stream.sawStart stream.reasoning stream.inner items := by
  refine ⟨stream.due, GenaiEventStream.yields_due h.valid, ?_⟩
  rw [h.due_eq]
  exact GenaiEventStream.items_ordered h

/-- A stream that finishes is collected. -/
theorem collects_of_yields (h : stream.Opened) {es : List ChatStreamEvent} {reason : FinishReason}
    (hyields : stream.Yields ((es ++ [ChatStreamEvent.finished reason]).map .ok))
    (fromStr : String → Except String Json) {limits : CollectorLimits}
    (htext : (textOf es).utf8ByteSize ≤ limits.maxTextBytes) :
    ∃ response, Collects fromStr limits (es ++ [.finished reason]) response := by
  obtain ⟨items, hitems, before, after, tail, -, -, -, rfl, htail⟩ := yields_ordered h
  have heq := hitems.unique hyields
  rcases htail with ⟨error, rfl⟩ | ⟨last, reasoning, -, hcompletes⟩
  · have hmem : Except.error error ∈
        (es ++ [ChatStreamEvent.finished reason]).map (Except.ok : ChatStreamEvent → Item) := by
      rw [← heq]
      exact List.mem_append_right _ List.mem_cons_self
    obtain ⟨event, -, hevent⟩ := List.mem_map.mp hmem
    cases hevent
  · exact collects_of_completes hcompletes heq fromStr ((textOf_finished es reason).symm ▸ htext)

theorem Completes.not_oneError {config : GenaiAdapterConfig} {reasoning : String}
    {signatures : List String} {tail : List Item} (h : Completes config reasoning signatures tail) :
    ¬OneError tail := by
  obtain ⟨_, _, _, _, usage, rfl, -⟩ := h.events
  rintro ⟨error, herror⟩
  cases (List.cons.inj herror).1

/-- The events of an end tell the reasoning that is retained. -/
theorem Completes.unique {config : GenaiAdapterConfig} {reasoning reasoning' : String}
    {signatures signatures' : List String} {tail : List Item}
    (h : Completes config reasoning signatures tail)
    (h' : Completes config reasoning' signatures' tail) : reasoning = reasoning' := by
  obtain ⟨_, _, extensions, _, _, rfl, hvalue, -⟩ := h.events
  obtain ⟨_, _, extensions', _, _, heq, hvalue', -⟩ := h'.events
  obtain ⟨-, -, rfl⟩ := ChatStreamEvent.responseStarted.inj (Except.ok.inj (List.cons.inj heq).1)
  rw [hvalue] at hvalue'
  by_cases hempty : reasoning = ""
  · by_cases hempty' : reasoning' = ""
    · rw [hempty, hempty']
    · rw [if_pos hempty, if_neg hempty'] at hvalue'
      cases hvalue'
  · by_cases hempty' : reasoning' = ""
    · rw [if_neg hempty, if_pos hempty'] at hvalue'
      cases hvalue'
    · rw [if_neg hempty, if_neg hempty'] at hvalue'
      simpa using hvalue'

section New

variable {inner : List Answer} {resolvedModel : ModelIden} {config : GenaiAdapterConfig}
  {provider : ProviderId} {model : ModelId}

theorem opened_new : (GenaiEventStream.new inner resolvedModel config provider model).Opened :=
  ⟨rfl, rfl, rfl, rfl, rfl, ⟨Nat.zero_le _, fun hne => absurd rfl hne⟩⟩

/-- What comes of the `End` of a new stream. -/
theorem new_yields_end (provider : ProviderId) (model : ModelId)
    (hinner : inner = before ++ .ready (some (.ok (.streamEnd last))) :: rest)
    (hpasses : Passes config false "" before) (hordinary : Ordinary config resolvedModel last) :
    ∃ tail, (GenaiEventStream.new inner resolvedModel config provider model).Yields
        (texts before ++ tail) ∧
      (∀ reasoning, capturedReasoning config (streamed config before) last = some reasoning →
        Completes config reasoning last.signatures tail) ∧
      (capturedReasoning config (streamed config before) last = none → OneError tail) := by
  have hopened : (GenaiEventStream.new inner resolvedModel config provider model).Opened :=
    opened_new
  obtain ⟨tail, hyields, hend⟩ := yields_end hopened hinner hpasses hordinary
  simp only [GenaiEventStream.new, String.empty_append] at hend
  exact ⟨tail, hyields, hend⟩

/-- The code retains what it is to retain, at an `End` that leaves the reasoning undisturbed. -/
theorem passes_captured_iff (hpasses : Passes config false "" before) :
    capturedReasoning config (streamed config before) last =
        expectedReasoning config (streamed config before) last ↔
      Undisturbed config (streamed config before) last := by
  have hfits := hpasses.fits
  rw [String.empty_append] at hfits
  refine captured_eq_expected_iff hfits fun hne => ?_
  by_contra hretain
  exact hne (if_neg hretain)

/-- An `End` after which all is as it should be leaves the reasoning undisturbed. -/
theorem undisturbed_of_textOnly
    (h : TextOnly (.new inner resolvedModel config provider model))
    (hinner : inner = before ++ .ready (some (.ok (.streamEnd last))) :: rest)
    (hpasses : Passes config false "" before) (hordinary : Ordinary config resolvedModel last) :
    Undisturbed config (streamed config before) last := by
  rw [← passes_captured_iff hpasses]
  obtain ⟨tail, hyields, hsome, hnone⟩ :=
    new_yields_end provider model hinner hpasses hordinary
  cases hexpected : expectedReasoning config (streamed config before) last with
  | none =>
    obtain ⟨tail', hyields', hone⟩ :=
      h.refused before last rest hinner hpasses hordinary hexpected
    obtain rfl := List.append_cancel_left (hyields.unique hyields')
    cases hcaptured : capturedReasoning config (streamed config before) last with
    | none => rfl
    | some reasoning => exact absurd hone (hsome reasoning hcaptured).not_oneError
  | some reasoning =>
    obtain ⟨tail', hyields', hcompletes⟩ :=
      h.accepted before last rest reasoning hinner hpasses hordinary hexpected
    obtain rfl := List.append_cancel_left (hyields.unique hyields')
    cases hcaptured : capturedReasoning config (streamed config before) last with
    | none => exact absurd (hnone hcaptured) hcompletes.not_oneError
    | some reasoning' => rw [(hsome reasoning' hcaptured).unique hcompletes]

/-- Whatever the provider sends, a stream does what it is to do, if and only if no `End` disturbs
the reasoning. -/
theorem textOnly_iff (inner : List Answer) (resolvedModel : ModelIden) (config : GenaiAdapterConfig)
    (provider : ProviderId) (model : ModelId) :
    TextOnly (.new inner resolvedModel config provider model) ↔
      ∀ before last rest, inner = before ++ .ready (some (.ok (.streamEnd last))) :: rest →
        Passes config false "" before → Ordinary config resolvedModel last →
          Undisturbed config (streamed config before) last := by
  constructor
  · intro h before last rest hinner hpasses hordinary
    exact undisturbed_of_textOnly h hinner hpasses hordinary
  · intro h
    refine ⟨yields_ordered opened_new, fun es reason hyields fromStr limits htext =>
      collects_of_yields opened_new hyields fromStr htext,
      fun n => GenaiEventStream.after_within opened_new.valid n, ?_, ?_⟩
    · intro before last rest reasoning hinner hpasses hordinary hexpected
      obtain ⟨tail, hyields, hsome, -⟩ :=
        new_yields_end provider model hinner hpasses hordinary
      have hcaptured :=
        (passes_captured_iff hpasses).mpr (h before last rest hinner hpasses hordinary)
      exact ⟨tail, hyields, hsome reasoning (hcaptured.trans hexpected)⟩
    · intro before last rest hinner hpasses hordinary hexpected
      obtain ⟨tail, hyields, -, hnone⟩ :=
        new_yields_end provider model hinner hpasses hordinary
      have hcaptured :=
        (passes_captured_iff hpasses).mpr (h before last rest hinner hpasses hordinary)
      exact ⟨tail, hyields, hnone (hcaptured.trans hexpected)⟩

end New

end TextOnly

/-! ## Reasoning that comes twice -/

/-- An `End` with the reasoning as a part of the content. -/
def reasoningEnd : StreamEnd where
  capturedUsage := none
  capturedStopReason := none
  capturedContent := some [.reasoningContent "a"]
  capturedReasoningContent := none
  capturedResponseId := none

def retainingConfig : GenaiAdapterConfig := { responsesConfig with retainReasoningContent := true }

theorem passes_reasoning :
    Passes retainingConfig false "" [.ready (some (.ok (.reasoningChunk "a")))] where
  proceeds := List.forall_mem_singleton.mpr trivial
  starts := by decide
  fits := by decide +kernel

theorem ordinary_reasoningEnd :
    Ordinary retainingConfig ⟨⟨"openai", false⟩, "model"⟩ reasoningEnd where
  passable := List.forall_mem_singleton.mpr trivial
  calls := rfl
  bounds := Nat.zero_le _
  id := ⟨none, rfl⟩
  model := ⟨responsesConfig.model, map_eq_ok.mpr ⟨_, Identifier.new_eq_ok.mpr rfl, rfl⟩⟩
  usage := ⟨none, rfl⟩

/-- The reasoning that was streamed is retained once more. -/
theorem reasoning_doubled : ¬∀ (inner : List Answer) (resolvedModel : ModelIden)
    (config : GenaiAdapterConfig) (provider : ProviderId) (model : ModelId),
      TextOnly (.new inner resolvedModel config provider model) := by
  intro h
  have hundisturbed := undisturbed_of_textOnly
    (h [.ready (some (.ok (.reasoningChunk "a"))), .ready (some (.ok (.streamEnd reasoningEnd)))]
      ⟨⟨"openai", false⟩, "model"⟩ retainingConfig responsesConfig.provider responsesConfig.model)
    rfl passes_reasoning ordinary_reasoningEnd
  rcases hundisturbed with hempty | hparts | hneither
  · revert hempty
    decide +kernel
  · cases hparts
  · exact hneither (.inl ⟨by decide +kernel, by decide +kernel⟩)

end GroupAgent.Genai