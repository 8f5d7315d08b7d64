import GroupAgent.Genai.Decode
import GroupAgent.Model.Fragments

/-!
# Frames

What the decoder (`decode.rs:24-37` of `crates/group-agent-genai/src/openai_chat`) does with a
frame, in two phases: `readFrame` is what the frame says, whatever came before it, and
`Decoder.take` what it does to the decoder.

* `Choice`, `Frame`: what a choice and a chunk say, once they are read. `readChoice` reads the
  text, the fragments and the finish reason; `readFrame` adds the identity and the usage.
* `addFragment_eq_ok`, `take_eq_ok`, `keepIdentity_eq_ok`: when each part is taken, and what it
  leaves.
* `Keeps`: what a part leaves alone. The configuration of a decoder never changes.

Results: **`pushValue_eq_ok`**: a frame is accepted when it can be read and taken.

A frame that cannot be read is rejected whatever the decoder has seen, though the source finds out
about it in between. So the error that `push_value` gives may be one of taking where both fail;
only acceptance is split here.
-/

namespace GroupAgent.Genai

open GroupAgent.Lib GroupAgent.Model

/-- What a choice says. -/
structure Choice where
  content : Option String
  fragments : List Fragment
  reason : Option String

/-- What a frame says. -/
structure Frame where
  id : Option ResponseId
  model : Option ModelId
  choice : Option Choice
  usage : Option TokenUsage

section Reading

variable (config : GenaiAdapterConfig) (structured : Bool)

/-- Read `tool_calls`. -/
def readTools (delta : List (String × Json)) : Except GenaiMappingError (List Fragment) :=
  match nonnull (delta.lookup "tool_calls") with
  | none => .ok []
  | some tools => do
    let some tools := asArray? tools | throw (invalid "tool_calls")
    if config.streamingLimits.maxToolCalls.toNat < tools.length then
      throw (.streamToolCallLimit config.streamingLimits.maxToolCalls)
    tools.mapM (readTool config.streamingLimits.maxToolCalls)

def readChoice (choice : Json) : Except GenaiMappingError Choice := do
  if (field? choice "index").bind asU64? ≠ some 0 then throw (invalid "choice index")
  let some delta := (field? choice "delta").bind asObject? | throw (invalid "delta")
  Decoder.checkDelta structured delta
  let content ← optionalString (delta.lookup "content") "content"
  let fragments ← readTools config delta
  let reason ← optionalString (field? choice "finish_reason") "finish_reason"
  pure ⟨content, fragments, reason⟩

def readChoices (choices : List Json) : Except GenaiMappingError (Option Choice) :=
  match choices.head? with
  | some first => some <$> readChoice config structured first
  | none => .ok none

/-- Read an identity of the response. -/
def readIdentity {α : Type} (new : String → Except IdentifierError α) (value : Json)
    (field : String) : Except GenaiMappingError (Option α) := do
  match ← optionalString (field? value field) field with
  | none => pure none
  | some text => some <$> (new text).mapError (.invalidIdentifier field)

def readFrame (value : Json) : Except GenaiMappingError Frame := do
  let some object := asObject? value | throw (invalid "chunk")
  Decoder.checkFrame object
  let id ← readIdentity ResponseId.new value "id"
  let model ← readIdentity ModelId.new value "model"
  let some choices := (field? value "choices").bind asArray? | throw (invalid "choices")
  if 1 < choices.length then throw (invalid "multiple choices")
  let choice ← readChoices config structured choices
  let usage ← Decoder.frameUsage config.retainUsageDetails value choices.isEmpty
  pure ⟨id, model, choice, usage⟩

end Reading

namespace Decoder

/-- Keep an identity, which must not change. -/
def keep {α : Type} [DecidableEq α] (old new : Option α) (field : String) :
    Except GenaiMappingError (Option α) :=
  match new with
  | none => .ok old
  | some a => if old.any (· ≠ a) then .error (invalid field) else .ok (some a)

/-- Keep a finish reason. -/
def takeReason (self : Decoder) : Option String → Except GenaiMappingError Decoder
  | none => .ok self
  | some reason => (fun finish => { self with finish := some finish }) <$>
    finishOf self.calls.entries.isEmpty reason

def takeChoice (self : Decoder) (choice : Choice) : Except GenaiMappingError Decoder :=
  if self.finish.isSome then .error (invalid "choice after finish_reason")
  else if self.responseId.isNone || self.model.isNone then .error (invalid "response identity")
  else choice.fragments.foldlM addFragment (self.addText choice.content) >>= fun self =>
    self.takeReason choice.reason

/-- Take the choice of a frame. Without one, the response is over. -/
def takeChoice? (self : Decoder) : Option Choice → Except GenaiMappingError Decoder
  | some choice => self.takeChoice choice
  | none => if self.finish.isNone then .error (invalid "usage before finish_reason") else .ok self

/-- Take what a frame says. -/
def take (self : Decoder) (frame : Frame) : Except GenaiMappingError Decoder := do
  let responseId ← keep self.responseId frame.id "changed response id"
  let model ← keep self.model frame.model "changed model"
  let self ← { self with responseId, model }.takeChoice? frame.choice
  pure { self with pending := self.pending ++ (frame.usage.map .usage).toList }

/-! ## Reading, then taking -/

section Taking

variable {d d' : Decoder} {fragment : Fragment} {delta : List (String × Json)} {value : Json}

/-- What a fragment does to a decoder. -/
theorem addFragment_eq_ok : d.addFragment fragment = .ok d' ↔
    ∃ found, d.callOf fragment = .ok found ∧
      found.1.argumentBytes + fragment.arguments.utf8ByteSize ≤
        found.1.config.streamingLimits.maxToolArgumentBytes ∧
      d' = { found.1 with
        argumentBytes := found.1.argumentBytes + fragment.arguments.utf8ByteSize
        calls := found.1.calls.upsert fragment.index fun _ =>
          { found.2.1 with arguments := found.2.1.arguments ++ fragment.arguments }
        pending := found.1.pending ++
          [.toolCallDelta { found.2.2 with argumentsFragment := fragment.arguments }] } := by
  unfold addFragment
  rw [bind_eq_ok]
  refine exists_congr fun found => and_congr_right fun _ => ?_
  obtain ⟨e, call, delta⟩ := found
  simp only
  by_cases h : e.config.streamingLimits.maxToolArgumentBytes <
      e.argumentBytes + fragment.arguments.utf8ByteSize
  · rw [if_pos h]
    exact ⟨fun h => (by cases h), fun h' => absurd h'.1 (not_le.mpr h)⟩
  · rw [if_neg h]
    exact ⟨fun h' => ⟨not_lt.mp h, (Except.ok.inj h').symm⟩, fun h' => congrArg Except.ok h'.2.symm⟩

/-- What stays as it is while calls are taken. -/
structure Keeps (d d' : Decoder) : Prop where
  config : d'.config = d.config
  structured : d'.structured = d.structured
  responseId : d'.responseId = d.responseId
  model : d'.model = d.model
  finish : d'.finish = d.finish
  done : d'.done = d.done
  resolvedModel : d'.resolvedModel = d.resolvedModel

theorem Keeps.refl (d : Decoder) : Keeps d d := ⟨rfl, rfl, rfl, rfl, rfl, rfl, rfl⟩

theorem Keeps.trans {d d' d'' : Decoder} (h : Keeps d d') (h' : Keeps d' d'') : Keeps d d'' :=
  ⟨h'.config.trans h.config, h'.structured.trans h.structured, h'.responseId.trans h.responseId,
    h'.model.trans h.model, h'.finish.trans h.finish, h'.done.trans h.done,
    h'.resolvedModel.trans h.resolvedModel⟩

/-- The call of a fragment: one that is there, or a new one with an identifier of its own. -/
theorem callOf_eq_ok {found : Decoder × Call × ToolCallDelta} : d.callOf fragment = .ok found ↔
    (∃ call, d.calls.get? fragment.index = some call ∧
      (∀ id ∈ fragment.id, id = call.id.value) ∧ (∀ name ∈ fragment.name, name = call.name.value) ∧
      found = (d, call, ⟨fragment.index, none, none, "", .empty⟩)) ∨
    (d.calls.get? fragment.index = none ∧ ∃ (id : ToolCallId) (name : ToolName),
      fragment.id = some id.value ∧ fragment.name = some name.value ∧ id.value ∉ d.ids ∧
      found = ({ d with ids := id.value :: d.ids }, ⟨id, name, ""⟩,
        ⟨fragment.index, some id, some name, "", .empty⟩)) := by
  unfold callOf
  cases hget : d.calls.get? fragment.index with
  | some call =>
    simp only [reduceCtorEq, false_and, or_false, Option.some.injEq, exists_eq_left']
    by_cases hsame : (∀ id ∈ fragment.id, id = call.id.value) ∧
        ∀ name ∈ fragment.name, name = call.name.value
    · rw [if_neg (by rw [any_ne_eq_false.mpr hsame.1, any_ne_eq_false.mpr hsame.2]; decide)]
      exact ⟨fun h => ⟨hsame.1, hsame.2, (Except.ok.inj h).symm⟩, fun h => congrArg Except.ok h.2.2.symm⟩
    · rw [if_pos]
      · exact ⟨fun h => (by cases h), fun h => absurd ⟨h.1, h.2.1⟩ hsame⟩
      · by_contra h
        obtain ⟨hid, hname⟩ := Bool.or_eq_false_iff.mp (Bool.not_eq_true _ ▸ h)
        exact hsame ⟨any_ne_eq_false.mp hid, any_ne_eq_false.mp hname⟩
  | none =>
    simp only [reduceCtorEq, false_and, exists_false, false_or, true_and]
    constructor
    · intro h
      cases hid : fragment.id with
      | none =>
        rw [hid] at h
        cases h
      | some text =>
        rw [hid] at h
        obtain ⟨id, hnew, h⟩ := bind_eq_ok.mp h
        cases hname : fragment.name with
        | none =>
          rw [hname] at h
          cases h
        | some text' =>
          rw [hname] at h
          obtain ⟨name, hnew', h⟩ := bind_eq_ok.mp h
          split at h
          · cases h
          · rename_i hnot
            refine ⟨id, name, ?_, ?_, hnot, (Except.ok.inj h).symm⟩
            · rw [ToolCallId.new_eq_ok.mp (mapError_eq_ok.mp hnew)]
            · rw [ToolName.new_eq_ok.mp (mapError_eq_ok.mp hnew')]
    · rintro ⟨id, name, hid, hname, hnot, rfl⟩
      rw [hid, hname]
      simp only [ToolCallId.new_eq_ok.mpr rfl, ToolName.new_eq_ok.mpr rfl, mapError_ok, ok_bind,
        if_neg hnot]
      rfl

theorem addFragment_keeps (h : d.addFragment fragment = .ok d') : Keeps d d' := by
  obtain ⟨found, hfound, -, rfl⟩ := addFragment_eq_ok.mp h
  rcases callOf_eq_ok.mp hfound with ⟨_, -, -, -, rfl⟩ | ⟨-, _, _, -, -, -, rfl⟩
  · exact ⟨rfl, rfl, rfl, rfl, rfl, rfl, rfl⟩
  · exact ⟨rfl, rfl, rfl, rfl, rfl, rfl, rfl⟩

theorem addFragments_keeps : ∀ {fragments : List Fragment} {d : Decoder},
    fragments.foldlM addFragment d = .ok d' → Keeps d d'
  | [], d, h => by
    obtain rfl := Except.ok.inj h
    exact .refl d
  | fragment :: fragments, d, h => by
    obtain ⟨d₁, hadd, h⟩ := bind_eq_ok.mp h
    exact (addFragment_keeps hadd).trans (addFragments_keeps h)

/-- The entries of `tool_calls` are read, then taken. -/
theorem tools_eq_ok : d.tools delta = .ok d' ↔ ∃ fragments,
    readTools d.config delta = .ok fragments ∧ fragments.foldlM addFragment d = .ok d' := by
  unfold tools readTools
  cases nonnull (delta.lookup "tool_calls") with
  | none =>
    constructor
    · intro h
      exact ⟨[], rfl, h⟩
    · rintro ⟨_, hnil, h⟩
      cases hnil
      exact h
  | some value =>
    simp only
    cases asArray? value with
    | none =>
      constructor
      · intro h
        cases h
      · rintro ⟨_, h, -⟩
        cases h
    | some entries =>
      simp only
      by_cases hlength : d.config.streamingLimits.maxToolCalls.toNat < entries.length
      · rw [if_pos hlength, if_pos hlength]
        constructor
        · intro h
          cases h
        · rintro ⟨_, h, -⟩
          cases h
      · rw [if_neg hlength, if_neg hlength]
        refine foldlM_read_eq_ok (fun e => e.config = d.config) (fun e entry he => ?_)
          (fun e fragment e' he h => (addFragment_keeps h).config.trans he) rfl
        unfold tool
        rw [he]

theorem addText_keeps (content : Option String) : Keeps d (d.addText content) := by
  unfold addText
  split
  · exact ⟨rfl, rfl, rfl, rfl, rfl, rfl, rfl⟩
  · exact .refl d

/-- A choice is read, then taken. -/
theorem choice_eq_ok : d.choice value = .ok d' ↔
    ∃ choice, readChoice d.config d.structured value = .ok choice ∧ d.takeChoice choice = .ok d' := by
  unfold choice readChoice takeChoice
  by_cases hfinish : d.finish.isSome = true
  · simp [hfinish]
  by_cases hindex : (field? value "index").bind asU64? = some 0
  swap
  · simp [hfinish, hindex]
  by_cases hid : (d.responseId.isNone || d.model.isNone) = true
  · simp [hfinish, hindex, hid]
  rw [if_neg hfinish, if_neg (not_not.mpr hindex), if_neg hid, if_neg (not_not.mpr hindex)]
  cases (field? value "delta").bind asObject? with
  | none =>
    constructor
    · intro h
      cases h
    · rintro ⟨_, h, -⟩
      cases h
  | some delta =>
    simp only [hfinish, hid, Bool.false_eq_true, if_false, pure_eq_ok]
    cases checkDelta d.structured delta with
    | error error =>
      constructor
      · intro h
        cases h
      · rintro ⟨_, h, -⟩
        cases h
    | ok u =>
      simp only [ok_bind]
      cases optionalString (delta.lookup "content") "content" with
      | error error =>
        constructor
        · intro h
          cases h
        · rintro ⟨_, h, -⟩
          cases h
      | ok content =>
        simp only [ok_bind]
        cases optionalString (field? value "finish_reason") "finish_reason" with
        | error error =>
          constructor
          · intro h
            obtain ⟨_, -, h⟩ := bind_eq_ok.mp h
            cases h
          · rintro ⟨_, h, -⟩
            obtain ⟨_, -, h⟩ := bind_eq_ok.mp h
            cases h
        | ok reason =>
          have hreason : ∀ e : Decoder, (match reason with
              | none => Except.ok e
              | some reason => finishOf e.calls.entries.isEmpty reason >>= fun finish =>
                .ok { e with finish := some finish }) = e.takeReason reason := fun e => by
            cases reason with
            | none => rfl
            | some reason =>
              unfold takeReason
              cases finishOf e.calls.entries.isEmpty reason <;> rfl
          constructor
          · intro h
            obtain ⟨d₁, htools, h⟩ := bind_eq_ok.mp h
            obtain ⟨fragments, hread, hadd⟩ := tools_eq_ok.mp htools
            rw [(addText_keeps content).config] at hread
            refine ⟨⟨content, fragments, reason⟩, bind_eq_ok.mpr ⟨fragments, hread, rfl⟩,
              bind_eq_ok.mpr ⟨d₁, hadd, ?_⟩⟩
            exact (hreason d₁).symm.trans h
          · rintro ⟨choice, hchoice, h⟩
            obtain ⟨fragments, hread, hfragments⟩ := bind_eq_ok.mp hchoice
            obtain rfl := Except.ok.inj hfragments
            obtain ⟨d₁, hadd, h⟩ := bind_eq_ok.mp h
            refine bind_eq_ok.mpr ⟨d₁, tools_eq_ok.mpr ⟨fragments, ?_, hadd⟩, (hreason d₁).trans h⟩
            rw [(addText_keeps content).config]
            exact hread

theorem takeChoice_keeps {choice : Choice} (h : d.takeChoice choice = .ok d') :
    ∃ d₁ finish, Keeps d d₁ ∧ d' = { d₁ with finish } := by
  unfold takeChoice at h
  split at h
  · cases h
  · split at h
    · cases h
    · obtain ⟨d₁, hadd, h⟩ := bind_eq_ok.mp h
      have hkeeps := (addText_keeps choice.content).trans (addFragments_keeps hadd)
      cases hreason : choice.reason with
      | none =>
        rw [hreason] at h
        exact ⟨d₁, d₁.finish, hkeeps, (Except.ok.inj h).symm⟩
      | some reason =>
        rw [hreason] at h
        obtain ⟨finish, -, rfl⟩ := map_eq_ok.mp h
        exact ⟨d₁, some finish, hkeeps, rfl⟩

/-- One identity is read, then kept. -/
theorem keep_eq_ok {α : Type} [DecidableEq α] {old new kept : Option α} {field : String} :
    keep old new field = .ok kept ↔ (∀ a ∈ new, ∀ b ∈ old, b = a) ∧ kept = new.or old := by
  cases new with
  | none => exact ⟨fun h => ⟨by simp, (Except.ok.inj h).symm⟩, fun h => congrArg Except.ok h.2.symm⟩
  | some a =>
    unfold keep
    simp only
    by_cases h : old.any (· ≠ a) = true
    · rw [if_pos h]
      refine ⟨fun h => (by cases h), fun h' => ?_⟩
      rw [any_ne_eq_false.mpr (h'.1 a rfl)] at h
      exact absurd h (by decide)
    · rw [if_neg h]
      have hsame := any_ne_eq_false.mp (Bool.not_eq_true _ ▸ h)
      refine ⟨fun h' => ⟨?_, (Except.ok.inj h').symm⟩, fun h' => congrArg Except.ok h'.2.symm⟩
      rintro b ⟨⟩
      exact hsame

/-- One identity of a response is read, then kept. -/
theorem keepIdentity_eq_ok {α : Type} [DecidableEq α] {new : String → Except IdentifierError α}
    {field changed : String} {old kept : Option α} :
    keepIdentity new field changed old value = .ok kept ↔
      ∃ a, readIdentity new value field = .ok a ∧ keep old a changed = .ok kept := by
  unfold keepIdentity readIdentity
  cases optionalString (field? value field) field with
  | error error =>
    constructor
    · intro h
      cases h
    · rintro ⟨_, h, -⟩
      cases h
  | ok text =>
    simp only [ok_bind]
    cases text with
    | none =>
      constructor
      · intro h
        exact ⟨none, rfl, h⟩
      · rintro ⟨a, ha, hkeep⟩
        obtain rfl := Except.ok.inj ha
        exact hkeep
    | some text =>
      simp only
      cases new text with
      | error error =>
        constructor
        · intro h
          cases h
        · rintro ⟨_, h, -⟩
          cases h
      | ok a =>
        have hkeep : keep old (some a) changed =
            if old.any (· ≠ a) then .error (invalid changed) else .ok (some a) := rfl
        constructor
        · intro h
          refine ⟨some a, rfl, hkeep.trans ?_⟩
          by_cases hold : old.any (· ≠ a) = true
          · simp only [mapError_ok, ok_bind, if_pos hold] at h
            cases h
          · simp only [mapError_ok, ok_bind, if_neg hold] at h
            rw [if_neg hold]
            exact h
        · rintro ⟨_, ha, h⟩
          obtain rfl := Except.ok.inj ha
          rw [hkeep] at h
          by_cases hold : old.any (· ≠ a) = true
          · rw [if_pos hold] at h
            cases h
          · rw [if_neg hold] at h
            simp only [mapError_ok, ok_bind, if_neg hold]
            exact h

/-- What a frame does to a decoder. -/
theorem take_eq_ok {frame : Frame} : d.take frame = .ok d' ↔ ∃ responseId model d₁,
    keep d.responseId frame.id "changed response id" = .ok responseId ∧
      keep d.model frame.model "changed model" = .ok model ∧
      takeChoice? { d with responseId, model } frame.choice = .ok d₁ ∧
      d' = { d₁ with pending := d₁.pending ++ (frame.usage.map .usage).toList } := by
  constructor
  · intro h
    obtain ⟨responseId, hid, h⟩ := bind_eq_ok.mp h
    obtain ⟨model, hmodel, h⟩ := bind_eq_ok.mp h
    obtain ⟨d₁, hchoice, h⟩ := bind_eq_ok.mp h
    exact ⟨responseId, model, d₁, hid, hmodel, hchoice, (Except.ok.inj h).symm⟩
  · rintro ⟨responseId, model, d₁, hid, hmodel, hchoice, rfl⟩
    exact bind_eq_ok.mpr ⟨_, hid, bind_eq_ok.mpr ⟨_, hmodel, bind_eq_ok.mpr ⟨_, hchoice, rfl⟩⟩⟩

theorem takeChoice?_config {choice : Option Choice} (h : d.takeChoice? choice = .ok d') :
    d'.config = d.config := by
  cases choice with
  | some choice =>
    obtain ⟨d₁, _, hkeeps, rfl⟩ := takeChoice_keeps h
    exact hkeeps.config
  | none =>
    replace h : (if d.finish.isNone then Except.error _ else Except.ok d) = Except.ok d' := h
    split at h
    · cases h
    · rw [Except.ok.inj h]

/-- The choices of a frame are read, then taken. -/
theorem choices_eq_ok {choices : List Json} : d.choices choices = .ok d' ↔ ∃ choice,
    readChoices d.config d.structured choices = .ok choice ∧ d.takeChoice? choice = .ok d' := by
  unfold Decoder.choices readChoices
  cases choices.head? with
  | none =>
    constructor
    · intro h
      exact ⟨none, rfl, h⟩
    · rintro ⟨choice, hchoice, h⟩
      obtain rfl := Except.ok.inj hchoice
      exact h
  | some first =>
    simp only
    rw [choice_eq_ok]
    constructor
    · rintro ⟨choice, hread, h⟩
      exact ⟨some choice, map_eq_ok.mpr ⟨choice, hread, rfl⟩, h⟩
    · rintro ⟨_, hchoice, h⟩
      obtain ⟨choice, hread, rfl⟩ := map_eq_ok.mp hchoice
      exact ⟨choice, hread, h⟩

/-- **A frame is read, then taken.** -/
theorem pushValue_eq_ok : d.pushValue value = .ok d' ↔
    ∃ frame, readFrame d.config d.structured value = .ok frame ∧ d.take frame = .ok d' := by
  unfold pushValue readFrame
  cases asObject? value with
  | none =>
    constructor
    · intro h
      cases h
    · rintro ⟨_, h, -⟩
      cases h
  | some object =>
    simp only
    cases checkFrame object with
    | error error =>
      constructor
      · intro h
        cases h
      · rintro ⟨_, h, -⟩
        cases h
    | ok u =>
      simp only [ok_bind]
      cases (field? value "choices").bind asArray? with
      | none =>
        simp only
        constructor
        · intro h
          obtain ⟨_, -, h⟩ := bind_eq_ok.mp h
          cases h
        · rintro ⟨_, h, -⟩
          obtain ⟨_, -, h⟩ := bind_eq_ok.mp h
          obtain ⟨_, -, h⟩ := bind_eq_ok.mp h
          cases h
      | some choices =>
        simp only
        by_cases hlength : 1 < choices.length
        · simp only [if_pos hlength]
          constructor
          · intro h
            obtain ⟨_, -, h⟩ := bind_eq_ok.mp h
            cases h
          · rintro ⟨_, h, -⟩
            obtain ⟨_, -, h⟩ := bind_eq_ok.mp h
            obtain ⟨_, -, h⟩ := bind_eq_ok.mp h
            cases h
        · simp only [if_neg hlength]
          constructor
          · intro h
            obtain ⟨e, hidentity, h⟩ := bind_eq_ok.mp h
            obtain ⟨responseId, hid, hidentity⟩ := bind_eq_ok.mp hidentity
            obtain ⟨model, hmodel, hidentity⟩ := bind_eq_ok.mp hidentity
            obtain rfl := Except.ok.inj hidentity
            obtain ⟨id, hread, hkeep⟩ := keepIdentity_eq_ok.mp hid
            obtain ⟨model', hread', hkeep'⟩ := keepIdentity_eq_ok.mp hmodel
            obtain ⟨d₁, hchoices, h⟩ := bind_eq_ok.mp h
            obtain ⟨choice, hchoice, htake⟩ := choices_eq_ok.mp hchoices
            obtain ⟨usage, husage, h⟩ := bind_eq_ok.mp h
            rw [takeChoice?_config htake] at husage
            refine ⟨⟨id, model', choice, usage⟩, ?_, take_eq_ok.mpr
              ⟨responseId, model, d₁, hkeep, hkeep', htake, (Except.ok.inj h).symm⟩⟩
            exact bind_eq_ok.mpr ⟨id, hread, bind_eq_ok.mpr ⟨model', hread',
              bind_eq_ok.mpr ⟨choice, hchoice, bind_eq_ok.mpr ⟨usage, husage, rfl⟩⟩⟩⟩
          · rintro ⟨frame, hframe, htake⟩
            obtain ⟨id, hread, hframe⟩ := bind_eq_ok.mp hframe
            obtain ⟨model', hread', hframe⟩ := bind_eq_ok.mp hframe
            obtain ⟨choice, hchoice, hframe⟩ := bind_eq_ok.mp hframe
            obtain ⟨usage, husage, hframe⟩ := bind_eq_ok.mp hframe
            obtain rfl := Except.ok.inj hframe
            obtain ⟨responseId, model, d₁, hkeep, hkeep', htaken, rfl⟩ := take_eq_ok.mp htake
            have hidentity : d.identity value = .ok { d with responseId, model } :=
              bind_eq_ok.mpr ⟨responseId, keepIdentity_eq_ok.mpr ⟨id, hread, hkeep⟩,
                bind_eq_ok.mpr ⟨model, keepIdentity_eq_ok.mpr ⟨model', hread', hkeep'⟩, rfl⟩⟩
            refine bind_eq_ok.mpr ⟨_, hidentity, bind_eq_ok.mpr
              ⟨d₁, choices_eq_ok.mpr ⟨choice, hchoice, htaken⟩, bind_eq_ok.mpr ⟨usage, ?_, rfl⟩⟩⟩
            rw [takeChoice?_config htaken]
            exact husage

end Taking

end Decoder

end GroupAgent.Genai
