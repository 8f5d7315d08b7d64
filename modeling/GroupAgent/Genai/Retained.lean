import GroupAgent.Genai.EventStream
import GroupAgent.Genai.Attribution
import GroupAgent.Model.Fragments

/-!
# What a text stream retains at its end

What `handle_end` (`stream.rs:217-358` of `crates/group-agent-genai/src`) makes of an `End`:

* `captureParts_eq_ok`, `captureSignatures_eq_ok`, `captureReasoning_eq_ok`: what is taken of the
  captured content, the signatures and the reasoning, each up to its limit.
* `handleEnd_eq_ok`: when an `End` is accepted. `handleEnd_ok`: what is queued then: the usage, the
  extensions, the completion.
* `capturedReasoning`: the reasoning that is retained in the end. A reasoning part of the captured
  content is appended to what was streamed; the separate reasoning field is compared with it.

Results: the two lemmas about `handleEnd`, from which `TextOnly` gets what a whole stream retains.

Out of scope: an `End` with tool calls, which fails; and the text of the content, which has been
streamed.
-/

namespace GroupAgent.Genai

open GroupAgent.Lib GroupAgent.Model GroupAgent.Model.ChatStreamCollector
open GroupAgent.Prebuilt (Poll)

/-! ## What is retained -/

/-- The loop over the content goes on past the part. -/
def Passable : GenaiContentPart → Prop
  | .binary | .custom | .toolResponse _ => False
  | _ => True

def reasoningPart? : GenaiContentPart → Option String
  | .reasoningContent reasoning => some reasoning
  | _ => none

/-- What is kept of a reasoning text. -/
def GenaiAdapterConfig.kept (config : GenaiAdapterConfig) (reasoning : String) : String :=
  if config.retainReasoningContent then reasoning else ""

def GenaiAdapterConfig.Fits (config : GenaiAdapterConfig) (reasoning : String) : Prop :=
  reasoning.utf8ByteSize ≤ config.streamingLimits.maxReasoningBytes

instance (config : GenaiAdapterConfig) (reasoning : String) : Decidable (config.Fits reasoning) :=
  inferInstanceAs (Decidable (_ ≤ _))

/-- The bytes of the signatures are within the limit. -/
def GenaiAdapterConfig.Bounds (config : GenaiAdapterConfig) (signatures : List String) : Prop :=
  signatureSize signatures ≤ config.streamingLimits.maxThoughtSignatureBytes

section Retaining

variable {config : GenaiAdapterConfig} {a b : String}

theorem GenaiAdapterConfig.Fits.left (h : config.Fits (a ++ b)) : config.Fits a := by
  unfold GenaiAdapterConfig.Fits at h ⊢
  rw [String.utf8ByteSize_append] at h
  exact (Nat.le_add_right _ _).trans h

theorem GenaiAdapterConfig.kept_append :
    config.kept (a ++ b) = config.kept a ++ config.kept b := by
  unfold GenaiAdapterConfig.kept
  split
  · rfl
  · rfl

end Retaining

/-- What is retained of a text and the captured field, which has to agree where there is a text. -/
def taken (config : GenaiAdapterConfig) (text : String) (field : Option String) : Option String :=
  if text = "" then
    if config.Fits (config.kept (field.getD "")) then some (config.kept (field.getD "")) else none
  else if field.getD text = text then some text else none

namespace GenaiEventStream

section Pushing

variable {this next : GenaiEventStream} {chunk signature : String}

/-- A stream with more reasoning. -/
def adding (this : GenaiEventStream) (chunk : String) : GenaiEventStream :=
  { this with reasoning := this.reasoning ++ this.config.kept chunk }

theorem adding_adding (a b : String) : (this.adding a).adding b = this.adding (a ++ b) := by
  unfold adding
  rw [GenaiAdapterConfig.kept_append, String.append_assoc]

theorem adding_empty : this.adding "" = this := by
  have hkept : this.config.kept "" = "" := by
    unfold GenaiAdapterConfig.kept
    split <;> rfl
  unfold adding
  rw [hkept, String.append_empty]

theorem pushReasoning_eq_ok (hfits : this.config.Fits this.reasoning) :
    this.pushReasoning chunk = .ok next ↔
      this.config.Fits (this.adding chunk).reasoning ∧ next = this.adding chunk := by
  unfold pushReasoning
  by_cases hretain : this.config.retainReasoningContent = true
  · have hkept : this.config.kept chunk = chunk := by rw [GenaiAdapterConfig.kept, if_pos hretain]
    rw [if_neg (not_not.mpr hretain)]
    unfold adding GenaiAdapterConfig.Fits
    rw [hkept, String.utf8ByteSize_append]
    split
    · next hle => simp [hle, eq_comm]
    · next hle => simp [hle]
  · have hkept : this.config.kept chunk = "" := by rw [GenaiAdapterConfig.kept, if_neg hretain]
    rw [if_pos hretain]
    unfold adding
    rw [hkept, String.append_empty]
    exact ⟨fun h => ⟨hfits, (Except.ok.inj h).symm⟩, fun h => congrArg Except.ok h.2.symm⟩

/-- A stream with more signatures. -/
def signing (this : GenaiEventStream) (signatures : List String) : GenaiEventStream :=
  { this with
    thoughtSignatures := this.thoughtSignatures ++ signatures
    thoughtSignatureBytes := this.thoughtSignatureBytes + signatureSize signatures }

theorem pushSignature_eq_ok : this.pushSignature signature = .ok next ↔
    this.thoughtSignatureBytes + signature.utf8ByteSize ≤
      this.config.streamingLimits.maxThoughtSignatureBytes ∧ next = this.signing [signature] := by
  unfold pushSignature checkedSignatureTotal signing
  simp only [signatureSize, List.map_singleton, List.sum_singleton]
  split
  · next hlt => simp [hlt]
  · next hle => simp [Nat.not_lt.mp hle, eq_comm]

theorem pushSignatures_eq_ok {signatures : List String}
    (hbytes : this.thoughtSignatureBytes ≤ this.config.streamingLimits.maxThoughtSignatureBytes) :
    signatures.foldlM pushSignature this = .ok next ↔
      this.thoughtSignatureBytes + signatureSize signatures ≤
        this.config.streamingLimits.maxThoughtSignatureBytes ∧ next = this.signing signatures := by
  induction signatures generalizing this with
  | nil =>
    have hsame : this.signing [] = this := by
      unfold signing
      rw [List.append_nil]
      rfl
    rw [hsame]
    exact ⟨fun h => ⟨hbytes, (Except.ok.inj h).symm⟩, fun h => congrArg Except.ok h.2.symm⟩
  | cons signature signatures ih =>
    have hsize : signatureSize (signature :: signatures) =
        signature.utf8ByteSize + signatureSize signatures := by simp [signatureSize]
    have hsigning : this.signing (signature :: signatures) =
        (this.signing [signature]).signing signatures := by
      simp [signing, signatureSize, Nat.add_assoc]
    rw [List.foldlM_cons, bind_eq_ok, hsize, hsigning]
    constructor
    · rintro ⟨first, hfirst, h⟩
      obtain ⟨hle, rfl⟩ := pushSignature_eq_ok.mp hfirst
      obtain ⟨hbytes', rfl⟩ := (ih (by simpa [signing, signatureSize] using hle)).mp h
      exact ⟨by simpa [signing, signatureSize, Nat.add_assoc] using hbytes', rfl⟩
    · rintro ⟨hle, rfl⟩
      have hfirst : this.thoughtSignatureBytes + signature.utf8ByteSize ≤
          this.config.streamingLimits.maxThoughtSignatureBytes := by omega
      refine ⟨this.signing [signature], pushSignature_eq_ok.mpr ⟨hfirst, rfl⟩, ?_⟩
      refine (ih (by simpa [signing, signatureSize] using hfirst)).mpr ⟨?_, rfl⟩
      simpa [signing, signatureSize, Nat.add_assoc] using hle

end Pushing

/-! ## The captured content -/

section Content

variable {this next : GenaiEventStream} {parts : List GenaiContentPart}
  {signatures : List String} {calls : List GenaiToolCall} {state : Capturing}

/-- The state of the loop past some parts. -/
def gathered (this : GenaiEventStream) (signatures : List String) (calls : List GenaiToolCall)
    (parts : List GenaiContentPart) : Capturing where
  stream := this.adding (concat (parts.filterMap reasoningPart?))
  signatures := signatures ++ parts.filterMap signaturePart?
  calls := calls ++ parts.filterMap asToolCall?

theorem capturePart_eq_ok {part : GenaiContentPart} (hfits : this.config.Fits this.reasoning) :
    capturePart ⟨this, signatures, calls⟩ part = .ok state ↔
      Passable part ∧ this.config.Fits (this.gathered signatures calls [part]).stream.reasoning ∧
        state = this.gathered signatures calls [part] := by
  have hsame : this.adding (concat []) = this := adding_empty
  have hone (reasoning : String) : concat [reasoning] = reasoning := String.append_empty
  cases part with
  | reasoningContent reasoning =>
    have hpart : capturePart ⟨this, signatures, calls⟩ (.reasoningContent reasoning) =
        this.pushReasoning reasoning >>= fun stream => pure ⟨stream, signatures, calls⟩ := by
      unfold capturePart
      simp only
      split
      · rfl
      · next hretain =>
        rw [pushReasoning, if_pos hretain]
        rfl
    rw [hpart, bind_eq_ok]
    simp only [gathered, List.filterMap_cons, reasoningPart?, signaturePart?, asToolCall?,
      List.filterMap_nil, List.append_nil, hone, Passable, true_and]
    constructor
    · rintro ⟨stream, hstream, h⟩
      obtain ⟨hfits', rfl⟩ := (pushReasoning_eq_ok hfits).mp hstream
      exact ⟨hfits', (Except.ok.inj h).symm⟩
    · rintro ⟨hfits', rfl⟩
      exact ⟨_, (pushReasoning_eq_ok hfits).mpr ⟨hfits', rfl⟩, rfl⟩
  | text _ | thoughtSignature _ | toolCall _ =>
    simp only [capturePart, gathered, List.filterMap_cons, reasoningPart?, signaturePart?,
      asToolCall?, List.filterMap_nil, List.append_nil, hsame, Passable, true_and]
    exact ⟨fun h => ⟨hfits, (Except.ok.inj h).symm⟩, fun h => congrArg Except.ok h.2.symm⟩
  | binary | custom | toolResponse _ => simp [capturePart, Passable]

/-- The loop over the content takes what is in it, up to the limit. -/
theorem captureParts_eq_ok (hfits : this.config.Fits this.reasoning) :
    parts.foldlM capturePart ⟨this, signatures, calls⟩ = .ok state ↔
      (∀ part ∈ parts, Passable part) ∧
        this.config.Fits (this.gathered signatures calls parts).stream.reasoning ∧
        state = this.gathered signatures calls parts := by
  induction parts generalizing this signatures calls with
  | nil =>
    have hnil : this.gathered signatures calls [] = ⟨this, signatures, calls⟩ := by
      simp only [gathered, List.filterMap_nil, List.append_nil]
      rw [show concat [] = "" from rfl, adding_empty]
    rw [hnil]
    refine ⟨fun h => ⟨by simp, hfits, (Except.ok.inj h).symm⟩, fun h => ?_⟩
    exact congrArg Except.ok h.2.2.symm
  | cons part parts ih =>
    have hcons : this.gathered signatures calls (part :: parts) =
        (this.gathered signatures calls [part]).stream.gathered
          (this.gathered signatures calls [part]).signatures
          (this.gathered signatures calls [part]).calls parts := by
      unfold gathered
      have hparts : part :: parts = [part] ++ parts := rfl
      rw [hparts]
      simp only [List.filterMap_append, concat_append, adding_adding, List.append_assoc]
    have hsame : (this.gathered signatures calls [part]).stream.config = this.config := rfl
    rw [List.foldlM_cons, bind_eq_ok, List.forall_mem_cons, hcons]
    constructor
    · rintro ⟨first, hfirst, h⟩
      obtain ⟨hpass, hfits', rfl⟩ := (capturePart_eq_ok hfits).mp hfirst
      obtain ⟨hpasses, hfits'', rfl⟩ := (ih hfits').mp h
      exact ⟨⟨hpass, hpasses⟩, hfits'', rfl⟩
    · rintro ⟨⟨hpass, hpasses⟩, hfits'', rfl⟩
      have hfits' : this.config.Fits (this.gathered signatures calls [part]).stream.reasoning :=
        GenaiAdapterConfig.Fits.left hfits''
      exact ⟨_, (capturePart_eq_ok hfits).mpr ⟨hpass, hfits', rfl⟩,
        (ih hfits').mpr ⟨hpasses, hfits'', rfl⟩⟩

end Content

/-! ## The captured reasoning -/

/-- Reasoning is retained only where that is configured, and within the limit. -/
structure Keeps (this : GenaiEventStream) : Prop where
  fits : this.config.Fits this.reasoning
  retain : this.reasoning ≠ "" → this.config.retainReasoningContent = true

section Reasoning

variable {this next : GenaiEventStream}

theorem Keeps.adding {chunk : String} (h : this.Keeps)
    (hfits : this.config.Fits (this.adding chunk).reasoning) : (this.adding chunk).Keeps := by
  refine ⟨hfits, fun hne => ?_⟩
  by_contra hretain
  have hkept : this.config.kept chunk = "" := if_neg hretain
  have hreasoning : (this.adding chunk).reasoning = this.reasoning := by
    unfold GenaiEventStream.adding
    rw [hkept, String.append_empty]
  exact hretain (h.retain (hreasoning ▸ hne))

theorem pushReasoning_empty (hfits : this.config.Fits this.reasoning) :
    this.pushReasoning "" = .ok this :=
  (pushReasoning_eq_ok hfits).mpr ⟨adding_empty.symm ▸ hfits, adding_empty.symm⟩

/-- Where there is no reasoning yet, the captured field is pushed. -/
theorem captureReasoning_of_empty (h : this.Keeps) (hempty : this.reasoning = "")
    (field : Option String) :
    this.captureReasoning field = this.pushReasoning (field.getD "") := by
  unfold captureReasoning
  cases hretain : this.config.retainReasoningContent with
  | false => simp [pushReasoning, hretain]
  | true =>
    cases field with
    | none => exact (pushReasoning_empty h.fits).symm
    | some captured => exact if_pos hempty

/-- Where there is some, the captured field is compared. -/
theorem captureReasoning_of_ne (h : this.Keeps) (hne : this.reasoning ≠ "")
    (field : Option String) :
    this.captureReasoning field =
      if field.getD this.reasoning = this.reasoning then .ok this
      else .error .conflictingReasoningContent := by
  unfold captureReasoning
  rw [h.retain hne]
  cases field with
  | none => exact (if_pos rfl).symm
  | some captured =>
    simp only [if_neg hne, Option.getD_some]
    by_cases hsame : captured = this.reasoning
    · rw [if_pos hsame, if_neg (not_not.mpr hsame.symm)]
    · rw [if_neg hsame, if_pos (Ne.symm hsame)]

theorem captureReasoning_eq_ok (h : this.Keeps) {field : Option String} :
    this.captureReasoning field = .ok next ↔
      ∃ reasoning, taken this.config this.reasoning field = some reasoning ∧
        next = { this with reasoning } := by
  unfold taken
  by_cases hempty : this.reasoning = ""
  · have hadding (text : String) : this.adding text =
        { this with reasoning := this.config.kept text } := by
      unfold GenaiEventStream.adding
      rw [hempty, String.empty_append]
    rw [captureReasoning_of_empty h hempty, pushReasoning_eq_ok h.fits, hadding, if_pos hempty]
    simp only
    split
    · next hfits => simp [hfits]
    · next hfits => simp [hfits]
  · rw [captureReasoning_of_ne h hempty, if_neg hempty]
    split
    · constructor
      · intro h'
        exact ⟨_, rfl, (Except.ok.inj h').symm⟩
      · rintro ⟨reasoning, h', rfl⟩
        rw [← Option.some.inj h']
    · simp

end Reasoning

/-! ## The extensions of the response -/

theorem responseExtensions_ok (this : GenaiEventStream) (rawStopReason : String) :
    ∃ extensions, this.responseExtensions rawStopReason = .ok extensions ∧
      extensions.get? REASONING_CONTENT =
        (if this.retained = [] then none else some (.array (this.retained.map .string))) ∧
      extensions.get? THOUGHT_SIGNATURES =
        if this.thoughtSignatures = [] then none
        else some (.array (this.thoughtSignatures.map .string)) := by
  have hkey : ∀ key ∈ [RESOLVED_MODEL, ADAPTER_KIND, RAW_STOP_REASON], IsKey key := by
    simp only [List.forall_mem_cons]
    exact ⟨⟨by decide +kernel, by decide⟩, ⟨by decide +kernel, by decide⟩,
      ⟨by decide +kernel, by decide⟩, by simp⟩
  obtain ⟨resolved, hresolved, -, hkept⟩ := insert_of_new (hkey RESOLVED_MODEL (by simp))
    (rfl : Extensions.empty.get? RESOLVED_MODEL = none) (.string this.resolvedModel.modelName)
  have hnone (key : String) (hne : key ≠ RESOLVED_MODEL) : resolved.get? key = none := hkept key hne
  obtain ⟨kind, hkind, -, hkept⟩ := insert_of_new (hkey ADAPTER_KIND (by simp))
    (hnone ADAPTER_KIND (by decide)) (.string this.resolvedModel.adapterKind.lower)
  have hnone (key : String) (hne : key ≠ RESOLVED_MODEL) (hne' : key ≠ ADAPTER_KIND) :
      kind.get? key = none := (hkept key hne').trans (hnone key hne)
  obtain ⟨raw, hraw, -, hkept⟩ := insert_of_new (hkey RAW_STOP_REASON (by simp))
    (hnone RAW_STOP_REASON (by decide) (by decide)) (.string rawStopReason)
  have hnone (key : String) (hne : key ≠ RESOLVED_MODEL) (hne' : key ≠ ADAPTER_KIND)
      (hne'' : key ≠ RAW_STOP_REASON) : raw.get? key = none :=
    (hkept key hne'').trans (hnone key hne hne')
  obtain ⟨reasoning, hreasoning, hvalue, hkept⟩ := insertUnlessEmpty_of_new isKey_reasoning
    (hnone REASONING_CONTENT (by decide) (by decide) (by decide)) this.retained
  obtain ⟨signatures, hsignatures, hvalue', hkept'⟩ := insertUnlessEmpty_of_new isKey_signatures
    ((hkept THOUGHT_SIGNATURES (by decide)).trans
      (hnone THOUGHT_SIGNATURES (by decide) (by decide) (by decide))) this.thoughtSignatures
  refine ⟨signatures, ?_, (hkept' REASONING_CONTENT (by decide)).trans hvalue, hvalue'⟩
  unfold responseExtensions insertString
  rw [hresolved, ok_bind, hkind, ok_bind, hraw, ok_bind, hreasoning, ok_bind, hsignatures]

end GenaiEventStream

/-! ## The end -/

namespace StreamEnd

def content (last : StreamEnd) : List GenaiContentPart := last.capturedContent.getD []

def reasoningParts (last : StreamEnd) : List String := last.content.filterMap reasoningPart?

def signatures (last : StreamEnd) : List String := last.content.filterMap signaturePart?

end StreamEnd

/-- The events at the end of a stream, with what they retain. -/
structure Completes (config : GenaiAdapterConfig) (reasoning : String) (signatures : List String)
    (tail : List Item) : Prop where
  fits : config.Fits reasoning
  bounds : config.Bounds signatures
  events : ∃ responseId model extensions reason, ∃ usage : Option TokenUsage,
    tail = [.ok (.responseStarted responseId (some model) extensions)] ++
      usage.toList.map (fun usage => .ok (.usage usage)) ++ [.ok (.finished reason)] ∧
    extensions.get? REASONING_CONTENT =
      (if reasoning = "" then none else some (.array [.string reasoning])) ∧
    extensions.get? THOUGHT_SIGNATURES =
      if signatures = [] then none else some (.array (signatures.map .string))

/-- An `End` is accepted, as far as it is not about the reasoning. -/
structure Ordinary (config : GenaiAdapterConfig) (resolvedModel : ModelIden) (last : StreamEnd) :
    Prop where
  passable : ∀ part ∈ last.content, Passable part
  calls : last.content.filterMap asToolCall? = []
  bounds : config.Bounds last.signatures
  id : ∃ responseId, (last.capturedResponseId.mapM ResponseId.new) = .ok responseId
  model : ∃ model, ModelId.new resolvedModel.modelName = .ok model
  usage : ∃ usage, mapGenaiUsage (last.capturedUsage.getD .default) config.retainUsageDetails =
    .ok usage

/-- The reasoning that is retained at an `End`, after what was streamed. -/
def capturedReasoning (config : GenaiAdapterConfig) (streamed : String) (last : StreamEnd) :
    Option String :=
  let reasoning := streamed ++ config.kept (concat last.reasoningParts)
  if config.Fits reasoning then taken config reasoning last.capturedReasoningContent else none

namespace GenaiEventStream

/-- A stream that reads what the provider sends. -/
structure Opened (this : GenaiEventStream) : Prop where
  terminal : this.terminal = false
  sawEnd : this.sawEnd = false
  pending : this.pending = []
  thoughtSignatures : this.thoughtSignatures = []
  thoughtSignatureBytes : this.thoughtSignatureBytes = 0
  keeps : this.Keeps

/-- A stream past an `End`. -/
structure Queues (this : GenaiEventStream) (last : StreamEnd) (reasoning : String)
    (next : GenaiEventStream) : Prop where
  inner : next.inner = this.inner
  config : next.config = this.config
  terminal : next.terminal = false
  sawEnd : next.sawEnd = true
  fits : this.config.Fits next.reasoning
  thoughtSignatures : next.thoughtSignatures = []
  bytes : next.thoughtSignatureBytes ≤ this.config.streamingLimits.maxThoughtSignatureBytes
  completes : Completes this.config reasoning last.signatures next.pending

section Ending

variable {this next : GenaiEventStream} {last : StreamEnd} {reasoning : String}

theorem captureSignatures_eq_ok (hnone : this.thoughtSignatures = [])
    (hbytes : this.thoughtSignatureBytes = 0) {signatures : List String} :
    this.captureSignatures signatures = .ok next ↔
      this.config.Bounds signatures ∧ next = this.signing signatures := by
  unfold captureSignatures
  rw [hnone, reconcileSignatures_nil, ok_bind, if_pos rfl,
    pushSignatures_eq_ok (by rw [hbytes]; exact Nat.zero_le _), hbytes, Nat.zero_add]
  rfl

/-- The reasoning that is left is as short. -/
theorem fits_left (hfits : this.config.Fits this.reasoning) :
    this.config.Fits (if this.retained = [] then this.reasoning else "") := by
  split
  · exact hfits
  · exact Nat.zero_le _

theorem mapM_mapError {id : Option String} {f : String → Except IdentifierError ResponseId}
    {g : IdentifierError → GenaiMappingError} {responseId : Option ResponseId} :
    id.mapM (fun id => (f id).mapError g) = .ok responseId ↔ id.mapM f = .ok responseId := by
  cases id with
  | none =>
    constructor
    · intro h
      exact congrArg Except.ok (Except.ok.inj h)
    · intro h
      exact congrArg Except.ok (Except.ok.inj h)
  | some id =>
    show some <$> (f id).mapError g = .ok responseId ↔ some <$> f id = .ok responseId
    simp only [map_eq_ok, mapError_eq_ok]

theorem queueEnd_eq_ok : this.queueEnd last = .ok next ↔
    ∃ extensions responseId model usage,
      this.responseExtensions (mapFinishReason last.capturedStopReason).2 = .ok extensions ∧
      last.capturedResponseId.mapM ResponseId.new = .ok responseId ∧
      ModelId.new this.resolvedModel.modelName = .ok model ∧
      mapGenaiUsage (last.capturedUsage.getD .default) this.config.retainUsageDetails = .ok usage ∧
      next = { this with
        reasoning := if this.retained = [] then this.reasoning else ""
        thoughtSignatures := []
        pending := this.pending ++ [.ok (.responseStarted responseId (some model) extensions)] ++
          usage.toList.map (fun usage => .ok (.usage usage)) ++
          [.ok (.finished (mapFinishReason last.capturedStopReason).1)]
        sawEnd := true } := by
  unfold queueEnd
  simp only [bind_eq_ok, mapM_mapError, mapError_eq_ok]
  constructor
  · rintro ⟨extensions, hextensions, responseId, hid, model, hmodel, usage, husage, h⟩
    exact ⟨extensions, responseId, model, usage, hextensions, hid, hmodel, husage,
      (Except.ok.inj h).symm⟩
  · rintro ⟨extensions, responseId, model, usage, hextensions, hid, hmodel, husage, rfl⟩
    exact ⟨extensions, hextensions, responseId, hid, model, hmodel, usage, husage, rfl⟩

/-- The stream before the events of its end are queued. -/
def closing (this : GenaiEventStream) (last : StreamEnd) (reasoning : String) : GenaiEventStream :=
  { this with
    reasoning
    thoughtSignatures := last.signatures
    thoughtSignatureBytes := signatureSize last.signatures }

theorem handleEnd_eq_ok (h : this.Opened) : this.handleEnd last = .ok next ↔
    (∀ part ∈ last.content, Passable part) ∧ last.content.filterMap asToolCall? = [] ∧
      this.config.Bounds last.signatures ∧
      ∃ reasoning, capturedReasoning this.config this.reasoning last = some reasoning ∧
        (this.closing last reasoning).queueEnd last = .ok next := by
  have hnone : (this.gathered [] [] last.content).stream.thoughtSignatures = [] :=
    h.thoughtSignatures
  have hbytes : (this.gathered [] [] last.content).stream.thoughtSignatureBytes = 0 :=
    h.thoughtSignatureBytes
  have hsame : capturedReasoning this.config this.reasoning last =
      if this.config.Fits (this.gathered [] [] last.content).stream.reasoning then
        taken this.config (this.gathered [] [] last.content).stream.reasoning
          last.capturedReasoningContent
      else none := rfl
  have hkeeps (hfits : this.config.Fits (this.gathered [] [] last.content).stream.reasoning) :
      ((this.gathered [] [] last.content).stream.signing last.signatures).Keeps :=
    ⟨(h.keeps.adding hfits).fits, (h.keeps.adding hfits).retain⟩
  have hsigning (reasoning : String) : { (this.gathered [] [] last.content).stream.signing
      last.signatures with reasoning } = this.closing last reasoning := by
    unfold signing closing
    rw [hnone, hbytes, List.nil_append, Nat.zero_add]
    rfl
  unfold handleEnd
  rw [bind_eq_ok]
  constructor
  · rintro ⟨content, hcontent, hok⟩
    obtain ⟨hpass, hfits, rfl⟩ := (captureParts_eq_ok h.keeps.fits).mp hcontent
    obtain ⟨signed, hsigned, hok⟩ := bind_eq_ok.mp hok
    obtain ⟨hbounds, rfl⟩ := (captureSignatures_eq_ok hnone hbytes).mp hsigned
    obtain ⟨hcalls, hok⟩ := ite_error_eq_ok.mp hok
    obtain ⟨whole, hwhole, hok⟩ := bind_eq_ok.mp hok
    obtain ⟨reasoning, htaken, rfl⟩ := (captureReasoning_eq_ok (hkeeps hfits)).mp hwhole
    refine ⟨hpass, not_not.mp hcalls, hbounds, reasoning, ?_, ?_⟩
    · exact hsame.trans ((if_pos hfits).trans htaken)
    · rw [← hsigning]
      exact hok
  · rintro ⟨hpass, hcalls, hbounds, reasoning, hreasoning, hok⟩
    rw [hsame] at hreasoning
    split at hreasoning
    · next hfits =>
      refine ⟨_, (captureParts_eq_ok h.keeps.fits).mpr ⟨hpass, hfits, rfl⟩, ?_⟩
      refine bind_eq_ok.mpr ⟨_, (captureSignatures_eq_ok hnone hbytes).mpr ⟨hbounds, rfl⟩, ?_⟩
      refine ite_error_eq_ok.mpr ⟨not_not.mpr hcalls, ?_⟩
      refine bind_eq_ok.mpr
        ⟨_, (captureReasoning_eq_ok (hkeeps hfits)).mpr ⟨_, hreasoning, rfl⟩, ?_⟩
      rw [← hsigning] at hok
      exact hok
    · cases hreasoning

theorem keeps_of_captured (h : this.Keeps)
    (hreasoning : capturedReasoning this.config this.reasoning last = some reasoning) :
    (this.closing last reasoning).Keeps := by
  unfold capturedReasoning at hreasoning
  simp only at hreasoning
  split at hreasoning
  · next hfits =>
    have hadding := h.adding hfits
    unfold taken at hreasoning
    split at hreasoning
    · split at hreasoning
      · next hfield =>
        obtain rfl := Option.some.inj hreasoning
        refine ⟨hfield, fun hne => ?_⟩
        by_contra hretain
        exact hne (if_neg hretain)
      · cases hreasoning
    · split at hreasoning
      · obtain rfl := Option.some.inj hreasoning
        exact ⟨hadding.fits, hadding.retain⟩
      · cases hreasoning
  · cases hreasoning

/-- What is retained is the reasoning, if there is any. -/
theorem retained_eq (h : this.Keeps) :
    this.retained = if this.reasoning = "" then [] else [this.reasoning] := by
  unfold retained
  by_cases hempty : this.reasoning = ""
  · rw [if_pos hempty, if_neg (fun hboth => hboth.2 hempty)]
  · rw [if_neg hempty, if_pos ⟨h.retain hempty, hempty⟩]

/-- An end that is accepted. -/
theorem handleEnd_ok (h : this.Opened) (hok : this.handleEnd last = .ok next) :
    Ordinary this.config this.resolvedModel last ∧
      ∃ reasoning, capturedReasoning this.config this.reasoning last = some reasoning ∧
        Queues this last reasoning next := by
  obtain ⟨hpass, hcalls, hbounds, reasoning, hreasoning, hok⟩ := (handleEnd_eq_ok h).mp hok
  have hkeeps := keeps_of_captured h.keeps hreasoning
  obtain ⟨extensions, responseId, model, usage, hextensions, hid, hmodel, husage, rfl⟩ :=
    queueEnd_eq_ok.mp hok
  obtain ⟨extensions', hextensions', hvalue, hsignatures⟩ :=
    (this.closing last reasoning).responseExtensions_ok (mapFinishReason last.capturedStopReason).2
  obtain rfl := Except.ok.inj (hextensions.symm.trans hextensions')
  refine ⟨⟨hpass, hcalls, hbounds, ⟨responseId, hid⟩, ⟨model, hmodel⟩, ⟨usage, husage⟩⟩,
    reasoning, hreasoning, rfl, rfl, h.terminal, rfl, ?_, rfl, hbounds, hkeeps.fits, hbounds, ?_⟩
  · exact fits_left hkeeps.fits
  · refine ⟨responseId, model, extensions, (mapFinishReason last.capturedStopReason).1, usage,
      ?_, ?_, hsignatures⟩
    · have hpending : (this.closing last reasoning).pending = [] := h.pending
      rw [hpending]
      rfl
    · have hretained : (this.closing last reasoning).retained =
          if reasoning = "" then [] else [reasoning] := retained_eq hkeeps
      rw [hvalue, hretained]
      by_cases hempty : reasoning = ""
      · rw [if_pos hempty, if_pos rfl, if_pos hempty]
      · rw [if_neg hempty, if_neg (List.cons_ne_nil _ _), if_neg hempty]
        rfl

theorem handleEnd_of_ordinary (h : this.Opened)
    (hordinary : Ordinary this.config this.resolvedModel last)
    (hreasoning : capturedReasoning this.config this.reasoning last = some reasoning) :
    ∃ next, this.handleEnd last = .ok next := by
  obtain ⟨responseId, hid⟩ := hordinary.id
  obtain ⟨model, hmodel⟩ := hordinary.model
  obtain ⟨usage, husage⟩ := hordinary.usage
  obtain ⟨extensions, hextensions, -, -⟩ :=
    (this.closing last reasoning).responseExtensions_ok (mapFinishReason last.capturedStopReason).2
  exact ⟨_, (handleEnd_eq_ok h).mpr ⟨hordinary.passable, hordinary.calls, hordinary.bounds,
    reasoning, hreasoning, queueEnd_eq_ok.mpr
      ⟨extensions, responseId, model, usage, hextensions, hid, hmodel, husage, rfl⟩⟩⟩

end Ending

end GenaiEventStream

end GroupAgent.Genai
