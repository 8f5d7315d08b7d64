import GroupAgent.Genai.Responses
import Mathlib.Algebra.BigOperators.Group.List.Basic
import Mathlib.Algebra.GroupWithZero.Nat

/-!
# Whose signature a signature is

The signatures of a captured body are those of its reasoning items, and belong to the function call
that follows. This is what `attach_openai_responses_continuation` (`response.rs:139-266`,
`push_distinct_signature` 325-350) does with them:

* `captureCalls_ok`: a body is accepted only if its signatures are owned, and each function call
  has the distinct signatures since the call before it;
* `attachCalls_runs`, `contentSteps_runs`: what a call of the response ends up with, from the body
  and from the parts of the content;
* `mapToolCalls_retained`: the request of the next turn has them as parts of their own before the
  call.

A call for which the body has no signature takes the signature parts that stand before it in the
content (19-129, where the content is normalized).

Results: **`attribution_iff`** says that this is the one way in which a call has other signatures
than those of the body, and that where it is not taken they survive the next request.
`stray_attributed` is a response in which it is taken.

Out of scope: adapters other than that of the OpenAI Responses protocol, whose content parts are
the only source of signatures.
-/

namespace GroupAgent.Genai

open GroupAgent.Lib GroupAgent.Model

/-! ## The runs of a body -/

namespace OutputItem

def signature? : OutputItem → Option String
  | .reasoning signature => signature
  | _ => none

def call? : OutputItem → Option RawToolCall
  | .functionCall call => some call
  | _ => none

def IsReasoning : OutputItem → Prop
  | .reasoning _ => True
  | _ => False

end OutputItem

/-- The function calls, each with the signatures of the reasoning items since the one before it. -/
abbrev rawRuns (items : List OutputItem) : List (RawToolCall × List String) :=
  runs OutputItem.signature? OutputItem.call? [] items

/-- Only reasoning items, and then a function call. -/
def Followed (items : List OutputItem) : Prop :=
  ∃ between call rest, items = between ++ .functionCall call :: rest ∧
    ∀ item ∈ between, item.IsReasoning

/-- After each signature there are only reasoning items until the next function call, which there
is. -/
def Owned (items : List OutputItem) : Prop :=
  ∀ before signature after, items = before ++ .reasoning (some signature) :: after → Followed after

section Capture

variable {limits : GenaiStreamingLimits} {items : List OutputItem} {item : OutputItem}
  {state state' : CaptureState} {run : List String}

theorem Followed.cons (h : Followed items) (hitem : item.IsReasoning) :
    Followed (item :: items) := by
  obtain ⟨between, call, rest, rfl, hbetween⟩ := h
  exact ⟨item :: between, call, rest, rfl, List.forall_mem_cons.mpr ⟨hitem, hbetween⟩⟩

theorem Owned.cons (h : Owned items)
    (hitem : ∀ signature, item = .reasoning (some signature) → Followed items) :
    Owned (item :: items) := by
  intro before signature after heq
  cases before with
  | nil =>
    obtain ⟨rfl, rfl⟩ := List.cons.inj heq
    exact hitem signature rfl
  | cons item' before => exact h before signature after (List.cons.inj heq).2

theorem eraseDups_snoc (run : List String) (signature : String) :
    (run ++ [signature]).eraseDups =
      if signature ∈ run then run.eraseDups else run.eraseDups ++ [signature] := by
  rw [List.eraseDups_append]
  by_cases h : signature ∈ run <;> simp [List.removeAll, h, List.eraseDups_cons]

theorem eraseDups_eq_nil : run.eraseDups = [] ↔ run = [] := by
  cases run with
  | nil => simp
  | cons signature run => simp [List.eraseDups_cons]

theorem pushDistinctSignature_pending {signature : String}
    (h : pushDistinctSignature limits state signature = .ok state')
    (hrun : state.pendingSignatures = run.eraseDups) :
    state'.pendingSignatures = (run ++ [signature]).eraseDups ∧
      state'.capturedCalls = state.capturedCalls := by
  rw [eraseDups_snoc, ← hrun]
  unfold pushDistinctSignature at h
  by_cases hmem : signature ∈ run
  · rw [if_pos (hrun ▸ List.mem_eraseDups.mpr hmem)] at h
    rw [if_pos hmem, Except.ok.inj h]
    exact ⟨rfl, rfl⟩
  · have hnot : signature ∉ state.pendingSignatures := by rwa [hrun, List.mem_eraseDups]
    rw [if_neg hnot] at h
    obtain ⟨-, h⟩ := ite_error_eq_ok.mp h
    obtain ⟨-, h⟩ := ite_error_eq_ok.mp h
    rw [if_neg hmem, ← Except.ok.inj h]
    exact ⟨rfl, rfl⟩

/-- The loop over the items takes the runs of the body, without what is there twice. -/
theorem captureSteps_ok (h : items.foldlM (captureStep limits) state = .ok state')
    (hrun : state.pendingSignatures = run.eraseDups) :
    state'.capturedCalls = state.capturedCalls ++
      (runs OutputItem.signature? OutputItem.call? run items).map
        (fun p => ⟨p.1, p.2.eraseDups⟩) ∧
    (state'.pendingSignatures = [] → Owned items ∧ (run ≠ [] → Followed items)) := by
  induction items generalizing state run with
  | nil =>
    obtain rfl := Except.ok.inj h
    refine ⟨by simp, fun hnil => ⟨fun before signature after heq => ?_, fun hne => ?_⟩⟩
    · simp at heq
    · exact absurd (eraseDups_eq_nil.mp (hrun ▸ hnil)) hne
  | cons item items ih =>
    rw [List.foldlM_cons] at h
    obtain ⟨next, hnext, hrest⟩ := bind_eq_ok.mp h
    cases item with
    | reasoning signature =>
      cases signature with
      | some signature =>
        obtain ⟨hpending, hcalls⟩ := pushDistinctSignature_pending hnext hrun
        obtain ⟨hcaptured, howned⟩ := ih hrest hpending
        have hruns : runs OutputItem.signature? OutputItem.call? run
            (.reasoning (some signature) :: items) =
              runs OutputItem.signature? OutputItem.call? (run ++ [signature]) items :=
          runs_cons_mark rfl rfl
        rw [hruns, ← hcalls]
        refine ⟨hcaptured, fun hnil => ?_⟩
        obtain ⟨howned, hfollowed⟩ := howned hnil
        have hfollowed := hfollowed (by simp)
        exact ⟨howned.cons fun _ _ => hfollowed, fun _ => hfollowed.cons trivial⟩
      | none =>
        obtain rfl := Except.ok.inj hnext
        obtain ⟨hcaptured, howned⟩ := ih hrest hrun
        have hruns : runs OutputItem.signature? OutputItem.call? run (.reasoning none :: items) =
            runs OutputItem.signature? OutputItem.call? run items := runs_cons_other rfl rfl
        rw [hruns]
        refine ⟨hcaptured, fun hnil => ?_⟩
        obtain ⟨howned, hfollowed⟩ := howned hnil
        exact ⟨howned.cons (by simp), fun hne => (hfollowed hne).cons trivial⟩
    | functionCall call =>
      obtain rfl := Except.ok.inj hnext
      obtain ⟨hcaptured, howned⟩ := ih hrest List.eraseDups_nil.symm
      have hruns : runs OutputItem.signature? OutputItem.call? run (.functionCall call :: items) =
          (call, run) :: rawRuns items := runs_cons_close rfl
      rw [hruns]
      refine ⟨by simpa [hrun] using hcaptured, fun hnil => ?_⟩
      exact ⟨(howned hnil).1.cons (by simp), fun _ => ⟨[], call, items, rfl, by simp⟩⟩
    | other =>
      simp only [captureStep] at hnext
      split at hnext
      · next hempty =>
        obtain rfl := Except.ok.inj hnext
        obtain ⟨hcaptured, howned⟩ := ih hrest hrun
        have hruns : runs OutputItem.signature? OutputItem.call? run (.other :: items) =
            runs OutputItem.signature? OutputItem.call? run items := runs_cons_other rfl rfl
        rw [hruns]
        refine ⟨hcaptured, fun hnil => ⟨(howned hnil).1.cons (by simp), fun hne => ?_⟩⟩
        exact absurd (eraseDups_eq_nil.mp (hrun ▸ hempty)) hne
      · cases hnext

/-! ## The limits of a body -/

/-- The bytes of signatures. -/
def signatureSize (signatures : List String) : Nat := (signatures.map String.utf8ByteSize).sum

/-- What a state counts is within the limits, and counted right. -/
structure CaptureState.Within (limits : GenaiStreamingLimits) (state : CaptureState) : Prop where
  bytes : state.signatureBytes = (state.capturedCalls.map fun c => signatureSize c.signatures).sum +
    signatureSize state.pendingSignatures
  total : state.signatureBytes ≤ limits.maxThoughtSignatureBytes
  pending : state.pendingSignatures.length ≤ limits.maxThoughtSignaturesPerToolCall
  calls : ∀ c ∈ state.capturedCalls, c.signatures.length ≤ limits.maxThoughtSignaturesPerToolCall

theorem pushDistinctSignature_within {signature : String} (hstate : state.Within limits)
    (h : pushDistinctSignature limits state signature = .ok state') : state'.Within limits := by
  unfold pushDistinctSignature at h
  split at h
  · rwa [← Except.ok.inj h]
  · obtain ⟨hcount, h⟩ := ite_error_eq_ok.mp h
    obtain ⟨htotal, h⟩ := ite_error_eq_ok.mp h
    obtain rfl := Except.ok.inj h
    refine ⟨?_, Nat.not_lt.mp htotal, ?_, hstate.calls⟩
    · simp only [hstate.bytes, signatureSize, List.map_append, List.sum_append]
      simp [Nat.add_assoc]
    · rw [List.length_append]
      exact Nat.lt_of_not_ge hcount

theorem captureStep_within (hstate : state.Within limits)
    (h : captureStep limits state item = .ok state') : state'.Within limits := by
  cases item with
  | reasoning signature =>
    cases signature with
    | some signature => exact pushDistinctSignature_within hstate h
    | none => rwa [← Except.ok.inj h]
  | functionCall call =>
    obtain rfl := Except.ok.inj h
    refine ⟨?_, hstate.total, Nat.zero_le _, List.forall_mem_append.mpr ⟨hstate.calls, ?_⟩⟩
    · simp [hstate.bytes, signatureSize]
    · simpa using hstate.pending
  | other =>
    simp only [captureStep] at h
    split at h
    · rwa [← Except.ok.inj h]
    · cases h

/-- What is captured of a body that is accepted. -/
theorem captureCalls_ok {fromStr : String → Except String Json} {output : List Json}
    {captured : List CapturedToolCall}
    (h : captureCalls fromStr limits output = .ok captured) :
    ∃ items, output.mapM (readItem fromStr) = .ok items ∧ Owned items ∧
      captured = (rawRuns items).map (fun p => ⟨p.1, p.2.eraseDups⟩) ∧
      (∀ p ∈ rawRuns items, p.2.eraseDups.length ≤ limits.maxThoughtSignaturesPerToolCall) ∧
      ((rawRuns items).map fun p => signatureSize p.2.eraseDups).sum ≤
        limits.maxThoughtSignatureBytes := by
  unfold captureCalls at h
  obtain ⟨state, hstate, h⟩ := bind_eq_ok.mp h
  split at h
  · next hempty =>
    obtain rfl := Except.ok.inj h
    obtain ⟨items, hitems, hsteps⟩ := (foldlM_read_eq_ok (fun _ => True) (fun _ _ _ => rfl)
      (fun _ _ _ _ _ => trivial) trivial).mp hstate
    obtain ⟨hcaptured, howned⟩ := captureSteps_ok hsteps List.eraseDups_nil.symm
    have hwithin : state.Within limits :=
      @foldlM_invariant _ _ _ _ (fun _ state => state.Within limits) items [] _ _
        (fun _ _ _ _ _ _ hwithin => captureStep_within hwithin)
        ⟨rfl, Nat.zero_le _, Nat.zero_le _, fun _ h => absurd h List.not_mem_nil⟩ hsteps
    rw [List.nil_append] at hcaptured
    refine ⟨items, hitems, (howned hempty).1, hcaptured, ?_, ?_⟩
    · have hcalls := hwithin.calls
      rw [hcaptured, List.forall_mem_map] at hcalls
      exact hcalls
    · have htotal := hwithin.total
      rw [hwithin.bytes, hempty, hcaptured, List.map_map] at htotal
      exact htotal
  · cases h

end Capture

/-! ## The calls of a response -/

def signaturePart? : GenaiContentPart → Option String
  | .thoughtSignature signature => some signature
  | _ => none

/-- The calls of the content, each with the signature parts since the one before it. -/
abbrev partRuns (content : List GenaiContentPart) : List (GenaiToolCall × List String) :=
  runs signaturePart? asToolCall? [] content

/-- A call of the response is a function call of the body. -/
structure Corresponds (call : GenaiToolCall) (raw : RawToolCall) : Prop where
  id : call.callId = raw.callId
  name : call.fnName = raw.name
  arguments : call.fnArguments.eq raw.arguments = true

/-- A call with the signatures of the body attached. -/
structure Attached (call : GenaiToolCall) (captured : CapturedToolCall) (call' : GenaiToolCall) :
    Prop where
  corresponds : Corresponds call captured.toRawToolCall
  same : call' = { call with thoughtSignatures := call'.thoughtSignatures }
  signatures : call'.thoughtSignatures.getD [] = captured.signatures

section Attach

variable {call call' : GenaiToolCall} {captured : CapturedToolCall} {run : List String}

theorem attachCall_attached (h : attachCall call captured = .ok call') :
    Attached call captured call' := by
  unfold attachCall at h
  obtain ⟨hcorresponds, h⟩ := ite_error_eq_ok.mp h
  simp only [not_or, not_not, Bool.not_eq_false] at hcorresponds
  obtain ⟨hid, hname, harguments⟩ := hcorresponds
  refine ⟨⟨hid, hname, harguments⟩, ?_, ?_⟩
  · split at h
    · split at h <;> cases h <;> rfl
    · split at h <;> cases h
      rfl
  · split at h
    · next hnone =>
      split at h
      · next hempty =>
        cases h
        rw [hnone, hempty]
      · cases h
        rfl
    · split at h
      · next hsome =>
        cases h
        rw [hsome]
        rfl
      · cases h

theorem attachCalls_other {part : GenaiContentPart} {parts : List GenaiContentPart}
    {captured : List CapturedToolCall} (h : asToolCall? part = none) :
    attachCalls (part :: parts) captured =
      attachCalls parts captured >>= fun parts => pure (part :: parts) := by
  cases part with
  | toolCall call => cases h
  | _ => cases captured <;> rfl

/-- The calls keep the parts before them. -/
theorem attachCalls_runs (run : List String) {parts parts' : List GenaiContentPart}
    {captured : List CapturedToolCall} (h : attachCalls parts captured = .ok parts')
    (hlength : (parts.filterMap asToolCall?).length = captured.length) :
    Forall₃ (fun p c q => Attached p.1 c q.1 ∧ q.2 = p.2)
      (runs signaturePart? asToolCall? run parts) captured
      (runs signaturePart? asToolCall? run parts') := by
  induction parts generalizing captured run parts' with
  | nil =>
    cases h
    obtain rfl := List.length_eq_zero_iff.mp hlength.symm
    exact .nil
  | cons part parts ih =>
    cases hpart : asToolCall? part with
    | some call =>
      cases part with
      | toolCall call' =>
        cases hpart
        cases captured with
        | nil => simp [asToolCall?] at hlength
        | cons c captured =>
          rw [attachCalls] at h
          obtain ⟨call', hcall, h⟩ := bind_eq_ok.mp h
          obtain ⟨parts', hparts, h⟩ := bind_eq_ok.mp h
          obtain rfl := Except.ok.inj h
          rw [List.filterMap_cons_some (by rfl)] at hlength
          rw [runs_cons_close (by rfl), runs_cons_close (by rfl)]
          exact .cons ⟨attachCall_attached hcall, rfl⟩ (ih [] hparts (Nat.succ.inj hlength))
      | _ => cases hpart
    | none =>
      rw [attachCalls_other hpart] at h
      obtain ⟨parts', hparts, h⟩ := bind_eq_ok.mp h
      obtain rfl := Except.ok.inj h
      rw [List.filterMap_cons_none hpart] at hlength
      cases hmark : signaturePart? part with
      | some signature =>
        rw [runs_cons_mark hpart hmark, runs_cons_mark hpart hmark]
        exact ih _ hparts hlength
      | none =>
        rw [runs_cons_other hpart hmark, runs_cons_other hpart hmark]
        exact ih _ hparts hlength

end Attach

/-! ## Extensions with one list -/

/-- Extensions with a list at a key, if there is anything in it, and with nothing else. -/
structure Retains (extensions : Extensions) (key : String) (values : List String) : Prop where
  value : extensions.get? key = if values = [] then none else some (.array (values.map .string))
  other : ∀ other, other ≠ key → extensions.get? other = none

section Retains

variable {extensions : Extensions} {key : String} {values : List String}

/-- A list is inserted at a new key, if there is anything in it. -/
theorem insertUnlessEmpty_of_new (hkey : IsKey key) (hnew : extensions.get? key = none)
    (values : List String) : ∃ extensions',
      insertUnlessEmpty extensions key values = .ok extensions' ∧
        extensions'.get? key =
          (if values = [] then none else some (.array (values.map .string))) ∧
        ∀ other, other ≠ key → extensions'.get? other = extensions.get? other := by
  unfold insertUnlessEmpty
  by_cases hempty : values = []
  · rw [if_pos hempty, if_pos hempty]
    exact ⟨extensions, rfl, hnew, fun _ _ => rfl⟩
  · rw [if_neg hempty, if_neg hempty]
    exact insert_of_new hkey hnew (.array (values.map .string))

theorem retains_of_insert (hkey : IsKey key)
    (h : insertUnlessEmpty .empty key values = .ok extensions) :
    Retains extensions key values := by
  obtain ⟨extensions', hinsert, hvalue, hother⟩ :=
    insertUnlessEmpty_of_new hkey (rfl : Extensions.empty.get? key = none) values
  obtain rfl := Except.ok.inj (hinsert.symm.trans h)
  exact ⟨hvalue, fun other hne => hother other hne⟩

theorem Retains.stringList (h : Retains extensions key values) :
    stringList extensions key = .ok (if values = [] then none else some values) := by
  unfold Genai.stringList
  rw [h.value]
  by_cases hempty : values = []
  · rw [if_pos hempty, if_pos hempty]
  · rw [if_neg hempty, if_neg hempty]
    refine map_eq_ok.mpr ⟨values, mapM_eq_ok.mpr ?_, rfl⟩
    exact List.forall₂_map_left_iff.mpr (List.forall₂_same.mpr fun _ _ => rfl)

theorem Retains.validate (h : Retains extensions key values) :
    validateContextExtensions extensions [key] = .ok () := by
  refine forM_eq_ok.mpr fun entry hmem => ?_
  have hget : extensions.get? entry.1 = some entry.2 := SortedMap.mem_entries.mp hmem
  have hkey : entry.1 = key := by
    by_contra hne
    rw [h.other entry.1 hne] at hget
    cases hget
  simp [hkey]

theorem Retains.unique {values' : List String} (h : Retains extensions key values)
    (h' : Retains extensions key values') : values = values' := by
  have hlists := h.stringList.symm.trans h'.stringList
  by_cases hempty : values = [] <;> by_cases hempty' : values' = []
  · rw [hempty, hempty']
  · rw [if_pos hempty, if_neg hempty'] at hlists
    cases hlists
  · rw [if_neg hempty, if_pos hempty'] at hlists
    cases hlists
  · rw [if_neg hempty, if_neg hempty'] at hlists
    exact Option.some.inj (Except.ok.inj hlists)

end Retains

/-! ## The mapped calls -/

theorem isKey_signatures : IsKey THOUGHT_SIGNATURES := ⟨by decide +kernel, by decide⟩

theorem isKey_reasoning : IsKey REASONING_CONTENT := ⟨by decide +kernel, by decide⟩

/-- What a call of the response becomes, with signatures. -/
structure MappedCall (call : GenaiToolCall) (signatures : List String) (mapped : ToolCall) :
    Prop where
  id : mapped.id.value = call.callId
  name : mapped.name.value = call.fnName
  arguments : mapped.arguments = call.fnArguments
  signatures : Retains mapped.extensions THOUGHT_SIGNATURES signatures

section Content

variable {call : GenaiToolCall} {signatures : List String} {mapped : ToolCall}

theorem mapResponseCall_mapped (h : mapResponseCall call signatures = .ok mapped) :
    MappedCall call signatures mapped := by
  unfold mapResponseCall at h
  obtain ⟨id, hid, h⟩ := bind_eq_ok.mp h
  obtain ⟨name, hname, h⟩ := bind_eq_ok.mp h
  obtain ⟨extensions, hextensions, h⟩ := bind_eq_ok.mp h
  obtain rfl := Except.ok.inj h
  exact ⟨(ToolCallId.new_eq_ok.mp (mapError_eq_ok.mp hid)).symm,
    (ToolName.new_eq_ok.mp (mapError_eq_ok.mp hname)).symm, rfl,
    retains_of_insert isKey_signatures hextensions⟩

/-- The loop over the content maps each call with the signature parts since the one before it. -/
theorem contentSteps_runs {parts : List GenaiContentPart} {state state' : ContentState}
    (h : parts.foldlM contentStep state = .ok state') :
    ∃ calls, state'.toolCalls = state.toolCalls ++ calls ∧
      List.Forall₂ (fun p mapped => ∃ signatures,
        reconcileSignatures p.2 p.1.thoughtSignatures = .ok signatures ∧
          MappedCall p.1 signatures mapped)
        (runs signaturePart? asToolCall? state.pendingSignatures parts) calls := by
  induction parts generalizing state with
  | nil =>
    cases h
    exact ⟨[], by simp, .nil⟩
  | cons part parts ih =>
    rw [List.foldlM_cons] at h
    obtain ⟨next, hnext, h⟩ := bind_eq_ok.mp h
    obtain ⟨calls, hcalls, hruns⟩ := ih h
    cases part with
    | toolCall call =>
      obtain ⟨signatures, hsignatures, hnext⟩ := bind_eq_ok.mp hnext
      obtain ⟨mapped, hmapped, hnext⟩ := bind_eq_ok.mp hnext
      obtain rfl := Except.ok.inj hnext
      rw [runs_cons_close (by rfl)]
      exact ⟨mapped :: calls, by simpa using hcalls,
        .cons ⟨signatures, hsignatures, mapResponseCall_mapped hmapped⟩ hruns⟩
    | thoughtSignature signature =>
      obtain rfl := Except.ok.inj hnext
      rw [runs_cons_mark (by rfl) (by rfl)]
      exact ⟨calls, hcalls, hruns⟩
    | text _ | reasoningContent _ =>
      obtain rfl := Except.ok.inj hnext
      rw [runs_cons_other (by rfl) (by rfl)]
      exact ⟨calls, hcalls, hruns⟩
    | _ => cases hnext

/-- Signatures of the parts are taken where the call has none. -/
theorem reconciled {run attached : List String} (h : reconcileSignatures run call.thoughtSignatures =
    .ok signatures) (hattached : call.thoughtSignatures.getD [] = attached) :
    signatures = if attached = [] then run else attached := by
  rw [reconcileSignatures_eq_ok, hattached] at h
  split at h
  · next hrun =>
    rw [h, hrun]
    split
    · assumption
    · rfl
  · obtain ⟨rfl, hnone | hsome⟩ := h
    · rw [if_pos hnone]
    · rw [hsome] at hattached
      rw [← hattached]
      split
      · rfl
      · rfl

end Content

/-! ## The request of the next turn -/

/-- The parts of a call: its signatures, and then the call without any. -/
def restoredCall (call : ToolCall) (signatures : List String) : List GenaiContentPart :=
  signatures.map .thoughtSignature ++
    [.toolCall ⟨call.id.value, call.name.value, call.arguments, none⟩]

theorem getD_unlessEmpty (values : List String) :
    (if values = [] then none else some values).getD [] = values := by
  split
  · next hempty =>
    rw [hempty]
    rfl
  · rfl

theorem mapToolCall_retained {call : ToolCall} {signatures : List String}
    (h : Retains call.extensions THOUGHT_SIGNATURES signatures) (known : ToolNames) :
    ∃ known', mapToolCall call known = .ok (restoredCall call signatures, known') := by
  unfold mapToolCall
  rw [h.validate, ok_bind, h.stringList, ok_bind, getD_unlessEmpty]
  exact ⟨_, rfl⟩

theorem mapToolCalls_retained {calls : List ToolCall} {lists : List (List String)}
    (h : List.Forall₂ (fun call signatures => Retains call.extensions THOUGHT_SIGNATURES signatures)
      calls lists) (known : ToolNames) : ∃ known', mapToolCalls calls known =
        .ok ((calls.zip lists).flatMap (fun p => restoredCall p.1 p.2), known') := by
  induction h generalizing known with
  | nil => exact ⟨known, rfl⟩
  | cons hcall _ ih =>
    obtain ⟨known', hknown⟩ := mapToolCall_retained hcall known
    obtain ⟨known'', hrest⟩ := ih known'
    refine ⟨known'', ?_⟩
    rw [mapToolCalls, hknown, ok_bind]
    simp only [hrest, ok_bind]
    rfl

/-- A message with its reasoning and signatures is mapped back to parts for all of them. -/
theorem mapAssistant_retained {message : AssistantMessage} {reasoning : List String}
    {lists : List (List String)} (hmessage : Retains message.extensions REASONING_CONTENT reasoning)
    (hcalls : List.Forall₂ (fun call signatures =>
      Retains call.extensions THOUGHT_SIGNATURES signatures) message.toolCalls lists)
    (known : ToolNames) : ∃ known', mapAssistant message known = .ok
      (⟨.assistant, mapTextParts message.content ++ reasoning.map .reasoningContent ++
        (message.toolCalls.zip lists).flatMap fun p => restoredCall p.1 p.2⟩, known') := by
  obtain ⟨known', hknown⟩ := mapToolCalls_retained hcalls known
  refine ⟨known', ?_⟩
  unfold mapAssistant
  rw [hmessage.validate, ok_bind, hmessage.stringList, ok_bind, hknown, ok_bind, getD_unlessEmpty]
  rfl

/-! ## Attribution -/

/-- The output items of a body. -/
def outputItems (fromStr : String → Except String Json) (rawBody : Json) :
    Except GenaiMappingError (List OutputItem) := do
  let output ← rawField "output" ((field? rawBody "output").bind asArray?)
  output.mapM (readItem fromStr)

/-- A body is that of the response, and leaves no doubt whose its signatures are. -/
structure Certain (response : GenaiResponse) (rawBody : Json) (items : List OutputItem) : Prop where
  id : ∃ id, (field? rawBody "id").bind asStr? = some id ∧ response.responseId = some id
  calls : List.Forall₂ (fun call p => Corresponds call p.1)
    (response.content.filterMap asToolCall?) (rawRuns items)
  owned : Owned items

/-- Every call has the signatures of its run, each once, within the limits, and hands them on to the
request of the next turn. -/
structure Attribution (limits : GenaiStreamingLimits) (items : List OutputItem)
    (message : AssistantMessage) : Prop where
  signatures : List.Forall₂ (fun call p => call.id.value = p.1.callId ∧
    Retains call.extensions THOUGHT_SIGNATURES p.2.eraseDups) message.toolCalls (rawRuns items)
  count : ∀ p ∈ rawRuns items, p.2.eraseDups.length ≤ limits.maxThoughtSignaturesPerToolCall
  bytes : ((rawRuns items).map fun p => signatureSize p.2.eraseDups).sum ≤
    limits.maxThoughtSignatureBytes
  restored : ∀ known, ∃ (reasoning : List String) (known' : ToolNames),
    mapAssistant message known = .ok
    (⟨.assistant, mapTextParts message.content ++ reasoning.map .reasoningContent ++
      (message.toolCalls.zip (rawRuns items)).flatMap fun p =>
        restoredCall p.1 p.2.2.eraseDups⟩, known')

/-- No signature part stands before a call for which the body has no signature. -/
def NoStray (content : List GenaiContentPart) (items : List OutputItem) : Prop :=
  List.Forall₂ (fun p q => q.2 = [] → p.2 = []) (partRuns content) (rawRuns items)

section Response

variable {fromStr : String → Except String Json} {zmij : F64 → List UInt8}
  {response : GenaiResponse} {config : GenaiAdapterConfig} {mapped : ChatResponse}

theorem rawField_eq_ok {α : Type} {field : String} {x : Option α} {a : α} :
    rawField field x = .ok a ↔ x = some a := by
  cases x <;> simp [rawField]

/-- What is attached of a body that is accepted. -/
theorem attach_ok {response' : GenaiResponse}
    (hkind : response.modelIden.adapterKind.isResponses = true)
    (hcalls : response.content.filterMap asToolCall? ≠ [])
    (h : attachOpenaiResponsesContinuation fromStr zmij response config = .ok response') :
    ∃ rawBody output captured, response.capturedRawBody = some rawBody ∧
      (∃ id, (field? rawBody "id").bind asStr? = some id ∧
        response.responseId = some id) ∧
      (field? rawBody "output").bind asArray? = some output ∧
      captureCalls fromStr config.streamingLimits output = .ok captured ∧
      (response.content.filterMap asToolCall?).length = captured.length ∧
      attachCalls response.content captured = .ok response'.content := by
  have hany : (response.content.any fun part => (asToolCall? part).isSome) = true := by
    obtain ⟨call, hmem⟩ := List.exists_mem_of_ne_nil _ hcalls
    obtain ⟨part, hpart, hcall⟩ := List.mem_filterMap.mp hmem
    refine List.any_eq_true.mpr ⟨part, hpart, ?_⟩
    rw [hcall]
    rfl
  unfold attachOpenaiResponsesContinuation at h
  simp only [hkind, not_true_eq_false, if_false, hany, if_true] at h
  cases hraw : response.capturedRawBody with
  | none =>
    rw [hraw] at h
    cases h
  | some rawBody =>
    rw [hraw] at h
    obtain ⟨_, -, h⟩ := bind_eq_ok.mp h
    obtain ⟨id, hid, h⟩ := bind_eq_ok.mp h
    obtain ⟨hsame, h⟩ := ite_error_eq_ok.mp h
    obtain ⟨output, houtput, h⟩ := bind_eq_ok.mp h
    obtain ⟨captured, hcaptured, h⟩ := bind_eq_ok.mp h
    obtain ⟨hlength, h⟩ := ite_error_eq_ok.mp h
    obtain ⟨content, hcontent, h⟩ := bind_eq_ok.mp h
    obtain rfl := Except.ok.inj h
    exact ⟨rawBody, output, captured, rfl, ⟨id, rawField_eq_ok.mp hid, not_not.mp hsame⟩,
      rawField_eq_ok.mp houtput, hcaptured, not_not.mp hlength, hcontent⟩

/-- What a response that is mapped is mapped to. -/
theorem mapChatResponse_ok (h : mapChatResponse fromStr zmij response config = .ok mapped) :
    ∃ response' state reasoning,
      attachOpenaiResponsesContinuation fromStr zmij response config = .ok response' ∧
      response'.content.foldlM contentStep ⟨[], [], [], []⟩ = .ok state ∧
      mapped.message.toolCalls = state.toolCalls ∧
      Retains mapped.message.extensions REASONING_CONTENT reasoning := by
  unfold mapChatResponse at h
  obtain ⟨response', hattach, h⟩ := bind_eq_ok.mp h
  obtain ⟨state, hstate, h⟩ := bind_eq_ok.mp h
  obtain ⟨messageExtensions, hextensions, h⟩ := bind_eq_ok.mp h
  have hretains := retains_of_insert isKey_reasoning hextensions
  obtain ⟨_, -, h⟩ := bind_eq_ok.mp h
  obtain ⟨_, -, h⟩ := bind_eq_ok.mp h
  obtain ⟨_, -, h⟩ := bind_eq_ok.mp h
  obtain ⟨_, -, h⟩ := bind_eq_ok.mp h
  obtain ⟨_, -, h⟩ := bind_eq_ok.mp h
  obtain ⟨_, -, h⟩ := bind_eq_ok.mp h
  obtain ⟨usage, -, h⟩ := bind_eq_ok.mp h
  obtain ⟨responseId, -, h⟩ := bind_eq_ok.mp h
  obtain ⟨model, -, h⟩ := bind_eq_ok.mp h
  obtain rfl := Except.ok.inj h
  exact ⟨response', state, _, hattach, hstate, rfl, hretains⟩

/-- What becomes of a call, with its run in the content and its run in the body. -/
structure Assigned (p : GenaiToolCall × List String) (q : RawToolCall × List String)
    (call : ToolCall) : Prop where
  corresponds : Corresponds p.1 q.1
  id : call.id.value = q.1.callId
  signatures : Retains call.extensions THOUGHT_SIGNATURES (if q.2 = [] then p.2 else q.2.eraseDups)

theorem Assigned.retains_iff {p : GenaiToolCall × List String} {q : RawToolCall × List String}
    {call : ToolCall} (h : Assigned p q call) :
    (call.id.value = q.1.callId ∧ Retains call.extensions THOUGHT_SIGNATURES q.2.eraseDups) ↔
      (q.2 = [] → p.2 = []) := by
  have hsignatures := h.signatures
  by_cases hrun : q.2 = []
  · rw [if_pos hrun] at hsignatures
    rw [hrun, List.eraseDups_nil]
    constructor
    · intro hretains _
      exact hsignatures.unique hretains.2
    · intro hpart
      rw [hpart rfl] at hsignatures
      exact ⟨h.id, hsignatures⟩
  · rw [if_neg hrun] at hsignatures
    exact ⟨fun _ hempty => absurd hempty hrun, fun _ => ⟨h.id, hsignatures⟩⟩

/-- A call with the signatures of the body attached is mapped to one that is assigned. -/
theorem assigned_of_attached {p p' : GenaiToolCall × List String} {q : RawToolCall × List String}
    {call : ToolCall} {signatures : List String}
    (hattached : Attached p.1 ⟨q.1, q.2.eraseDups⟩ p'.1) (hrun : p'.2 = p.2)
    (hsignatures : reconcileSignatures p'.2 p'.1.thoughtSignatures = .ok signatures)
    (hmapped : MappedCall p'.1 signatures call) : Assigned p q call := by
  have hsame : p'.1.callId = p.1.callId := by rw [hattached.same]
  have hretains := hmapped.signatures
  rw [reconciled hsignatures hattached.signatures, hrun] at hretains
  simp only [eraseDups_eq_nil] at hretains
  exact ⟨hattached.corresponds, by rw [hmapped.id, hsame, hattached.corresponds.id], hretains⟩

/-- What is handed on of a message, when its calls have the signatures of their runs. -/
theorem restored_of_retains {message : AssistantMessage} {reasoning : List String}
    {pairs : List (RawToolCall × List String)}
    (hreasoning : Retains message.extensions REASONING_CONTENT reasoning)
    (hcalls : List.Forall₂ (fun call p => call.id.value = p.1.callId ∧
      Retains call.extensions THOUGHT_SIGNATURES p.2.eraseDups) message.toolCalls pairs)
    (known : ToolNames) : ∃ known', mapAssistant message known = .ok
      (⟨.assistant, mapTextParts message.content ++ reasoning.map .reasoningContent ++
        (message.toolCalls.zip pairs).flatMap fun p => restoredCall p.1 p.2.2.eraseDups⟩,
        known') := by
  have hlists : List.Forall₂ (fun call signatures =>
      Retains call.extensions THOUGHT_SIGNATURES signatures) message.toolCalls
      (pairs.map fun p => p.2.eraseDups) :=
    List.forall₂_map_right_iff.mpr (hcalls.imp fun _ _ h => h.2)
  obtain ⟨known', hknown⟩ := mapAssistant_retained hreasoning hlists known
  refine ⟨known', ?_⟩
  rw [hknown, List.zip_map_right, List.flatMap_map]
  rfl

/-- A response that is mapped leaves no doubt whose the signatures of its body are. Each call has
those, and hands them on, if and only if the content has no others for a call without. -/
theorem attribution_iff (hkind : response.modelIden.adapterKind.isResponses = true)
    (hcalls : response.content.filterMap asToolCall? ≠ [])
    (hok : mapChatResponse fromStr zmij response config = .ok mapped) :
    ∃ rawBody items, response.capturedRawBody = some rawBody ∧
      outputItems fromStr rawBody = .ok items ∧ Certain response rawBody items ∧
      (Attribution config.streamingLimits items mapped.message ↔
        NoStray response.content items) := by
  obtain ⟨response', state, reasoning, hattach, hstate, htoolCalls, hreasoning⟩ :=
    mapChatResponse_ok hok
  obtain ⟨rawBody, output, captured, hraw, hid, houtput, hcaptured, hlength, hcontent⟩ :=
    attach_ok hkind hcalls hattach
  obtain ⟨items, hitems, howned, rfl, hcount, hbytes⟩ := captureCalls_ok hcaptured
  obtain ⟨calls, hstateCalls, hmapped⟩ := contentSteps_runs hstate
  obtain rfl : mapped.message.toolCalls = calls := by rw [htoolCalls, hstateCalls, List.nil_append]
  -- the runs of the content, those of the body and the mapped calls, side by side
  have hassigned : Forall₃ Assigned (partRuns response.content) (rawRuns items)
      mapped.message.toolCalls := by
    refine ((attachCalls_runs [] hcontent hlength).comp hmapped).map_middle ?_
    rintro p q call ⟨p', ⟨hattached, hrun⟩, signatures, hsignatures, hcall⟩
    exact assigned_of_attached hattached hrun hsignatures hcall
  refine ⟨rawBody, items, hraw, ?_, ⟨hid, ?_, howned⟩, ?_⟩
  · rw [outputItems, houtput]
    exact hitems
  · have hfst : (partRuns response.content).map Prod.fst =
        response.content.filterMap asToolCall? := runs_map_fst
    rw [← hfst]
    exact List.forall₂_map_left_iff.mpr (hassigned.left fun _ _ _ h => h.corresponds)
  · have hiff := hassigned.forall₂_iff (fun _ _ _ h => h.retains_iff)
    constructor
    · intro h
      exact hiff.mp h.signatures
    · intro h
      have hsignatures := hiff.mpr h
      exact ⟨hsignatures, hcount, hbytes, fun known =>
        ⟨reasoning, restored_of_retains hreasoning hsignatures known⟩⟩

end Response

/-! ## A call with a stray signature -/

/-- `serde_json::from_str`, of the arguments of the call. -/
def argumentsStr (text : String) : Except String Json :=
  if text = "\x7b\x7d" then .ok (.object []) else .error "expected value"

/-- A body with one function call, after the output items given. -/
def callRawBody (output : List Json) : Json :=
  .object [("id", .string "resp-1"), ("output", .array (output ++ [.object [
    ("arguments", .string "\x7b\x7d"), ("call_id", .string "call-1"), ("name", .string "lookup"),
    ("type", .string "function_call")]]))]

def reasoningItem (signature : String) : Json :=
  .object [("encrypted_content", .string signature), ("type", .string "reasoning")]

/-- A response with the call, after the parts given. -/
def callResponse (parts : List GenaiContentPart) (output : List Json) : GenaiResponse where
  content := parts ++ [.toolCall ⟨"call-1", "lookup", .object [], none⟩]
  reasoningContent := none
  modelIden := ⟨⟨"openai_resp", true⟩, "model"⟩
  providerModelIden := ⟨⟨"openai_resp", true⟩, "model"⟩
  stopReason := none
  usage := .default
  capturedRawBody := some (callRawBody output)
  responseId := some "resp-1"

def responsesConfig : GenaiAdapterConfig :=
  .new ⟨"provider", by decide +kernel⟩ ⟨"model", by decide +kernel⟩

/-- For each call of what a response is mapped to, whether it has signatures. -/
def mappedCalls (parts : List GenaiContentPart) (output : List Json) : Option (List Bool) :=
  ((mapChatResponse argumentsStr (fun _ => []) (callResponse parts output) responsesConfig).map
    fun mapped => mapped.message.toolCalls.map fun call : ToolCall =>
      (call.extensions.get? THOUGHT_SIGNATURES).isSome).toOption

/-- For each function call of the body, its signatures. -/
def rawSignatures (output : List Json) : Option (List (List String)) :=
  ((outputItems argumentsStr (callRawBody output)).map
    fun items => (rawRuns items).map Prod.snd).toOption

theorem map_toOption_eq_some {ε α β : Type} {x : Except ε α} {f : α → β} {b : β} :
    (x.map f).toOption = some b ↔ ∃ a, x = .ok a ∧ f a = b := by
  cases x <;> simp [Except.map, Except.toOption]

/-- The body has three signatures for the call, one of them twice. -/
theorem attribution_distinct : ∃ mapped items,
    mapChatResponse argumentsStr (fun _ => [])
      (callResponse [] [reasoningItem "a", reasoningItem "b", reasoningItem "a"])
      responsesConfig = .ok mapped ∧
    (rawRuns items).map (fun p => p.2.eraseDups) = [["a", "b"]] ∧
    Attribution responsesConfig.streamingLimits items mapped.message := by
  have hmapped : mappedCalls [] [reasoningItem "a", reasoningItem "b", reasoningItem "a"] =
      some [true] := by decide +kernel
  have hsignatures : rawSignatures [reasoningItem "a", reasoningItem "b", reasoningItem "a"] =
      some [["a", "b", "a"]] := by decide +kernel
  obtain ⟨mapped, hok, -⟩ := map_toOption_eq_some.mp hmapped
  obtain ⟨items', hitems', hruns⟩ := map_toOption_eq_some.mp hsignatures
  obtain ⟨p, hp, hrun⟩ := List.map_eq_singleton_iff.mp hruns
  obtain ⟨rawBody, items, hraw, hitems, -, hiff⟩ :=
    attribution_iff rfl (by simp [callResponse, asToolCall?]) hok
  obtain rfl := Option.some.inj hraw
  obtain rfl := Except.ok.inj (hitems'.symm.trans hitems)
  refine ⟨mapped, items', hok, ?_, hiff.mpr ?_⟩
  · rw [hp, List.map_singleton, hrun]
    decide
  · rw [NoStray, hp]
    exact .cons (fun _ => rfl) .nil

/-- A signature part before a call without a signature in the body is taken as one of the call. -/
theorem stray_attributed : ¬∀ (fromStr : String → Except String Json) (zmij : F64 → List UInt8)
    (response : GenaiResponse) (config : GenaiAdapterConfig) (mapped : ChatResponse),
    response.modelIden.adapterKind.isResponses = true →
    response.content.filterMap asToolCall? ≠ [] →
    mapChatResponse fromStr zmij response config = .ok mapped →
    ∃ rawBody items, response.capturedRawBody = some rawBody ∧
      outputItems fromStr rawBody = .ok items ∧ Certain response rawBody items ∧
      Attribution config.streamingLimits items mapped.message := by
  intro h
  have hmapped : mappedCalls [.thoughtSignature "s"] [] = some [true] := by decide +kernel
  have hsignatures : rawSignatures [] = some [[]] := by decide +kernel
  obtain ⟨mapped, hok, hcalls⟩ := map_toOption_eq_some.mp hmapped
  obtain ⟨items', hitems', hruns⟩ := map_toOption_eq_some.mp hsignatures
  obtain ⟨rawBody, items, hraw, hitems, -, hattribution⟩ :=
    h _ _ _ _ mapped rfl (by simp [callResponse, asToolCall?]) hok
  obtain rfl := Option.some.inj hraw
  obtain rfl := Except.ok.inj (hitems'.symm.trans hitems)
  obtain ⟨call, hcall, hsome⟩ := List.map_eq_singleton_iff.mp hcalls
  obtain ⟨p, hp, hnil⟩ := List.map_eq_singleton_iff.mp hruns
  have hretains := hattribution.signatures
  rw [hcall, hp, List.forall₂_cons] at hretains
  have hnone := hretains.1.2.value
  rw [hnil, List.eraseDups_nil, if_pos rfl] at hnone
  rw [hnone] at hsome
  cases hsome

end GroupAgent.Genai
