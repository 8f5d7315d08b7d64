import GroupAgent.Model.Request
import GroupAgent.Model.Schema
import Mathlib.Data.Finset.Basic
import Mathlib.Data.Finset.Lattice.Lemmas

/-!
# The transcripts of composite agents

Model of `validate_transcript` of the agents that run others in sequence
(`sequence/state.rs:19-47`) and of those that branch (`branch/state.rs:20-48`). The two are copies
with an error type each: both are `checkTranscript`.

* A set of identifiers is a `Finset`. The source of an error is the one that is set here, the
  failure of `ChatRequest::validate`.
* `Answered`: what is required beside a valid request: the results of a message with calls follow
  it at once, all of them, except perhaps at the end.
* `pending_eq`: in a linked transcript, what is pending are the calls without a result.

Results: **`transcript_grammar`**: the two checks accept the transcripts that are valid and
answered.

Out of scope: the stages of a composite agent, and how a transcript is handed from one to the next.
-/

namespace GroupAgent.Prebuilt

open GroupAgent.Lib GroupAgent.Model

/-! ## Errors -/

/-- Stable logical stage identity. -/
structure AgentStageId where
  value : String
  nonempty : value ≠ ""
  short : value.utf8ByteSize ≤ 64
  name : (utf8Bytes value).all isNameByte = true
  deriving DecidableEq

inductive SequenceErrorKind where
  | configuration
  | invalidState
  | graph
  | output
  deriving DecidableEq, Repr

inductive BranchErrorKind where
  | configuration
  | invalidState
  | graph
  | output
  | selectorPanicked
  deriving DecidableEq, Repr

/-- An error of a composite agent, with its concrete source and an optional stage. -/
structure CompositeError (κ : Type) where
  kind : κ
  stage : Option AgentStageId
  source : Option RequestValidationError
  deriving DecidableEq

namespace CompositeError

variable {κ : Type}

def new (kind : κ) : CompositeError κ := ⟨kind, none, none⟩

def sourceError (kind : κ) (source : RequestValidationError) : CompositeError κ :=
  ⟨kind, none, some source⟩

end CompositeError

abbrev SequenceError : Type := CompositeError SequenceErrorKind

abbrev BranchError : Type := CompositeError BranchErrorKind

/-! ## The check -/

section Check

variable {κ : Type} (invalidState : κ)

/-- A result takes its call off the pending ones. Any other message comes when nothing is pending. -/
def settle (pending : Finset ToolCallId) (message : Message) :
    Except (CompositeError κ) (Finset ToolCallId) :=
  match message.asTool with
  | some tool =>
    if tool.toolCallId ∈ pending then .ok (pending.erase tool.toolCallId)
    else .error (.new invalidState)
  | none =>
    if pending ≠ ∅ then .error (.new invalidState)
    else
      match message.asAssistant with
      | some assistant => .ok (pending ∪ assistant.callIds.toFinset)
      | none => .ok pending

/-- The body of the two copies. -/
def checkTranscript (messages : List Message) (allowPending : Bool) :
    Except (CompositeError κ) Unit := do
  (ChatRequest.new messages).validate.mapError (CompositeError.sourceError invalidState)
  let pending ← messages.foldlM (settle invalidState) ∅
  if pending ≠ ∅ ∧ (allowPending = false ∨ (messages.getLast?.bind Message.asAssistant).isNone) then
    throw (.new invalidState)

end Check

namespace Sequence

def validateTranscript (messages : List Message) (allowPending : Bool) : Except SequenceError Unit :=
  checkTranscript SequenceErrorKind.invalidState messages allowPending

end Sequence

namespace Branch

def validateTranscript (messages : List Message) (allowPending : Bool) : Except BranchError Unit :=
  checkTranscript BranchErrorKind.invalidState messages allowPending

end Branch

/-! ## The grammar -/

/-- Exactly one result for each call follows at once, in any order. -/
def AnsweredBy (calls : List ToolCallId) (after : List Message) : Prop :=
  ∃ (tools : List ToolMessage) (rest : List Message), after = tools.map .tool ++ rest ∧
    (tools.map ToolMessage.toolCallId).Perm calls ∧ (rest.head?.bind Message.asTool) = none

/-- Every assistant message with calls is answered. Where pending calls are permitted, the last
message may be one that is not. -/
def Answered (allowPending : Bool) (messages : List Message) : Prop :=
  ∀ before assistant after, messages = before ++ .assistant assistant :: after →
    assistant.callIds ≠ [] →
    AnsweredBy assistant.callIds after ∨ (allowPending = true ∧ after = [])

/-! ## What the check accepts -/

section Accepts

variable {κ : Type} {invalidState : κ} {p q : Finset ToolCallId} {m : Message} {ms : List Message}

theorem settle_tool {t : ToolMessage} : settle invalidState p (.tool t) = .ok q ↔
    t.toolCallId ∈ p ∧ q = p.erase t.toolCallId := by
  by_cases h : t.toolCallId ∈ p <;> simp [settle, Message.asTool, h, eq_comm]

theorem settle_other (hm : m.asTool = none) : settle invalidState p m = .ok q ↔
    p = ∅ ∧ q = (callsOf [m]).toFinset := by
  by_cases h : p = ∅
  · subst h
    cases m with
    | assistant a =>
      simp [settle, Message.asTool, Message.asAssistant, callsOf, Finset.empty_union, eq_comm]
    | tool t => cases hm
    | system _ => simp [settle, Message.asTool, Message.asAssistant, callsOf, eq_comm]
    | user _ => simp [settle, Message.asTool, Message.asAssistant, callsOf, eq_comm]
  · simp [settle, hm, h]

/-- In a linked transcript, the pending calls are those without a result. -/
theorem pending_eq (hlinked : Linked ms) (h : ms.foldlM (settle invalidState) ∅ = .ok p) :
    p = (callsOf ms).toFinset \ (resultsOf ms).toFinset := by
  induction ms using List.reverseRecOn generalizing p with
  | nil =>
    cases h
    rfl
  | append_singleton ms m ih =>
    obtain ⟨hms, hlinks⟩ := linked_snoc.mp hlinked
    rw [List.foldlM_append] at h
    obtain ⟨q, hq, hm⟩ := bind_eq_ok.mp h
    obtain rfl := ih hms hq
    simp only [List.foldlM_cons, List.foldlM_nil, bind_pure] at hm
    cases ht : m.asTool with
    | some t =>
      cases m with
      | tool t' =>
        cases ht
        rw [settle_tool] at hm
        rw [hm.2]
        ext id
        simp [callsOf, resultsOf, Message.asAssistant, Message.asTool]
        tauto
      | _ => cases ht
    | none =>
      rw [settle_other ht] at hm
      rw [hm.2]
      have hresults : resultsOf [m] = [] := by simp [resultsOf, ht]
      rw [callsOf_append, resultsOf_append, hresults, List.append_nil]
      ext id
      have hempty := Finset.ext_iff.mp hm.1 id
      simp only [Finset.mem_sdiff, List.mem_toFinset, Finset.notMem_empty, iff_false, not_and,
        not_not, List.mem_append] at hempty ⊢
      constructor
      · intro hid
        refine ⟨.inr hid, fun hres => ?_⟩
        cases m with
        | assistant a =>
          rw [callsOf_assistant] at hid
          exact hlinks.2 id hid (hms.results_subset hres)
        | _ => simp [callsOf, Message.asAssistant] at hid
      · rintro ⟨hid | hid, hres⟩
        · exact absurd (hempty hid) hres
        · exact hid

/-- The loop over what follows a message: results for pending calls, then nothing, or a message that
comes when nothing is pending. -/
theorem settle_run (hms : ms.foldlM (settle invalidState) p = .ok q) :
    ∃ (tools : List ToolMessage) (rest : List Message), ms = tools.map .tool ++ rest ∧
      (tools.map ToolMessage.toolCallId).Nodup ∧
      (∀ t ∈ tools, t.toolCallId ∈ p) ∧ (rest.head?.bind Message.asTool) = none ∧
      ((rest = [] ∧ ∀ id, id ∈ q ↔ id ∈ p ∧ id ∉ tools.map ToolMessage.toolCallId) ∨
        (rest ≠ [] ∧ ∀ id ∈ p, id ∈ tools.map ToolMessage.toolCallId)) := by
  induction ms generalizing p with
  | nil =>
    cases hms
    exact ⟨[], [], rfl, List.nodup_nil, by simp, rfl, .inl ⟨rfl, by simp⟩⟩
  | cons m ms ih =>
    rw [List.foldlM_cons] at hms
    obtain ⟨p', hm, hms⟩ := bind_eq_ok.mp hms
    cases ht : m.asTool with
    | some t =>
      cases m with
      | tool t' =>
        cases ht
        obtain ⟨hmem, rfl⟩ := settle_tool.mp hm
        obtain ⟨tools, rest, rfl, hnodup, hpending, hhead, hend⟩ := ih hms
        refine ⟨t :: tools, rest, rfl, ?_, ?_, hhead, ?_⟩
        · rw [List.map_cons, List.nodup_cons]
          refine ⟨fun hdup => ?_, hnodup⟩
          obtain ⟨t', ht', hid⟩ := List.mem_map.mp hdup
          exact (Finset.mem_erase.mp (hpending t' ht')).1 hid
        · intro t' ht'
          rcases List.mem_cons.mp ht' with rfl | ht'
          · exact hmem
          · exact Finset.mem_of_mem_erase (hpending t' ht')
        · rcases hend with ⟨rfl, hleft⟩ | ⟨hne, hall⟩
          · refine .inl ⟨rfl, fun id => ?_⟩
            rw [hleft, Finset.mem_erase, List.map_cons, List.mem_cons, not_or]
            tauto
          · refine .inr ⟨hne, fun id hid => ?_⟩
            rw [List.map_cons, List.mem_cons]
            by_cases heq : id = t.toolCallId
            · exact .inl heq
            · exact .inr (hall id (Finset.mem_erase.mpr ⟨heq, hid⟩))
      | _ => cases ht
    | none =>
      obtain ⟨rfl, -⟩ := (settle_other ht).mp hm
      exact ⟨[], m :: ms, rfl, List.nodup_nil, by simp, ht, .inr ⟨List.cons_ne_nil _ _, by simp⟩⟩

/-- A transcript that the loop leaves without pending calls is answered, and so is one whose pending
calls are those of its last message, where these are permitted. -/
theorem answered_of_settled {allowPending : Bool} (hlinked : Linked ms)
    (hms : ms.foldlM (settle invalidState) ∅ = .ok q)
    (htail : q = ∅ ∨ (allowPending = true ∧ (ms.getLast?.bind Message.asAssistant).isSome)) :
    Answered allowPending ms := by
  rintro before a after rfl hne
  rw [List.foldlM_append] at hms
  obtain ⟨p, hp, hms⟩ := bind_eq_ok.mp hms
  rw [List.foldlM_cons] at hms
  obtain ⟨p', ha, hms⟩ := bind_eq_ok.mp hms
  obtain ⟨rfl, rfl⟩ := (settle_other rfl).mp ha
  obtain ⟨tools, rest, rfl, hnodup, hpending, hhead, hend⟩ := settle_run hms
  rw [callsOf_assistant] at hpending hend
  have hcalls : a.callIds.Nodup := by
    rw [← List.singleton_append, ← List.append_assoc] at hlinked
    exact (linked_snoc.mp hlinked.of_append).2.1
  have hperm (hall : ∀ id ∈ a.callIds, id ∈ tools.map ToolMessage.toolCallId) :
      (tools.map ToolMessage.toolCallId).Perm a.callIds := by
    refine (List.perm_ext_iff_of_nodup hnodup hcalls).mpr fun id => ⟨fun hid => ?_, hall id⟩
    obtain ⟨t, ht, rfl⟩ := List.mem_map.mp hid
    exact List.mem_toFinset.mp (hpending t ht)
  rcases hend with ⟨rfl, hleft⟩ | ⟨-, hall⟩
  · rcases htail with rfl | ⟨hallow, hlast⟩
    · refine .inl ⟨tools, [], rfl, hperm fun id hid => ?_, hhead⟩
      by_contra hid'
      exact absurd ((hleft id).mpr ⟨List.mem_toFinset.mpr hid, hid'⟩) (Finset.notMem_empty id)
    · cases hl : tools.getLast? with
      | none =>
        obtain rfl := List.getLast?_eq_none_iff.mp hl
        exact .inr ⟨hallow, rfl⟩
      | some t =>
        obtain ⟨tools, rfl⟩ := List.getLast?_eq_some_iff.mp hl
        have hlist : before ++ .assistant a :: ((tools ++ [t]).map .tool ++ []) =
            (before ++ .assistant a :: tools.map .tool) ++ [.tool t] := by simp
        rw [hlist, List.getLast?_concat] at hlast
        simp [Message.asAssistant] at hlast
  · exact .inl ⟨tools, rest, rfl, hperm fun id hid => hall id (List.mem_toFinset.mpr hid), hhead⟩

/-- Results in a row are over before a message that is none. -/
theorem exists_others {tools : List ToolMessage} {rest mid after : List Message}
    (hm : m.asTool = none) (h : tools.map .tool ++ rest = mid ++ m :: after) :
    ∃ others, mid = tools.map .tool ++ others := by
  rcases List.append_eq_append_iff.mp h with ⟨others, hmid, -⟩ | ⟨late, htools, hafter⟩
  · exact ⟨others, hmid⟩
  · cases late with
    | nil => exact ⟨[], by simpa using htools.symm⟩
    | cons m' late =>
      cases hafter
      have hmem : m ∈ tools.map Message.tool := by rw [htools]; simp
      obtain ⟨t, -, rfl⟩ := List.mem_map.mp hmem
      cases hm

theorem mem_resultsOf_answered {before rest : List Message} {a : AssistantMessage}
    {tools : List ToolMessage} {id : ToolCallId} (h : id ∈ tools.map ToolMessage.toolCallId) :
    id ∈ resultsOf (before ++ .assistant a :: (tools.map .tool ++ rest)) := by
  rw [← List.singleton_append, resultsOf_append, resultsOf_append, resultsOf_append, resultsOf_tools]
  simp only [List.mem_append]
  exact .inr (.inr (.inl h))

/-- Before a message that is no result, every call of an answered transcript has its result. -/
theorem Answered.settled {allowPending : Bool} {before after : List Message}
    (h : Answered allowPending (before ++ m :: after)) (hm : m.asTool = none) :
    callsOf before ⊆ resultsOf before := by
  intro id hid
  obtain ⟨m', hm', hmade⟩ := List.mem_flatMap.mp hid
  cases m' with
  | assistant a =>
    obtain ⟨front, mid, rfl⟩ := List.append_of_mem hm'
    have hmade : id ∈ a.callIds := hmade
    have hsplit : front ++ .assistant a :: mid ++ m :: after =
        front ++ .assistant a :: (mid ++ m :: after) := by simp
    rcases h front a _ hsplit (List.ne_nil_of_mem hmade) with
      ⟨tools, rest, hafter, hperm, -⟩ | ⟨-, hnil⟩
    · obtain ⟨others, rfl⟩ := exists_others hm hafter.symm
      exact mem_resultsOf_answered (hperm.mem_iff.mpr hmade)
    · simp at hnil
  | _ => simp [Message.asAssistant] at hmade

/-- The loop does not stop in what a linked and answered transcript begins with. -/
theorem exists_settled (allowPending : Bool) : ∀ {before : List Message} (after : List Message),
    Linked (before ++ after) → Answered allowPending (before ++ after) →
      ∃ p, before.foldlM (settle invalidState) ∅ = .ok p := by
  intro before
  induction before using List.reverseRecOn with
  | nil => exact fun _ _ _ => ⟨∅, rfl⟩
  | append_singleton before m ih =>
    intro after hlinked hanswered
    rw [List.append_assoc, List.singleton_append] at hlinked hanswered
    obtain ⟨p, hp⟩ := ih _ hlinked hanswered
    have hnext : Linked (before ++ [m]) := by
      rw [← List.singleton_append, ← List.append_assoc] at hlinked
      exact hlinked.of_append
    obtain ⟨hbefore, hlinks⟩ := linked_snoc.mp hnext
    obtain rfl := pending_eq hbefore hp
    simp only [List.foldlM_append, hp, ok_bind, List.foldlM_cons, List.foldlM_nil, bind_pure]
    cases ht : m.asTool with
    | some t =>
      cases m with
      | tool t' =>
        cases ht
        refine ⟨_, settle_tool.mpr ⟨?_, rfl⟩⟩
        rw [Finset.mem_sdiff, List.mem_toFinset, List.mem_toFinset]
        exact hlinks
      | _ => cases ht
    | none =>
      refine ⟨_, (settle_other ht).mpr ⟨?_, rfl⟩⟩
      rw [Finset.sdiff_eq_empty_iff_subset]
      intro id hid
      rw [List.mem_toFinset] at hid ⊢
      exact hanswered.settled ht hid

/-- What is pending at the end of an answered transcript are the calls of its last message. -/
theorem tail_of_answered {allowPending : Bool} (hlinked : Linked ms)
    (h : Answered allowPending ms) (hms : ms.foldlM (settle invalidState) ∅ = .ok q) :
    q = ∅ ∨ (allowPending = true ∧ (ms.getLast?.bind Message.asAssistant).isSome) := by
  obtain rfl := pending_eq hlinked hms
  by_cases hempty : (callsOf ms).toFinset \ (resultsOf ms).toFinset = ∅
  · exact .inl hempty
  · obtain ⟨id, hid⟩ := Finset.nonempty_iff_ne_empty.mpr hempty
    rw [Finset.mem_sdiff, List.mem_toFinset, List.mem_toFinset] at hid
    obtain ⟨m, hm, hmade⟩ := List.mem_flatMap.mp hid.1
    cases m with
    | assistant a =>
      obtain ⟨before, after, rfl⟩ := List.append_of_mem hm
      have hmade : id ∈ a.callIds := hmade
      rcases h before a after rfl (List.ne_nil_of_mem hmade) with
        ⟨tools, rest, rfl, hperm, -⟩ | ⟨hallow, rfl⟩
      · exact absurd (mem_resultsOf_answered (hperm.mem_iff.mpr hmade)) hid.2
      · exact .inr ⟨hallow, by simp [Message.asAssistant]⟩
    | _ => simp [Message.asAssistant] at hmade

theorem checkTranscript_eq_ok {allowPending : Bool} :
    checkTranscript invalidState ms allowPending = .ok () ↔
      (ChatRequest.new ms).validate = .ok () ∧ Answered allowPending ms := by
  have hvalid : (ChatRequest.new ms).validate = .ok () ↔ ms ≠ [] ∧ Linked ms :=
    validate_iff rfl List.nodup_nil (.inl rfl)
  unfold checkTranscript
  constructor
  · intro h
    obtain ⟨⟨⟩, hrequest, h⟩ := bind_eq_ok.mp h
    obtain ⟨q, hq, h⟩ := bind_eq_ok.mp h
    have hrequest := mapError_eq_ok.mp hrequest
    have hlinked := (hvalid.mp hrequest).2
    refine ⟨hrequest, answered_of_settled hlinked hq ?_⟩
    by_cases hempty : q = ∅
    · exact .inl hempty
    · refine .inr ?_
      split at h
      · cases h
      · next hnot =>
        rw [not_and, not_or] at hnot
        simpa [Option.isSome_iff_ne_none] using hnot hempty
  · rintro ⟨hrequest, hanswered⟩
    have hlinked := (hvalid.mp hrequest).2
    obtain ⟨q, hq⟩ : ∃ q, ms.foldlM (settle invalidState) ∅ = .ok q := by
      refine exists_settled allowPending [] ?_ ?_
      · rwa [List.append_nil]
      · rwa [List.append_nil]
    rw [hrequest, mapError_ok, ok_bind, hq, ok_bind]
    refine if_neg ?_
    rintro ⟨hne, hlast⟩
    rcases tail_of_answered hlinked hanswered hq with hempty | ⟨hallow, hsome⟩
    · exact hne hempty
    · rcases hlast with hlast | hlast
      · rw [hallow] at hlast
        cases hlast
      · rw [Option.isNone_iff_eq_none] at hlast
        rw [hlast] at hsome
        cases hsome

end Accepts

/-- The two checks accept the same transcripts: the valid ones whose calls are answered. -/
theorem transcript_grammar (messages : List Message) (allowPending : Bool) :
    (Sequence.validateTranscript messages allowPending = .ok () ↔
      (ChatRequest.new messages).validate = .ok () ∧ Answered allowPending messages) ∧
    (Branch.validateTranscript messages allowPending = .ok () ↔
      Sequence.validateTranscript messages allowPending = .ok ()) := by
  refine ⟨checkTranscript_eq_ok, ?_⟩
  unfold Branch.validateTranscript Sequence.validateTranscript
  rw [checkTranscript_eq_ok, checkTranscript_eq_ok]

end GroupAgent.Prebuilt
