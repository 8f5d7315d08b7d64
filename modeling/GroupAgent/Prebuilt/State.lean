import GroupAgent.Model.Request
import GroupAgent.Core.Runtime

/-!
# The state of an agent

Model of `AgentState` (`state.rs:9-15`, `pending_tool_calls` 57-62, `apply` 114-175), of its
updates (100-109) and of its snapshots (`snapshot.rs:18-23`) of `crates/group-agent-prebuilt/src`.

* An update is checked as a whole before anything is assigned. A rejected one leaves the state as
  it was.
* An event sink only observes, so of the attached sink nothing is kept but whose it is.
* A snapshot has the fields of the state without the sink, and is restored unchecked: a restored
  state need not be one that updates lead to.

Results: `apply_model` and `apply_tools` say when an update is accepted and what it makes of the
state.

Out of scope: the serialization of snapshots by `AgentSnapshotCodec`, which is the codec parameter
of a host.
-/

namespace GroupAgent.Prebuilt

open GroupAgent.Lib GroupAgent.Model GroupAgent.Core

/-- Why an agent stopped normally. -/
inductive AgentStopReason where
  | finalAnswer
  | maxRounds
  deriving DecidableEq, Repr

/-- The event sink of an invocation, or of one stage of it. -/
inductive AgentEventSink where
  | invocation
  | stage (id : String)
  deriving DecidableEq, Repr

structure AgentState where
  messages : List Message
  modelRounds : Nat
  usageByRound : List (Option TokenUsage)
  stopReason : Option AgentStopReason
  sink : Option AgentEventSink

inductive AgentUpdate where
  | modelCompleted (message : AssistantMessage) (usage : Option TokenUsage)
  | toolsCompleted (messages : List ToolMessage) (reachedMaxRounds : Bool)

namespace AgentState

def new (messages : List Message) : AgentState := ⟨messages, 0, [], none, none⟩

def setSink (self : AgentState) (sink : AgentEventSink) : AgentState :=
  { self with sink := some sink }

def usageIsAligned (self : AgentState) : Bool := self.usageByRound.length == self.modelRounds

/-- The calls of the last message, if it is an assistant message. -/
def pendingToolCalls (self : AgentState) : Option (List ToolCall) :=
  (self.messages.getLast?.bind Message.asAssistant).map AssistantMessage.toolCalls

/-- The messages answer the calls one by one. -/
def answers (calls : List ToolCall) (messages : List ToolMessage) : Bool :=
  calls.map ToolCall.id == messages.map ToolMessage.toolCallId

/-- The state after one more response. -/
def addRound (self : AgentState) (message : AssistantMessage) (usage : Option TokenUsage) :
    AgentState :=
  { self with
    messages := self.messages ++ [.assistant message]
    modelRounds := self.modelRounds + 1
    usageByRound := self.usageByRound ++ [usage]
    stopReason := if message.toolCalls.isEmpty then some .finalAnswer else none }

/-- The state after one more batch of results. -/
def addResults (self : AgentState) (messages : List ToolMessage) (reachedMaxRounds : Bool) :
    AgentState :=
  { self with
    messages := self.messages ++ messages.map .tool
    stopReason := if reachedMaxRounds then some .maxRounds else self.stopReason }

def apply (self : AgentState) : AgentUpdate → Except SourceError AgentState
  | .modelCompleted message usage =>
    if self.stopReason.isSome then .error (.message "agent is already stopped")
    else if self.usageByRound.length ≠ self.modelRounds then
      .error (.message "agent usage and round counts diverged")
    else if usizeMax < self.modelRounds + 1 then
      .error (.message "agent model round counter overflow")
    else .ok (self.addRound message usage)
  | .toolsCompleted messages reachedMaxRounds =>
    if self.stopReason.isSome then .error (.message "agent is already stopped")
    else if self.modelRounds = 0 ∨ self.usageByRound.length ≠ self.modelRounds then
      .error (.message "agent model round state is invalid")
    else
      match self.pendingToolCalls with
      | none => .error (.message "tool update requires a preceding assistant message")
      | some calls =>
        if calls.isEmpty then
          .error (.message "tool update requires at least one pending tool call")
        else if !answers calls messages then
          .error (.message "tool update messages do not match pending calls")
        else .ok (self.addResults messages reachedMaxRounds)

end AgentState

/-! ## Snapshots -/

/-- Immutable snapshot of the agent state retained by a durable checkpoint. -/
structure AgentSnapshot where
  messages : List Message
  modelRounds : Nat
  usageByRound : List (Option TokenUsage)
  stopReason : Option AgentStopReason

def AgentState.snapshot (self : AgentState) : AgentSnapshot :=
  ⟨self.messages, self.modelRounds, self.usageByRound, self.stopReason⟩

def AgentState.restore (snapshot : AgentSnapshot) : AgentState :=
  ⟨snapshot.messages, snapshot.modelRounds, snapshot.usageByRound, snapshot.stopReason, none⟩

/-- The same state, whatever its event sink. -/
def AgentState.Alike (s s' : AgentState) : Prop := s.snapshot = s'.snapshot

theorem AgentState.alike_setSink (s : AgentState) (sink : AgentEventSink) : s.Alike (s.setSink sink) :=
  rfl

/-! ## Updates -/

namespace AgentState

variable {s s' : AgentState}

theorem usageIsAligned_iff : s.usageIsAligned = true ↔ s.usageByRound.length = s.modelRounds := by
  unfold usageIsAligned
  exact beq_iff_eq

theorem apply_model {message : AssistantMessage} {usage : Option TokenUsage} :
    s.apply (.modelCompleted message usage) = .ok s' ↔ s.stopReason = none ∧
      s.usageByRound.length = s.modelRounds ∧ s.modelRounds + 1 ≤ usizeMax ∧
      s' = s.addRound message usage := by
  simp only [apply]
  by_cases hs : s.stopReason.isSome = true
  · rw [if_pos hs]
    simp [Option.isSome_iff_ne_none.mp hs]
  · have hnone : s.stopReason = none := Option.not_isSome_iff_eq_none.mp hs
    rw [if_neg hs]
    by_cases ha : s.usageByRound.length = s.modelRounds
    · rw [if_neg (not_not.mpr ha)]
      by_cases ho : usizeMax < s.modelRounds + 1
      · rw [if_pos ho]
        simp [Nat.not_le.mpr ho]
      · rw [if_neg ho, Except.ok.injEq]
        exact ⟨fun h => ⟨hnone, ha, Nat.not_lt.mp ho, h.symm⟩, fun h => h.2.2.2.symm⟩
    · rw [if_pos ha]
      simp [ha]

theorem answers_iff {calls : List ToolCall} {messages : List ToolMessage} :
    answers calls messages = true ↔
      messages.map ToolMessage.toolCallId = calls.map ToolCall.id := by
  unfold answers
  rw [beq_iff_eq]
  exact eq_comm

theorem apply_tools {messages : List ToolMessage} {reached : Bool} :
    s.apply (.toolsCompleted messages reached) = .ok s' ↔ s.stopReason = none ∧
      s.modelRounds ≠ 0 ∧ s.usageByRound.length = s.modelRounds ∧
      (∃ calls, s.pendingToolCalls = some calls ∧ calls ≠ [] ∧
        messages.map ToolMessage.toolCallId = calls.map ToolCall.id) ∧
      s' = s.addResults messages reached := by
  simp only [apply]
  by_cases hs : s.stopReason.isSome = true
  · rw [if_pos hs]
    simp [Option.isSome_iff_ne_none.mp hs]
  · have hnone : s.stopReason = none := Option.not_isSome_iff_eq_none.mp hs
    rw [if_neg hs]
    by_cases hr : s.modelRounds = 0 ∨ s.usageByRound.length ≠ s.modelRounds
    · rw [if_pos hr]
      rcases hr with hr | hr <;> simp [hr]
    rw [if_neg hr]
    obtain ⟨hrounds, haligned⟩ := not_or.mp hr
    split
    · rename_i hp
      simp [hp]
    · rename_i calls hp
      by_cases he : calls.isEmpty = true
      · rw [if_pos he]
        simp [hp, List.isEmpty_iff.mp he]
      rw [if_neg he]
      by_cases hm : answers calls messages = true
      · have hids := answers_iff.mp hm
        rw [if_neg (by rw [hm]; decide), Except.ok.injEq]
        constructor
        · intro h
          refine ⟨hnone, hrounds, not_not.mp haligned, ⟨calls, hp, ?_, hids⟩, h.symm⟩
          exact fun h => he (List.isEmpty_iff.mpr h)
        · exact fun h => h.2.2.2.2.symm
      · have hids := fun h => hm (answers_iff.mpr h)
        rw [Bool.not_eq_true] at hm
        rw [if_pos (by rw [hm]; decide)]
        simp only [hp, Option.some.injEq, reduceCtorEq, exists_eq_left', false_iff]
        rintro ⟨-, -, -, ⟨-, h⟩, -⟩
        exact hids h

/-- The last message is an assistant message with these calls. -/
theorem pendingToolCalls_eq {calls : List ToolCall} : s.pendingToolCalls = some calls ↔
    ∃ ms a, s.messages = ms ++ [.assistant a] ∧ a.toolCalls = calls := by
  unfold pendingToolCalls
  cases s.messages using List.reverseRecOn with
  | nil => simp
  | append_singleton ms m =>
    rw [List.getLast?_concat]
    cases m with
    | assistant a => simp [Message.asAssistant]
    | _ => simp [Message.asAssistant]

@[simp] theorem pendingToolCalls_addRound (s : AgentState) (message : AssistantMessage)
    (usage : Option TokenUsage) : (s.addRound message usage).pendingToolCalls = some message.toolCalls :=
  pendingToolCalls_eq.mpr ⟨s.messages, message, rfl, rfl⟩

/-- After results there is no assistant message to answer. -/
theorem getLast?_addResults {messages : List ToolMessage} (hne : messages ≠ []) (s : AgentState)
    (reached : Bool) : ∃ t, (s.addResults messages reached).messages.getLast? = some (.tool t) := by
  refine ⟨messages.getLast hne, ?_⟩
  show (s.messages ++ messages.map Message.tool).getLast? = _
  rw [List.getLast?_append, List.getLast?_map, List.getLast?_eq_some_getLast hne]
  rfl

theorem pendingToolCalls_addResults {messages : List ToolMessage} (hne : messages ≠ [])
    (s : AgentState) (reached : Bool) : (s.addResults messages reached).pendingToolCalls = none := by
  obtain ⟨t, ht⟩ := getLast?_addResults hne s reached
  unfold pendingToolCalls
  rw [ht]
  rfl

end AgentState

end GroupAgent.Prebuilt
