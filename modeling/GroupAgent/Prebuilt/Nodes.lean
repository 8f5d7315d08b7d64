import GroupAgent.Model.Facade
import GroupAgent.Prebuilt.State
import GroupAgent.Tool.Schedule

/-!
# The nodes of an agent

Model of `ModelNode` (`agent_nodes.rs:15-19`, `run` 22-103) and `ToolNode` (106-109, its methods
115-290), of the approval values (`approval.rs:18-20`, 56-62) and of `OutputContract`
(`structured_output.rs:6-9`) of `crates/group-agent-prebuilt/src`.

* What leaves the agent is a job: a call of the model adapter, the execution of a whole tool batch,
  and the draw of an interrupt identifier.
* `ModelNode.run` counts its round before it asks the model, and panics where the counter cannot
  hold it; `ModelNode.attempt` is what it does otherwise. The round itself goes into the events of
  a stream only.
* `execute_batch` rejects repeated call identifiers before it starts anything. `batch_replies` says
  that what it then comes to is a `BatchReply`: a report that `Tool.batch_scheduling` describes,
  one result a call in their order.

Results:
* `ModelNode.run_eq_ok`: when a model node panics.
* `ModelNode.job`, `ModelNode.completes`: what a model attempt asks for, and what it commits.
* `ToolNode.executes`: what an executed batch commits.
* `ToolNode.approved_job`, `ToolNode.decides`: the same of a node that waits for approval.

Out of scope: the events a node sends to the sink of its state while it works. `stream` and
`complete` of the model come to one response (`Model.Validating`), of which the node takes the
message and the usage.
-/

namespace GroupAgent.Prebuilt

open GroupAgent.Lib GroupAgent.Model GroupAgent.Core GroupAgent.Tool

/-! ## Jobs -/

/-- What leaves the agent. -/
inductive AgentJob where
  | model (job : ModelJob)
  | tools (calls : List ToolCall)
  | interruptId

/-- The report of a batch, with one result for each call. -/
structure BatchReply (calls : List ToolCall) where
  report : ToolBatchReport
  callIds : report.callIds = calls.map ToolCall.id
  length : report.results.length = calls.length

def AgentJob.Reply : AgentJob → Type
  | .model job => job.Reply
  | .tools calls => BatchReply calls
  | .interruptId => InterruptId

/-- What an attempt comes to. -/
abbrev AgentPlan (A : Type) : Type := Plan AgentJob AgentJob.Reply A

/-- A plan of the model facade. -/
def modelPlan {A : Type} (plan : Plan ModelJob ModelJob.Reply A) : AgentPlan A :=
  plan.lift (R := ModelJob.Reply) AgentJob.model fun _ reply => reply

@[simp] theorem job?_modelPlan {A : Type} (plan : Plan ModelJob ModelJob.Reply A) :
    (modelPlan plan).job? = plan.job?.map AgentJob.model := Plan.job?_lift _ _ plan

theorem answers_modelPlan {A : Type} {plan : Plan ModelJob ModelJob.Reply A} {a : A}
    (h : (modelPlan plan).Answers a) : plan.Answers a := Plan.answers_lift h

/-! ## Tools -/

def batchErrorDisplay : ToolBatchError → String
  | .zeroConcurrency => "tool batch max concurrency must be greater than zero"
  | .duplicateToolCallId callId firstIndex duplicateIndex =>
    s!"tool call id `{callId.value}` is duplicated at batch indices {firstIndex} and " ++
      s!"{duplicateIndex}"

/-- The batch that the runtime of a tool node executes. -/
def batchOf (runtime : ToolRuntime) (answers : Nat → Answers) (calls : List ToolCall) : Batch where
  runtime
  items := calls.map .new
  config := .default
  answers

/-- Execute a batch of calls. -/
def executeBatch (calls : List ToolCall) : AgentPlan (Except ToolBatchError (BatchReply calls)) :=
  match validateUniqueCallIds (calls.map .new) with
  | .error error => .done (.error error)
  | .ok () => .call (.tools calls) .ok

/-- The tool messages of a report without errors. -/
def BatchReply.toolMessages {calls : List ToolCall} (reply : BatchReply calls) :
    Except ToolRuntimeError (List ToolMessage) := do
  let results ← reply.report.results.mapM id
  pure (List.zipWith ToolMessage.mk reply.report.callIds results)

/-! ## Approval -/

/-- The decision for one suspended batch. -/
inductive AgentApprovalDecision where
  | approve
  | reject
  deriving DecidableEq, Repr

/-- What a suspension carries and what a resume supplies: a request for approval, a decision, or a
value of another type. -/
inductive AgentValue where
  | request (pendingCalls : List ToolCall)
  | decision (decision : AgentApprovalDecision)
  | other (typeName : String)

namespace AgentValue

def typeName : AgentValue → String
  | .request _ => "group_agent_prebuilt::approval::AgentApprovalRequest"
  | .decision _ => "group_agent_prebuilt::approval::AgentApprovalDecision"
  | .other typeName => typeName

/-- What a value of the wrong type is rejected with. -/
def typeMismatch (expected actual : String) : String :=
  s!"resume value type mismatch: expected `{expected}`, actual `{actual}`"

def requireDecision : AgentValue → Except SourceError AgentApprovalDecision
  | .decision d => .ok d
  | value => .error (.withSource "invalid approval decision" (.foreign
      (typeMismatch "group_agent_prebuilt::approval::AgentApprovalDecision" value.typeName)))

theorem requireDecision_eq_ok {value : AgentValue} {decision : AgentApprovalDecision} :
    value.requireDecision = .ok decision ↔ value = .decision decision := by
  cases value <;> simp [requireDecision]

end AgentValue

/-! ## The output contract -/

/-- The contract of the final answers, if there is one. -/
structure OutputContract where
  value : Option StructuredOutput

namespace OutputContract

def request (self : OutputContract) (request : ChatRequest) : ChatRequest :=
  match self.value with
  | some output => { request with output := some output }
  | none => request

def version (self : OutputContract) (approval : Bool) : Option String :=
  self.value.map fun output =>
    let mode := if approval then "approval/structured" else "structured"
    s!"group-agent-prebuilt/tool-calling-agent/{mode}/1/{output.contractId}"

end OutputContract

/-! ## The model node -/

structure ModelNode where
  output : OutputContract
  model : ChatModel
  tools : ToolRegistry
  /-- The JSON reader of the stream collector. -/
  fromStr : String → Except String Json

namespace ModelNode

/-- The request of the next round. -/
def request (self : ModelNode) (messages : List Message) : ChatRequest :=
  self.output.request
    { ChatRequest.new messages with
      tools := self.tools.definitions
      toolChoice := if self.tools.definitions.isEmpty then .none else .auto }

def failure (message : String) (source : ModelError) : SourceError :=
  .withSource message (.foreign source.display)

/-- What is collected from the stream of a response. -/
def collected (self : ModelNode) (reply : Except ModelError ChatEventStream) :
    Except SourceError ChatResponse := do
  let stream ← reply.mapError (failure "model stream failed")
  collectWith self.fromStr (failure "model stream chunk failed")
    (failure "stream collection failed") (failure "stream collection finish failed") .new stream

/-- The response of one round, streamed when somebody listens. -/
def respond (self : ModelNode) (state : AgentState) :
    Plan ModelJob ModelJob.Reply (Except SourceError ChatResponse) :=
  if state.sink.isSome then
    (self.model.stream self.fromStr (self.request state.messages)).map self.collected
  else
    (self.model.complete (self.request state.messages)).map fun reply =>
      reply.mapError (failure "model completion failed")

/-- What a round that was counted attempts. -/
def attempt (self : ModelNode) (state : AgentState) : AgentPlan (Except SourceError AgentUpdate) :=
  modelPlan ((self.respond state).map fun response =>
    response.map fun response => .modelCompleted response.message response.usage)

/-- The round that is counted before the model is asked. The addition is not checked. -/
def round (state : AgentState) : Except Panic Nat :=
  if state.modelRounds + 1 ≤ usizeMax then .ok (state.modelRounds + 1) else .error .counterOverflow

/-- The node. Its round is only read by the events of the sink. -/
def run (self : ModelNode) (state : AgentState) :
    Except Panic (AgentPlan (Except SourceError AgentUpdate)) := do
  let _round ← round state
  pure (self.attempt state)

end ModelNode

/-! ## The tool node -/

structure ToolNode where
  maxRounds : Nat

/-- Fixed text committed for a rejected call. -/
def TOOL_REJECTION_NOTICE : String := "tool call rejected by approval"

namespace ToolNode

def invariantFailed : SourceError :=
  .withSource "tool node invariant failed" (.foreign "tool node state invariant failed")

def validatedPendingCalls (self : ToolNode) (state : AgentState) :
    Except SourceError (List ToolCall) :=
  match state.pendingToolCalls with
  | none => .error invariantFailed
  | some calls =>
    if calls.isEmpty then .error invariantFailed
    else if self.maxRounds < state.modelRounds then .error invariantFailed
    else .ok calls

def toolsCompleted (self : ToolNode) (state : AgentState) (messages : List ToolMessage) :
    AgentUpdate :=
  .toolsCompleted messages (state.modelRounds == self.maxRounds)

/-- The update of an executed batch. -/
def completed (self : ToolNode) (state : AgentState) {calls : List ToolCall}
    (reply : Except ToolBatchError (BatchReply calls)) : Except SourceError AgentUpdate := do
  let report ← reply.mapError fun error =>
    .withSource "tool batch rejected" (.foreign (batchErrorDisplay error))
  let messages ← report.toolMessages.mapError fun _ =>
    .withSource "tool batch execution failed" (.foreign "agent tool batch infrastructure failure")
  pure (self.toolsCompleted state messages)

def executePending (self : ToolNode) (state : AgentState) (calls : List ToolCall) :
    AgentPlan (Except SourceError AgentUpdate) :=
  (executeBatch calls).map (self.completed state)

def rejectedUpdate (self : ToolNode) (state : AgentState) (calls : List ToolCall) : AgentUpdate :=
  self.toolsCompleted state
    (calls.map fun call => ⟨call.id, ToolResult.errorText TOOL_REJECTION_NOTICE⟩)

/-- The node without approval. -/
def run (self : ToolNode) (state : AgentState) : AgentPlan (Except SourceError AgentUpdate) :=
  match self.validatedPendingCalls state with
  | .error error => .done (.error error)
  | .ok calls => self.executePending state calls

/-- What a decision leads to. -/
def decided (self : ToolNode) (state : AgentState) (calls : List ToolCall) :
    AgentApprovalDecision → AgentPlan (Except SourceError AgentUpdate)
  | .approve => self.executePending state calls
  | .reject => .done (.ok (self.rejectedUpdate state calls))

/-- The node with approval: it suspends until it is resumed with a decision. -/
def runInterruptible (self : ToolNode) (state : AgentState) (resumeValue : Option AgentValue) :
    AgentPlan (Except SourceError (NodeOutcome AgentUpdate AgentValue)) :=
  match self.validatedPendingCalls state with
  | .error error => .done (.error error)
  | .ok calls =>
    match resumeValue with
    | none => .call .interruptId fun id => .ok (.interrupt ⟨id, .request calls⟩)
    | some value =>
      match value.requireDecision with
      | .error error => .done (.error error)
      | .ok decision => (self.decided state calls decision).map (NodeOutcome.update <$> ·)

end ToolNode

/-! ## What a batch comes to -/

theorem validateCalls_eq_ok {calls : List ToolCall} :
    validateUniqueCallIds (calls.map .new) = .ok () ↔ (calls.map ToolCall.id).Nodup := by
  rw [validateUniqueCallIds_eq_ok, List.map_map]
  rfl

/-- A batch is only started when its identifiers differ. -/
theorem executeBatch_job {calls : List ToolCall} {job : AgentJob}
    (h : (executeBatch calls).job? = some job) :
    job = .tools calls ∧ (calls.map ToolCall.id).Nodup := by
  unfold executeBatch at h
  split at h
  · cases h
  · rename_i hunique
    exact ⟨(Option.some.inj h).symm, validateCalls_eq_ok.mp hunique⟩

theorem executeBatch_answers {calls : List ToolCall} {report : BatchReply calls}
    (h : (executeBatch calls).Answers (.ok report)) : (calls.map ToolCall.id).Nodup := by
  unfold executeBatch at h
  split at h
  · cases Plan.answers_done.mp h
  · rename_i hunique
    exact validateCalls_eq_ok.mp hunique

/-- **The reply of a batch** is what its execution comes to: in whatever order its calls finish, it
comes to a report, and every report it comes to is a reply. -/
theorem batch_replies {calls : List ToolCall} (h : (calls.map ToolCall.id).Nodup)
    (runtime : ToolRuntime) (answers : Nat → Answers) :
    ∃ p, (batchOf runtime answers calls).enter = .ok p ∧
      (∃ log report, Relation.ReflTransGen (batchOf runtime answers calls).Turn p
        (.returned log report)) ∧
      ∀ log report, Relation.ReflTransGen (batchOf runtime answers calls).Turn p
        (.returned log report) → ∃ reply : BatchReply calls, reply.report = report := by
  have hmax : 1 ≤ (batchOf runtime answers calls).config.maxConcurrency := Nat.succ_pos 7
  have hids : (batchOf runtime answers calls).items.map (fun item => item.call.id) =
      calls.map ToolCall.id := by
    show (calls.map ToolBatchItem.new).map _ = _
    rw [List.map_map]
    rfl
  obtain ⟨p, henter, hgood, hacc⟩ := enter_good hmax (hids ▸ h)
  refine ⟨p, henter, hgood.returns hmax hacc, fun log report hrun => ?_⟩
  have hdelivered := delivered_of_good (hgood.run hmax hrun)
  refine ⟨⟨report, hdelivered.callIds.trans hids, hdelivered.length.trans ?_⟩, rfl⟩
  show (calls.map ToolBatchItem.new).length = _
  exact List.length_map _

/-- Its messages answer the calls one by one. -/
theorem BatchReply.toolMessages_ids {calls : List ToolCall} {reply : BatchReply calls}
    {messages : List ToolMessage} (h : reply.toolMessages = .ok messages) :
    messages.map ToolMessage.toolCallId = calls.map ToolCall.id := by
  unfold toolMessages at h
  obtain ⟨results, hresults, h⟩ := bind_eq_ok.mp h
  cases h
  have hlen := (mapM_eq_ok.mp hresults).length_eq
  rw [reply.length] at hlen
  rw [List.map_zipWith]
  show List.zipWith (fun callId _ => callId) reply.report.callIds results = _
  have hids : (reply.report.callIds).length ≤ results.length := by
    rw [reply.callIds, List.length_map]
    exact hlen.le
  rw [← List.map_uncurry_zip_eq_zipWith]
  show (reply.report.callIds.zip results).map Prod.fst = _
  rw [List.map_fst_zip hids, reply.callIds]

/-! ## What the nodes come to -/

namespace OutputContract

theorem request_messages (self : OutputContract) (request : ChatRequest) :
    (self.request request).messages = request.messages := by
  unfold OutputContract.request
  cases self.value <;> rfl

end OutputContract

namespace ModelNode

variable {self : ModelNode}

@[simp] theorem request_messages (self : ModelNode) (messages : List Message) :
    (self.request messages).messages = messages := by
  unfold request
  rw [OutputContract.request_messages]
  rfl

theorem request_output (self : ModelNode) (messages : List Message) :
    (self.request messages).output = self.output.value := by
  unfold request OutputContract.request
  cases self.output.value <;> rfl

/-- The request of a transcript is accepted when the transcript is linked. -/
theorem validate_request (self : ModelNode) (messages : List Message) :
    (self.request messages).validate = .ok () ↔ messages ≠ [] ∧ Linked messages := by
  have hchoice : ∀ c : ToolChoice, c = (if self.tools.definitions.isEmpty then .none else .auto) →
      c = .auto ∨ c = .none := by
    rintro _ rfl
    split
    · exact .inr rfl
    · exact .inl rfl
  have hall : (self.request messages).generation = .new ∧
      (self.request messages).tools = self.tools.definitions ∧
      (self.request messages).toolChoice =
        if self.tools.definitions.isEmpty then .none else .auto := by
    unfold request OutputContract.request
    cases self.output.value <;> exact ⟨rfl, rfl, rfl⟩
  obtain ⟨hgeneration, htools, htoolChoice⟩ := hall
  rw [validate_iff hgeneration (htools ▸ self.tools.definitions_nodup) (hchoice _ htoolChoice),
    request_messages]

/-- The node attempts a round that it can count, and panics at another. -/
theorem run_eq_ok {state : AgentState} {plan : AgentPlan (Except SourceError AgentUpdate)} :
    self.run state = .ok plan ↔ state.modelRounds < usizeMax ∧ self.attempt state = plan := by
  unfold run round
  by_cases h : state.modelRounds + 1 ≤ usizeMax
  · rw [if_pos h]
    exact ⟨fun hplan => ⟨h, Except.ok.inj hplan⟩, fun hplan => congrArg Except.ok hplan.2⟩
  · rw [if_neg h]
    exact ⟨fun hplan => (by cases hplan), fun hplan => absurd hplan.1 h⟩

/-- A model attempt asks for a response to its transcript, if that can be sent. -/
theorem job {state : AgentState} {job : AgentJob} (h : (self.attempt state).job? = some job) :
    (∃ j, job = .model j) ∧ state.messages ≠ [] ∧ Linked state.messages := by
  unfold attempt at h
  rw [job?_modelPlan, Plan.job?_map, Option.map_eq_some_iff] at h
  obtain ⟨j, hj, rfl⟩ := h
  unfold respond at hj
  split at hj
  · rw [Plan.job?_map] at hj
    exact ⟨⟨j, rfl⟩, (self.validate_request _).mp (ChatModel.stream_job hj).2⟩
  · rw [Plan.job?_map] at hj
    exact ⟨⟨j, rfl⟩, (self.validate_request _).mp (ChatModel.complete_job hj).2⟩

/-- The messages of a model attempt were sent. -/
theorem completes {state : AgentState} {update : AgentUpdate}
    (h : (self.attempt state).Answers (.ok update)) : ∃ message usage,
      update = .modelCompleted message usage ∧ ∀ output, self.output.value = some output →
        ∃ response out, response.message = message ∧ output.validateResponse response = .ok out := by
  obtain ⟨reply, hreply, hupdate⟩ := Plan.answers_map.mp (answers_modelPlan h)
  obtain ⟨response, rfl, rfl⟩ := map_eq_ok.mp hupdate
  refine ⟨response.message, response.usage, rfl, fun output houtput => ?_⟩
  have houtput' := (self.request_output state.messages).trans houtput
  unfold respond at hreply
  split at hreply
  · obtain ⟨stream, hstream, hcollected⟩ := Plan.answers_map.mp hreply
    unfold collected at hcollected
    obtain ⟨items, hitems, hcollected⟩ := bind_eq_ok.mp hcollected
    rw [mapError_eq_ok.mp hitems] at hstream
    obtain ⟨out, hout⟩ := ChatModel.stream_validated hstream houtput' hcollected
    exact ⟨response, out, rfl, hout⟩
  · obtain ⟨raw, hraw, hresponse⟩ := Plan.answers_map.mp hreply
    rw [mapError_eq_ok.mp hresponse] at hraw
    obtain ⟨out, hout⟩ := ChatModel.complete_validated hraw houtput'
    exact ⟨response, out, rfl, hout⟩

end ModelNode

namespace ToolNode

variable {self : ToolNode} {state : AgentState}

/-- The calls a tool attempt goes by. -/
structure Pending (node : ToolNode) (state : AgentState) (calls : List ToolCall) : Prop where
  pending : state.pendingToolCalls = some calls
  ne_nil : calls ≠ []
  rounds : state.modelRounds ≤ node.maxRounds

theorem validatedPendingCalls_eq_ok {calls : List ToolCall} :
    self.validatedPendingCalls state = .ok calls ↔ self.Pending state calls := by
  unfold validatedPendingCalls
  cases hp : state.pendingToolCalls with
  | none => exact ⟨(by intro h; cases h), (by intro h; rw [h.pending] at hp; cases hp)⟩
  | some pending =>
    simp only
    by_cases he : pending.isEmpty = true
    · rw [if_pos he]
      refine ⟨(by intro h; cases h), fun h => ?_⟩
      have heq : pending = calls := Option.some.inj (hp.symm.trans h.pending)
      exact absurd (heq ▸ List.isEmpty_iff.mp he) h.ne_nil
    · rw [if_neg he]
      by_cases hr : self.maxRounds < state.modelRounds
      · rw [if_pos hr]
        exact ⟨(by intro h; cases h), fun h => absurd h.rounds (Nat.not_le.mpr hr)⟩
      · rw [if_neg hr, Except.ok.injEq]
        constructor
        · rintro rfl
          exact ⟨hp, fun h => he (List.isEmpty_iff.mpr h), Nat.not_lt.mp hr⟩
        · exact fun h => Option.some.inj (hp.symm.trans h.pending)

/-- The update of a batch that was executed. -/
structure Executed (node : ToolNode) (state : AgentState) (calls : List ToolCall)
    (update : AgentUpdate) : Prop where
  unique : (calls.map ToolCall.id).Nodup
  update : ∃ messages, update = node.toolsCompleted state messages ∧
    messages.map ToolMessage.toolCallId = calls.map ToolCall.id

theorem executePending_job {calls : List ToolCall} {job : AgentJob}
    (h : (self.executePending state calls).job? = some job) : job = .tools calls := by
  unfold executePending at h
  rw [Plan.job?_map] at h
  exact (executeBatch_job h).1

theorem executes {calls : List ToolCall} {update : AgentUpdate}
    (h : (self.executePending state calls).Answers (.ok update)) :
    self.Executed state calls update := by
  obtain ⟨reply, hreply, hupdate⟩ := Plan.answers_map.mp h
  unfold completed at hupdate
  obtain ⟨report, hreport, hupdate⟩ := bind_eq_ok.mp hupdate
  obtain ⟨messages, hmessages, hupdate⟩ := bind_eq_ok.mp hupdate
  rw [mapError_eq_ok.mp hreport] at hreply
  cases hupdate
  exact ⟨executeBatch_answers hreply, messages, rfl,
    BatchReply.toolMessages_ids (mapError_eq_ok.mp hmessages)⟩

/-- What a tool attempt without approval commits. -/
theorem run_answers {update : AgentUpdate} (h : (self.run state).Answers (.ok update)) :
    ∃ calls, self.Pending state calls ∧ self.Executed state calls update := by
  unfold run at h
  cases hv : self.validatedPendingCalls state with
  | error e =>
    rw [hv] at h
    cases Plan.answers_done.mp h
  | ok calls =>
    rw [hv] at h
    exact ⟨calls, validatedPendingCalls_eq_ok.mp hv, executes h⟩

theorem run_job {job : AgentJob} (h : (self.run state).job? = some job) :
    ∃ calls, self.Pending state calls ∧ job = .tools calls := by
  unfold run at h
  cases hv : self.validatedPendingCalls state with
  | error e =>
    rw [hv] at h
    cases h
  | ok calls =>
    rw [hv] at h
    exact ⟨calls, validatedPendingCalls_eq_ok.mp hv, executePending_job h⟩

/-- A node with approval starts a batch only after an approval. -/
theorem approved_job {resumeValue : Option AgentValue} {job : AgentJob}
    (h : (self.runInterruptible state resumeValue).job? = some job) :
    ∃ calls, self.Pending state calls ∧
      (job = .tools calls ∧ resumeValue = some (.decision .approve) ∨
        job = .interruptId ∧ resumeValue = none) := by
  unfold runInterruptible at h
  cases hv : self.validatedPendingCalls state with
  | error e =>
    rw [hv] at h
    cases h
  | ok calls =>
    rw [hv] at h
    refine ⟨calls, validatedPendingCalls_eq_ok.mp hv, ?_⟩
    cases resumeValue with
    | none => exact .inr ⟨(Option.some.inj h).symm, rfl⟩
    | some value =>
      simp only at h
      cases hd : value.requireDecision with
      | error e =>
        rw [hd] at h
        cases h
      | ok decision =>
        rw [hd] at h
        simp only at h
        rw [Plan.job?_map] at h
        cases decision with
        | reject => cases h
        | approve =>
          rw [AgentValue.requireDecision_eq_ok.mp hd]
          exact .inl ⟨executePending_job h, rfl⟩

/-- What an attempt of a node with approval comes to. -/
inductive Decides (self : ToolNode) (state : AgentState) :
    Option AgentValue → NodeOutcome AgentUpdate AgentValue → Prop where
  | suspended {calls : List ToolCall} (h : self.Pending state calls) (id : InterruptId) :
      Decides self state none (.interrupt ⟨id, .request calls⟩)
  | approved {calls : List ToolCall} {update : AgentUpdate} (h : self.Pending state calls)
      (hupdate : self.Executed state calls update) :
      Decides self state (some (.decision .approve)) (.update update)
  | rejected {calls : List ToolCall} (h : self.Pending state calls) :
      Decides self state (some (.decision .reject)) (.update (self.rejectedUpdate state calls))

theorem decides {resumeValue : Option AgentValue} {outcome : NodeOutcome AgentUpdate AgentValue}
    (h : (self.runInterruptible state resumeValue).Answers (.ok outcome)) :
    self.Decides state resumeValue outcome := by
  unfold runInterruptible at h
  cases hv : self.validatedPendingCalls state with
  | error e =>
    rw [hv] at h
    cases Plan.answers_done.mp h
  | ok calls =>
    rw [hv] at h
    have hpending := validatedPendingCalls_eq_ok.mp hv
    cases resumeValue with
    | none =>
      obtain ⟨id, hid⟩ := Plan.answers_call.mp h
      cases hid
      exact .suspended hpending id
    | some value =>
      simp only at h
      cases hd : value.requireDecision with
      | error e =>
        rw [hd] at h
        cases Plan.answers_done.mp h
      | ok decision =>
        rw [hd] at h
        obtain ⟨reply, hreply, houtcome⟩ := Plan.answers_map.mp h
        obtain ⟨update, rfl, rfl⟩ := map_eq_ok.mp houtcome
        rw [AgentValue.requireDecision_eq_ok.mp hd]
        cases decision with
        | approve => exact .approved hpending (executes hreply)
        | reject =>
          cases Plan.answers_done.mp hreply
          exact .rejected hpending

end ToolNode

end GroupAgent.Prebuilt
