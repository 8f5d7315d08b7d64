import GroupAgent.Prebuilt.Agent

/-!
# The turns of an agent

What an attempt, a job and a super-step of an agent can be: the cases of its two nodes
(`agent_nodes.rs:22-103`, 232-290) and of its routers (`agent.rs:774-810`).

* `ToolCallingAgent.tries_cases`: an attempt is one of the model or of the tools.
* `ToolCallingAgent.works_cases`: a job is a request for the transcript, or the pending calls.
* `ToolCallingAgent.leads_of_apply`: once an update is applied, its router answers.
* `ToolCallingAgent.opens_cases`: where a call opens: at the model for an invocation, at the
  frontier of its checkpoint for any other.

Results: **`ToolCallingAgent.step_cases`**: a super-step is a `Turn` of the agent.

Every later file about agents takes a run apart by these cases, and not by the definitions of the
nodes.
-/

namespace GroupAgent.Prebuilt

open GroupAgent.Lib GroupAgent.Model GroupAgent.Core

namespace ToolCallingAgent

variable {self : ToolCallingAgent} {p q : Position self.program}

/-! ## Attempts -/

def toolsKind (self : ToolCallingAgent) : NodeKind AgentNode :=
  if self.config.toolApproval then .interruptible .tools else .normal .tools

theorem item_cases {i : Nat} {n : CompiledNode AgentNode AgentNode Nat}
    (h : self.graph.items[i]? = some (.node n)) :
    (i = 0 ∧ n.kind = .normal .model ∧ n.transition =
      .conditional .model [(NodeId.END, none), (TOOL_NODE_ID, some 1)]) ∨
    (i = 1 ∧ n.kind = self.toolsKind ∧ n.transition =
      .conditional .tools [(NodeId.END, none), (MODEL_NODE_ID, some 0)]) := by
  match i, h with
  | 0, h =>
    cases h
    exact .inl ⟨rfl, rfl, rfl⟩
  | 1, h =>
    cases h
    exact .inr ⟨rfl, rfl, rfl⟩

/-- An attempt is one of the model, or one of the tools. -/
theorem tries_cases {i : Nat} {a : NodeAttempt AgentNode AgentState AgentValue}
    (h : Tries self.program self.graph p i a) :
    (i = 0 ∧ ∃ context, a = ⟨.normal .model, p.state, context⟩) ∨
    (i = 1 ∧ ∃ context, a = ⟨self.toolsKind, p.state, context⟩ ∧
      context.resumeValue = p.offered 1) := by
  obtain ⟨kind, state, context⟩ := a
  obtain ⟨n, hn, hkind, -⟩ := h.node
  obtain rfl : state = p.state := h.state
  obtain rfl : kind = n.kind := hkind
  rcases item_cases hn with ⟨rfl, hkind, -⟩ | ⟨rfl, hkind, -⟩
  · rw [hkind]
    exact .inl ⟨rfl, context, rfl⟩
  · rw [hkind]
    exact .inr ⟨rfl, context, rfl, h.resume⟩

/-- What the tools were answered with. -/
inductive Settles (self : ToolCallingAgent) (p : Position self.program) (calls : List ToolCall) :
    List ToolMessage → Prop where
  | executed {messages : List ToolMessage}
      (approved : self.config.toolApproval = true → p.offered 1 = some (.decision .approve))
      (unique : (calls.map ToolCall.id).Nodup)
      (ids : messages.map ToolMessage.toolCallId = calls.map ToolCall.id) :
      Settles self p calls messages
  | rejected (approval : self.config.toolApproval = true)
      (decision : p.offered 1 = some (.decision .reject)) :
      Settles self p calls
        (calls.map fun call => ⟨call.id, ToolResult.errorText TOOL_REJECTION_NOTICE⟩)

/-- In either case they answer the calls one by one. -/
theorem Settles.answers {calls : List ToolCall} {messages : List ToolMessage}
    (h : self.Settles p calls messages) :
    messages.map ToolMessage.toolCallId = calls.map ToolCall.id := by
  cases h with
  | executed approved unique ids => exact ids
  | rejected approval decision =>
    rw [List.map_map]
    rfl

/-- What an attempt comes to: a response, results, or a suspension. -/
inductive Comes (self : ToolCallingAgent) (p : Position self.program) :
    Nat → NodeOutcome AgentUpdate AgentValue → Prop where
  | model {message : AssistantMessage} {usage : Option TokenUsage}
      (h : (self.modelNode.attempt p.state).Answers (.ok (.modelCompleted message usage))) :
      Comes self p 0 (.update (.modelCompleted message usage))
  | tools {calls : List ToolCall} {messages : List ToolMessage}
      (pending : self.toolNode.Pending p.state calls) (settles : self.Settles p calls messages) :
      Comes self p 1 (.update (self.toolNode.toolsCompleted p.state messages))
  | suspended {calls : List ToolCall} (pending : self.toolNode.Pending p.state calls)
      (approval : self.config.toolApproval = true) (offered : p.offered 1 = none)
      (id : InterruptId) : Comes self p 1 (.interrupt ⟨id, .request calls⟩)

theorem comes_of_tries {i : Nat} {a : NodeAttempt AgentNode AgentState AgentValue}
    {outcome : NodeOutcome AgentUpdate AgentValue} (h : Tries self.program self.graph p i a)
    (hcomes : self.program.Comes a outcome) : self.Comes p i outcome := by
  rcases tries_cases h with ⟨rfl, context, rfl⟩ | ⟨rfl, context, rfl, hresume⟩
  · obtain ⟨update, rfl, hanswers⟩ := comes_normal.mp hcomes
    replace hanswers : (self.modelNode.attempt p.state).Answers (.ok update) := hanswers
    obtain ⟨message, usage, rfl, -⟩ := ModelNode.completes hanswers
    exact .model hanswers
  · unfold toolsKind at hcomes
    cases happroval : self.config.toolApproval with
    | false =>
      rw [happroval] at hcomes
      obtain ⟨update, rfl, hanswers⟩ := comes_normal.mp hcomes
      replace hanswers : (self.toolNode.run p.state).Answers (.ok update) := hanswers
      obtain ⟨calls, hpending, hexecuted⟩ := ToolNode.run_answers hanswers
      obtain ⟨messages, rfl, hids⟩ := hexecuted.update
      refine .tools hpending (.executed (fun h => ?_) hexecuted.unique hids)
      rw [happroval] at h
      cases h
    | true =>
      rw [happroval] at hcomes
      have hanswers := comes_interruptible.mp hcomes
      replace hanswers : (self.toolNode.runInterruptible p.state context.resumeValue).Answers
        (.ok outcome) := hanswers
      have hdecides := ToolNode.decides hanswers
      rw [hresume] at hdecides
      generalize hoffered : p.offered 1 = offered at hdecides
      cases hdecides with
      | suspended hpending id => exact .suspended hpending happroval hoffered id
      | approved hpending hexecuted =>
        obtain ⟨messages, rfl, hids⟩ := hexecuted.update
        exact .tools hpending (.executed (fun _ => hoffered) hexecuted.unique hids)
      | rejected hpending => exact .tools hpending (.rejected happroval hoffered)

/-! ## Jobs -/

/-- A job is a request for a transcript that can be sent, the calls that are pending, or an
interrupt identifier. -/
theorem works_cases {w : Worked self.program} (h : Works self.program self.graph p w) :
    (0 ∈ p.frontier ∧ (∃ j, w.job = .model j) ∧ p.state.messages ≠ [] ∧
      Linked p.state.messages) ∨
    (1 ∈ p.frontier ∧ ∃ calls, self.toolNode.Pending p.state calls ∧
      (w.job = .tools calls ∧
        (self.config.toolApproval = true → p.offered 1 = some (.decision .approve)) ∨
      w.job = .interruptId ∧ self.config.toolApproval = true)) := by
  obtain ⟨⟨i, htries⟩, hjob⟩ := h
  have hmem := htries.mem
  obtain ⟨attempt, job⟩ := w
  rcases tries_cases htries with ⟨rfl, context, rfl⟩ | ⟨rfl, context, rfl, hresume⟩
  · replace hjob : (self.modelNode.attempt p.state).job? = some job := hjob
    exact .inl ⟨hmem, ModelNode.job hjob⟩
  · refine .inr ⟨hmem, ?_⟩
    unfold toolsKind at hjob
    cases happroval : self.config.toolApproval with
    | false =>
      rw [happroval] at hjob
      replace hjob : (self.toolNode.run p.state).job? = some job := hjob
      obtain ⟨calls, hpending, rfl⟩ := ToolNode.run_job hjob
      exact ⟨calls, hpending, .inl ⟨rfl, by simp⟩⟩
    | true =>
      rw [happroval] at hjob
      replace hjob : (self.toolNode.runInterruptible p.state context.resumeValue).job? = some job :=
        hjob
      obtain ⟨calls, hpending, ⟨rfl, hvalue⟩ | ⟨rfl, -⟩⟩ := ToolNode.approved_job hjob
      · exact ⟨calls, hpending, .inl ⟨rfl, fun _ => hresume.symm.trans hvalue⟩⟩
      · exact ⟨calls, hpending, .inr ⟨rfl, rfl⟩⟩

/-! ## Routes -/

theorem routeAfterModel_addRound (s : AgentState) (message : AssistantMessage)
    (usage : Option TokenUsage) : routeAfterModel (s.addRound message usage) =
      .ok (if message.toolCalls.isEmpty then NodeId.END else TOOL_NODE_ID) := by
  unfold routeAfterModel
  rw [AgentState.pendingToolCalls_addRound]
  simp only
  split <;> rfl

theorem routeAfterTools_addResults {s : AgentState} {messages : List ToolMessage} {maxRounds : Nat}
    (hne : messages ≠ []) (hstop : s.stopReason = none) (hrounds : s.modelRounds ≠ 0)
    (haligned : s.usageByRound.length = s.modelRounds) (hle : s.modelRounds ≤ maxRounds) :
    routeAfterTools (s.addResults messages (s.modelRounds == maxRounds)) maxRounds =
      .ok (if s.modelRounds = maxRounds then NodeId.END else MODEL_NODE_ID) := by
  obtain ⟨t, ht⟩ := AgentState.getLast?_addResults hne s (s.modelRounds == maxRounds)
  have hali : (s.addResults messages (s.modelRounds == maxRounds)).usageIsAligned = true :=
    AgentState.usageIsAligned_iff.mpr haligned
  have hr : (s.addResults messages (s.modelRounds == maxRounds)).modelRounds = s.modelRounds := rfl
  unfold routeAfterTools toolsRouteTarget
  rw [ht, hali, hr, if_neg hrounds]
  unfold AgentState.addResults
  by_cases h : s.modelRounds = maxRounds
  · simp [h]
  · have hlt : s.modelRounds < maxRounds := Nat.lt_of_le_of_ne hle h
    simp [h, hstop, hlt]

/-! ## Steps -/

/-- One turn: a response is committed, or the results of its calls. -/
inductive Turn (self : ToolCallingAgent) (p : Position self.program) :
    AgentUpdate → Position self.program → Prop where
  | model {message : AssistantMessage} {usage : Option TokenUsage} (frontier : p.frontier = [0])
      (answers : (self.modelNode.attempt p.state).Answers (.ok (.modelCompleted message usage)))
      (running : p.state.stopReason = none)
      (aligned : p.state.usageByRound.length = p.state.modelRounds) :
      Turn self p (.modelCompleted message usage)
        ⟨p.state.addRound message usage, if message.toolCalls.isEmpty then [] else [1], none⟩
  | tools {calls : List ToolCall} {messages : List ToolMessage} (frontier : p.frontier = [1])
      (pending : self.toolNode.Pending p.state calls) (settles : self.Settles p calls messages)
      (running : p.state.stopReason = none) (rounds : p.state.modelRounds ≠ 0)
      (aligned : p.state.usageByRound.length = p.state.modelRounds) :
      Turn self p (self.toolNode.toolsCompleted p.state messages)
        ⟨p.state.addResults messages (p.state.modelRounds == self.config.maxRounds),
          if p.state.modelRounds = self.config.maxRounds then [] else [0], none⟩

theorem leads_model {s : AgentState} {message : AssistantMessage} {usage : Option TokenUsage}
    {next : List Nat} :
    Leads self.program (.conditional .model [(NodeId.END, none), (TOOL_NODE_ID, some 1)])
      (s.addRound message usage) next ↔ next = if message.toolCalls.isEmpty then [] else [1] := by
  have hroute : self.program.route .model (s.addRound message usage) = _ :=
    routeAfterModel_addRound s message usage
  cases h : message.toolCalls.isEmpty with
  | true =>
    rw [h] at hroute
    have hallowed : List.lookup NodeId.END [(NodeId.END, none), (TOOL_NODE_ID, some 1)] =
      some none := rfl
    exact leads_conditional hroute hallowed
  | false =>
    rw [h] at hroute
    have hallowed : List.lookup TOOL_NODE_ID [(NodeId.END, none), (TOOL_NODE_ID, some 1)] =
      some (some 1) := rfl
    exact leads_conditional hroute hallowed

theorem leads_tools {s : AgentState} {messages : List ToolMessage} {next : List Nat}
    (hne : messages ≠ []) (hstop : s.stopReason = none) (hrounds : s.modelRounds ≠ 0)
    (haligned : s.usageByRound.length = s.modelRounds)
    (hle : s.modelRounds ≤ self.config.maxRounds) :
    Leads self.program (.conditional .tools [(NodeId.END, none), (MODEL_NODE_ID, some 0)])
      (s.addResults messages (s.modelRounds == self.config.maxRounds)) next ↔
      next = if s.modelRounds = self.config.maxRounds then [] else [0] := by
  have hroute : self.program.route .tools
      (s.addResults messages (s.modelRounds == self.config.maxRounds)) = _ :=
    routeAfterTools_addResults hne hstop hrounds haligned hle
  by_cases h : s.modelRounds = self.config.maxRounds
  · rw [if_pos h] at hroute ⊢
    have hallowed : List.lookup NodeId.END [(NodeId.END, none), (MODEL_NODE_ID, some 0)] =
      some none := rfl
    exact leads_conditional hroute hallowed
  · rw [if_neg h] at hroute ⊢
    have hallowed : List.lookup MODEL_NODE_ID [(NodeId.END, none), (MODEL_NODE_ID, some 0)] =
      some (some 0) := rfl
    exact leads_conditional hroute hallowed

/-- Results that settle calls are not empty. -/
theorem Settles.ne_nil {calls : List ToolCall} {messages : List ToolMessage}
    (h : self.Settles p calls messages) (hne : calls ≠ []) : messages ≠ [] := by
  rintro rfl
  exact hne (List.map_eq_nil_iff.mp h.answers.symm)

/-- **A super-step of an agent is a turn.** -/
theorem step_cases {update : self.program.Update} (h : Step self.program self.graph p update q) :
    self.Turn p update q := by
  cases h with
  | @mk i a update state n next hl ha hcomes happly hn hleads =>
    have hwhat := comes_of_tries ha hcomes
    cases hwhat with
    | model hanswers =>
      obtain ⟨-, -, htransition⟩ | ⟨hi, -, -⟩ := item_cases hn
      · obtain ⟨hstop, haligned, -, rfl⟩ := AgentState.apply_model.mp happly
        rw [htransition] at hleads
        obtain rfl := leads_model.mp hleads
        exact .model hl hanswers hstop haligned
      · cases hi
    | tools hpending hsettles =>
      obtain ⟨hi, -, -⟩ | ⟨-, -, htransition⟩ := item_cases hn
      · cases hi
      · obtain ⟨hstop, hrounds, haligned, -, rfl⟩ := AgentState.apply_tools.mp happly
        rw [htransition] at hleads
        have hne := hsettles.ne_nil hpending.ne_nil
        obtain rfl := (leads_tools hne hstop hrounds haligned hpending.rounds).mp hleads
        exact .tools hl hpending hsettles hstop hrounds haligned

/-- Once an update is applied, its transition leads somewhere. -/
theorem leads_of_apply {i : Nat} {a : NodeAttempt AgentNode AgentState AgentValue}
    {update : AgentUpdate} {state : AgentState} {n : CompiledNode AgentNode AgentNode Nat}
    (ha : Tries self.program self.graph p i a) (hcomes : self.program.Comes a (.update update))
    (happly : p.state.apply update = .ok state) (hn : self.graph.items[i]? = some (.node n)) :
    ∃ next, Leads self.program n.transition state next := by
  have hwhat := comes_of_tries ha hcomes
  cases hwhat with
  | model hanswers =>
    obtain ⟨-, -, htransition⟩ | ⟨hi, -, -⟩ := item_cases hn
    · obtain ⟨-, -, -, rfl⟩ := AgentState.apply_model.mp happly
      rw [htransition]
      exact ⟨_, leads_model.mpr rfl⟩
    · cases hi
  | tools hpending hsettles =>
    obtain ⟨hi, -, -⟩ | ⟨-, -, htransition⟩ := item_cases hn
    · cases hi
    · obtain ⟨hstop, hrounds, haligned, -, rfl⟩ := AgentState.apply_tools.mp happly
      rw [htransition]
      have hne := hsettles.ne_nil hpending.ne_nil
      exact ⟨_, (leads_tools hne hstop hrounds haligned hpending.rounds).mpr rfl⟩

/-! ## Openings -/

variable {H : Host self.program} {m : ProgramMachine self.program H} {call : AgentCall}

/-- What a call makes of a restored state differs in the sink only. -/
theorem alike_initializes {s s' : AgentState} (h : (self.call (H := H) call).Initializes s s') :
    s.Alike s' := by
  cases call with
  | resume config sink =>
    obtain rfl := Except.ok.inj h
    cases sink with
    | false => rfl
    | true => exact s.alike_setSink _
  | _ =>
    obtain rfl := h
    rfl

/-- A call opens with its messages, or at what its checkpoint keeps. -/
theorem opens_cases {ls : LoopState (self.program.env H) Nat}
    (h : (self.call (H := H) call).Opens self.graph m ls) :
    (∃ messages sink, ls.position = ⟨withSink sink (.new messages), [0], none⟩ ∧ ls.steps = 0) ∨
    ∃ checkpoint, (self.call (H := H) call).Reads m checkpoint ∧
      PathsOf self.graph ls.frontier checkpoint.nextFrontier ∧
      ls.state.snapshot = checkpoint.snapshot := by
  generalize hcall : self.call (H := H) call = c at h
  cases h with
  | invoke position steps =>
    cases call with
    | invoke messages sink events runControl checkpoints =>
      cases hcall
      exact .inl ⟨messages, sink, position, steps⟩
    | resume config sink => cases hcall
    | replay config => cases hcall
    | fork config => cases hcall
  | load hread continues =>
    subst hcall
    obtain ⟨s, hs, hinit⟩ := continues.state
    obtain rfl := Except.ok.inj hs
    exact .inr ⟨_, hread, continues.resolved.paths, (alike_initializes hinit).symm⟩

/-- The model is in a loaded frontier if the checkpoint names it. -/
theorem model_path {frontier : List Nat} {paths : List NodePath}
    (h : PathsOf self.graph frontier paths) (hmem : 0 ∈ frontier) : .root MODEL_NODE_ID ∈ paths := by
  induction h with
  | nil => cases hmem
  | cons hpath _ ih =>
    rcases List.mem_cons.mp hmem with rfl | hmem
    · obtain ⟨n, hn, rfl⟩ := hpath
      cases hn
      exact List.mem_cons_self
    · exact List.mem_cons_of_mem _ (ih hmem)

end ToolCallingAgent

end GroupAgent.Prebuilt
