import GroupAgent.Prebuilt.Rounds
import GroupAgent.Core.Bench

/-!
# Approval

With tool approval (`approval.rs:18-20`, 56-62) a batch only starts when an approval was supplied
for its attempt (`InterruptibleNode for ToolNode`, `agent_nodes.rs:251-290`). The value of a call
reaches the first super-step of the call only, and only the node that its checkpoint suspended
(`Call.Passes.offered`).

* `Guarded`: what approval promises of one call, whatever the store holds: the batches that were
  executed, each with the approval it was executed for; rejections execute nothing.
* `ToolCallingAgent.guarded`: every call of an agent with approval is guarded.

Results: **`ToolCallingAgent.approval_safe`**: that, and for chains of calls that the jobs were
approved one by one.

An approval is for the calls that are pending when it is used. That the caller saw the same calls
rests on the checkpoint, which the interrupt was saved with.
-/

namespace GroupAgent.Prebuilt

open GroupAgent.Lib GroupAgent.Model GroupAgent.Core GroupAgent.Tool

/-- The results of calls that were rejected. -/
def rejections (calls : List ToolCall) : List ToolMessage :=
  calls.map fun call => ⟨call.id, ToolResult.errorText TOOL_REJECTION_NOTICE⟩

namespace ToolCallingAgent

variable {self : ToolCallingAgent} {H : Host self.program} {call : Call (self.program.env H)}
  {m : ProgramMachine self.program H}

/-- What approval promises of a call. -/
structure Guarded (self : ToolCallingAgent) {H : Host self.program}
    (call : Call (self.program.env H)) (m : ProgramMachine self.program H) : Prop where
  /-- Calls are executed in an attempt that was approved, by the value of this call. -/
  executes : ∀ ds q, call.Leaves self.graph m ds q → ∀ w ∈ works ds, ∀ calls, w.job = .tools calls →
    w.attempt.context.resumeValue = some (.decision .approve) ∧
      call.value = some (.decision .approve) ∧ w.attempt.state.pendingToolCalls = some calls
  /-- A value is for the first super-step, of the node that was suspended. -/
  offers : ∀ ctx ds p, call.Passes self.graph m ctx ds p → ∀ value,
    p.1.position.offered 1 = some value → ds = [] ∧ call.value = some value ∧ p.1.frontier = [1] ∧
      ∃ checkpoint interrupt, call.Reads m checkpoint ∧ checkpoint.interrupt = some interrupt
  /-- Without one the tools suspend, and nothing is committed. -/
  asks : ∀ ctx ds p, call.Passes self.graph m ctx ds p → 1 ∈ p.1.frontier →
    p.1.position.offered 1 = none →
      (∀ update q, ¬Step self.program self.graph p.1.position update q) ∧
      ∀ a outcome, Tries self.program self.graph p.1.position 1 a → self.program.Comes a outcome →
        ∃ id calls, outcome = .interrupt ⟨id, .request calls⟩ ∧
          p.1.state.pendingToolCalls = some calls
  /-- A decision settles the pending calls. A rejection executes nothing. -/
  decides : ∀ ctx ds p, call.Passes self.graph m ctx ds p → p.1.frontier = [1] → ∀ update q,
    Step self.program self.graph p.1.position update q → ∃ calls decision messages,
      p.1.state.pendingToolCalls = some calls ∧ call.value = some (.decision decision) ∧
      q.state.messages = p.1.state.messages ++ messages.map .tool ∧
      messages.map ToolMessage.toolCallId = calls.map ToolCall.id ∧
      q.state.pendingToolCalls = none ∧ q.state.modelRounds = p.1.state.modelRounds ∧
      (decision = .reject → messages = rejections calls ∧
        ∀ w, Works self.program self.graph p.1.position w → ∀ calls, w.job ≠ .tools calls)
  /-- Whoever is told of a suspension is asked for the pending calls. -/
  suspends : ∀ report m', call.run self.graph m = .ok (.interrupted report) m' → ∃ calls,
    report.state.pendingToolCalls = some calls ∧ report.interrupt.payload = .request calls

/-- Calls are executed where an approval is offered. -/
theorem executes_of_works {p : Position self.program} {w : Worked self.program} {calls : List ToolCall}
    (happroval : self.config.toolApproval = true) (h : Works self.program self.graph p w)
    (hjob : w.job = .tools calls) : p.offered 1 = some (.decision .approve) ∧
      w.attempt.context.resumeValue = some (.decision .approve) ∧
      w.attempt.state.pendingToolCalls = some calls := by
  have hcases := works_cases h
  obtain ⟨⟨i, htries⟩, hplan⟩ := h
  rw [hjob] at hcases
  rcases hcases with ⟨-, ⟨j, hj⟩, -⟩ | ⟨-, calls', hpending, ⟨hcalls, happroved⟩ | ⟨hid, -⟩⟩
  · cases hj
  · obtain rfl : calls = calls' := AgentJob.tools.inj hcalls
    have hoffered := happroved happroval
    have hattempt := tries_cases htries
    obtain ⟨attempt, job⟩ := w
    obtain rfl : job = .tools calls := hjob
    rcases hattempt with ⟨-, context, rfl⟩ | ⟨-, context, rfl, hresume⟩
    · replace hplan : (self.modelNode.attempt p.state).job? = some (.tools calls) := hplan
      obtain ⟨⟨j, hj⟩, -⟩ := ModelNode.job hplan
      cases hj
    · exact ⟨hoffered, hresume.trans hoffered, hpending.pending⟩
  · cases hid

/-- A step of the tools needs a decision, which was offered. -/
theorem decides_of_step {p q : Position self.program} {update : self.program.Update}
    (happroval : self.config.toolApproval = true) (hl : p.frontier = [1])
    (hstep : Step self.program self.graph p update q) : ∃ calls decision messages,
      p.state.pendingToolCalls = some calls ∧ p.offered 1 = some (.decision decision) ∧
      q.state.messages = p.state.messages ++ messages.map .tool ∧
      messages.map ToolMessage.toolCallId = calls.map ToolCall.id ∧
      q.state.pendingToolCalls = none ∧ q.state.modelRounds = p.state.modelRounds ∧
      (decision = .reject → messages = rejections calls) := by
  have hturn := step_cases hstep
  cases hturn with
  | model frontier =>
    rw [hl] at frontier
    cases frontier
  | @tools calls messages frontier pending settles =>
    have hnone := AgentState.pendingToolCalls_addResults (settles.ne_nil pending.ne_nil) p.state
      (p.state.modelRounds == self.config.maxRounds)
    have hids := settles.answers
    cases settles with
    | executed approved unique ids =>
      refine ⟨calls, .approve, messages, pending.pending, approved happroval, rfl, hids, hnone, rfl, ?_⟩
      rintro ⟨⟩
    | rejected approval decision =>
      exact ⟨calls, .reject, _, pending.pending, decision, rfl, hids, hnone, rfl, fun _ => rfl⟩

/-- **Every call of an agent with approval is guarded.** -/
theorem guarded (happroval : self.config.toolApproval = true)
    (hrange : ∀ checkpoint, call.Reads m checkpoint → checkpoint.InRange) :
    self.Guarded call m where
  executes ds q hleaves w hw calls hjob := by
    have hs : Sound self.graph .all call m := sound_all hrange
    obtain ⟨ctx, ds', p, hpasses, hworks⟩ := hleaves.worked self.compiled self.flat hs w hw
    obtain ⟨hoffered, hvalue, hpending⟩ := executes_of_works happroval hworks hjob
    exact ⟨hvalue, (hpasses.offered self.compiled self.flat hoffered).2.1, hpending⟩
  offers ctx ds p hpasses value hvalue := hpasses.offered self.compiled self.flat hvalue
  asks ctx ds p hpasses hmem hnone := by
    refine ⟨fun update q hstep => ?_, fun a outcome ha hcomes => ?_⟩
    · have hturn := step_cases hstep
      cases hturn with
      | model frontier =>
        replace frontier : p.1.frontier = [0] := frontier
        rw [frontier] at hmem
        simp at hmem
      | tools frontier =>
        obtain ⟨_, _, _, -, hsome, -⟩ := decides_of_step happroval frontier hstep
        rw [hnone] at hsome
        cases hsome
    · have hwhat := comes_of_tries ha hcomes
      cases hwhat with
      | tools pending settles =>
        cases settles with
        | executed approved unique ids =>
          rw [approved happroval] at hnone
          cases hnone
        | rejected approval decision =>
          rw [decision] at hnone
          cases hnone
      | suspended pending approval offered id => exact ⟨id, _, rfl, pending.pending⟩
  decides ctx ds p hpasses hl update q hstep := by
    obtain ⟨calls, decision, messages, hpending, hoffered, hmessages, hids, hnone, hrounds, hreject⟩ :=
      decides_of_step happroval hl hstep
    obtain ⟨-, hvalue, -⟩ := hpasses.offered self.compiled self.flat hoffered
    refine ⟨calls, decision, messages, hpending, hvalue, hmessages, hids, hnone, hrounds, fun h => ?_⟩
    refine ⟨hreject h, fun w hw calls' hjob => ?_⟩
    obtain ⟨happroved, -⟩ := executes_of_works happroval hw hjob
    rw [hoffered, h] at happroved
    cases happroved
  suspends report m' hrun := by
    have hs : Sound self.graph .all call m := sound_all hrange
    obtain ⟨ctx, p, -, hconcludes⟩ := wp_of_ok (run_course self.compiled self.flat hs) hrun
    cases hconcludes with
    | interrupted hsuspends hstate hinterrupt =>
      obtain ⟨i, a, -, ha, hcomes⟩ := hsuspends
      have hwhat := comes_of_tries ha hcomes
      generalize hrequest : NodeOutcome.interrupt _ = outcome at hwhat
      cases hwhat with
      | model => cases hrequest
      | tools => cases hrequest
      | @suspended calls pending approval offered id =>
        obtain rfl := NodeOutcome.interrupt.inj hrequest
        rw [hstate, hinterrupt]
        exact ⟨calls, pending.pending, rfl⟩

/-- **Approval safety**: of every call from whatever is stored, and of chains of calls. -/
theorem approval_safe (self : ToolCallingAgent) (happroval : self.config.toolApproval = true) :
    (∀ (H : Host self.program) (call : AgentCall) (m : ProgramMachine self.program H),
      (∀ checkpoint, (self.call (H := H) call).Reads m checkpoint → checkpoint.InRange) →
        self.Guarded (self.call (H := H) call) m) ∧
    ∀ Init p (ds : List (Deed self.program)) q, Chain self.graph Init p ds q → ∀ w ∈ works ds, ∀ calls, w.job = .tools calls →
      w.attempt.context.resumeValue = some (.decision .approve) ∧
        w.attempt.state.pendingToolCalls = some calls := by
  refine ⟨fun H call m hrange => guarded happroval hrange, fun Init p ds q hchain w hw calls hjob => ?_⟩
  have hinv : True ∧ ∀ w ∈ works ds, ∃ r : Position self.program, True ∧
      Works self.program self.graph r w :=
    (hchain.lineage self.compiled self.flat).inv trivial (fun _ _ => trivial) fun _ _ => trivial
  obtain ⟨r, -, hworks⟩ := hinv.2 w hw
  exact (executes_of_works happroval hworks hjob).2

end ToolCallingAgent

/-! ### An agent on a bench -/

namespace Bench

/-- A model that calls tools. -/
def model : ChatModel where
  metadata := ⟨⟨⟨"bench", by decide +kernel⟩⟩, ⟨⟨"scripted", by decide +kernel⟩⟩,
    ⟨false, false, true, false, false⟩⟩
  valid := rfl

/-- A tool that may run beside others. -/
def echo : RegisteredTool where
  definition := ⟨⟨"echo", nonblank_echo⟩, "repeats its input", .object []⟩
  behavior := .new .readOnly
  validator := fun _ => .ok ()

def agent (config : AgentConfig) : ToolCallingAgent where
  model
  tools := ⟨[echo], List.pairwise_singleton _ _⟩
  config
  output := ⟨none⟩
  supported := by simp
  fromStr := fun _ => .error "no stream"

/-- Every request gets the same response, and every call an empty result. -/
def perform (response : ChatResponse) : (job : AgentJob) → job.Reply
  | .model (.complete _) => Except.ok response
  | .model (.stream _) => Except.ok []
  | .tools calls =>
    ⟨⟨calls.map ToolCall.id, calls.map fun _ => .ok ⟨[], false⟩, calls.map fun _ => none⟩, rfl,
      List.length_map _⟩
  | .interruptId => ⟨⟨0⟩⟩

/-- The response that calls the tool once, always under the same identifier. -/
def calling : ChatResponse :=
  .new ⟨[], [⟨⟨"a", nonblank_a⟩, echo.definition.name, .null, .empty⟩], .empty⟩ .toolCalls

/-- An agent of at most two rounds. -/
def twoRounds (toolApproval : Bool) : AgentConfig := ⟨2, toolApproval, by decide, by decide⟩

/-- An agent of one round. -/
def oneRound : AgentConfig := ⟨1, false, by decide, by decide⟩

/-- A machine on which a model always gives this response, with this checkpoint in store. -/
def machine (agent : ToolCallingAgent) (response : ChatResponse)
    (stored : Option (Checkpoint AgentSnapshot AgentValue)) :
    ProgramMachine agent.program (Core.Bench.host agent.program (perform response)) :=
  ⟨(stored, []), [], []⟩

/-- What a call comes to on it. -/
def run (agent : ToolCallingAgent) (response : ChatResponse)
    (stored : Option (Checkpoint AgentSnapshot AgentValue)) (call : ToolCallingAgent.AgentCall) :=
  (agent.call call).run agent.graph (machine agent response stored)

def quiet : EventConfig := ⟨.none, false⟩

def uncontrolled : RunControl := ⟨false, none, none⟩

end Bench

theorem ToolCallingAgent.approval_safe_bench :
    (Bench.agent (Bench.twoRounds true)).config.toolApproval = true ∧
      ∀ (H : Host (Bench.agent (Bench.twoRounds true)).program) (call : AgentCall)
        (m : ProgramMachine (Bench.agent (Bench.twoRounds true)).program H),
        (∀ checkpoint, ((Bench.agent (Bench.twoRounds true)).call (H := H) call).Reads m checkpoint →
          checkpoint.InRange) →
        (Bench.agent (Bench.twoRounds true)).Guarded
          ((Bench.agent (Bench.twoRounds true)).call (H := H) call) m :=
  ⟨rfl, (ToolCallingAgent.approval_safe _ rfl).1⟩

end GroupAgent.Prebuilt
