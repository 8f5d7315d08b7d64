import GroupAgent.Prebuilt.Approval

/-!
# The round limit across calls

The limit (`lib.rs:119-122`) is checked where the tools are left (`agent.rs:785-805`) and by the
tool node (`agent_nodes.rs:115-135`), by the agent that runs them. A checkpoint keeps the frontier
that was chosen there, and the model node checks nothing.

* `Limited`: the model is only asked below the limit, and no state beyond it is committed.
* `Below.turn`: a turn from below the limit ends within it.

Results: **`ToolCallingAgent.round_limit`**: a call is limited if the checkpoint it loads does not
go on to the model at the limit. `Bench.limit_exceeded` is a call that loads one that does, saved
by an agent with a higher limit.

The graph version of an agent does not contain its limit, so such a checkpoint is compatible with
an agent of a lower one.
-/

namespace GroupAgent.Prebuilt

open GroupAgent.Lib GroupAgent.Model GroupAgent.Core GroupAgent.Tool

namespace ToolCallingAgent

variable {self : ToolCallingAgent} {H : Host self.program} {m : ProgramMachine self.program H}
  {p q : Position self.program}

/-- The call keeps to the round limit. -/
structure Limited (self : ToolCallingAgent) {H : Host self.program}
    (call : Call (self.program.env H)) (m : ProgramMachine self.program H) : Prop where
  asks : ∀ ds q, call.Leaves self.graph m ds q → ∀ w ∈ works ds, ∀ job, w.job = .model job →
    w.attempt.state.modelRounds < self.config.maxRounds
  commits : ∀ ds q, call.Leaves self.graph m ds q → updates ds ≠ [] →
    q.state.modelRounds ≤ self.config.maxRounds

/-- The model is not next at the limit. -/
def Below (self : ToolCallingAgent) (p : Position self.program) : Prop :=
  0 ∈ p.frontier → p.state.modelRounds < self.config.maxRounds

/-- **A turn from below the limit ends within it.** -/
theorem Below.turn {update : AgentUpdate} (h : self.Below p) (hturn : self.Turn p update q) :
    self.Below q ∧ q.state.modelRounds ≤ self.config.maxRounds := by
  cases hturn with
  | @model message usage frontier answers running aligned =>
    have hlt : p.state.modelRounds < self.config.maxRounds := by
      apply h
      rw [frontier]
      exact List.mem_cons_self
    refine ⟨fun hmem => ?_, hlt⟩
    -- the model is never next after itself
    simp only at hmem
    split at hmem <;> simp at hmem
  | @tools calls messages frontier pending settles running rounds aligned =>
    have hle : p.state.modelRounds ≤ self.config.maxRounds := pending.rounds
    refine ⟨fun hmem => ?_, hle⟩
    simp only at hmem
    split at hmem
    · cases hmem
    · rename_i hne
      exact Nat.lt_of_le_of_ne hle hne

section Run

variable {call : Call (self.program.env H)} (hrange : ∀ checkpoint, call.Reads m checkpoint →
  checkpoint.InRange) (hopens : ∀ ls, call.Opens self.graph m ls → self.Below ls.position)

include hopens

theorem below_of_passes {ctx : RunContext} {ds : List (Deed self.program)}
    {p : LoopState (self.program.env H) Nat × ProgramMachine self.program H}
    (h : call.Passes self.graph m ctx ds p) : self.Below p.1.position ∧
      (updates ds ≠ [] → p.1.state.modelRounds ≤ self.config.maxRounds) := by
  induction h with
  | enter h =>
    refine ⟨hopens _ (wp_of_ok (wp_opened self.compiled self.flat _ m) h).1.opens, ?_⟩
    exact fun hne => absurd rfl hne
  | turn _ _ hstep ih =>
    obtain ⟨hbelow, hle⟩ := ih.1.turn (step_cases hstep)
    exact ⟨hbelow, fun _ => hle⟩

include hrange

theorem limited_of_opens : self.Limited call m where
  asks ds q hleaves w hw job hjob := by
    have hs : Sound self.graph .all call m := sound_all hrange
    obtain ⟨ctx, ds', p, hpasses, hworks⟩ := hleaves.worked self.compiled self.flat hs w hw
    have hstate : w.attempt.state = p.1.state := by
      obtain ⟨⟨i, htries⟩, -⟩ := hworks
      exact htries.state
    rcases works_cases hworks with ⟨hmem, -⟩ | ⟨-, calls, -, ⟨hcalls, -⟩ | ⟨hid, -⟩⟩
    · rw [hstate]
      exact (below_of_passes hopens hpasses).1 hmem
    · rw [hjob] at hcalls
      cases hcalls
    · rw [hjob] at hid
      cases hid
  commits ds q hleaves hne := by
    cases hleaves with
    | standing hpasses => exact (below_of_passes hopens hpasses).2 hne
    | during hpasses =>
      rw [updates_append, updates_worked, List.append_nil] at hne
      exact (below_of_passes hopens hpasses).2 hne
    | committed hpasses _ _ hstep =>
      exact ((below_of_passes hopens hpasses).1.turn (step_cases hstep)).2

end Run

/-- **The round limit.** A call is limited unless its checkpoint goes on to the model at the limit. -/
theorem round_limit (self : ToolCallingAgent) {H : Host self.program} (call : AgentCall)
    (m : ProgramMachine self.program H)
    (hrange : ∀ checkpoint, (self.call (H := H) call).Reads m checkpoint → checkpoint.InRange)
    (hlimit : ∀ checkpoint, (self.call (H := H) call).Reads m checkpoint →
      .root MODEL_NODE_ID ∈ checkpoint.nextFrontier →
        checkpoint.snapshot.modelRounds < self.config.maxRounds) :
    self.Limited (self.call call) m := by
  refine limited_of_opens hrange fun ls hopens hmem => ?_
  rcases opens_cases hopens with ⟨messages, sink, hposition, -⟩ | ⟨checkpoint, hread, hpaths, hsnapshot⟩
  · have hzero : ls.position.state.modelRounds = 0 := by
      rw [hposition]
      cases sink <;> rfl
    rw [hzero]
    exact Nat.pos_of_ne_zero self.config.pos
  · have hrounds : ls.state.modelRounds = checkpoint.snapshot.modelRounds :=
      congrArg AgentSnapshot.modelRounds hsnapshot
    replace hmem : 0 ∈ ls.frontier := hmem
    show ls.state.modelRounds < self.config.maxRounds
    rw [hrounds]
    exact hlimit checkpoint hread (model_path hpaths hmem)

end ToolCallingAgent

/-! ### A checkpoint of an agent with another limit -/

namespace Bench

/-- The checkpoint of a conversation after one round, with this frontier. -/
def afterRound (version : GraphVersion) (nextFrontier : List NodePath) :
    Checkpoint AgentSnapshot AgentValue where
  id := ⟨⟨1⟩⟩
  threadId := ⟨"t"⟩
  runId := ⟨⟨0⟩⟩
  parentId := none
  graphVersion := some version
  superstep := 2
  step := 2
  snapshot := ⟨[.user ⟨[.text "hello"]⟩, .assistant calling.message, .tool ⟨⟨⟨"a", nonblank_a⟩⟩, ⟨[], false⟩⟩],
    1, [none], none⟩
  nextFrontier
  completed := false
  interrupt := none

/-- The last response of a conversation. -/
def answering : ChatResponse := .new ⟨[.text "done"], [], .empty⟩ .stop

def resuming : ToolCallingAgent.AgentCall :=
  .resume ⟨⟨"t"⟩, .latest, .everySuperstep, ⟨ToolCallingAgent.DEFAULT_MAX_STEPS, quiet, uncontrolled, 1⟩, none, none⟩ false

/-- A resumed call reads what is in store. -/
theorem reads_resuming {agent : ToolCallingAgent} {response : ChatResponse}
    {stored checkpoint : Checkpoint AgentSnapshot AgentValue} (hthread : stored.threadId = ⟨"t"⟩)
    (h : (agent.call resuming).Reads (machine agent response (some stored)) checkpoint) :
    checkpoint = stored := by
  obtain ⟨ctx, m', h⟩ := h
  obtain ⟨id, threadId, runId, parentId, graphVersion, superstep, step, snapshot, nextFrontier,
    completed, interrupt⟩ := stored
  subst hthread
  cases h
  rfl

/-- The rounds of the final state, and of the states in which the model was asked. -/
def rounds {agent : ToolCallingAgent} {H : Host agent.program} :
    EStateM.Result Stop (ProgramMachine agent.program H) (ExecutionOutcome (agent.program.env H)) →
      Option (Nat × List Nat)
  | .ok (.completed report) m => some (report.finalState.modelRounds, (jobs m).filterMap fun w =>
    match w.job with
    | .model _ => some w.attempt.state.modelRounds
    | _ => none)
  | _ => none

/-- An agent of one round resumes what an agent of two rounds left before the second, and plays it. -/
theorem limit_exceeded : (agent oneRound).config.maxRounds = 1 ∧
    (agent oneRound).version = (agent (twoRounds false)).version ∧
    rounds (run (agent oneRound) answering
      (some (afterRound (agent oneRound).version [.root MODEL_NODE_ID])) resuming) = some (2, [1]) :=
  ⟨rfl, rfl, by decide +kernel⟩

/-- The agent of two rounds plays it within its limit. -/
theorem limit_kept : (agent (twoRounds false)).Limited ((agent (twoRounds false)).call resuming)
    (machine (agent (twoRounds false)) answering
      (some (afterRound (agent (twoRounds false)).version [.root MODEL_NODE_ID]))) := by
  refine ToolCallingAgent.round_limit (agent (twoRounds false)) resuming _ (fun checkpoint hread => ?_)
    fun checkpoint hread _ => ?_
  · rw [reads_resuming rfl hread]
    exact ⟨by decide, by decide⟩
  · rw [reads_resuming rfl hread]
    decide

end Bench

end GroupAgent.Prebuilt
