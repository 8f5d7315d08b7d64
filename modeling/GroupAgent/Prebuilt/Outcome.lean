import GroupAgent.Core.Frontiers
import GroupAgent.Prebuilt.Transcript

/-!
# The outcome of an agent

Model of `AgentOutcome` (`agent.rs:137-144`, `from_completed_state` 147-158), of `AgentRunOutcome`
and `AgentInterrupted` (`outcome.rs:19-24`, 109-113), of `AgentError` (`error.rs:130-132`) and of
`OutputContract::validate` (`structured_output.rs:35-57`) of `crates/group-agent-prebuilt/src`.

* `AgentOutcome.fromCompletedState` panics on a state without a stop reason, as the source's
  `expect` does.
* `Survives`: nothing a call of an agent does panics: not its nodes, which count a round, not its
  runtime, and not the conversion of its result.

Results:
* `Turn.secure`: a turn ends securely, wherever it started.
* **`ToolCallingAgent.call_survives`**: a call survives if the checkpoint it loads has a stop
  reason when nothing is left to execute, and room for one more round when the model is next.
  `Bench.unstopped_panics` is one that has no stop reason.

Out of scope: panics of the model adapter, of a tool or of an event sink, which are not the
agent's.
-/

namespace GroupAgent.Prebuilt

open GroupAgent.Lib GroupAgent.Model GroupAgent.Core GroupAgent.Tool

/-! ## Outcomes -/

/-- A failure of an agent invocation. -/
inductive AgentError where
  | output (source : StructuredOutputError)
  | graph (source : GraphRunError)

/-- What a completed conversation comes to. -/
structure AgentOutcome where
  output : Option ValidatedJsonOutput
  messages : List Message
  modelRounds : Nat
  usageByRound : List (Option TokenUsage)
  stopReason : AgentStopReason

namespace AgentOutcome

def fromCompletedState (state : AgentState) : Except Panic AgentOutcome :=
  match state.stopReason with
  | some stopReason => .ok ⟨none, state.messages, state.modelRounds, state.usageByRound, stopReason⟩
  | none => .error (.missing "a completed model graph commits a stop reason")

def finalMessage (self : AgentOutcome) : Option AssistantMessage :=
  if self.stopReason = .finalAnswer then self.messages.getLast?.bind Message.asAssistant else none

end AgentOutcome

/-- Check the final answer again: a completed checkpoint may hold any text. -/
def OutputContract.validate (self : OutputContract) (outcome : AgentOutcome) :
    Except AgentError AgentOutcome :=
  match self.value with
  | some contract =>
    if outcome.stopReason = .finalAnswer then do
      match outcome.finalMessage with
      | none => .error (.output .incomplete)
      | some message => do
        let output ← (contract.validateResponse (.new message .stop)).mapError .output
        pure { outcome with output }
    else .ok outcome
  | none => .ok outcome

/-- What is known of a suspended run. -/
structure AgentInterrupted where
  threadId : ThreadId
  checkpointId : CheckpointId
  approvalRequest : Option (List ToolCall)

def AgentValue.asRequest : AgentValue → Option (List ToolCall)
  | .request pendingCalls => some pendingCalls
  | _ => none

inductive AgentRunOutcome where
  | completed (outcome : AgentOutcome)
  | interrupted (interrupted : AgentInterrupted)

/-- Why an agent returns no outcome. -/
inductive AgentStop where
  | error (error : AgentError)
  | panic (panic : Panic)
  | outOfFuel

/-- What becomes of the stop of the graph. -/
def AgentStop.ofStop : Stop → AgentStop
  | .error e => .error (.graph e)
  | .panic p => .panic p
  | .outOfFuel => .outOfFuel

namespace ToolCallingAgent

variable {self : ToolCallingAgent} {H : Host self.program} {call : AgentCall}
  {m : ProgramMachine self.program H} {p q : Position self.program}

/-- The outcome of a completed state, checked against the contract. -/
def completed (self : ToolCallingAgent) (state : AgentState) : Except AgentStop AgentRunOutcome := do
  let outcome ← (AgentOutcome.fromCompletedState state).mapError .panic
  let outcome ← (self.output.validate outcome).mapError .error
  pure (.completed outcome)

/-- What becomes of the outcome of the graph. -/
def fromExecution (self : ToolCallingAgent) {H : Host self.program} :
    ExecutionOutcome (self.program.env H) → Except AgentStop AgentRunOutcome
  | .completed report => self.completed report.finalState
  | .interrupted report =>
    .ok (.interrupted ⟨report.threadId, report.checkpointId, report.interrupt.payload.asRequest⟩)

/-- What a call of the agent returns. -/
def returns (self : ToolCallingAgent) {H : Host self.program} (call : AgentCall)
    (m : ProgramMachine self.program H) : Except AgentStop AgentRunOutcome :=
  match (self.call call).run self.graph m with
  | .ok outcome _ => self.fromExecution outcome
  | .error e _ => .error (AgentStop.ofStop e)

end ToolCallingAgent

/-! ## Panics -/

namespace ToolCallingAgent

variable {self : ToolCallingAgent} {H : Host self.program} {call : AgentCall}
  {m : ProgramMachine self.program H} {p q : Position self.program}

/-- Nothing the call does panics: its model node counts every round it starts and goes by what it
attempts, and the call returns an outcome or an error. -/
structure Survives (self : ToolCallingAgent) {H : Host self.program} (call : AgentCall)
    (m : ProgramMachine self.program H) : Prop where
  rounds : ∀ ctx ds p, (self.call (H := H) call).Passes self.graph m ctx ds p → ∀ a,
    Tries self.program self.graph p.1.position 0 a →
      self.modelNode.run a.state = .ok (self.modelNode.attempt a.state)
  returns : ∀ stop, self.returns call m = .error stop → ∃ error, stop = .error error

/-- A position from which nothing panics. -/
structure Secure {agent : ToolCallingAgent} (p : Position agent.program) : Prop where
  stopped : p.frontier = [] → p.state.stopReason ≠ none
  round : 0 ∈ p.frontier → p.state.modelRounds < usizeMax

/-- **A turn ends securely**, wherever it started. -/
theorem Turn.secure {update : AgentUpdate} (h : self.Turn p update q) : Secure q := by
  cases h with
  | @model message usage frontier answers running aligned =>
    by_cases hcalls : message.toolCalls.isEmpty = true
    · refine ⟨fun _ => ?_, fun hmem => ?_⟩
      · simp [AgentState.addRound, hcalls]
      · simp [hcalls] at hmem
    · refine ⟨fun hnil => ?_, fun hmem => ?_⟩
      · simp [hcalls] at hnil
      · simp [hcalls] at hmem
  | @tools calls messages frontier pending settles running rounds aligned =>
    have hle : p.state.modelRounds ≤ self.config.maxRounds := pending.rounds
    have hbounded := self.config.bounded
    have hpos := Nat.pos_of_ne_zero self.config.pos
    refine ⟨fun hnil => ?_, fun _ => ?_⟩
    · simp only at hnil
      split at hnil
      · rename_i hmax
        simp [AgentState.addResults, hmax]
      · cases hnil
    · show p.state.modelRounds < usizeMax
      omega

theorem secure_of_passes (hopens : ∀ ls, (self.call (H := H) call).Opens self.graph m ls →
      Secure ls.position) {ctx : RunContext} {ds : List (Deed self.program)}
    {p : LoopState (self.program.env H) Nat × ProgramMachine self.program H}
    (h : (self.call call).Passes self.graph m ctx ds p) : Secure p.1.position := by
  cases h with
  | enter h => exact hopens _ (wp_of_ok (wp_opened self.compiled self.flat _ m) h).1.opens
  | turn _ _ hstep => exact (step_cases hstep).secure

/-- A state with a stop reason has an outcome, or an error. -/
theorem completed_error {state : AgentState} (h : state.stopReason ≠ none) {stop : AgentStop}
    (hstop : self.completed state = .error stop) : ∃ error, stop = .error error := by
  obtain ⟨reason, hreason⟩ := Option.ne_none_iff_exists'.mp h
  unfold completed AgentOutcome.fromCompletedState at hstop
  rw [hreason] at hstop
  simp only [mapError_ok, ok_bind] at hstop
  generalize self.output.validate _ = validated at hstop
  cases validated with
  | ok outcome => cases hstop
  | error error =>
    cases hstop
    exact ⟨error, rfl⟩

/-- **A call survives** if its checkpoint can be continued, its counters can be counted and its
timeouts fit the clock. -/
theorem call_survives (self : ToolCallingAgent) {H : Host self.program} (call : AgentCall)
    (m : ProgramMachine self.program H)
    (hrange : ∀ checkpoint, (self.call (H := H) call).Reads m checkpoint → checkpoint.InRange)
    (hstopped : ∀ checkpoint, (self.call (H := H) call).Reads m checkpoint →
      checkpoint.nextFrontier = [] → checkpoint.snapshot.stopReason ≠ none)
    (hround : ∀ checkpoint, (self.call (H := H) call).Reads m checkpoint →
      .root MODEL_NODE_ID ∈ checkpoint.nextFrontier → checkpoint.snapshot.modelRounds < usizeMax)
    (hcounts : ∀ ctx p, (self.call (H := H) call).Reaches self.graph m ctx p → p.1.frontier ≠ [] →
      p.1.steps + p.1.frontier.length ≤ usizeMax ∧ p.1.superstep + 1 ≤ usizeMax)
    (hclock : ClockFits (self.program.env H) (self.call (H := H) call).config.control.runTimeout ∧
      ClockFits (self.program.env H) (self.call (H := H) call).config.control.nodeTimeout) :
    self.Survives call m := by
  have hs : Sound self.graph .none (self.call (H := H) call) m := by
    refine ⟨.inr hclock.1, .inr hclock.2, .inr ⟨self.flat.acyclic, ?_⟩, ?_, .inr ?_⟩
    · have hhops : (self.call (H := H) call).config.hops = 3 := by
        cases call <;> rfl
      rw [hhops]
      exact Nat.lt_succ_self 2
    · exact fun checkpoint hread => ⟨(hrange checkpoint hread).1, (hrange checkpoint hread).2⟩
    · exact fun checkpoint frontier _ hresolved =>
        self.flat.nodesOnly (placed self.compiled) hresolved.paths.node
  have hopens : ∀ ls, (self.call (H := H) call).Opens self.graph m ls → Secure ls.position := by
    intro ls hls
    rcases opens_cases hls with ⟨messages, sink, hposition, -⟩ | ⟨checkpoint, hread, hpaths, hsnapshot⟩
    · rw [hposition]
      refine ⟨fun hnil => absurd hnil (List.cons_ne_nil 0 []), fun _ => ?_⟩
      have hzero : (withSink sink (.new messages)).modelRounds = 0 := by
        cases sink <;> rfl
      show (withSink sink (.new messages)).modelRounds < usizeMax
      rw [hzero]
      decide
    · have hrounds : ls.state.modelRounds = checkpoint.snapshot.modelRounds :=
        congrArg AgentSnapshot.modelRounds hsnapshot
      have hreason : ls.state.stopReason = checkpoint.snapshot.stopReason :=
        congrArg AgentSnapshot.stopReason hsnapshot
      refine ⟨fun hnil => ?_, fun hmem => ?_⟩
      · show ls.state.stopReason ≠ none
        rw [hreason]
        replace hnil : ls.frontier = [] := hnil
        rw [hnil] at hpaths
        exact hstopped checkpoint hread (List.forall₂_nil_left_iff.mp hpaths)
      · show ls.state.modelRounds < usizeMax
        rw [hrounds]
        exact hround checkpoint hread (model_path hpaths hmem)
  refine ⟨fun ctx ds p hpasses a ha => ?_, fun stop hstop => ?_⟩
  · have hstate : a.state = p.1.state := ha.state
    have hlt := (secure_of_passes hopens hpasses).round ha.mem
    exact ModelNode.run_eq_ok.mpr ⟨hstate ▸ hlt, rfl⟩
  · unfold ToolCallingAgent.returns at hstop
    cases hrun : (self.call (H := H) call).run self.graph m with
    | error e m' =>
      rw [hrun] at hstop
      obtain ⟨error, rfl⟩ := error_of_sound self.compiled hs hcounts hrun
      cases hstop
      exact ⟨_, rfl⟩
    | ok outcome m' =>
      rw [hrun] at hstop
      cases outcome with
      | interrupted report => cases hstop
      | completed report =>
        obtain ⟨ctx, p, ⟨ds, ws, hpasses, -⟩, hconcludes⟩ :=
          wp_of_ok (run_course self.compiled self.flat (sound_all hrange)) hrun
        cases hconcludes with
        | completed hl hstate =>
          refine completed_error ?_ hstop
          rw [hstate]
          exact (secure_of_passes hopens hpasses).stopped hl

end ToolCallingAgent

/-! ### A checkpoint without a stop reason -/

namespace Bench

/-- The checkpoint of a finished run, with this stop reason. -/
def finished (version : GraphVersion) (stopReason : Option AgentStopReason) :
    Checkpoint AgentSnapshot AgentValue :=
  { afterRound version [] with
    snapshot := ⟨hello, 0, [], stopReason⟩
    completed := true }

/-- It loads, and its outcome is a panic. -/
theorem unstopped_panics : (agent oneRound).returns resuming
    (machine (agent oneRound) answering (some (finished (agent oneRound).version none))) =
      .error (.panic (.missing "a completed model graph commits a stop reason")) := rfl

/-- The frontiers and counters of a call. -/
def places {H : Host (agent threeRounds).program} (call : Call ((agent threeRounds).program.env H))
    (m : ProgramMachine (agent threeRounds).program H) : List (List Nat × Nat × Nat) :=
  (call.followed (agent threeRounds).graph m 4).map fun p =>
    (p.1.frontier, p.1.steps, p.1.superstep)

theorem mem_places {H : Host (agent threeRounds).program}
    {call : Call ((agent threeRounds).program.env H)}
    {m : ProgramMachine (agent threeRounds).program H} (hlength : (places call m).length ≤ 4)
    {ctx : RunContext} {p : LoopState ((agent threeRounds).program.env H) Nat ×
      ProgramMachine (agent threeRounds).program H}
    (h : call.Reaches (agent threeRounds).graph m ctx p) :
    (p.1.frontier, p.1.steps, p.1.superstep) ∈ places call m := by
  unfold places at hlength ⊢
  rw [List.length_map] at hlength
  exact List.mem_map_of_mem (f := fun p : LoopState _ Nat × _ =>
    (p.1.frontier, p.1.steps, p.1.superstep)) (h.mem_followed hlength)

/-- The checkpoint of an agent between two rounds. -/
def between : Checkpoint AgentSnapshot AgentValue :=
  afterRound (agent threeRounds).version [.root MODEL_NODE_ID]

/-- The checkpoint behind its last round. -/
def behind : Checkpoint AgentSnapshot AgentValue :=
  finished (agent threeRounds).version (some .finalAnswer)

/-- Nothing panics from either, of which the first has two more rounds to play. -/
theorem between_survives :
    (agent threeRounds).Survives resuming (conversing (some between)) ∧
      (agent threeRounds).Survives resuming (conversing (some behind)) := by
  have hcounts : ∀ stored ∈ [between, behind], stored.threadId = ⟨"t"⟩ ∧
      (stored.step ≤ usizeMax ∧ stored.superstep ≤ usizeMax) ∧
      (stored.nextFrontier = [] → stored.snapshot.stopReason ≠ none) ∧
      stored.snapshot.modelRounds < usizeMax ∧
      (places again (conversing (some stored))).length ≤ 4 ∧
      ∀ place ∈ places again (conversing (some stored)),
        place.2.1 + place.1.length ≤ usizeMax ∧ place.2.2 + 1 ≤ usizeMax := by
    decide +kernel
  have hsurvives : ∀ stored ∈ [between, behind],
      (agent threeRounds).Survives resuming (conversing (some stored)) := by
    intro stored hstored
    obtain ⟨hthread, hrange, hstopped, hrounds, hlength, hplaces⟩ := hcounts stored hstored
    refine (agent threeRounds).call_survives resuming _ ?_ ?_ ?_ ?_ ⟨?_, ?_⟩
    · intro checkpoint hread
      obtain rfl := hread.unique (reads_again hthread)
      exact hrange
    · intro checkpoint hread
      obtain rfl := hread.unique (reads_again hthread)
      exact hstopped
    · intro checkpoint hread _
      obtain rfl := hread.unique (reads_again hthread)
      exact hrounds
    · intro ctx p hreach _
      exact hplaces _ (mem_places hlength hreach)
    · rintro w timeout ⟨⟩
    · rintro w timeout ⟨⟩
  exact ⟨hsurvives between List.mem_cons_self,
    hsurvives behind (List.mem_cons_of_mem _ List.mem_cons_self)⟩

end Bench

end GroupAgent.Prebuilt
