import GroupAgent.Prebuilt.Nodes
import GroupAgent.Core.Course

/-!
# The tool-calling agent

Model of `AgentConfig` (`lib.rs:119-122`), `ToolCallingAgent` (`agent.rs:270-276`, its calls
390-733 and those of `durable_stream.rs`), its routers (774-810) and its graph (854-894) of
`crates/group-agent-prebuilt/src`.

* The durable calls take what the caller configured; an unset step limit is replaced by the agent's
  own, which is large enough for its rounds.
* An agent with tool approval has an interruptible tool node and a graph version of its own.
* A call on a stream is the same call with an event sink attached to the state; `EventStream` has
  the stream.

Results:
* `compile_agent`, `compiled_agent`, `flat_agent`: the graph compiles, and is one of two nodes.
* `ToolCallingAgent.program`, `ToolCallingAgent.call`: the agent as a program of that graph, and
  its calls.

Out of scope: the counting of graph compilations, which tests observe.
-/

namespace GroupAgent.Prebuilt

open GroupAgent.Lib GroupAgent.Model GroupAgent.Core GroupAgent.Tool

/-! ## Configuration -/

inductive AgentConfigError where
  | zeroMaxRounds
  | maxStepsOverflow
  deriving DecidableEq, Repr

/-- Bounds of an agent. Its step limit, two nodes a round, is a `usize`. -/
structure AgentConfig where
  maxRounds : Nat
  toolApproval : Bool
  pos : maxRounds ≠ 0
  bounded : maxRounds * 2 ≤ usizeMax

namespace AgentConfig

def new (maxRounds : Nat) : Except AgentConfigError AgentConfig :=
  if hp : maxRounds = 0 then .error .zeroMaxRounds
  else if hb : maxRounds * 2 ≤ usizeMax then .ok ⟨maxRounds, false, hp, hb⟩
  else .error .maxStepsOverflow

def withToolApproval (self : AgentConfig) (toolApproval : Bool) : AgentConfig :=
  { self with toolApproval }

/-- The node executions of the rounds. -/
def maxSteps (self : AgentConfig) : Nat := self.maxRounds * 2

end AgentConfig

/-- A reusable agent. A structured one needs a model that supports it. -/
structure ToolCallingAgent where
  model : ChatModel
  tools : ToolRegistry
  config : AgentConfig
  output : OutputContract
  supported : output.value.isSome = true → model.metadata.capabilities.structuredOutput = true
  fromStr : String → Except String Json

/-! ## Routers -/

inductive ToolRouteInvariant where
  | noCommittedModelRound
  | usageRoundMismatch
  | emptyTranscript
  | transcriptTailNotTool
  | continuationAtRoundLimit
  | maxRoundsMismatch
  | finalAnswerAtToolRoute
  deriving DecidableEq, Repr

def ToolRouteInvariant.display : ToolRouteInvariant → String
  | .noCommittedModelRound => "tool route requires a committed model round"
  | .usageRoundMismatch => "tool route usage alignment failed"
  | .emptyTranscript => "tool route requires a transcript"
  | .transcriptTailNotTool => "tool route requires a ToolMessage tail"
  | .continuationAtRoundLimit => "tool continuation round invariant failed"
  | .maxRoundsMismatch => "tool max-rounds invariant failed"
  | .finalAnswerAtToolRoute => "tool route cannot follow a final answer"

/-- The nodes of the graph, which are also its routers' sources. -/
inductive AgentNode where
  | model
  | tools
  deriving DecidableEq, Repr

def MODEL_NODE_ID : NodeId := ⟨"model"⟩

def TOOL_NODE_ID : NodeId := ⟨"tools"⟩

def routeAfterModel (state : AgentState) : Except SourceError NodeId :=
  match state.pendingToolCalls with
  | none => .error (.message "model route requires a committed assistant turn")
  | some calls => if calls.isEmpty then .ok NodeId.END else .ok TOOL_NODE_ID

def toolsRouteTarget (state : AgentState) (maxRounds : Nat) : Except ToolRouteInvariant NodeId :=
  if state.modelRounds = 0 then .error .noCommittedModelRound
  else if !state.usageIsAligned then .error .usageRoundMismatch
  else
    match state.messages.getLast? with
    | none => .error .emptyTranscript
    | some (.tool _) =>
      match state.stopReason with
      | some .maxRounds =>
        if state.modelRounds = maxRounds then .ok NodeId.END else .error .maxRoundsMismatch
      | none =>
        if state.modelRounds < maxRounds then .ok MODEL_NODE_ID
        else .error .continuationAtRoundLimit
      | some .finalAnswer => .error .finalAnswerAtToolRoute
    | some _ => .error .transcriptTailNotTool

def routeAfterTools (state : AgentState) (maxRounds : Nat) : Except SourceError NodeId :=
  (toolsRouteTarget state maxRounds).mapError fun source =>
    .withSource "tool route invariant failed" (.foreign source.display)

/-! ## The graph -/

def AGENT_GRAPH_VERSION : String := "group-agent-prebuilt/tool-calling-agent/1"

def AGENT_APPROVAL_GRAPH_VERSION : String := "group-agent-prebuilt/tool-calling-agent/approval/1"

/-- The declarations of the graph. Approval makes the tool node interruptible. -/
def declareAgentGraph (version : GraphVersion) (toolApproval : Bool) :
    Except GraphBuildError (StateGraph AgentNode AgentNode (CompiledGraph AgentNode AgentNode)) := do
  let graph := StateGraph.new.setVersion version
  let graph ← graph.addNode MODEL_NODE_ID .model
  let graph ←
    if toolApproval then graph.addInterruptibleNode TOOL_NODE_ID .tools
    else graph.addNode TOOL_NODE_ID .tools
  let graph := graph.addEdge NodeId.START MODEL_NODE_ID
  let graph ← graph.addConditionalEdges MODEL_NODE_ID [NodeId.END, TOOL_NODE_ID] .model
  graph.addConditionalEdges TOOL_NODE_ID [NodeId.END, MODEL_NODE_ID] .tools

/-- What it compiles to. -/
def compiledAgentGraph (version : GraphVersion) (toolApproval : Bool) :
    CompiledGraph AgentNode AgentNode where
  items :=
    [.node ⟨.root MODEL_NODE_ID, .root, .normal .model,
        .conditional .model [(NodeId.END, none), (TOOL_NODE_ID, some 1)]⟩,
      .node ⟨.root TOOL_NODE_ID, .root,
        if toolApproval then .interruptible .tools else .normal .tools,
        .conditional .tools [(NodeId.END, none), (MODEL_NODE_ID, some 0)]⟩]
  nodePaths := [(.root MODEL_NODE_ID, 0), (.root TOOL_NODE_ID, 1)]
  scopeExits := []
  entryIndex := some 0
  version := some version

theorem declare_agent (version : GraphVersion) (toolApproval : Bool) : ∃ graph,
    declareAgentGraph version toolApproval = .ok graph ∧
      graph.items.all (fun item => !item.2.isSubgraph) = true ∧
      graph.compile = .ok (compiledAgentGraph version toolApproval) := by
  cases toolApproval with
  | false => exact ⟨_, rfl, rfl, rfl⟩
  | true => exact ⟨_, rfl, rfl, rfl⟩

/-- A construction failure of the prebuilt agents. -/
inductive AgentBuildError where
  | outputConfiguration (source : ModelError)
  | graphBuild (source : GraphBuildError)
  | graphCompile (source : CompileStop)

def compileAgentGraph (version : GraphVersion) (toolApproval : Bool) :
    Except AgentBuildError (CompiledGraph AgentNode AgentNode) := do
  let graph ← (declareAgentGraph version toolApproval).mapError .graphBuild
  graph.compile.mapError .graphCompile

/-- The construction never fails at the graph. -/
theorem compile_agent (version : GraphVersion) (toolApproval : Bool) :
    compileAgentGraph version toolApproval = .ok (compiledAgentGraph version toolApproval) := by
  obtain ⟨graph, hdeclare, -, hcompile⟩ := declare_agent version toolApproval
  unfold compileAgentGraph
  rw [hdeclare, mapError_ok, ok_bind, hcompile, mapError_ok]

theorem compiled_agent (version : GraphVersion) (toolApproval : Bool) :
    Compiled (compiledAgentGraph version toolApproval) := by
  obtain ⟨graph, -, hplain, hcompile⟩ := declare_agent version toolApproval
  exact compiled_of_plain hplain hcompile

theorem flat_agent (version : GraphVersion) (toolApproval : Bool) :
    Flat (compiledAgentGraph version toolApproval) := by
  refine flat_of_nodes rfl fun item hitem => ?_
  simp only [compiledAgentGraph, List.mem_cons, List.not_mem_nil, or_false] at hitem
  rcases hitem with rfl | rfl
  · exact ⟨_, rfl, rfl⟩
  · exact ⟨_, rfl, rfl⟩

namespace ToolCallingAgent

/-- Build an agent. -/
def new (model : ChatModel) (tools : ToolRegistry) (config : AgentConfig) (output : OutputContract)
    (fromStr : String → Except String Json) : Except AgentBuildError ToolCallingAgent :=
  if h : output.value.isSome = true → model.metadata.capabilities.structuredOutput = true then
    .ok ⟨model, tools, config, output, h, fromStr⟩
  else .error (.outputConfiguration (.unsupported .structuredOutput model.metadata))

/-- The compatibility identity of the graph. The round limit is no part of it. -/
def version (self : ToolCallingAgent) : GraphVersion :=
  ⟨(self.output.version self.config.toolApproval).getD
    (if self.config.toolApproval then AGENT_APPROVAL_GRAPH_VERSION else AGENT_GRAPH_VERSION)⟩

def graph (self : ToolCallingAgent) : CompiledGraph AgentNode AgentNode :=
  compiledAgentGraph self.version self.config.toolApproval

theorem compiled (self : ToolCallingAgent) : Compiled self.graph := compiled_agent _ _

theorem flat (self : ToolCallingAgent) : Flat self.graph := flat_agent _ _

def modelNode (self : ToolCallingAgent) : ModelNode :=
  ⟨self.output, self.model, self.tools, self.fromStr⟩

def toolNode (self : ToolCallingAgent) : ToolNode := ⟨self.config.maxRounds⟩

/-! ## The program -/

/-- One execution of a node. A host has no panics, so a model node starts from its attempt; that it
counts its round before it is `Survives.rounds`. -/
def plan (self : ToolCallingAgent) : (a : NodeAttempt AgentNode AgentState AgentValue) →
    AgentPlan (a.kind.Answer AgentUpdate AgentValue)
  | ⟨.normal .model, state, _⟩ => self.modelNode.attempt state
  | ⟨.normal .tools, state, _⟩ => self.toolNode.run state
  | ⟨.interruptible .model, state, _⟩ =>
    (self.modelNode.attempt state).map (NodeOutcome.update <$> ·)
  | ⟨.interruptible .tools, state, context⟩ =>
    self.toolNode.runInterruptible state context.resumeValue

def route (self : ToolCallingAgent) : AgentNode → AgentState → Except SourceError NodeId
  | .model, state => routeAfterModel state
  | .tools, state => routeAfterTools state self.config.maxRounds

abbrev program (self : ToolCallingAgent) : Program AgentNode AgentNode where
  State := AgentState
  Update := AgentUpdate
  Snapshot := AgentSnapshot
  Value := AgentValue
  Job := AgentJob
  Reply := AgentJob.Reply
  apply := AgentState.apply
  snapshot state := .ok state.snapshot
  restore snapshot := .ok (.restore snapshot)
  plan := self.plan
  route := self.route

/-! ## Calls -/

/-- The step limit Core falls back on. -/
def DEFAULT_MAX_STEPS : Nat := 1000

/-- A run configuration of a durable call: an unset step limit becomes the agent's. The graph has two
nodes, so three rounds of normalization are enough. -/
def runConfig (self : ToolCallingAgent) (run : RunConfig) : RunConfig :=
  { run with
    maxSteps := if run.maxSteps = DEFAULT_MAX_STEPS then self.config.maxSteps else run.maxSteps
    hops := 3 }

/-- A call of an agent. A call with a sink reports its events to it. -/
inductive AgentCall where
  | invoke (messages : List Message) (sink : Bool) (events : EventConfig) (runControl : RunControl)
      (checkpoints : Option CheckpointConfig)
  | resume (config : ResumeConfig AgentValue) (sink : Bool)
  | replay (config : ReplayConfig AgentValue)
  | fork (config : ForkConfig AgentValue)

def withSink (sink : Bool) (state : AgentState) : AgentState :=
  if sink then state.setSink .invocation else state

/-- What a call makes of the graph. -/
def call (self : ToolCallingAgent) {H : Host self.program} : AgentCall → Call (self.program.env H)
  | .invoke messages sink events runControl checkpoints =>
    .invoke (withSink sink (.new messages)) ⟨self.config.maxSteps, events, runControl, 3⟩ checkpoints
  | .resume config sink =>
    .resume { config with run := self.runConfig config.run } fun state => .ok (withSink sink state)
  | .replay config => .replay { config with run := self.runConfig config.run }
  | .fork config => .fork { config with run := self.runConfig config.run }

end ToolCallingAgent

end GroupAgent.Prebuilt
