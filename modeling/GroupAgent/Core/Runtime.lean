import GroupAgent.Core.Machine

/-!
# The run loop

Model of `invoke_internal` (`runtime.rs:310-367`), `execute_internal` (369-890),
`normalize_frontier` (900-974), `resolve_transition` (978-1032), `execute_node` (2129-2181) and the
`RuntimeCheckpoint` implementations (1857-2126) of `crates/group-agent-core/src/runtime.rs`.

* The loop is written against a `Nav`: how a frontier element names a node, and what a resolved
  frontier settles to before the next super-step. `CompiledGraph.nav` is the source's: elements are
  indices, and settling is the scope exit followed by `normalize_frontier`.
* `superstep` is one turn of the `while` loop: `advance` up to the next frontier, then what is
  saved and reported of it. `runLoop` is the loop. A turn executes at least one node of the budget,
  so `max_steps + 1` turns are enough for any run, and its fuel is never what stops it.
* `normalize_frontier` loops until the frontier holds no structural item, without counting. It
  takes a bound on the items it passes and stops with `outOfFuel` beyond it; `Hops` says for which
  graphs some bound suffices.
* A super-step of one node runs in the task of the call. A larger one is started in frontier order,
  awaited in the order of completion, and its updates are put back in frontier order before they
  are applied in one batch.
* `steps + offset + 1` and the sums behind it stay below the step limit, which is a `usize`, once
  the budget check has passed. Only the additions made before it are checked (`usizeAdd`).
* The three `RuntimeCheckpoint`s (disabled, read-only replay, enabled) are one inductive type; each
  method is one function with a case for each.

Out of scope: the accessors of the reports, and the futures behind a call before it is first
polled.
-/

namespace GroupAgent.Core

open GroupAgent.Lib

variable {ν ρ : Type}

/-! ## Checkpointing modes -/

/-- Controls committed-boundary saves. -/
inductive CheckpointPolicy where
  | everySuperstep
  | finalOnly
  deriving DecidableEq, Repr

/-- Checkpointing of one run, with the parent its next save expects. -/
structure EnabledCheckpoint where
  threadId : ThreadId
  policy : CheckpointPolicy
  branchId : Option BranchId
  expectedParent : Option CheckpointId
  graphVersion : Option GraphVersion
  deriving DecidableEq, Repr

inductive RuntimeCheckpoint where
  | disabled
  | readOnlyReplay (sourceThreadId : ThreadId) (sourceCheckpointId : CheckpointId)
  | enabled (checkpoint : EnabledCheckpoint)
  deriving DecidableEq, Repr

/-- What a save records about a boundary, beside the state. -/
structure CheckpointBoundary (V : Type) where
  superstep : Nat
  step : Nat
  nextFrontier : List NodePath
  completed : Bool
  interrupt : Option (CheckpointInterrupt V)

structure SavedCheckpoint where
  id : CheckpointId
  threadId : ThreadId
  deriving DecidableEq, Repr

namespace RuntimeCheckpoint

/-- Why an interrupt cannot be saved, if it cannot. -/
def interruptError (c : RuntimeCheckpoint) (runId : RunId) (interruptId : InterruptId)
    (nodeId : NodePath) (step : Nat) (parallel : Bool) : Option GraphRunError :=
  match c with
  | .disabled => some (
    if parallel then .unsupportedParallelInterrupt interruptId nodeId step
    else .interruptRequiresCheckpoint interruptId nodeId step)
  | .readOnlyReplay sourceThreadId sourceCheckpointId =>
    some (.replayInterruptUnsupported runId sourceThreadId sourceCheckpointId interruptId nodeId
      step)
  | .enabled _ =>
    if parallel then some (.unsupportedParallelInterrupt interruptId nodeId step) else none

def shouldSave (c : RuntimeCheckpoint) (completed : Bool) : Bool :=
  match c with
  | .disabled => false
  | .readOnlyReplay _ _ => false
  | .enabled c => c.policy == .everySuperstep || completed

end RuntimeCheckpoint

section Save

variable {E : Env ν ρ}

/-- The run error of a failed write. -/
def EnabledCheckpoint.writeError (c : EnabledCheckpoint) (runId : RunId) (superstep step : Nat) :
    CheckpointWriteError → GraphRunError
  | .conflict expectedParent actualParent =>
    match c.branchId with
    | some branchId =>
      .branchCheckpointConflict runId c.threadId branchId superstep step expectedParent actualParent
    | none => .checkpointConflict runId c.threadId superstep step expectedParent actualParent
  | .failed source => .checkpointSaveFailed runId c.threadId superstep step source
  | .idempotencyConflict checkpointId =>
    .checkpointIdConflict runId c.threadId checkpointId superstep step
  | .encoding source => .checkpointEncodeFailed runId c.threadId superstep step source
  | source => .checkpointSaveFailed runId c.threadId superstep step
    (.withSource "checkpoint branch save failed" (.checkpointWrite source))

/-- The request that saves a boundary, with the expected parent. -/
def EnabledCheckpoint.build {τ V : Type} (c : EnabledCheckpoint) (runId : RunId) (snapshot : τ)
    (checkpointId : CheckpointId) (boundary : CheckpointBoundary V) : CheckpointRequest τ V where
  checkpointId := checkpointId
  expectedParent := c.expectedParent
  graphVersion := c.graphVersion
  threadId := c.threadId
  runId := runId
  superstep := boundary.superstep
  step := boundary.step
  snapshot := snapshot
  nextFrontier := boundary.nextFrontier
  completed := boundary.completed
  interrupt := boundary.interrupt

/-- Take the snapshot and build the request, with a new identifier. -/
def EnabledCheckpoint.request (c : EnabledCheckpoint) (runId : RunId) (state : E.State)
    (boundary : CheckpointBoundary E.Value) :
    M E (Except GraphRunError (CheckpointRequest E.Snapshot E.Value)) :=
  match E.snapshot state with
  | .error source =>
    pure (.error (.snapshotFailed runId c.threadId boundary.superstep boundary.step source))
  | .ok snapshot => do
    let checkpointId ← ask E.nextCheckpointId
    pure (.ok (c.build runId snapshot checkpointId boundary))

/-- Save one boundary; a success becomes the parent the next save expects. -/
def EnabledCheckpoint.save (c : EnabledCheckpoint) (runId : RunId) (state : E.State)
    (boundary : CheckpointBoundary E.Value) :
    Task E (Except GraphRunError (SavedCheckpoint × EnabledCheckpoint)) :=
  Task.call (c.request runId state boundary) (E.save c.branchId)
    (fun request answer => record (.save c.branchId request answer))
    (fun _ answer =>
      match answer with
      | .error error => .error (c.writeError runId boundary.superstep boundary.step error)
      | .ok checkpoint =>
        .ok (⟨checkpoint.id, c.threadId⟩, { c with expectedParent := some checkpoint.id }))

/-- Save one boundary under the run's controls and emit the event. The other modes never save. -/
def saveBoundary (ctx : RunContext) (c : RuntimeCheckpoint) (state : E.State)
    (boundary : CheckpointBoundary E.Value) : M E (SavedCheckpoint × RuntimeCheckpoint) :=
  match c with
  | .disabled => panic (.missing "disabled checkpointing never enters the storage path")
  | .readOnlyReplay _ _ => panic (.missing "read-only replay never enters the storage write path")
  | .enabled c => do
    let result ← awaitRunBoundary ctx boundary.step (c.save ctx.runId state boundary)
    let (saved, c) ← orFail ctx result
    emit ctx.events (.checkpointSaved ctx.runId saved.id saved.threadId boundary.superstep
      boundary.step boundary.completed)
    pure (saved, .enabled c)

end Save

/-! ## Transitions -/

inductive SubgraphBoundary where
  | started (graphPath : GraphPath)
  | completed (graphPath : GraphPath)
  deriving DecidableEq, Repr

def SubgraphBoundary.event (runId : RunId) : SubgraphBoundary → GraphEvent
  | .started graphPath => .subgraphStarted runId graphPath
  | .completed graphPath => .subgraphCompleted runId graphPath

/-- The run error of a transition without a result. -/
def TransitionError.runError (graphPath : GraphPath) (source : NodePath) (step : Nat) :
    TransitionError → GraphRunError
  | .router error => .routeFailed source step error
  | .invalidTarget target => .invalidRouteTarget source ⟨graphPath, target⟩ step
  | .emptyTargets => .emptyRouteTargets source step
  | .duplicateTarget target => .duplicateRouteTarget source ⟨graphPath, target⟩ step

def RouteDecision.event (runId : RunId) (source : NodePath) (step : Nat) :
    RouteDecision → GraphEvent
  | .single target => .routeSelected runId source target step
  | .multiple targets => .routesSelected runId source targets step

section Resolve

variable {E : Env ν ρ} {ι : Type}

/-- The routers of the graph on one state. -/
def routersOn (state : E.State) : Routers (M E) ρ where
  route router := ask (E.route router state)
  fanOut router := ask (E.fanOutRoute router state)

/-- Resolve a transition, emit the routing decision, and return the targets. -/
def resolveTransition (ctx : RunContext) (order : ι → Nat) (pathAt : ι → M E NodePath)
    (transition : CompiledTransition ρ ι) (state : E.State) (graphPath : GraphPath)
    (source : NodePath) (step : Nat) : M E (List ι) := do
  match ← transition.resolveInto (routersOn state) order pathAt graphPath with
  | .error error => fail ctx (error.runError graphPath source step)
  | .ok (targets, none) => pure targets
  | .ok (targets, some decision) => do
    emit ctx.events (decision.event ctx.runId source step)
    pure targets

end Resolve

/-! ## Navigation -/

/-- How a run moves over a graph whose frontier elements are `ι`. -/
structure Nav (E : Env ν ρ) (ι : Type) where
  nodeAt : ι → M E (CompiledNode ν ρ ι)
  pathAt : ι → M E NodePath
  /-- Declaration order. -/
  order : ι → Nat
  /-- The first frontier of an invocation, and the subgraph boundaries passed. -/
  start : RunContext → E.State → M E (List ι × List SubgraphBoundary)
  /-- What a resolved frontier of one namespace settles to, after the given step. -/
  settle : RunContext → E.State → Nat → GraphPath → List ι → M E (List ι × List SubgraphBoundary)

namespace CompiledGraph

variable {E : Env ν ρ}

def itemAt (g : CompiledGraph ν ρ) (index : Nat) : M E (CompiledItem ν ρ Nat) :=
  match g.items[index]? with
  | some item => pure item
  | none => panic .indexOutOfBounds

/-- The real node at an index. -/
def node (g : CompiledGraph ν ρ) (index : Nat) :
    Except Panic (CompiledNode ν ρ Nat) :=
  match g.items[index]? with
  | some (.node node) => .ok node
  | some (.enterSubgraph _ _ _) => .error .structuralIndex
  | some (.exitSubgraph _ _ _) => .error .structuralIndex
  | none => .error .indexOutOfBounds

def nodeAt (g : CompiledGraph ν ρ) (index : Nat) : M E (CompiledNode ν ρ Nat) :=
  orPanic (g.node index)

def pathAt (g : CompiledGraph ν ρ) (index : Nat) : M E NodePath := do
  match ← g.itemAt index with
  | .node node => pure node.path
  | .enterSubgraph graphPath nested _ => pure (graphPath.mountPath nested)
  | .exitSubgraph _ mountPath _ => pure mountPath

/-- The exit of a namespace; the root has none. -/
def scopeExit (g : CompiledGraph ν ρ) (graphPath : GraphPath) : Option Nat :=
  g.scopeExits.lookup graphPath

/-- The frontier of a namespace that has run out is its exit. -/
def orScopeExit (g : CompiledGraph ν ρ) (graphPath : GraphPath) (frontier : List Nat) :
    List Nat :=
  if frontier.isEmpty then (g.scopeExit graphPath).toList else frontier

/-- The debug assertion on a frontier of several items. -/
def assertNodes (g : CompiledGraph ν ρ) : List Nat → M E Unit
  | [] => pure ()
  | index :: frontier => do
    match ← g.itemAt index with
    | .node _ => g.assertNodes frontier
    | .enterSubgraph _ _ _ => panic .mixedFrontier
    | .exitSubgraph _ _ _ => panic .mixedFrontier

/-- Follow structural items until the frontier is empty or holds real nodes. -/
def normalizeFrontier (g : CompiledGraph ν ρ) (ctx : RunContext) (state : E.State) (step : Nat) :
    Nat → List Nat → List SubgraphBoundary → M E (List Nat × List SubgraphBoundary)
  | 0, _, _ => throw .outOfFuel
  | _ + 1, [], boundaries => pure ([], boundaries)
  | hops + 1, [index], boundaries => do
    match ← g.itemAt index with
    | .node _ => pure ([index], boundaries)
    | .enterSubgraph graphPath nested transition => do
      let source := graphPath.mountPath nested
      let targets ← resolveTransition ctx id g.pathAt transition state source.graphPath source step
      g.normalizeFrontier ctx state step hops targets (boundaries ++ [.started graphPath])
    | .exitSubgraph graphPath mountPath transition => do
      let targets ←
        resolveTransition ctx id g.pathAt transition state mountPath.graphPath mountPath step
      let targets := g.orScopeExit mountPath.graphPath (canonical id targets)
      g.normalizeFrontier ctx state step hops targets (boundaries ++ [.completed graphPath])
  | _ + 1, index :: second :: rest, boundaries => do
    g.assertNodes (index :: second :: rest)
    pure (index :: second :: rest, boundaries)

/-- Navigation over the items of a compiled graph. -/
def nav (g : CompiledGraph ν ρ) : Nav E Nat where
  nodeAt := g.nodeAt
  pathAt := g.pathAt
  order := id
  start ctx state := g.normalizeFrontier ctx state 0 ctx.hops g.entryIndex.toList []
  settle ctx state step graphPath frontier :=
    g.normalizeFrontier ctx state step ctx.hops (g.orScopeExit graphPath frontier) []

end CompiledGraph

/-! ## Executing nodes -/

section Execute

variable {E : Env ν ρ} {ι : Type}

/-- Execute one node alone, under the controls. -/
def executeNode (ctx : RunContext) (attempt : NodeAttempt ν E.State E.Value)
    (nodeDeadline : Option (Duration × Instant)) : M E (NodeOutcome E.Update E.Value) := do
  let nodeId := attempt.context.nodePath
  let step := attempt.context.step
  let active := ctx.control.deadline nodeDeadline
  control ctx (some nodeId) step active
  let answer ← awaitNode ctx attempt active
  finishNode ctx nodeId step attempt.kind answer
where
  /-- Wait for the node, raced against the controls unless they are off. -/
  awaitNode (ctx : RunContext) (attempt : NodeAttempt ν E.State E.Value)
      (active : Option ActiveDeadline) :
      M E (Raced active (attempt.kind.Answer E.Update E.Value)) :=
    if ctx.control.isDisabled then Raced.ready <$> ask (E.run attempt).await
    else ask ((E.run attempt).select active)
  /-- What a node execution leads to, once it is decided. -/
  finishNode (ctx : RunContext) (nodeId : NodePath) (step : Nat) (kind : NodeKind ν)
      {active : Option ActiveDeadline} (answer : Raced active (kind.Answer E.Update E.Value)) :
      M E (NodeOutcome E.Update E.Value) :=
    match answer with
    | .cancelled => fail ctx (.cancelled ctx.runId (some nodeId) step)
    | .elapsed passed _ => do
      let error ← ActiveControl.deadlineError ctx.runId (some nodeId) step passed
      fail ctx error
    | .ready answer => do
      controlRun ctx (some nodeId) step
      match kind.outcome answer with
      | .error source => fail ctx (.nodeFailed nodeId step source)
      | .ok outcome => pure outcome

/-- The state of the loop between two super-steps. -/
structure LoopState (E : Env ν ρ) (ι : Type) where
  state : E.State
  steps : Nat
  visitedNodes : List NodePath
  frontier : List ι
  superstep : Nat
  resumeNode : Option ι
  resumeValue : Option E.Value
  checkpoints : RuntimeCheckpoint

/-- The result of a run that saved a suspension. -/
structure InterruptReport (E : Env ν ρ) where
  runId : RunId
  state : E.State
  steps : Nat
  superstep : Nat
  visitedNodes : List NodePath
  events : List GraphEvent
  checkpointId : CheckpointId
  threadId : ThreadId
  interrupt : CheckpointInterrupt E.Value

/-- The completed report produced when a graph reaches an empty frontier. -/
structure RunReport (E : Env ν ρ) where
  runId : RunId
  finalState : E.State
  steps : Nat
  visitedNodes : List NodePath
  events : List GraphEvent

inductive ExecutionOutcome (E : Env ν ρ) where
  | completed (report : RunReport E)
  | interrupted (report : InterruptReport E)

variable [DecidableEq ι]

/-- Start one node: its control points, context and event. -/
def startNode (ctx : RunContext) (ls : LoopState E ι) (index : ι) (node : CompiledNode ν ρ ι)
    (step : Nat) : M E (NodeAttempt ν E.State E.Value × Option (Duration × Instant)) := do
  controlRun ctx (some node.path) step
  let now ← ask E.now
  let nodeDeadline ← ctx.control.nodeDeadline now
  let context : NodeContext E.Value :=
    { step
      nodePath := node.path
      runDeadline := ctx.control.run.map Prod.snd
      resumeValue := if ls.resumeNode = some index then ls.resumeValue else none }
  emit ctx.events (.nodeStarted ctx.runId node.path step)
  control ctx (some node.path) step (ctx.control.deadline nodeDeadline)
  pure ({ kind := node.kind, state := ls.state, context }, nodeDeadline)

/-- Execute a frontier of one node and apply its update, unless the node asks to suspend. -/
def runSingle (nav : Nav E ι) (ctx : RunContext) (ls : LoopState E ι) (first : ι)
    (firstNode : NodePath) (firstStep : Nat) : M E (E.State ⊕ InterruptRequest E.Value) := do
  let node ← nav.nodeAt first
  let (attempt, nodeDeadline) ← startNode ctx ls first node firstStep
  match ← executeNode ctx attempt nodeDeadline with
  | .interrupt request => pure (.inr request)
  | .update update => do
    emit ctx.events (.nodeCompleted ctx.runId node.path (ls.steps + 1))
    controlRun ctx (some node.path) (ls.steps + 1)
    controlRun ctx (some firstNode) firstStep
    match E.apply ls.state update with
    | .error source => fail ctx (.stateUpdateFailed firstNode firstStep source)
    | .ok state => pure (.inl state)

/-- Start every node of a batch, in frontier order. -/
def startAll (nav : Nav E ι) (ctx : RunContext) (ls : LoopState E ι) :
    Nat → List ι → M E (List (ParallelAttempt ν E.State E.Value))
  | _, [] => pure []
  | offset, index :: frontier => do
    let node ← nav.nodeAt index
    let (attempt, nodeDeadline) ← startNode ctx ls index node (ls.steps + offset + 1)
    let rest ← startAll nav ctx ls (offset + 1) frontier
    pure ({ attempt with offset, deadline := ctx.control.deadline nodeDeadline } :: rest)

/-- Await the pending executions in the order they complete, collecting updates by offset. The
number is that of the pending executions. -/
def awaitAll (ctx : RunContext) (checkpoints : RuntimeCheckpoint) :
    Nat → List (ParallelAttempt ν E.State E.Value) → List (Option E.Update) →
      M E (List (Option E.Update))
  | 0, _, slots => pure slots
  | count + 1, pending, slots =>
    if h : pending ≠ [] then do
      let ⟨i, answer⟩ ← ask (E.nextReady pending h)
      let attempt := pending.get i
      let nodeId := attempt.context.nodePath
      let step := attempt.context.step
      match ← executeNode.finishNode ctx nodeId step attempt.kind answer with
      | .interrupt request => do
        emit ctx.events (.nodeInterrupted ctx.runId request.id nodeId step)
        match checkpoints.interruptError ctx.runId request.id nodeId step true with
        | some error => fail ctx error
        | none => panic (.missing "parallel interrupts are never saveable")
      | .update update => do
        emit ctx.events (.nodeCompleted ctx.runId nodeId step)
        controlRun ctx (some nodeId) step
        awaitAll ctx checkpoints count (pending.eraseIdx i) (slots.set attempt.offset (some update))
    else pure slots

/-- Pair the nodes of a batch with their updates. -/
def zipUpdates : List NodePath → List (Option E.Update) → M E (List (NodeUpdate E.Update))
  | nodeId :: nodeIds, update :: updates =>
    match update with
    | none => panic (.missing "every parallel node completed successfully")
    | some update => do
      let batch ← zipUpdates nodeIds updates
      pure (⟨nodeId, update⟩ :: batch)
  | _, _ => pure []

/-- The paths of a frontier. -/
def pathsOf (nav : Nav E ι) (frontier : List ι) : M E (List NodePath) :=
  frontier.mapM fun index => CompiledNode.path <$> nav.nodeAt index

/-- Execute a frontier of several nodes and apply their updates as one batch. -/
def runParallel (nav : Nav E ι) (ctx : RunContext) (ls : LoopState E ι) (frontier : List ι)
    (firstNode : NodePath) (firstStep : Nat) : M E E.State := do
  let attempts ← startAll nav ctx ls 0 frontier
  let slots ← awaitAll ctx ls.checkpoints frontier.length attempts
    (List.replicate frontier.length none)
  controlRun ctx (some firstNode) firstStep
  let nodeIds ← pathsOf nav frontier
  let batch ← zipUpdates nodeIds slots
  match E.applyBatch ls.state batch with
  | .error source => fail ctx (.stateBatchUpdateFailed nodeIds firstStep source)
  | .ok state => pure state

/-! ## One super-step -/

/-- The step budget: a frontier that does not fit is not started. -/
def enforceBudget (nav : Nav E ι) (ctx : RunContext) (steps : Nat) (frontier : List ι) :
    M E Unit := do
  let remaining := ctx.absoluteStepLimit - steps
  match frontier[remaining]? with
  | none => pure ()
  | some blocked => do
    let node ← nav.nodeAt blocked
    let step ← usizeAdd (steps + remaining) 1
    fail ctx (.maxStepsExceeded ctx.maxSteps node.path step)

/-- Report the applied updates, in frontier order. -/
def reportUpdates (nav : Nav E ι) (ctx : RunContext) : Nat → List ι → M E Unit
  | _, [] => pure ()
  | step, index :: frontier => do
    let node ← nav.nodeAt index
    emit ctx.events (.stateUpdated ctx.runId node.path step)
    controlRun ctx (some node.path) step
    reportUpdates nav ctx (step + 1) frontier

/-- Resolve every node's transition, in frontier order, into one list of targets. -/
def routeAll (nav : Nav E ι) (ctx : RunContext) (state : E.State) :
    Nat → List ι → M E (List ι)
  | _, [] => pure []
  | step, index :: frontier => do
    let node ← nav.nodeAt index
    let targets ← resolveTransition ctx nav.order nav.pathAt node.transition state node.graphPath
      node.path step
    controlRun ctx (some node.path) step
    let rest ← routeAll nav ctx state (step + 1) frontier
    pure (targets ++ rest)

/-- Execute a frontier, alone or as a batch. -/
def runFrontier (nav : Nav E ι) (ctx : RunContext) (ls : LoopState E ι) (first : ι) (rest : List ι)
    (firstNode : NodePath) (firstStep : Nat) : M E (E.State ⊕ InterruptRequest E.Value) :=
  match rest with
  | [] => runSingle nav ctx ls first firstNode firstStep
  | second :: rest => .inl <$> runParallel nav ctx ls (first :: second :: rest) firstNode firstStep

/-- What a super-step comes to before anything of it is saved: the next boundary, with the subgraph
boundaries passed on the way, or a request to suspend. -/
inductive Advance (E : Env ν ρ) (ι : Type) where
  | committed (state : E.State) (steps superstep : Nat) (frontier : List ι)
      (boundaries : List SubgraphBoundary)
  | suspended (request : InterruptRequest E.Value)

/-- Execute the frontier `first :: rest`, apply its updates, and route to the next one. -/
def advance (nav : Nav E ι) (ctx : RunContext) (ls : LoopState E ι) (first : ι) (rest : List ι) :
    M E (Advance E ι) := do
  let frontier := first :: rest
  let firstNode ← nav.nodeAt first
  let firstStep ← usizeAdd ls.steps 1
  controlRun ctx (some firstNode.path) firstStep
  enforceBudget nav ctx ls.steps frontier
  let superstep ← usizeAdd ls.superstep 1
  emitIf (!rest.isEmpty) ctx.events
    (GraphEvent.superstepStarted ctx.runId superstep <$> pathsOf nav frontier)
  match ← runFrontier nav ctx ls first rest firstNode.path firstStep with
  | .inr request => pure (.suspended request)
  | .inl state => do
    let steps := ls.steps + frontier.length
    reportUpdates nav ctx firstStep frontier
    let targets ← routeAll nav ctx state firstStep frontier
    let (next, boundaries) ←
      nav.settle ctx state steps firstNode.graphPath (canonical nav.order targets)
    pure (.committed state steps superstep next boundaries)

/-- Suspend at the interrupted node: save the boundary before it, and report. -/
def interruptRun (ctx : RunContext) (ls : LoopState E ι) (nodePath : NodePath)
    (request : InterruptRequest E.Value) (step committedSuperstep : Nat) :
    M E (InterruptReport E) := do
  let interrupt := request.intoCheckpoint nodePath
  emit ctx.events (.nodeInterrupted ctx.runId interrupt.id nodePath step)
  match ls.checkpoints.interruptError ctx.runId interrupt.id nodePath step false with
  | some error => fail ctx error
  | none => do
    let (saved, _) ← saveBoundary ctx ls.checkpoints ls.state
      { superstep := committedSuperstep
        step := ls.steps
        nextFrontier := [nodePath]
        completed := false
        interrupt := some interrupt }
    controlRun ctx none ls.steps
    emit ctx.events (.runInterrupted ctx.runId interrupt.id saved.id saved.threadId nodePath
      committedSuperstep ls.steps)
    let m ← get
    pure
      { runId := ctx.runId
        state := ls.state
        steps := ls.steps
        superstep := committedSuperstep
        visitedNodes := ls.visitedNodes ++ [nodePath]
        events := m.events
        checkpointId := saved.id
        threadId := saved.threadId
        interrupt }

/-- Save a committed boundary if the policy asks for it, and check the controls again. -/
def saveCommitted (nav : Nav E ι) (ctx : RunContext) (checkpoints : RuntimeCheckpoint)
    (state : E.State) (superstep steps : Nat) (frontier : List ι) : M E RuntimeCheckpoint :=
  if checkpoints.shouldSave frontier.isEmpty then do
    let nextFrontier ← pathsOf nav frontier
    let (_, checkpoints) ← saveBoundary ctx checkpoints state
      { superstep, step := steps, nextFrontier, completed := frontier.isEmpty, interrupt := none }
    controlRun ctx none steps
    pure checkpoints
  else pure checkpoints

/-- Report a committed boundary and move the loop on to it. -/
def moveOn (nav : Nav E ι) (ctx : RunContext) (ls : LoopState E ι) (firstNode : NodePath)
    (state : E.State) (steps superstep : Nat) (next : List ι) (boundaries : List SubgraphBoundary)
    (checkpoints : RuntimeCheckpoint) : M E (LoopState E ι) := do
  boundaries.forM fun boundary => emit ctx.events (boundary.event ctx.runId)
  emitIf (1 < ls.frontier.length) ctx.events (pure (.superstepCompleted ctx.runId superstep))
  controlRun ctx (some firstNode) (ls.steps + 1)
  let nodeIds ← pathsOf nav ls.frontier
  pure
    { state, steps
      visitedNodes := ls.visitedNodes ++ nodeIds
      frontier := next
      superstep
      resumeNode := none
      resumeValue := none
      checkpoints }

/-- Save a committed boundary and move the loop on to it. -/
def commit (nav : Nav E ι) (ctx : RunContext) (ls : LoopState E ι) (firstNode : NodePath)
    (state : E.State) (steps superstep : Nat) (next : List ι) (boundaries : List SubgraphBoundary) :
    M E (LoopState E ι) := do
  let checkpoints ← saveCommitted nav ctx ls.checkpoints state superstep steps next
  moveOn nav ctx ls firstNode state steps superstep next boundaries checkpoints

/-- One turn of the loop, on the frontier `first :: rest`. A suspended super-step leaves the
counters where they were. -/
def superstep (nav : Nav E ι) (ctx : RunContext) (ls : LoopState E ι) (first : ι) (rest : List ι) :
    M E (LoopState E ι ⊕ InterruptReport E) := do
  let firstNode ← nav.nodeAt first
  match ← advance nav ctx ls first rest with
  | .suspended request =>
    .inr <$> interruptRun ctx ls firstNode.path request (ls.steps + 1) ls.superstep
  | .committed state steps superstep next boundaries =>
    .inl <$> commit nav ctx ls firstNode.path state steps superstep next boundaries

/-- Super-steps until the frontier is empty or a node suspends the run. -/
def runLoop (nav : Nav E ι) (ctx : RunContext) :
    Nat → LoopState E ι → M E (LoopState E ι ⊕ InterruptReport E)
  | 0, _ => throw .outOfFuel
  | turns + 1, ls =>
    match ls.frontier with
    | [] => pure (.inl ls)
    | first :: rest => do
      match ← superstep nav ctx ls first rest with
      | .inr report => pure (.inr report)
      | .inl ls => runLoop nav ctx turns ls

/-! ## One run -/

/-- Save a boundary that has nothing to execute, at the start of an invocation. -/
def saveEmpty (ctx : RunContext) (saveEmptyCheckpoint : Bool) (ls : LoopState E ι) :
    M E RuntimeCheckpoint :=
  if saveEmptyCheckpoint && ls.frontier.isEmpty && ls.checkpoints.shouldSave true then do
    let (_, checkpoints) ← saveBoundary ctx ls.checkpoints ls.state
      { superstep := ls.superstep, step := ls.steps, nextFrontier := [], completed := true,
        interrupt := none }
    pure checkpoints
  else pure ls.checkpoints

/-- Fix the step limit and save the empty boundary of an invocation. -/
def enterLoop (ctx : RunContext) (saveEmptyCheckpoint : Bool) (ls : LoopState E ι) :
    M E (RunContext × LoopState E ι) := do
  let checkpoints ← saveEmpty ctx saveEmptyCheckpoint ls
  pure ({ ctx with absoluteStepLimit := min (ls.steps + ctx.maxSteps) usizeMax },
    { ls with checkpoints })

/-- Report how the loop ended. -/
def leaveLoop (ctx : RunContext) : LoopState E ι ⊕ InterruptReport E → M E (ExecutionOutcome E)
  | .inr report => pure (.interrupted report)
  | .inl ls => do
    controlRun ctx none ls.steps
    emit ctx.events (.runCompleted ctx.runId ls.steps)
    let m ← get
    pure (.completed
      { runId := ctx.runId
        finalState := ls.state
        steps := ls.steps
        visitedNodes := ls.visitedNodes
        events := m.events })

/-- Execute from a loop state to a report. -/
def execute (nav : Nav E ι) (ctx : RunContext) (saveEmptyCheckpoint : Bool) (ls : LoopState E ι) :
    M E (ExecutionOutcome E) := do
  let (ctx, ls) ← enterLoop ctx saveEmptyCheckpoint ls
  let ended ← runLoop nav ctx (ctx.maxSteps + 1) ls
  leaveLoop ctx ended

/-- The configuration of one call. -/
structure RunConfig where
  maxSteps : Nat
  events : EventConfig
  control : RunControl
  hops : Nat

/-- Begin a call: its clock, identifier, controls and first event. -/
def beginRun (config : RunConfig) : M E RunContext := do
  let invocationStarted ← ask E.now
  let runId ← ask E.nextRunId
  let control ← ActiveControl.new config.control invocationStarted
  emit config.events (.runStarted runId config.maxSteps)
  pure
    { runId
      maxSteps := config.maxSteps
      absoluteStepLimit := 0
      events := config.events
      control
      hops := config.hops }

/-- The path of the first node of a frontier. -/
def initialPath (nav : Nav E ι) : List ι → M E (Option NodePath)
  | [] => pure none
  | first :: _ => (fun node => some node.path) <$> nav.nodeAt first

/-- The loop state an invocation starts from. -/
def openInvocation (nav : Nav E ι) (initialState : E.State) (config : RunConfig)
    (checkpoints : RuntimeCheckpoint) : M E (RunContext × LoopState E ι) := do
  let ctx ← beginRun config
  let (frontier, boundaries) ← nav.start ctx initialState
  boundaries.forM fun boundary => emit ctx.events (boundary.event ctx.runId)
  let initialNode ← initialPath nav frontier
  controlRun ctx initialNode initialNode.isSome.toNat
  pure (ctx,
    { state := initialState
      steps := 0
      visitedNodes := []
      frontier
      superstep := 0
      resumeNode := none
      resumeValue := none
      checkpoints })

/-- Run a graph from its entry. -/
def invokeInternal (nav : Nav E ι) (initialState : E.State) (config : RunConfig)
    (checkpoints : RuntimeCheckpoint) : M E (ExecutionOutcome E) := do
  let (ctx, ls) ← openInvocation nav initialState config checkpoints
  execute nav ctx true ls

end Execute

end GroupAgent.Core
