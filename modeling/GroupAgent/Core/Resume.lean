import GroupAgent.Core.Runtime

/-!
# Resuming, replaying and forking

Model of `invoke_with_control` (`runtime.rs:286-308`), `invoke_with_checkpoint` (1718-1734),
`resume_with_state_initializer` (1069-1327), `replay` (1334-1518), `fork` (1524-1715) and
`validate_and_resolve_checkpoint_frontier` (1736-1822) of `crates/group-agent-core/src/runtime.rs`,
with their configurations (`checkpoint.rs:732-770`, 921-964, 1220-1229).

* The three calls check a loaded checkpoint the same way; what they share is one definition each
  here. A resume checks in the order of the source: its identity, its thread, that it is still the
  head, its frontier, the resume value, and last that the state restores.
* Validation compares the versions, the completion flag and the interrupt with the frontier, then
  goes through its paths: they name real nodes without repetition, all of one namespace, in
  increasing order. What comes of it are the indices.
* A fork creates its branch before its run begins; a replay has no checkpointer to write to.
* `resume` is the call without an initializer, and `invoke`, `invoke_with_config` and
  `invoke_with_events` are `invoke_with_control` without the controls or events they lack.

Out of scope: the reports' accessors, and the parts structures, which only take a configuration
apart.
-/

namespace GroupAgent.Core

open GroupAgent.Lib

variable {ν ρ : Type}

/-! ## Frontier validation -/

/-- Why a checkpoint frontier has no indices. -/
inductive FrontierStop where
  | incompatible (reason : CheckpointIncompatibility)
  | panic (panic : Panic)

namespace CompiledGraph

variable {τ π : Type}

/-- The versions of checkpoint and graph are both there and equal. -/
def checkVersion (g : CompiledGraph ν ρ) (checkpoint : Checkpoint τ π) :
    Except CheckpointIncompatibility Unit :=
  match checkpoint.graphVersion, g.version with
  | none, _ => .error .unversionedCheckpoint
  | some _, none => .error .unversionedGraph
  | some checkpoint, some compiled =>
    if checkpoint ≠ compiled then .error (.graphVersionMismatch checkpoint compiled) else .ok ()

/-- Completion, interruption and the length of the frontier agree. -/
def checkCompletion (checkpoint : Checkpoint τ π) : Except CheckpointIncompatibility Unit :=
  if checkpoint.completed && !checkpoint.nextFrontier.isEmpty then .error .completedWithFrontier
  else if !checkpoint.completed && checkpoint.nextFrontier.isEmpty then
    .error .incompleteWithoutFrontier
  else if checkpoint.completed && checkpoint.interrupted then .error .completedInterrupt
  else
    match checkpoint.interrupt with
    | none => .ok ()
    | some interrupt =>
      if checkpoint.nextFrontier.length ≠ 1 ∨
          checkpoint.nextFrontier.head? ≠ some interrupt.nodePath then
        .error (.invalidInterruptFrontier interrupt.nodePath checkpoint.nextFrontier)
      else .ok ()

/-- The index of one persisted path. -/
def resolvePath (g : CompiledGraph ν ρ) (nodePath : NodePath) :
    Except CheckpointIncompatibility Nat :=
  if nodePath.leaf.isStart then .error .startInFrontier
  else if nodePath.leaf.isEnd then .error .endInFrontier
  else
    match g.nodePaths.lookup nodePath with
    | some index => .ok index
    | none => .error (.unknownFrontierNode nodePath)

def node' (g : CompiledGraph ν ρ) (index : Nat) :
    Except FrontierStop (CompiledNode ν ρ Nat) :=
  (g.node index).mapError .panic

/-- No index occurs twice. -/
def checkDistinct (g : CompiledGraph ν ρ) :
    List Nat → List Nat → Except FrontierStop Unit
  | _, [] => .ok ()
  | seen, index :: frontier =>
    if index ∈ seen then do
      let node ← g.node' index
      .error (.incompatible (.duplicateFrontierNode node.path))
    else g.checkDistinct (index :: seen) frontier

/-- Every node of the rest of a frontier lies in the namespace of its first. -/
def checkNamespace (g : CompiledGraph ν ρ) (expected : GraphPath) :
    List Nat → Except FrontierStop Unit
  | [] => .ok ()
  | index :: frontier => do
    let node ← g.node' index
    if node.graphPath ≠ expected then
      .error (.incompatible (.mixedFrontierNamespace expected node.graphPath node.path))
    else g.checkNamespace expected frontier

/-- Every node of a frontier lies in the namespace of the first. -/
def checkScope (g : CompiledGraph ν ρ) : List Nat → Except FrontierStop Unit
  | [] => .ok ()
  | first :: rest => do
    let node ← g.node' first
    g.checkNamespace node.graphPath rest

/-- Neighbouring indices do not decrease. -/
def checkOrder (g : CompiledGraph ν ρ) : List Nat → Except FrontierStop Unit
  | previous :: current :: frontier =>
    if current < previous then do
      let previous ← g.node' previous
      let current ← g.node' current
      .error (.incompatible (.nonCanonicalFrontierOrder previous.path current.path))
    else g.checkOrder (current :: frontier)
  | _ => .ok ()

/-- The indices of a loaded checkpoint's frontier, when the graph can continue from it. -/
def validateAndResolveCheckpointFrontier (g : CompiledGraph ν ρ) (checkpoint : Checkpoint τ π) :
    Except FrontierStop (List Nat) := do
  (g.checkVersion checkpoint).mapError .incompatible
  (checkCompletion checkpoint).mapError .incompatible
  let frontier ← (checkpoint.nextFrontier.mapM g.resolvePath).mapError .incompatible
  g.checkDistinct [] frontier
  g.checkScope frontier
  g.checkOrder frontier
  pure frontier

end CompiledGraph

/-! ## Loading -/

section Load

variable {E : Env ν ρ}

/-- Wait for a read of the checkpointer under the run's controls. -/
def load {α β : Type} (ctx : RunContext) (step : Nat)
    (read : Future E.World (Except SourceError β)) (finish : Except SourceError β →
      Except GraphRunError α) : M E α := do
  let result ← awaitRunBoundary ctx step
    (Task.call (pure (.ok ())) (fun _ => read) (fun _ _ => pure ()) (fun _ => finish))
  orFail ctx result

/-- Load one checkpoint by identifier. -/
def loadExact (ctx : RunContext) (threadId : ThreadId) (checkpointId : CheckpointId) :
    M E (Checkpoint E.Snapshot E.Value) :=
  load ctx 0 (E.get threadId checkpointId) fun answer =>
    match answer with
    | .error source =>
      .error (.checkpointLoadFailed ctx.runId threadId (some checkpointId) source)
    | .ok none => .error (.checkpointNotFound ctx.runId threadId (some checkpointId))
    | .ok (some checkpoint) => .ok checkpoint

/-- The checkpoint is the one requested, of the thread it was requested from. -/
def checkIdentity (ctx : RunContext) (threadId : ThreadId) (requested : Option CheckpointId)
    (checkpoint : Checkpoint E.Snapshot E.Value) : M E Unit := do
  requested.toList.forM fun requested =>
    if checkpoint.id ≠ requested then
      fail ctx (.checkpointIncompatible ctx.runId threadId requested checkpoint.step
        (.checkpointIdMismatch requested checkpoint.id))
    else pure ()
  if checkpoint.threadId ≠ threadId then
    fail ctx (.checkpointIncompatible ctx.runId threadId checkpoint.id checkpoint.step
      (.threadMismatch checkpoint.threadId))
  else pure ()

/-- The frontier of a checkpoint, or the incompatibility found. -/
def compatibleFrontier (g : CompiledGraph ν ρ) (ctx : RunContext) (threadId : ThreadId)
    (checkpoint : Checkpoint E.Snapshot E.Value) : M E (List Nat) :=
  match g.validateAndResolveCheckpointFrontier checkpoint with
  | .ok frontier => pure frontier
  | .error (.incompatible reason) =>
    fail ctx (.checkpointIncompatible ctx.runId threadId checkpoint.id checkpoint.step reason)
  | .error (.panic p) => panic p

/-- The frontier to continue from, and the node a resume value is for. -/
def resolveCheckpoint (g : CompiledGraph ν ρ) (ctx : RunContext) (threadId : ThreadId)
    (checkpoint : Checkpoint E.Snapshot E.Value) (resumeValue : Option E.Value) :
    M E (List Nat × Option Nat) := do
  let frontier ← compatibleFrontier g ctx threadId checkpoint
  match checkpoint.interrupt, resumeValue with
  | some _, some _ => pure (frontier, frontier.head?)
  | some interrupt, none =>
    fail ctx (.missingResumeValue ctx.runId threadId checkpoint.id interrupt.id interrupt.nodePath
      checkpoint.step)
  | none, some _ =>
    fail ctx (.unexpectedResumeValue ctx.runId threadId checkpoint.id checkpoint.step)
  | none, none => pure (frontier, none)

/-- The restored or initialized state, or the failure it is reported as. -/
def restored (ctx : RunContext) (threadId : ThreadId) (checkpoint : Checkpoint E.Snapshot E.Value)
    (result : Except SourceError E.State) : M E E.State :=
  orFail ctx (result.mapError fun source =>
    .restoreFailed ctx.runId threadId checkpoint.id checkpoint.superstep checkpoint.step source)

/-- Restore the state between two control points. -/
def restoreState (ctx : RunContext) (threadId : ThreadId)
    (checkpoint : Checkpoint E.Snapshot E.Value) : M E E.State := do
  controlRun ctx none checkpoint.step
  let state ← restored ctx threadId checkpoint (E.restore checkpoint.snapshot)
  controlRun ctx none checkpoint.step
  pure state

/-- Report the subgraphs a restored frontier lies in, outermost first. -/
def reportNamespaces (g : CompiledGraph ν ρ) (ctx : RunContext) (frontier : List Nat) :
    M E Unit :=
  match frontier with
  | [] => pure ()
  | first :: _ => do
    let node ← g.nodeAt first
    node.graphPath.prefixes.forM fun graphPath =>
      emit ctx.events (.subgraphStarted ctx.runId graphPath)

/-- The loop state a checkpoint is continued from. -/
def restoredLoop (checkpoint : Checkpoint E.Snapshot E.Value) (state : E.State)
    (frontier : List Nat) (resumeNode : Option Nat) (resumeValue : Option E.Value)
    (checkpoints : RuntimeCheckpoint) : LoopState E Nat where
  state := state
  steps := checkpoint.step
  visitedNodes := []
  frontier := frontier
  superstep := checkpoint.superstep
  resumeNode := resumeNode
  resumeValue := resumeValue
  checkpoints := checkpoints

/-! ## Resume -/

/-- Selects the checkpoint loaded by a resume invocation. -/
inductive ResumeTarget where
  | latest
  | checkpoint (checkpointId : CheckpointId)
  deriving DecidableEq, Repr

structure ResumeConfig (V : Type) where
  threadId : ThreadId
  target : ResumeTarget
  checkpointPolicy : CheckpointPolicy
  run : RunConfig
  resumeValue : Option V
  branchId : Option BranchId

def ResumeTarget.requested : ResumeTarget → Option CheckpointId
  | .latest => none
  | .checkpoint checkpointId => some checkpointId

/-- The head of the thread, or of the branch. -/
def readHead (threadId : ThreadId) (branchId : Option BranchId) :
    Future E.World (Except SourceError (Option (Checkpoint E.Snapshot E.Value))) :=
  match branchId with
  | some branchId => E.branchHead threadId branchId
  | none => E.latest threadId

def loadTarget (ctx : RunContext) (config : ResumeConfig E.Value) :
    M E (Checkpoint E.Snapshot E.Value) :=
  match config.target with
  | .checkpoint checkpointId => loadExact ctx config.threadId checkpointId
  | .latest =>
    load ctx 0 (readHead config.threadId config.branchId) fun answer =>
      match answer with
      | .error source => .error (.checkpointLoadFailed ctx.runId config.threadId none source)
      | .ok none =>
        match config.branchId with
        | some branchId => .error (.branchNotFound ctx.runId config.threadId branchId 0)
        | none => .error (.checkpointNotFound ctx.runId config.threadId none)
      | .ok (some checkpoint) => .ok checkpoint

/-- A checkpoint selected by identifier must still be the head. -/
def checkLatest (ctx : RunContext) (config : ResumeConfig E.Value)
    (checkpoint : Checkpoint E.Snapshot E.Value) : M E Unit :=
  match config.target with
  | .latest => pure ()
  | .checkpoint _ => do
    let latest ← load ctx checkpoint.step (readHead config.threadId config.branchId) fun answer =>
      match answer with
      | .error source =>
        .error (.checkpointLoadFailed ctx.runId config.threadId (some checkpoint.id) source)
      | .ok latest => .ok latest
    match latest, config.branchId with
    | none, some branchId =>
      fail ctx (.branchNotFound ctx.runId config.threadId branchId checkpoint.step)
    | _, _ =>
      let latestCheckpointId := latest.map Checkpoint.id
      if latestCheckpointId ≠ some checkpoint.id then
        fail ctx (.resumeConflict ctx.runId config.threadId checkpoint.id latestCheckpointId
          checkpoint.step)
      else pure ()

/-- Saves go on from the checkpoint loaded. -/
def ResumeConfig.checkpointing {V : Type} (config : ResumeConfig V) (g : CompiledGraph ν ρ)
    (loaded : CheckpointId) : RuntimeCheckpoint :=
  .enabled
    { threadId := config.threadId
      policy := config.checkpointPolicy
      branchId := config.branchId
      expectedParent := some loaded
      graphVersion := g.version }

/-- Begin a resume and load its checkpoint. -/
def fetchResume (config : ResumeConfig E.Value) :
    M E (RunContext × Checkpoint E.Snapshot E.Value) := do
  let ctx ← beginRun config.run
  controlRun ctx none 0
  let checkpoint ← loadTarget ctx config
  checkIdentity ctx config.threadId config.target.requested checkpoint
  checkLatest ctx config checkpoint
  pure (ctx, checkpoint)

/-- Load and restore the checkpoint to resume, and initialize the state's transient resources. -/
def openResume (g : CompiledGraph ν ρ) (config : ResumeConfig E.Value)
    (initializer : E.State → Except SourceError E.State) :
    M E (RunContext × LoopState E Nat) := do
  let (ctx, checkpoint) ← fetchResume config
  let (frontier, resumeNode) ←
    resolveCheckpoint g ctx config.threadId checkpoint config.resumeValue
  let state ← restoreState ctx config.threadId checkpoint
  let state ← restored ctx config.threadId checkpoint (initializer state)
  controlRun ctx none checkpoint.step
  emit ctx.events (.runResumed ctx.runId config.threadId checkpoint.id checkpoint.step
    checkpoint.superstep)
  config.branchId.toList.forM fun branchId =>
    emit ctx.events (.branchResumed ctx.runId config.threadId branchId checkpoint.id
      checkpoint.step checkpoint.superstep)
  reportNamespaces g ctx frontier
  pure (ctx, restoredLoop checkpoint state frontier resumeNode config.resumeValue
    (config.checkpointing g checkpoint.id))

/-- Restore a checkpoint and run on from it. -/
def resumeWithStateInitializer (g : CompiledGraph ν ρ) (config : ResumeConfig E.Value)
    (initializer : E.State → Except SourceError E.State) : M E (ExecutionOutcome E) := do
  let (ctx, ls) ← openResume g config initializer
  execute g.nav ctx false ls

/-! ## Replay -/

structure ReplayConfig (V : Type) where
  threadId : ThreadId
  checkpointId : CheckpointId
  run : RunConfig
  resumeValue : Option V

/-- The completed result of a read-only historical replay. -/
structure ReplayReport (E : Env ν ρ) where
  sourceThreadId : ThreadId
  sourceCheckpointId : CheckpointId
  sourceStep : Nat
  sourceSuperstep : Nat
  run : RunReport E

/-- A checkpoint loaded by its identifier, ready to be executed from. -/
structure Historical (E : Env ν ρ) where
  ctx : RunContext
  checkpoint : Checkpoint E.Snapshot E.Value
  frontier : List Nat
  resumeNode : Option Nat
  state : E.State

/-- Begin a replay or a fork and load its checkpoint. -/
def fetchHistorical (run : RunConfig) (threadId : ThreadId) (checkpointId : CheckpointId) :
    M E (RunContext × Checkpoint E.Snapshot E.Value) := do
  let ctx ← beginRun run
  controlRun ctx none 0
  let checkpoint ← loadExact ctx threadId checkpointId
  checkIdentity ctx threadId (some checkpointId) checkpoint
  pure (ctx, checkpoint)

/-- Load and restore one exact historical checkpoint. -/
def loadHistorical (g : CompiledGraph ν ρ) (run : RunConfig) (threadId : ThreadId)
    (checkpointId : CheckpointId) (resumeValue : Option E.Value) : M E (Historical E) := do
  let (ctx, checkpoint) ← fetchHistorical run threadId checkpointId
  let (frontier, resumeNode) ← resolveCheckpoint g ctx threadId checkpoint resumeValue
  let state ← restoreState ctx threadId checkpoint
  pure { ctx, checkpoint, frontier, resumeNode, state }

/-- Report the start of an execution from a historical checkpoint, and hand over its loop state. -/
def Historical.start (g : CompiledGraph ν ρ) (h : Historical E) (event : GraphEvent)
    (resumeValue : Option E.Value) (checkpoints : RuntimeCheckpoint) :
    M E (RunContext × LoopState E Nat) := do
  emit h.ctx.events event
  reportNamespaces g h.ctx h.frontier
  pure (h.ctx,
    restoredLoop h.checkpoint h.state h.frontier h.resumeNode resumeValue checkpoints)

/-- Load and restore the checkpoint to replay. -/
def openReplay (g : CompiledGraph ν ρ) (config : ReplayConfig E.Value) :
    M E (RunContext × LoopState E Nat) := do
  let h ← loadHistorical g config.run config.threadId config.checkpointId config.resumeValue
  h.start g
    (.replayStarted h.ctx.runId config.threadId config.checkpointId h.checkpoint.step
      h.checkpoint.superstep)
    config.resumeValue (.readOnlyReplay config.threadId config.checkpointId)

/-- Re-execute from one exact historical checkpoint without writing lineage. The loop starts at the
counters of the checkpoint. -/
def replay (g : CompiledGraph ν ρ) (config : ReplayConfig E.Value) : M E (ReplayReport E) := do
  let (ctx, ls) ← openReplay g config
  let outcome ← execute g.nav ctx false ls
  match outcome with
  | .completed run =>
    pure
      { sourceThreadId := config.threadId
        sourceCheckpointId := config.checkpointId
        sourceStep := ls.steps
        sourceSuperstep := ls.superstep
        run }
  | .interrupted _ => panic (.missing "read-only replay rejects every node interrupt")

/-! ## Fork -/

structure ForkConfig (V : Type) where
  threadId : ThreadId
  checkpointId : CheckpointId
  branchId : BranchId
  checkpointPolicy : CheckpointPolicy
  run : RunConfig
  resumeValue : Option V

/-- The result of an explicit writable fork. -/
structure ForkReport (E : Env ν ρ) where
  branchId : BranchId
  sourceThreadId : ThreadId
  sourceCheckpointId : CheckpointId
  outcome : ExecutionOutcome E

/-- Create the branch at the checkpoint. -/
def createBranch (ctx : RunContext) (config : ForkConfig E.Value) (step : Nat) : M E Unit := do
  let result ← awaitRunBoundary ctx step
    (Task.call (pure (.ok ()))
      (fun _ => E.createBranch config.threadId config.branchId config.checkpointId)
      (fun _ answer =>
        record (.createBranch config.threadId config.branchId config.checkpointId answer))
      (fun _ answer =>
        match answer with
        | .ok () => .ok ()
        | .error source =>
          .error (.branchCreationFailed ctx.runId config.threadId config.branchId
            config.checkpointId step source)))
  orFail ctx result

/-- Saves go to the new branch, on from its source. -/
def ForkConfig.checkpointing {V : Type} (config : ForkConfig V) (g : CompiledGraph ν ρ) :
    RuntimeCheckpoint :=
  .enabled
    { threadId := config.threadId
      policy := config.checkpointPolicy
      branchId := some config.branchId
      expectedParent := some config.checkpointId
      graphVersion := g.version }

/-- Load and restore the checkpoint to fork, and create the branch. -/
def openFork (g : CompiledGraph ν ρ) (config : ForkConfig E.Value) :
    M E (RunContext × LoopState E Nat) := do
  let h ← loadHistorical g config.run config.threadId config.checkpointId config.resumeValue
  createBranch h.ctx config h.checkpoint.step
  h.start g
    (.forkStarted h.ctx.runId config.threadId config.checkpointId config.branchId
      h.checkpoint.step h.checkpoint.superstep)
    config.resumeValue (config.checkpointing g)

/-- Create an explicit branch from one exact historical checkpoint and run it. -/
def fork (g : CompiledGraph ν ρ) (config : ForkConfig E.Value) : M E (ForkReport E) := do
  let (ctx, ls) ← openFork g config
  let outcome ← execute g.nav ctx false ls
  pure
    { branchId := config.branchId
      sourceThreadId := config.threadId
      sourceCheckpointId := config.checkpointId
      outcome }

/-! ## Invocations -/

/-- Invoke without checkpointing; such a run cannot end suspended. -/
def invokeWithControl (g : CompiledGraph ν ρ) (initialState : E.State) (config : RunConfig) :
    M E (RunReport E) := do
  match ← invokeInternal g.nav initialState config .disabled with
  | .completed report => pure report
  | .interrupted _ =>
    panic (.missing "checkpoint-disabled invocation cannot return an interrupt outcome")

structure CheckpointConfig where
  threadId : ThreadId
  policy : CheckpointPolicy
  expectedParent : Option CheckpointId
  branchId : Option BranchId
  deriving DecidableEq, Repr

def CheckpointConfig.checkpointing (config : CheckpointConfig) (g : CompiledGraph ν ρ) :
    RuntimeCheckpoint :=
  .enabled
    { threadId := config.threadId
      policy := config.policy
      branchId := config.branchId
      expectedParent := config.expectedParent
      graphVersion := g.version }

/-- Invoke with checkpointing and return completion or saved suspension. -/
def invokeWithCheckpoint (g : CompiledGraph ν ρ) (initialState : E.State) (config : RunConfig)
    (checkpoints : CheckpointConfig) : M E (ExecutionOutcome E) :=
  invokeInternal g.nav initialState config (checkpoints.checkpointing g)

end Load

end GroupAgent.Core
