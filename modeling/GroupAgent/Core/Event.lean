import GroupAgent.Core.Error

/-!
# Lifecycle events

Model of `EventRetention` (`event.rs:13-19`), `EventConfig` (42-45, `is_enabled` 74-76),
`RunFailure` (101-270) and `GraphEvent` (277-394) of `crates/group-agent-core/src`, and of the
conversion of a run error into the classification its event carries
(`impl From<&GraphRunError> for RunFailure`, `runtime.rs`).

* An event is built only when somebody listens: the report retains it or a sink is set. That the
  closure which builds it may do work is kept where the runtime emits (`Machine.emitWith`).
* `RunFailure.ofError` forgets the sources of an error and keeps what it is about.

Out of scope: the sink itself, which is an answer of the environment to each event (`Env.onEvent`).
-/

namespace GroupAgent.Core

/-- Controls whether emitted events are retained in a successful run report. -/
inductive EventRetention where
  | all
  | none
  deriving DecidableEq, Repr

/-- Event delivery and successful-report retention for one invocation. -/
structure EventConfig where
  retention : EventRetention
  hasSink : Bool
  deriving DecidableEq, Repr

def EventConfig.isEnabled (config : EventConfig) : Bool :=
  config.retention == .all || config.hasSink

/-- A stable failure classification with execution context for observers. -/
inductive RunFailure where
  | cancelled (nodeId : Option NodePath) (step : Nat)
  | runTimedOut (timeout : Duration) (nodeId : Option NodePath) (step : Nat)
  | nodeTimedOut (timeout : Duration) (nodeId : NodePath) (step : Nat)
  | maxStepsExceeded (maxSteps : Nat) (nodeId : NodePath) (step : Nat)
  | nodeFailed (nodeId : NodePath) (step : Nat)
  | stateUpdateFailed (nodeId : NodePath) (step : Nat)
  | stateBatchUpdateFailed (nodeIds : List NodePath) (step : Nat)
  | snapshotFailed (threadId : ThreadId) (superstep step : Nat)
  | checkpointConflict (threadId : ThreadId) (superstep step : Nat)
      (expectedParent actualParent : Option CheckpointId)
  | checkpointIdConflict (threadId : ThreadId) (checkpointId : CheckpointId)
      (superstep step : Nat)
  | checkpointEncodeFailed (threadId : ThreadId) (superstep step : Nat)
  | checkpointSaveFailed (threadId : ThreadId) (superstep step : Nat)
  | checkpointLoadFailed (threadId : ThreadId) (checkpointId : Option CheckpointId)
  | checkpointNotFound (threadId : ThreadId) (checkpointId : Option CheckpointId)
  | resumeConflict (threadId : ThreadId) (checkpointId : CheckpointId)
      (latestCheckpointId : Option CheckpointId) (step : Nat)
  | branchNotFound (threadId : ThreadId) (branchId : BranchId) (step : Nat)
  | branchCreationFailed (threadId : ThreadId) (branchId : BranchId)
      (sourceCheckpointId : CheckpointId) (step : Nat)
  | branchCheckpointConflict (threadId : ThreadId) (branchId : BranchId) (superstep step : Nat)
      (expectedParent actualParent : Option CheckpointId)
  | checkpointIncompatible (threadId : ThreadId) (checkpointId : CheckpointId) (step : Nat)
      (reason : CheckpointIncompatibility)
  | restoreFailed (threadId : ThreadId) (checkpointId : CheckpointId) (superstep step : Nat)
  | interruptRequiresCheckpoint (interruptId : InterruptId) (nodeId : NodePath) (step : Nat)
  | unsupportedParallelInterrupt (interruptId : InterruptId) (nodeId : NodePath) (step : Nat)
  | missingResumeValue (threadId : ThreadId) (checkpointId : CheckpointId)
      (interruptId : InterruptId) (nodeId : NodePath) (step : Nat)
  | unexpectedResumeValue (threadId : ThreadId) (checkpointId : CheckpointId) (step : Nat)
  | replayInterruptUnsupported (sourceThreadId : ThreadId) (sourceCheckpointId : CheckpointId)
      (interruptId : InterruptId) (nodeId : NodePath) (step : Nat)
  | routeFailed (nodeId : NodePath) (step : Nat)
  | invalidRouteTarget (nodeId target : NodePath) (step : Nat)
  | emptyRouteTargets (nodeId : NodePath) (step : Nat)
  | duplicateRouteTarget (nodeId target : NodePath) (step : Nat)
  deriving DecidableEq, Repr

/-- The classification of a run error: its run identifier and source error are left out. -/
def RunFailure.ofError : GraphRunError → RunFailure
  | .cancelled _ nodeId step => .cancelled nodeId step
  | .runTimedOut _ timeout nodeId step => .runTimedOut timeout nodeId step
  | .nodeTimedOut _ timeout nodeId step => .nodeTimedOut timeout nodeId step
  | .maxStepsExceeded maxSteps nodeId step => .maxStepsExceeded maxSteps nodeId step
  | .nodeFailed nodeId step _ => .nodeFailed nodeId step
  | .stateUpdateFailed nodeId step _ => .stateUpdateFailed nodeId step
  | .stateBatchUpdateFailed nodeIds step _ => .stateBatchUpdateFailed nodeIds step
  | .snapshotFailed _ threadId superstep step _ => .snapshotFailed threadId superstep step
  | .checkpointConflict _ threadId superstep step expected actual =>
    .checkpointConflict threadId superstep step expected actual
  | .checkpointIdConflict _ threadId checkpointId superstep step =>
    .checkpointIdConflict threadId checkpointId superstep step
  | .checkpointEncodeFailed _ threadId superstep step _ =>
    .checkpointEncodeFailed threadId superstep step
  | .checkpointSaveFailed _ threadId superstep step _ =>
    .checkpointSaveFailed threadId superstep step
  | .checkpointLoadFailed _ threadId checkpointId _ => .checkpointLoadFailed threadId checkpointId
  | .checkpointNotFound _ threadId checkpointId => .checkpointNotFound threadId checkpointId
  | .resumeConflict _ threadId checkpointId latest step =>
    .resumeConflict threadId checkpointId latest step
  | .branchNotFound _ threadId branchId step => .branchNotFound threadId branchId step
  | .branchCreationFailed _ threadId branchId source step _ =>
    .branchCreationFailed threadId branchId source step
  | .branchCheckpointConflict _ threadId branchId superstep step expected actual =>
    .branchCheckpointConflict threadId branchId superstep step expected actual
  | .checkpointIncompatible _ threadId checkpointId step reason =>
    .checkpointIncompatible threadId checkpointId step reason
  | .restoreFailed _ threadId checkpointId superstep step _ =>
    .restoreFailed threadId checkpointId superstep step
  | .interruptRequiresCheckpoint interruptId nodeId step =>
    .interruptRequiresCheckpoint interruptId nodeId step
  | .unsupportedParallelInterrupt interruptId nodeId step =>
    .unsupportedParallelInterrupt interruptId nodeId step
  | .missingResumeValue _ threadId checkpointId interruptId nodeId step =>
    .missingResumeValue threadId checkpointId interruptId nodeId step
  | .unexpectedResumeValue _ threadId checkpointId step =>
    .unexpectedResumeValue threadId checkpointId step
  | .replayInterruptUnsupported _ threadId checkpointId interruptId nodeId step =>
    .replayInterruptUnsupported threadId checkpointId interruptId nodeId step
  | .routeFailed nodeId step _ => .routeFailed nodeId step
  | .invalidRouteTarget nodeId target step => .invalidRouteTarget nodeId target step
  | .emptyRouteTargets nodeId step => .emptyRouteTargets nodeId step
  | .duplicateRouteTarget nodeId target step => .duplicateRouteTarget nodeId target step

/-- A lifecycle event of one run. -/
inductive GraphEvent where
  | runStarted (runId : RunId) (maxSteps : Nat)
  | runResumed (runId : RunId) (threadId : ThreadId) (checkpointId : CheckpointId)
      (step superstep : Nat)
  | branchResumed (runId : RunId) (threadId : ThreadId) (branchId : BranchId)
      (checkpointId : CheckpointId) (step superstep : Nat)
  | replayStarted (runId : RunId) (sourceThreadId : ThreadId) (sourceCheckpointId : CheckpointId)
      (step superstep : Nat)
  | forkStarted (runId : RunId) (sourceThreadId : ThreadId) (sourceCheckpointId : CheckpointId)
      (branchId : BranchId) (step superstep : Nat)
  | superstepStarted (runId : RunId) (superstep : Nat) (nodeIds : List NodePath)
  | nodeStarted (runId : RunId) (nodeId : NodePath) (step : Nat)
  | nodeInterrupted (runId : RunId) (interruptId : InterruptId) (nodeId : NodePath) (step : Nat)
  | nodeCompleted (runId : RunId) (nodeId : NodePath) (step : Nat)
  | stateUpdated (runId : RunId) (nodeId : NodePath) (step : Nat)
  | routeSelected (runId : RunId) (source target : NodePath) (step : Nat)
  | routesSelected (runId : RunId) (source : NodePath) (targets : List NodePath) (step : Nat)
  | superstepCompleted (runId : RunId) (superstep : Nat)
  | subgraphStarted (runId : RunId) (graphPath : GraphPath)
  | subgraphCompleted (runId : RunId) (graphPath : GraphPath)
  | checkpointSaved (runId : RunId) (checkpointId : CheckpointId) (threadId : ThreadId)
      (superstep step : Nat) (completed : Bool)
  | runInterrupted (runId : RunId) (interruptId : InterruptId) (checkpointId : CheckpointId)
      (threadId : ThreadId) (nodeId : NodePath) (superstep step : Nat)
  | runCompleted (runId : RunId) (steps : Nat)
  | runFailed (runId : RunId) (failure : RunFailure)
  deriving DecidableEq, Repr

end GroupAgent.Core
