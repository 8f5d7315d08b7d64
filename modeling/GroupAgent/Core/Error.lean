import GroupAgent.Core.Path

/-!
# Errors

Model of the errors of `crates/group-agent-core/src`: `GraphCompileError` (`error.rs:56-144`),
`CheckpointIncompatibility` (217-286) and `GraphRunError` (290-587) of `error.rs`,
`CheckpointWriteError` (`checkpoint.rs:551-585`), `CheckpointRecordError`
(`checkpoint_record.rs:94-107`), the codec errors (`checkpoint_codec.rs:96-243`) and
`TransitionError` (`transition.rs:31-36`). The builder's errors stand beside the builder.

* The message-and-source structs that one macro declares are one type `SourceError`.
* A boxed foreign error is kept as its text; the one error the runtime boxes itself, a failed
  reconstruction, is kept as it is, since a later reader downcasts it.
* Every error of a run names what it is about: the run, the node path, the step, the thread or the
  checkpoint. These are fields as in the source, in its order.

Out of scope: `Display`, `Debug` and `source` of the errors, which no modelled function reads.
-/

namespace GroupAgent.Core

/-- A configured duration, in nanoseconds. -/
abbrev Duration := Nat

/-- Why `compile` rejects a graph. -/
inductive GraphCompileError where
  | unknownNode (fromId toId nodeId : NodeId)
  | unknownConditionalSource (sourceNode : NodeId)
  | unknownConditionalTarget (sourceNode target : NodeId)
  | unknownConditionalFanOutSource (sourceNode : NodeId)
  | unknownConditionalFanOutTarget (sourceNode target : NodeId)
  | conditionalFanOutTargetsSubgraph (sourceNode target : NodeId)
  | unknownFanOutSource (sourceNode : NodeId)
  | unknownFanOutTarget (sourceNode target : NodeId)
  | missingStartEdge
  | startHasIncoming (fromId : NodeId)
  | startHasConditionalEdge
  | startHasConditionalFanOut
  | startHasFanOut
  | endHasOutgoing (toId : NodeId)
  | endHasConditionalEdge
  | endHasConditionalFanOut
  | endHasFanOut
  | multipleStartEdges (count : Nat)
  | multipleOutgoingEdges (nodeId : NodeId) (count : Nat)
  | mixedOutgoingEdgeKinds (nodeId : NodeId)
  | missingOutgoingEdge (nodeId : NodeId)
  | unreachableNode (nodeId : NodeId)
  | noReachableEnd
  | subgraphInParallelFrontier (nodeId : NodeId)
  | duplicateNodePath (nodePath : NodePath)
  deriving DecidableEq, Repr

/-! ## Checkpoint records and codecs -/

/-- Invalid checkpoint record structure. -/
inductive CheckpointRecordError where
  | completedWithFrontier
  | incompleteWithoutFrontier
  | completedInterrupt
  | invalidInterruptFrontier (interruptNode : NodePath)
  deriving DecidableEq, Repr

/-- Version of the storage-neutral checkpoint record layout. -/
structure CheckpointFormatVersion where
  value : UInt32
  deriving DecidableEq, Repr

/-- Record format emitted by this release. -/
def CheckpointFormatVersion.CURRENT : CheckpointFormatVersion := ⟨1⟩

/-- Stable schema and encoding identity attached to one encoded checkpoint value. -/
structure CodecDescriptor where
  schema : String
  schemaVersion : UInt32
  encoding : String
  deriving DecidableEq, Repr

/-- A user codec failure. -/
inductive CheckpointCodecError where
  | unsupportedInterruptPayload (actualType : String)
  | failed (message : String)
  | invalidRecord (message : String) (source : CheckpointRecordError)
  deriving DecidableEq, Repr

/-- Encoding failed before a checkpoint entered storage. -/
inductive CheckpointEncodingError where
  | snapshot (source : CheckpointCodecError)
  | interrupt (source : CheckpointCodecError)
  deriving DecidableEq, Repr

/-- A stored record could not be reconstructed as a typed checkpoint. -/
inductive CheckpointReconstructionError where
  | formatVersion (actual supported : CheckpointFormatVersion)
  | snapshotEncoding (expected actual : String)
  | snapshotSchema (expected actual : CodecDescriptor)
  | interruptEncoding (expected actual : String)
  | counterOutOfRange (field : String) (value : UInt64)
  | snapshot (source : CheckpointCodecError)
  | interrupt (source : CheckpointCodecError)
  deriving DecidableEq, Repr

/-! ## Errors with a source -/

mutual

/-- A boxed source error. -/
inductive BoxedError where
  | foreign (text : String)
  | checkpointWrite (error : CheckpointWriteError)
  | reconstruction (error : CheckpointReconstructionError)

/-- A framework-level message with an optional source: `NodeError`, `StateError`, `RouteError`,
`SnapshotError` and `CheckpointerError`. -/
inductive SourceError where
  | message (message : String)
  | withSource (message : String) (source : BoxedError)

/-- A failure to atomically write a checkpoint. -/
inductive CheckpointWriteError where
  | conflict (expectedParent actualParent : Option CheckpointId)
  | idempotencyConflict (checkpointId : CheckpointId)
  | branchAlreadyExists (branchId : BranchId)
  | branchNotFound (branchId : BranchId)
  | branchSourceNotFound (branchId : BranchId) (checkpointId : CheckpointId)
  | branchUnsupported
  | encoding (source : CheckpointEncodingError)
  | failed (source : SourceError)

end

/-! ## Running -/

/-- Why a transition has no result. -/
inductive TransitionError where
  | router (source : SourceError)
  | invalidTarget (target : NodeId)
  | emptyTargets
  | duplicateTarget (target : NodeId)

/-- Why a checkpoint cannot be resumed by a compiled graph. -/
inductive CheckpointIncompatibility where
  | unversionedCheckpoint
  | unversionedGraph
  | graphVersionMismatch (checkpoint compiled : GraphVersion)
  | threadMismatch (actualThread : ThreadId)
  | checkpointIdMismatch (requested actual : CheckpointId)
  | unknownFrontierNode (nodeId : NodePath)
  | duplicateFrontierNode (nodeId : NodePath)
  | nonCanonicalFrontierOrder (previous current : NodePath)
  | mixedFrontierNamespace (expected actual : GraphPath) (nodeId : NodePath)
  | startInFrontier
  | endInFrontier
  | completedWithFrontier
  | incompleteWithoutFrontier
  | completedInterrupt
  | invalidInterruptFrontier (interruptNode : NodePath) (frontier : List NodePath)
  deriving DecidableEq, Repr

/-- An error raised during graph execution. -/
inductive GraphRunError where
  | cancelled (runId : RunId) (nodeId : Option NodePath) (step : Nat)
  | runTimedOut (runId : RunId) (timeout : Duration) (nodeId : Option NodePath) (step : Nat)
  | nodeTimedOut (runId : RunId) (timeout : Duration) (nodeId : NodePath) (step : Nat)
  | maxStepsExceeded (maxSteps : Nat) (nodeId : NodePath) (step : Nat)
  | nodeFailed (nodeId : NodePath) (step : Nat) (source : SourceError)
  | stateUpdateFailed (nodeId : NodePath) (step : Nat) (source : SourceError)
  | stateBatchUpdateFailed (nodeIds : List NodePath) (step : Nat) (source : SourceError)
  | snapshotFailed (runId : RunId) (threadId : ThreadId) (superstep step : Nat)
      (source : SourceError)
  | checkpointConflict (runId : RunId) (threadId : ThreadId) (superstep step : Nat)
      (expectedParent actualParent : Option CheckpointId)
  | checkpointIdConflict (runId : RunId) (threadId : ThreadId) (checkpointId : CheckpointId)
      (superstep step : Nat)
  | checkpointEncodeFailed (runId : RunId) (threadId : ThreadId) (superstep step : Nat)
      (source : CheckpointEncodingError)
  | checkpointSaveFailed (runId : RunId) (threadId : ThreadId) (superstep step : Nat)
      (source : SourceError)
  | checkpointLoadFailed (runId : RunId) (threadId : ThreadId)
      (checkpointId : Option CheckpointId) (source : SourceError)
  | checkpointNotFound (runId : RunId) (threadId : ThreadId) (checkpointId : Option CheckpointId)
  | resumeConflict (runId : RunId) (threadId : ThreadId) (checkpointId : CheckpointId)
      (latestCheckpointId : Option CheckpointId) (step : Nat)
  | branchNotFound (runId : RunId) (threadId : ThreadId) (branchId : BranchId) (step : Nat)
  | branchCreationFailed (runId : RunId) (threadId : ThreadId) (branchId : BranchId)
      (sourceCheckpointId : CheckpointId) (step : Nat) (source : CheckpointWriteError)
  | branchCheckpointConflict (runId : RunId) (threadId : ThreadId) (branchId : BranchId)
      (superstep step : Nat) (expectedParent actualParent : Option CheckpointId)
  | checkpointIncompatible (runId : RunId) (threadId : ThreadId) (checkpointId : CheckpointId)
      (step : Nat) (reason : CheckpointIncompatibility)
  | restoreFailed (runId : RunId) (threadId : ThreadId) (checkpointId : CheckpointId)
      (superstep step : Nat) (source : SourceError)
  | interruptRequiresCheckpoint (interruptId : InterruptId) (nodeId : NodePath) (step : Nat)
  | unsupportedParallelInterrupt (interruptId : InterruptId) (nodeId : NodePath) (step : Nat)
  | missingResumeValue (runId : RunId) (threadId : ThreadId) (checkpointId : CheckpointId)
      (interruptId : InterruptId) (nodeId : NodePath) (step : Nat)
  | unexpectedResumeValue (runId : RunId) (threadId : ThreadId) (checkpointId : CheckpointId)
      (step : Nat)
  | replayInterruptUnsupported (runId : RunId) (sourceThreadId : ThreadId)
      (sourceCheckpointId : CheckpointId) (interruptId : InterruptId) (nodeId : NodePath)
      (step : Nat)
  | routeFailed (nodeId : NodePath) (step : Nat) (source : SourceError)
  | invalidRouteTarget (nodeId target : NodePath) (step : Nat)
  | emptyRouteTargets (nodeId : NodePath) (step : Nat)
  | duplicateRouteTarget (nodeId target : NodePath) (step : Nat)

end GroupAgent.Core
