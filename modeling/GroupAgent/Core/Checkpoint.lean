import GroupAgent.Core.Error
import Mathlib.Algebra.GroupWithZero.Nat

/-!
# Checkpoints, requests and records

Model of the data and the conversions of `crates/group-agent-core/src`: `Checkpoint`
(`checkpoint.rs:127-142`, `from_record` 152-228), `CheckpointRequest` (316-331, `to_record`
457-527, `into_checkpoint` 531-545), `CheckpointRecord` (`checkpoint_record.rs:111-124`,
`try_from_parts` 128-160) and `CheckpointCodec` (`checkpoint_codec.rs:147-180`).

* `τ` is the snapshot type and `π` the type of interrupt payloads, which the source erases
  (`Arc<dyn Any>`).
* Counters are `usize` on a 64-bit target. In a request and in a checkpoint they are `Nat`; in a
  record they are the fixed-width `u64` of the source, and both conversions check the range.
* A `CheckpointRecord` carries the outcome of the checks `try_from_parts` makes, so an ill-formed
  record cannot be built: a completed record has an empty frontier and no interrupt, an incomplete
  one a nonempty frontier, an interrupt stands at the one node of the frontier, and the format is
  the current one.
* A codec is four functions with their descriptors. What it answers is arbitrary; that decoding
  inverts encoding is a hypothesis of the statements that need it.

Results:
* `tryFromParts_parts`: a record that was built has the parts it was built from. `defect` is the
  first check they fail.

Out of scope: the accessors and builder methods of the source, which the fields stand for.
-/

namespace GroupAgent.Core

/-- The largest `usize` of a 64-bit target. -/
def usizeMax : Nat := 2 ^ 64 - 1

/-- Storage-neutral bytes with explicit schema and encoding identity. -/
structure EncodedValue where
  descriptor : CodecDescriptor
  bytes : List UInt8
  deriving DecidableEq, Repr

/-! ## Typed checkpoints -/

/-- A node suspension as a checkpoint keeps it. -/
structure CheckpointInterrupt (π : Type) where
  id : InterruptId
  nodePath : NodePath
  payload : π
  deriving DecidableEq, Repr

/-- Immutable completed, resumable, or interrupted checkpoint data. -/
structure Checkpoint (τ π : Type) where
  id : CheckpointId
  threadId : ThreadId
  runId : RunId
  parentId : Option CheckpointId
  graphVersion : Option GraphVersion
  superstep : Nat
  step : Nat
  snapshot : τ
  nextFrontier : List NodePath
  completed : Bool
  interrupt : Option (CheckpointInterrupt π)
  deriving DecidableEq, Repr

def Checkpoint.interrupted {τ π : Type} (c : Checkpoint τ π) : Bool := c.interrupt.isSome

structure CheckpointLineage where
  checkpointId : CheckpointId
  expectedParent : Option CheckpointId
  graphVersion : Option GraphVersion
  threadId : ThreadId
  runId : RunId
  deriving DecidableEq, Repr

/-- A checkpoint write prepared by the runtime at a committed or interrupt boundary. -/
structure CheckpointRequest (τ π : Type) extends CheckpointLineage where
  superstep : Nat
  step : Nat
  snapshot : τ
  nextFrontier : List NodePath
  completed : Bool
  interrupt : Option (CheckpointInterrupt π)
  deriving DecidableEq, Repr

/-- The typed checkpoint of an accepted request. -/
def CheckpointRequest.intoCheckpoint {τ π : Type} (r : CheckpointRequest τ π) :
    Checkpoint τ π where
  id := r.checkpointId
  threadId := r.threadId
  runId := r.runId
  parentId := r.expectedParent
  graphVersion := r.graphVersion
  superstep := r.superstep
  step := r.step
  snapshot := r.snapshot
  nextFrontier := r.nextFrontier
  completed := r.completed
  interrupt := r.interrupt

/-! ## Records -/

/-- Storage-neutral metadata for one interrupted checkpoint. -/
structure CheckpointRecordInterrupt where
  id : InterruptId
  nodePath : NodePath
  payload : EncodedValue
  deriving DecidableEq, Repr

/-- The fields of one storage-neutral checkpoint record. -/
structure CheckpointRecordParts where
  formatVersion : CheckpointFormatVersion
  checkpointId : CheckpointId
  threadId : ThreadId
  runId : RunId
  parentId : Option CheckpointId
  graphVersion : Option GraphVersion
  superstep : UInt64
  step : UInt64
  snapshot : EncodedValue
  nextFrontier : List NodePath
  completed : Bool
  interrupt : Option CheckpointRecordInterrupt
  deriving DecidableEq, Repr

/-- The first structural defect of record fields. -/
def CheckpointRecordParts.defect (p : CheckpointRecordParts) : Option CheckpointRecordError :=
  if p.completed && !p.nextFrontier.isEmpty then some .completedWithFrontier
  else if !p.completed && p.nextFrontier.isEmpty then some .incompleteWithoutFrontier
  else if p.completed && p.interrupt.isSome then some .completedInterrupt
  else
    match p.interrupt with
    | none => none
    | some interrupt =>
      if p.nextFrontier.length ≠ 1 ∨ p.nextFrontier.head? ≠ some interrupt.nodePath then
        some (.invalidInterruptFrontier interrupt.nodePath)
      else none

/-- Immutable storage-neutral checkpoint data. -/
structure CheckpointRecord extends CheckpointRecordParts where
  sound : toCheckpointRecordParts.defect = none
  deriving DecidableEq, Repr

/-- Validate and reconstruct a record from storage fields. -/
def CheckpointRecord.tryFromParts (parts : CheckpointRecordParts) :
    Except CheckpointRecordError CheckpointRecord :=
  match h : parts.defect with
  | some error => .error error
  | none => .ok ⟨parts, h⟩

theorem tryFromParts_parts {parts : CheckpointRecordParts} {record : CheckpointRecord}
    (h : CheckpointRecord.tryFromParts parts = .ok record) :
    record.toCheckpointRecordParts = parts := by
  unfold CheckpointRecord.tryFromParts at h
  split at h
  · cases h
  · cases h
    rfl

/-! ## Codecs -/

/-- Encodes and decodes one snapshot type plus supported interrupt payloads. -/
structure CheckpointCodec (τ π : Type) where
  snapshotDescriptor : CodecDescriptor
  encodeSnapshot : τ → Except CheckpointCodecError (List UInt8)
  decodeSnapshot : List UInt8 → Except CheckpointCodecError τ
  encodeInterrupt : π → Except CheckpointCodecError EncodedValue
  decodeInterrupt : EncodedValue → Except CheckpointCodecError π

section Codec

variable {τ π : Type}

/-- Encode interrupt metadata; the payload must use the snapshot's encoding. -/
def CheckpointCodec.recordInterrupt (codec : CheckpointCodec τ π)
    (interrupt : CheckpointInterrupt π) : Except CheckpointCodecError CheckpointRecordInterrupt :=
  match codec.encodeInterrupt interrupt.payload with
  | .error error => .error error
  | .ok payload =>
    let actual := payload.descriptor.encoding
    let expected := codec.snapshotDescriptor.encoding
    if actual = expected then .ok ⟨interrupt.id, interrupt.nodePath, payload⟩
    else .error (.failed s!"interrupt encoding `{actual}` does not match codec encoding `{expected}`")

/-- A counter as the fixed-width value a record holds. -/
def durableCounter (name : String) (value : Nat) : Except CheckpointEncodingError UInt64 :=
  if value ≤ usizeMax then .ok (UInt64.ofNat value)
  else .error (.snapshot (.failed s!"checkpoint {name} exceeds durable u64 range"))

/-- Encode a typed request as one storage-neutral record. -/
def CheckpointRequest.toRecord (r : CheckpointRequest τ π) (codec : CheckpointCodec τ π) :
    Except CheckpointEncodingError CheckpointRecord := do
  let bytes ← (codec.encodeSnapshot r.snapshot).mapError .snapshot
  let interrupt ← r.interrupt.mapM fun interrupt =>
    (codec.recordInterrupt interrupt).mapError .interrupt
  let superstep ← durableCounter "superstep" r.superstep
  let step ← durableCounter "step" r.step
  (CheckpointRecord.tryFromParts
    { formatVersion := CheckpointFormatVersion.CURRENT
      checkpointId := r.checkpointId
      threadId := r.threadId
      runId := r.runId
      parentId := r.expectedParent
      graphVersion := r.graphVersion
      superstep, step
      snapshot := ⟨codec.snapshotDescriptor, bytes⟩
      nextFrontier := r.nextFrontier
      completed := r.completed
      interrupt }).mapError fun source =>
    .snapshot (.invalidRecord "runtime produced invalid checkpoint record metadata" source)

/-- Decode interrupt metadata; the payload must use the codec's encoding. -/
def CheckpointCodec.checkpointInterrupt (codec : CheckpointCodec τ π)
    (interrupt : CheckpointRecordInterrupt) :
    Except CheckpointReconstructionError (CheckpointInterrupt π) :=
  let expected := codec.snapshotDescriptor.encoding
  let actual := interrupt.payload.descriptor.encoding
  if actual ≠ expected then .error (.interruptEncoding expected actual)
  else
    match codec.decodeInterrupt interrupt.payload with
    | .error error => .error (.interrupt error)
    | .ok payload => .ok ⟨interrupt.id, interrupt.nodePath, payload⟩

/-- A durable counter as a `usize`. -/
def runtimeCounter (field : String) (value : UInt64) :
    Except CheckpointReconstructionError Nat :=
  if value.toNat ≤ usizeMax then .ok value.toNat else .error (.counterOutOfRange field value)

/-- Reconstruct a typed checkpoint from a validated storage record. -/
def Checkpoint.fromRecord (record : CheckpointRecord) (codec : CheckpointCodec τ π) :
    Except CheckpointReconstructionError (Checkpoint τ π) :=
  let expected := codec.snapshotDescriptor
  let actual := record.snapshot.descriptor
  if record.formatVersion ≠ CheckpointFormatVersion.CURRENT then
    .error (.formatVersion record.formatVersion CheckpointFormatVersion.CURRENT)
  else if actual.encoding ≠ expected.encoding then
    .error (.snapshotEncoding expected.encoding actual.encoding)
  else if actual.schema ≠ expected.schema ∨ actual.schemaVersion ≠ expected.schemaVersion then
    .error (.snapshotSchema expected actual)
  else do
    let snapshot ← (codec.decodeSnapshot record.snapshot.bytes).mapError .snapshot
    let interrupt ← record.interrupt.mapM codec.checkpointInterrupt
    let superstep ← runtimeCounter "superstep" record.superstep
    let step ← runtimeCounter "step" record.step
    pure
      { id := record.checkpointId
        threadId := record.threadId
        runId := record.runId
        parentId := record.parentId
        graphVersion := record.graphVersion
        superstep, step, snapshot
        nextFrontier := record.nextFrontier
        completed := record.completed
        interrupt }

end Codec

end GroupAgent.Core
