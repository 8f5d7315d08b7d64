import GroupAgent.Sqlite.Tables
import GroupAgent.Core.Store

/-!
# The SQLite checkpoint store

Model of `SqliteCheckpointStore` of `crates/group-agent-checkpoint-sqlite/src`: the operations of
its `CheckpointStore` implementation (`lib.rs:233-595`), `fetch_record_by_id` and
`fetch_branch_history` (683-850), `ensure_branch_record_thread` and `fetch_head` (852-890), and the
errors they wrap (1111-1124).

* A transaction is atomic and serial: an operation is one step on the tables, and `transact` leaves
  the tables as they were when it fails (`begin_save`, 223-228; `rollback`, 947-952).
* Each operation asks its questions in the order of the source. A save first looks for the
  identifier, then compares the parent with the head, then inserts the row and moves the head. A
  save on a branch asks for the membership of the identifier and for the branch before that.
* A reading operation is one statement, or a transaction of its own for a branch; it changes no
  table either way.

Out of scope: the pool of connections, its timeouts, and a rollback that fails.
-/

namespace GroupAgent.Sqlite

open GroupAgent.Core GroupAgent.Lib

def storeReadError (source : SqliteCheckpointError) : SourceError :=
  .withSource "SQLite checkpoint storage failed" (.foreign source.text)

def storeWriteError (source : SqliteCheckpointError) : CheckpointWriteError :=
  .failed (storeReadError source)

def branchWriteCorruption (source : SqliteRecordError) : CheckpointWriteError :=
  storeWriteError (.corruptRecord source)

namespace Tables

/-- Commit what a transaction did, or leave the tables as they were. -/
def transact {α : Type} (t : Tables) (result : Except CheckpointWriteError (α × Tables)) :
    Except CheckpointWriteError α × Tables :=
  match result with
  | .ok (a, t') => (.ok a, t')
  | .error error => (.error error, t)

section Operations

variable (json : PathJson) (t : Tables)

/-! ## The default history -/

def fetchRecordById (checkpointId : CheckpointId) :
    Except SqliteCheckpointError (Option CheckpointRecord) :=
  (t.selectRecord (Uuid.toBytes checkpointId.uuid)).mapM fun row => decodeRow json row.fields

def fetchHead (threadId : ThreadId) : Except SqliteCheckpointError (Option CheckpointId) :=
  (t.selectHead threadId.value).mapM fun row =>
    ((decodeUuid "checkpoint_id" row.checkpointId).map CheckpointId.mk).mapError .corruptRecord

def save (record : CheckpointRecord) : Except CheckpointWriteError (CheckpointRecord × Tables) := do
  let encoded ← (EncodedRecord.tryFromRecord json record).mapError fun source =>
    storeWriteError (.encode source)
  match ← (t.fetchRecordById json record.id).mapError storeWriteError with
  | some existing =>
    if existing = record then pure (existing, t) else throw (.idempotencyConflict record.id)
  | none =>
    let actualParent ← (t.fetchHead record.threadId).mapError storeWriteError
    if actualParent ≠ record.parentId then throw (.conflict record.parentId actualParent)
    else
      let t ← (t.insertRecord encoded).mapError fun source =>
        storeWriteError (.database "record insertion" source)
      let t ← (t.updateHead record.threadId.value (Uuid.toBytes record.id.uuid)).mapError
        fun source => storeWriteError (.database "thread head update" source)
      pure (record, t)

def latest (threadId : ThreadId) : Except SourceError (Option CheckpointRecord) :=
  (((t.selectHead threadId.value).bind fun head => t.selectRecord head.checkpointId).mapM fun row =>
    decodeRow json row.fields).mapError storeReadError

def get (threadId : ThreadId) (checkpointId : CheckpointId) :
    Except SourceError (Option CheckpointRecord) :=
  ((t.selectThreadRecord threadId.value (Uuid.toBytes checkpointId.uuid)).mapM fun row =>
    decodeRow json row.fields).mapError storeReadError

def history (threadId : ThreadId) : Except SourceError (List CheckpointRecord) :=
  ((t.selectHistory threadId.value).mapM fun row => decodeRow json row.fields).mapError
    storeReadError

/-! ## Branches -/

def createBranch (threadId : ThreadId) (branchId : BranchId) (sourceCheckpointId : CheckpointId) :
    Except CheckpointWriteError (BranchHead × Tables) :=
  if (t.selectBranch (Uuid.toBytes branchId.uuid)).isSome then .error (.branchAlreadyExists branchId)
  else if (t.selectThreadRecord threadId.value (Uuid.toBytes sourceCheckpointId.uuid)).isNone then
    .error (.branchSourceNotFound branchId sourceCheckpointId)
  else do
    let t ← (t.insertBranch
      { branchId := Uuid.toBytes branchId.uuid
        threadId := threadId.value
        sourceCheckpointId := Uuid.toBytes sourceCheckpointId.uuid
        headCheckpointId := Uuid.toBytes sourceCheckpointId.uuid }).mapError fun source =>
      storeWriteError (.database "branch insertion" source)
    pure (⟨branchId, threadId, sourceCheckpointId, sourceCheckpointId⟩, t)

/-- The branch and the thread a membership row names. -/
def decodeMembership (row : BranchRecordRow) : Except SqliteRecordError (BranchId × ThreadId) :=
  (decodeUuid "branch_id" row.branchId).map fun uuid => (⟨uuid⟩, ⟨row.threadId⟩)

def ensureBranchRecordThread (relation : String) (branchId : BranchId) (expectedThread : ThreadId)
    (record : CheckpointRecord) : Except SqliteRecordError Unit :=
  if record.threadId = expectedThread then .ok ()
  else .error (.branchOwnership relation branchId record.id expectedThread record.threadId)

/-- A branch write of a record that is stored already. -/
def saveBranchExisting (branchId : BranchId) (record existing : CheckpointRecord) :
    Except CheckpointWriteError (CheckpointRecord × Tables) := do
  let membership ← ((t.selectMembership (Uuid.toBytes record.id.uuid)).mapM
    decodeMembership).mapError branchWriteCorruption
  match membership.filter fun stored => stored.1 = branchId ∧ stored.2 ≠ record.threadId with
  | some stored =>
    throw (branchWriteCorruption
      (.branchOwnership "membership" branchId record.id record.threadId stored.2))
  | none =>
    let sameBranch := membership = some (branchId, record.threadId)
    if existing = record ∧ sameBranch then
      match t.selectBranch (Uuid.toBytes branchId.uuid) with
      | none => throw (branchWriteCorruption (.missingBranchMetadata branchId))
      | some branch =>
        if (⟨branch.threadId⟩ : ThreadId) ≠ record.threadId then
          throw (branchWriteCorruption
            (.branchOwnership "metadata" branchId record.id record.threadId ⟨branch.threadId⟩))
        else pure (existing, t)
    else throw (.idempotencyConflict record.id)

/-- A branch write of a new record. -/
def saveBranchNew (branchId : BranchId) (record : CheckpointRecord) (encoded : EncodedRecord) :
    Except CheckpointWriteError (CheckpointRecord × Tables) :=
  match t.selectBranch (Uuid.toBytes branchId.uuid) with
  | none => throw (.branchNotFound branchId)
  | some head => do
    let branchThread : ThreadId := ⟨head.threadId⟩
    if branchThread ≠ record.threadId then throw (.branchNotFound branchId)
    else
      let actualParent ← ((decodeUuid "head_checkpoint_id" head.headCheckpointId).map
        CheckpointId.mk).mapError branchWriteCorruption
      match ← (t.fetchRecordById json actualParent).mapError storeWriteError with
      | none =>
        throw (branchWriteCorruption (.missingBranchRecord "head" branchId actualParent))
      | some headRecord =>
        (ensureBranchRecordThread "head" branchId branchThread headRecord).mapError
          branchWriteCorruption
        if some actualParent ≠ record.parentId then
          throw (.conflict record.parentId (some actualParent))
        else
          let t ← (t.insertRecord encoded).mapError fun source =>
            storeWriteError (.database "record insertion" source)
          let t ← (t.insertBranchRecord
            { checkpointId := Uuid.toBytes record.id.uuid
              threadId := record.threadId.value
              branchId := Uuid.toBytes branchId.uuid }).mapError fun source =>
            storeWriteError (.database "branch membership insertion" source)
          let t ← (t.updateBranchHead record.threadId.value (Uuid.toBytes branchId.uuid)
            (Uuid.toBytes record.id.uuid)).mapError fun source =>
            storeWriteError (.database "branch head update" source)
          pure (record, t)

def saveBranch (branchId : BranchId) (record : CheckpointRecord) :
    Except CheckpointWriteError (CheckpointRecord × Tables) := do
  let encoded ← (EncodedRecord.tryFromRecord json record).mapError fun source =>
    storeWriteError (.encode source)
  match ← (t.fetchRecordById json record.id).mapError storeWriteError with
  | some existing => t.saveBranchExisting branchId record existing
  | none => t.saveBranchNew json branchId record encoded

/-! ## The history of a branch -/

/-- What the scan of a branch history has collected. -/
structure BranchScan where
  history : List CheckpointRecord
  seen : List CheckpointId
  validatedHead : Bool

def decodeCheckpointId (field : String) (bytes : List UInt8) :
    Except SqliteCheckpointError CheckpointId :=
  ((decodeUuid field bytes).map CheckpointId.mk).mapError .corruptRecord

/-- One row of the scan. -/
def scanRow (threadId : ThreadId) (branchId : BranchId) (sourceId headId : CheckpointId)
    (scan : BranchScan) (position : Nat) (row : SelectedRow) :
    Except SqliteCheckpointError BranchScan := do
  let selectedId ← decodeCheckpointId "selected_checkpoint_id" row.selectedCheckpointId
  let relation ←
    match row.membershipRole with
    | 0 => pure "source"
    | 1 => pure "membership"
    | 2 => pure "head"
    | _ => throw (.corruptRecord (.missingBranchRecord "metadata" branchId selectedId))
  if position = 0 ∧ (row.membershipRole ≠ 0 ∨ selectedId ≠ sourceId) then
    throw (.corruptRecord (.missingBranchRecord "source" branchId sourceId))
  else if row.membershipRole ≠ 2 ∧ selectedId ∈ scan.seen then
    throw (.corruptRecord (.duplicateBranchRecord branchId selectedId))
  else
    match row.record with
    | none => throw (.corruptRecord (.missingBranchRecord relation branchId selectedId))
    | some stored =>
      let record ← decodeRow json stored.fields
      (ensureBranchRecordThread relation branchId threadId record).mapError .corruptRecord
      if row.membershipRole = 2 then
        if selectedId ≠ headId then
          throw (.corruptRecord (.branchHeadMismatch branchId selectedId headId))
        else pure { scan with validatedHead := true }
      else
        match scan.history.getLast?.filter fun previous => record.parentId ≠ some previous.id with
        | some previous =>
          throw (.corruptRecord
            (.branchParentMismatch branchId record.id previous.id record.parentId))
        | none =>
          pure
            { scan with
              history := scan.history ++ [record]
              seen := scan.seen ++ [selectedId] }

/-- The scan of the rows from a position on. -/
def scanRows (threadId : ThreadId) (branchId : BranchId) (sourceId headId : CheckpointId) :
    BranchScan → Nat → List SelectedRow → Except SqliteCheckpointError BranchScan
  | scan, _, [] => pure scan
  | scan, position, row :: rows => do
    let scan ← scanRow json threadId branchId sourceId headId scan position row
    scanRows threadId branchId sourceId headId scan (position + 1) rows

/-- What has to hold once every row has been scanned. -/
def finishScan (branchId : BranchId) (sourceId headId : CheckpointId) (scan : BranchScan) :
    Except SqliteCheckpointError (List CheckpointRecord) :=
  if !scan.validatedHead then
    .error (.corruptRecord (.missingBranchRecord "head" branchId headId))
  else if headId ≠ sourceId ∧ !scan.history.tail.any (fun record => record.id = headId) then
    .error (.corruptRecord (.branchHeadNotMember branchId headId))
  else
    match scan.history.getLast? with
    -- `expect`: the first row is the source's, which is always kept
    | none => .error (.corruptRecord (.missingBranchRecord "source" branchId sourceId))
    | some last =>
      if last.id ≠ headId then
        .error (.corruptRecord (.branchHeadMismatch branchId last.id headId))
      else .ok scan.history

def fetchBranchHistory (threadId : ThreadId) (branchId : BranchId) :
    Except SqliteCheckpointError (Option (List CheckpointRecord)) :=
  match t.selectBranchHistory threadId.value (Uuid.toBytes branchId.uuid) with
  | [] => .ok none
  | first :: rest => do
    let sourceId ← decodeCheckpointId "branch_source_checkpoint_id" first.sourceCheckpointId
    let headId ← decodeCheckpointId "branch_head_checkpoint_id" first.headCheckpointId
    let scan ← scanRows json threadId branchId sourceId headId ⟨[], [], false⟩ 0 (first :: rest)
    some <$> finishScan branchId sourceId headId scan

def branchHead (threadId : ThreadId) (branchId : BranchId) :
    Except SourceError (Option CheckpointRecord) :=
  ((t.fetchBranchHistory json threadId branchId).map fun history =>
    history.bind List.getLast?).mapError storeReadError

def branchHistory (threadId : ThreadId) (branchId : BranchId) :
    Except SourceError (List CheckpointRecord) :=
  ((t.fetchBranchHistory json threadId branchId).map fun history =>
    history.getD []).mapError storeReadError

/-! ## Operations -/

def apply : StoreOp → Except CheckpointWriteError StoreReply × Tables
  | .save record =>
    ((t.transact (t.save json record)).1.map .record, (t.transact (t.save json record)).2)
  | .saveBranch branchId record =>
    ((t.transact (t.saveBranch json branchId record)).1.map .record,
      (t.transact (t.saveBranch json branchId record)).2)
  | .createBranch threadId branchId source =>
    ((t.transact (t.createBranch threadId branchId source)).1.map .head,
      (t.transact (t.createBranch threadId branchId source)).2)

end Operations

/-- The tables after a sequence of operations, accepted or not. -/
def run (json : PathJson) (t : Tables) (ops : List StoreOp) : Tables :=
  ops.foldl (fun t op => (t.apply json op).2) t

end Tables

end GroupAgent.Sqlite
