import GroupAgent.Sqlite.Record
import GroupAgent.Lib.Keyed

/-!
# The SQLite tables and statements

The schema the four migrations of `crates/group-agent-checkpoint-sqlite/migrations` leave
(`0001_checkpoint_store.sql`, `0002_branch_heads.sql`, `0003_branch_ownership.sql`,
`0004_branch_read_consistency.sql`), and the statements of `src/lib.rs` over it (`insert_record`
and `update_head`, `lib.rs:892-945`).

* A table is the list of its rows. No statement depends on their order: one without `ORDER BY`
  selects by a key.
* A statement that writes fails by the constraint or the trigger that refuses it. Triggers come
  first, as SQLite runs a `BEFORE` trigger before it checks constraints.
* `sequence` is the value `AUTOINCREMENT` has reached.
* A database that was just migrated is `Tables.migrated` (216-221). That the store is migrated
  before it is used is up to the application, as the source documents.

Out of scope: indexes, which only make the selections faster, and the journal mode.
-/

namespace GroupAgent.Sqlite

open GroupAgent.Core GroupAgent.Lib

/-! ## Rows -/

/-- A row of `group_checkpoint_records`. -/
structure RecordRow where
  sequence : Nat
  fields : EncodedRecord
  deriving DecidableEq, Repr

/-- A row of `group_checkpoint_heads`. -/
structure HeadRow where
  threadId : String
  checkpointId : List UInt8
  deriving DecidableEq, Repr

/-- A row of `group_checkpoint_branches`. -/
structure BranchRow where
  branchId : List UInt8
  threadId : String
  sourceCheckpointId : List UInt8
  headCheckpointId : List UInt8
  deriving DecidableEq, Repr

/-- The branches a `WHERE thread_id = ? AND branch_id = ?` selects. -/
def BranchRow.isOf (branch : BranchRow) (threadId : String) (branchId : List UInt8) : Bool :=
  branch.threadId = threadId ∧ branch.branchId = branchId

/-- A row of `group_checkpoint_branch_records`. -/
structure BranchRecordRow where
  checkpointId : List UInt8
  threadId : String
  branchId : List UInt8
  deriving DecidableEq, Repr

structure Tables where
  sequence : Nat
  records : List RecordRow
  heads : List HeadRow
  branches : List BranchRow
  branchRecords : List BranchRecordRow

namespace Tables

/-- The tables after the migrations of a new database. -/
def migrated : Tables := ⟨0, [], [], [], []⟩

/-! ## Queries -/

/-- `SELECT .. FROM group_checkpoint_records WHERE checkpoint_id = ?` -/
def selectRecord (t : Tables) (checkpointId : List UInt8) : Option RecordRow :=
  lookup (fun row => row.fields.checkpointId) checkpointId t.records

/-- `SELECT .. FROM group_checkpoint_records WHERE thread_id = ? AND checkpoint_id = ?` -/
def selectThreadRecord (t : Tables) (threadId : String) (checkpointId : List UInt8) :
    Option RecordRow :=
  lookup (fun row => (row.fields.threadId, row.fields.checkpointId)) (threadId, checkpointId) t.records

def selectHead (t : Tables) (threadId : String) : Option HeadRow :=
  lookup HeadRow.threadId threadId t.heads

def selectBranch (t : Tables) (branchId : List UInt8) : Option BranchRow :=
  lookup BranchRow.branchId branchId t.branches

def selectMembership (t : Tables) (checkpointId : List UInt8) : Option BranchRecordRow :=
  lookup BranchRecordRow.checkpointId checkpointId t.branchRecords

/-- A record of a thread that no branch has as its member, in the order of insertion. -/
def selectHistory (t : Tables) (threadId : String) : List RecordRow :=
  (t.records.filter fun row => row.fields.threadId = threadId ∧
    ¬∃ member ∈ t.branchRecords, member.threadId = row.fields.threadId ∧
      member.checkpointId = row.fields.checkpointId).mergeSort fun a b => a.sequence ≤ b.sequence

/-- A row of the branch history query: the branch's source and head, a record it selects and why
(0 source, 1 member, 2 head), and the record's row, if there is one. -/
structure SelectedRow where
  sourceCheckpointId : List UInt8
  headCheckpointId : List UInt8
  selectedCheckpointId : List UInt8
  membershipRole : Nat
  record : Option RecordRow

/-- The sequence column of the left join. `NULL` comes first, and sequences start at one. -/
def SelectedRow.sequence (row : SelectedRow) : Nat := (row.record.map RecordRow.sequence).getD 0

/-- `ORDER BY membership_role, sequence, checkpoint_id` -/
def SelectedRow.le (a b : SelectedRow) : Bool :=
  a.membershipRole < b.membershipRole ∨ (a.membershipRole = b.membershipRole ∧
    (a.sequence < b.sequence ∨ (a.sequence = b.sequence ∧
      a.selectedCheckpointId ≤ b.selectedCheckpointId)))

def selectBranchHistory (t : Tables) (threadId : String) (branchId : List UInt8) :
    List SelectedRow :=
  let selectedBranch := t.branches.filter fun branch => branch.isOf threadId branchId
  let selectedCheckpoints : List (List UInt8 × Nat) :=
    selectedBranch.map (fun branch => (branch.sourceCheckpointId, 0)) ++
    selectedBranch.flatMap (fun branch =>
      (t.branchRecords.filter fun membership => membership.threadId = branch.threadId ∧
        membership.branchId = branch.branchId).map fun membership => (membership.checkpointId, 1)) ++
    selectedBranch.map (fun branch => (branch.headCheckpointId, 2))
  (selectedBranch.flatMap fun branch => selectedCheckpoints.map fun selected =>
    { sourceCheckpointId := branch.sourceCheckpointId
      headCheckpointId := branch.headCheckpointId
      selectedCheckpointId := selected.1
      membershipRole := selected.2
      record := t.selectRecord selected.1 : SelectedRow }).mergeSort SelectedRow.le

/-! ## Statements that write -/

/-- A foreign key `(thread_id, checkpoint_id)` into `group_checkpoint_records`. -/
def hasThreadRecord (t : Tables) (threadId : String) (checkpointId : List UInt8) : Bool :=
  (t.selectThreadRecord threadId checkpointId).isSome

def insertRecord (t : Tables) (fields : EncodedRecord) : Except SqlFailure Tables :=
  if ¬fields.Checks then .error (.check "group_checkpoint_records")
  else if (t.selectRecord fields.checkpointId).isSome then .error (.unique "group_checkpoint_records")
  else .ok { t with
    sequence := t.sequence + 1
    records := t.records ++ [⟨t.sequence + 1, fields⟩] }

/-- `INSERT .. ON CONFLICT(thread_id) DO UPDATE` -/
def updateHead (t : Tables) (threadId : String) (checkpointId : List UInt8) :
    Except SqlFailure Tables :=
  if t.heads.any (fun head => head.threadId ≠ threadId ∧ head.checkpointId = checkpointId) then
    .error (.unique "group_checkpoint_heads")
  else if (t.selectRecord checkpointId).isNone then .error (.foreignKey "group_checkpoint_heads")
  else if (t.selectHead threadId).isSome then
    .ok { t with heads := t.heads.map fun head =>
      if head.threadId = threadId then { head with checkpointId } else head }
  else .ok { t with heads := t.heads ++ [⟨threadId, checkpointId⟩] }

def insertBranch (t : Tables) (row : BranchRow) : Except SqlFailure Tables :=
  if row.headCheckpointId ≠ row.sourceCheckpointId then
    .error (.abort "a new branch head must equal its source checkpoint")
  else if row.branchId.length ≠ 16 then .error (.check "group_checkpoint_branches")
  else if (t.selectBranch row.branchId).isSome then .error (.unique "group_checkpoint_branches")
  else if !t.hasThreadRecord row.threadId row.sourceCheckpointId ||
      !t.hasThreadRecord row.threadId row.headCheckpointId then
    .error (.foreignKey "group_checkpoint_branches")
  else .ok { t with branches := t.branches ++ [row] }

/-- Whether the record continues the head of the branch: the condition of the membership trigger. -/
def continuesHead (t : Tables) (row : BranchRecordRow) : Bool :=
  t.branches.any fun branch => branch.branchId = row.branchId ∧ branch.threadId = row.threadId ∧
    t.records.any fun record => record.fields.threadId = row.threadId ∧
      record.fields.checkpointId = row.checkpointId ∧
      record.fields.parentId = some branch.headCheckpointId

def insertBranchRecord (t : Tables) (row : BranchRecordRow) : Except SqlFailure Tables :=
  if !t.continuesHead row then
    .error (.abort "a branch member must continue the current branch head")
  else if row.checkpointId.length ≠ 16 ∨ row.branchId.length ≠ 16 then
    .error (.check "group_checkpoint_branch_records")
  else if (t.selectMembership row.checkpointId).isSome then
    .error (.unique "group_checkpoint_branch_records")
  else if !t.hasThreadRecord row.threadId row.checkpointId ||
      !t.branches.any (fun branch => branch.threadId = row.threadId ∧
        branch.branchId = row.branchId) then
    .error (.foreignKey "group_checkpoint_branch_records")
  else .ok { t with branchRecords := t.branchRecords ++ [row] }

/-- Whether the new head is no member of its branch: the condition of the head trigger. -/
def strayHead (t : Tables) (branch : BranchRow) (checkpointId : List UInt8) : Bool :=
  checkpointId ≠ branch.sourceCheckpointId ∧ ¬∃ member ∈ t.branchRecords,
    member.branchId = branch.branchId ∧ member.threadId = branch.threadId ∧
      member.checkpointId = checkpointId

def updateBranchHead (t : Tables) (threadId : String) (branchId checkpointId : List UInt8) :
    Except SqlFailure Tables :=
  if t.branches.any (fun branch =>
      branch.isOf threadId branchId && t.strayHead branch checkpointId) then
    .error (.abort "a non-source branch head must belong to the branch")
  else if t.branches.any (fun branch => branch.isOf threadId branchId) &&
      !t.hasThreadRecord threadId checkpointId then
    .error (.foreignKey "group_checkpoint_branches")
  else
    .ok { t with
      branches := t.branches.map fun branch =>
        if branch.isOf threadId branchId then { branch with headCheckpointId := checkpointId }
        else branch }

end Tables

end GroupAgent.Sqlite
