import GroupAgent.Core.Checkpoint
import GroupAgent.Core.Ledger
import GroupAgent.Lib.Bytes
import GroupAgent.Lib.Except
import Mathlib.Tactic.MkIffOfInductiveProp

/-!
# Checkpoint records as SQLite rows

Model of the record codec of `crates/group-agent-checkpoint-sqlite/src`: `EncodedRecord`
(`lib.rs:604-625`, `try_from_record` 628-680), `decode_row_fields` (964-1015) and the column
decoders (1017-1049, 1051-1105), with the errors they name (53-79, 84-178).

* Columns have the types `insert_record` binds, so a column cannot have another SQLite type. An
  identifier is a blob of 16 bytes, a counter a blob of 8 bytes in big-endian order, the paths a
  text of JSON.
* The decoders run in the order of the source, and each error names its column.
* `serde_json` is the parameter `PathJson`. `PathJson.Carries` says that it reads back the paths of
  a record it has written.

Results: `decode_encode` reads back the record, and **`record_round_trip`** says that its row is
its own: it fits the constraints of the table, and no other record is stored as the same row.

Out of scope: the SQLite file format, and rows that another program has written with other types.
-/

namespace GroupAgent.Sqlite

open GroupAgent.Core GroupAgent.Lib

/-! ## Errors -/

/-- Why a SQLite row is not a lossless Group checkpoint record. -/
inductive SqliteRecordError where
  | invalidUuidLength (field : String) (length : Nat)
  | invalidCounterLength (field : String) (length : Nat)
  | integerOutOfRange (field : String) (value : Int)
  | invalidBoolean (field : String) (value : Int)
  | pathJson (field : String) (source : String)
  | emptyNodePath (field : String)
  | missingBranchRecord (relation : String) (branchId : BranchId) (checkpointId : CheckpointId)
  | missingBranchMetadata (branchId : BranchId)
  | branchOwnership (relation : String) (branchId : BranchId) (checkpointId : CheckpointId)
      (expectedThread actualThread : ThreadId)
  | branchHeadMismatch (branchId : BranchId) (expectedHead actualHead : CheckpointId)
  | branchHeadNotMember (branchId : BranchId) (checkpointId : CheckpointId)
  | duplicateBranchRecord (branchId : BranchId) (checkpointId : CheckpointId)
  | branchParentMismatch (branchId : BranchId) (checkpointId expectedParent : CheckpointId)
      (actualParent : Option CheckpointId)
  | partialInterrupt
  | record (source : CheckpointRecordError)
  deriving DecidableEq, Repr

/-- Why SQLite refuses a statement: a constraint or a trigger. -/
inductive SqlFailure where
  | check (table : String)
  | unique (table : String)
  | foreignKey (table : String)
  | abort (message : String)
  deriving DecidableEq, Repr

/-- SQLx SQLite failures exposed by the durable store adapter. -/
inductive SqliteCheckpointError where
  | database (operation : String) (source : SqlFailure)
  | encode (source : SqliteRecordError)
  | corruptRecord (source : SqliteRecordError)
  deriving DecidableEq, Repr

def SqliteCheckpointError.text : SqliteCheckpointError → String
  | .database operation _ => s!"SQLite checkpoint {operation} failed"
  | .encode _ => "SQLite checkpoint record encoding failed"
  | .corruptRecord _ => "SQLite contains an invalid checkpoint record"

/-! ## Paths -/

/-- `serde_json` on structured paths. -/
structure PathJson where
  toString : List (List String) → Except String String
  fromString : String → Except String (List (List String))

def encodePaths (json : PathJson) (paths : List NodePath) (field : String) :
    Except SqliteRecordError String :=
  (json.toString (paths.map fun path => path.segments.map NodeId.value)).mapError (.pathJson field)

/-- A path from its segments, the last of which is its leaf. -/
def decodePath (field : String) (segments : List String) : Except SqliteRecordError NodePath :=
  match segments.getLast? with
  | none => .error (.emptyNodePath field)
  | some leaf => .ok ⟨⟨segments.dropLast.map NodeId.mk⟩, ⟨leaf⟩⟩

def decodePaths (json : PathJson) (value field : String) :
    Except SqliteRecordError (List NodePath) := do
  let paths ← (json.fromString value).mapError (.pathJson field)
  paths.mapM (decodePath field)

/-! ## Columns -/

def Uuid.toBytes (uuid : Uuid) : List UInt8 := toBytesBE 16 uuid.bits.toNat

def decodeUuid (field : String) (bytes : List UInt8) : Except SqliteRecordError Uuid :=
  if bytes.length = 16 then .ok ⟨BitVec.ofNat 128 (ofBytesBE bytes)⟩
  else .error (.invalidUuidLength field bytes.length)

def encodeU64 (value : UInt64) : List UInt8 := toBytesBE 8 value.toNat

def decodeU64 (field : String) (bytes : List UInt8) : Except SqliteRecordError UInt64 :=
  if bytes.length = 8 then .ok (UInt64.ofNat (ofBytesBE bytes))
  else .error (.invalidCounterLength field bytes.length)

def encodeU32 (value : UInt32) : Int := value.toNat

def decodeU32 (field : String) (value : Int) : Except SqliteRecordError UInt32 :=
  if 0 ≤ value ∧ value ≤ 4294967295 then .ok (UInt32.ofNat value.toNat)
  else .error (.integerOutOfRange field value)

/-- The columns of one record, in the types they are bound with. -/
structure EncodedRecord where
  checkpointId : List UInt8
  threadId : String
  runId : List UInt8
  parentId : Option (List UInt8)
  graphVersion : Option String
  formatVersion : Int
  superstepBe : List UInt8
  stepBe : List UInt8
  snapshotSchema : String
  snapshotSchemaVersion : Int
  snapshotEncoding : String
  snapshotBytes : List UInt8
  frontierJson : String
  completed : Int
  interruptId : Option (List UInt8)
  interruptNodePathJson : Option String
  interruptSchema : Option String
  interruptSchemaVersion : Option Int
  interruptEncoding : Option String
  interruptBytes : Option (List UInt8)
  deriving DecidableEq, Repr

/-- The record without its interrupt columns. -/
def EncodedRecord.plain (record : CheckpointRecord) (frontierJson : String) : EncodedRecord where
  checkpointId := Uuid.toBytes record.id.uuid
  threadId := record.threadId.value
  runId := Uuid.toBytes record.runId.uuid
  parentId := record.parentId.map fun id => Uuid.toBytes id.uuid
  graphVersion := record.graphVersion.map GraphVersion.value
  formatVersion := encodeU32 record.formatVersion.value
  superstepBe := encodeU64 record.superstep
  stepBe := encodeU64 record.step
  snapshotSchema := record.snapshot.descriptor.schema
  snapshotSchemaVersion := encodeU32 record.snapshot.descriptor.schemaVersion
  snapshotEncoding := record.snapshot.descriptor.encoding
  snapshotBytes := record.snapshot.bytes
  frontierJson
  completed := if record.completed then 1 else 0
  interruptId := none
  interruptNodePathJson := none
  interruptSchema := none
  interruptSchemaVersion := none
  interruptEncoding := none
  interruptBytes := none

def EncodedRecord.tryFromRecord (json : PathJson) (record : CheckpointRecord) :
    Except SqliteRecordError EncodedRecord := do
  let frontierJson ← encodePaths json record.nextFrontier "frontier_json"
  match record.interrupt with
  | none => pure (.plain record frontierJson)
  | some interrupt =>
    let nodePathJson ← encodePaths json [interrupt.nodePath] "interrupt_node_path_json"
    pure
      { EncodedRecord.plain record frontierJson with
        interruptId := some (Uuid.toBytes interrupt.id.uuid)
        interruptNodePathJson := some nodePathJson
        interruptSchema := some interrupt.payload.descriptor.schema
        interruptSchemaVersion := some (encodeU32 interrupt.payload.descriptor.schemaVersion)
        interruptEncoding := some interrupt.payload.descriptor.encoding
        interruptBytes := some interrupt.payload.bytes }

def decodeInterrupt (json : PathJson) (row : EncodedRecord) :
    Except SqliteRecordError (Option CheckpointRecordInterrupt) :=
  match row.interruptId, row.interruptNodePathJson, row.interruptSchema,
    row.interruptSchemaVersion, row.interruptEncoding, row.interruptBytes with
  | none, none, none, none, none, none => .ok none
  | some id, some path, some schema, some schemaVersion, some encoding, some bytes => do
    let paths ← decodePaths json path "interrupt_node_path_json"
    match paths with
    | [nodePath] => do
      let id ← decodeUuid "interrupt_id" id
      let schemaVersion ← decodeU32 "interrupt_schema_version" schemaVersion
      pure (some ⟨⟨id⟩, nodePath, ⟨⟨schema, schemaVersion, encoding⟩, bytes⟩⟩)
    | _ => .error .partialInterrupt
  | _, _, _, _, _, _ => .error .partialInterrupt

def decodeCompleted (value : Int) : Except SqliteRecordError Bool :=
  if value = 0 then .ok false else if value = 1 then .ok true
  else .error (.invalidBoolean "completed" value)

def decodeRowFields (json : PathJson) (row : EncodedRecord) :
    Except SqliteRecordError CheckpointRecord := do
  let checkpointId ← decodeUuid "checkpoint_id" row.checkpointId
  let runId ← decodeUuid "run_id" row.runId
  let parentId ← row.parentId.mapM (decodeUuid "parent_id")
  let formatVersion ← decodeU32 "format_version" row.formatVersion
  let superstep ← decodeU64 "superstep_be" row.superstepBe
  let step ← decodeU64 "step_be" row.stepBe
  let completed ← decodeCompleted row.completed
  let schemaVersion ← decodeU32 "snapshot_schema_version" row.snapshotSchemaVersion
  let nextFrontier ← decodePaths json row.frontierJson "frontier_json"
  let interrupt ← decodeInterrupt json row
  (CheckpointRecord.tryFromParts
    { formatVersion := ⟨formatVersion⟩
      checkpointId := ⟨checkpointId⟩
      threadId := ⟨row.threadId⟩
      runId := ⟨runId⟩
      parentId := parentId.map CheckpointId.mk
      graphVersion := row.graphVersion.map GraphVersion.mk
      superstep, step
      snapshot := ⟨⟨row.snapshotSchema, schemaVersion, row.snapshotEncoding⟩, row.snapshotBytes⟩
      nextFrontier, completed, interrupt }).mapError .record

def decodeRow (json : PathJson) (row : EncodedRecord) :
    Except SqliteCheckpointError CheckpointRecord :=
  (decodeRowFields json row).mapError .corruptRecord

/-- The `CHECK` constraints of `group_checkpoint_records`. -/
@[mk_iff]
structure EncodedRecord.Checks (row : EncodedRecord) : Prop where
  checkpointId : row.checkpointId.length = 16
  runId : row.runId.length = 16
  parentId : ∀ id ∈ row.parentId, id.length = 16
  formatVersion : 0 ≤ row.formatVersion ∧ row.formatVersion ≤ 4294967295
  superstepBe : row.superstepBe.length = 8
  stepBe : row.stepBe.length = 8
  snapshotSchemaVersion : 0 ≤ row.snapshotSchemaVersion ∧ row.snapshotSchemaVersion ≤ 4294967295
  completed : row.completed = 0 ∨ row.completed = 1
  interruptId : ∀ id ∈ row.interruptId, id.length = 16
  interruptSchemaVersion : ∀ version ∈ row.interruptSchemaVersion,
    0 ≤ version ∧ version ≤ 4294967295
  interrupt : row.interruptId.isSome = row.interruptNodePathJson.isSome ∧
    row.interruptId.isSome = row.interruptSchema.isSome ∧
    row.interruptId.isSome = row.interruptSchemaVersion.isSome ∧
    row.interruptId.isSome = row.interruptEncoding.isSome ∧
    row.interruptId.isSome = row.interruptBytes.isSome

instance (row : EncodedRecord) : Decidable row.Checks :=
  decidable_of_iff' _ (EncodedRecord.checks_iff row)

/-! ## Round trips -/

@[simp] theorem Uuid.toBytes_length (uuid : Uuid) : (Uuid.toBytes uuid).length = 16 :=
  toBytesBE_length 16 _

@[simp] theorem decodeUuid_toBytes (field : String) (uuid : Uuid) :
    decodeUuid field (Uuid.toBytes uuid) = .ok uuid := by
  have hvalue : ofBytesBE (Uuid.toBytes uuid) = uuid.bits.toNat :=
    ofBytesBE_toBytesBE uuid.bits.isLt
  simp [decodeUuid, hvalue]

theorem Uuid.toBytes_inj {u v : Uuid} : Uuid.toBytes u = Uuid.toBytes v ↔ u = v := by
  constructor
  · intro h
    have hu := decodeUuid_toBytes "" u
    rw [h, decodeUuid_toBytes] at hu
    exact (Except.ok.inj hu).symm
  · rintro rfl
    rfl

/-- Only the bytes of an identifier are decoded to it. -/
theorem decodeUuid_eq_ok {field : String} {bytes : List UInt8} {uuid : Uuid} :
    decodeUuid field bytes = .ok uuid ↔ bytes = Uuid.toBytes uuid := by
  constructor
  · intro h
    unfold decodeUuid at h
    by_cases hlength : bytes.length = 16
    · rw [if_pos hlength] at h
      cases h
      have hlt : ofBytesBE bytes < 2 ^ 128 := by
        have hlt := ofBytesBE_lt bytes
        rwa [hlength] at hlt
      have hbytes := toBytesBE_ofBytesBE bytes
      rw [hlength] at hbytes
      unfold Uuid.toBytes
      rw [BitVec.toNat_ofNat, Nat.mod_eq_of_lt hlt]
      exact hbytes.symm
    · rw [if_neg hlength] at h
      cases h
  · rintro rfl
    exact decodeUuid_toBytes field uuid

attribute [irreducible] Uuid.toBytes

@[simp] theorem decodeU64_encode (field : String) (value : UInt64) :
    decodeU64 field (encodeU64 value) = .ok value := by
  have hvalue : ofBytesBE (encodeU64 value) = value.toNat := ofBytesBE_toBytesBE value.toNat_lt
  simp [decodeU64, hvalue]
  simp [encodeU64]

@[simp] theorem decodeU32_encode (field : String) (value : UInt32) :
    decodeU32 field (encodeU32 value) = .ok value := by
  have hlt := value.toNat_lt
  simp [decodeU32, encodeU32]
  omega

theorem encodeU32_range (value : UInt32) : 0 ≤ encodeU32 value ∧ encodeU32 value ≤ 4294967295 := by
  have hlt := value.toNat_lt
  simp [encodeU32]
  omega

@[simp] theorem decodeCompleted_encode (completed : Bool) :
    decodeCompleted (if completed then 1 else 0) = .ok completed := by
  cases completed <;> rfl

theorem decodePath_segments (field : String) (path : NodePath) :
    decodePath field (path.segments.map NodeId.value) = .ok path := by
  have hmap : (path.graphPath.segments.map NodeId.value).map NodeId.mk = path.graphPath.segments := by
    simp [List.map_map, Function.comp_def]
  simp [decodePath, NodePath.segments, hmap]

theorem decodePaths_encode {json : PathJson} {paths : List NodePath} {text : String}
    (h : json.fromString text = .ok (paths.map fun path => path.segments.map NodeId.value))
    (field : String) : decodePaths json text field = .ok paths := by
  have hpaths : (paths.map fun path => path.segments.map NodeId.value).mapM (decodePath field) =
      .ok paths := by
    rw [mapM_eq_ok, List.forall₂_map_left_iff, List.forall₂_same]
    intro path _
    exact decodePath_segments field path
  unfold decodePaths
  rw [h]
  exact hpaths

/-- The paths `serde_json` has to carry for a record. -/
def recordPaths (record : CheckpointRecord) : List (List NodePath) :=
  record.nextFrontier :: (record.interrupt.map fun interrupt => [interrupt.nodePath]).toList

/-- `serde_json` reads back the paths of a record. -/
def PathJson.Carries (json : PathJson) (record : CheckpointRecord) : Prop :=
  ∀ paths ∈ recordPaths record, ∃ text,
    json.toString (paths.map fun path => path.segments.map NodeId.value) = .ok text ∧
      json.fromString text = .ok (paths.map fun path => path.segments.map NodeId.value)

theorem PathJson.Carries.encode {json : PathJson} {record : CheckpointRecord}
    (h : json.Carries record) {paths : List NodePath} (hpaths : paths ∈ recordPaths record)
    (field : String) : ∃ text, encodePaths json paths field = .ok text ∧
      ∀ field', decodePaths json text field' = .ok paths := by
  obtain ⟨text, hto, hfrom⟩ := h paths hpaths
  exact ⟨text, by rw [encodePaths, hto]; rfl, fun field' => decodePaths_encode hfrom field'⟩

/-- A row that stands for a record. -/
structure Encodes (json : PathJson) (record : CheckpointRecord) (row : EncodedRecord) : Prop where
  encoded : EncodedRecord.tryFromRecord json record = .ok row
  decoded : decodeRow json row = .ok record
  checks : row.Checks
  checkpointId : row.checkpointId = Uuid.toBytes record.id.uuid
  threadId : row.threadId = record.threadId.value
  parentId : row.parentId = record.parentId.map fun id => Uuid.toBytes id.uuid

section Interrupt

/-! The row of a record, with any interrupt columns. -/

variable {record : CheckpointRecord} {frontierJson : String} {id : Option (List UInt8)}
  {path schema : Option String} {version : Option Int} {encoding : Option String}
  {bytes : Option (List UInt8)} {row : EncodedRecord}
  (hrow : row = { EncodedRecord.plain record frontierJson with
    interruptId := id
    interruptNodePathJson := path
    interruptSchema := schema
    interruptSchemaVersion := version
    interruptEncoding := encoding
    interruptBytes := bytes })

include hrow

theorem EncodedRecord.checks_of_plain (hid : ∀ i ∈ id, i.length = 16)
    (hversion : ∀ v ∈ version, 0 ≤ v ∧ v ≤ 4294967295)
    (hall : id.isSome = path.isSome ∧ id.isSome = schema.isSome ∧ id.isSome = version.isSome ∧
      id.isSome = encoding.isSome ∧ id.isSome = bytes.isSome) : row.Checks := by
  subst hrow
  exact
    { checkpointId := Uuid.toBytes_length _
      runId := Uuid.toBytes_length _
      parentId := by
        intro i hi
        obtain ⟨parent, -, rfl⟩ := Option.map_eq_some_iff.mp hi
        exact Uuid.toBytes_length _
      formatVersion := encodeU32_range _
      superstepBe := toBytesBE_length 8 _
      stepBe := toBytesBE_length 8 _
      snapshotSchemaVersion := encodeU32_range _
      completed := by
        show (if record.completed then (1 : Int) else 0) = 0 ∨
          (if record.completed then (1 : Int) else 0) = 1
        cases record.completed
        · exact .inl rfl
        · exact .inr rfl
      interruptId := hid
      interruptSchemaVersion := hversion
      interrupt := hall }

/-- Decoding is decoding the interrupt: the other columns read back as they were. -/
theorem decodeRow_of_plain {json : PathJson}
    (hfrontier : decodePaths json frontierJson "frontier_json" = .ok record.nextFrontier)
    (hinterrupt : decodeInterrupt json row = .ok record.interrupt) :
    decodeRow json row = .ok record := by
  have hparent : (record.parentId.map fun id => Uuid.toBytes id.uuid).mapM
      (decodeUuid "parent_id") = Except.ok (record.parentId.map CheckpointId.uuid) := by
    cases record.parentId with
    | none => rfl
    | some id =>
      rw [Option.map_some, Option.mapM_some, decodeUuid_toBytes]
      rfl
  have hparts : CheckpointRecord.tryFromParts record.toCheckpointRecordParts = .ok record := by
    unfold CheckpointRecord.tryFromParts
    split
    · rename_i error herror
      rw [record.sound] at herror
      exact nomatch herror
    · rfl
  have hids : (record.parentId.map CheckpointId.uuid).map CheckpointId.mk = record.parentId := by
    cases record.parentId <;> rfl
  have hversion : (record.graphVersion.map GraphVersion.value).map GraphVersion.mk =
      record.graphVersion := by
    cases record.graphVersion <;> rfl
  unfold decodeRow decodeRowFields
  rw [hinterrupt, hrow]
  simp only [EncodedRecord.plain, hparent, hfrontier, decodeUuid_toBytes, decodeU32_encode,
    decodeU64_encode, decodeCompleted_encode, ok_bind, hids, hversion]
  exact congrArg (fun r => (Except.mapError SqliteRecordError.record r).mapError _) hparts

end Interrupt

/-- Every record whose paths `serde_json` carries has a row that reads back as the record. -/
theorem decode_encode {json : PathJson} {record : CheckpointRecord} (h : json.Carries record) :
    ∃ row, Encodes json record row := by
  obtain ⟨frontierJson, hencode, hdecode⟩ := h.encode (List.mem_cons_self) "frontier_json"
  cases hinterrupt : record.interrupt with
  | none =>
    have hrow : EncodedRecord.plain record frontierJson = EncodedRecord.plain record frontierJson :=
      rfl
    refine ⟨EncodedRecord.plain record frontierJson, ?_, ?_, ?_, rfl, rfl, rfl⟩
    · rw [EncodedRecord.tryFromRecord, hencode, ok_bind, hinterrupt]
      rfl
    · exact decodeRow_of_plain hrow (hdecode _) (by rw [hinterrupt]; rfl)
    · exact EncodedRecord.checks_of_plain hrow nofun nofun ⟨rfl, rfl, rfl, rfl, rfl⟩
  | some interrupt =>
    have hmem : [interrupt.nodePath] ∈ recordPaths record := by
      simp [recordPaths, hinterrupt]
    obtain ⟨pathJson, hpath, hpath'⟩ := h.encode hmem "interrupt_node_path_json"
    refine ⟨{ EncodedRecord.plain record frontierJson with
        interruptId := some (Uuid.toBytes interrupt.id.uuid)
        interruptNodePathJson := some pathJson
        interruptSchema := some interrupt.payload.descriptor.schema
        interruptSchemaVersion := some (encodeU32 interrupt.payload.descriptor.schemaVersion)
        interruptEncoding := some interrupt.payload.descriptor.encoding
        interruptBytes := some interrupt.payload.bytes }, ?_, ?_, ?_, rfl, rfl, rfl⟩
    · rw [EncodedRecord.tryFromRecord, hencode, ok_bind, hinterrupt]
      simp only [hpath, ok_bind]
      rfl
    · refine decodeRow_of_plain rfl (hdecode _) ?_
      rw [hinterrupt, decodeInterrupt]
      simp only [hpath', ok_bind, decodeUuid_toBytes, decodeU32_encode]
      rfl
    · exact EncodedRecord.checks_of_plain rfl (by simp) (by simp [encodeU32_range]) (by simp)

/-- **A record survives its row.** What is stored for a record fits the table's constraints and is
decoded to the record, and no other record is stored as the same row. -/
theorem record_round_trip {json : PathJson} {record : CheckpointRecord} (h : json.Carries record) :
    ∃ row, EncodedRecord.tryFromRecord json record = .ok row ∧ row.Checks ∧
      decodeRowFields json row = .ok record ∧
      ∀ other, json.Carries other → EncodedRecord.tryFromRecord json other = .ok row →
        other = record := by
  obtain ⟨row, hrow⟩ := decode_encode h
  have hdecode : decodeRowFields json row = .ok record := mapError_eq_ok.mp hrow.decoded
  refine ⟨row, hrow.encoded, hrow.checks, hdecode, fun other hother hencode => ?_⟩
  obtain ⟨row', hrow'⟩ := decode_encode hother
  have hsame : row = row' := Except.ok.inj (hencode.symm.trans hrow'.encoded)
  subst hsame
  exact Except.ok.inj ((mapError_eq_ok.mp hrow'.decoded).symm.trans hdecode)

namespace Suspended

/-- `serde_json` on one nested path. -/
def nested : PathJson where
  toString paths :=
    if paths = [["sub", "a\"b"]] then .ok "[[\"sub\",\"a\\\"b\"]]" else .error "unsupported"
  fromString text :=
    if text = "[[\"sub\",\"a\\\"b\"]]" then .ok [["sub", "a\"b"]] else .error "unsupported"

/-- A record interrupted in a subgraph, with its counters at their ends. -/
def interrupted : CheckpointRecord where
  formatVersion := ⟨4294967295⟩
  checkpointId := ⟨⟨0⟩⟩
  threadId := ⟨""⟩
  runId := ⟨⟨1⟩⟩
  parentId := some ⟨⟨2⟩⟩
  graphVersion := some ⟨""⟩
  superstep := 18446744073709551615
  step := 0
  snapshot := ⟨⟨"state", 0, "json"⟩, [0, 255]⟩
  nextFrontier := [⟨⟨[⟨"sub"⟩]⟩, ⟨"a\"b"⟩⟩]
  completed := false
  interrupt := some ⟨⟨⟨3⟩⟩, ⟨⟨[⟨"sub"⟩]⟩, ⟨"a\"b"⟩⟩, ⟨⟨"ask", 4294967295, "json"⟩, []⟩⟩
  sound := by decide

/-- The interrupted record is decoded from its row. -/
theorem record_round_trip_suspended :
    ∃ row, EncodedRecord.tryFromRecord nested interrupted = .ok row ∧
      decodeRowFields nested row = .ok interrupted := by
  have hcarries : nested.Carries interrupted := by
    intro paths hpaths
    obtain rfl : paths = interrupted.nextFrontier := by
      simpa [recordPaths, interrupted] using hpaths
    exact ⟨"[[\"sub\",\"a\\\"b\"]]", rfl, rfl⟩
  obtain ⟨row, hencode, -, hdecode, -⟩ := record_round_trip hcarries
  exact ⟨row, hencode, hdecode⟩

end Suspended

end GroupAgent.Sqlite
