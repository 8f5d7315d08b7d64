import GroupAgent.Sqlite.Store
import Mathlib.Data.List.Forall2

/-!
# The SQLite tables hold a ledger

`Represents` says which ledger (`Core.Ledger`) the tables of `SqliteCheckpointStore`
(`lib.rs:182-184`) hold: the records as rows in the order they were accepted, the heads of threads
and branches, the members of branches with their sequence numbers.

* `represents_migrated`: the tables that the migrations leave hold the empty ledger.
* Every read answers as the ledger does, and never finds the tables corrupt.
* `Represents.append`, `Represents.openBranch`: the statements of a write take the tables to those
  of the ledger behind it. No constraint and no trigger refuses a write that the ledger accepts.

`Agree` puts the writes together and compares the answers with those of the in-memory store. The
tables here are those that the store itself has written; `History` is about any others.
-/

namespace GroupAgent.Sqlite

open GroupAgent.Core GroupAgent.Lib

/-! ## The ledger the tables hold -/

/-- The row of an opened branch. -/
def branchRow (l : Ledger) (branch : BranchId × CheckpointRecord) : BranchRow where
  branchId := Uuid.toBytes branch.1.uuid
  threadId := branch.2.threadId.value
  sourceCheckpointId := Uuid.toBytes branch.2.id.uuid
  headCheckpointId := Uuid.toBytes
    (lastKey CheckpointRecord.id branch.2.id (l.lane branch.2.threadId (some branch.1))).uuid

/-- The membership row of a record that stands on a branch. -/
def memberRow (e : CheckpointRecord × Place) : Option BranchRecordRow :=
  e.2.map fun branchId =>
    { checkpointId := Uuid.toBytes e.1.id.uuid
      threadId := e.1.threadId.value
      branchId := Uuid.toBytes branchId.uuid }

def headRow (record : CheckpointRecord) : HeadRow :=
  ⟨record.threadId.value, Uuid.toBytes record.id.uuid⟩

theorem toBytes_id_inj {a b : CheckpointId} :
    a = b ↔ Uuid.toBytes a.uuid = Uuid.toBytes b.uuid := by
  rw [Uuid.toBytes_inj]
  exact ⟨congrArg _, fun h => by cases a; cases b; cases h; rfl⟩

theorem toBytes_branch_inj {a b : BranchId} :
    a = b ↔ Uuid.toBytes a.uuid = Uuid.toBytes b.uuid := by
  rw [Uuid.toBytes_inj]
  exact ⟨congrArg _, fun h => by cases a; cases b; cases h; rfl⟩

theorem threadId_inj {a b : ThreadId} : a = b ↔ a.value = b.value :=
  ⟨congrArg _, fun h => by cases a; cases b; cases h; rfl⟩

/-- The record table: a row for each entry, in sequence. -/
structure Stored (json : PathJson) (l : Ledger) (t : Tables) : Prop where
  records : List.Forall₂ (fun e row => Encodes json e.1 row.fields) l.entries t.records
  ordered : t.records.Pairwise fun a b => a.sequence < b.sequence
  sequence : ∀ row ∈ t.records, row.sequence ≤ t.sequence

structure Represents (json : PathJson) (l : Ledger) (t : Tables) : Prop
    extends Stored json l t where
  head : ∀ threadId : ThreadId,
    t.selectHead threadId.value = (l.lane threadId none).getLast?.map headRow
  heads : ∀ head ∈ t.heads, ∃ record, (record, none) ∈ l.entries ∧ head = headRow record
  branches : t.branches = l.branches.map (branchRow l)
  branchRecords : t.branchRecords = l.entries.filterMap memberRow

theorem represents_migrated (json : PathJson) : Represents json .empty .migrated where
  records := .nil
  ordered := .nil
  sequence _ h := nomatch h
  head _ := rfl
  heads _ h := nomatch h
  branches := rfl
  branchRecords := rfl

theorem decodeRows {json : PathJson} {records : List CheckpointRecord} {rows : List RecordRow}
    (h : List.Forall₂ (fun record row => Encodes json record row.fields) records rows) :
    rows.mapM (fun row => decodeRow json row.fields) = .ok records := by
  rw [mapM_eq_ok]
  exact h.flip.imp fun _ _ hencodes => hencodes.decoded

/-! ## What the queries select -/

section Queries

variable {json : PathJson} {l : Ledger} {t : Tables} (h : Represents json l t)

include h

theorem Represents.selectRecord (id : CheckpointId) :
    (l.filed? id = none ∧ t.selectRecord (Uuid.toBytes id.uuid) = none) ∨
    ∃ e row, l.filed? id = some e ∧ t.selectRecord (Uuid.toBytes id.uuid) = some row ∧
      Encodes json e.1 row.fields := by
  refine lookup_rel ?_ h.records
  intro e row hrow
  rw [hrow.checkpointId, toBytes_id_inj]

theorem Represents.fetchRecordById (id : CheckpointId) :
    t.fetchRecordById json id = .ok ((l.filed? id).map Prod.fst) := by
  unfold Tables.fetchRecordById
  obtain ⟨hentry, hrow⟩ | ⟨e, row, hentry, hrow, hencodes⟩ := h.selectRecord id
  · rw [hentry, hrow]
    rfl
  · rw [hentry, hrow, Option.mapM_some, hencodes.decoded]
    rfl

theorem Represents.fetchHead (threadId : ThreadId) :
    t.fetchHead threadId = .ok (tip CheckpointRecord.id none (l.lane threadId none)) := by
  unfold Tables.fetchHead
  rw [h.head, tip_none]
  cases (l.lane threadId none).getLast? with
  | none => rfl
  | some record =>
    rw [Option.map_some, Option.map_some, Option.mapM_some]
    simp only [headRow, decodeUuid_toBytes]
    rfl

theorem Represents.selectThreadRecord (hl : l.Sound) (threadId : ThreadId) (id : CheckpointId) :
    (l.get threadId id = none ∧
      t.selectThreadRecord threadId.value (Uuid.toBytes id.uuid) = none) ∨
    ∃ record row, l.get threadId id = some record ∧
      t.selectThreadRecord threadId.value (Uuid.toBytes id.uuid) = some row ∧
      Encodes json record row.fields := by
  have hget : (lookup (fun e : CheckpointRecord × Place => (e.1.threadId, e.1.id)) (threadId, id)
      l.entries).map Prod.fst = l.get threadId id := by
    rw [lookup_pair hl.ids]
    unfold Ledger.get Ledger.filed?
    cases lookup (fun e : CheckpointRecord × Place => e.1.id) id l.entries with
    | none => rfl
    | some e => by_cases he : e.1.threadId = threadId <;> simp [Option.filter, he]
  have hkeys : ∀ (e : CheckpointRecord × Place) (row : RecordRow), Encodes json e.1 row.fields →
      ((e.1.threadId, e.1.id) = (threadId, id) ↔
        (row.fields.threadId, row.fields.checkpointId) =
          (threadId.value, Uuid.toBytes id.uuid)) := by
    intro e row hrow
    rw [Prod.mk.injEq, Prod.mk.injEq, hrow.checkpointId, hrow.threadId, toBytes_id_inj,
      threadId_inj]
  obtain ⟨hentry, hrow⟩ | ⟨e, row, hentry, hrow, hencodes⟩ := lookup_rel hkeys h.records
  · exact .inl ⟨by rw [← hget, hentry]; rfl, hrow⟩
  · exact .inr ⟨e.1, row, by rw [← hget, hentry]; rfl, hrow, hencodes⟩

theorem Represents.hasThreadRecord (hl : l.Sound) (threadId : ThreadId) (id : CheckpointId) :
    t.hasThreadRecord threadId.value (Uuid.toBytes id.uuid) = (l.get threadId id).isSome := by
  unfold Tables.hasThreadRecord
  obtain ⟨hget, hrow⟩ | ⟨record, row, hget, hrow, -⟩ := h.selectThreadRecord hl threadId id
  · rw [hget, hrow]
    rfl
  · rw [hget, hrow]
    rfl

theorem Represents.selectBranch (branchId : BranchId) :
    t.selectBranch (Uuid.toBytes branchId.uuid) =
      (l.source? branchId).map fun source => branchRow l (branchId, source) := by
  have hkey : (lookup (fun b => (branchRow l b).branchId) (Uuid.toBytes branchId.uuid) l.branches) =
      lookup Prod.fst branchId l.branches := by
    unfold lookup
    congr 1
    funext b
    simp only [branchRow, ← toBytes_branch_inj]
  unfold Tables.selectBranch Ledger.source?
  rw [h.branches, lookup_map, hkey, Option.map_map]
  cases hbranch : lookup Prod.fst branchId l.branches with
  | none => rfl
  | some b =>
    obtain rfl := lookup_key hbranch
    rfl

theorem Represents.selectMembership (hl : l.Sound) (id : CheckpointId) :
    t.selectMembership (Uuid.toBytes id.uuid) = (l.filed? id).bind memberRow := by
  unfold Tables.selectMembership Ledger.filed?
  rw [h.branchRecords]
  refine lookup_filterMap hl.ids ?_
  intro e row hrow
  obtain ⟨branchId, -, rfl⟩ := Option.map_eq_some_iff.mp hrow
  exact toBytes_id_inj.symm

/-! ## Reading the default history -/

theorem Represents.get (hl : l.Sound) (threadId : ThreadId) (id : CheckpointId) :
    t.get json threadId id = .ok (l.get threadId id) := by
  unfold Tables.get
  obtain ⟨hget, hrow⟩ | ⟨record, row, hget, hrow, hencodes⟩ := h.selectThreadRecord hl threadId id
  · rw [hget, hrow]
    rfl
  · rw [hget, hrow, Option.mapM_some, hencodes.decoded]
    rfl

theorem Represents.latest (hl : l.Sound) (threadId : ThreadId) :
    t.latest json threadId = .ok (l.lane threadId none).getLast? := by
  unfold Tables.latest
  rw [h.head]
  cases hlast : (l.lane threadId none).getLast? with
  | none => rfl
  | some record =>
    have hmem := (Ledger.mem_lane.mp (List.mem_of_getLast? hlast)).1
    rw [Option.map_some, Option.bind_some]
    obtain ⟨hentry, -⟩ | ⟨e, row, hentry, hrow, hencodes⟩ := h.selectRecord record.id
    · rw [hl.filed?_iff.mpr hmem] at hentry
      exact nomatch hentry
    · rw [hl.filed?_iff.mpr hmem] at hentry
      cases hentry
      rw [show t.selectRecord (headRow record).checkpointId = some row from hrow, Option.mapM_some,
        hencodes.decoded]
      rfl

/-- The rows of a lane, in the order of their sequences. -/
theorem Represents.laneRows (threadId : ThreadId) (place : Place) :
    ∃ rows, rows.Sublist t.records ∧
      List.Forall₂ (fun record row => Encodes json record row.fields) (l.lane threadId place) rows := by
  obtain ⟨rows, hsub, hrows⟩ := forall₂_sublist h.records
    (List.filter_sublist (p := fun e => e.2 = place ∧ e.1.threadId = threadId))
  exact ⟨rows, hsub, List.forall₂_map_left_iff.mpr hrows⟩

theorem Represents.isMember_iff (hl : l.Sound) {e : CheckpointRecord × Place} (he : e ∈ l.entries) :
    (∃ member ∈ t.branchRecords, member.threadId = e.1.threadId.value ∧
      member.checkpointId = Uuid.toBytes e.1.id.uuid) ↔ e.2 ≠ none := by
  rw [h.branchRecords]
  constructor
  · rintro ⟨member, hmem, -, hid⟩
    obtain ⟨e', he', hrow⟩ := List.mem_filterMap.mp hmem
    obtain ⟨branchId, hplace, rfl⟩ := Option.map_eq_some_iff.mp hrow
    have hsame := List.inj_on_of_nodup_map hl.ids he' he (toBytes_id_inj.mpr hid)
    rw [← hsame, hplace]
    exact Option.some_ne_none branchId
  · intro hplace
    obtain ⟨branchId, hbranch⟩ := Option.ne_none_iff_exists'.mp hplace
    exact ⟨_, List.mem_filterMap.mpr ⟨e, he, by rw [memberRow, hbranch, Option.map_some]⟩, rfl, rfl⟩

theorem Represents.history (hl : l.Sound) (threadId : ThreadId) :
    t.history json threadId = .ok (l.lane threadId none) := by
  have hrows : List.Forall₂ (fun e row => Encodes json e.1 row.fields)
      (l.entries.filter fun e => e.2 = none ∧ e.1.threadId = threadId)
      (t.records.filter fun row => row.fields.threadId = threadId.value ∧
        ¬∃ member ∈ t.branchRecords, member.threadId = row.fields.threadId ∧
          member.checkpointId = row.fields.checkpointId) := by
    have hall := (List.forall₂_and_left (p := fun e => e ∈ l.entries) l.entries t.records).mpr
      ⟨fun e he => he, h.records⟩
    refine (List.rel_filter ?_ hall).imp fun _ _ hrow => hrow.2
    rintro e row ⟨he, hrow⟩
    simp only [decide_eq_true_iff]
    rw [hrow.threadId, hrow.checkpointId, h.isMember_iff hl he, not_not, ← threadId_inj]
    exact and_comm
  have hsorted : t.selectHistory threadId.value = t.records.filter fun row =>
      row.fields.threadId = threadId.value ∧
        ¬∃ member ∈ t.branchRecords, member.threadId = row.fields.threadId ∧
          member.checkpointId = row.fields.checkpointId := by
    refine List.mergeSort_of_pairwise ((h.ordered.sublist List.filter_sublist).imp ?_)
    intro a b hlt
    exact decide_eq_true (Nat.le_of_lt hlt)
  unfold Tables.history
  rw [hsorted]
  rw [decodeRows (List.forall₂_map_left_iff.mpr hrows)]
  rfl

/-! ## Reading a branch -/

theorem Represents.recordIds (hl : l.Sound) :
    (t.records.map fun row => row.fields.checkpointId).Nodup := by
  have hmap : (t.records.map fun row => row.fields.checkpointId) =
      (l.entries.map fun e => e.1.id).map fun id => Uuid.toBytes id.uuid := by
    rw [List.map_map, ← List.forall₂_eq_eq_eq, List.forall₂_map_left_iff,
      List.forall₂_map_right_iff]
    exact h.records.flip.imp fun _ _ hrow => hrow.checkpointId
  rw [hmap]
  exact hl.ids.map fun _ _ heq => toBytes_id_inj.mpr heq

/-- The row of an accepted record. -/
theorem Represents.row_of_mem (hl : l.Sound) {record : CheckpointRecord} {place : Place}
    (hmem : (record, place) ∈ l.entries) :
    ∃ row, t.selectRecord (Uuid.toBytes record.id.uuid) = some row ∧
      decodeRow json row.fields = .ok record := by
  have hentry := hl.filed?_iff.mpr hmem
  obtain ⟨hnone, -⟩ | ⟨e, row, hsome, hrow, hencodes⟩ := h.selectRecord record.id
  · rw [hentry] at hnone
    exact nomatch hnone
  · rw [hentry] at hsome
    cases hsome
    exact ⟨row, hrow, hencodes.decoded⟩

end Queries

/-- The row the branch history query selects for a record. -/
def selectedRow (t : Tables) (source head : CheckpointId) (role : Nat) (id : CheckpointId) :
    Tables.SelectedRow where
  sourceCheckpointId := Uuid.toBytes source.uuid
  headCheckpointId := Uuid.toBytes head.uuid
  selectedCheckpointId := Uuid.toBytes id.uuid
  membershipRole := role
  record := t.selectRecord (Uuid.toBytes id.uuid)

/-- The last record of a branch. -/
def branchTip (l : Ledger) (branchId : BranchId) (source : CheckpointRecord) : CheckpointId :=
  lastKey CheckpointRecord.id source.id (l.lane source.threadId (some branchId))

/-- The head of a branch is an accepted record of its thread, the last of its history. -/
theorem branchTip_mem {l : Ledger} (hl : l.Sound) {branchId : BranchId} {source : CheckpointRecord}
    (hsource : l.source? branchId = some source) :
    ∃ last place, (last, place) ∈ l.entries ∧ last.threadId = source.threadId ∧
      last.id = branchTip l branchId source ∧
      last ∈ source :: l.lane source.threadId (some branchId) ∧
      (source :: l.lane source.threadId (some branchId)).getLast? = some last := by
  obtain ⟨last, hlast, hid, hget⟩ : ∃ last ∈ source :: l.lane source.threadId (some branchId),
      branchTip l branchId source = last.id ∧
      (source :: l.lane source.threadId (some branchId)).getLast? = some last :=
    lastKey_cons_mem source.id source _
  rcases List.mem_cons.mp hlast with rfl | hmem
  · obtain ⟨place, hroot, -⟩ := hl.rooted branchId last hsource
    exact ⟨last, place, hroot, rfl, hid.symm, hlast, hget⟩
  · obtain ⟨hentry, hthread⟩ := Ledger.mem_lane.mp hmem
    exact ⟨last, some branchId, hentry, hthread, hid.symm, hlast, hget⟩

section Branches

variable {json : PathJson} {l : Ledger} {t : Tables} (h : Represents json l t) (hl : l.Sound)

include h hl

theorem Represents.selectedBranch (threadId : ThreadId) (branchId : BranchId) :
    (t.branches.filter fun branch =>
      branch.isOf threadId.value (Uuid.toBytes branchId.uuid)) =
    (((l.source? branchId).filter fun source => source.threadId = threadId).map fun source =>
      branchRow l (branchId, source)).toList := by
  have hfilter : (l.branches.filter fun b =>
      (branchRow l b).isOf threadId.value (Uuid.toBytes branchId.uuid)) =
      (lookup Prod.fst branchId l.branches).toList.filter fun b => b.2.threadId = threadId := by
    rw [← filter_key hl.branchIds, List.filter_filter]
    congr 1
    funext b
    simp only [branchRow, BranchRow.isOf, ← toBytes_branch_inj, ← threadId_inj,
      Bool.decide_and]
  rw [h.branches, List.filter_map]
  unfold Ledger.source?
  rw [show (l.branches.filter ((fun branch => branch.isOf threadId.value
    (Uuid.toBytes branchId.uuid)) ∘ branchRow l)) = _ from hfilter]
  cases hbranch : lookup Prod.fst branchId l.branches with
  | none => rfl
  | some b =>
    obtain rfl := lookup_key hbranch
    by_cases hthread : b.2.threadId = threadId <;> simp [Option.filter, hthread]

omit hl in
theorem Represents.memberships (threadId : ThreadId) (branchId : BranchId) :
    (t.branchRecords.filter fun membership => membership.threadId = threadId.value ∧
      membership.branchId = Uuid.toBytes branchId.uuid).map BranchRecordRow.checkpointId =
    (l.lane threadId (some branchId)).map fun record => Uuid.toBytes record.id.uuid := by
  rw [h.branchRecords]
  unfold Ledger.lane
  rw [List.map_map]
  induction l.entries with
  | nil => rfl
  | cons e entries ih =>
    obtain ⟨record, place⟩ := e
    cases place with
    | none => simpa [List.filterMap_cons, memberRow] using ih
    | some branchId' =>
      by_cases hmem : branchId' = branchId ∧ record.threadId = threadId
      · obtain ⟨rfl, rfl⟩ := hmem
        simpa [List.filterMap_cons, memberRow] using ih
      · have hrow : ¬(record.threadId.value = threadId.value ∧
            Uuid.toBytes branchId'.uuid = Uuid.toBytes branchId.uuid) := by
          rw [← threadId_inj, ← toBytes_branch_inj]
          exact fun hand => hmem hand.symm
        simpa [List.filterMap_cons, memberRow, hmem, hrow] using ih

theorem Represents.laneSequences (threadId : ThreadId) (place : Place)
    (source head : CheckpointId) :
    ((l.lane threadId place).map fun record => selectedRow t source head 1 record.id).Pairwise
      fun a b => Tables.SelectedRow.le a b = true := by
  obtain ⟨rows, hsub, hrows⟩ := h.laneRows threadId place
  have hselect : (l.lane threadId place).map (fun record => selectedRow t source head 1 record.id) =
      rows.map fun row => ⟨Uuid.toBytes source.uuid, Uuid.toBytes head.uuid,
        row.fields.checkpointId, 1, some row⟩ := by
    have hall := (List.forall₂_and_left (p := fun row => row ∈ t.records) rows _).mpr
      ⟨fun row hrow => hsub.subset hrow, hrows.flip⟩
    rw [← List.forall₂_eq_eq_eq, List.forall₂_map_left_iff, List.forall₂_map_right_iff]
    refine hall.flip.imp ?_
    rintro record row ⟨hmem, hencodes⟩
    have hrow : t.selectRecord (Uuid.toBytes record.id.uuid) = some row :=
      (lookup_iff (h.recordIds hl)).mpr ⟨hmem, hencodes.checkpointId⟩
    rw [selectedRow, hrow, hencodes.checkpointId]
  rw [hselect, List.pairwise_map]
  refine (h.ordered.sublist hsub).imp ?_
  intro a b hlt
  simp [Tables.SelectedRow.le, Tables.SelectedRow.sequence, hlt]

theorem Represents.selectBranchHistory_none {threadId : ThreadId} {branchId : BranchId}
    (hnone : (l.source? branchId).filter (fun source => source.threadId = threadId) = none) :
    t.selectBranchHistory threadId.value (Uuid.toBytes branchId.uuid) = [] := by
  have hbranch := h.selectedBranch hl threadId branchId
  rw [hnone] at hbranch
  unfold Tables.selectBranchHistory
  simp [hbranch]

theorem Represents.selectBranchHistory {branchId : BranchId} {source : CheckpointRecord}
    (hsource : l.source? branchId = some source) :
    t.selectBranchHistory source.threadId.value (Uuid.toBytes branchId.uuid) =
      selectedRow t source.id (branchTip l branchId source) 0 source.id ::
        ((l.lane source.threadId (some branchId)).map fun record =>
          selectedRow t source.id (branchTip l branchId source) 1 record.id) ++
        [selectedRow t source.id (branchTip l branchId source) 2 (branchTip l branchId source)] := by
  have hbranch := h.selectedBranch hl source.threadId branchId
  rw [hsource, Option.filter_some, if_pos (decide_eq_true rfl)] at hbranch
  unfold Tables.selectBranchHistory
  rw [hbranch]
  have hmembers : ((t.branchRecords.filter fun membership =>
      membership.threadId = source.threadId.value ∧
        membership.branchId = Uuid.toBytes branchId.uuid).map fun membership =>
          (membership.checkpointId, 1)) =
      (l.lane source.threadId (some branchId)).map fun record =>
        (Uuid.toBytes record.id.uuid, 1) := by
    have hids := congrArg (List.map fun id => (id, 1)) (h.memberships source.threadId branchId)
    rwa [List.map_map, List.map_map] at hids
  have hlane := h.laneSequences hl source.threadId (some branchId) source.id
    (branchTip l branchId source)
  simp only [Option.map_some, Option.toList_some, List.map_cons, List.map_nil, List.flatMap_cons,
    List.flatMap_nil, List.append_nil, branchRow, hmembers, List.cons_append, List.nil_append,
    List.map_append, List.map_map]
  refine List.mergeSort_of_pairwise ?_
  refine List.pairwise_cons.mpr ⟨?_, List.pairwise_append.mpr
    ⟨hlane, List.pairwise_singleton _ _, ?_⟩⟩
  · intro row hrow
    rcases List.mem_append.mp hrow with hrow | hrow
    · obtain ⟨record, -, rfl⟩ := List.mem_map.mp hrow
      rfl
    · rw [List.mem_singleton.mp hrow]
      rfl
  · intro a ha b hb
    obtain ⟨record, -, rfl⟩ := List.mem_map.mp ha
    rw [List.mem_singleton.mp hb]
    rfl

/-- Scanning the row of an accepted record of the thread: what is left to check. -/
theorem Represents.scanRow (branchId : BranchId) (sourceId headId : CheckpointId)
    {record : CheckpointRecord} {place : Place} (hmem : (record, place) ∈ l.entries)
    (scan : Tables.BranchScan) (position role : Nat)
    (hfirst : position = 0 → role = 0 ∧ record.id = sourceId)
    (hseen : role ≠ 2 → record.id ∉ scan.seen) :
    (role < 2 → (∀ previous ∈ scan.history.getLast?, record.parentId = some previous.id) →
      Tables.scanRow json record.threadId branchId sourceId headId scan position
        (selectedRow t sourceId headId role record.id) =
      .ok { scan with
        history := scan.history ++ [record]
        seen := scan.seen ++ [record.id] }) ∧
    (role = 2 → record.id = headId →
      Tables.scanRow json record.threadId branchId sourceId headId scan position
        (selectedRow t sourceId headId role record.id) = .ok { scan with validatedHead := true }) := by
  obtain ⟨row, hrow, hdecode⟩ := h.row_of_mem hl hmem
  have hid : Tables.decodeCheckpointId "selected_checkpoint_id"
      (Uuid.toBytes record.id.uuid) = .ok record.id := by
    rw [Tables.decodeCheckpointId, decodeUuid_toBytes]
    rfl
  have hnot : ¬(position = 0 ∧ (role ≠ 0 ∨ record.id ≠ sourceId)) := by
    rintro ⟨hzero, hne⟩
    exact hne.elim (fun hr => hr (hfirst hzero).1) (fun hs => hs (hfirst hzero).2)
  have hdup : ¬(role ≠ 2 ∧ record.id ∈ scan.seen) := fun hand => hseen hand.1 hand.2
  have howner : ∀ relation,
      Tables.ensureBranchRecordThread relation branchId record.threadId record = .ok () := by
    intro relation
    simp [Tables.ensureBranchRecordThread]
  unfold Tables.scanRow
  simp only [selectedRow, hid, ok_bind, if_neg hnot, if_neg hdup, hrow, hdecode, howner]
  constructor
  · intro hrole hprevious
    have hparent : scan.history.getLast?.filter
        (fun previous => record.parentId ≠ some previous.id) = none := by
      rw [Option.filter_eq_none_iff]
      intro previous hlast
      simp [hprevious previous hlast]
    simp only [ne_eq, decide_not] at hparent
    obtain rfl | rfl : role = 0 ∨ role = 1 := by omega
    · simp [hparent, pure, Except.pure]
    · simp [hparent, pure, Except.pure]
  · rintro rfl hhead
    simp [hhead, pure, Except.pure]

/-- Scanning the members of a branch, in the order of its lane. -/
theorem Represents.scanMembers {branchId : BranchId} {threadId : ThreadId}
    (sourceId headId : CheckpointId) (members history : List CheckpointRecord)
    (hmem : ∀ record ∈ members, record.threadId = threadId ∧ (record, some branchId) ∈ l.entries)
    (hlinked : Linked CheckpointRecord.id (fun r => r.parentId)
      (tip CheckpointRecord.id none history) members)
    (hnodup : ((history ++ members).map CheckpointRecord.id).Nodup) (position : Nat)
    (rows : List Tables.SelectedRow) :
    Tables.scanRows json threadId branchId sourceId headId
      ⟨history, history.map CheckpointRecord.id, false⟩ (position + 1)
      (members.map (fun record => selectedRow t sourceId headId 1 record.id) ++ rows) =
    Tables.scanRows json threadId branchId sourceId headId
      ⟨history ++ members, (history ++ members).map CheckpointRecord.id, false⟩
      (position + 1 + members.length) rows := by
  induction members generalizing history position with
  | nil => simp
  | cons record members ih =>
    obtain ⟨rfl, hentry⟩ := hmem record List.mem_cons_self
    have hfresh : record.id ∉ history.map CheckpointRecord.id := by
      intro hid
      rw [List.map_append, List.map_cons] at hnodup
      exact (List.nodup_append.mp hnodup).2.2 _ hid _ List.mem_cons_self rfl
    obtain ⟨hparent, hrest⟩ := hlinked
    have hprevious : ∀ previous ∈ history.getLast?, record.parentId = some previous.id := by
      intro previous hlast
      rw [show record.parentId = _ from hparent, tip_none, Option.mem_def.mp hlast]
      rfl
    have hstep := (h.scanRow hl branchId sourceId headId hentry
      ⟨history, history.map CheckpointRecord.id, false⟩ (position + 1) 1 (by omega)
      (fun _ => hfresh)).1 (by omega) hprevious
    have hsnoc : tip CheckpointRecord.id none (history ++ [record]) = some record.id := by
      rw [tip_append]
      rfl
    have hrun := ih (history ++ [record]) (fun r hr => hmem r (List.mem_cons_of_mem _ hr))
      (by rwa [hsnoc]) (by rwa [List.append_assoc]) (position + 1)
    rw [List.map_cons, List.cons_append, Tables.scanRows, hstep, ok_bind]
    rw [List.append_assoc, List.map_append] at hrun
    have hlength : position + 1 + (record :: members).length =
        position + 1 + 1 + members.length := by
      rw [List.length_cons]
      omega
    rw [hlength]
    exact hrun

/-- The history query finds every reachable table consistent and answers the ledger's history. -/
theorem Represents.fetchBranchHistory {branchId : BranchId} {source : CheckpointRecord}
    (hsource : l.source? branchId = some source) :
    t.fetchBranchHistory json source.threadId branchId =
      .ok (some (source :: l.lane source.threadId (some branchId))) := by
  set members := l.lane source.threadId (some branchId) with hmembers
  set tipId := branchTip l branchId source with htip
  obtain ⟨place, hroot, -⟩ := hl.rooted branchId source hsource
  have hmem : ∀ record ∈ members,
      record.threadId = source.threadId ∧ (record, some branchId) ∈ l.entries :=
    fun record hrecord => (Ledger.mem_lane.mp hrecord).symm
  have hlinked := hl.linked _ _ _ (Ledger.base_some hsource rfl)
  have hnodup := hl.branch_nodup hsource
  -- the source, then the members, then the head
  have hfirst := (h.scanRow hl branchId source.id tipId hroot ⟨[], [], false⟩ 0 0
    (fun _ => ⟨rfl, rfl⟩) (fun _ => List.not_mem_nil)).1 (by omega) nofun
  obtain ⟨last, lastPlace, hentry, hthread, hlastId, hlast, hlastGet⟩ := branchTip_mem hl hsource
  rw [← htip] at hlastId
  rw [← hmembers] at hlast hlastGet
  have hhead := (h.scanRow hl branchId source.id tipId hentry
    ⟨source :: members, (source :: members).map CheckpointRecord.id, false⟩
    (0 + 1 + members.length) 2 (by omega) (fun hne => absurd rfl hne)).2 rfl hlastId
  rw [hthread, hlastId] at hhead
  have hscan := h.scanMembers hl source.id tipId members [source] hmem
    hlinked hnodup 0 [selectedRow t source.id tipId 2 tipId]
  have hfinish : Tables.finishScan branchId source.id tipId
      ⟨source :: members, (source :: members).map CheckpointRecord.id, true⟩ =
      .ok (source :: members) := by
    have hmember : tipId ≠ source.id → members.any (fun record => record.id = tipId) := by
      intro hne
      rcases List.mem_cons.mp hlast with rfl | hlast
      · exact absurd hlastId.symm hne
      · exact List.any_eq_true.mpr ⟨last, hlast, decide_eq_true hlastId⟩
    have hnot : ¬(tipId ≠ source.id ∧
        !(source :: members).tail.any (fun record => record.id = tipId)) := by
      rintro ⟨hne, hany⟩
      rw [List.tail_cons, hmember hne] at hany
      exact nomatch hany
    unfold Tables.finishScan
    rw [if_neg (by simp), if_neg hnot]
    simp [hlastGet, hlastId]
  have hdecode : ∀ field id, Tables.decodeCheckpointId field (Uuid.toBytes id.uuid) = .ok id := by
    intro field id
    rw [Tables.decodeCheckpointId, decodeUuid_toBytes]
    rfl
  have hrows : Tables.scanRows json source.threadId branchId source.id tipId ⟨[], [], false⟩ 0
      (selectedRow t source.id tipId 0 source.id ::
        (members.map (fun record => selectedRow t source.id tipId 1 record.id) ++
          [selectedRow t source.id tipId 2 tipId])) =
      .ok ⟨source :: members, (source :: members).map CheckpointRecord.id, true⟩ := by
    rw [Tables.scanRows, hfirst, ok_bind]
    refine hscan.trans ?_
    rw [List.singleton_append, Tables.scanRows, hhead]
    rfl
  unfold Tables.fetchBranchHistory
  rw [h.selectBranchHistory hl hsource, List.cons_append]
  simp only [← htip, ← hmembers]
  rw [show (selectedRow t source.id tipId 0 source.id).sourceCheckpointId =
    Uuid.toBytes source.id.uuid from rfl, hdecode, ok_bind,
    show (selectedRow t source.id tipId 0 source.id).headCheckpointId =
    Uuid.toBytes tipId.uuid from rfl, hdecode, ok_bind, hrows, ok_bind, hfinish]
  rfl

/-- A branch of another thread, or of none, has no history. -/
theorem Represents.fetchBranchHistory_none {threadId : ThreadId} {branchId : BranchId}
    (hnone : (l.source? branchId).filter (fun source => source.threadId = threadId) = none) :
    t.fetchBranchHistory json threadId branchId = .ok none := by
  unfold Tables.fetchBranchHistory
  rw [h.selectBranchHistory_none hl hnone]

/-- The history query answers the ledger's history: it finds no corruption. -/
theorem Represents.fetchBranchHistory_eq (threadId : ThreadId) (branchId : BranchId) :
    t.fetchBranchHistory json threadId branchId =
      .ok (((l.source? branchId).filter fun source => source.threadId = threadId).map fun _ =>
        l.branchHistory threadId branchId) := by
  cases hsource : (l.source? branchId).filter fun source => source.threadId = threadId with
  | none => exact h.fetchBranchHistory_none hl hsource
  | some source =>
    obtain ⟨hbranch, hthread⟩ := Option.filter_eq_some_iff.mp hsource
    obtain rfl := of_decide_eq_true hthread
    rw [h.fetchBranchHistory hl hbranch, Option.map_some, Ledger.branchHistory_some hbranch rfl]

theorem Represents.branchHistory (threadId : ThreadId) (branchId : BranchId) :
    t.branchHistory json threadId branchId = .ok (l.branchHistory threadId branchId) ∧
      t.branchHead json threadId branchId = .ok (l.branchHistory threadId branchId).getLast? := by
  unfold Tables.branchHistory Tables.branchHead
  rw [h.fetchBranchHistory_eq hl]
  cases hsource : (l.source? branchId).filter fun source => source.threadId = threadId with
  | some source => exact ⟨rfl, rfl⟩
  | none =>
    have hempty : l.branchHistory threadId branchId = [] := by
      rw [Option.filter_eq_none_iff] at hsource
      unfold Ledger.branchHistory
      cases hbranch : l.source? branchId with
      | none => rfl
      | some source => exact if_pos fun hthread => hsource source hbranch (decide_eq_true hthread)
    rw [hempty]
    exact ⟨rfl, rfl⟩

end Branches

/-! ## Writing -/

/-- The tables with the row of a new record. -/
def withRecord (t : Tables) (row : EncodedRecord) : Tables :=
  { t with
    sequence := t.sequence + 1
    records := t.records ++ [⟨t.sequence + 1, row⟩] }

theorem Stored.append {json : PathJson} {l : Ledger} {t : Tables} (h : Stored json l t)
    {record : CheckpointRecord} {row : EncodedRecord} (hrow : Encodes json record row)
    (place : Place) : Stored json (l.append record place) (withRecord t row) where
  records := List.rel_append h.records (.cons hrow .nil)
  ordered := by
    refine List.pairwise_append.mpr ⟨h.ordered, List.pairwise_singleton _ _, ?_⟩
    intro a ha b hb
    rw [List.mem_singleton.mp hb]
    exact Nat.lt_succ_of_le (h.sequence a ha)
  sequence := by
    intro row' hmem
    rcases List.mem_append.mp hmem with hmem | hmem
    · exact Nat.le_succ_of_le (h.sequence row' hmem)
    · rw [List.mem_singleton.mp hmem]
      exact Nat.le_refl _

/-- The new record's row satisfies every foreign key to it. -/
theorem hasThreadRecord_withRecord {json : PathJson} {t : Tables} {record : CheckpointRecord}
    {row : EncodedRecord} (hrow : Encodes json record row) :
    (withRecord t row).hasThreadRecord record.threadId.value (Uuid.toBytes record.id.uuid) =
      true := by
  unfold Tables.hasThreadRecord Tables.selectThreadRecord withRecord
  rw [lookup_append, lookup_singleton, if_pos (by rw [hrow.threadId, hrow.checkpointId])]
  cases lookup (fun row : RecordRow => (row.fields.threadId, row.fields.checkpointId)) _ t.records
    <;> rfl

/-- The head of a branch moves to its new member, which no trigger refuses. -/
theorem updateBranchHead_member {json : PathJson} {t : Tables} {record : CheckpointRecord}
    {row : EncodedRecord} (hrow : Encodes json record row) (branchId : BranchId) :
    let t' : Tables := { withRecord t row with
      branchRecords := t.branchRecords ++
        [⟨Uuid.toBytes record.id.uuid, record.threadId.value, Uuid.toBytes branchId.uuid⟩] }
    t'.updateBranchHead record.threadId.value (Uuid.toBytes branchId.uuid)
      (Uuid.toBytes record.id.uuid) =
    .ok { t' with
      branches := t.branches.map fun branch =>
        if branch.isOf record.threadId.value (Uuid.toBytes branchId.uuid) then
          { branch with headCheckpointId := Uuid.toBytes record.id.uuid }
        else branch } := by
  intro t'
  have hstray : t'.branches.any (fun branch =>
      branch.isOf record.threadId.value (Uuid.toBytes branchId.uuid) &&
        t'.strayHead branch (Uuid.toBytes record.id.uuid)) = false := by
    rw [List.any_eq_false]
    intro branch _ hand
    obtain ⟨hof, hstray⟩ := Bool.and_eq_true_iff.mp hand
    obtain ⟨hthread, hid⟩ := of_decide_eq_true hof
    exact (of_decide_eq_true hstray).2 ⟨_, List.mem_append_right _ (List.mem_singleton.mpr rfl),
      hid.symm, hthread.symm, rfl⟩
  have hforeign : t'.hasThreadRecord record.threadId.value (Uuid.toBytes record.id.uuid) = true :=
    hasThreadRecord_withRecord hrow
  unfold Tables.updateBranchHead
  rw [hstray, hforeign]
  simp only [Bool.not_true, Bool.and_false, Bool.false_eq_true, if_false]
  rfl

section Writes

variable {json : PathJson} {l : Ledger} {t : Tables} (h : Represents json l t)
  {record : CheckpointRecord} (hnew : l.filed? record.id = none)

include h hnew

theorem Represents.select_new : t.selectRecord (Uuid.toBytes record.id.uuid) = none := by
  obtain ⟨-, hnone⟩ | ⟨e, row, hsome, -⟩ := h.selectRecord record.id
  · exact hnone
  · rw [hnew] at hsome
    exact nomatch hsome

theorem Represents.insertRecord {row : EncodedRecord} (hrow : Encodes json record row) :
    t.insertRecord row = .ok (withRecord t row) := by
  unfold Tables.insertRecord
  rw [if_neg (not_not.mpr hrow.checks), hrow.checkpointId, h.select_new hnew]
  rfl

theorem Represents.select_withRecord {row : EncodedRecord} (hrow : Encodes json record row) :
    (withRecord t row).selectRecord (Uuid.toBytes record.id.uuid) = some ⟨t.sequence + 1, row⟩ := by
  have hold := h.select_new hnew
  unfold Tables.selectRecord withRecord at *
  rw [lookup_append, hold, lookup_singleton, if_pos hrow.checkpointId, Option.none_or]

theorem Represents.heads_fresh : t.heads.any (fun head =>
    head.threadId ≠ record.threadId.value ∧
      head.checkpointId = Uuid.toBytes record.id.uuid) = false := by
  rw [List.any_eq_false]
  intro head hmem hhead
  obtain ⟨record', hentry, rfl⟩ := h.heads head hmem
  have hid : record'.id = record.id := toBytes_id_inj.mpr (of_decide_eq_true hhead).2
  exact lookup_eq_none.mp hnew _ hentry hid

/-- The heads after the head of one thread has moved. -/
theorem Represents.updateHead {row : EncodedRecord} (hrow : Encodes json record row) :
    ∃ heads, (withRecord t row).updateHead record.threadId.value (Uuid.toBytes record.id.uuid) =
        .ok { withRecord t row with heads } ∧
      (∀ threadId : ThreadId, lookup HeadRow.threadId threadId.value heads =
        if record.threadId = threadId then some (headRow record)
        else t.selectHead threadId.value) ∧
      ∀ head ∈ heads, head ∈ t.heads ∨ head = headRow record := by
  have hselect : (withRecord t row).selectHead record.threadId.value =
      t.selectHead record.threadId.value := rfl
  unfold Tables.updateHead
  rw [show (withRecord t row).heads = t.heads from rfl, h.heads_fresh hnew,
    h.select_withRecord hnew hrow, hselect]
  cases hhead : t.selectHead record.threadId.value with
  | some old =>
    refine ⟨_, rfl, ?_, ?_⟩
    · intro threadId
      rw [lookup_map_congr (fun head => by split <;> rfl)]
      unfold Tables.selectHead
      by_cases hthread : record.threadId = threadId
      · subst hthread
        have hkey : old.threadId = record.threadId.value := lookup_key hhead
        rw [show lookup HeadRow.threadId record.threadId.value t.heads = some old from hhead]
        simp [hkey, headRow]
      · cases hother : lookup HeadRow.threadId threadId.value t.heads with
        | none => simp [hthread]
        | some head =>
          have hkey : head.threadId = threadId.value := lookup_key hother
          have hne : ¬threadId.value = record.threadId.value :=
            fun heq => hthread (threadId_inj.mpr heq.symm)
          simp [hthread, hkey, hne]
    · intro head hmem
      obtain ⟨head', hmem', rfl⟩ := List.mem_map.mp hmem
      by_cases hthread : head'.threadId = record.threadId.value
      · exact .inr (by simp [hthread, headRow])
      · exact .inl (by simpa [hthread] using hmem')
  | none =>
    refine ⟨_, rfl, ?_, ?_⟩
    · intro threadId
      rw [lookup_append, lookup_singleton]
      by_cases hthread : record.threadId = threadId
      · subst hthread
        rw [show lookup HeadRow.threadId record.threadId.value t.heads = none from hhead]
        simp [headRow]
      · have hne : ¬record.threadId.value = threadId.value :=
          fun heq => hthread (threadId_inj.mpr heq)
        simp [hthread, hne, Tables.selectHead]
    · intro head hmem
      exact (List.mem_append.mp hmem).imp_right List.mem_singleton.mp

/-- A new record of the default history. -/
theorem Represents.push {row : EncodedRecord} (hrow : Encodes json record row) :
    ∃ t', (withRecord t row).updateHead record.threadId.value (Uuid.toBytes record.id.uuid) =
        .ok t' ∧ Represents json (l.append record none) t' := by
  obtain ⟨heads, hupdate, hlookup, hmem⟩ := h.updateHead hnew hrow
  have hbranches : l.branches.map (branchRow (l.append record none)) =
      l.branches.map (branchRow l) := by
    refine List.map_congr_left fun branch _ => ?_
    simp [branchRow, Ledger.append_lane]
  refine ⟨_, hupdate, { h.toStored.append hrow none with
    head := ?_, heads := ?_, branches := ?_, branchRecords := ?_ }⟩
  · intro threadId
    rw [Tables.selectHead, hlookup threadId, Ledger.append_lane]
    by_cases hthread : record.threadId = threadId
    · simp [hthread]
    · simp [hthread, h.head]
  · intro head hhead
    rcases hmem head hhead with hold | rfl
    · obtain ⟨record', hentry, heq⟩ := h.heads head hold
      exact ⟨record', List.mem_append_left _ hentry, heq⟩
    · exact ⟨record, List.mem_append_right _ (List.mem_singleton.mpr rfl), rfl⟩
  · exact h.branches.trans hbranches.symm
  · rw [Ledger.append, List.filterMap_append, ← h.branchRecords]
    exact (List.append_nil _).symm

/-- A new member continues the head of its branch, so no constraint or trigger refuses it. -/
theorem Represents.insertBranchRecord (hl : l.Sound) {row : EncodedRecord}
    (hrow : Encodes json record row) {branchId : BranchId} {source : CheckpointRecord}
    (hsource : l.source? branchId = some source) (hthread : source.threadId = record.threadId)
    (hparent : record.parentId = some (branchTip l branchId source)) :
    (withRecord t row).insertBranchRecord
      ⟨Uuid.toBytes record.id.uuid, record.threadId.value, Uuid.toBytes branchId.uuid⟩ =
    .ok { withRecord t row with
      branchRecords := t.branchRecords ++
        [⟨Uuid.toBytes record.id.uuid, record.threadId.value, Uuid.toBytes branchId.uuid⟩] } := by
  have hbranch : branchRow l (branchId, source) ∈ (withRecord t row).branches := by
    show _ ∈ t.branches
    rw [h.branches]
    exact List.mem_map_of_mem (Ledger.mem_of_source? hsource)
  have hthread' : (branchRow l (branchId, source)).threadId = record.threadId.value :=
    congrArg ThreadId.value hthread
  have hcontinues : (withRecord t row).continuesHead
      ⟨Uuid.toBytes record.id.uuid, record.threadId.value, Uuid.toBytes branchId.uuid⟩ = true := by
    refine List.any_eq_true.mpr ⟨_, hbranch, decide_eq_true ⟨rfl, hthread', ?_⟩⟩
    refine List.any_eq_true.mpr ⟨⟨t.sequence + 1, row⟩,
      List.mem_append_right _ (List.mem_singleton.mpr rfl), decide_eq_true ⟨hrow.threadId,
        hrow.checkpointId, ?_⟩⟩
    show row.parentId = _
    rw [hrow.parentId, hparent]
    rfl
  have hmember : (withRecord t row).selectMembership (Uuid.toBytes record.id.uuid) = none := by
    show t.selectMembership _ = none
    rw [h.selectMembership hl, hnew]
    rfl
  have hany : (withRecord t row).branches.any (fun branch =>
      branch.threadId = record.threadId.value ∧ branch.branchId = Uuid.toBytes branchId.uuid) =
      true :=
    List.any_eq_true.mpr ⟨_, hbranch, decide_eq_true ⟨hthread', rfl⟩⟩
  unfold Tables.insertBranchRecord
  rw [hcontinues, hmember, hasThreadRecord_withRecord hrow, hany]
  simp [withRecord]

omit hnew in
/-- A new record of a branch. -/
theorem Represents.pushBranch (hl : l.Sound) {row : EncodedRecord}
    (hrow : Encodes json record row) {branchId : BranchId} {source : CheckpointRecord}
    (hsource : l.source? branchId = some source) (hthread : source.threadId = record.threadId) :
    Represents json (l.append record (some branchId)) { withRecord t row with
      branches := t.branches.map fun branch =>
        if branch.isOf record.threadId.value (Uuid.toBytes branchId.uuid) then
          { branch with headCheckpointId := Uuid.toBytes record.id.uuid }
        else branch
      branchRecords := t.branchRecords ++
        [⟨Uuid.toBytes record.id.uuid, record.threadId.value, Uuid.toBytes branchId.uuid⟩] } where
  toStored :=
    have hstored := h.toStored.append hrow (some branchId)
    ⟨hstored.records, hstored.ordered, hstored.sequence⟩
  head threadId := by
    rw [Ledger.append_lane, if_neg (fun hn => nomatch hn.1)]
    exact h.head threadId
  heads head hmem := by
    obtain ⟨record', hentry, heq⟩ := h.heads head hmem
    exact ⟨record', List.mem_append_left _ hentry, heq⟩
  branches := by
    show t.branches.map _ = l.branches.map (branchRow (l.append record (some branchId)))
    rw [h.branches, List.map_map]
    refine List.map_congr_left fun branch hmem => ?_
    by_cases hid : branch.1 = branchId
    · have hsame : branch.2 = source := by
        have hlookup := (lookup_iff hl.branchIds).mpr ⟨hmem, hid⟩
        unfold Ledger.source? at hsource
        rw [hlookup] at hsource
        exact Option.some.inj hsource
      have hof : (branchRow l branch).isOf record.threadId.value (Uuid.toBytes branchId.uuid) =
          true := decide_eq_true ⟨by rw [← hthread, ← hsame]; rfl, by rw [← hid]; rfl⟩
      simp only [Function.comp, hof, if_true]
      simp only [branchRow, hid, hsame, hthread, Ledger.append_lane, and_self, if_true, lastKey_snoc]
    · have hof : (branchRow l branch).isOf record.threadId.value (Uuid.toBytes branchId.uuid) =
          false := decide_eq_false fun hand => hid (toBytes_branch_inj.mpr hand.2)
      have hne : ¬some branchId = some branch.1 := fun heq => hid (Option.some.inj heq).symm
      simp only [Function.comp, hof, Bool.false_eq_true, if_false]
      simp only [branchRow, Ledger.append_lane, hne, false_and, if_false]
  branchRecords := by
    rw [Ledger.append, List.filterMap_append, ← h.branchRecords]
    rfl

end Writes

/-- A new branch. -/
theorem Represents.openBranch {json : PathJson} {l : Ledger} {t : Tables}
    (h : Represents json l t) (hl : l.Sound) {branchId : BranchId} {source : CheckpointRecord}
    (hnew : l.source? branchId = none) :
    Represents json (l.openBranch branchId source) { t with
      branches := t.branches ++
        [⟨Uuid.toBytes branchId.uuid, source.threadId.value, Uuid.toBytes source.id.uuid,
          Uuid.toBytes source.id.uuid⟩] } where
  toStored := ⟨h.records, h.ordered, h.sequence⟩
  head := h.head
  heads := h.heads
  branches := by
    show t.branches ++ _ = (l.branches ++ [(branchId, source)]).map
      (branchRow (l.openBranch branchId source))
    rw [List.map_append, h.branches]
    congr 1
    show _ = [branchRow (l.openBranch branchId source) (branchId, source)]
    simp [branchRow, hl.lane_nil hnew, lastKey]
  branchRecords := h.branchRecords

end GroupAgent.Sqlite
