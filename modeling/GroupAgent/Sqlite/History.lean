import GroupAgent.Sqlite.Store
import GroupAgent.Lib.Lineage

/-!
# Which tables have a branch history

`fetch_branch_history` (`lib.rs:699-850`, the decoding of a row 960-962) reads the rows of a branch
with nothing promised about them. This file says what it accepts, for arbitrary contents of the
tables.

* `Reads`: the bytes of a selected identifier lead to a stored record of the thread.
* One statement of the source selects the branch's source, then its members, each joined with its
  record and ordered by `sequence`, then its head. The scan stops at the first row that does not
  continue the chain; last the end of the chain is compared with the head.
* `scanMembers_iff`: what the scan of the member rows comes to, in both directions.

Results: **`fetchBranchHistory_iff`**: a history is returned exactly when the rows are a
`BranchChain` in the order of their sequences, and it is that chain.

The order is the one the reader asks for. A chain that was written in another order than it is
linked is refused (`chain_refused`).
-/

namespace GroupAgent.Sqlite

open GroupAgent.Core GroupAgent.Lib

/-- The bytes of a record's identifier. -/
def recordKey (record : CheckpointRecord) : List UInt8 := Uuid.toBytes record.id.uuid

theorem recordKey_inj {a b : CheckpointRecord} : recordKey a = recordKey b ↔ a.id = b.id := by
  unfold recordKey
  rw [Uuid.toBytes_inj]
  exact ⟨fun h => by cases ha : a.id; cases hb : b.id; rw [ha, hb] at h; cases h; rfl, congrArg _⟩

section Reading

variable (json : PathJson) (t : Tables) (threadId : ThreadId)

/-- The identifier leads to a stored record of the thread, which is decoded. -/
structure Reads (checkpointId : List UInt8) (record : CheckpointRecord) : Prop where
  key : checkpointId = recordKey record
  stored : ∃ row, t.selectRecord checkpointId = some row ∧ decodeRow json row.fields = .ok record
  thread : record.threadId = threadId

variable {json t threadId}

theorem decodeCheckpointId_eq_ok {field : String} {bytes : List UInt8} {id : CheckpointId} :
    Tables.decodeCheckpointId field bytes = .ok id ↔ bytes = Uuid.toBytes id.uuid := by
  have huuid : decodeUuid field bytes = .ok id.uuid ↔ bytes = Uuid.toBytes id.uuid := decodeUuid_eq_ok
  unfold Tables.decodeCheckpointId
  rw [mapError_eq_ok, ← huuid]
  cases decodeUuid field bytes with
  | error error => exact ⟨nofun, nofun⟩
  | ok uuid =>
    constructor
    · intro h
      cases h
      rfl
    · intro h
      cases h
      rfl

/-- A decoded record has the identifier of its row. -/
theorem decodeRow_key {fields : EncodedRecord} {record : CheckpointRecord}
    (h : decodeRow json fields = .ok record) : fields.checkpointId = recordKey record := by
  have h := mapError_eq_ok.mp h
  unfold decodeRowFields at h
  obtain ⟨uuid, huuid, h⟩ := bind_eq_ok.mp h
  -- the other columns
  iterate 9 obtain ⟨_, -, h⟩ := bind_eq_ok.mp h
  have hparts := tryFromParts_parts (mapError_eq_ok.mp h)
  have hid : record.id = ⟨uuid⟩ := congrArg CheckpointRecordParts.checkpointId hparts
  rw [decodeUuid_eq_ok.mp huuid, recordKey, hid]

theorem Reads.unique {bytes : List UInt8} {record record' : CheckpointRecord}
    (h : Reads json t threadId bytes record) (h' : Reads json t threadId bytes record') :
    record = record' := by
  obtain ⟨row, hrow, hdecode⟩ := h.stored
  obtain ⟨row', hrow', hdecode'⟩ := h'.stored
  rw [hrow] at hrow'
  cases hrow'
  rw [hdecode] at hdecode'
  exact Except.ok.inj hdecode'

/-- The records some identifiers lead to are told by themselves. -/
theorem reads_iff {keys : List (List UInt8)} {records : List CheckpointRecord} :
    List.Forall₂ (Reads json t threadId) keys records ↔
      keys = records.map recordKey ∧ ∀ record ∈ records, Reads json t threadId (recordKey record) record := by
  constructor
  · intro h
    induction h with
    | nil => exact ⟨rfl, nofun⟩
    | @cons key record keys records hreads _ ih =>
      obtain ⟨hkeys, hall⟩ := ih
      have hkey : key = recordKey record := hreads.key
      subst hkey
      exact ⟨by rw [List.map_cons, hkeys], List.forall_mem_cons.mpr ⟨hreads, hall⟩⟩
  · rintro ⟨rfl, hall⟩
    rw [List.forall₂_map_left_iff, List.forall₂_same]
    exact hall

/-! ## The scan -/

section Scan

variable {branchId : BranchId} {sourceId headId : CheckpointId}

/-- What the scan of one row comes to. -/
def Scanned (headId : CheckpointId) (scan : Tables.BranchScan) (role : Nat)
    (record : CheckpointRecord) (scan' : Tables.BranchScan) : Prop :=
  if role = 2 then record.id = headId ∧ scan' = { scan with validatedHead := true }
  else record.id ∉ scan.seen ∧ (∀ previous ∈ scan.history.getLast?, record.parentId = some previous.id) ∧
    scan' = { scan with history := scan.history ++ [record], seen := scan.seen ++ [record.id] }

/-- The checks of a row whose identifier is decoded. -/
def scanChecked (json : PathJson) (threadId : ThreadId) (branchId : BranchId)
    (sourceId headId : CheckpointId) (scan : Tables.BranchScan) (position : Nat)
    (row : Tables.SelectedRow) (relation : String) (selectedId : CheckpointId) :
    Except SqliteCheckpointError Tables.BranchScan :=
  if position = 0 ∧ (row.membershipRole ≠ 0 ∨ selectedId ≠ sourceId) then
    throw (.corruptRecord (.missingBranchRecord "source" branchId sourceId))
  else if row.membershipRole ≠ 2 ∧ selectedId ∈ scan.seen then
    throw (.corruptRecord (.duplicateBranchRecord branchId selectedId))
  else
    match row.record with
    | none => throw (.corruptRecord (.missingBranchRecord relation branchId selectedId))
    | some stored => do
      let record ← decodeRow json stored.fields
      (Tables.ensureBranchRecordThread relation branchId threadId record).mapError .corruptRecord
      if row.membershipRole = 2 then
        if selectedId ≠ headId then
          throw (.corruptRecord (.branchHeadMismatch branchId selectedId headId))
        else pure { scan with validatedHead := true }
      else
        match scan.history.getLast?.filter fun previous => record.parentId ≠ some previous.id with
        | some previous =>
          throw (.corruptRecord
            (.branchParentMismatch branchId record.id previous.id record.parentId))
        | none =>
          pure
            { scan with
              history := scan.history ++ [record]
              seen := scan.seen ++ [selectedId] }

theorem scanRow_checked (json : PathJson) (threadId : ThreadId) (branchId : BranchId)
    (sourceId headId : CheckpointId) {row : Tables.SelectedRow} (hrole : row.membershipRole ≤ 2)
    {selectedId : CheckpointId}
    (hid : Tables.decodeCheckpointId "selected_checkpoint_id" row.selectedCheckpointId = .ok selectedId)
    (scan : Tables.BranchScan) (position : Nat) : ∃ relation,
      Tables.scanRow json threadId branchId sourceId headId scan position row =
        scanChecked json threadId branchId sourceId headId scan position row relation selectedId := by
  obtain hzero | hone | htwo : row.membershipRole = 0 ∨ row.membershipRole = 1 ∨
      row.membershipRole = 2 := by omega
  · refine ⟨"source", ?_⟩
    unfold Tables.scanRow
    rw [hid, hzero]
    simp only [scanChecked, hzero]
    rfl
  · refine ⟨"membership", ?_⟩
    unfold Tables.scanRow
    rw [hid, hone]
    simp only [scanChecked, hone]
    rfl
  · refine ⟨"head", ?_⟩
    unfold Tables.scanRow
    rw [hid, htwo]
    simp only [scanChecked, htwo]
    rfl

theorem ensureBranchRecordThread_iff {relation : String} {record : CheckpointRecord} :
    Tables.ensureBranchRecordThread relation branchId threadId record = .ok () ↔
      record.threadId = threadId := by
  unfold Tables.ensureBranchRecordThread
  by_cases h : record.threadId = threadId <;> simp [h]

/-- The checks of a record whose identifier is new. -/
theorem keep_iff {scan scan' : Tables.BranchScan} {role : Nat} {record : CheckpointRecord}
    (hseen : role ≠ 2 → record.id ∉ scan.seen) :
    (if role = 2 then
        if record.id ≠ headId then
          throw (.corruptRecord (.branchHeadMismatch branchId record.id headId))
        else pure { scan with validatedHead := true }
      else
        match scan.history.getLast?.filter fun previous => record.parentId ≠ some previous.id with
        | some previous =>
          throw (.corruptRecord
            (.branchParentMismatch branchId record.id previous.id record.parentId))
        | none =>
          pure
            { scan with
              history := scan.history ++ [record]
              seen := scan.seen ++ [record.id] } : Except SqliteCheckpointError Tables.BranchScan) =
      .ok scan' ↔ Scanned headId scan role record scan' := by
  unfold Scanned
  by_cases hhead : role = 2
  · rw [if_pos hhead, if_pos hhead]
    by_cases hid : record.id = headId
    · rw [if_neg (not_not.mpr hid)]
      simp [hid, pure, Except.pure, eq_comm]
    · rw [if_pos hid]
      exact ⟨nofun, fun h => absurd h.1 hid⟩
  · rw [if_neg hhead, if_neg hhead]
    cases hlast : scan.history.getLast?.filter fun previous => record.parentId ≠ some previous.id with
    | some previous =>
      obtain ⟨hmem, hne⟩ := Option.filter_eq_some_iff.mp hlast
      exact ⟨nofun, fun h => absurd (h.2.1 previous hmem) (of_decide_eq_true hne)⟩
    | none =>
      have hparent : ∀ previous ∈ scan.history.getLast?, record.parentId = some previous.id := by
        intro previous hprevious
        have := Option.filter_eq_none_iff.mp hlast previous hprevious
        simpa using this
      constructor
      · intro h
        cases h
        exact ⟨hseen hhead, hparent, rfl⟩
      · rintro ⟨-, -, rfl⟩
        rfl

theorem scanRow_iff {row : Tables.SelectedRow}
    (hrow : row.record = t.selectRecord row.selectedCheckpointId) (hrole : row.membershipRole ≤ 2)
    {scan scan' : Tables.BranchScan} {position : Nat} :
    Tables.scanRow json threadId branchId sourceId headId scan position row = .ok scan' ↔
      ∃ record, Reads json t threadId row.selectedCheckpointId record ∧
        (position = 0 → row.membershipRole = 0 ∧ record.id = sourceId) ∧
        Scanned headId scan row.membershipRole record scan' := by
  cases hid : Tables.decodeCheckpointId "selected_checkpoint_id" row.selectedCheckpointId with
  | error error =>
    have herror : Tables.scanRow json threadId branchId sourceId headId scan position row =
        .error error := by
      unfold Tables.scanRow
      rw [hid]
      rfl
    rw [herror]
    refine ⟨nofun, ?_⟩
    rintro ⟨record, hreads, -⟩
    rw [decodeCheckpointId_eq_ok.mpr hreads.key] at hid
    cases hid
  | ok selectedId =>
    have hkey := decodeCheckpointId_eq_ok.mp hid
    have hsame : ∀ record, row.selectedCheckpointId = recordKey record → record.id = selectedId := by
      intro record hrecord
      rw [decodeCheckpointId_eq_ok.mpr hrecord] at hid
      exact Except.ok.inj hid
    obtain ⟨relation, hchecked⟩ := scanRow_checked json threadId branchId sourceId headId
      hrole hid scan position
    rw [hchecked]
    unfold scanChecked
    constructor
    · intro h
      by_cases hfirst : position = 0 ∧ (row.membershipRole ≠ 0 ∨ selectedId ≠ sourceId)
      · rw [if_pos hfirst] at h
        cases h
      rw [if_neg hfirst] at h
      by_cases hseen : row.membershipRole ≠ 2 ∧ selectedId ∈ scan.seen
      · rw [if_pos hseen] at h
        cases h
      rw [if_neg hseen] at h
      cases hstored : row.record with
      | none =>
        rw [hstored] at h
        cases h
      | some stored =>
        rw [hstored] at h
        obtain ⟨record, hdecode, h⟩ := bind_eq_ok.mp h
        obtain ⟨_, hthread, h⟩ := bind_eq_ok.mp h
        have hselect : t.selectRecord row.selectedCheckpointId = some stored := hrow.symm.trans hstored
        have hrecord : row.selectedCheckpointId = recordKey record :=
          (lookup_key hselect).symm.trans (decodeRow_key hdecode)
        obtain rfl := hsame record hrecord
        refine ⟨record, ⟨hrecord, ⟨stored, hselect, hdecode⟩,
          ensureBranchRecordThread_iff.mp (mapError_eq_ok.mp hthread)⟩, fun hzero => ?_, ?_⟩
        · have := not_and.mp hfirst hzero
          exact ⟨not_not.mp fun hne => this (.inl hne), not_not.mp fun hne => this (.inr hne)⟩
        · exact (keep_iff fun hrole => not_and.mp hseen hrole).mp h
    · rintro ⟨record, hreads, hfirst, hscanned⟩
      obtain ⟨stored, hselect, hdecode⟩ := hreads.stored
      obtain rfl := hsame record hreads.key
      have hfirst' : ¬(position = 0 ∧ (row.membershipRole ≠ 0 ∨ record.id ≠ sourceId)) := by
        rintro ⟨hzero, hne⟩
        exact hne.elim (fun h => h (hfirst hzero).1) fun h => h (hfirst hzero).2
      have hseen : ¬(row.membershipRole ≠ 2 ∧ record.id ∈ scan.seen) := by
        rintro ⟨hne, hmem⟩
        rw [Scanned, if_neg hne] at hscanned
        exact hscanned.1 hmem
      rw [if_neg hfirst', if_neg hseen, hrow, hselect]
      refine bind_eq_ok.mpr ⟨record, hdecode, bind_eq_ok.mpr ⟨(), ?_, ?_⟩⟩
      · exact mapError_eq_ok.mpr (ensureBranchRecordThread_iff.mpr hreads.thread)
      · exact (keep_iff fun hrole => not_and.mp hseen hrole).mpr hscanned

/-- The row the query selects for an identifier. -/
def rowOf (t : Tables) (source head : List UInt8) (role : Nat) (checkpointId : List UInt8) :
    Tables.SelectedRow :=
  ⟨source, head, checkpointId, role, t.selectRecord checkpointId⟩

theorem scanRows_append (rows rows' : List Tables.SelectedRow) :
    ∀ (scan : Tables.BranchScan) (position : Nat),
    Tables.scanRows json threadId branchId sourceId headId scan position (rows ++ rows') =
      Tables.scanRows json threadId branchId sourceId headId scan position rows >>= fun scan =>
        Tables.scanRows json threadId branchId sourceId headId scan (position + rows.length) rows' := by
  induction rows with
  | nil => exact fun scan position => rfl
  | cons row rows ih =>
    intro scan position
    rw [List.cons_append, Tables.scanRows, Tables.scanRows]
    cases Tables.scanRow json threadId branchId sourceId headId scan position row with
    | error error => rfl
    | ok scan' =>
      rw [ok_bind, ok_bind, ih, List.length_cons]
      simp only [Nat.add_assoc, Nat.add_comm 1]

/-- A record continues a history that is there when its parent is the last of it. -/
theorem parent_iff_tip {history : List CheckpointRecord} (hne : history ≠ [])
    {record : CheckpointRecord} :
    (∀ previous ∈ history.getLast?, record.parentId = some previous.id) ↔
      record.parentId = tip CheckpointRecord.id none history := by
  rw [tip_none, List.getLast?_eq_some_getLast hne]
  simp

/-- **What the scan of the members comes to.** -/
theorem scanMembers_iff {source head : List UInt8} (members : List (List UInt8)) :
    ∀ {history : List CheckpointRecord} {validatedHead : Bool} {position : Nat}
      {scan' : Tables.BranchScan}, history ≠ [] → (history.map CheckpointRecord.id).Nodup →
    (Tables.scanRows json threadId branchId sourceId headId
        ⟨history, history.map CheckpointRecord.id, validatedHead⟩ (position + 1)
        (members.map (rowOf t source head 1)) = .ok scan' ↔
      ∃ records, List.Forall₂ (Reads json t threadId) members records ∧
        Linked CheckpointRecord.id (fun r => r.parentId) (tip CheckpointRecord.id none history) records ∧
        ((history ++ records).map CheckpointRecord.id).Nodup ∧
        scan' = ⟨history ++ records, (history ++ records).map CheckpointRecord.id, validatedHead⟩) := by
  induction members with
  | nil =>
    intro history validatedHead position scan' _ hnodup
    constructor
    · intro h
      cases h
      exact ⟨[], .nil, trivial, by rwa [List.append_nil], by rw [List.append_nil]⟩
    · rintro ⟨records, hreads, -, -, rfl⟩
      cases hreads
      rw [List.append_nil]
      rfl
  | cons member members ih =>
    intro history validatedHead position scan' hne hnodup
    have hsnoc : ∀ record : CheckpointRecord, history ++ [record] ≠ [] := fun record =>
      List.append_ne_nil_of_right_ne_nil history (List.cons_ne_nil record [])
    have htip : ∀ record : CheckpointRecord,
        tip CheckpointRecord.id none (history ++ [record]) = some record.id := by
      intro record
      rw [tip_append]
      rfl
    have hmap : ∀ record : CheckpointRecord, history.map CheckpointRecord.id ++ [record.id] =
        (history ++ [record]).map CheckpointRecord.id := by
      intro record
      rw [List.map_append]
      rfl
    rw [List.map_cons, Tables.scanRows, bind_eq_ok]
    constructor
    · rintro ⟨scan, hrow, hrest⟩
      obtain ⟨record, hreads, -, hfresh, hparent, rfl⟩ := (scanRow_iff rfl (Nat.le_succ 1)).mp hrow
      rw [hmap] at hrest
      have hnodup' : ((history ++ [record]).map CheckpointRecord.id).Nodup := by
        rw [← hmap]
        exact hnodup.append (List.nodup_singleton _) (by simpa using hfresh)
      obtain ⟨records, hreads', hlinked, hnodup'', rfl⟩ := (ih (hsnoc record) hnodup').mp hrest
      rw [htip] at hlinked
      rw [List.append_assoc] at hnodup'' ⊢
      exact ⟨record :: records, .cons hreads hreads', ⟨(parent_iff_tip hne).mp hparent, hlinked⟩,
        hnodup'', rfl⟩
    · rintro ⟨_, hreads, hlinked, hnodup', rfl⟩
      obtain ⟨record, records, hrecord, hrecords, rfl⟩ := List.forall₂_cons_left_iff.mp hreads
      obtain ⟨hparent, hrest⟩ := hlinked
      rw [← List.singleton_append, ← List.append_assoc] at hnodup' ⊢
      have hfresh : ((history ++ [record]).map CheckpointRecord.id).Nodup := by
        rw [List.map_append] at hnodup'
        exact (List.nodup_append.mp hnodup').1
      refine ⟨_, (scanRow_iff rfl (Nat.le_succ 1)).mpr ⟨record, hrecord, nofun, ?_,
        (parent_iff_tip hne).mpr hparent, rfl⟩, ?_⟩
      · rw [← hmap] at hfresh
        have hdisjoint := (List.nodup_append.mp hfresh).2.2
        exact fun hmem => hdisjoint _ hmem _ (List.mem_singleton.mpr rfl) rfl
      · rw [hmap]
        exact (ih (hsnoc record) hfresh).mpr ⟨records, hrecords, by rwa [htip], hnodup', rfl⟩

/-- A scan ends well when it has met the head, and last of all. -/
theorem finishScan_iff {scan : Tables.BranchScan} {first : CheckpointRecord}
    {records history : List CheckpointRecord} (hscan : scan.history = first :: records)
    (hsource : first.id = sourceId) :
    Tables.finishScan branchId sourceId headId scan = .ok history ↔
      scan.validatedHead = true ∧ history = first :: records ∧
        (first :: records).getLast?.map CheckpointRecord.id = some headId := by
  obtain ⟨last, hlast⟩ : ∃ last, (first :: records).getLast? = some last :=
    ⟨_, List.getLast?_eq_some_getLast (List.cons_ne_nil first records)⟩
  unfold Tables.finishScan
  rw [hscan, hlast, List.tail_cons]
  by_cases hhead : scan.validatedHead = true
  swap
  · rw [if_pos (by simp [hhead])]
    exact ⟨nofun, fun h => absurd h.1 hhead⟩
  rw [if_neg (by simp [hhead])]
  by_cases hid : last.id = headId
  · -- the last record is the source or a member
    have hmember : ¬(headId ≠ sourceId ∧ !records.any (fun record => record.id = headId)) := by
      rintro ⟨hne, hnone⟩
      rcases List.mem_cons.mp (List.mem_of_getLast? hlast) with rfl | hmem
      · exact hne (hid.symm.trans hsource)
      · have hany : records.any (fun record => record.id = headId) = true :=
          List.any_eq_true.mpr ⟨last, hmem, decide_eq_true hid⟩
        rw [hany] at hnone
        cases hnone
    rw [if_neg hmember]
    simp [hid, hhead, eq_comm]
  · constructor
    · intro h
      split at h
      · cases h
      · simp [hid] at h
    · rintro ⟨-, -, hlast'⟩
      exact absurd (Option.some.inj hlast') hid

end Scan

/-! ## One branch -/

/-- A parent chain of stored records of the thread, from the source over the members to the head. -/
structure Chain (json : PathJson) (t : Tables) (threadId : ThreadId) (source head : List UInt8)
    (members : List (List UInt8)) (history : List CheckpointRecord) : Prop where
  reads : List.Forall₂ (Reads json t threadId) (source :: members) history
  linked : Linked CheckpointRecord.id (fun r => r.parentId)
    (history.head?.map CheckpointRecord.id) history.tail
  nodup : (history.map CheckpointRecord.id).Nodup
  last : history.getLast?.map recordKey = some head

/-- The reading of the rows of one branch. -/
def readRows (json : PathJson) (threadId : ThreadId) (branchId : BranchId) (source head : List UInt8)
    (rows : List Tables.SelectedRow) : Except SqliteCheckpointError (List CheckpointRecord) := do
  let sourceId ← Tables.decodeCheckpointId "branch_source_checkpoint_id" source
  let headId ← Tables.decodeCheckpointId "branch_head_checkpoint_id" head
  let scan ← Tables.scanRows json threadId branchId sourceId headId ⟨[], [], false⟩ 0 rows
  Tables.finishScan branchId sourceId headId scan

theorem readRows_iff {branchId : BranchId} {source head : List UInt8} {members : List (List UInt8)}
    {history : List CheckpointRecord} :
    readRows json threadId branchId source head (rowOf t source head 0 source ::
        (members.map (rowOf t source head 1) ++ [rowOf t source head 2 head])) = .ok history ↔
      Chain json t threadId source head members history := by
  unfold readRows
  constructor
  · intro h
    obtain ⟨sourceId, hsource, h⟩ := bind_eq_ok.mp h
    obtain ⟨headId, hhead, h⟩ := bind_eq_ok.mp h
    obtain ⟨scan, hscan, hfinish⟩ := bind_eq_ok.mp h
    rw [Tables.scanRows] at hscan
    obtain ⟨scan₀, hrow, hscan⟩ := bind_eq_ok.mp hscan
    obtain ⟨first, hreads, hfirst, -, -, rfl⟩ := (scanRow_iff rfl (Nat.zero_le 2)).mp hrow
    rw [scanRows_append] at hscan
    obtain ⟨scan₁, hmembers, hscan⟩ := bind_eq_ok.mp hscan
    obtain ⟨records, hrecords, hlinked, hnodup, rfl⟩ :=
      (scanMembers_iff members (List.cons_ne_nil first []) (List.nodup_singleton _)).mp hmembers
    rw [Tables.scanRows] at hscan
    obtain ⟨scan₂, hrow₂, hscan⟩ := bind_eq_ok.mp hscan
    obtain ⟨last, hlast, -, hid, rfl⟩ := (scanRow_iff rfl (Nat.le_refl 2)).mp hrow₂
    cases hscan
    obtain ⟨-, rfl, hgetLast⟩ := (finishScan_iff rfl (hfirst rfl).2).mp hfinish
    refine ⟨.cons hreads hrecords, hlinked, hnodup, ?_⟩
    obtain ⟨record, hrecord, hrecordId⟩ := Option.map_eq_some_iff.mp hgetLast
    have hkey : head = recordKey record := by
      have hlast : head = recordKey last := hlast.key
      rw [hlast, recordKey_inj, hid, hrecordId]
    rw [hkey]
    exact congrArg (Option.map recordKey) hrecord
  · intro h
    obtain ⟨first, records, hreads, hrecords, rfl⟩ := List.forall₂_cons_left_iff.mp h.reads
    obtain ⟨last, hlast, hkey⟩ := Option.map_eq_some_iff.mp h.last
    refine bind_eq_ok.mpr ⟨first.id, decodeCheckpointId_eq_ok.mpr hreads.key, ?_⟩
    refine bind_eq_ok.mpr ⟨last.id, decodeCheckpointId_eq_ok.mpr hkey.symm, ?_⟩
    have hlastReads : Reads json t threadId head last := by
      rw [← hkey]
      exact (reads_iff.mp h.reads).2 last (List.mem_of_getLast? hlast)
    refine bind_eq_ok.mpr ⟨⟨first :: records, (first :: records).map CheckpointRecord.id, true⟩, ?_,
      (finishScan_iff rfl rfl).mpr ⟨rfl, rfl, by rw [hlast]; rfl⟩⟩
    rw [Tables.scanRows]
    refine bind_eq_ok.mpr ⟨⟨[first], [first.id], false⟩, (scanRow_iff rfl (Nat.zero_le 2)).mpr
      ⟨first, hreads, fun _ => ⟨rfl, rfl⟩, List.not_mem_nil, nofun, rfl⟩, ?_⟩
    rw [scanRows_append]
    refine bind_eq_ok.mpr ⟨_, (scanMembers_iff members (List.cons_ne_nil first [])
      (List.nodup_singleton _)).mpr ⟨records, hrecords, h.linked, h.nodup, rfl⟩, ?_⟩
    rw [Tables.scanRows]
    exact bind_eq_ok.mpr ⟨_, (scanRow_iff rfl (Nat.le_refl 2)).mpr
      ⟨last, hlastReads, fun hzero => by omega, rfl, rfl⟩, rfl⟩

/-! ## The query -/

namespace Tables

/-- The member rows of a branch. -/
def members (t : Tables) (threadId : ThreadId) (branchId : BranchId) : List (List UInt8) :=
  (t.branchRecords.filter fun membership => membership.threadId = threadId.value ∧
    membership.branchId = Uuid.toBytes branchId.uuid).map BranchRecordRow.checkpointId

def sequenceOf (t : Tables) (checkpointId : List UInt8) : Nat :=
  ((t.selectRecord checkpointId).map RecordRow.sequence).getD 0

/-- The order of the member rows: by sequence, which is a key, and then by identifier. -/
def before (t : Tables) (a b : List UInt8) : Bool :=
  t.sequenceOf a < t.sequenceOf b ∨ (t.sequenceOf a = t.sequenceOf b ∧ a ≤ b)

theorem SelectedRow.le_trans (a b c : SelectedRow) (h : a.le b = true) (h' : b.le c = true) :
    a.le c = true := by
  simp only [SelectedRow.le, decide_eq_true_iff] at h h' ⊢
  rcases h with h | ⟨hrole, h | ⟨hsequence, hid⟩⟩
  · exact .inl (by omega)
  · rcases h' with h' | ⟨hrole', h' | ⟨hsequence', -⟩⟩
    · exact .inl (by omega)
    · exact .inr ⟨by omega, .inl (by omega)⟩
    · exact .inr ⟨by omega, .inl (by omega)⟩
  · rcases h' with h' | ⟨hrole', h' | ⟨hsequence', hid'⟩⟩
    · exact .inl (by omega)
    · exact .inr ⟨by omega, .inl (by omega)⟩
    · exact .inr ⟨by omega, .inr ⟨by omega, List.le_trans hid hid'⟩⟩

theorem SelectedRow.le_total (a b : SelectedRow) : (a.le b || b.le a) = true := by
  simp only [SelectedRow.le, Bool.or_eq_true, decide_eq_true_iff]
  have hid := List.le_total a.selectedCheckpointId b.selectedCheckpointId
  rcases Nat.lt_trichotomy a.membershipRole b.membershipRole with hrole | hrole | hrole
  · exact .inl (.inl hrole)
  · rcases Nat.lt_trichotomy a.sequence b.sequence with hsequence | hsequence | hsequence
    · exact .inl (.inr ⟨hrole, .inl hsequence⟩)
    · exact hid.imp (fun h => .inr ⟨hrole, .inr ⟨hsequence, h⟩⟩)
        fun h => .inr ⟨hrole.symm, .inr ⟨hsequence.symm, h⟩⟩
    · exact .inr (.inr ⟨hrole.symm, .inl hsequence⟩)
  · exact .inr (.inl hrole)

/-- Rows the order does not tell apart select the same identifier for the same reason. -/
theorem SelectedRow.le_antisymm {a b : SelectedRow} (h : a.le b = true) (h' : b.le a = true) :
    a.membershipRole = b.membershipRole ∧ a.selectedCheckpointId = b.selectedCheckpointId := by
  simp only [SelectedRow.le, decide_eq_true_iff] at h h'
  rcases h with h | ⟨hrole, h | ⟨hsequence, hid⟩⟩
  · rcases h' with h' | ⟨hrole', -⟩ <;> omega
  · rcases h' with h' | ⟨hrole', h' | ⟨hsequence', -⟩⟩ <;> omega
  · rcases h' with h' | ⟨hrole', h' | ⟨hsequence', hid'⟩⟩
    · omega
    · omega
    · exact ⟨hrole, List.le_antisymm hid hid'⟩

end Tables

section Query

variable {branchId : BranchId} {branch : BranchRow}

theorem le_rowOf {source head a b : List UInt8} (role : Nat) :
    (rowOf t source head role a).le (rowOf t source head role b) = t.before a b := by
  refine decide_eq_decide.mpr ?_
  simp [rowOf, Tables.SelectedRow.sequence, Tables.sequenceOf]

theorem before_sorted (ids : List (List UInt8)) :
    (ids.mergeSort t.before).Pairwise fun a b => t.before a b = true := by
  have hrow : ∀ a b, t.before a b = (rowOf t [] [] 1 a).le (rowOf t [] [] 1 b) := fun a b =>
    (le_rowOf 1).symm
  refine List.pairwise_mergeSort (fun a b c => ?_) (fun a b => ?_) ids
  · rw [hrow, hrow, hrow]
    exact Tables.SelectedRow.le_trans _ _ _
  · rw [hrow, hrow]
    exact Tables.SelectedRow.le_total _ _

theorem before_antisymm {a b : List UInt8} (h : t.before a b = true) (h' : t.before b a = true) :
    a = b := by
  have hab : (rowOf t [] [] 1 a).le (rowOf t [] [] 1 b) = true := (le_rowOf 1).trans h
  have hba : (rowOf t [] [] 1 b).le (rowOf t [] [] 1 a) = true := (le_rowOf 1).trans h'
  exact (Tables.SelectedRow.le_antisymm hab hba).2

/-- The rows of one branch: its source, its members in order, and its head. -/
theorem selectBranchHistory_one
    (hone : (t.branches.filter fun branch =>
      branch.isOf threadId.value (Uuid.toBytes branchId.uuid)) = [branch]) :
    t.selectBranchHistory threadId.value (Uuid.toBytes branchId.uuid) =
      rowOf t branch.sourceCheckpointId branch.headCheckpointId 0 branch.sourceCheckpointId ::
        (((t.members threadId branchId).mergeSort t.before).map
            (rowOf t branch.sourceCheckpointId branch.headCheckpointId 1) ++
          [rowOf t branch.sourceCheckpointId branch.headCheckpointId 2 branch.headCheckpointId]) := by
  have hof : branch.isOf threadId.value (Uuid.toBytes branchId.uuid) = true := by
    have hmem : branch ∈ t.branches.filter fun branch =>
        branch.isOf threadId.value (Uuid.toBytes branchId.uuid) := by
      rw [hone]
      exact List.mem_singleton.mpr rfl
    exact (List.mem_filter.mp hmem).2
  obtain ⟨hthread, hbranch⟩ := of_decide_eq_true hof
  unfold Tables.selectBranchHistory
  rw [hone]
  simp only [List.map_cons, List.map_nil, List.flatMap_cons, List.flatMap_nil, List.append_nil,
    hthread, hbranch, List.map_append, List.map_map, List.cons_append, List.nil_append]
  set source := branch.sourceCheckpointId
  set head := branch.headCheckpointId
  have hperm : ((t.members threadId branchId).mergeSort t.before).Perm (t.members threadId branchId) :=
    List.mergeSort_perm _ _
  have hform : ∀ row ∈ rowOf t source head 0 source ::
      ((t.members threadId branchId).map (rowOf t source head 1) ++ [rowOf t source head 2 head]),
      ∃ role id, row = rowOf t source head role id := by
    intro row hrow
    rcases List.mem_cons.mp hrow with rfl | hrow
    · exact ⟨0, source, rfl⟩
    rcases List.mem_append.mp hrow with hrow | hrow
    · obtain ⟨id, -, rfl⟩ := List.mem_map.mp hrow
      exact ⟨1, id, rfl⟩
    · exact ⟨2, head, List.mem_singleton.mp hrow⟩
  have hsame : (rowOf t source head 0 source ::
        (((t.members threadId branchId).mergeSort t.before).map (rowOf t source head 1) ++
          [rowOf t source head 2 head])).Perm
      (rowOf t source head 0 source ::
        ((t.members threadId branchId).map (rowOf t source head 1) ++ [rowOf t source head 2 head])) :=
    ((hperm.map _).append_right _).cons _
  have hrows : (t.branchRecords.filter fun membership =>
      membership.threadId = threadId.value ∧ membership.branchId = Uuid.toBytes branchId.uuid).map
        (fun membership => rowOf t source head 1 membership.checkpointId) =
      (t.members threadId branchId).map (rowOf t source head 1) := by
    rw [Tables.members, List.map_map]
    rfl
  change (rowOf t source head 0 source :: ((t.branchRecords.filter fun membership =>
      membership.threadId = threadId.value ∧ membership.branchId = Uuid.toBytes branchId.uuid).map
        (fun membership => rowOf t source head 1 membership.checkpointId) ++
      [rowOf t source head 2 head])).mergeSort Tables.SelectedRow.le = _
  rw [hrows]
  refine List.Perm.eq_of_pairwise ?_
    (List.pairwise_mergeSort Tables.SelectedRow.le_trans Tables.SelectedRow.le_total _) ?_
    ((List.mergeSort_perm _ _).trans hsame.symm)
  · intro a b ha hb hab hba
    obtain ⟨role, id, rfl⟩ := hform a (List.mem_mergeSort.mp ha)
    obtain ⟨role', id', rfl⟩ := hform b (hsame.mem_iff.mp hb)
    obtain ⟨hrole, hid⟩ := Tables.SelectedRow.le_antisymm hab hba
    have hrole : role = role' := hrole
    have hid : id = id' := hid
    rw [hrole, hid]
  · refine List.pairwise_cons.mpr ⟨?_, List.pairwise_append.mpr
      ⟨?_, List.pairwise_singleton _ _, ?_⟩⟩
    · intro row hrow
      rcases List.mem_append.mp hrow with hrow | hrow
      · obtain ⟨id, -, rfl⟩ := List.mem_map.mp hrow
        rfl
      · rw [List.mem_singleton.mp hrow]
        rfl
    · rw [List.pairwise_map]
      refine (before_sorted (t := t) _).imp ?_
      intro a b hab
      rw [le_rowOf]
      exact hab
    · intro a ha b hb
      obtain ⟨id, -, rfl⟩ := List.mem_map.mp ha
      rw [List.mem_singleton.mp hb]
      rfl

/-- The identifiers of the rows that are no head. -/
def memberKeys (rows : List Tables.SelectedRow) : List (List UInt8) :=
  (rows.filter fun row => row.membershipRole ≠ 2).map Tables.SelectedRow.selectedCheckpointId

/-- A scan that ends has met no identifier twice. -/
theorem scanRows_nodup {sourceId headId : CheckpointId} (rows : List Tables.SelectedRow)
    (hrows : ∀ row ∈ rows, row.record = t.selectRecord row.selectedCheckpointId ∧
      row.membershipRole ≤ 2) : ∀ {scan scan' : Tables.BranchScan} {position : Nat},
    Tables.scanRows json threadId branchId sourceId headId scan position rows = .ok scan' →
    (scan.seen.map fun id => Uuid.toBytes id.uuid).Nodup →
    ((scan.seen.map fun id => Uuid.toBytes id.uuid) ++ memberKeys rows).Nodup := by
  induction rows with
  | nil =>
    intro scan scan' position _ hnodup
    rwa [memberKeys, List.filter_nil, List.map_nil, List.append_nil]
  | cons row rows ih =>
    intro scan scan' position h hnodup
    obtain ⟨hrow, hrest⟩ := List.forall_mem_cons.mp hrows
    rw [Tables.scanRows] at h
    obtain ⟨scan₁, hstep, h⟩ := bind_eq_ok.mp h
    obtain ⟨record, hreads, -, hscanned⟩ := (scanRow_iff hrow.1 hrow.2).mp hstep
    unfold Scanned at hscanned
    by_cases hrole : row.membershipRole = 2
    · rw [if_pos hrole] at hscanned
      obtain ⟨-, rfl⟩ := hscanned
      have hkeys : memberKeys (row :: rows) = memberKeys rows := by simp [memberKeys, hrole]
      rw [hkeys]
      have hkept := ih hrest h
      exact hkept hnodup
    · rw [if_neg hrole] at hscanned
      obtain ⟨hfresh, -, rfl⟩ := hscanned
      have hkeys : memberKeys (row :: rows) = recordKey record :: memberKeys rows := by
        simp [memberKeys, hrole, hreads.key]
      have hnodup' : ((scan.seen ++ [record.id]).map fun id => Uuid.toBytes id.uuid).Nodup := by
        rw [List.map_append]
        refine hnodup.append (List.nodup_singleton _) fun bytes hmem hlast => ?_
        obtain ⟨id, hid, rfl⟩ := List.mem_map.mp hmem
        rw [List.map_singleton, List.mem_singleton, Uuid.toBytes_inj] at hlast
        have hsame : id = record.id := by
          cases id
          cases hrecord : record.id
          rw [hrecord] at hlast
          cases hlast
          rfl
        exact hfresh (hsame ▸ hid)
      rw [hkeys, ← List.singleton_append, ← List.append_assoc]
      rw [show (scan.seen.map fun id => Uuid.toBytes id.uuid) ++ [recordKey record] =
        (scan.seen ++ [record.id]).map fun id => Uuid.toBytes id.uuid by
          rw [List.map_append]; rfl]
      have hkept := ih hrest h
      exact hkept hnodup'

theorem memberKeys_append (rows rows' : List Tables.SelectedRow) :
    memberKeys (rows ++ rows') = memberKeys rows ++ memberKeys rows' := by
  simp [memberKeys]

theorem memberKeys_perm {rows rows' : List Tables.SelectedRow} (h : rows.Perm rows') :
    (memberKeys rows).Perm (memberKeys rows') := (h.filter _).map _

/-- What one branch selects, another one selects too. -/
theorem memberKeys_twice {selected : List (List UInt8 × Nat)} {key : List UInt8}
    (hkey : (key, 0) ∈ selected) (branch branch' : BranchRow) (rest : List BranchRow) :
    ¬(memberKeys (((branch :: branch' :: rest).flatMap fun branch => selected.map fun selected =>
      { sourceCheckpointId := branch.sourceCheckpointId
        headCheckpointId := branch.headCheckpointId
        selectedCheckpointId := selected.1
        membershipRole := selected.2
        record := t.selectRecord selected.1 : Tables.SelectedRow }).mergeSort
          Tables.SelectedRow.le)).Nodup := by
  have hmem : ∀ branch : BranchRow, key ∈ memberKeys (selected.map fun selected =>
      { sourceCheckpointId := branch.sourceCheckpointId
        headCheckpointId := branch.headCheckpointId
        selectedCheckpointId := selected.1
        membershipRole := selected.2
        record := t.selectRecord selected.1 : Tables.SelectedRow }) := by
    intro branch
    refine List.mem_map.mpr ⟨_, List.mem_filter.mpr ⟨List.mem_map.mpr ⟨_, hkey, rfl⟩, ?_⟩, rfl⟩
    rfl
  intro h
  have h := (memberKeys_perm (List.mergeSort_perm _ Tables.SelectedRow.le)).nodup_iff.mp h
  rw [List.flatMap_cons, List.flatMap_cons, memberKeys_append, memberKeys_append] at h
  exact (List.nodup_append.mp h).2.2 key (hmem branch) key
    (List.mem_append_left _ (hmem branch')) rfl

/-- The rows the query selects. -/
theorem selected_rows : ∀ row ∈ t.selectBranchHistory threadId.value (Uuid.toBytes branchId.uuid),
    row.record = t.selectRecord row.selectedCheckpointId ∧ row.membershipRole ≤ 2 := by
  intro row hrow
  unfold Tables.selectBranchHistory at hrow
  obtain ⟨branch, -, hrow⟩ := List.mem_flatMap.mp (List.mem_mergeSort.mp hrow)
  obtain ⟨selected, hselected, rfl⟩ := List.mem_map.mp hrow
  refine ⟨rfl, ?_⟩
  show selected.2 ≤ 2
  rcases List.mem_append.mp hselected with hselected | hhead
  · rcases List.mem_append.mp hselected with hsource | hmember
    · obtain ⟨_, -, rfl⟩ := List.mem_map.mp hsource
      exact Nat.zero_le 2
    · obtain ⟨_, -, hmember⟩ := List.mem_flatMap.mp hmember
      obtain ⟨_, -, rfl⟩ := List.mem_map.mp hmember
      exact Nat.le_succ 1
  · obtain ⟨_, -, rfl⟩ := List.mem_map.mp hhead
    exact Nat.le_refl 2

theorem fetchBranchHistory_none
    (hnone : (t.branches.filter fun branch =>
      branch.isOf threadId.value (Uuid.toBytes branchId.uuid)) = []) :
    t.fetchBranchHistory json threadId branchId = .ok none := by
  have hrows : t.selectBranchHistory threadId.value (Uuid.toBytes branchId.uuid) = [] := by
    unfold Tables.selectBranchHistory
    simp [hnone]
  unfold Tables.fetchBranchHistory
  rw [hrows]

theorem fetchBranchHistory_one
    (hone : (t.branches.filter fun branch =>
      branch.isOf threadId.value (Uuid.toBytes branchId.uuid)) = [branch])
    {history : List CheckpointRecord} :
    t.fetchBranchHistory json threadId branchId = .ok (some history) ↔
      Chain json t threadId branch.sourceCheckpointId branch.headCheckpointId
        ((t.members threadId branchId).mergeSort t.before) history := by
  refine Iff.trans ?_ (readRows_iff : readRows json threadId branchId _ _ _ = _ ↔ _)
  unfold Tables.fetchBranchHistory readRows
  rw [selectBranchHistory_one hone]
  constructor
  · intro h
    obtain ⟨sourceId, hsource, h⟩ := bind_eq_ok.mp h
    obtain ⟨headId, hhead, h⟩ := bind_eq_ok.mp h
    obtain ⟨scan, hscan, h⟩ := bind_eq_ok.mp h
    obtain ⟨records, hfinish, hrecords⟩ := map_eq_ok.mp h
    cases hrecords
    exact bind_eq_ok.mpr ⟨sourceId, hsource, bind_eq_ok.mpr ⟨headId, hhead,
      bind_eq_ok.mpr ⟨scan, hscan, hfinish⟩⟩⟩
  · intro h
    obtain ⟨sourceId, hsource, h⟩ := bind_eq_ok.mp h
    obtain ⟨headId, hhead, h⟩ := bind_eq_ok.mp h
    obtain ⟨scan, hscan, hfinish⟩ := bind_eq_ok.mp h
    exact bind_eq_ok.mpr ⟨sourceId, hsource, bind_eq_ok.mpr ⟨headId, hhead,
      bind_eq_ok.mpr ⟨scan, hscan, map_eq_ok.mpr ⟨history, hfinish, rfl⟩⟩⟩⟩

/-- Two branches of one identifier, which the key of the table excludes, have no history. -/
theorem fetchBranchHistory_twice {branch' : BranchRow} {rest : List BranchRow}
    (htwo : (t.branches.filter fun branch =>
      branch.isOf threadId.value (Uuid.toBytes branchId.uuid)) = branch :: branch' :: rest)
    {history : Option (List CheckpointRecord)} :
    t.fetchBranchHistory json threadId branchId ≠ .ok history := by
  intro h
  have htwice : ¬(memberKeys (t.selectBranchHistory threadId.value
      (Uuid.toBytes branchId.uuid))).Nodup := by
    unfold Tables.selectBranchHistory
    rw [htwo]
    exact memberKeys_twice (List.mem_append_left _ (List.mem_append_left _ List.mem_cons_self))
      branch branch' rest
  have hrows : ∀ row ∈ t.selectBranchHistory threadId.value (Uuid.toBytes branchId.uuid), _ :=
    selected_rows
  unfold Tables.fetchBranchHistory at h
  cases hselect : t.selectBranchHistory threadId.value (Uuid.toBytes branchId.uuid) with
  | nil =>
    rw [hselect] at htwice
    exact htwice List.nodup_nil
  | cons first rows =>
    rw [hselect] at h htwice hrows
    obtain ⟨_, -, h⟩ := bind_eq_ok.mp h
    obtain ⟨_, -, h⟩ := bind_eq_ok.mp h
    obtain ⟨scan, hscan, -⟩ := bind_eq_ok.mp h
    exact htwice (scanRows_nodup _ hrows hscan List.nodup_nil)

/-! ## Exactness -/

/-- The rows of a branch are one parent chain of its thread, from its source over its members to its
head, with nothing twice; `history` is the chain. -/
structure BranchChain (json : PathJson) (t : Tables) (threadId : ThreadId) (branchId : BranchId)
    (history : List CheckpointRecord) : Prop where
  stored : ∀ record ∈ history, ∃ row, t.selectRecord (recordKey record) = some row ∧
    decodeRow json row.fields = .ok record
  thread : ∀ record ∈ history, record.threadId = threadId
  linked : history.IsChain fun previous record => record.parentId = some previous.id
  nodup : (history.map CheckpointRecord.id).Nodup
  ends : ∃ branch, (t.branches.filter fun branch =>
      branch.isOf threadId.value (Uuid.toBytes branchId.uuid)) = [branch] ∧
    history.head?.map recordKey = some branch.sourceCheckpointId ∧
    history.getLast?.map recordKey = some branch.headCheckpointId
  members : (history.tail.map recordKey).Perm (t.members threadId branchId)

theorem linked_iff_isChain {first : CheckpointRecord} {records : List CheckpointRecord} :
    Linked CheckpointRecord.id (fun r => r.parentId) (some first.id) records ↔
      (first :: records).IsChain fun previous record => record.parentId = some previous.id := by
  induction records generalizing first with
  | nil => simp [Linked]
  | cons record records ih => rw [List.isChain_cons_cons, ← ih, Linked]

/-- **A history is returned exactly when the branch is a chain in the order of its sequences, and it
is that chain.** -/
theorem fetchBranchHistory_iff (json : PathJson) (t : Tables) (threadId : ThreadId)
    (branchId : BranchId) (history : List CheckpointRecord) :
    t.fetchBranchHistory json threadId branchId = .ok (some history) ↔
      BranchChain json t threadId branchId history ∧
        (history.tail.map recordKey).Pairwise fun a b => t.before a b = true := by
  constructor
  · intro h
    rcases hbranch : t.branches.filter fun branch =>
      branch.isOf threadId.value (Uuid.toBytes branchId.uuid) with _ | ⟨branch, _ | ⟨branch', rest⟩⟩
    · rw [fetchBranchHistory_none hbranch] at h
      cases h
    · have hchain := (fetchBranchHistory_one hbranch).mp h
      have hkeys := (reads_iff.mp hchain.reads).1
      rcases history with _ | ⟨first, records⟩
      · cases hkeys
      obtain ⟨hsource, hmembers⟩ := List.cons.inj hkeys
      have hreads := (reads_iff.mp hchain.reads).2
      refine ⟨⟨fun record hmem => (hreads record hmem).stored,
        fun record hmem => (hreads record hmem).thread, linked_iff_isChain.mp hchain.linked,
        hchain.nodup, ⟨branch, hbranch, congrArg some hsource.symm, hchain.last⟩, ?_⟩, ?_⟩
      · rw [List.tail_cons, ← hmembers]
        exact List.mergeSort_perm _ _
      · rw [List.tail_cons, ← hmembers]
        exact before_sorted _
    · exact absurd h (fetchBranchHistory_twice hbranch)
  · rintro ⟨h, hordered⟩
    obtain ⟨branch, hbranch, hsource, hhead⟩ := h.ends
    refine (fetchBranchHistory_one hbranch).mpr ?_
    rcases history with _ | ⟨first, records⟩
    · cases hsource
    have hmembers : (t.members threadId branchId).mergeSort t.before = records.map recordKey := by
      refine List.Perm.eq_of_pairwise (fun a b _ _ hab hba => before_antisymm hab hba)
        (before_sorted _) hordered ((List.mergeSort_perm _ _).trans h.members.symm)
    refine ⟨reads_iff.mpr ⟨?_, fun record hmem => ⟨rfl, h.stored record hmem, h.thread record hmem⟩⟩,
      linked_iff_isChain.mpr h.linked, h.nodup, hhead⟩
    rw [hmembers, List.map_cons]
    exact congrArg (· :: _) (Option.some.inj hsource).symm

end Query

end Reading

/-! ## A chain out of sequence -/

namespace OutOfSequence

/-- `serde_json` on the frontier of a completed record. -/
def noPaths : PathJson where
  toString paths := if paths = [] then .ok "[]" else .error "unsupported"
  fromString text := if text = "[]" then .ok [] else .error "unsupported"

/-- A completed record of thread `t`. -/
def completed (id : BitVec 128) (parentId : Option CheckpointId) : CheckpointRecord where
  formatVersion := CheckpointFormatVersion.CURRENT
  checkpointId := ⟨⟨id⟩⟩
  threadId := ⟨"t"⟩
  runId := ⟨⟨0⟩⟩
  parentId
  graphVersion := none
  superstep := 1
  step := 1
  snapshot := ⟨⟨"state", 1, "json"⟩, []⟩
  nextFrontier := []
  completed := true
  interrupt := none
  sound := rfl

def first : CheckpointRecord := completed 1 none
def second : CheckpointRecord := completed 2 (some first.id)
def third : CheckpointRecord := completed 3 (some second.id)

/-- A branch of three records, the last of which has a lower sequence than its parent. -/
def tables : Tables where
  sequence := 3
  records := [⟨1, .plain first "[]"⟩, ⟨3, .plain second "[]"⟩, ⟨2, .plain third "[]"⟩]
  heads := []
  branches := [⟨Uuid.toBytes ⟨7⟩, "t", recordKey first, recordKey third⟩]
  branchRecords := [⟨recordKey second, "t", Uuid.toBytes ⟨7⟩⟩, ⟨recordKey third, "t", Uuid.toBytes ⟨7⟩⟩]

theorem decode_completed (id : BitVec 128) (parentId : Option CheckpointId) :
    decodeRow noPaths (.plain (completed id parentId) "[]") = .ok (completed id parentId) := by
  have hcarries : noPaths.Carries (completed id parentId) := by
    intro paths hpaths
    obtain rfl : paths = [] := by simpa [recordPaths, completed] using hpaths
    exact ⟨"[]", rfl, rfl⟩
  obtain ⟨row, hrow⟩ := decode_encode hcarries
  have hplain : EncodedRecord.tryFromRecord noPaths (completed id parentId) =
      .ok (.plain (completed id parentId) "[]") := rfl
  have hsame : EncodedRecord.plain (completed id parentId) "[]" = row :=
    Except.ok.inj (hplain.symm.trans hrow.encoded)
  rw [hsame]
  exact hrow.decoded

theorem one_branch : (tables.branches.filter fun branch =>
    branch.isOf "t" (Uuid.toBytes ⟨7⟩)) = [⟨Uuid.toBytes ⟨7⟩, "t", recordKey first, recordKey third⟩] := by
  decide +kernel

theorem members_eq : tables.members ⟨"t"⟩ ⟨⟨7⟩⟩ = [recordKey second, recordKey third] := by
  decide +kernel

/-- The query has the last record before its parent. -/
theorem members_sorted : (tables.members ⟨"t"⟩ ⟨⟨7⟩⟩).mergeSort tables.before =
    [recordKey third, recordKey second] := by
  refine List.Perm.eq_of_pairwise (fun a b _ _ hab hba => before_antisymm hab hba)
    (before_sorted _) ?_ ((List.mergeSort_perm _ _).trans ?_)
  · exact List.pairwise_pair.mpr (by decide +kernel)
  · rw [members_eq]
    exact .swap _ _ _

/-- The rows are one parent chain, and no history is returned. -/
theorem chain_refused : BranchChain noPaths tables ⟨"t"⟩ ⟨⟨7⟩⟩ [first, second, third] ∧
    ∀ history, tables.fetchBranchHistory noPaths ⟨"t"⟩ ⟨⟨7⟩⟩ ≠ .ok (some history) := by
  have hthird : tables.selectRecord (recordKey third) = some ⟨2, .plain third "[]"⟩ := by
    decide +kernel
  constructor
  · refine ⟨?_, by decide +kernel, ?_, by decide +kernel, ⟨_, one_branch, rfl, rfl⟩, ?_⟩
    · simp only [List.forall_mem_cons]
      exact ⟨⟨⟨1, .plain first "[]"⟩, by decide +kernel, decode_completed 1 none⟩,
        ⟨⟨3, .plain second "[]"⟩, by decide +kernel, decode_completed 2 (some first.id)⟩,
        ⟨_, hthird, decode_completed 3 (some second.id)⟩, nofun⟩
    · exact .cons_cons rfl (.cons_cons rfl (.singleton third))
    · rw [members_eq]
      exact .refl _
  · intro history h
    have hchain := (fetchBranchHistory_one one_branch).mp h
    rw [members_sorted] at hchain
    obtain ⟨hkeys, hreads⟩ := reads_iff.mp hchain.reads
    rcases history with _ | ⟨a, _ | ⟨b, rest⟩⟩
    · cases hkeys
    · cases (List.cons.inj hkeys).2
    -- the second record of the history is the last of the chain
    obtain ⟨ha, htail⟩ := List.cons.inj hkeys
    obtain ⟨hb, -⟩ := List.cons.inj htail
    obtain ⟨row, hrow, hdecode⟩ :=
      (hreads b (List.mem_cons_of_mem a List.mem_cons_self)).stored
    rw [← hb, hthird] at hrow
    cases hrow
    obtain rfl : third = b := Except.ok.inj ((decode_completed 3 (some second.id)).symm.trans hdecode)
    have hparent : some second.id = some a.id := hchain.linked.1
    rw [← recordKey_inj.mp ha] at hparent
    exact absurd hparent (by decide)

end OutOfSequence

end GroupAgent.Sqlite
