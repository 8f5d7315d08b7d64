import GroupAgent.Sqlite.Refine

/-!
# The two stores agree

What a caller of the port sees of `SqliteCheckpointStore` (`lib.rs:182-184`) and of
`InMemoryCheckpointStore` (`checkpoint_store.rs:91-93`), call by call. Both keep the ledger, so
they answer alike wherever both answer as the ledger does.

* `StoreCall` is one call of the port, `StoreAnswer` its answer. Two answers agree when both
  succeed with the same value, or both fail with errors of the same kind: the texts are the
  adapters' own.
* `Paired`: the two stores hold one ledger. It is a simulation: every pair of calls keeps it.
* `ForeignMember`: a save on a branch under an identifier that the branch owns already, in another
  thread. The in-memory store finds a conflict, the SQLite store takes the rows for corrupt.

Results:
* **`stores_agree_iff`**: on any sequence of calls the answers agree exactly when no call of it is
  of that kind, and no branch history is ever found corrupt.
* **`save_places_iff`**: both answer a default write of a record that stands on a branch as if it
  had been placed. It says when a successful default write is one of the default history.

Premise: `serde_json` carries the paths of the records that are written (`PathJson.Carries`). Out
of scope: failures of the database itself, and two processes on one file.
-/

namespace GroupAgent.Sqlite

open GroupAgent.Core GroupAgent.Lib

/-! ## Every operation is the ledger's -/

section Operations

variable {json : PathJson} {l : Ledger} {t : Tables} (h : Represents json l t) (hl : l.Sound)

include h

theorem Represents.save {record : CheckpointRecord} (hcarries : json.Carries record) :
    ∃ t', t.transact (t.save json record) = ((l.write none record).1, t') ∧
      Represents json (l.write none record).2 t' := by
  obtain ⟨row, hrow⟩ := decode_encode hcarries
  unfold Tables.save
  rw [hrow.encoded, h.fetchRecordById, h.fetchHead]
  unfold Ledger.write
  rw [Ledger.head_none]
  cases hentry : l.filed? record.id with
  | some e =>
    by_cases he : e.1 = record
    · exact ⟨t, by simp [he, Tables.transact], by simpa [he] using h⟩
    · exact ⟨t, by simp [he, Tables.transact],
        by simpa [he] using h⟩
  | none =>
    by_cases hparent : tip CheckpointRecord.id none (l.lane record.threadId none) = record.parentId
    · obtain ⟨t', hupdate, hrep⟩ := h.push hentry hrow
      refine ⟨t', ?_, by simpa [hparent] using hrep⟩
      simp [hparent, h.insertRecord hentry hrow, hupdate, Tables.transact]
    · exact ⟨t, by simp [hparent, Tables.transact],
        by simpa [hparent] using h⟩

/-- A branch write of a record whose identifier is a member of that branch, of another thread. -/
def Misfiled (l : Ledger) (branchId : BranchId) (record : CheckpointRecord) : Prop :=
  ∃ existing : CheckpointRecord, l.filed? record.id = some (existing, some branchId) ∧
    existing.threadId ≠ record.threadId

omit h in
theorem write_misfiled {branchId : BranchId} {record : CheckpointRecord}
    (hmis : Misfiled l branchId record) :
    l.write (some branchId) record = (.error (.idempotencyConflict record.id), l) := by
  obtain ⟨existing, hentry, hthread⟩ := hmis
  have hne : ¬existing = record := fun heq => hthread (by rw [heq])
  simp [Ledger.write, hentry, hne]

include hl in
/-- What a branch write of a stored identifier finds: its membership. -/
theorem Represents.membership {record existing : CheckpointRecord} {stands : Place}
    (hentry : l.filed? record.id = some (existing, stands)) :
    (t.selectMembership (Uuid.toBytes record.id.uuid)).mapM Tables.decodeMembership =
      .ok (stands.map fun branchId => (branchId, existing.threadId)) := by
  rw [h.selectMembership hl, hentry]
  cases stands with
  | none => rfl
  | some branchId =>
    rw [Option.bind_some, memberRow, Option.map_some, Option.mapM_some, Tables.decodeMembership,
      decodeUuid_toBytes]
    rfl

include hl in
theorem Represents.saveBranch_misfiled {branchId : BranchId} {record : CheckpointRecord}
    (hcarries : json.Carries record) (hmis : Misfiled l branchId record) :
    ∃ error, t.saveBranch json branchId record = .error (branchWriteCorruption error) := by
  obtain ⟨row, hrow⟩ := decode_encode hcarries
  obtain ⟨existing, hentry, hthread⟩ := hmis
  unfold Tables.saveBranch Tables.saveBranchExisting
  rw [hrow.encoded, h.fetchRecordById, hentry]
  simp [h.membership hl hentry, Option.filter, hthread]

include hl in
theorem Represents.saveBranch {branchId : BranchId} {record : CheckpointRecord}
    (hcarries : json.Carries record) (hmis : ¬Misfiled l branchId record) :
    ∃ t', t.transact (t.saveBranch json branchId record) = ((l.write (some branchId) record).1, t') ∧
      Represents json (l.write (some branchId) record).2 t' := by
  obtain ⟨row, hrow⟩ := decode_encode hcarries
  unfold Tables.saveBranch
  rw [hrow.encoded, h.fetchRecordById]
  unfold Ledger.write
  cases hentry : l.filed? record.id with
  | some e =>
    obtain ⟨existing, stands⟩ := e
    unfold Tables.saveBranchExisting
    by_cases hsame : existing = record ∧ stands = some branchId
    · obtain ⟨rfl, rfl⟩ := hsame
      obtain ⟨source, hsource, hthread⟩ := hl.owned existing branchId (mem_of_lookup hentry)
      refine ⟨t, ?_, by simpa using h⟩
      have hbranch : (⟨(branchRow l (branchId, source)).threadId⟩ : ThreadId) = existing.threadId :=
        hthread
      simp [h.membership hl hentry, Option.filter, h.selectBranch, hsource, hbranch,
        Tables.transact]
    · have hnot : ¬(existing = record ∧
          stands.map (fun branchId => (branchId, existing.threadId)) =
            some (branchId, record.threadId)) := by
        rintro ⟨heq, hstands⟩
        obtain ⟨b, hb, hpair⟩ := Option.map_eq_some_iff.mp hstands
        exact hsame ⟨heq, by rw [hb, (Prod.mk.inj hpair).1]⟩
      have hfilter : (stands.map fun branchId => (branchId, existing.threadId)).filter
          (fun stored => stored.1 = branchId ∧ stored.2 ≠ record.threadId) = none := by
        rw [Option.filter_eq_none_iff]
        intro stored hstored hand
        obtain ⟨b, hb, rfl⟩ := Option.map_eq_some_iff.mp hstored
        obtain ⟨hid, hthread⟩ := of_decide_eq_true hand
        exact hmis ⟨existing, by rw [hentry, hb, ← hid], hthread⟩
      refine ⟨t, ?_, by simpa [hsame] using h⟩
      simp only [h.membership hl hentry, mapError_ok, ok_bind, hfilter, hnot, if_false,
        Option.map_some]
      simp [hsame, Tables.transact]
  | none =>
    rw [Option.map_none]
    unfold Tables.saveBranchNew
    rw [h.selectBranch]
    cases hsource : l.source? branchId with
    | none =>
      exact ⟨t, by simp [Ledger.head, Ledger.base, hsource, Except.map, Tables.transact],
        by simpa [Ledger.head, Ledger.base, hsource, Except.map] using h⟩
    | some source =>
      by_cases hthread : source.threadId = record.threadId
      · obtain ⟨last, place, hlast, hlastThread, hlastId, -⟩ := branchTip_mem hl hsource
        have hthread' : (⟨(branchRow l (branchId, source)).threadId⟩ : ThreadId) =
            record.threadId := hthread
        have hhead : (decodeUuid "head_checkpoint_id"
            (branchRow l (branchId, source)).headCheckpointId).map CheckpointId.mk =
            .ok (branchTip l branchId source) := by
          show (decodeUuid _ (Uuid.toBytes (branchTip l branchId source).uuid)).map _ = _
          rw [decodeUuid_toBytes]
          rfl
        have hrecord : t.fetchRecordById json (branchTip l branchId source) = .ok (some last) := by
          rw [h.fetchRecordById, ← hlastId, hl.filed?_iff.mpr hlast]
          rfl
        have howner : Tables.ensureBranchRecordThread "head" branchId record.threadId last =
            .ok () := by
          simp [Tables.ensureBranchRecordThread, hlastThread, hthread]
        have htip : l.head record.threadId (some branchId) =
            .ok (some (branchTip l branchId source)) := by
          rw [Ledger.head_some hsource hthread, tip_some, branchTip, hthread]
        rw [htip]
        by_cases hparent : some (branchTip l branchId source) = record.parentId
        · refine ⟨_, ?_, by simpa [hparent] using h.pushBranch hl hrow hsource hthread⟩
          simp [hthread', hhead, hrecord, howner, hparent, h.insertRecord hentry hrow,
            h.insertBranchRecord hentry hl hrow hsource hthread hparent.symm,
            updateBranchHead_member hrow, Tables.transact]
        · refine ⟨t, ?_, by simpa [hparent] using h⟩
          simp [hthread', hhead, hrecord, howner, hparent, Tables.transact]
      · have hthread' : ¬(⟨(branchRow l (branchId, source)).threadId⟩ : ThreadId) =
            record.threadId := hthread
        refine ⟨t, ?_, ?_⟩
        · simp [Ledger.head, Ledger.base, hsource, hthread, hthread', Except.map, Tables.transact]
        · simpa [Ledger.head, Ledger.base, hsource, hthread, Except.map] using h

include hl in
theorem Represents.createBranch (threadId : ThreadId) (branchId : BranchId)
    (sourceId : CheckpointId) :
    ∃ t', t.transact (t.createBranch threadId branchId sourceId) =
        ((l.createBranch threadId branchId sourceId).1, t') ∧
      Represents json (l.createBranch threadId branchId sourceId).2 t' := by
  have hforeign := h.hasThreadRecord hl threadId sourceId
  unfold Tables.createBranch Ledger.createBranch
  rw [h.selectBranch, Option.isSome_map]
  cases hnew : l.source? branchId with
  | some source => exact ⟨t, by simp [Tables.transact], by simpa using h⟩
  | none =>
    obtain ⟨hget, hrow⟩ | ⟨source, row, hget, hrow, -⟩ := h.selectThreadRecord hl threadId sourceId
    · rw [hget, hrow]
      exact ⟨t, by simp [Tables.transact], by simpa using h⟩
    · obtain ⟨⟨place, hentry⟩, rfl⟩ := Ledger.get_eq_some.mp hget
      obtain rfl := Ledger.filed?_id hentry
      rw [hget, hrow]
      rw [hget] at hforeign
      refine ⟨_, ?_, by simpa using h.openBranch hl hnew⟩
      have hbranch : t.selectBranch (Uuid.toBytes branchId.uuid) = none := by
        rw [h.selectBranch, hnew]
        rfl
      simp [Tables.insertBranch, hbranch, hforeign, Tables.transact]

end Operations

/-! ## Calls -/

/-- A call on a checkpoint store. -/
inductive StoreCall where
  | write (op : StoreOp)
  | latest (threadId : ThreadId)
  | get (threadId : ThreadId) (checkpointId : CheckpointId)
  | history (threadId : ThreadId)
  | branchHead (threadId : ThreadId) (branchId : BranchId)
  | branchHistory (threadId : ThreadId) (branchId : BranchId)

inductive StoreAnswer where
  | write (result : Except CheckpointWriteError StoreReply)
  | record (result : Except SourceError (Option CheckpointRecord))
  | records (result : Except SourceError (List CheckpointRecord))

def inMemoryCall (s : InMemoryRecordState) : StoreCall → StoreAnswer × InMemoryRecordState
  | .write op => (.write (s.apply op).1, (s.apply op).2)
  | .latest threadId => (.record (.ok (s.latest threadId)), s)
  | .get threadId checkpointId => (.record (.ok (s.get threadId checkpointId)), s)
  | .history threadId => (.records (.ok (s.history threadId)), s)
  | .branchHead threadId branchId => (.record (.ok (s.branchHead threadId branchId)), s)
  | .branchHistory threadId branchId => (.records (.ok (s.branchHistory threadId branchId)), s)

def sqliteCall (json : PathJson) (t : Tables) : StoreCall → StoreAnswer × Tables
  | .write op => (.write (t.apply json op).1, (t.apply json op).2)
  | .latest threadId => (.record (t.latest json threadId), t)
  | .get threadId checkpointId => (.record (t.get json threadId checkpointId), t)
  | .history threadId => (.records (t.history json threadId), t)
  | .branchHead threadId branchId => (.record (t.branchHead json threadId branchId), t)
  | .branchHistory threadId branchId => (.records (t.branchHistory json threadId branchId), t)

/-- The answers to a sequence of calls. -/
def answers {σ : Type} (call : σ → StoreCall → StoreAnswer × σ) : σ → List StoreCall →
    List StoreAnswer
  | _, [] => []
  | s, c :: calls => (call s c).1 :: answers call (call s c).2 calls

/-- The state after a sequence of calls. -/
def after {σ : Type} (call : σ → StoreCall → StoreAnswer × σ) (s : σ) (calls : List StoreCall) : σ :=
  calls.foldl (fun s c => (call s c).2) s

/-- The record a call brings. -/
def StoreCall.record? : StoreCall → Option CheckpointRecord
  | .write op => op.record?
  | _ => none

inductive WriteErrorKind where
  | conflict
  | idempotencyConflict
  | branchAlreadyExists
  | branchNotFound
  | branchSourceNotFound
  | branchUnsupported
  | encoding
  | failed
  deriving DecidableEq

def writeErrorKind : CheckpointWriteError → WriteErrorKind
  | .conflict _ _ => .conflict
  | .idempotencyConflict _ => .idempotencyConflict
  | .branchAlreadyExists _ => .branchAlreadyExists
  | .branchNotFound _ => .branchNotFound
  | .branchSourceNotFound _ _ => .branchSourceNotFound
  | .branchUnsupported => .branchUnsupported
  | .encoding _ => .encoding
  | .failed _ => .failed

/-- The same result: equal values, or errors of one kind. -/
def StoreAnswer.agrees : StoreAnswer → StoreAnswer → Bool
  | .write (.ok a), .write (.ok b) => a = b
  | .write (.error e), .write (.error f) => writeErrorKind e = writeErrorKind f
  | .record (.ok a), .record (.ok b) => a = b
  | .record (.error _), .record (.error _) => true
  | .records (.ok a), .records (.ok b) => a = b
  | .records (.error _), .records (.error _) => true
  | _, _ => false

theorem StoreAnswer.agrees_refl (a : StoreAnswer) : a.agrees a = true := by
  cases a with
  | write result => cases result <;> simp [agrees]
  | record result => cases result <;> simp [agrees]
  | records result => cases result <;> simp [agrees]

/-- A branch write of an identifier that is a member of that branch, by a record of another
thread. -/
def ForeignMember (s : InMemoryRecordState) : StoreCall → Prop
  | .write (.saveBranch branchId record) => ∃ existing : CheckpointRecord,
      s.byId record.id = some existing ∧ s.recordBranches record.id = some branchId ∧
        existing.threadId ≠ record.threadId
  | _ => False

/-! ## One call -/

/-- The two stores keep one ledger. -/
structure Synced (json : PathJson) (l : Ledger) (s : InMemoryRecordState) (t : Tables) : Prop where
  sound : l.Sound
  holds : InMemoryRecordState.Holds l s
  represents : Represents json l t

theorem foreignMember_iff {l : Ledger} {s : InMemoryRecordState} (h : InMemoryRecordState.Holds l s)
    {branchId : BranchId} {record : CheckpointRecord} :
    ForeignMember s (.write (.saveBranch branchId record)) ↔ Misfiled l branchId record := by
  simp only [ForeignMember, Misfiled]
  rw [h.byId, h.recordBranches]
  cases hentry : l.filed? record.id with
  | none => simp
  | some e =>
    obtain ⟨existing, stands⟩ := e
    simp [and_comm]

/-- One write: the tables keep the ledger, and the answer differs only for a foreign member. -/
theorem Represents.apply {json : PathJson} {l : Ledger} {t : Tables} (h : Represents json l t)
    (hl : l.Sound) (op : StoreOp)
    (hcarries : ∀ record, op.record? = some record → json.Carries record) :
    Represents json (l.apply op).2 (t.apply json op).2 ∧
      (((t.apply json op).1 = (l.apply op).1 ∧
        ∀ branchId record, op = .saveBranch branchId record → ¬Misfiled l branchId record) ∨
      ∃ branchId record error, op = .saveBranch branchId record ∧ Misfiled l branchId record ∧
        (t.apply json op).1 = .error (branchWriteCorruption error) ∧
        (l.apply op).1 = .error (.idempotencyConflict record.id)) := by
  cases op with
  | save record =>
    obtain ⟨t', ht, hrep⟩ := h.save (hcarries record rfl)
    simp only [Tables.apply, Ledger.apply, ht]
    exact ⟨hrep, .inl ⟨trivial, fun _ _ h => StoreOp.noConfusion h⟩⟩
  | saveBranch branchId record =>
    by_cases hmis : Misfiled l branchId record
    · obtain ⟨error, herror⟩ := h.saveBranch_misfiled hl (hcarries record rfl) hmis
      simp only [Tables.apply, Ledger.apply, herror, write_misfiled hmis, Tables.transact]
      exact ⟨h, .inr ⟨branchId, record, error, rfl, hmis, rfl, rfl⟩⟩
    · obtain ⟨t', ht, hrep⟩ := h.saveBranch hl (hcarries record rfl) hmis
      simp only [Tables.apply, Ledger.apply, ht]
      refine ⟨hrep, .inl ⟨trivial, ?_⟩⟩
      rintro _ _ ⟨⟩
      exact hmis
  | createBranch threadId branchId sourceId =>
    obtain ⟨t', ht, hrep⟩ := h.createBranch hl threadId branchId sourceId
    simp only [Tables.apply, Ledger.apply, ht]
    exact ⟨hrep, .inl ⟨trivial, fun _ _ h => StoreOp.noConfusion h⟩⟩

theorem Synced.call {json : PathJson} {l : Ledger} {s : InMemoryRecordState} {t : Tables}
    (h : Synced json l s t) (c : StoreCall)
    (hcarries : ∀ record, c.record? = some record → json.Carries record) :
    ∃ l', Synced json l' (inMemoryCall s c).2 (sqliteCall json t c).2 ∧
      ((sqliteCall json t c).1.agrees (inMemoryCall s c).1 = true ↔ ¬ForeignMember s c) := by
  obtain ⟨hl, hs, ht⟩ := h
  cases c with
  | write op =>
    obtain ⟨hanswer, hstate⟩ := hs.apply hl op
    obtain ⟨hrep, hsame⟩ := ht.apply hl op hcarries
    refine ⟨(l.apply op).2, ⟨(l.apply_step op).sound hl, hstate, hrep⟩, ?_⟩
    simp only [sqliteCall, inMemoryCall, hanswer]
    obtain ⟨hsame, hnot⟩ | ⟨branchId, record, error, rfl, hmis, hsql, hmem⟩ := hsame
    · rw [hsame]
      refine iff_of_true (StoreAnswer.agrees_refl _) ?_
      cases op with
      | save record => exact id
      | saveBranch branchId record =>
        rw [foreignMember_iff hs]
        exact hnot branchId record rfl
      | createBranch threadId branchId sourceId => exact id
    · rw [hsql, hmem, foreignMember_iff hs]
      exact iff_of_false Bool.false_ne_true (not_not_intro hmis)
  | latest threadId =>
    refine ⟨l, ⟨hl, hs, ht⟩, ?_⟩
    simp [sqliteCall, inMemoryCall, ht.latest hl, hs.latest, StoreAnswer.agrees, ForeignMember]
  | get threadId checkpointId =>
    refine ⟨l, ⟨hl, hs, ht⟩, ?_⟩
    simp [sqliteCall, inMemoryCall, ht.get hl, hs.get, StoreAnswer.agrees, ForeignMember]
  | history threadId =>
    refine ⟨l, ⟨hl, hs, ht⟩, ?_⟩
    simp [sqliteCall, inMemoryCall, ht.history hl, hs.history, StoreAnswer.agrees, ForeignMember]
  | branchHead threadId branchId =>
    refine ⟨l, ⟨hl, hs, ht⟩, ?_⟩
    simp [sqliteCall, inMemoryCall, ht.branchHistory hl, hs.branchHead, StoreAnswer.agrees,
      ForeignMember]
  | branchHistory threadId branchId =>
    refine ⟨l, ⟨hl, hs, ht⟩, ?_⟩
    simp [sqliteCall, inMemoryCall, ht.branchHistory hl, hs.branchHistory, StoreAnswer.agrees,
      ForeignMember]

/-! ## A fork -/

namespace Fork

/-- `serde_json` on no paths, which is all the completed records below have. -/
def json : PathJson where
  toString paths := if paths = [] then .ok "[]" else .error "unsupported"
  fromString text := if text = "[]" then .ok [] else .error "unsupported"

/-- A completed record. -/
def record (id : BitVec 128) (threadId : String) (parentId : Option CheckpointId) :
    CheckpointRecord where
  formatVersion := CheckpointFormatVersion.CURRENT
  checkpointId := ⟨⟨id⟩⟩
  threadId := ⟨threadId⟩
  runId := ⟨⟨0⟩⟩
  parentId
  graphVersion := none
  superstep := 1
  step := 1
  snapshot := ⟨⟨"state", 1, "json"⟩, []⟩
  nextFrontier := []
  completed := true
  interrupt := none
  sound := rfl

theorem carries (id : BitVec 128) (threadId : String) (parentId : Option CheckpointId) :
    json.Carries (record id threadId parentId) := by
  intro paths hpaths
  obtain rfl : paths = [] := by simpa [recordPaths, record] using hpaths
  exact ⟨"[]", rfl, rfl⟩

def root : CheckpointRecord := record 1 "t" none

def side : CheckpointRecord := record 2 "t" (some root.id)

/-- A record behind the root that no branch has. -/
def next : CheckpointRecord := record 3 "t" (some root.id)

/-- The identifier of `side`, under another thread. -/
def stray : CheckpointRecord := record 2 "u" (some root.id)

def branchId : BranchId := ⟨⟨7⟩⟩

/-- A root, a branch from it and one member. -/
def ops : List StoreOp :=
  [.save root, .createBranch ⟨"t"⟩ branchId root.id, .saveBranch branchId side]

/-- What the calls leave in either store. -/
abbrev memory : InMemoryRecordState := .run .default ops

abbrev tables : Tables := .run json .migrated ops

theorem ops_carries : ∀ r ∈ ops.filterMap StoreOp.record?, json.Carries r := by
  intro r hr
  obtain rfl | rfl : r = root ∨ side = r := by simpa [ops, StoreOp.record?] using hr
  · exact carries _ _ _
  · exact carries _ _ _

end Fork

/-! ## Any sequence of calls -/

theorem synced_default (json : PathJson) :
    Synced json .empty .default .migrated :=
  ⟨Ledger.sound_empty, InMemoryRecordState.holds_default, represents_migrated json⟩

theorem Synced.after {json : PathJson} {l : Ledger} {s : InMemoryRecordState} {t : Tables}
    (h : Synced json l s t) (calls : List StoreCall)
    (hcarries : ∀ record ∈ calls.filterMap StoreCall.record?, json.Carries record) :
    ∃ l', Synced json l' (after inMemoryCall s calls) (after (sqliteCall json) t calls) := by
  induction calls generalizing l s t with
  | nil => exact ⟨l, h⟩
  | cons c calls ih =>
    obtain ⟨l', h', -⟩ := h.call c fun record hrecord =>
      hcarries record (List.mem_filterMap.mpr ⟨c, List.mem_cons_self, hrecord⟩)
    refine ih h' fun record hrecord => ?_
    obtain ⟨c', hmem, hc'⟩ := List.mem_filterMap.mp hrecord
    exact hcarries record (List.mem_filterMap.mpr ⟨c', List.mem_cons_of_mem _ hmem, hc'⟩)

theorem Synced.answers {json : PathJson} {l : Ledger} {s : InMemoryRecordState} {t : Tables}
    (h : Synced json l s t) (calls : List StoreCall)
    (hcarries : ∀ record ∈ calls.filterMap StoreCall.record?, json.Carries record) :
    List.Forall₂ (fun a b => StoreAnswer.agrees a b = true) (answers (sqliteCall json) t calls)
      (answers inMemoryCall s calls) ↔
    ∀ before call rest, calls = before ++ call :: rest →
      ¬ForeignMember (Sqlite.after inMemoryCall s before) call := by
  induction calls generalizing l s t with
  | nil => exact iff_of_true .nil fun before call rest hcalls => by simp at hcalls
  | cons c calls ih =>
    obtain ⟨l', h', hc⟩ := h.call c fun record hrecord =>
      hcarries record (List.mem_filterMap.mpr ⟨c, List.mem_cons_self, hrecord⟩)
    have hrest := ih h' fun record hrecord => by
      obtain ⟨c', hmem, hc'⟩ := List.mem_filterMap.mp hrecord
      exact hcarries record (List.mem_filterMap.mpr ⟨c', List.mem_cons_of_mem _ hmem, hc'⟩)
    rw [Sqlite.answers, Sqlite.answers, List.forall₂_cons, hc, hrest]
    constructor
    · rintro ⟨hfirst, hlater⟩ before call rest hcalls
      cases before with
      | nil =>
        cases hcalls
        exact hfirst
      | cons c' before =>
        cases hcalls
        exact hlater before call rest rfl
    · intro hall
      exact ⟨hall [] c calls rfl, fun before call rest hcalls =>
        hall (c :: before) call rest (by rw [hcalls, List.cons_append])⟩

/-- The stores answer alike exactly as long as no branch write brings an identifier that is a
member of that branch under another thread. Whatever the calls, the branch history query finds no
corruption, and SQLite accepts every write the in-memory store accepts. -/
theorem stores_agree_iff (json : PathJson) (calls : List StoreCall)
    (hcarries : ∀ record ∈ calls.filterMap StoreCall.record?, json.Carries record) :
    (List.Forall₂ (fun a b => StoreAnswer.agrees a b = true)
        (answers (sqliteCall json) .migrated calls) (answers inMemoryCall .default calls) ↔
      ∀ before call rest, calls = before ++ call :: rest →
        ¬ForeignMember (after inMemoryCall .default before) call) ∧
    (∀ threadId branchId, ∃ history,
      (after (sqliteCall json) .migrated calls).fetchBranchHistory json threadId branchId =
        .ok history) ∧
    ∀ op reply, (∀ record, op.record? = some record → json.Carries record) →
      ((after inMemoryCall .default calls).apply op).1 = .ok reply →
      ((after (sqliteCall json) .migrated calls).apply json op).1 = .ok reply := by
  obtain ⟨l, hl, hs, ht⟩ := (synced_default json).after calls hcarries
  refine ⟨(synced_default json).answers calls hcarries, ?_, ?_⟩
  · intro threadId branchId
    exact ⟨_, ht.fetchBranchHistory_eq hl threadId branchId⟩
  · intro op reply hop hok
    rw [(hs.apply hl op).1] at hok
    obtain ⟨-, ⟨hsame, -⟩ | ⟨branchId, record, error, -, -, -, hmem⟩⟩ := ht.apply hl op hop
    · rw [hsame, hok]
    · rw [hok] at hmem
      exact nomatch hmem

theorem fork_history_sound : ∃ history,
    (after (sqliteCall Fork.json) .migrated (Fork.ops.map .write)).fetchBranchHistory Fork.json
      ⟨"t"⟩ Fork.branchId = .ok history :=
  (stores_agree_iff Fork.json (Fork.ops.map .write) Fork.ops_carries).2.1 ⟨"t"⟩ Fork.branchId

/-- SQLite calls a stray write corruption, the in-memory store a reused identifier. -/
theorem stray_answers_differ :
    ¬List.Forall₂ (fun a b => StoreAnswer.agrees a b = true)
      (answers (sqliteCall Fork.json) .migrated
        (Fork.ops.map .write ++ [.write (.saveBranch Fork.branchId Fork.stray)]))
      (answers inMemoryCall .default
        (Fork.ops.map .write ++ [.write (.saveBranch Fork.branchId Fork.stray)])) := by
  decide +kernel

theorem Synced.run {json : PathJson} {l : Ledger} {s : InMemoryRecordState} {t : Tables}
    (h : Synced json l s t) (ops : List StoreOp)
    (hcarries : ∀ record ∈ ops.filterMap StoreOp.record?, json.Carries record) :
    ∃ l', Synced json l' (s.run ops) (t.run json ops) := by
  induction ops generalizing l s t with
  | nil => exact ⟨l, h⟩
  | cons op ops ih =>
    obtain ⟨hl, hs, ht⟩ := h
    have hop : ∀ record, op.record? = some record → json.Carries record := fun record hrecord =>
      hcarries record (List.mem_filterMap.mpr ⟨op, List.mem_cons_self, hrecord⟩)
    refine ih ⟨(l.apply_step op).sound hl, (hs.apply hl op).2, (ht.apply hl op hop).1⟩ ?_
    intro record hrecord
    obtain ⟨op', hmem, hop'⟩ := List.mem_filterMap.mp hrecord
    exact hcarries record (List.mem_filterMap.mpr ⟨op', List.mem_cons_of_mem _ hmem, hop'⟩)

/-! ## Where a default write places a record -/

/-- The record is stored already, as a member of a branch. -/
def OnBranch (s : InMemoryRecordState) (record : CheckpointRecord) : Prop :=
  s.byId record.id = some record ∧ (s.recordBranches record.id).isSome

/-- The same of the tables. -/
def Tables.OnBranch (json : PathJson) (t : Tables) (record : CheckpointRecord) : Prop :=
  t.fetchRecordById json record.id = .ok (some record) ∧
    (t.selectMembership (Uuid.toBytes record.id.uuid)).isSome

/-- The ledger places a default write it accepts unless the record stands on a branch. -/
theorem write_places_iff {l : Ledger} (hl : l.Sound) (record : CheckpointRecord) :
    (∀ stored, (l.write none record).1 = .ok stored →
      record ∈ (l.write none record).2.lane record.threadId none) ↔
    ¬∃ branchId, l.filed? record.id = some (record, some branchId) := by
  constructor
  · rintro hplaces ⟨branchId, hentry⟩
    have hwrite : l.write none record = (.ok record, l) := by
      simp [Ledger.write, hentry]
    rw [hwrite] at hplaces
    have hmem := (Ledger.mem_lane.mp (hplaces record rfl)).1
    rw [hl.filed?_iff.mpr hmem] at hentry
    exact nomatch hentry
  · intro hnot stored hok
    obtain ⟨error, hw⟩ | ⟨stands, hentry, -, hw⟩ | ⟨-, -, hw⟩ := l.write_cases none record
    · rw [hw] at hok
      exact nomatch hok
    · rw [hw]
      cases stands with
      | none => exact Ledger.mem_lane.mpr ⟨mem_of_lookup hentry, rfl⟩
      | some branchId => exact absurd ⟨branchId, hentry⟩ hnot
    · rw [hw]
      exact Ledger.mem_lane.mpr ⟨List.mem_append_right _ (List.mem_singleton.mpr rfl), rfl⟩

theorem onBranch_iff {l : Ledger} {s : InMemoryRecordState} (h : InMemoryRecordState.Holds l s)
    (record : CheckpointRecord) :
    OnBranch s record ↔ ∃ branchId, l.filed? record.id = some (record, some branchId) := by
  unfold OnBranch
  rw [h.byId, h.recordBranches]
  cases l.filed? record.id with
  | none => simp
  | some e =>
    obtain ⟨existing, stands⟩ := e
    cases stands <;> simp

theorem Represents.onBranch_iff {json : PathJson} {l : Ledger} {t : Tables}
    (h : Represents json l t) (hl : l.Sound) (record : CheckpointRecord) :
    t.OnBranch json record ↔ ∃ branchId, l.filed? record.id = some (record, some branchId) := by
  unfold Tables.OnBranch
  rw [h.fetchRecordById, h.selectMembership hl]
  cases l.filed? record.id with
  | none => simp
  | some e =>
    obtain ⟨existing, stands⟩ := e
    cases stands <;> simp [memberRow]

/-- In every reachable state of either store, a successful default write leaves the record in the
default history of its thread unless it is stored already as a member of a branch. -/
theorem save_places_iff (json : PathJson) (ops : List StoreOp) (record : CheckpointRecord)
    (hcarries : ∀ r ∈ ops.filterMap StoreOp.record?, json.Carries r)
    (hrecord : json.Carries record) :
    let s := InMemoryRecordState.default.run ops
    let t := Tables.migrated.run json ops
    ((∀ stored, (s.insert record).1 = .ok stored →
        record ∈ (s.insert record).2.history record.threadId) ↔ ¬OnBranch s record) ∧
    ((∀ stored, (t.transact (t.save json record)).1 = .ok stored →
        ∃ records, (t.transact (t.save json record)).2.history json record.threadId = .ok records ∧
          record ∈ records) ↔ ¬t.OnBranch json record) := by
  intro s t
  obtain ⟨l, hl, hs, ht⟩ := (synced_default json).run ops hcarries
  obtain ⟨hanswer, hstate⟩ := hs.insert record
  obtain ⟨t', hsave, hrep⟩ := ht.save hrecord
  have hl' : (l.write none record).2.Sound := (l.apply_step (.save record)).sound hl
  constructor
  · rw [onBranch_iff hs, ← write_places_iff hl]
    simp only [s, hanswer, hstate.history]
  · rw [ht.onBranch_iff hl, ← write_places_iff hl]
    simp only [t, hsave, hrep.history hl', Except.ok.injEq, exists_eq_left']

/-- The root and a record behind it are on no branch of the fork, and a default write leaves either
in the default history of the thread. The member is on the branch of the fork. -/
theorem save_fork_places :
    (∀ record ∈ [Fork.root, Fork.next],
      ¬OnBranch Fork.memory record ∧ ¬Fork.tables.OnBranch Fork.json record ∧
      record ∈ (Fork.memory.insert record).2.history ⟨"t"⟩ ∧
      ∃ records, (Fork.tables.transact (Fork.tables.save Fork.json record)).2.history Fork.json ⟨"t"⟩ =
        .ok records ∧ record ∈ records) ∧
    OnBranch Fork.memory Fork.side ∧ Fork.tables.OnBranch Fork.json Fork.side := by
  have hmemory : ∀ record ∈ [Fork.root, Fork.next], ¬OnBranch Fork.memory record ∧
      (Fork.memory.insert record).1 = .ok record := by
    simp only [List.forall_mem_cons]
    exact ⟨⟨fun h => absurd h.2 (by decide +kernel), rfl⟩,
      ⟨fun h => absurd h.1 (by decide +kernel), rfl⟩, nofun⟩
  have htables : ∀ record ∈ [Fork.root, Fork.next], ¬Fork.tables.OnBranch Fork.json record ∧
      (Fork.tables.transact (Fork.tables.save Fork.json record)).1.toOption = some record := by
    simp only [List.forall_mem_cons]
    exact ⟨⟨fun h => absurd h.2 (by decide +kernel), by decide +kernel⟩,
      ⟨fun h => absurd h.2 (by decide +kernel), by decide +kernel⟩, nofun⟩
  have hcarries : ∀ record ∈ [Fork.root, Fork.next],
      Fork.json.Carries record ∧ record.threadId = ⟨"t"⟩ := by
    simp only [List.forall_mem_cons]
    exact ⟨⟨Fork.carries _ _ _, rfl⟩, ⟨Fork.carries _ _ _, rfl⟩, nofun⟩
  refine ⟨fun record hmem => ?_, ⟨by decide +kernel, by decide +kernel⟩,
    ⟨by decide +kernel, by decide +kernel⟩⟩
  obtain ⟨hcarries, hthread⟩ := hcarries record hmem
  obtain ⟨hoff, hstored⟩ := hmemory record hmem
  obtain ⟨hoff', hstored'⟩ := htables record hmem
  obtain ⟨hplaces, hplaces'⟩ :=
    save_places_iff Fork.json Fork.ops record Fork.ops_carries hcarries
  rw [← hthread]
  refine ⟨hoff, hoff', hplaces.mpr hoff record hstored, hplaces'.mpr hoff' record ?_⟩
  generalize (Fork.tables.transact (Fork.tables.save Fork.json record)).1 = answer at hstored'
  cases answer with
  | ok stored => exact congrArg Except.ok (Option.some.inj hstored')
  | error e => cases hstored'

/-- The default history of the fork does not have the member after a default write of it. -/
theorem save_side_unplaced :
    ¬∀ stored, ((InMemoryRecordState.default.run Fork.ops).insert Fork.side).1 = .ok stored →
      Fork.side ∈ ((InMemoryRecordState.default.run Fork.ops).insert Fork.side).2.history
        Fork.side.threadId := by
  intro hplaces
  have hmem := hplaces Fork.side rfl
  revert hmem
  decide +kernel

end GroupAgent.Sqlite
