import GroupAgent.Core.Ledger
import Mathlib.Logic.Function.Basic

/-!
# The in-memory checkpoint store

Model of `InMemoryCheckpointStore` (`checkpoint_store.rs:91-93`, its `insert` 137-173 and
`insert_branch` 175-218, its methods 237-349) of `crates/group-agent-core/src`.

* A hash map is a partial function. Every operation takes the lock once, so it is one step of
  `InMemoryRecordState`. The lock cannot be poisoned: nothing panics while it is held.
* A save of a record whose identifier is in store already succeeds when it is the same record, and
  on a branch only when that branch owns it; it is an idempotency conflict otherwise. Only then the
  parent is compared with the head.
* `Holds` says which ledger the four maps hold; every operation answers as the ledger does and
  keeps holding it.

Results: `Consistent` is the invariant of the four maps, and **`store_invariant`** says what holds
after any sequence of operations, and of everything they accepted.

Out of scope: the mutex and the asynchronous wrapper, which add no step between taking the lock and
releasing it.
-/

namespace GroupAgent.Core

open GroupAgent.Lib

/-! ## The state -/

structure InMemoryBranch where
  threadId : ThreadId
  history : List CheckpointRecord

structure InMemoryRecordState where
  histories : ThreadId → Option (List CheckpointRecord)
  byId : CheckpointId → Option CheckpointRecord
  recordBranches : CheckpointId → Option BranchId
  branches : BranchId → Option InMemoryBranch

namespace InMemoryRecordState

def default : InMemoryRecordState := ⟨fun _ => none, fun _ => none, fun _ => none, fun _ => none⟩

/-! ## Reading -/

def history (s : InMemoryRecordState) (threadId : ThreadId) : List CheckpointRecord :=
  (s.histories threadId).getD []

def latest (s : InMemoryRecordState) (threadId : ThreadId) : Option CheckpointRecord :=
  (s.histories threadId).bind List.getLast?

def get (s : InMemoryRecordState) (threadId : ThreadId) (checkpointId : CheckpointId) :
    Option CheckpointRecord :=
  (s.byId checkpointId).filter fun checkpoint => checkpoint.threadId = threadId

def branchHead (s : InMemoryRecordState) (threadId : ThreadId) (branchId : BranchId) :
    Option CheckpointRecord :=
  ((s.branches branchId).filter fun branch => branch.threadId = threadId).bind fun branch =>
    branch.history.getLast?

def branchHistory (s : InMemoryRecordState) (threadId : ThreadId) (branchId : BranchId) :
    List CheckpointRecord :=
  (((s.branches branchId).filter fun branch => branch.threadId = threadId).map
    InMemoryBranch.history).getD []

/-! ## Writing -/

/-- Append a record to the default history of its thread. -/
def push (s : InMemoryRecordState) (record : CheckpointRecord) : InMemoryRecordState :=
  { s with
    histories := Function.update s.histories record.threadId
      (some (s.history record.threadId ++ [record]))
    byId := Function.update s.byId record.id (some record) }

/-- Append a record to a branch. -/
def pushBranch (s : InMemoryRecordState) (branchId : BranchId) (branch : InMemoryBranch)
    (record : CheckpointRecord) : InMemoryRecordState :=
  { s with
    branches := Function.update s.branches branchId
      (some { branch with history := branch.history ++ [record] })
    recordBranches := Function.update s.recordBranches record.id (some branchId)
    byId := Function.update s.byId record.id (some record) }

/-- Idempotency, then compare-and-set against the default history, then insertion. -/
def insert (s : InMemoryRecordState) (record : CheckpointRecord) :
    Except CheckpointWriteError CheckpointRecord × InMemoryRecordState :=
  match s.byId record.id with
  | some existing =>
    if existing = record then (.ok existing, s) else (.error (.idempotencyConflict record.id), s)
  | none =>
    let actualParent := (s.latest record.threadId).map CheckpointRecord.id
    if actualParent ≠ record.parentId then (.error (.conflict record.parentId actualParent), s)
    else (.ok record, s.push record)

/-- Idempotency on one branch, then compare-and-set against its head, then insertion. -/
def insertBranch (s : InMemoryRecordState) (branchId : BranchId) (record : CheckpointRecord) :
    Except CheckpointWriteError CheckpointRecord × InMemoryRecordState :=
  match s.byId record.id with
  | some existing =>
    if existing = record ∧ s.recordBranches record.id = some branchId then (.ok existing, s)
    else (.error (.idempotencyConflict record.id), s)
  | none =>
    match s.branches branchId with
    | none => (.error (.branchNotFound branchId), s)
    | some branch =>
      if branch.threadId ≠ record.threadId then (.error (.branchNotFound branchId), s)
      else
        let actualParent := branch.history.getLast?.map CheckpointRecord.id
        if actualParent ≠ record.parentId then (.error (.conflict record.parentId actualParent), s)
        else (.ok record, s.pushBranch branchId branch record)

/-- A new branch whose first record is an existing record of the thread. -/
def createBranch (s : InMemoryRecordState) (threadId : ThreadId) (branchId : BranchId)
    (sourceCheckpointId : CheckpointId) :
    Except CheckpointWriteError BranchHead × InMemoryRecordState :=
  if (s.branches branchId).isSome then (.error (.branchAlreadyExists branchId), s)
  else
    match s.get threadId sourceCheckpointId with
    | none => (.error (.branchSourceNotFound branchId sourceCheckpointId), s)
    | some source =>
      (.ok ⟨branchId, threadId, sourceCheckpointId, sourceCheckpointId⟩,
        { s with branches := Function.update s.branches branchId (some ⟨threadId, [source]⟩) })

def apply (s : InMemoryRecordState) :
    StoreOp → Except CheckpointWriteError StoreReply × InMemoryRecordState
  | .save record => ((s.insert record).1.map .record, (s.insert record).2)
  | .saveBranch branchId record =>
    ((s.insertBranch branchId record).1.map .record, (s.insertBranch branchId record).2)
  | .createBranch threadId branchId source =>
    ((s.createBranch threadId branchId source).1.map .head,
      (s.createBranch threadId branchId source).2)

/-- The state after a sequence of operations, accepted or not. -/
def run (s : InMemoryRecordState) (ops : List StoreOp) : InMemoryRecordState :=
  ops.foldl (fun s op => (s.apply op).2) s

/-! ## The ledger the maps hold -/

/-- The four maps as functions of the ledger. -/
structure Holds (l : Ledger) (s : InMemoryRecordState) : Prop where
  history : ∀ threadId, s.history threadId = l.lane threadId none
  byId : ∀ id, s.byId id = (l.filed? id).map Prod.fst
  recordBranches : ∀ id, s.recordBranches id = (l.filed? id).bind Prod.snd
  branches : ∀ branchId, s.branches branchId = (l.source? branchId).map fun source =>
    ⟨source.threadId, source :: l.lane source.threadId (some branchId)⟩

theorem holds_default : Holds .empty default where
  history _ := rfl
  byId _ := rfl
  recordBranches _ := rfl
  branches _ := rfl

theorem latest_eq (s : InMemoryRecordState) (threadId : ThreadId) :
    s.latest threadId = (s.history threadId).getLast? := by
  unfold latest history
  cases s.histories threadId <;> rfl

theorem get_eq_some {s : InMemoryRecordState} {threadId : ThreadId} {id : CheckpointId}
    {record : CheckpointRecord} : s.get threadId id = some record ↔
      s.byId id = some record ∧ record.threadId = threadId := by
  unfold get
  rw [Option.filter_eq_some_iff, decide_eq_true_iff]

section Reads

variable {l : Ledger} {s : InMemoryRecordState} (h : Holds l s)

include h

theorem Holds.latest (threadId : ThreadId) :
    s.latest threadId = (l.lane threadId none).getLast? := by
  rw [latest_eq, h.history]

theorem Holds.get (threadId : ThreadId) (id : CheckpointId) :
    s.get threadId id = l.get threadId id := by
  unfold InMemoryRecordState.get Ledger.get
  rw [h.byId]

theorem Holds.branchHistory (threadId : ThreadId) (branchId : BranchId) :
    s.branchHistory threadId branchId = l.branchHistory threadId branchId := by
  unfold InMemoryRecordState.branchHistory Ledger.branchHistory
  rw [h.branches]
  cases l.source? branchId with
  | none => rfl
  | some source =>
    by_cases ht : source.threadId = threadId <;> simp [ht, Option.filter]

theorem Holds.branchHead (threadId : ThreadId) (branchId : BranchId) :
    s.branchHead threadId branchId = (l.branchHistory threadId branchId).getLast? := by
  rw [← h.branchHistory]
  unfold InMemoryRecordState.branchHead InMemoryRecordState.branchHistory
  cases (s.branches branchId).filter fun branch => branch.threadId = threadId <;> rfl

end Reads

/-! ## Every operation is the ledger's -/

theorem Holds.push {l : Ledger} {s : InMemoryRecordState} (h : Holds l s)
    {record : CheckpointRecord} (hnew : l.filed? record.id = none) :
    Holds (l.append record none) (s.push record) where
  history threadId := by
    rw [Ledger.append_lane, ← h.history]
    unfold InMemoryRecordState.push InMemoryRecordState.history
    by_cases ht : record.threadId = threadId
    · subst ht
      simp
    · simp [ht, Function.update_of_ne (Ne.symm ht)]
  byId id := by
    show Function.update s.byId record.id (some record) id = _
    rw [Ledger.append_filed?]
    by_cases hid : record.id = id
    · subst hid
      simp [hnew]
    · rw [Function.update_of_ne (Ne.symm hid), h.byId, if_neg hid, Option.or_none]
  recordBranches id := by
    show s.recordBranches id = _
    rw [h.recordBranches, Ledger.append_filed?]
    by_cases hid : record.id = id
    · subst hid
      simp [hnew]
    · rw [if_neg hid, Option.or_none]
  branches branchId := by
    show s.branches branchId = _
    rw [h.branches, Ledger.append_source?]
    simp [Ledger.append_lane]

theorem Holds.pushBranch {l : Ledger} {s : InMemoryRecordState} (h : Holds l s)
    {record source : CheckpointRecord} {branchId : BranchId} (hnew : l.filed? record.id = none)
    (hsource : l.source? branchId = some source) (hthread : source.threadId = record.threadId) :
    Holds (l.append record (some branchId))
      (s.pushBranch branchId
        ⟨source.threadId, source :: l.lane source.threadId (some branchId)⟩ record) where
  history threadId := by
    rw [Ledger.append_lane, ← h.history, if_neg (fun hn => nomatch hn.1)]
    rfl
  byId id := by
    show Function.update s.byId record.id (some record) id = _
    rw [Ledger.append_filed?]
    by_cases hid : record.id = id
    · subst hid
      simp [hnew]
    · rw [Function.update_of_ne (Ne.symm hid), h.byId, if_neg hid, Option.or_none]
  recordBranches id := by
    show Function.update s.recordBranches record.id (some branchId) id = _
    rw [Ledger.append_filed?]
    by_cases hid : record.id = id
    · subst hid
      simp [hnew]
    · rw [Function.update_of_ne (Ne.symm hid), h.recordBranches, if_neg hid, Option.or_none]
  branches branchId' := by
    show Function.update s.branches branchId _ branchId' = _
    rw [Ledger.append_source?]
    by_cases hb : branchId = branchId'
    · subst hb
      rw [Function.update_self, hsource, Option.map_some, Ledger.append_lane, if_pos ⟨rfl, hthread.symm⟩]
      rfl
    · rw [Function.update_of_ne (Ne.symm hb), h.branches]
      have hb' : ¬some branchId = some branchId' := fun hsome => hb (Option.some.inj hsome)
      simp [Ledger.append_lane, hb']

theorem Holds.openBranch {l : Ledger} {s : InMemoryRecordState} (h : Holds l s) (hl : l.Sound)
    {source : CheckpointRecord} {branchId : BranchId} (hnew : l.source? branchId = none) :
    Holds (l.openBranch branchId source)
      { s with branches := Function.update s.branches branchId
                 (some ⟨source.threadId, [source]⟩) } where
  history := h.history
  byId := h.byId
  recordBranches := h.recordBranches
  branches branchId' := by
    show Function.update s.branches branchId _ branchId' = _
    rw [Ledger.openBranch_source?]
    by_cases hb : branchId = branchId'
    · subst hb
      rw [Function.update_self, hnew, if_pos rfl, Option.none_or, Option.map_some,
        Ledger.openBranch_lane, hl.lane_nil hnew]
    · rw [Function.update_of_ne (Ne.symm hb), h.branches, if_neg hb, Option.or_none]
      rfl

theorem Holds.insert {l : Ledger} {s : InMemoryRecordState} (h : Holds l s)
    (record : CheckpointRecord) : (s.insert record).1 = (l.write none record).1 ∧
      Holds (l.write none record).2 (s.insert record).2 := by
  unfold InMemoryRecordState.insert Ledger.write
  rw [h.byId, h.latest, ← tip_none, Ledger.head_none]
  cases hid : l.filed? record.id with
  | some e =>
    by_cases he : e.1 = record <;> simp [he, h]
  | none =>
    simp only [Option.map_none]
    split
    · exact ⟨rfl, h⟩
    · exact ⟨rfl, h.push hid⟩

theorem Holds.insertBranch {l : Ledger} {s : InMemoryRecordState} (h : Holds l s)
    (branchId : BranchId) (record : CheckpointRecord) :
    (s.insertBranch branchId record).1 = (l.write (some branchId) record).1 ∧
      Holds (l.write (some branchId) record).2 (s.insertBranch branchId record).2 := by
  unfold InMemoryRecordState.insertBranch Ledger.write
  rw [h.byId, h.recordBranches, h.branches]
  cases hid : l.filed? record.id with
  | some e =>
    by_cases he : e.1 = record ∧ e.2 = some branchId <;> simp [he, h]
  | none =>
    cases hsource : l.source? branchId with
    | none => simp [Ledger.head, Ledger.base, Except.map, hsource, h]
    | some source =>
      by_cases hthread : source.threadId = record.threadId
      · rw [Ledger.head_some hsource hthread]
        simp only [Option.map_none, Option.map_some, hthread, ne_eq, not_true_eq_false, if_false,
          ← tip_none, tip]
        split
        · exact ⟨rfl, h⟩
        · exact ⟨rfl, hthread ▸ h.pushBranch hid hsource hthread⟩
      · simp [Ledger.head, Ledger.base, Except.map, hsource, hthread, h]

theorem Holds.createBranch {l : Ledger} {s : InMemoryRecordState} (h : Holds l s) (hl : l.Sound)
    (threadId : ThreadId) (branchId : BranchId) (sourceId : CheckpointId) :
    (s.createBranch threadId branchId sourceId).1 = (l.createBranch threadId branchId sourceId).1 ∧
      Holds (l.createBranch threadId branchId sourceId).2
        (s.createBranch threadId branchId sourceId).2 := by
  unfold InMemoryRecordState.createBranch Ledger.createBranch
  rw [h.branches, Option.isSome_map, h.get]
  cases hnew : l.source? branchId with
  | some source => exact ⟨rfl, h⟩
  | none =>
    cases hget : l.get threadId sourceId with
    | none => exact ⟨rfl, h⟩
    | some source =>
      obtain ⟨-, rfl⟩ := Ledger.get_eq_some.mp hget
      exact ⟨rfl, h.openBranch hl hnew⟩

theorem Holds.apply {l : Ledger} {s : InMemoryRecordState} (h : Holds l s) (hl : l.Sound)
    (op : StoreOp) : (s.apply op).1 = (l.apply op).1 ∧ Holds (l.apply op).2 (s.apply op).2 := by
  cases op with
  | save record =>
    obtain ⟨hanswer, hstate⟩ := h.insert record
    exact ⟨by simp [InMemoryRecordState.apply, Ledger.apply, hanswer], hstate⟩
  | saveBranch branchId record =>
    obtain ⟨hanswer, hstate⟩ := h.insertBranch branchId record
    exact ⟨by simp [InMemoryRecordState.apply, Ledger.apply, hanswer], hstate⟩
  | createBranch threadId branchId sourceId =>
    obtain ⟨hanswer, hstate⟩ := h.createBranch hl threadId branchId sourceId
    exact ⟨by simp [InMemoryRecordState.apply, Ledger.apply, hanswer], hstate⟩

theorem Holds.run {l : Ledger} {s : InMemoryRecordState} (h : Holds l s) (hl : l.Sound)
    (ops : List StoreOp) : Holds (l.run ops) (s.run ops) := by
  induction ops generalizing l s with
  | nil => exact h
  | cons op ops ih => exact ih (h.apply hl op).2 ((l.apply_step op).sound hl)

/-! ## The invariant -/

/-- A record stands in the default history of its thread, or on a branch behind its source. -/
def Stands (s : InMemoryRecordState) (record : CheckpointRecord) : Place → Prop
  | none => record ∈ s.history record.threadId
  | some branchId => ∃ branch, s.branches branchId = some branch ∧ record ∈ branch.history.tail

/-- Every history is a parent chain of its thread's records, every record stands at exactly one
place, and the two indexes say where. -/
structure Consistent (s : InMemoryRecordState) : Prop where
  default_linked : ∀ threadId,
    Linked CheckpointRecord.id (fun r => r.parentId) none (s.history threadId)
  default_thread : ∀ threadId, ∀ record ∈ s.history threadId, record.threadId = threadId
  branch_linked : ∀ branchId branch, s.branches branchId = some branch →
    ∃ source rest place, branch.history = source :: rest ∧ s.Stands source place ∧
      place ≠ some branchId ∧
      Linked CheckpointRecord.id (fun r => r.parentId) (some source.id) rest
  branch_thread : ∀ branchId branch, s.branches branchId = some branch →
    ∀ record ∈ branch.history, record.threadId = branch.threadId
  indexed : ∀ record place, s.Stands record place ↔
    s.byId record.id = some record ∧ s.recordBranches record.id = place
  byId_id : ∀ id record, s.byId id = some record → record.id = id
  member : ∀ id branchId, s.recordBranches id = some branchId → (s.byId id).isSome
  default_once : ∀ threadId, ((s.history threadId).map CheckpointRecord.id).Nodup
  branch_once : ∀ branchId branch, s.branches branchId = some branch →
    (branch.history.map CheckpointRecord.id).Nodup

theorem Holds.stands_iff {l : Ledger} {s : InMemoryRecordState} (h : Holds l s) (hl : l.Sound)
    {record : CheckpointRecord} {place : Place} :
    s.Stands record place ↔ (record, place) ∈ l.entries := by
  cases place with
  | none =>
    show record ∈ s.history record.threadId ↔ _
    rw [h.history, Ledger.mem_lane]
    exact and_iff_left rfl
  | some branchId =>
    constructor
    · rintro ⟨branch, hbranch, hmem⟩
      rw [h.branches] at hbranch
      obtain ⟨source, -, rfl⟩ := Option.map_eq_some_iff.mp hbranch
      exact (Ledger.mem_lane.mp hmem).1
    · intro hmem
      obtain ⟨source, hsource, hthread⟩ := hl.owned record branchId hmem
      refine ⟨⟨source.threadId, source :: l.lane source.threadId (some branchId)⟩, ?_,
        Ledger.mem_lane.mpr ⟨hmem, hthread.symm⟩⟩
      rw [h.branches, hsource, Option.map_some]

theorem Holds.consistent {l : Ledger} {s : InMemoryRecordState} (h : Holds l s) (hl : l.Sound) :
    Consistent s where
  default_linked threadId := by
    rw [h.history]
    exact hl.linked threadId none none rfl
  default_thread threadId record hmem := by
    rw [h.history] at hmem
    exact (Ledger.mem_lane.mp hmem).2
  branch_linked branchId branch hbranch := by
    rw [h.branches] at hbranch
    obtain ⟨source, hsource, rfl⟩ := Option.map_eq_some_iff.mp hbranch
    obtain ⟨place, hmem, hplace⟩ := hl.rooted branchId source hsource
    exact ⟨source, _, place, rfl, (h.stands_iff hl).mpr hmem, hplace,
      hl.linked _ _ _ (Ledger.base_some hsource rfl)⟩
  branch_thread branchId branch hbranch record hmem := by
    rw [h.branches] at hbranch
    obtain ⟨source, -, rfl⟩ := Option.map_eq_some_iff.mp hbranch
    rcases List.mem_cons.mp hmem with rfl | hmem
    · rfl
    · exact (Ledger.mem_lane.mp hmem).2
  indexed record place := by
    rw [h.stands_iff hl, ← hl.filed?_iff, h.byId, h.recordBranches]
    cases l.filed? record.id with
    | none => simp
    | some e => simp [Prod.ext_iff]
  byId_id id record hid := by
    rw [h.byId] at hid
    obtain ⟨e, he, rfl⟩ := Option.map_eq_some_iff.mp hid
    exact Ledger.filed?_id he
  member id branchId hid := by
    rw [h.recordBranches] at hid
    obtain ⟨e, he, -⟩ := Option.bind_eq_some_iff.mp hid
    rw [h.byId, he]
    rfl
  default_once threadId := by
    rw [h.history]
    exact hl.lane_nodup threadId none
  branch_once branchId branch hbranch := by
    rw [h.branches] at hbranch
    obtain ⟨source, hsource, rfl⟩ := Option.map_eq_some_iff.mp hbranch
    exact hl.branch_nodup hsource

/-! ## What was accepted stays -/

/-- The invariant after any sequence of operations, and what any further operations leave of it:
an accepted record stands where it was added and is read back from there, an opened branch keeps
its source, and histories only grow. -/
theorem store_invariant (ops : List StoreOp) (op : StoreOp) (later : List StoreOp) :
    let before := default.run ops
    let after := (before.apply op).2
    let final := after.run later
    Consistent before ∧
    (∀ record, (before.apply op).1 = .ok (.record record) → op.record? = some record ∧
      ∃ place, (before.byId record.id = none → place = op.place) ∧ after.Stands record place ∧
        final.Stands record place ∧ final.get record.threadId record.id = some record) ∧
    (∀ head, (before.apply op).1 = .ok (.head head) →
      ∃ source, source.id = head.sourceCheckpointId ∧
        after.branchHistory head.threadId head.branchId = [source] ∧
        (final.branchHistory head.threadId head.branchId).head? = some source) ∧
    (∀ record place, before.Stands record place → final.Stands record place ∧
      final.get record.threadId record.id = some record) ∧
    (∀ threadId, before.history threadId <+: final.history threadId) ∧
    ∀ threadId branchId, before.branchHistory threadId branchId <+:
      final.branchHistory threadId branchId := by
  intro before after final
  have hlb : (Ledger.empty.run ops).Sound := Ledger.run_sound Ledger.sound_empty ops
  have hb : Holds (Ledger.empty.run ops) before := holds_default.run Ledger.sound_empty ops
  generalize Ledger.empty.run ops = l at hlb hb
  obtain ⟨hanswer, ha⟩ := hb.apply hlb op
  have hla : (l.apply op).2.Sound := (l.apply_step op).sound hlb
  have hf : Holds ((l.apply op).2.run later) final := ha.run hla later
  have hlf : ((l.apply op).2.run later).Sound := Ledger.run_sound hla later
  have hlater : Ledger.Grows (l.apply op).2 ((l.apply op).2.run later) := Ledger.run_grows _ later
  have hgrow : Ledger.Grows l ((l.apply op).2.run later) := (l.apply_step op).grows.trans hlater
  have hget : ∀ record place, final.Stands record place →
      final.get record.threadId record.id = some record := fun record place hstands =>
    get_eq_some.mpr ⟨((hf.consistent hlf).indexed record place).mp hstands |>.1, rfl⟩
  refine ⟨hb.consistent hlb, ?_, ?_, ?_, ?_, ?_⟩
  · intro record hok
    rw [hanswer] at hok
    obtain ⟨hrecord, place, hmem, hplace⟩ := Ledger.apply_record hok
    have hfinal : final.Stands record place := (hf.stands_iff hlf).mpr (hlater.entries.subset hmem)
    refine ⟨hrecord, place, fun hnew => hplace ?_, (ha.stands_iff hla).mpr hmem, hfinal,
      hget record place hfinal⟩
    rw [hb.byId] at hnew
    exact Option.map_eq_none_iff.mp hnew
  · intro head hok
    rw [hanswer] at hok
    obtain ⟨source, hid, hthread, hsource, hlane⟩ := Ledger.apply_head hlb hok
    have hopen : after.branchHistory head.threadId head.branchId = [source] := by
      rw [ha.branchHistory, Ledger.branchHistory_some hsource hthread, hlane]
    refine ⟨source, hid, hopen, ?_⟩
    rw [hf.branchHistory, Ledger.branchHistory_some (hlater.source? hsource) hthread]
    rfl
  · intro record place hstands
    have hfinal : final.Stands record place :=
      (hf.stands_iff hlf).mpr (hgrow.entries.subset ((hb.stands_iff hlb).mp hstands))
    exact ⟨hfinal, hget record place hfinal⟩
  · intro threadId
    rw [hb.history, hf.history]
    exact hgrow.lane threadId none
  · intro threadId branchId
    rw [hb.branchHistory, hf.branchHistory]
    exact hgrow.branchHistory threadId branchId

end InMemoryRecordState

end GroupAgent.Core
