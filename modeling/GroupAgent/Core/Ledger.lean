import GroupAgent.Core.Checkpoint
import GroupAgent.Lib.Except
import GroupAgent.Lib.Keyed
import GroupAgent.Lib.Lineage

/-!
# What a checkpoint store is

The abstract model of the `CheckpointStore` port (`checkpoint_store.rs:14-88` of
`crates/group-agent-core/src`), which both adapters are compared with.

* A store is a `Ledger`: the accepted records in the order they were accepted, each at a `Place`,
  and the branches in the order they were opened, each with the record it starts from.
* The lane of a place is a parent chain: the default lane of a thread starts at nothing, the lane
  of a branch behind the branch's source. A write appends to a lane when the record names its end.
* An operation of the port and its reply are values, `StoreOp` and `StoreReply`; `apply` is one
  operation and `run` a sequence of them.
* `Step`: all that an operation can do to a ledger. Each invariant is proved of a `Step` once.

Results: `Ledger.Sound` is the invariant. `run_sound` and `run_grows` are what holds after any
sequence of operations: it stays sound, and nothing that was accepted is changed or removed.

Out of scope: failures of a backend, which leave a store as it is and are not replies of the port's
contract. `Store` refines the in-memory adapter to this model, `Sqlite.Refine` the SQLite one.
-/

namespace GroupAgent.Core

open GroupAgent.Lib

def CheckpointRecord.id (r : CheckpointRecord) : CheckpointId := r.checkpointId

/-- The resolved position of one checkpoint branch. -/
structure BranchHead where
  branchId : BranchId
  threadId : ThreadId
  sourceCheckpointId : CheckpointId
  checkpointId : CheckpointId
  deriving DecidableEq, Repr

/-- Where a record stands: in the default lane of its thread, or on a branch. -/
abbrev Place := Option BranchId

structure Ledger where
  entries : List (CheckpointRecord × Place)
  branches : List (BranchId × CheckpointRecord)

/-- An operation that writes. -/
inductive StoreOp where
  | save (record : CheckpointRecord)
  | saveBranch (branchId : BranchId) (record : CheckpointRecord)
  | createBranch (threadId : ThreadId) (branchId : BranchId) (source : CheckpointId)

/-- What an accepted operation answers. -/
inductive StoreReply where
  | record (record : CheckpointRecord)
  | head (head : BranchHead)
  deriving DecidableEq

/-- The record a write brings. -/
def StoreOp.record? : StoreOp → Option CheckpointRecord
  | .save record => some record
  | .saveBranch _ record => some record
  | .createBranch _ _ _ => none

/-- The place a write asks for. -/
def StoreOp.place : StoreOp → Place
  | .save _ => none
  | .saveBranch branchId _ => some branchId
  | .createBranch _ branchId _ => some branchId

namespace Ledger

def empty : Ledger := ⟨[], []⟩

/-! ## Reading -/

def filed? (l : Ledger) (id : CheckpointId) : Option (CheckpointRecord × Place) :=
  lookup (fun e => e.1.id) id l.entries

def source? (l : Ledger) (branchId : BranchId) : Option CheckpointRecord :=
  (lookup Prod.fst branchId l.branches).map Prod.snd

/-- The records of one thread at one place. -/
def lane (l : Ledger) (threadId : ThreadId) (place : Place) : List CheckpointRecord :=
  (l.entries.filter fun e => e.2 = place ∧ e.1.threadId = threadId).map Prod.fst

/-- What the first record of a lane has to name as its parent. -/
def base (l : Ledger) (threadId : ThreadId) :
    Place → Except CheckpointWriteError (Option CheckpointId)
  | none => .ok none
  | some branchId =>
    match l.source? branchId with
    | none => .error (.branchNotFound branchId)
    | some source =>
      if source.threadId ≠ threadId then .error (.branchNotFound branchId)
      else .ok (some source.id)

/-- What the next record of a lane has to name as its parent. -/
def head (l : Ledger) (threadId : ThreadId) (place : Place) :
    Except CheckpointWriteError (Option CheckpointId) :=
  (l.base threadId place).map fun prev => tip CheckpointRecord.id prev (l.lane threadId place)

/-- The history of a branch, its source first. -/
def branchHistory (l : Ledger) (threadId : ThreadId) (branchId : BranchId) :
    List CheckpointRecord :=
  match l.source? branchId with
  | none => []
  | some source =>
    if source.threadId ≠ threadId then [] else source :: l.lane threadId (some branchId)

def get (l : Ledger) (threadId : ThreadId) (id : CheckpointId) : Option CheckpointRecord :=
  ((l.filed? id).map Prod.fst).filter fun record => record.threadId = threadId

/-! ## Writing -/

def append (l : Ledger) (record : CheckpointRecord) (place : Place) : Ledger :=
  { l with entries := l.entries ++ [(record, place)] }

def openBranch (l : Ledger) (branchId : BranchId) (source : CheckpointRecord) : Ledger :=
  { l with branches := l.branches ++ [(branchId, source)] }

/-- An accepted record is kept once. A repeated default write is accepted wherever the record
stands; a repeated branch write only when it stands on that branch. -/
def write (l : Ledger) (place : Place) (record : CheckpointRecord) :
    Except CheckpointWriteError CheckpointRecord × Ledger :=
  match l.filed? record.id with
  | some (existing, stands) =>
    if existing = record ∧ (place = none ∨ stands = place) then (.ok existing, l)
    else (.error (.idempotencyConflict record.id), l)
  | none =>
    match l.head record.threadId place with
    | .error error => (.error error, l)
    | .ok actualParent =>
      if actualParent ≠ record.parentId then (.error (.conflict record.parentId actualParent), l)
      else (.ok record, l.append record place)

def createBranch (l : Ledger) (threadId : ThreadId) (branchId : BranchId)
    (sourceId : CheckpointId) : Except CheckpointWriteError BranchHead × Ledger :=
  if (l.source? branchId).isSome then (.error (.branchAlreadyExists branchId), l)
  else
    match l.get threadId sourceId with
    | none => (.error (.branchSourceNotFound branchId sourceId), l)
    | some source => (.ok ⟨branchId, threadId, sourceId, sourceId⟩, l.openBranch branchId source)

def apply (l : Ledger) : StoreOp → Except CheckpointWriteError StoreReply × Ledger
  | .save record => ((l.write none record).1.map .record, (l.write none record).2)
  | .saveBranch branchId record =>
    ((l.write (some branchId) record).1.map .record, (l.write (some branchId) record).2)
  | .createBranch threadId branchId source =>
    ((l.createBranch threadId branchId source).1.map .head,
      (l.createBranch threadId branchId source).2)

def run (l : Ledger) (ops : List StoreOp) : Ledger := ops.foldl (fun l op => (l.apply op).2) l

/-! ## What a write changes -/

@[simp] theorem append_branches (l : Ledger) (record : CheckpointRecord) (place : Place) :
    (l.append record place).branches = l.branches := rfl

@[simp] theorem append_source? (l : Ledger) (record : CheckpointRecord) (place : Place)
    (branchId : BranchId) : (l.append record place).source? branchId = l.source? branchId := rfl

@[simp] theorem openBranch_entries (l : Ledger) (branchId : BranchId) (source : CheckpointRecord) :
    (l.openBranch branchId source).entries = l.entries := rfl

@[simp] theorem openBranch_filed? (l : Ledger) (branchId : BranchId) (source : CheckpointRecord)
    (id : CheckpointId) : (l.openBranch branchId source).filed? id = l.filed? id := rfl

@[simp] theorem openBranch_lane (l : Ledger) (branchId : BranchId) (source : CheckpointRecord)
    (threadId : ThreadId) (place : Place) :
    (l.openBranch branchId source).lane threadId place = l.lane threadId place := rfl

theorem append_lane (l : Ledger) (record : CheckpointRecord) (place place' : Place)
    (threadId : ThreadId) : (l.append record place).lane threadId place' =
      if place = place' ∧ record.threadId = threadId then l.lane threadId place' ++ [record]
      else l.lane threadId place' := by
  unfold lane append
  rw [List.filter_append, List.map_append]
  by_cases h : place = place' ∧ record.threadId = threadId
  · simp [h]
  · simp [h]

theorem append_filed? (l : Ledger) (record : CheckpointRecord) (place : Place)
    (id : CheckpointId) : (l.append record place).filed? id =
      (l.filed? id).or (if record.id = id then some (record, place) else none) := by
  unfold filed? append
  rw [lookup_append, lookup_singleton]

theorem openBranch_source? (l : Ledger) (branchId branchId' : BranchId)
    (source : CheckpointRecord) : (l.openBranch branchId source).source? branchId' =
      (l.source? branchId').or (if branchId = branchId' then some source else none) := by
  unfold source? openBranch
  rw [lookup_append, lookup_singleton, Option.map_or]
  by_cases h : branchId = branchId' <;> simp [h]

theorem filed?_id {l : Ledger} {id : CheckpointId} {e : CheckpointRecord × Place}
    (h : l.filed? id = some e) : e.1.id = id := (lookup_key h :)

theorem mem_of_source? {l : Ledger} {branchId : BranchId} {source : CheckpointRecord}
    (h : l.source? branchId = some source) : (branchId, source) ∈ l.branches := by
  obtain ⟨b, hb, rfl⟩ := Option.map_eq_some_iff.mp h
  obtain rfl := lookup_key hb
  exact mem_of_lookup hb

theorem mem_lane {l : Ledger} {threadId : ThreadId} {place : Place} {record : CheckpointRecord} :
    record ∈ l.lane threadId place ↔ (record, place) ∈ l.entries ∧ record.threadId = threadId := by
  unfold lane
  simp only [List.mem_map, List.mem_filter, decide_eq_true_iff]
  constructor
  · rintro ⟨⟨r, p⟩, ⟨hmem, rfl, ht⟩, rfl⟩
    exact ⟨hmem, ht⟩
  · rintro ⟨hmem, ht⟩
    exact ⟨(record, place), ⟨hmem, rfl, ht⟩, rfl⟩

theorem get_eq_some {l : Ledger} {threadId : ThreadId} {id : CheckpointId}
    {record : CheckpointRecord} : l.get threadId id = some record ↔
      (∃ place, l.filed? id = some (record, place)) ∧ record.threadId = threadId := by
  unfold get
  rw [Option.filter_eq_some_iff, decide_eq_true_iff, Option.map_eq_some_iff]
  simp

theorem base_some {l : Ledger} {threadId : ThreadId} {branchId : BranchId}
    {source : CheckpointRecord} (hsource : l.source? branchId = some source)
    (hthread : source.threadId = threadId) :
    l.base threadId (some branchId) = .ok (some source.id) := by
  simp [base, hsource, hthread]

theorem head_none (l : Ledger) (threadId : ThreadId) :
    l.head threadId none = .ok (tip CheckpointRecord.id none (l.lane threadId none)) := rfl

theorem head_some {l : Ledger} {threadId : ThreadId} {branchId : BranchId}
    {source : CheckpointRecord} (hsource : l.source? branchId = some source)
    (hthread : source.threadId = threadId) : l.head threadId (some branchId) =
      .ok (tip CheckpointRecord.id (some source.id) (l.lane threadId (some branchId))) := by
  rw [head, base_some hsource hthread]
  rfl

theorem branchHistory_some {l : Ledger} {threadId : ThreadId} {branchId : BranchId}
    {source : CheckpointRecord} (hsource : l.source? branchId = some source)
    (hthread : source.threadId = threadId) :
    l.branchHistory threadId branchId = source :: l.lane threadId (some branchId) := by
  simp [branchHistory, hsource, hthread]

/-! ## The invariant -/

/-- Every accepted record stands at one place, every lane is a parent chain behind its base, and
every branch starts from a record of another place. -/
structure Sound (l : Ledger) : Prop where
  ids : (l.entries.map fun e => e.1.id).Nodup
  branchIds : (l.branches.map Prod.fst).Nodup
  linked : ∀ threadId place prev, l.base threadId place = .ok prev →
    Linked CheckpointRecord.id (fun r => r.parentId) prev (l.lane threadId place)
  owned : ∀ record branchId, (record, some branchId) ∈ l.entries →
    ∃ source, l.source? branchId = some source ∧ source.threadId = record.threadId
  rooted : ∀ branchId source, l.source? branchId = some source →
    ∃ place, (source, place) ∈ l.entries ∧ place ≠ some branchId

theorem sound_empty : Sound empty where
  ids := List.nodup_nil
  branchIds := List.nodup_nil
  linked _ _ _ _ := trivial
  owned _ _ h := absurd h List.not_mem_nil
  rooted _ _ h := absurd h nofun

theorem Sound.filed?_iff {l : Ledger} (hl : l.Sound) {record : CheckpointRecord} {place : Place} :
    l.filed? record.id = some (record, place) ↔ (record, place) ∈ l.entries := by
  unfold filed?
  rw [lookup_iff hl.ids]
  simp

theorem Sound.lane_nodup {l : Ledger} (hl : l.Sound) (threadId : ThreadId) (place : Place) :
    ((l.lane threadId place).map CheckpointRecord.id).Nodup := by
  unfold lane
  rw [List.map_map]
  exact hl.ids.sublist ((List.filter_sublist).map _)

theorem Sound.branch_nodup {l : Ledger} (hl : l.Sound) {branchId : BranchId}
    {source : CheckpointRecord} (hsource : l.source? branchId = some source) :
    ((source :: l.lane source.threadId (some branchId)).map CheckpointRecord.id).Nodup := by
  rw [List.map_cons, List.nodup_cons]
  refine ⟨?_, hl.lane_nodup _ _⟩
  intro hmem
  obtain ⟨record, hrecord, hid⟩ := List.mem_map.mp hmem
  obtain ⟨place, hentry, hplace⟩ := hl.rooted branchId source hsource
  have hsame := List.inj_on_of_nodup_map hl.ids (mem_lane.mp hrecord).1 hentry hid
  exact hplace (Prod.mk.inj hsame).2.symm

/-- What an operation can do: nothing, append a new record at the end of a lane, or open a branch
from an accepted record. -/
inductive Step (l : Ledger) : Ledger → Prop where
  | nothing : Step l l
  | append {record : CheckpointRecord} {place : Place} (hnew : l.filed? record.id = none)
      (hhead : l.head record.threadId place = .ok record.parentId) :
      Step l (l.append record place)
  | open {branchId : BranchId} {source : CheckpointRecord} (hnew : l.source? branchId = none)
      (hsource : ∃ place, l.filed? source.id = some (source, place)) :
      Step l (l.openBranch branchId source)

theorem write_cases (l : Ledger) (place : Place) (record : CheckpointRecord) :
    (∃ error, l.write place record = (.error error, l)) ∨
    (∃ stands, l.filed? record.id = some (record, stands) ∧ (place = none ∨ stands = place) ∧
      l.write place record = (.ok record, l)) ∨
    (l.filed? record.id = none ∧ l.head record.threadId place = .ok record.parentId ∧
      l.write place record = (.ok record, l.append record place)) := by
  unfold write
  cases hid : l.filed? record.id with
  | some e =>
    obtain ⟨existing, stands⟩ := e
    by_cases h : existing = record ∧ (place = none ∨ stands = place)
    · obtain ⟨rfl, hplace⟩ := h
      exact .inr (.inl ⟨stands, rfl, hplace, if_pos ⟨rfl, hplace⟩⟩)
    · exact .inl ⟨_, if_neg h⟩
  | none =>
    cases hhead : l.head record.threadId place with
    | error error => exact .inl ⟨error, rfl⟩
    | ok actualParent =>
      by_cases h : actualParent = record.parentId
      · subst h
        exact .inr (.inr ⟨rfl, rfl, if_neg (not_not.mpr rfl)⟩)
      · exact .inl ⟨_, if_pos h⟩

theorem createBranch_cases (l : Ledger) (threadId : ThreadId) (branchId : BranchId)
    (sourceId : CheckpointId) :
    (∃ error, l.createBranch threadId branchId sourceId = (.error error, l)) ∨
    (l.source? branchId = none ∧ ∃ source place, l.filed? sourceId = some (source, place) ∧
      source.threadId = threadId ∧ l.createBranch threadId branchId sourceId =
        (.ok ⟨branchId, threadId, sourceId, sourceId⟩, l.openBranch branchId source)) := by
  unfold createBranch
  cases hnew : l.source? branchId with
  | some source => exact .inl ⟨_, rfl⟩
  | none =>
    cases hget : l.get threadId sourceId with
    | none => exact .inl ⟨_, rfl⟩
    | some source =>
      obtain ⟨⟨place, hentry⟩, hthread⟩ := get_eq_some.mp hget
      exact .inr ⟨rfl, source, place, hentry, hthread, rfl⟩

theorem apply_step (l : Ledger) (op : StoreOp) : Step l (l.apply op).2 := by
  have hwrite : ∀ place record, Step l (l.write place record).2 := by
    intro place record
    obtain ⟨error, h⟩ | ⟨stands, -, -, h⟩ | ⟨hnew, hhead, h⟩ := l.write_cases place record
    · rw [h]
      exact .nothing
    · rw [h]
      exact .nothing
    · rw [h]
      exact .append hnew hhead
  cases op with
  | save record => exact hwrite none record
  | saveBranch branchId record => exact hwrite (some branchId) record
  | createBranch threadId branchId sourceId =>
    show Step l (l.createBranch threadId branchId sourceId).2
    obtain ⟨error, h⟩ | ⟨hnew, source, place, hentry, -, h⟩ :=
      l.createBranch_cases threadId branchId sourceId
    · rw [h]
      exact .nothing
    · rw [h]
      exact .open hnew ⟨place, filed?_id hentry ▸ hentry⟩

/-! ## Every step keeps the invariant -/

theorem base_openBranch (l : Ledger) {branchId : BranchId} (source : CheckpointRecord)
    (threadId : ThreadId) {place : Place}
    (hplace : place ≠ some branchId) :
    (l.openBranch branchId source).base threadId place = l.base threadId place := by
  cases place with
  | none => rfl
  | some branchId' =>
    have hne : branchId ≠ branchId' := fun h => hplace (by rw [h])
    simp only [base]
    rw [openBranch_source?, if_neg hne, Option.or_none]

theorem Sound.lane_nil {l : Ledger} (hl : l.Sound) {branchId : BranchId}
    (hnew : l.source? branchId = none) (threadId : ThreadId) :
    l.lane threadId (some branchId) = [] := by
  rw [List.eq_nil_iff_forall_not_mem]
  intro record hmem
  obtain ⟨source, hsource, -⟩ := hl.owned record branchId (mem_lane.mp hmem).1
  rw [hnew] at hsource
  exact nomatch hsource

theorem Sound.append {l : Ledger} (hl : l.Sound) {record : CheckpointRecord} {place : Place}
    (hnew : l.filed? record.id = none)
    (hhead : l.head record.threadId place = .ok record.parentId) :
    (l.append record place).Sound where
  ids := nodup_snoc hl.ids hnew
  branchIds := hl.branchIds
  linked := by
    intro threadId place' prev hbase
    have hbase : l.base threadId place' = .ok prev := hbase
    rw [append_lane]
    split
    · rename_i h
      obtain ⟨rfl, rfl⟩ := h
      refine linked_snoc (hl.linked _ _ _ hbase) ?_
      rw [head, hbase] at hhead
      exact (Except.ok.inj hhead).symm
    · exact hl.linked _ _ _ hbase
  owned := by
    intro r branchId hmem
    rcases List.mem_append.mp hmem with hmem | hmem
    · exact hl.owned r branchId hmem
    · obtain ⟨rfl, rfl⟩ := Prod.mk.inj (List.mem_singleton.mp hmem)
      unfold head base at hhead
      rw [append_source?]
      cases hsource : l.source? branchId with
      | none => simp [hsource, Except.map] at hhead
      | some source =>
        refine ⟨source, rfl, ?_⟩
        by_contra hthread
        simp [hsource, hthread, Except.map] at hhead
  rooted := by
    intro branchId source hsource
    obtain ⟨place', hmem, hne⟩ := hl.rooted branchId source hsource
    exact ⟨place', List.mem_append_left _ hmem, hne⟩

theorem Sound.open {l : Ledger} (hl : l.Sound) {branchId : BranchId} {source : CheckpointRecord}
    (hnew : l.source? branchId = none) {place : Place}
    (hsource : l.filed? source.id = some (source, place)) : (l.openBranch branchId source).Sound where
  ids := hl.ids
  branchIds := nodup_snoc hl.branchIds (Option.map_eq_none_iff.mp hnew)
  linked := by
    intro threadId place' prev hbase
    rw [openBranch_lane]
    by_cases hplace : place' = some branchId
    · rw [hplace, hl.lane_nil hnew]
      trivial
    · exact hl.linked _ _ _ (by rwa [base_openBranch l source threadId hplace] at hbase)
  owned := by
    intro r branchId' hmem
    obtain ⟨source', hsource', hthread⟩ := hl.owned r branchId' hmem
    exact ⟨source', by rw [openBranch_source?, hsource', Option.some_or], hthread⟩
  rooted := by
    intro branchId' source' hsource'
    rw [openBranch_source?] at hsource'
    cases hold : l.source? branchId' with
    | some old =>
      rw [hold, Option.some_or, Option.some.injEq] at hsource'
      exact hl.rooted branchId' source' (by rw [hold, hsource'])
    | none =>
      rw [hold, Option.none_or] at hsource'
      split at hsource'
      · rename_i hid
        cases hsource'
        subst hid
        refine ⟨place, mem_of_lookup hsource, ?_⟩
        rintro rfl
        obtain ⟨_, h, -⟩ := hl.owned _ _ (mem_of_lookup hsource)
        rw [hnew] at h
        exact nomatch h
      · exact nomatch hsource'

theorem Step.sound {l l' : Ledger} (h : Step l l') (hl : l.Sound) : l'.Sound := by
  cases h with
  | nothing => exact hl
  | append hnew hhead => exact hl.append hnew hhead
  | «open» hnew hsource => exact hl.open hnew hsource.choose_spec

theorem run_sound {l : Ledger} (hl : l.Sound) (ops : List StoreOp) : (l.run ops).Sound := by
  induction ops generalizing l with
  | nil => exact hl
  | cons op ops ih => exact ih ((l.apply_step op).sound hl)

/-! ## A ledger only grows -/

/-- Every entry and every branch stays where it is. -/
structure Grows (l l' : Ledger) : Prop where
  entries : l.entries <+: l'.entries
  branches : l.branches <+: l'.branches

theorem Grows.trans {l l' l'' : Ledger} (h : Grows l l') (h' : Grows l' l'') : Grows l l'' :=
  ⟨h.entries.trans h'.entries, h.branches.trans h'.branches⟩

theorem Step.grows {l l' : Ledger} (h : Step l l') : Grows l l' := by
  cases h with
  | nothing => exact ⟨List.prefix_refl _, List.prefix_refl _⟩
  | append => exact ⟨List.prefix_append _ _, List.prefix_refl _⟩
  | «open» => exact ⟨List.prefix_refl _, List.prefix_append _ _⟩

theorem run_grows (l : Ledger) (ops : List StoreOp) : Grows l (l.run ops) := by
  induction ops generalizing l with
  | nil => exact ⟨List.prefix_refl _, List.prefix_refl _⟩
  | cons op ops ih =>
    exact (l.apply_step op).grows.trans (ih (l.apply op).2)

theorem Grows.lane {l l' : Ledger} (h : Grows l l') (threadId : ThreadId) (place : Place) :
    l.lane threadId place <+: l'.lane threadId place :=
  (h.entries.filter _).map _

theorem Grows.source? {l l' : Ledger} (h : Grows l l') {branchId : BranchId}
    {source : CheckpointRecord} (hs : l.source? branchId = some source) :
    l'.source? branchId = some source := by
  obtain ⟨more, hmore⟩ := h.branches
  obtain ⟨b, hb, rfl⟩ := Option.map_eq_some_iff.mp hs
  unfold Ledger.source?
  rw [← hmore, lookup_append, hb, Option.some_or, Option.map_some]

theorem Grows.branchHistory {l l' : Ledger} (h : Grows l l') (threadId : ThreadId)
    (branchId : BranchId) : l.branchHistory threadId branchId <+:
      l'.branchHistory threadId branchId := by
  cases hsource : l.source? branchId with
  | none =>
    simp only [Ledger.branchHistory, hsource]
    exact List.nil_prefix
  | some source =>
    by_cases hthread : source.threadId = threadId
    · rw [branchHistory_some hsource hthread, branchHistory_some (h.source? hsource) hthread]
      exact List.cons_prefix_cons.mpr ⟨rfl, h.lane threadId (some branchId)⟩
    · simp only [Ledger.branchHistory, hsource, ne_eq, hthread, not_false_eq_true, if_true]
      exact List.nil_prefix

/-! ## What an accepted operation leaves -/

theorem write_ok {l : Ledger} {place : Place} {record reply : CheckpointRecord}
    (h : (l.write place record).1 = .ok reply) : reply = record ∧
      ∃ stands, (record, stands) ∈ (l.write place record).2.entries ∧
        (l.filed? record.id = none → stands = place) := by
  obtain ⟨error, hw⟩ | ⟨stands, hentry, -, hw⟩ | ⟨-, -, hw⟩ := l.write_cases place record
  · rw [hw] at h
    exact nomatch h
  · rw [hw] at h ⊢
    refine ⟨(Except.ok.inj h).symm, stands, mem_of_lookup hentry, fun hnone => ?_⟩
    rw [hnone] at hentry
    exact nomatch hentry
  · rw [hw] at h ⊢
    exact ⟨(Except.ok.inj h).symm, place, List.mem_append_right _ (List.mem_singleton.mpr rfl),
      fun _ => rfl⟩

theorem apply_record {l : Ledger} {op : StoreOp} {record : CheckpointRecord}
    (h : (l.apply op).1 = .ok (.record record)) : op.record? = some record ∧
      ∃ place, (record, place) ∈ (l.apply op).2.entries ∧
        (l.filed? record.id = none → place = op.place) := by
  cases op with
  | save r =>
    obtain ⟨reply, hok, hreply⟩ := map_eq_ok.mp h
    cases hreply
    obtain ⟨rfl, hstands⟩ := write_ok hok
    exact ⟨rfl, hstands⟩
  | saveBranch branchId r =>
    obtain ⟨reply, hok, hreply⟩ := map_eq_ok.mp h
    cases hreply
    obtain ⟨rfl, hstands⟩ := write_ok hok
    exact ⟨rfl, hstands⟩
  | createBranch threadId branchId sourceId =>
    obtain ⟨reply, -, hreply⟩ := map_eq_ok.mp h
    exact nomatch hreply

theorem apply_head {l : Ledger} (hl : l.Sound) {op : StoreOp} {head : BranchHead}
    (h : (l.apply op).1 = .ok (.head head)) : ∃ source : CheckpointRecord,
      source.id = head.sourceCheckpointId ∧ source.threadId = head.threadId ∧
      (l.apply op).2.source? head.branchId = some source ∧
      (l.apply op).2.lane head.threadId (some head.branchId) = [] := by
  cases op with
  | save r =>
    obtain ⟨reply, -, hreply⟩ := map_eq_ok.mp h
    exact nomatch hreply
  | saveBranch branchId r =>
    obtain ⟨reply, -, hreply⟩ := map_eq_ok.mp h
    exact nomatch hreply
  | createBranch threadId branchId sourceId =>
    obtain ⟨reply, hok, hreply⟩ := map_eq_ok.mp h
    cases hreply
    show ∃ source : CheckpointRecord, _ ∧ _ ∧ (l.createBranch threadId branchId sourceId).2.source? _ = _ ∧
      (l.createBranch threadId branchId sourceId).2.lane _ _ = _
    obtain ⟨error, hw⟩ | ⟨hnew, source, place, hentry, hthread, hw⟩ :=
      l.createBranch_cases threadId branchId sourceId
    · rw [hw] at hok
      exact nomatch hok
    · rw [hw] at hok ⊢
      obtain rfl := Except.ok.inj hok
      refine ⟨source, filed?_id hentry, hthread, ?_, hl.lane_nil hnew threadId⟩
      rw [openBranch_source?, hnew, if_pos rfl, Option.none_or]

end Ledger

end GroupAgent.Core
