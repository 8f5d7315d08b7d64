import GroupAgent.Core.Backed
import GroupAgent.Core.Chaining
import GroupAgent.Lib.Parts

/-!
# Runs that share a store

Any number of calls save through their checkpointers (`RecordCheckpointer`,
`checkpoint.rs:1320-1327`) to one in-memory store (`InMemoryCheckpointStore`,
`checkpoint_store.rs:91-93`), each operation of which takes the lock once. The order in which their
writes get to the store is arbitrary.

* `Served`: one write, as the checkpointer serves it. A write that was not waited for was performed
  or not.
* `Interleaved`: the store over the writes of several calls, in the order they get to it.
* `Behaves`: what is left of the log of a call, given the parent that its next save expects.
* `Parted`: on a lane the runs stand one after the other.

Results: **`runs_serial`**: on every lane the calls come one after the other. What a call saved
stands in one block, and nothing that was accepted is lost.

Premise: what a checkpointer remembers of a record has its identifier. `Caching` proves it of the
cache of the source.
-/

namespace GroupAgent.Core

open GroupAgent.Lib InMemoryRecordState

variable {ν ρ : Type} {E : Env ν ρ}

/-! ## The store over the writes of several calls -/

/-- The records of a place behind its base: a default history, or a branch without its source. -/
def InMemoryRecordState.lane (s : InMemoryRecordState) (threadId : ThreadId) :
    Place → List CheckpointRecord
  | none => s.history threadId
  | some branchId => (s.branchHistory threadId branchId).tail

/-- What is remembered of a record has its identifier. -/
def RecordCheckpointer.Keeps (c : RecordCheckpointer E) : Prop :=
  ∀ record decoded w chk, (c.remember record (.ok decoded) w).1 = .ok chk →
    decoded.id = record.checkpointId → chk.id = record.checkpointId

/-- One write as it is served. -/
inductive Served (c : RecordCheckpointer E) (s : InMemoryRecordState) :
    StoreWrite E → InMemoryRecordState → Prop where
  | saved (branchId : Option BranchId) (request : CheckpointRequest E.Snapshot E.Value)
      (w : E.World) : Served c s (.save branchId request (some (c.save branchId request (w, s)).1))
        (c.save branchId request (w, s)).2.2
  | abandoned (branchId : Option BranchId) (request : CheckpointRequest E.Snapshot E.Value)
      (w : E.World) : Served c s (.save branchId request none) (c.save branchId request (w, s)).2.2
  | unsent (branchId : Option BranchId) (request : CheckpointRequest E.Snapshot E.Value) :
      Served c s (.save branchId request none) s
  | created (threadId : ThreadId) (branchId : BranchId) (source : CheckpointId)
      (answer : Option (Except CheckpointWriteError Unit))
      (hanswer : ∀ result ∈ answer,
        result = (s.createBranch threadId branchId source).1.map fun _ => ()) :
      Served c s (.createBranch threadId branchId source answer)
        (s.createBranch threadId branchId source).2
  | uncreated (threadId : ThreadId) (branchId : BranchId) (source : CheckpointId) :
      Served c s (.createBranch threadId branchId source none) s

/-- The writes of several calls, in the order in which they get to the store. -/
inductive Interleaved {ι : Type} (c : RecordCheckpointer E) :
    InMemoryRecordState → List (ι × StoreWrite E) → InMemoryRecordState → Prop where
  | nil {s : InMemoryRecordState} : Interleaved c s [] s
  | cons {s s' s'' : InMemoryRecordState} {i : ι} {w : StoreWrite E}
      {order : List (ι × StoreWrite E)} (hw : Served c s w s')
      (hrest : Interleaved c s' order s'') : Interleaved c s ((i, w) :: order) s''

/-- The identifier a save brings. -/
def StoreWrite.brings : StoreWrite E → Option CheckpointId
  | .save _ request _ => some request.checkpointId
  | .createBranch _ _ _ _ => none

/-- No save brings an identifier that is in the store, or that another one brings. -/
structure Fresh {ι : Type} (known : CheckpointId → Prop) (order : List (ι × StoreWrite E)) :
    Prop where
  distinct : (order.filterMap fun p => p.2.brings).Nodup
  new : ∀ id ∈ order.filterMap (fun p => p.2.brings), ¬known id

/-! ## One write on the ledger -/

section Served

variable {c : RecordCheckpointer E} {l : Ledger} {s s' : InMemoryRecordState}
  {branchId : Option BranchId} {request : CheckpointRequest E.Snapshot E.Value}

/-- The record of a request takes its place from it. -/
structure Records (c : RecordCheckpointer E) (request : CheckpointRequest E.Snapshot E.Value)
    (record : CheckpointRecord) : Prop where
  built : request.toRecord c.codec = .ok record
  id : record.checkpointId = request.checkpointId
  parent : record.parentId = request.expectedParent
  thread : record.threadId = request.threadId

theorem records_of_toRecord {record : CheckpointRecord}
    (h : request.toRecord c.codec = .ok record) : Records c request record := by
  have hrecord := h
  unfold CheckpointRequest.toRecord at h
  obtain ⟨bytes, -, h⟩ := bind_eq_ok.mp h
  obtain ⟨interrupt, -, h⟩ := bind_eq_ok.mp h
  obtain ⟨superstep, -, h⟩ := bind_eq_ok.mp h
  obtain ⟨step, -, h⟩ := bind_eq_ok.mp h
  have hparts := tryFromParts_parts (mapError_eq_ok.mp h)
  refine ⟨hrecord, ?_, ?_, ?_⟩
  · exact congrArg CheckpointRecordParts.checkpointId hparts
  · exact congrArg CheckpointRecordParts.parentId hparts
  · exact congrArg CheckpointRecordParts.threadId hparts

/-- What a save does to the ledger of the store: it is refused, or its record is appended where the
lane ends. Only an appended record is answered with a checkpoint. -/
inductive SavesTo (c : RecordCheckpointer E) (l : Ledger) (branchId : Option BranchId)
    (request : CheckpointRequest E.Snapshot E.Value) :
    Except CheckpointWriteError (Checkpoint E.Snapshot E.Value) → Ledger → Prop where
  | refused (error : CheckpointWriteError) : SavesTo c l branchId request (.error error) l
  | appended {record : CheckpointRecord}
      {answer : Except CheckpointWriteError (Checkpoint E.Snapshot E.Value)}
      (hrecord : Records c request record)
      (hhead : l.head record.threadId branchId = .ok record.parentId)
      (hanswer : ∀ chk, answer = .ok chk → chk.id = record.id) :
      SavesTo c l branchId request answer (l.append record branchId)

theorem Records.remembered (hc : c.Keeps) {record : CheckpointRecord}
    (h : Records c request record) {w : E.World} {chk : Checkpoint E.Snapshot E.Value}
    (hchk : (c.remember record (.ok request.intoCheckpoint) w).1.mapError
      CheckpointWriteError.failed = .ok chk) : chk.id = record.id :=
  hc record request.intoCheckpoint w chk (mapError_eq_ok.mp hchk) h.id.symm

theorem savesTo_save (branchId : Option BranchId) (hc : c.Keeps) (h : Holds l s)
    (hnew : l.filed? request.checkpointId = none) (w : E.World) :
    ∃ l', Holds l' (c.save branchId request (w, s)).2.2 ∧
      SavesTo c l branchId request (c.save branchId request (w, s)).1 l' := by
  unfold RecordCheckpointer.save
  cases hrecord : request.toRecord c.codec with
  | error source => exact ⟨l, h, .refused _⟩
  | ok record =>
    have hrecords := records_of_toRecord hrecord
    have hid : record.id = request.checkpointId := hrecords.id
    have hnew' : l.filed? record.id = none := by rw [hid]; exact hnew
    cases branchId with
    | none =>
      obtain ⟨hanswer, hholds⟩ := h.insert record
      obtain ⟨error, hw⟩ | ⟨stands, hfiled, -, hw⟩ | ⟨-, hhead, hw⟩ := l.write_cases none record
      · rw [hw] at hanswer hholds
        simp only [hanswer]
        exact ⟨l, hholds, .refused _⟩
      · rw [hnew'] at hfiled
        cases hfiled
      · rw [hw] at hanswer hholds
        simp only [hanswer, ne_eq, not_true_eq_false, if_false]
        exact ⟨_, hholds, .appended hrecords hhead fun _ => hrecords.remembered hc⟩
    | some branchId =>
      obtain ⟨hanswer, hholds⟩ := h.insertBranch branchId record
      obtain ⟨error, hw⟩ | ⟨stands, hfiled, -, hw⟩ | ⟨-, hhead, hw⟩ :=
        l.write_cases (some branchId) record
      · rw [hw] at hanswer hholds
        simp only [hanswer]
        exact ⟨l, hholds, .refused _⟩
      · rw [hnew'] at hfiled
        cases hfiled
      · rw [hw] at hanswer hholds
        simp only [hanswer, ne_eq, not_true_eq_false, if_false]
        exact ⟨_, hholds, .appended hrecords hhead fun _ => hrecords.remembered hc⟩

/-- What a write does to the ledger of the store: no record is appended, and it is not answered with
a checkpoint; or the record of a save is appended. -/
inductive Wrote (c : RecordCheckpointer E) (l : Ledger) : StoreWrite E → Ledger → Prop where
  | nothing {w : StoreWrite E} {l' : Ledger} (hentries : l'.entries = l.entries)
      (hkept : w.kept = none) : Wrote c l w l'
  | append {branchId : Option BranchId} {request : CheckpointRequest E.Snapshot E.Value}
      {answer : Option (Except CheckpointWriteError (Checkpoint E.Snapshot E.Value))}
      {record : CheckpointRecord} (hrecord : Records c request record)
      (hanswer : ∀ chk, answer = some (.ok chk) → chk.id = record.id) :
      Wrote c l (.save branchId request answer) (l.append record branchId)

/-- A save that is performed, with its answer heard or not. -/
theorem wrote_save (hc : c.Keeps) (h : Holds l s) (hl : l.Sound)
    (hnew : l.filed? request.checkpointId = none) (w : E.World)
    {answer : Option (Except CheckpointWriteError (Checkpoint E.Snapshot E.Value))}
    (hanswer : ∀ result ∈ answer, result = (c.save branchId request (w, s)).1) :
    ∃ l', Holds l' (c.save branchId request (w, s)).2.2 ∧ l'.Sound ∧
      Wrote c l (.save branchId request answer) l' := by
  obtain ⟨l', hholds, hsaves⟩ := savesTo_save branchId hc h hnew w
  generalize c.save branchId request (w, s) = r at hanswer hsaves hholds
  obtain ⟨result, w', s'⟩ := r
  simp only at hanswer hsaves hholds
  cases hsaves with
  | refused error =>
    refine ⟨l, hholds, hl, .nothing rfl ?_⟩
    rcases answer with _ | (error | chk)
    · rfl
    · rfl
    · cases hanswer _ rfl
  | appended hrecord hhead hchk =>
    rename_i record
    have hfiled : l.filed? record.id = none := by
      rw [show record.id = request.checkpointId from hrecord.id]
      exact hnew
    refine ⟨_, hholds, hl.append hfiled hhead, .append hrecord fun chk heq => hchk chk ?_⟩
    exact (hanswer _ heq).symm

/-- **One write on the ledger.** -/
theorem wrote_served (hc : c.Keeps) (h : Holds l s) (hl : l.Sound) {w : StoreWrite E}
    (hnew : ∀ id ∈ w.brings, l.filed? id = none) (hw : Served c s w s') :
    ∃ l', Holds l' s' ∧ l'.Sound ∧ Wrote c l w l' := by
  cases hw with
  | saved branchId request v =>
    exact wrote_save hc h hl (hnew _ rfl) v fun _ heq => (Option.some.inj heq).symm
  | abandoned branchId request v =>
    have hanswer : ∀ result ∈ (none : Option (Except CheckpointWriteError
        (Checkpoint E.Snapshot E.Value))), result = (c.save branchId request (v, s)).1 := by
      intro result hresult
      cases hresult
    exact wrote_save hc h hl (hnew _ rfl) v hanswer
  | unsent branchId request => exact ⟨l, h, hl, .nothing rfl rfl⟩
  | created threadId branchId source answer =>
    refine ⟨_, (h.createBranch hl threadId branchId source).2,
      (l.apply_step (.createBranch threadId branchId source)).sound hl, .nothing ?_ rfl⟩
    obtain ⟨error, hw⟩ | ⟨-, source', place, -, -, hw⟩ :=
      l.createBranch_cases threadId branchId source
    · show (l.createBranch threadId branchId source).2.entries = _
      rw [hw]
    · show (l.createBranch threadId branchId source).2.entries = _
      rw [hw]
      rfl
  | uncreated threadId branchId source =>
    exact ⟨l, h, hl, .nothing rfl rfl⟩

end Served

/-! ## What is left of a log -/

/-- What is left of the log of a run whose next save expects this parent. -/
inductive Behaves (c : EnabledCheckpoint) (runId : RunId) (parent : Option CheckpointId) :
    List (StoreWrite E) → Prop where
  | saves {superstep step : Nat} {ws : List (StoreWrite E)}
      (h : Chained c runId parent superstep step ws) : Behaves c runId parent ws
  | branch {superstep step : Nat} {ws : List (StoreWrite E)} {threadId : ThreadId}
      {branchId : BranchId} {source : CheckpointId}
      {answer : Option (Except CheckpointWriteError Unit)}
      (h : Chained c runId parent superstep step ws) :
      Behaves c runId parent (.createBranch threadId branchId source answer :: ws)

section Behaves

variable {k : EnabledCheckpoint} {runId : RunId} {parent : Option CheckpointId}
  {ws : List (StoreWrite E)}

theorem Behaves.branch_rest {threadId : ThreadId} {branchId : BranchId} {source : CheckpointId}
    {answer : Option (Except CheckpointWriteError Unit)}
    (h : Behaves k runId parent (.createBranch threadId branchId source answer :: ws)) :
    Behaves k runId parent ws := by
  cases h with
  | saves h => cases h
  | branch h => exact .saves h

/-- A save is sent where and behind what the run expects, and the run goes on only behind what it
was answered with. -/
theorem Behaves.save_rest {branchId : Option BranchId}
    {request : CheckpointRequest E.Snapshot E.Value}
    {answer : Option (Except CheckpointWriteError (Checkpoint E.Snapshot E.Value))}
    (h : Behaves k runId parent (.save branchId request answer :: ws)) :
    branchId = k.branchId ∧ request.threadId = k.threadId ∧ request.expectedParent = parent ∧
      ∀ next, (∀ chk, answer = some (.ok chk) → next = some chk.id) → Behaves k runId next ws := by
  cases h with
  | saves h =>
    cases h with
    | last hsends =>
      refine ⟨rfl, hsends.thread, hsends.parent, fun next _ => ?_⟩
      exact .saves (Chained.nil : Chained k runId next 0 0 [])
    | link hsends _ _ _ _ hrest =>
      refine ⟨rfl, hsends.thread, hsends.parent, fun next hnext => ?_⟩
      rw [hnext _ rfl]
      exact .saves hrest

/-- A write that is not answered with a checkpoint leaves the parent. -/
theorem Behaves.rest {w : StoreWrite E} (h : Behaves k runId parent (w :: ws))
    (hkept : w.kept = none) : Behaves k runId parent ws := by
  cases w with
  | save branchId request answer =>
    refine h.save_rest.2.2.2 parent ?_
    rintro chk rfl
    cases hkept
  | createBranch threadId branchId source answer => exact h.branch_rest

end Behaves

section Fresh

variable {ι : Type} {order : List (ι × StoreWrite E)}

/-- The first write brings a new identifier, and the others bring other ones. -/
theorem Fresh.cons {known : CheckpointId → Prop} {i : ι} {w : StoreWrite E}
    (h : Fresh known ((i, w) :: order)) :
    (∀ id ∈ w.brings, ¬known id) ∧ Fresh (fun id => known id ∨ id ∈ w.brings) order := by
  have hdistinct := h.distinct
  have hnew := h.new
  cases hbrings : w.brings with
  | none =>
    have hids : ((i, w) :: order).filterMap (fun p => p.2.brings) =
        order.filterMap fun p => p.2.brings := List.filterMap_cons_none hbrings
    rw [hids] at hdistinct hnew
    refine ⟨nofun, hdistinct, fun id hid => ?_⟩
    rintro (hknown | hid')
    · exact hnew id hid hknown
    · cases hid'
  | some own =>
    have hids : ((i, w) :: order).filterMap (fun p => p.2.brings) =
        own :: order.filterMap fun p => p.2.brings := List.filterMap_cons_some hbrings
    rw [hids] at hdistinct hnew
    rw [List.nodup_cons] at hdistinct
    refine ⟨fun id hid => ?_, hdistinct.2, fun id hid => ?_⟩
    · cases hid
      exact hnew _ List.mem_cons_self
    · rintro (hknown | hid')
      · exact hnew id (List.mem_cons_of_mem _ hid) hknown
      · cases hid'
        exact hdistinct.1 hid

theorem Fresh.mono {known known' : CheckpointId → Prop} (h : Fresh known order)
    (hsub : ∀ id, known' id → known id) : Fresh known' order :=
  ⟨h.distinct, fun id hid hknown => h.new id hid (hsub id hknown)⟩

end Fresh

/-! ## What several calls append -/

section Appended

variable {ι : Type} [DecidableEq ι] {c : RecordCheckpointer E}

/-- What the writes of several calls, each of which behaves as `k` and `parent` say, append to a
ledger. -/
structure Appended (c : RecordCheckpointer E) (k : ι → EnabledCheckpoint)
    (parent : ι → Option CheckpointId) (order : List (ι × StoreWrite E)) (l l' : Ledger)
    (added : List (ι × (CheckpointRecord × Place))) : Prop where
  entries : l'.entries = l.entries ++ added.map Prod.snd
  linked : ∀ i, Linked (fun e : CheckpointRecord × Place => e.1.id) (fun e => e.1.parentId)
    (parent i) (ownedBy i added)
  place : ∀ p ∈ added, p.2.1.threadId = (k p.1).threadId ∧ p.2.2 = (k p.1).branchId
  sent : ∀ p ∈ added, ∃ request answer, (p.1, .save p.2.2 request answer) ∈ order ∧
    Records c request p.2.1
  kept : ∀ i branchId request chk, (i, .save branchId request (some (.ok chk))) ∈ order →
    ∃ record, (i, (record, branchId)) ∈ added ∧ Records c request record

variable {k : ι → EnabledCheckpoint} {runId : ι → RunId} {parent : ι → Option CheckpointId}
  {order : List (ι × StoreWrite E)} {l l₁ l' : Ledger}
  {added : List (ι × (CheckpointRecord × Place))}

theorem Appended.nil : Appended c k parent [] l l [] where
  entries := (List.append_nil _).symm
  linked _ := trivial
  place p hp := by cases hp
  sent p hp := by cases hp
  kept i branchId request chk hmem := absurd hmem List.not_mem_nil

/-- A write that appends nothing and is not answered with a checkpoint. -/
theorem Appended.skip {i : ι} {w : StoreWrite E} (h : Appended c k parent order l₁ l' added)
    (hl : l₁.entries = l.entries) (hkept : w.kept = none) :
    Appended c k parent ((i, w) :: order) l l' added where
  entries := by rw [h.entries, hl]
  linked := h.linked
  place := h.place
  sent p hp := by
    obtain ⟨request, answer, hmem, hrecords⟩ := h.sent p hp
    exact ⟨request, answer, List.mem_cons_of_mem _ hmem, hrecords⟩
  kept j branchId request chk hmem := by
    rcases List.mem_cons.mp hmem with heq | hmem
    · obtain ⟨-, rfl⟩ := Prod.mk.inj heq
      cases hkept
    · exact h.kept j branchId request chk hmem

/-- A save whose record is appended. -/
theorem Appended.append {i : ι} {branchId : Option BranchId}
    {request : CheckpointRequest E.Snapshot E.Value}
    {answer : Option (Except CheckpointWriteError (Checkpoint E.Snapshot E.Value))}
    {record : CheckpointRecord}
    (h : Appended c k (Function.update parent i (some record.id)) order
      (l.append record branchId) l' added) (hrecord : Records c request record)
    (hbranch : branchId = (k i).branchId) (hthread : request.threadId = (k i).threadId)
    (hparent : request.expectedParent = parent i) :
    Appended c k parent ((i, .save branchId request answer) :: order) l l'
      ((i, (record, branchId)) :: added) where
  entries := by
    rw [h.entries]
    simp [Ledger.append]
  linked j := by
    have hj := h.linked j
    by_cases hij : i = j
    · subst hij
      rw [Function.update_self] at hj
      rw [ownedBy_cons_self]
      exact ⟨hrecord.parent.trans hparent, hj⟩
    · rw [Function.update_of_ne (Ne.symm hij)] at hj
      rwa [ownedBy_cons_of_ne hij]
  place p hp := by
    rcases List.mem_cons.mp hp with rfl | hp
    · exact ⟨hrecord.thread.trans hthread, hbranch⟩
    · exact h.place p hp
  sent p hp := by
    rcases List.mem_cons.mp hp with rfl | hp
    · exact ⟨request, answer, List.mem_cons_self, hrecord⟩
    · obtain ⟨request, answer, hmem, hrecords⟩ := h.sent p hp
      exact ⟨request, answer, List.mem_cons_of_mem _ hmem, hrecords⟩
  kept j branchId' request' chk hmem := by
    rcases List.mem_cons.mp hmem with heq | hmem
    · cases heq
      exact ⟨record, List.mem_cons_self, hrecord⟩
    · obtain ⟨record', hmem', hrecords⟩ := h.kept j branchId' request' chk hmem
      exact ⟨record', List.mem_cons_of_mem _ hmem', hrecords⟩

/-- What a call has left, and what the others have. -/
theorem behaves_rest {i : ι} {w : StoreWrite E} {next : Option CheckpointId}
    (h : ∀ j, Behaves (k j) (runId j) (parent j) (ownedBy j ((i, w) :: order)))
    (hi : Behaves (k i) (runId i) next (ownedBy i order)) (j : ι) :
    Behaves (k j) (runId j) (Function.update parent i next j) (ownedBy j order) := by
  by_cases hij : i = j
  · subst hij
    rwa [Function.update_self]
  · rw [Function.update_of_ne (Ne.symm hij), ← ownedBy_cons_of_ne hij (a := w)]
    exact h j

/-- **What interleaved writes append.** -/
theorem Interleaved.appended (hc : c.Keeps) {s s' : InMemoryRecordState}
    (h : Interleaved c s order s') (hholds : Holds l s) (hl : l.Sound)
    (hfresh : Fresh (fun id => l.filed? id ≠ none) order)
    (hbehaves : ∀ i, Behaves (k i) (runId i) (parent i) (ownedBy i order)) :
    ∃ l' added, Holds l' s' ∧ l'.Sound ∧ Appended c k parent order l l' added := by
  induction h generalizing l parent with
  | nil => exact ⟨l, [], hholds, hl, .nil⟩
  | @cons s s₁ s' i w order hw hrest ih =>
    obtain ⟨hnew, hfresh'⟩ := hfresh.cons
    obtain ⟨l₁, hholds₁, hl₁, hwrote⟩ :=
      wrote_served hc hholds hl (fun id hid => not_not.mp (hnew id hid)) hw
    have hown := hbehaves i
    rw [ownedBy_cons_self] at hown
    cases hwrote with
    | nothing hentries hnone =>
      have hfiled : l₁.filed? = l.filed? := by
        unfold Ledger.filed?
        rw [hentries]
      have hrest' : ∀ j, Behaves (k j) (runId j) (parent j) (ownedBy j order) := by
        intro j
        have h := behaves_rest hbehaves (hown.rest hnone) j
        rwa [Function.update_eq_self] at h
      obtain ⟨l', added, hholds', hl', happended⟩ := ih hholds₁ hl₁
        (hfresh'.mono fun id hid => .inl (by rwa [hfiled] at hid)) hrest'
      exact ⟨l', added, hholds', hl', happended.skip hentries hnone⟩
    | @append branchId request answer record hrecord hanswer =>
      obtain ⟨hbranch, hthread, hparent, hnext⟩ := hown.save_rest
      have hrest' := behaves_rest hbehaves (hnext (some record.id) fun chk heq => by
        rw [hanswer chk heq])
      obtain ⟨l', added, hholds', hl', happended⟩ := ih hholds₁ hl₁ (hfresh'.mono fun id hid => by
        by_cases hid' : record.id = id
        · exact .inr (congrArg some (hid'.symm.trans hrecord.id).symm)
        · refine .inl fun hnone => hid ?_
          rw [Ledger.append_filed?, hnone, if_neg hid']
          rfl) hrest'
      exact ⟨l', _, hholds', hl', happended.append hrecord hbranch hthread hparent⟩

end Appended

/-! ## One lane -/

/-- What was added on one lane, with who added it. -/
def onLane {ι : Type} (threadId : ThreadId) (place : Place)
    (added : List (ι × (CheckpointRecord × Place))) : List (ι × CheckpointRecord) :=
  (added.filter fun p => p.2.2 = place ∧ p.2.1.threadId = threadId).map fun p => (p.1, p.2.1)

section Lane

variable {ι : Type} {threadId : ThreadId} {place : Place}
  {added : List (ι × (CheckpointRecord × Place))}

theorem mem_onLane {i : ι} {record : CheckpointRecord} :
    (i, record) ∈ onLane threadId place added ↔
      (i, (record, place)) ∈ added ∧ record.threadId = threadId := by
  unfold onLane
  constructor
  · intro h
    obtain ⟨⟨j, r, place'⟩, hmem, heq⟩ := List.mem_map.mp h
    cases heq
    obtain ⟨hmem, hon⟩ := List.mem_filter.mp hmem
    obtain ⟨hplace, hthread⟩ := of_decide_eq_true hon
    exact ⟨hplace ▸ hmem, hthread⟩
  · rintro ⟨hmem, hthread⟩
    exact List.mem_map.mpr ⟨_, List.mem_filter.mpr ⟨hmem, decide_eq_true ⟨rfl, hthread⟩⟩, rfl⟩

theorem lane_of_entries {l l' : Ledger} (h : l'.entries = l.entries ++ added.map Prod.snd)
    (threadId : ThreadId) (place : Place) : l'.lane threadId place =
      l.lane threadId place ++ (onLane threadId place added).map Prod.snd := by
  unfold Ledger.lane onLane
  rw [h, List.filter_append, List.map_append, List.filter_map, List.map_map, List.map_map]
  rfl

/-- Whoever adds to one lane only has all that it added on this one, or nothing. -/
theorem ownedBy_onLane [DecidableEq ι] (threadId : ThreadId) (place : Place) {i : ι}
    {k : EnabledCheckpoint}
    (hplace : ∀ p ∈ added, p.1 = i → p.2.1.threadId = k.threadId ∧ p.2.2 = k.branchId) :
    ownedBy i (onLane threadId place added) = [] ∨
      k.threadId = threadId ∧ k.branchId = place ∧
        ownedBy i (onLane threadId place added) = (ownedBy i added).map Prod.fst := by
  by_cases hon : k.branchId = place ∧ k.threadId = threadId
  · refine .inr ⟨hon.2, hon.1, ?_⟩
    obtain ⟨rfl, rfl⟩ := hon
    unfold ownedBy onLane
    rw [List.filter_map, List.filter_filter, List.map_map, List.map_map]
    have hsame : (added.filter fun p => (((fun q : ι × CheckpointRecord => decide (q.1 = i)) ∘
        fun p : ι × (CheckpointRecord × Place) => (p.1, p.2.1)) p &&
        decide (p.2.2 = k.branchId ∧ p.2.1.threadId = k.threadId))) =
        added.filter fun p => decide (p.1 = i) := by
      refine List.filter_congr fun p hp => ?_
      by_cases hi : p.1 = i
      · obtain ⟨hthread, hbranch⟩ := hplace p hp hi
        simp [hi, hthread, hbranch]
      · simp [hi]
    rw [hsame]
    rfl
  · refine .inl (List.eq_nil_iff_forall_not_mem.mpr fun record hrecord => hon ?_)
    obtain ⟨hmem, hthread⟩ := mem_onLane.mp (mem_ownedBy.mp hrecord)
    obtain ⟨hthread', hbranch⟩ := hplace _ hmem rfl
    exact ⟨hbranch.symm, hthread'.symm.trans hthread⟩

end Lane

/-- The lane of a place in the store is that of its ledger. -/
theorem InMemoryRecordState.Holds.lane {l : Ledger} {s : InMemoryRecordState} (h : Holds l s)
    (hl : l.Sound) (threadId : ThreadId) (place : Place) :
    s.lane threadId place = l.lane threadId place := by
  cases place with
  | none => exact h.history threadId
  | some branchId =>
    show (s.branchHistory threadId branchId).tail = _
    rw [h.branchHistory]
    unfold Ledger.branchHistory
    cases hsource : l.source? branchId with
    | none => exact (hl.lane_nil hsource threadId).symm
    | some source =>
      by_cases hthread : source.threadId = threadId
      · simp [hthread]
      · simp only [ne_eq, hthread, not_false_eq_true, if_true, List.tail_nil]
        refine (List.eq_nil_iff_forall_not_mem.mpr fun record hrecord => hthread ?_).symm
        obtain ⟨hmem, hrecord⟩ := Ledger.mem_lane.mp hrecord
        obtain ⟨source', hsource', hsame⟩ := hl.owned record branchId hmem
        obtain rfl := Option.some.inj (hsource.symm.trans hsource')
        exact hsame.trans hrecord

/-- What a lane starts behind, where it has a record. -/
theorem Ledger.Sound.base_of_mem {l : Ledger} (hl : l.Sound) {threadId : ThreadId} {place : Place}
    {record : CheckpointRecord} (hrecord : record ∈ l.lane threadId place) :
    ∃ prev, Linked CheckpointRecord.id (fun r => r.parentId) prev (l.lane threadId place) ∧
      ∀ r ∈ l.lane threadId place, some r.id ≠ prev := by
  cases place with
  | none => exact ⟨none, hl.linked threadId none none rfl, nofun⟩
  | some branchId =>
    obtain ⟨hmem, hthread⟩ := Ledger.mem_lane.mp hrecord
    obtain ⟨source, hsource, hsame⟩ := hl.owned record branchId hmem
    obtain rfl := hsame.trans hthread
    refine ⟨some source.id, hl.linked _ _ _ ?_, fun r hr heq => ?_⟩
    · unfold Ledger.base
      simp [hsource]
    · have hnodup := hl.branch_nodup hsource
      rw [List.map_cons, List.nodup_cons] at hnodup
      rw [← Option.some.inj heq] at hnodup
      exact hnodup.1 (List.mem_map_of_mem hr)

section Appended

variable {ι : Type} [DecidableEq ι] {c : RecordCheckpointer E} {k : ι → EnabledCheckpoint}
  {parent : ι → Option CheckpointId} {order : List (ι × StoreWrite E)} {l l' : Ledger}
  {added : List (ι × (CheckpointRecord × Place))}

/-- What one of the runs has added on a lane is linked behind what it started from. -/
theorem Appended.owned (h : Appended c k parent order l l' added) (threadId : ThreadId)
    (place : Place) (i : ι) : Linked CheckpointRecord.id (fun r => r.parentId) (parent i)
      (ownedBy i (onLane threadId place added)) := by
  have hplace : ∀ p ∈ added, p.1 = i → p.2.1.threadId = (k i).threadId ∧
      p.2.2 = (k i).branchId := by
    rintro p hp rfl
    exact h.place p hp
  rcases ownedBy_onLane threadId place hplace with hnil | ⟨-, -, hown⟩
  · rw [hnil]
    trivial
  · rw [hown]
    exact linked_map.mpr (h.linked i)

/-- **The runs stand on a lane one after the other.** -/
theorem Appended.parted (h : Appended c k parent order l l' added) (hl' : l'.Sound)
    (threadId : ThreadId) (place : Place) :
    ∃ blocks, Parted (onLane threadId place added) blocks := by
  have hlane := lane_of_entries h.entries threadId place
  cases hadded : onLane threadId place added with
  | nil => exact ⟨[], List.nodup_nil, nofun, rfl⟩
  | cons p rest =>
    rw [← hadded]
    have hmem : p.2 ∈ l'.lane threadId place := by
      rw [hlane, hadded]
      simp
    obtain ⟨prev, hlinked, -⟩ := hl'.base_of_mem hmem
    have hnodup := hl'.lane_nodup threadId place
    rw [hlane, linked_append] at hlinked
    rw [hlane, List.map_append, List.nodup_append, List.map_map] at hnodup
    exact exists_parted hnodup.2.1 hlinked.2 (h.owned threadId place)

end Appended

/-! ## The calls -/

theorem Behaves.initial {k : EnabledCheckpoint} {runId : RunId} {parent : Option CheckpointId}
    {ws ws' : List (StoreWrite E)} (h : Behaves k runId parent ws) (hp : ws' <+: ws) :
    Behaves k runId parent ws' := by
  cases h with
  | saves h => exact .saves (h.initial hp)
  | @branch superstep step rest threadId branchId source answer h =>
    rcases List.prefix_cons_iff.mp hp with rfl | ⟨rest', rfl, hrest⟩
    · exact .saves (Chained.nil : Chained k runId parent 0 0 [])
    · exact .branch (h.initial hrest)

/-- What is sent of a call behaves as what the call checkpoints as says, if it has a save. -/
theorem Call.Writes.behaves {g : CompiledGraph ν ρ} {m : Machine E} (hg : Compiled g)
    {call : Call E} (hrange : ∀ checkpoint, call.Reads m checkpoint → checkpoint.InRange)
    {ws ws' : List (StoreWrite E)} (hwrites : call.Writes g m ws) (hp : ws' <+: ws) :
    ∃ k runId, Behaves k runId k.expectedParent ws' ∧
      ((∃ superstep step, call.Saves g m k superstep step) ∨
        ∀ branchId request answer, StoreWrite.save branchId request answer ∉ ws') := by
  obtain ⟨branch, saves, rfl, hbranch, hchains⟩ := hwrites.chains hg hrange
  rcases hchains with rfl | ⟨k, runId, superstep, step, hsaves, hchained⟩
  · -- the call saves nothing, so it does not matter where it would
    refine ⟨⟨⟨""⟩, .everySuperstep, none, none, none⟩, ⟨⟨0⟩⟩, ?_, .inr ?_⟩
    · refine Behaves.initial ?_ hp
      cases hbranch with
      | none => exact .saves (Chained.nil : Chained _ _ _ 0 0 [])
      | branch => exact .branch (Chained.nil : Chained _ _ _ 0 0 [])
    · intro branchId request answer h
      have hmem := hp.subset h
      rw [List.append_nil] at hmem
      cases hbranch with
      | none => cases hmem
      | branch => cases List.mem_singleton.mp hmem
  · refine ⟨k, runId, Behaves.initial ?_ hp, .inl ⟨superstep, step, hsaves⟩⟩
    cases hbranch with
    | none => exact .saves hchained
    | branch => exact .branch hchained

/-- What several calls have added to the lane of a place: a block for each call that added
something, behind what that call started from. -/
structure Serial {ι : Type} (c : RecordCheckpointer E) (g : ι → CompiledGraph ν ρ)
    (call : ι → Call E) (m : ι → Machine E) (order : List (ι × StoreWrite E))
    (threadId : ThreadId) (place : Place) (blocks : List (ι × List CheckpointRecord)) : Prop where
  owners : (blocks.map Prod.fst).Nodup
  nonempty : ∀ b ∈ blocks, b.2 ≠ []
  run : ∀ b ∈ blocks, ∃ k superstep step, (call b.1).Saves (g b.1) (m b.1) k superstep step ∧
    k.threadId = threadId ∧ k.branchId = place ∧
    Linked CheckpointRecord.id (fun r => r.parentId) k.expectedParent b.2
  sent : ∀ b ∈ blocks, ∀ record ∈ b.2, ∃ request answer,
    (b.1, .save place request answer) ∈ order ∧ request.toRecord c.codec = .ok record
  kept : ∀ i request chk, (i, .save place request (some (.ok chk))) ∈ order →
    request.threadId = threadId →
    ∃ records, (i, records) ∈ blocks ∧ ∃ record ∈ records, request.toRecord c.codec = .ok record
  exclusive : ∀ b ∈ blocks, ∀ b' ∈ blocks, ∀ k superstep step k' superstep' step',
    (call b.1).Saves (g b.1) (m b.1) k superstep step →
    (call b'.1).Saves (g b'.1) (m b'.1) k' superstep' step' →
    k.expectedParent = k'.expectedParent → b = b'

section Calls

variable {ι : Type} [DecidableEq ι] {c : RecordCheckpointer E} {g : ι → CompiledGraph ν ρ}
  {call : ι → Call E} {m : ι → Machine E} {k : ι → EnabledCheckpoint}
  {order : List (ι × StoreWrite E)} {l l' : Ledger} {added : List (ι × (CheckpointRecord × Place))}

/-- The first record of a block is behind what its run started from. -/
theorem Appended.first {parent : ι → Option CheckpointId} {threadId : ThreadId} {place : Place}
    {blocks : List (ι × List CheckpointRecord)} (h : Appended c k parent order l l' added)
    (hparted : Parted (onLane threadId place added) blocks) {b : ι × List CheckpointRecord}
    (hb : b ∈ blocks) : ∃ record, (b.1, record) ∈ onLane threadId place added ∧
      record.parentId = parent b.1 := by
  have hlinked := h.owned threadId place b.1
  rw [hparted.owned hb] at hlinked
  cases hrecords : b.2 with
  | nil => exact absurd hrecords (hparted.nonempty b hb)
  | cons record records =>
    rw [hrecords] at hlinked
    refine ⟨record, mem_ownedBy.mp ?_, hlinked.1⟩
    rw [hparted.owned hb, hrecords]
    exact List.mem_cons_self

/-- No two records that were added to a lane are behind one parent. -/
theorem Appended.parents_nodup {parent : ι → Option CheckpointId}
    (h : Appended c k parent order l l' added) (hl' : l'.Sound) (threadId : ThreadId)
    (place : Place) : ((onLane threadId place added).map fun p => p.2.parentId).Nodup := by
  have hlane := lane_of_entries h.entries threadId place
  cases hadded : onLane threadId place added with
  | nil => exact List.nodup_nil
  | cons p rest =>
    rw [← hadded]
    have hmem : p.2 ∈ l'.lane threadId place := by
      rw [hlane, hadded]
      simp
    obtain ⟨prev, hlinked, hprev⟩ := hl'.base_of_mem hmem
    have hnodup := hlinked.parents_nodup (hl'.lane_nodup threadId place) hprev
    rw [hlane, List.map_append, List.nodup_append, List.map_map] at hnodup
    exact hnodup.2.1

/-- The blocks of the runs are as the calls say. -/
theorem Appended.serial (h : Appended c k (fun i => (k i).expectedParent) order l l' added)
    (hl' : l'.Sound)
    (hk : ∀ i branchId request answer, (i, StoreWrite.save branchId request answer) ∈ order →
      ∃ superstep step, (call i).Saves (g i) (m i) (k i) superstep step)
    (threadId : ThreadId) (place : Place) : ∃ blocks,
      l'.lane threadId place = l.lane threadId place ++ blocks.flatMap Prod.snd ∧
      Serial c g call m order threadId place blocks := by
  obtain ⟨blocks, hparted⟩ := h.parted hl' threadId place
  have hlane := lane_of_entries h.entries threadId place
  rw [hparted.elements] at hlane
  -- a record of a block was added by its owner
  have hadded : ∀ b ∈ blocks, ∀ record ∈ b.2,
      (b.1, (record, place)) ∈ added ∧ record.threadId = threadId := by
    intro b hb record hrecord
    rw [← hparted.owned hb] at hrecord
    exact mem_onLane.mp (mem_ownedBy.mp hrecord)
  have hsaves : ∀ b ∈ blocks, ∃ superstep step,
      (call b.1).Saves (g b.1) (m b.1) (k b.1) superstep step := by
    intro b hb
    obtain ⟨record, hrecord⟩ := List.exists_mem_of_ne_nil _ (hparted.nonempty b hb)
    obtain ⟨request, answer, hmem, -⟩ := h.sent _ (hadded b hb record hrecord).1
    exact hk b.1 _ _ _ hmem
  refine ⟨blocks, hlane, hparted.owners, hparted.nonempty, ?_, ?_, ?_, ?_⟩
  · intro b hb
    obtain ⟨superstep, step, hsave⟩ := hsaves b hb
    obtain ⟨record, hrecord⟩ := List.exists_mem_of_ne_nil _ (hparted.nonempty b hb)
    obtain ⟨hmem, hthread⟩ := hadded b hb record hrecord
    obtain ⟨hthread', hbranch⟩ := h.place _ hmem
    refine ⟨k b.1, superstep, step, hsave, hthread'.symm.trans hthread, hbranch.symm, ?_⟩
    rw [← hparted.owned hb]
    exact h.owned threadId place b.1
  · intro b hb record hrecord
    obtain ⟨request, answer, hmem, hrecords⟩ := h.sent _ (hadded b hb record hrecord).1
    exact ⟨request, answer, hmem, hrecords.built⟩
  · intro i request chk hmem hthread
    obtain ⟨record, hrecord, hrecords⟩ := h.kept i place request chk hmem
    obtain ⟨records, hb, hin⟩ :=
      hparted.block (mem_onLane.mpr ⟨hrecord, hrecords.thread.trans hthread⟩)
    exact ⟨records, hb, record, hin, hrecords.built⟩
  · intro b hb b' hb' k₁ superstep step k₁' superstep' step' hsave hsave' hsame
    obtain ⟨_, _, hown⟩ := hsaves b hb
    obtain ⟨_, _, hown'⟩ := hsaves b' hb'
    obtain rfl := hown.unique hsave
    obtain rfl := hown'.unique hsave'
    -- the first records of both have one parent, and the lane has no two records of one parent
    obtain ⟨record, hrecord, hfirst⟩ := h.first hparted hb
    obtain ⟨record', hrecord', hfirst'⟩ := h.first hparted hb'
    have hsingle := h.parents_nodup hl' threadId place
    have hpair := List.inj_on_of_nodup_map hsingle hrecord hrecord'
      (hfirst.trans (hsame.trans hfirst'.symm))
    have howner : b.1 = b'.1 := (Prod.mk.inj hpair).1
    refine Prod.ext howner ?_
    rw [← hparted.owned hb, ← hparted.owned hb', howner]

/-- **Runs that share a store are serial.** Whatever the order in which the writes of any number of
calls get to the store, on every lane the calls that added to it stand one after the other, and
everything that was accepted is kept. -/
theorem runs_serial (hg : ∀ i, Compiled (g i))
    (hrange : ∀ i checkpoint, (call i).Reads (m i) checkpoint → checkpoint.InRange)
    {ws : ι → List (StoreWrite E)} (hwrites : ∀ i, (call i).Writes (g i) (m i) (ws i))
    (hc : c.Keeps) (ops : List StoreOp) (hsent : ∀ i, ownedBy i order <+: ws i)
    (hfresh : Fresh (fun id => ((default.run ops).byId id).isSome) order) {s' : InMemoryRecordState}
    (h : Interleaved c (default.run ops) order s') :
    Consistent s' ∧ ∀ threadId place, ∃ blocks,
      s'.lane threadId place = (default.run ops).lane threadId place ++ blocks.flatMap Prod.snd ∧
      Serial c g call m order threadId place blocks := by
  have hl : (Ledger.empty.run ops).Sound := Ledger.run_sound Ledger.sound_empty ops
  have hholds : Holds (Ledger.empty.run ops) (default.run ops) :=
    holds_default.run Ledger.sound_empty ops
  generalize Ledger.empty.run ops = l at hl hholds
  have hbehaves := fun i => (hwrites i).behaves (hg i) (hrange i) (hsent i)
  choose k runId hbehaves hk using hbehaves
  obtain ⟨l', added, hholds', hl', happended⟩ := h.appended hc hholds hl
    (hfresh.mono fun id hid => by
      rw [hholds.byId, Option.isSome_map]
      exact Option.isSome_iff_ne_none.mpr hid) hbehaves
  refine ⟨hholds'.consistent hl', fun threadId place => ?_⟩
  rw [hholds'.lane hl', hholds.lane hl]
  refine happended.serial hl' (fun i branchId request answer hmem => ?_) threadId place
  exact (hk i).resolve_right fun hnone => hnone branchId request answer (mem_ownedBy.mpr hmem)

end Calls

/-! ### Two invocations of one thread -/

section Accepted

variable {ι : Type} (c : RecordCheckpointer E) (w : E.World) [DecidableEq E.Snapshot]
  [DecidableEq E.Value]

/-- Every write is a save that is answered with the checkpoint that the log has. -/
def acceptedAll : InMemoryRecordState → List (ι × StoreWrite E) → Bool
  | _, [] => true
  | s, (_, .save branchId request (some (.ok chk))) :: order =>
    (c.save branchId request (w, s)).1.toOption = some chk &&
      acceptedAll (c.save branchId request (w, s)).2.2 order
  | _, _ :: _ => false

variable {c w}

theorem interleaved_of_acceptedAll {order : List (ι × StoreWrite E)} {s : InMemoryRecordState}
    (h : acceptedAll c w s order = true) : ∃ s', Interleaved c s order s' := by
  induction order generalizing s with
  | nil => exact ⟨s, .nil⟩
  | cons p order ih =>
    obtain ⟨i, write⟩ := p
    cases write with
    | createBranch => cases h
    | save branchId request answer =>
      rcases answer with _ | (error | chk)
      · cases h
      · cases h
      · obtain ⟨hchk, hrest⟩ := Bool.and_eq_true_iff.mp h
        obtain ⟨s', hrest⟩ := ih hrest
        have hanswer : (c.save branchId request (w, s)).1 = .ok chk := by
          replace hchk := of_decide_eq_true hchk
          cases hsave : (c.save branchId request (w, s)).1 with
          | error error =>
            rw [hsave] at hchk
            cases hchk
          | ok checkpoint =>
            rw [hsave] at hchk
            exact congrArg _ (Option.some.inj hchk)
        refine ⟨s', .cons ?_ hrest⟩
        rw [← hanswer]
        exact .saved branchId request w

end Accepted

namespace Crossroads

/-- Scripts whose checkpoints are numbered. -/
abbrev numbered : Env Unit Unit :=
  { (Script.env Unit Unit).beside Nat with
    nextCheckpointId := fun w => (⟨⟨BitVec.ofNat 128 w.2⟩⟩, (w.1, w.2 + 1)) }

def checkpointer : RecordCheckpointer numbered where
  codec := codec
  display _ := "checkpoint"
  cached _ w := (.ok none, w)
  cache _ checkpoint w := (.ok checkpoint, w)

/-- The second invocation goes on behind the third checkpoint. -/
def invocationOf (second : Bool) : Call numbered :=
  .invoke () ⟨10, ⟨.none, false⟩, ⟨false, none, none⟩, 10⟩
    (some ⟨⟨"t"⟩, .everySuperstep, if second then some ⟨⟨3⟩⟩ else none, none⟩)

def start (second : Bool) : Machine numbered :=
  ⟨(⟨[[⟨"b"⟩]], none⟩, if second then 4 else 1), [], []⟩

def sentBy (second : Bool) : List (StoreWrite numbered) :=
  (invocationOf second).logAfter graph (start second)

theorem checkpointer_keeps : checkpointer.Keeps := by
  intro record decoded w chk h hid
  obtain rfl := Except.ok.inj h
  exact hid

/-- The second invocation saves after the first. -/
def oneAfterTheOther : List (Bool × StoreWrite numbered) :=
  (sentBy false).map (Prod.mk false) ++ (sentBy true).map (Prod.mk true)

/-- Two invocations save to one store, and the lane of their thread has both. -/
theorem runs_serial_invocations : oneAfterTheOther.length = 6 ∧
    ∃ s', Interleaved checkpointer default oneAfterTheOther s' ∧ Consistent s' ∧
      ∃ blocks, s'.lane ⟨"t"⟩ none = blocks.flatMap Prod.snd ∧
        Serial checkpointer (fun _ => graph) invocationOf start oneAfterTheOther ⟨"t"⟩ none
          blocks := by
  have haccepted : acceptedAll checkpointer (⟨[], none⟩, 0) default oneAfterTheOther = true := by
    decide +kernel
  obtain ⟨s', h⟩ := interleaved_of_acceptedAll haccepted
  have hwrites : ∀ i, (invocationOf i).Writes graph (start i) (sentBy i) :=
    fun i => Call.Writes.of_empty rfl
  have hsent : ∀ i, ownedBy i oneAfterTheOther <+: sentBy i := by
    intro i
    unfold oneAfterTheOther
    rw [ownedBy_append, ownedBy_block, ownedBy_block]
    cases i <;> simp
  have hdistinct : (oneAfterTheOther.filterMap fun p => p.2.brings).Nodup := by decide +kernel
  have hfresh : Fresh (fun id => ((default.run []).byId id).isSome) oneAfterTheOther :=
    ⟨hdistinct, fun _ _ h => Bool.false_ne_true h⟩
  have hrange : ∀ i checkpoint, (invocationOf i).Reads (start i) checkpoint → checkpoint.InRange :=
    fun _ _ hread => hread.elim
  obtain ⟨hconsistent, hlanes⟩ := runs_serial (fun _ => compiled) hrange hwrites
    checkpointer_keeps [] hsent hfresh h
  obtain ⟨blocks, hlane, hserial⟩ := hlanes ⟨"t"⟩ none
  refine ⟨by decide +kernel, s', h, hconsistent, blocks, ?_, hserial⟩
  rw [hlane]
  exact List.nil_append _

end Crossroads

end GroupAgent.Core
