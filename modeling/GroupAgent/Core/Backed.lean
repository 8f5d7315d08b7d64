import GroupAgent.Core.Openings
import GroupAgent.Core.Program
import GroupAgent.Core.Store

/-!
# Replay and fork on a store

Model of `RecordCheckpointer` (`checkpoint.rs:1320-1327`), its `decode` (1428-1440) and its
`Checkpointer` methods (1459-1565) in `crates/group-agent-core/src`, over the in-memory store, as
the checkpointer of any environment, and what replay and fork do to that store.

* `RecordCheckpointer.env`: the environment with the store beside its world. Nothing but the
  checkpointer touches the store, and a call of it is over when it is first polled.
* A reading method asks the store and decodes what it answers (`read`); a write encodes the request
  first (`save`). The branch methods are the same with a branch.
* The cache of decoded checkpoints holds weak handles, which live as long as somebody keeps them.
  Here it is a parameter: `cached` and `cache` are two fields, with a state of their own. `Caching`
  fills them with the cache of `Decoded`.
* `Extends`: records were appended to one branch, and nothing else has happened.

Results:
* `final_fork`: what a fork leaves, from what its branch creation and its run keep.
* **`source_untouched`**: a replay writes nothing; a fork creates its branch and extends it.

Out of scope: `InMemoryCheckpointer`, which is this checkpointer over the in-memory store with its
own codec, and the SQLite store, which `Sqlite.Agree` compares with the in-memory one.
-/

namespace GroupAgent.Core

open GroupAgent.Lib

variable {ν ρ : Type}

/-! ## The record checkpointer -/

/-- The environment with something beside its world. -/
abbrev Env.beside (E : Env ν ρ) (L : Type) : Env ν ρ where
  State := E.State
  Update := E.Update
  Snapshot := E.Snapshot
  Value := E.Value
  World := E.World × L
  apply := E.apply
  applyBatch := E.applyBatch
  snapshot := E.snapshot
  restore := E.restore
  instantMax := E.instantMax
  now := hosted E.now
  isCancelled := hosted E.isCancelled
  nextRunId := hosted E.nextRunId
  nextCheckpointId := hosted E.nextCheckpointId
  onEvent event w := (E.onEvent event w.1, w.2)
  route router state := hosted (E.route router state)
  fanOutRoute router state := hosted (E.fanOutRoute router state)
  run a := (E.run a).hosted
  nextReady pending h := hosted (E.nextReady pending h)
  preempted deadline := hosted (E.preempted deadline)
  save branchId request := (E.save branchId request).hosted
  latest threadId := (E.latest threadId).hosted
  get threadId checkpointId := (E.get threadId checkpointId).hosted
  branchHead threadId branchId := (E.branchHead threadId branchId).hosted
  createBranch threadId branchId source := (E.createBranch threadId branchId source).hosted

/-- A future that is ready when it is first polled. -/
def Future.immediate {W α : Type} (answer : W → α × W) : Future W α where
  await := answer
  select _ w := (.ready (answer w).1, (answer w).2)

/-- A typed adapter over an in-memory store: its codec, and the cache of what it decoded. -/
structure RecordCheckpointer (E : Env ν ρ) where
  codec : CheckpointCodec E.Snapshot E.Value
  /-- The text of an identifier. -/
  display : CheckpointId → String
  cached : CheckpointRecord → E.World →
    Except SourceError (Option (Checkpoint E.Snapshot E.Value)) × E.World
  cache : CheckpointRecord → Checkpoint E.Snapshot E.Value → E.World →
    Except SourceError (Checkpoint E.Snapshot E.Value) × E.World

namespace RecordCheckpointer

variable {E : Env ν ρ} (c : RecordCheckpointer E)

/-- The cached checkpoint of a record, or the given one once it is cached. -/
def remember (record : CheckpointRecord)
    (decoded : Except SourceError (Checkpoint E.Snapshot E.Value)) (w : E.World) :
    Except SourceError (Checkpoint E.Snapshot E.Value) × E.World :=
  match c.cached record w with
  | (.error error, w) => (.error error, w)
  | (.ok (some checkpoint), w) => (.ok checkpoint, w)
  | (.ok none, w) =>
    match decoded with
    | .error error => (.error error, w)
    | .ok checkpoint => c.cache record checkpoint w

def decode (record : CheckpointRecord) :
    E.World → Except SourceError (Checkpoint E.Snapshot E.Value) × E.World :=
  c.remember record ((Checkpoint.fromRecord record c.codec).mapError fun source =>
    .withSource s!"checkpoint `{c.display record.checkpointId}` reconstruction failed"
      (.reconstruction source))

/-- `save` and `save_branch`. -/
def save (branchId : Option BranchId) (request : CheckpointRequest E.Snapshot E.Value)
    (w : E.World × InMemoryRecordState) :
    Except CheckpointWriteError (Checkpoint E.Snapshot E.Value) × (E.World × InMemoryRecordState) :=
  match request.toRecord c.codec with
  | .error source => (.error (.encoding source), w)
  | .ok record =>
    let stored := match branchId with
      | none => w.2.insert record
      | some branchId => w.2.insertBranch branchId record
    match stored.1 with
    | .error error => (.error error, (w.1, stored.2))
    | .ok storedRecord =>
      if storedRecord ≠ record then
        (.error (.failed (.message (if branchId.isSome then
          "checkpoint store returned content different from the submitted branch record"
          else "checkpoint store returned content different from the submitted record"))),
          (w.1, stored.2))
      else
        let r := c.remember record (.ok request.intoCheckpoint) w.1
        (r.1.mapError .failed, (r.2, stored.2))

/-- Decode what was found in the store. -/
def read (find : InMemoryRecordState → Option CheckpointRecord)
    (w : E.World × InMemoryRecordState) :
    Except SourceError (Option (Checkpoint E.Snapshot E.Value)) × (E.World × InMemoryRecordState) :=
  match find w.2 with
  | none => (.ok none, w)
  | some record =>
    let r := c.decode record w.1
    (some <$> r.1, (r.2, w.2))

def createBranch (threadId : ThreadId) (branchId : BranchId) (source : CheckpointId)
    (w : E.World × InMemoryRecordState) :
    Except CheckpointWriteError Unit × (E.World × InMemoryRecordState) :=
  let r := w.2.createBranch threadId branchId source
  (r.1.map fun _ => (), (w.1, r.2))

/-- The environment with this checkpointer in place of its own. -/
abbrev env : Env ν ρ :=
  { E.beside InMemoryRecordState with
    save := fun branchId request => .immediate (c.save branchId request)
    latest := fun threadId => .immediate (c.read fun s => s.latest threadId)
    get := fun threadId id => .immediate (c.read fun s => s.get threadId id)
    branchHead := fun threadId branchId =>
      .immediate (c.read fun s => s.branchHead threadId branchId)
    createBranch := fun threadId branchId source =>
      .immediate (createBranch threadId branchId source) }

@[simp] theorem read_store (find : InMemoryRecordState → Option CheckpointRecord)
    (w : E.World × InMemoryRecordState) : (c.read find w).2.2 = w.2 := by
  unfold read
  cases find w.2 <;> rfl

theorem toRecord_thread {τ π : Type} {r : CheckpointRequest τ π} {codec : CheckpointCodec τ π}
    {record : CheckpointRecord} (h : r.toRecord codec = .ok record) :
    record.threadId = r.threadId := by
  unfold CheckpointRequest.toRecord at h
  obtain ⟨bytes, -, h⟩ := bind_eq_ok.mp h
  obtain ⟨interrupt, -, h⟩ := bind_eq_ok.mp h
  obtain ⟨superstep, -, h⟩ := bind_eq_ok.mp h
  obtain ⟨step, -, h⟩ := bind_eq_ok.mp h
  exact congrArg CheckpointRecordParts.threadId (tryFromParts_parts (mapError_eq_ok.mp h))

/-- A save on a branch leaves the store as inserting its record does, if it comes to that. -/
theorem save_store (branchId : BranchId) (request : CheckpointRequest E.Snapshot E.Value)
    (w : E.World × InMemoryRecordState) :
    (c.save (some branchId) request w).2.2 = w.2 ∨
      ∃ record, record.threadId = request.threadId ∧
        (c.save (some branchId) request w).2.2 = (w.2.insertBranch branchId record).2 := by
  unfold save
  cases hrecord : request.toRecord c.codec with
  | error source => exact .inl rfl
  | ok record =>
    refine .inr ⟨record, ?_, ?_⟩
    · exact toRecord_thread hrecord
    · simp only
      cases (w.2.insertBranch branchId record).1 with
      | error error => rfl
      | ok storedRecord =>
        simp only
        split <;> rfl

end RecordCheckpointer

/-! ## What a fork does to a store -/

namespace InMemoryRecordState

/-- Records of the thread were appended to the branch, if it is there. -/
structure Extends (threadId : ThreadId) (branchId : BranchId) (s s' : InMemoryRecordState) :
    Prop where
  histories : s'.histories = s.histories
  others : ∀ other, other ≠ branchId → s'.branches other = s.branches other
  kept : ∀ id record, s.byId id = some record → s'.byId id = some record
  own : ∃ records : List CheckpointRecord, (∀ record ∈ records, record.threadId = threadId) ∧
    s'.branches branchId = (s.branches branchId).map fun branch =>
      { branch with history := branch.history ++ records }

variable {threadId : ThreadId} {branchId : BranchId} {sourceId : CheckpointId}
  {s s' s'' : InMemoryRecordState}

theorem Extends.refl (s : InMemoryRecordState) : Extends threadId branchId s s where
  histories := rfl
  others _ _ := rfl
  kept _ _ h := h
  own := ⟨[], nofun, by simp⟩

theorem Extends.trans (h : Extends threadId branchId s s') (h' : Extends threadId branchId s' s'') :
    Extends threadId branchId s s'' where
  histories := h'.histories.trans h.histories
  others other hother := (h'.others other hother).trans (h.others other hother)
  kept id record hid := h'.kept id record (h.kept id record hid)
  own := by
    obtain ⟨records, hrecords, hown⟩ := h.own
    obtain ⟨records', hrecords', hown'⟩ := h'.own
    refine ⟨records ++ records', ?_, ?_⟩
    · intro record hmem
      exact (List.mem_append.mp hmem).elim (hrecords record) (hrecords' record)
    · rw [hown', hown]
      cases s.branches branchId <;> simp

/-- An insertion on a branch, accepted or not, extends it. -/
theorem extends_insertBranch (s : InMemoryRecordState) (branchId : BranchId)
    (record : CheckpointRecord) :
    Extends record.threadId branchId s (s.insertBranch branchId record).2 := by
  unfold insertBranch
  split
  · split
    · exact .refl s
    · exact .refl s
  · rename_i hid
    split
    · exact .refl s
    · rename_i branch hbranch
      split
      · exact .refl s
      · simp only
        split
        · exact .refl s
        · refine ⟨rfl, fun other hother => ?_, fun id existing hexisting => ?_, [record], ?_, ?_⟩
          · exact Function.update_of_ne hother _ _
          · have hne : id ≠ record.id := by
              rintro rfl
              rw [hid] at hexisting
              cases hexisting
            exact (Function.update_of_ne hne _ _).trans hexisting
          · intro r hr
            rw [List.mem_singleton.mp hr]
          · rw [hbranch]
            exact Function.update_self _ _ _

/-- The branch was opened at a checkpoint of the thread, with nothing on it yet. -/
structure Opened (threadId : ThreadId) (branchId : BranchId) (sourceId : CheckpointId)
    (s s' : InMemoryRecordState) : Prop where
  absent : s.branches branchId = none
  source : ∃ source, s.get threadId sourceId = some source ∧ s' =
    { s with branches := Function.update s.branches branchId (some ⟨threadId, [source]⟩) }

/-- Creating a branch opens it, or leaves the store as it was. -/
theorem createBranch_store (s : InMemoryRecordState) (threadId : ThreadId) (branchId : BranchId)
    (sourceId : CheckpointId) :
    ((∃ error, (s.createBranch threadId branchId sourceId).1 = .error error) ∧
      (s.createBranch threadId branchId sourceId).2 = s) ∨
    ((∃ head, (s.createBranch threadId branchId sourceId).1 = .ok head) ∧
      Opened threadId branchId sourceId s (s.createBranch threadId branchId sourceId).2) := by
  unfold createBranch
  by_cases hbranch : (s.branches branchId).isSome
  · rw [if_pos hbranch]
    exact .inl ⟨⟨_, rfl⟩, rfl⟩
  · rw [if_neg hbranch]
    have habsent : s.branches branchId = none := by simpa using hbranch
    cases hget : s.get threadId sourceId with
    | none => exact .inl ⟨⟨_, rfl⟩, rfl⟩
    | some source => exact .inr ⟨⟨_, rfl⟩, habsent, source, hget, rfl⟩

/-- What a fork leaves: the store as it was, or with its own branch opened and extended. -/
def Forked (threadId : ThreadId) (branchId : BranchId) (sourceId : CheckpointId)
    (s s' : InMemoryRecordState) : Prop :=
  s' = s ∨ ∃ opened, Opened threadId branchId sourceId s opened ∧
    Extends threadId branchId opened s'

theorem Forked.history (h : Forked threadId branchId sourceId s s') (other : ThreadId) :
    s'.history other = s.history other := by
  have hhistories : s'.histories = s.histories := by
    rcases h with rfl | ⟨opened, ⟨-, source, -, rfl⟩, h⟩
    · rfl
    · exact h.histories
  unfold InMemoryRecordState.history
  rw [hhistories]

theorem Forked.branches (h : Forked threadId branchId sourceId s s') {other : BranchId}
    (hother : other ≠ branchId) : s'.branches other = s.branches other := by
  rcases h with rfl | ⟨opened, ⟨-, source, -, rfl⟩, h⟩
  · rfl
  · exact (h.others other hother).trans (Function.update_of_ne hother _ _)

theorem Forked.get (h : Forked threadId branchId sourceId s s') {other : ThreadId}
    {id : CheckpointId} {record : CheckpointRecord} (hget : s.get other id = some record) :
    s'.get other id = some record := by
  rcases h with rfl | ⟨opened, ⟨-, source, -, rfl⟩, h⟩
  · exact hget
  · rw [get_eq_some] at hget ⊢
    exact ⟨h.kept id record hget.1, hget.2⟩

/-- The branch a fork leaves begins at the source. -/
theorem Forked.own (h : Forked threadId branchId sourceId s s') :
    s' = s ∨ s.branches branchId = none ∧ ∃ source records,
      s.get threadId sourceId = some source ∧
      s'.branchHistory threadId branchId = source :: records ∧
      ∀ record ∈ records, record.threadId = threadId := by
  rcases h with rfl | ⟨opened, ⟨habsent, source, hget, rfl⟩, h⟩
  · exact .inl rfl
  · obtain ⟨records, hrecords, hown⟩ := h.own
    refine .inr ⟨habsent, source, records, hget, ?_, hrecords⟩
    unfold branchHistory
    rw [hown]
    simp [Option.filter]

end InMemoryRecordState

/-! ## What a call leaves, however it ends -/

/-- Saves go to the branch. -/
def OnBranch (threadId : ThreadId) (branchId : BranchId) (checkpoints : RuntimeCheckpoint) : Prop :=
  ∃ c, checkpoints = .enabled c ∧ c.threadId = threadId ∧ c.branchId = some branchId

section Leaves

variable {E : Env ν ρ} {R : Machine E → Machine E → Prop} [Std.Refl R] [IsTrans (Machine E) R]
  (g : CompiledGraph ν ρ)

/-- A replay keeps what every step of a run that saves nothing keeps. -/
theorem final_replay (hR : Steady R) (hruns : Steady.Runs R fun _ => True)
    (config : ReplayConfig E.Value) (m : Machine E) : R m (final (replay g config) m) := by
  have hsaves : Steady.Saves R fun c => c = .readOnlyReplay config.threadId config.checkpointId := by
    refine ⟨?_, ?_, ?_, ?_⟩
    · exact fun _ _ _ h => nomatch h
    · exact fun _ _ _ _ h => nomatch h
    · exact fun _ _ _ _ h => nomatch h
    · exact fun _ _ h => nomatch h
  rw [← final_map fun report : ReplayReport E => ExecutionOutcome.completed report.run,
    ← wp_final (P := R m)]
  show wp ((Call.replay config).run g) _ _ m
  rw [Call.run_proceed, wp_bind]
  refine wp_mono (hR.openReplay (g := g)) (fun p m₁ hm₁ => ?_) fun _ _ h => h.2
  refine wp_mono (hR.proceed stops_any hsaves hruns trivial trivial (fun _ _ _ => trivial)
    (fun _ => trivial) _ hm₁.2.1 m₁) (fun _ m₂ h => ?_) fun _ m₂ h => ?_
  · exact trans_of R hm₁.2.2 h.2
  · exact trans_of R hm₁.2.2 h.2

/-- A fork keeps one relation until it creates its branch, and another from then on. -/
theorem final_fork {R₀ : Machine E → Machine E → Prop} [Std.Refl R₀] [IsTrans (Machine E) R₀]
    (hR₀ : Steady R₀) (hR : Steady R) (hruns : Steady.Runs R fun _ => True)
    {config : ForkConfig E.Value} (hsaves : Steady.Saves R (OnBranch config.threadId config.branchId))
    {m : Machine E} {D Q : Machine E → Prop}
    (hcreate : ∀ ctx step m₁, R₀ m m₁ →
      wp (createBranch ctx config step) (fun _ m₂ => D m₂) (fun _ m₂ => Q m₂) m₁)
    (hquit : ∀ m₁, R₀ m m₁ → Q m₁) (hrun : ∀ m₂ m₃, D m₂ → R m₂ m₃ → Q m₃) :
    Q (final (fork g config) m) := by
  rw [← final_map (ForkReport.outcome (E := E)), ← wp_final (P := Q)]
  show wp ((Call.fork config).run g) _ _ m
  rw [Call.run_proceed, wp_bind]
  show wp (openFork g config) _ _ m
  unfold openFork
  rw [wp_bind]
  refine wp_mono (hR₀.loadHistorical (.fork config) fun ctx checkpoint m₁ hx =>
    ⟨ctx, m₁, hx⟩) (fun h m₁ hm₁ => ?_) fun e m₁ hm₁ => hquit m₁ hm₁.2
  rw [wp_bind]
  refine wp_mono (hcreate _ _ m₁ hm₁.2) (fun _ m₂ hm₂ => ?_) fun _ _ hm₂ => hm₂
  refine wp_mono (hR.calm.historicalStart stops_any m₂) (fun p m₃ hm₃ => ?_) fun e m₃ hm₃ =>
    hrun m₂ m₃ hm₂ hm₃.2
  have hK : OnBranch config.threadId config.branchId p.2.checkpoints := by
    rw [hm₃.1]
    exact ⟨_, rfl, rfl, rfl⟩
  refine wp_mono (hR.proceed stops_any hsaves hruns trivial trivial (fun _ _ _ => trivial)
    (fun _ => trivial) _ hK m₃) (fun _ m₄ hm₄ => ?_) fun _ m₄ hm₄ => ?_
  · exact hrun m₂ m₄ hm₂ (trans_of R hm₃.2 hm₄.2)
  · exact hrun m₂ m₄ hm₂ (trans_of R hm₃.2 hm₄.2)

end Leaves

/-! ## The calls of the checkpointer -/

section Writes

variable {E : Env ν ρ}

/-- The writes stay as they are. -/
abbrev Silent : Machine E → Machine E → Prop := SameView Machine.writes

theorem silent_steady : Steady (Silent (E := E)) where
  idle _ _ _ := rfl
  events _ _ := rfl

theorem silent_runs : Steady.Runs (Silent (E := E)) fun _ => True where
  await _ _ _ := rfl
  select _ _ _ _ := rfl
  nextReady _ _ _ _ := rfl

/-- A save of the thread on the branch. -/
def SavesOn (threadId : ThreadId) (branchId : BranchId) (write : StoreWrite E) : Prop :=
  ∃ request answer, write = .save (some branchId) request answer ∧ request.threadId = threadId

/-- Saves of the thread on the branch are added. -/
def Saving (threadId : ThreadId) (branchId : BranchId) (m m' : Machine E) : Prop :=
  ∃ saves, m'.writes = m.writes ++ saves ∧ ∀ write ∈ saves, SavesOn threadId branchId write

variable {threadId : ThreadId} {branchId : BranchId}

instance : Std.Refl (Saving (E := E) threadId branchId) :=
  ⟨fun _ => ⟨[], (List.append_nil _).symm, fun _ h => absurd h List.not_mem_nil⟩⟩

instance : IsTrans (Machine E) (Saving threadId branchId) := by
  refine ⟨?_⟩
  rintro m m' m'' ⟨saves, hw, hsaves⟩ ⟨saves', hw', hsaves'⟩
  refine ⟨saves ++ saves', ?_, fun write hmem => ?_⟩
  · rw [hw', hw, List.append_assoc]
  · exact (List.mem_append.mp hmem).elim (hsaves write) (hsaves' write)

theorem Saving.of_eq {m m' : Machine E} (h : m'.writes = m.writes) :
    Saving threadId branchId m m' := ⟨[], by rw [h, List.append_nil],
    fun _ h => absurd h List.not_mem_nil⟩

theorem saving_steady : Steady (Saving (E := E) threadId branchId) where
  idle _ _ _ := .of_eq rfl
  events _ _ := .of_eq rfl

theorem saving_runs : Steady.Runs (Saving (E := E) threadId branchId) fun _ => True where
  await _ _ _ := .of_eq rfl
  select _ _ _ _ := .of_eq rfl
  nextReady _ _ _ _ := .of_eq rfl

theorem OnBranch.after {c : EnabledCheckpoint} {id : CheckpointId}
    (h : OnBranch threadId branchId (.enabled c)) : OnBranch threadId branchId (.enabled (c.after id)) := by
  obtain ⟨_, ⟨⟩, hthread, hbranch⟩ := h
  exact ⟨_, rfl, hthread, hbranch⟩

theorem saving_saves : Steady.Saves (Saving (E := E) threadId branchId)
    (OnBranch threadId branchId) where
  await _ _ _ _ _ := .of_eq rfl
  select _ _ _ _ _ _ := .of_eq rfl
  record := by
    rintro c request answer m ⟨_, ⟨⟩, hthread, hbranch⟩ hrequest
    refine ⟨_, rfl, fun write hmem => ?_⟩
    rw [List.mem_singleton.mp hmem, hbranch]
    exact ⟨request, answer, rfl, hrequest.trans hthread⟩
  after _ _ := .after

/-- What a fork writes: nothing, or an attempt to create its branch and, once that was answered with
success, saves on it. -/
def ForkWrites (config : ForkConfig E.Value) (writes : List (StoreWrite E)) : Prop :=
  writes = [] ∨ ∃ answer saves, writes =
      .createBranch config.threadId config.branchId config.checkpointId answer :: saves ∧
    (saves ≠ [] → answer = some (.ok ())) ∧
    ∀ write ∈ saves, SavesOn config.threadId config.branchId write

/-- The branch creation is written with its answer, and the run only goes on after a success. -/
theorem wp_createBranch_writes {ctx : RunContext} {config : ForkConfig E.Value} {step : Nat}
    {m : Machine E} : wp (createBranch ctx config step)
      (fun _ m' => m'.writes = m.writes ++
        [.createBranch config.threadId config.branchId config.checkpointId (some (.ok ()))])
      (fun _ m' => ∃ added, m'.writes = m.writes ++ added ∧ ForkWrites config added) m := by
  unfold createBranch
  rw [wp_bind]
  refine wp_mono (wp_awaitCall (m := m) step (R := fun _ _ => False)
    (Q := fun r m' => match r with
      | .ok _ => m'.writes = m.writes ++
          [.createBranch config.threadId config.branchId config.checkpointId (some (.ok ()))]
      | .error _ => ∃ added, m'.writes = m.writes ++ added ∧ ForkWrites config added)
    ?_ fun w => ?_) ?_ fun _ _ h => h.elim
  · exact fun _ _ => ⟨[], (List.append_nil _).symm, .inl rfl⟩
  · rw [wp_pure]
    refine ⟨fun error w => ?_, fun answer w => ?_⟩
    · rw [wp_record]
      exact ⟨[.createBranch _ _ _ none], rfl, .inr ⟨none, [], rfl, fun h => absurd rfl h,
        fun _ h => absurd h List.not_mem_nil⟩⟩
    · rw [wp_record]
      cases answer with
      | ok => exact rfl
      | error error =>
        exact ⟨[.createBranch _ _ _ (some (.error error))], rfl,
          .inr ⟨some (.error error), [], rfl, fun h => absurd rfl h,
            fun _ h => absurd h List.not_mem_nil⟩⟩
  · intro r m' hr
    cases r with
    | ok => exact hr
    | error error =>
      obtain ⟨added, hw, hadded⟩ := hr
      have hfail : Within Silent (fail ctx error : M E Unit) (fun _ => False) (fun _ => True) :=
        silent_steady.calm.fail ctx trivial
      exact wp_mono (hfail m') (fun _ _ h => h.1.elim) fun _ m'' h => ⟨added, h.2.trans hw, hadded⟩

/-- A fork only writes on its branch. -/
theorem fork_writes (g : CompiledGraph ν ρ) (config : ForkConfig E.Value) (m : Machine E) :
    ∃ added, (final (fork g config) m).writes = m.writes ++ added ∧ ForkWrites config added := by
  refine final_fork g silent_steady saving_steady saving_runs saving_saves
    (D := fun m₂ => m₂.writes = m.writes ++
      [.createBranch config.threadId config.branchId config.checkpointId (some (.ok ()))])
    (Q := fun m' => ∃ added, m'.writes = m.writes ++ added ∧ ForkWrites config added)
    (fun ctx step m₁ hm₁ => ?_) (fun m₁ hm₁ => ?_) fun m₂ m₃ hm₂ hm₃ => ?_
  · have hcreate : wp (createBranch ctx config step) _ _ m₁ := wp_createBranch_writes
    rw [show m₁.writes = m.writes from hm₁] at hcreate
    exact hcreate
  · exact ⟨[], by rw [List.append_nil]; exact hm₁, .inl rfl⟩
  · obtain ⟨saves, hw, hsaves⟩ := hm₃
    refine ⟨_, ?_, .inr ⟨some (.ok ()), saves, rfl, fun _ => rfl, hsaves⟩⟩
    rw [hw, hm₂, List.append_assoc]
    rfl

end Writes

/-! ## The store -/

section Store

variable {E : Env ν ρ} (c : RecordCheckpointer E)

/-- The store stays as it is. -/
abbrev Unstored : Machine c.env → Machine c.env → Prop := SameView fun m => m.world.2

theorem unstored_steady : Steady (Unstored c) where
  idle m w h := by
    show w.2 = m.world.2
    cases h with
    | calm h => cases h <;> rfl
    | latest threadId => exact c.read_store _ _
    | latestRaced threadId deadline => exact c.read_store _ _
    | get threadId id => exact c.read_store _ _
    | getRaced threadId id deadline => exact c.read_store _ _
    | branchHead threadId branchId => exact c.read_store _ _
    | branchHeadRaced threadId branchId deadline => exact c.read_store _ _
    | _ => rfl
  events _ _ := rfl

theorem unstored_runs : Steady.Runs (Unstored c) fun _ => True where
  await _ _ _ := rfl
  select _ _ _ _ := rfl
  nextReady _ _ _ _ := rfl

/-- The branch is extended in the store. -/
def Extending (threadId : ThreadId) (branchId : BranchId) (m m' : Machine c.env) : Prop :=
  m.world.2.Extends threadId branchId m'.world.2

variable {threadId : ThreadId} {branchId : BranchId}

instance : Std.Refl (Extending c threadId branchId) := ⟨fun m => .refl m.world.2⟩

instance : IsTrans (Machine c.env) (Extending c threadId branchId) := ⟨fun _ _ _ h h' => h.trans h'⟩

theorem Extending.of_eq {m m' : Machine c.env} (h : m'.world.2 = m.world.2) :
    Extending c threadId branchId m m' := by
  unfold Extending
  rw [h]
  exact .refl _

theorem extending_steady : Steady (Extending c threadId branchId) where
  idle m w h := .of_eq c ((unstored_steady c).idle m w h)
  events _ _ := .of_eq c rfl

theorem extending_runs : Steady.Runs (Extending c threadId branchId) fun _ => True where
  await _ _ _ := .of_eq c rfl
  select _ _ _ _ := .of_eq c rfl
  nextReady _ _ _ _ := .of_eq c rfl

theorem extending_save {request : CheckpointRequest E.Snapshot E.Value}
    (h : request.threadId = threadId) (w : E.World × InMemoryRecordState) :
    w.2.Extends threadId branchId (c.save (some branchId) request w).2.2 := by
  rcases c.save_store branchId request w with hsame | ⟨record, hrecord, hinsert⟩
  · rw [hsame]
    exact .refl _
  · rw [hinsert, ← h, ← hrecord]
    exact InMemoryRecordState.extends_insertBranch _ _ _

theorem extending_saves : Steady.Saves (Extending c threadId branchId)
    (OnBranch threadId branchId) where
  await := by
    rintro k request m ⟨_, ⟨⟩, hthread, hbranch⟩ hrequest
    rw [hbranch]
    exact extending_save c (hrequest.trans hthread) m.world
  select := by
    rintro k request deadline m ⟨_, ⟨⟩, hthread, hbranch⟩ hrequest
    rw [hbranch]
    exact extending_save c (hrequest.trans hthread) m.world
  record _ _ _ _ _ _ := .of_eq c rfl
  after _ _ := .after

/-- Waiting for an immediate call: it is preempted, or answered at once. -/
theorem wp_awaitImmediate {α β : Type} {ctx : RunContext} (step : Nat) {answer : E.World → β × E.World}
    {log : Option β → M E Unit} {finish : β → Except GraphRunError α} {m : Machine E}
    {Q : Except GraphRunError α → Machine E → Prop} {R : Stop → Machine E → Prop}
    (hlate : ∀ error deadline, Q (.error error) { m with world := (E.preempted deadline m.world).2 })
    (h : ∀ w, w = m.world ∨ E.Idle m.world w → wp (log (some (answer w).1))
      (fun _ m' => Q (finish (answer w).1) m') R { m with world := (answer w).2 }) :
    wp (awaitRunBoundary ctx step (Task.call (pure (.ok ())) (fun _ => .immediate answer)
      (fun _ => log) fun _ => finish)) Q R m := by
  unfold awaitRunBoundary
  split
  · simp only [Task.call, wp_bind, wp_pure, wp_ask]
    exact h m.world (.inl rfl)
  · simp only [Task.call, wp_bind, wp_ask]
    cases hp : (E.preempted (ctx.control.deadline none) m.world).1 with
    | some r =>
      cases r with
      | cancelled => exact hlate _ _
      | elapsed passed hforce =>
        obtain ⟨error, herror⟩ := deadlineError_run (E := E) step hforce
        simp only [wp_pure, herror, wp_bind]
        exact hlate _ _
      | ready value => exact value.elim
    | none =>
      simp only [wp_bind, wp_pure, wp_ask, Future.immediate]
      exact h _ (.inr (.preempted _ _))

/-- The branch is opened, or the run ends there. -/
theorem wp_createBranch_store {ctx : RunContext} {config : ForkConfig E.Value} {step : Nat}
    {m : Machine c.env} : wp (createBranch (E := c.env) ctx config step)
      (fun _ m' => m.world.2.Opened config.threadId config.branchId config.checkpointId m'.world.2)
      (fun _ m' => m'.world.2 = m.world.2) m := by
  unfold Core.createBranch
  rw [wp_bind]
  refine wp_mono (wp_awaitImmediate step (R := fun _ _ => False)
    (Q := fun r m' => match r with
      | .ok _ => m.world.2.Opened config.threadId config.branchId config.checkpointId m'.world.2
      | .error _ => m'.world.2 = m.world.2)
    (fun _ _ => rfl) fun w hw => ?_) ?_ fun _ _ h => h.elim
  · have hstore : w.2 = m.world.2 := by
      rcases hw with rfl | hw
      · rfl
      · exact (unstored_steady c).idle m w hw
    rw [wp_record]
    have hcreate := w.2.createBranch_store config.threadId config.branchId config.checkpointId
    simp only [RecordCheckpointer.createBranch]
    rcases hcreate with ⟨⟨error, herror⟩, hsame⟩ | ⟨⟨head, hhead⟩, hopened⟩
    · rw [herror]
      exact hsame.trans hstore
    · rw [hhead]
      exact hstore ▸ hopened
  · intro r m' hr
    cases r with
    | ok => exact hr
    | error error =>
      have hfail : Within (Unstored c) (fail ctx error : M c.env Unit) (fun _ => False)
          (fun _ => True) := (unstored_steady c).calm.fail ctx trivial
      exact wp_mono (hfail m') (fun _ _ h => h.1.elim) fun e m'' h => h.2.trans hr

/-- A fork leaves the store as it was, or with its own branch opened and extended. -/
theorem fork_store (g : CompiledGraph ν ρ) (config : ForkConfig E.Value) (m : Machine c.env) :
    m.world.2.Forked config.threadId config.branchId config.checkpointId
      (final (fork (E := c.env) g config) m).world.2 := by
  refine final_fork (E := c.env) g (unstored_steady c) (extending_steady c) (extending_runs c)
    (extending_saves c)
    (D := fun m₂ =>
      m.world.2.Opened config.threadId config.branchId config.checkpointId m₂.world.2)
    (Q := fun m' =>
      m.world.2.Forked config.threadId config.branchId config.checkpointId m'.world.2)
    (fun ctx step m₁ hm₁ => ?_) (fun m₁ hm₁ => ?_) fun m₂ m₃ hm₂ hm₃ => ?_
  · have hm₁ : m₁.world.2 = m.world.2 := hm₁
    have hcreate : wp (createBranch (E := c.env) ctx config step) _ _ m₁ := wp_createBranch_store c
    rw [hm₁] at hcreate
    exact wp_mono hcreate (fun _ _ h => h) fun _ _ h => .inl h
  · exact .inl hm₁
  · exact .inr ⟨m₂.world.2, hm₂, hm₃⟩

end Store

/-- **Replay and fork leave the source untouched**, however they end. A replay asks for no write.
A fork asks for its branch and for saves on it; in a store, every default history, every other
branch and every record stay, and its own branch is there afterwards only if it was created at the
source, with what the fork saved behind it. -/
theorem source_untouched (g : CompiledGraph ν ρ) (E : Env ν ρ) :
    (∀ (config : ReplayConfig E.Value) (m : Machine E),
      (final (replay g config) m).writes = m.writes) ∧
    (∀ (config : ForkConfig E.Value) (m : Machine E), ∃ added,
      (final (fork g config) m).writes = m.writes ++ added ∧ ForkWrites config added) ∧
    ∀ c : RecordCheckpointer E,
      (∀ (config : ReplayConfig E.Value) (m : Machine c.env),
        (final (replay (E := c.env) g config) m).world.2 = m.world.2) ∧
      ∀ (config : ForkConfig E.Value) (m : Machine c.env),
        let s := m.world.2
        let s' := (final (fork (E := c.env) g config) m).world.2
        (∀ threadId, s'.history threadId = s.history threadId ∧
          s'.latest threadId = s.latest threadId) ∧
        (∀ threadId branchId, branchId ≠ config.branchId →
          s'.branchHistory threadId branchId = s.branchHistory threadId branchId ∧
          s'.branchHead threadId branchId = s.branchHead threadId branchId) ∧
        (∀ threadId id record, s.get threadId id = some record →
          s'.get threadId id = some record) ∧
        (s' = s ∨ s.branches config.branchId = none ∧ ∃ source records,
          s.get config.threadId config.checkpointId = some source ∧
          s'.branchHistory config.threadId config.branchId = source :: records ∧
          ∀ record ∈ records, record.threadId = config.threadId) := by
  refine ⟨fun config m => ?_, fun config m => fork_writes g config m, fun c => ⟨?_, ?_⟩⟩
  · exact final_replay g silent_steady silent_runs config m
  · intro config m
    exact final_replay (E := c.env) g (unstored_steady c) (unstored_runs c) config m
  · intro config m s s'
    have hforked : s.Forked config.threadId config.branchId config.checkpointId s' :=
      fork_store c g config m
    refine ⟨fun threadId => ?_, fun threadId branchId hother => ?_, ?_, hforked.own⟩
    · have hhistory := hforked.history threadId
      rw [InMemoryRecordState.latest_eq, InMemoryRecordState.latest_eq, hhistory]
      exact ⟨rfl, rfl⟩
    · have hbranches := hforked.branches hother
      unfold InMemoryRecordState.branchHistory InMemoryRecordState.branchHead
      rw [hbranches]
      exact ⟨rfl, rfl⟩
    · exact fun threadId id record hget => hforked.get hget

end GroupAgent.Core
