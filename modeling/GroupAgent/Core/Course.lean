import GroupAgent.Core.Working
import GroupAgent.Core.Atomic

/-!
# The course of a call

What the calls of a compiled graph (`runtime.rs:310-890`, resume, replay and fork 1069-1715) do to
a program, from the opening of a call to its end and on to later calls that load what it kept.

* `Deed`: a job worked on, or an update committed.
* `Call.Opens`: the positions a call may open at. It does no work before its loop (`wp_prepared`,
  `wp_opened`).
* `Call.Passes`: the loop states of a call with the deeds done by then. `Call.Leaves`: where a call
  may be cut off, in the middle of a super-step or at its end.
* `Chain`: calls one after the other, each from a checkpoint that keeps where the one before was
  left.
* `Lineage`: the same without a runtime: work, steps and reloads. `Lineage.inv` is its invariant
  rule.

Results:
* **`Chain.lineage`** is the refinement: whatever chain of calls leads somewhere, a lineage of the
  program does.
* **`run_course`**: how a call ends, by the position it ends at.

Premises: the graph is `Flat`, and a later call reads a checkpoint that an earlier one asked the
store to save (`Kept`). What the store does in between is the concern of `Store` and `Serial`.
-/

namespace GroupAgent.Core

open GroupAgent.Lib

variable {ν ρ : Type}

/-! ## Deeds -/

/-- What happens to a program: a job is worked on, an update is committed. -/
inductive Deed (P : Program ν ρ) where
  | worked (w : Worked P)
  | committed (update : P.Update)

/-- The jobs among some deeds. -/
def works {P : Program ν ρ} (ds : List (Deed P)) : List (Worked P) :=
  ds.filterMap fun d =>
    match d with
    | .worked w => some w
    | .committed _ => none

/-- The updates among some deeds. -/
def updates {P : Program ν ρ} (ds : List (Deed P)) : List P.Update :=
  ds.filterMap fun d =>
    match d with
    | .worked _ => none
    | .committed update => some update

section Deeds

variable {P : Program ν ρ}

@[simp] theorem works_nil : works ([] : List (Deed P)) = [] := rfl

@[simp] theorem works_append (ds ds' : List (Deed P)) : works (ds ++ ds') = works ds ++ works ds' :=
  List.filterMap_append

@[simp] theorem works_committed (update : P.Update) : works [.committed update] = [] := rfl

@[simp] theorem works_worked (ws : List (Worked P)) : works (ws.map .worked) = ws := by
  induction ws with
  | nil => rfl
  | cons w ws ih => exact congrArg (List.cons w) ih

@[simp] theorem updates_nil : updates ([] : List (Deed P)) = [] := rfl

@[simp] theorem updates_append (ds ds' : List (Deed P)) :
    updates (ds ++ ds') = updates ds ++ updates ds' := List.filterMap_append

@[simp] theorem updates_committed (update : P.Update) : updates [.committed update] = [update] := rfl

@[simp] theorem updates_worked (ws : List (Worked P)) : updates (ws.map .worked) = [] := by
  induction ws with
  | nil => rfl
  | cons w ws ih => exact ih

end Deeds

/-! ## Openings -/

section Opening

variable {P : Program ν ρ} {H : Host P} {g : CompiledGraph ν ρ}

/-- What a loaded checkpoint is continued from, with the value supplied for a suspended node. -/
structure Continues (g : CompiledGraph ν ρ) (Init : P.State → P.State → Prop)
    (checkpoint : Checkpoint P.Snapshot P.Value) (value : Option P.Value) (p : Position P) : Prop where
  resolved : Resolved g checkpoint p.frontier
  state : ∃ s, P.restore checkpoint.snapshot = .ok s ∧ Init s p.state
  fresh : checkpoint.interrupt = none → p.resume = none
  resume : ∀ interrupt, checkpoint.interrupt = some interrupt →
    ∃ i v, p.frontier = [i] ∧ value = some v ∧ p.resume = some (i, v)

/-- The value a call supplies for a suspended node. -/
def Call.value : Call (P.env H) → Option P.Value
  | .invoke _ _ _ => none
  | .resume config _ => config.resumeValue
  | .replay config => config.resumeValue
  | .fork config => config.resumeValue

/-- What a call makes of a restored state. -/
def Call.Initializes : Call (P.env H) → P.State → P.State → Prop
  | .resume _ initializer, s, s' => initializer s = .ok s'
  | _, s, s' => s' = s

/-- Where a call from `m` opens. -/
inductive Call.Opens (g : CompiledGraph ν ρ) (m : ProgramMachine P H) :
    Call (P.env H) → LoopState (P.env H) Nat → Prop where
  | invoke {initialState : P.State} {config : RunConfig} {checkpoints : Option CheckpointConfig}
      {ls : LoopState (P.env H) Nat} (position : ls.position = ⟨initialState, g.entryIndex.toList, none⟩)
      (steps : ls.steps = 0) (superstep : ls.superstep = 0) :
      Call.Opens g m (.invoke initialState config checkpoints) ls
  | load {call : Call (P.env H)} {checkpoint : Checkpoint P.Snapshot P.Value}
      {ls : LoopState (P.env H) Nat} (hread : call.Reads m checkpoint)
      (continues : Continues g call.Initializes checkpoint call.value ls.position)
      (steps : ls.steps = checkpoint.step) (superstep : ls.superstep = checkpoint.superstep) :
      Call.Opens g m call ls

variable {ctx : RunContext} {G : Worked P → Prop}

theorem does_load {α β : Type} {step : Nat}
    {read : Future (P.env H).World (Except SourceError β)}
    {finish : Except SourceError β → Except GraphRunError α} {Q : α → Prop}
    (hawait : ∀ w, (read.await w).2.2 = w.2)
    (hselect : ∀ deadline w, (read.select deadline w).2.2 = w.2)
    (hfinish : ∀ r a, finish r = .ok a → Q a) :
    Does G (load ctx step read finish : M (P.env H) α) Q (fun _ => True) := by
  unfold load
  refine within_bind (does_awaitCall (V := fun r => ∀ a, r = .ok a → Q a) step (by simp)
    (within_pure (by simp)) (fun _ => hawait) (fun _ => hselect) (fun _ _ => within_pure trivial)
    fun _ answer a ha => hfinish answer a ha) fun r hr => ?_
  exact does_orFail ctx hr fun _ _ => trivial

theorem does_readHead {α : Type} {step : Nat} {threadId : ThreadId} {branchId : Option BranchId}
    {finish : Except SourceError (Option (Checkpoint P.Snapshot P.Value)) → Except GraphRunError α} :
    Does G (load ctx step (readHead threadId branchId) finish : M (P.env H) α) (fun _ => True)
      (fun _ => True) := by
  cases branchId with
  | none => exact does_load (fun _ => rfl) (fun _ _ => rfl) fun _ _ _ => trivial
  | some branchId => exact does_load (fun _ => rfl) (fun _ _ => rfl) fun _ _ _ => trivial

/-- What the context of a run takes over from its configuration. -/
structure Adopts (config : RunConfig) (ctx : RunContext) : Prop where
  hops : ctx.hops = config.hops
  maxSteps : ctx.maxSteps = config.maxSteps

theorem does_beginRun {config : RunConfig} {S : Stop → Prop} (hS : ∀ e, Outer e → S e) :
    Does G (beginRun config : M (P.env H) RunContext) (Adopts config) S := by
  unfold beginRun
  refine within_bind (does_ask fun _ => rfl) fun started _ => ?_
  refine within_bind (does_ask fun _ => rfl) fun runId _ => ?_
  refine within_bind (P := fun _ => True) ?_ fun control _ => ?_
  · unfold ActiveControl.new
    exact within_bind (does_deadlineFrom hS _ _) fun _ _ => within_pure trivial
  · refine within_seq (does_emit _ _) ?_
    exact within_pure ⟨rfl, rfl⟩

theorem does_checkIdentity {threadId : ThreadId} {requested : Option CheckpointId}
    {checkpoint : Checkpoint P.Snapshot P.Value} :
    Does G (checkIdentity ctx threadId requested checkpoint : M (P.env H) Unit) (fun _ => True)
      (fun _ => True) := by
  unfold checkIdentity
  refine within_seq (within_forM fun _ _ => ?_) ?_
  · split
    · exact does_fail ctx trivial
    · exact within_pure trivial
  · split
    · exact does_fail ctx trivial
    · exact within_pure trivial

theorem does_fetchResume {config : ResumeConfig P.Value} :
    Does G (fetchResume config : M (P.env H) _) (fun p => Adopts config.run p.1)
      (fun _ => True) := by
  have hS : ∀ e, Outer e → (fun _ : Stop => True) e := fun _ _ => trivial
  unfold fetchResume
  refine within_bind (does_beginRun hS) fun ctx hctx => ?_
  refine within_seq (does_controlRun hS _ _ _) ?_
  refine within_bind (P := fun _ => True) ?_ fun checkpoint _ => ?_
  · unfold loadTarget
    cases config.target with
    | latest => exact does_readHead
    | checkpoint checkpointId => exact does_load (fun _ => rfl) (fun _ _ => rfl) fun _ _ _ => trivial
  · refine within_seq does_checkIdentity ?_
    refine within_seq ?_ (within_pure hctx)
    unfold checkLatest
    cases config.target with
    | latest => exact within_pure trivial
    | checkpoint checkpointId =>
      refine within_bind does_readHead fun latest _ => ?_
      split
      · exact does_fail ctx trivial
      · simp only
        split
        · exact does_fail ctx trivial
        · exact within_pure trivial

theorem does_fetchHistorical {run : RunConfig} {threadId : ThreadId} {checkpointId : CheckpointId} :
    Does G (fetchHistorical run threadId checkpointId : M (P.env H) _) (fun p => Adopts run p.1)
      (fun _ => True) := by
  have hS : ∀ e, Outer e → (fun _ : Stop => True) e := fun _ _ => trivial
  unfold fetchHistorical
  refine within_bind (does_beginRun hS) fun ctx hctx => ?_
  refine within_seq (does_controlRun hS _ _ _) ?_
  refine within_bind (P := fun _ => True) ?_ fun checkpoint _ => ?_
  · exact does_load (fun _ => rfl) (fun _ _ => rfl) fun _ _ _ => trivial
  · exact within_seq does_checkIdentity (within_pure hctx)

/-- The frontier and the resume value of a checkpoint belong together. -/
structure Resolution (g : CompiledGraph ν ρ) (checkpoint : Checkpoint P.Snapshot P.Value)
    (value : Option P.Value) (r : List Nat × Option Nat) : Prop where
  resolved : Resolved g checkpoint r.1
  fresh : checkpoint.interrupt = none → r.2 = none
  resume : ∀ interrupt, checkpoint.interrupt = some interrupt →
    ∃ i v, r.1 = [i] ∧ value = some v ∧ r.2 = some i

theorem does_resolveCheckpoint (hg : Compiled g) {threadId : ThreadId}
    {checkpoint : Checkpoint P.Snapshot P.Value} {value : Option P.Value} :
    Does G (resolveCheckpoint g ctx threadId checkpoint value : M (P.env H) _)
      (Resolution g checkpoint value) (fun _ => True) := by
  unfold resolveCheckpoint
  refine within_bind (P := Resolved g checkpoint) ?_ fun frontier hfrontier => ?_
  · unfold compatibleFrontier
    split
    · rename_i frontier h
      exact within_pure ((validate_iff hg.indexed (unreserved hg)).mp h)
    · exact does_fail ctx trivial
    · exact within_throw trivial
  · cases hi : checkpoint.interrupt with
    | none =>
      cases value with
      | none => exact within_pure ⟨hfrontier, fun _ => rfl, by simp [hi]⟩
      | some v => exact does_fail ctx trivial
    | some interrupt =>
      cases value with
      | none => exact does_fail ctx trivial
      | some v =>
        obtain ⟨i, -, rfl, -⟩ := hfrontier.suspended hi
        exact within_pure ⟨hfrontier, by simp [hi], fun _ _ => ⟨i, v, rfl, rfl, rfl⟩⟩

theorem does_restored {threadId : ThreadId} {checkpoint : Checkpoint P.Snapshot P.Value}
    {result : Except SourceError P.State} :
    Does G (restored (E := P.env H) ctx threadId checkpoint result) (fun s => result = .ok s)
      (fun _ => True) :=
  does_orFail ctx (fun _ h => mapError_eq_ok.mp h) fun _ _ => trivial

theorem does_restoreState {threadId : ThreadId} {checkpoint : Checkpoint P.Snapshot P.Value} :
    Does G (restoreState (E := P.env H) ctx threadId checkpoint)
      (fun s => P.restore checkpoint.snapshot = .ok s) (fun _ => True) := by
  have hS : ∀ e, Outer e → (fun _ : Stop => True) e := fun _ _ => trivial
  unfold restoreState
  refine within_seq (does_controlRun hS _ _ _) ?_
  refine within_bind does_restored fun s hs => ?_
  refine within_seq (does_controlRun hS _ _ _) ?_
  exact within_pure hs

theorem Resolution.continues {checkpoint : Checkpoint P.Snapshot P.Value} {value : Option P.Value}
    {r : List Nat × Option Nat} (h : Resolution g checkpoint value r) {Init : P.State → P.State → Prop}
    {s s' : P.State} (hs : P.restore checkpoint.snapshot = .ok s) (hinit : Init s s')
    (checkpoints : RuntimeCheckpoint) :
    Continues g Init checkpoint value
      (restoredLoop (E := P.env H) checkpoint s' r.1 r.2 value checkpoints).position where
  resolved := h.resolved
  state := ⟨s, hs, hinit⟩
  fresh hnone := by
    have hresume := h.fresh hnone
    unfold restoredLoop LoopState.position LoopState.resume
    simp only [hresume]
  resume interrupt hsome := by
    obtain ⟨i, v, hfrontier, hvalue, hresume⟩ := h.resume interrupt hsome
    unfold restoredLoop LoopState.position LoopState.resume
    simp only [hresume, hvalue]
    exact ⟨i, v, hfrontier, rfl, rfl⟩

theorem does_reportNamespaces {frontier : List Nat} :
    Does G (reportNamespaces g ctx frontier : M (P.env H) Unit) (fun _ => True) (fun _ => True) := by
  unfold reportNamespaces
  cases frontier with
  | nil => exact within_pure trivial
  | cons first rest =>
    refine within_bind (P := fun _ => True) ?_ fun node _ => within_forM fun _ _ => does_emit _ _
    unfold CompiledGraph.nodeAt orPanic
    split
    · exact within_pure trivial
    · exact within_throw trivial

theorem does_historicalStart {h : Historical (P.env H)} {event : GraphEvent}
    {value : Option P.Value} {checkpoints : RuntimeCheckpoint} :
    Does G (h.start g event value checkpoints) (fun r => r.1 = h.ctx ∧
      r.2 = restoredLoop h.checkpoint h.state h.frontier h.resumeNode value checkpoints)
      (fun _ => True) := by
  unfold Historical.start
  refine within_seq (does_emit _ _) ?_
  refine within_seq does_reportNamespaces ?_
  exact within_pure ⟨rfl, rfl⟩

/-- What a historical checkpoint is loaded as, from `m`. -/
structure Recovered (g : CompiledGraph ν ρ) (run : RunConfig) (threadId : ThreadId)
    (checkpointId : CheckpointId) (value : Option P.Value) (m : ProgramMachine P H)
    (h : Historical (P.env H)) : Prop where
  adopts : Adopts run h.ctx
  fetched : ∃ ctx m', fetchHistorical run threadId checkpointId m = .ok (ctx, h.checkpoint) m'
  resolution : Resolution g h.checkpoint value (h.frontier, h.resumeNode)
  restored : P.restore h.checkpoint.snapshot = .ok h.state

theorem wp_recovered (hg : Compiled g) {run : RunConfig} {threadId : ThreadId}
    {checkpointId : CheckpointId} {value : Option P.Value} {m : ProgramMachine P H} :
    wp (loadHistorical g run threadId checkpointId value)
      (fun h m' => Recovered g run threadId checkpointId value m h ∧ jobs m' = jobs m)
      (fun _ m' => jobs m' = jobs m) m := by
  unfold loadHistorical
  rw [wp_bind, wp_iff]
  refine ⟨?_, fun e m' he => (does_fetchHistorical.of_error he).2.eq⟩
  rintro ⟨ctx, checkpoint⟩ m₁ hfetch
  obtain ⟨hctx, hlog⟩ := does_fetchHistorical.of_ok hfetch
  have hrest : Does (fun _ => False) (do
      let r ← resolveCheckpoint g ctx threadId checkpoint value
      let state ← restoreState ctx threadId checkpoint
      pure ⟨ctx, checkpoint, r.1, r.2, state⟩ : M (P.env H) (Historical (P.env H)))
      (Recovered g run threadId checkpointId value m) (fun _ => True) := by
    refine within_bind (does_resolveCheckpoint hg) fun r hr => ?_
    refine within_bind does_restoreState fun s hs => ?_
    exact within_pure ⟨hctx, ⟨ctx, m₁, hfetch⟩, hr, hs⟩
  refine wp_mono (hrest m₁) (fun h m' hh => ?_) fun e m' he => ?_
  · exact ⟨hh.1, hh.2.eq.trans hlog.eq⟩
  · exact he.2.eq.trans hlog.eq

/-- Why a call stops before its loop. Nothing is said of a call that loads, or of a graph without
an entry. -/
def Call.Refused (g : CompiledGraph ν ρ) : Call (P.env H) → Stop → Prop
  | .invoke _ config _, e => Outer e ∨ (config.hops = 0 ∧ e = .outOfFuel) ∨ g.entryIndex = none
  | _, _ => True

theorem does_openInvocation (hg : Placed g) (hflat : Flat g) {initialState : P.State}
    {config : RunConfig} {checkpoints : Option CheckpointConfig} {k : RuntimeCheckpoint} :
    Does G (openInvocation (E := P.env H) g.nav initialState config k) (fun r =>
      r.2.position = ⟨initialState, g.entryIndex.toList, none⟩ ∧ r.2.steps = 0 ∧
        r.2.superstep = 0 ∧ Adopts config r.1)
      (Call.Refused (P := P) (H := H) g (.invoke initialState config checkpoints)) := by
  have houter : ∀ e, Outer e →
      Call.Refused (P := P) (H := H) g (.invoke initialState config checkpoints) e :=
    fun e h => .inl h
  have hentry : ∀ a ∈ g.entryIndex, ∃ item, g.items[a]? = some item := by
    intro a ha
    obtain ⟨item, hitem, -⟩ := hg.entry a ha
    exact ⟨item, hitem⟩
  unfold openInvocation
  refine within_bind (does_beginRun houter) fun ctx hctx => ?_
  refine within_bind (does_normalizeFrontier hflat hentry fun h => ?_) fun start hstart => ?_
  · exact .inr (.inl ⟨hctx.hops ▸ h, rfl⟩)
  · obtain ⟨frontier, boundaries⟩ := start
    refine within_seq (within_forM fun _ _ => does_emit _ _) ?_
    refine within_bind (P := fun _ => True) ?_ fun path _ => ?_
    · unfold initialPath
      cases frontier with
      | nil => exact within_pure trivial
      | cons first rest =>
        have hfirst : first ∈ g.entryIndex := by
          have hmem : first ∈ g.entryIndex.toList := hstart ▸ List.mem_cons_self
          exact Option.mem_toList.mp hmem
        obtain ⟨item, hi⟩ := hentry first hfirst
        obtain ⟨n, rfl⟩ := hflat.node first item hi
        simp only
        rw [nodeAt_eq hi]
        exact within_map (P := fun _ => True) (within_pure trivial) fun _ _ => trivial
    · refine within_seq (does_controlRun houter _ _ _) ?_
      refine within_pure ⟨?_, rfl, rfl, hctx⟩
      cases hstart
      rfl

theorem does_saveEmpty {flag : Bool} {ls : LoopState (P.env H) Nat} {S : Stop → Prop}
    (hS : ls.frontier = [] → ∀ e, S e) :
    Does G (saveEmpty ctx flag ls) (fun _ => True) S := by
  unfold saveEmpty
  split
  · rename_i hcond
    simp only [Bool.and_eq_true, List.isEmpty_iff] at hcond
    obtain ⟨⟨-, hl⟩, hsave⟩ := hcond
    cases hc : ls.checkpoints with
    | disabled => rw [hc] at hsave; cases hsave
    | readOnlyReplay _ _ => rw [hc] at hsave; cases hsave
    | enabled c =>
      refine within_bind (does_saveBoundary (fun e _ => hS hl e) fun error _ => hS hl _)
        fun _ _ => within_pure trivial
  · exact within_pure trivial

/-- What a call enters with. -/
structure Opened (g : CompiledGraph ν ρ) (call : Call (P.env H)) (m : ProgramMachine P H)
    (r : RunContext × LoopState (P.env H) Nat) : Prop where
  opens : call.Opens g m r.2
  adopts : Adopts call.config r.1

/-- **Where a call opens.** It does no work before its loop. -/
theorem wp_prepared (hg : Compiled g) (hflat : Flat g) (call : Call (P.env H))
    (m : ProgramMachine P H) :
    wp (call.prepare g) (fun r m' => Opened g call m r ∧ jobs m' = jobs m)
      (fun e m' => call.Refused g e ∧ jobs m' = jobs m) m := by
  cases call with
  | invoke initialState config checkpoints =>
    have hopen : ∀ k, wp (openInvocation (E := P.env H) g.nav initialState config k)
        (fun r m' => Opened g (.invoke initialState config checkpoints) m r ∧ jobs m' = jobs m)
        (fun e m' => Call.Refused g (.invoke initialState config checkpoints) e ∧
          jobs m' = jobs m) m := by
      intro k
      refine wp_mono (does_openInvocation (G := fun _ => False) (placed hg) hflat m)
        (fun r m' hr => ?_) fun e m' he => ⟨he.1, he.2.eq⟩
      obtain ⟨⟨hposition, hsteps, hsuper, hctx⟩, hlog⟩ := hr
      exact ⟨⟨.invoke hposition hsteps hsuper, hctx⟩, hlog.eq⟩
    cases checkpoints with
    | none => exact hopen _
    | some checkpoints => exact hopen _
  | resume config initializer =>
    show wp (openResume g config initializer) _ _ m
    unfold openResume
    rw [wp_bind, wp_iff]
    refine ⟨?_, fun e m' he => ⟨trivial, (does_fetchResume.of_error he).2.eq⟩⟩
    rintro ⟨ctx, checkpoint⟩ m₁ hfetch
    obtain ⟨hctx, hlog⟩ := does_fetchResume.of_ok hfetch
    have hread : (Call.resume config initializer).Reads m checkpoint := ⟨ctx, m₁, hfetch⟩
    have hS : ∀ e, Outer e → (fun _ : Stop => True) e := fun _ _ => trivial
    have hrest : Does (fun _ => False) (do
        let r ← resolveCheckpoint g ctx config.threadId checkpoint config.resumeValue
        let state ← restoreState ctx config.threadId checkpoint
        let state ← restored ctx config.threadId checkpoint (initializer state)
        controlRun ctx none checkpoint.step
        emit ctx.events (.runResumed ctx.runId config.threadId checkpoint.id checkpoint.step
          checkpoint.superstep)
        config.branchId.toList.forM fun branchId =>
          emit ctx.events (.branchResumed ctx.runId config.threadId branchId checkpoint.id
            checkpoint.step checkpoint.superstep)
        reportNamespaces g ctx r.1
        pure (ctx, restoredLoop checkpoint state r.1 r.2 config.resumeValue
          (config.checkpointing g checkpoint.id)) : M (P.env H) _)
        (Opened g (.resume config initializer) m) (fun _ => True) := by
      refine within_bind (does_resolveCheckpoint hg) fun r hr => ?_
      refine within_bind does_restoreState fun s hs => ?_
      refine within_bind does_restored fun s' hs' => ?_
      refine within_seq (does_controlRun hS _ _ _) ?_
      refine within_seq (does_emit _ _) ?_
      refine within_seq (within_forM fun _ _ => does_emit _ _) ?_
      refine within_seq does_reportNamespaces ?_
      exact within_pure ⟨.load hread (hr.continues hs hs' _) rfl rfl, hctx⟩
    refine wp_mono (hrest m₁) (fun r m' hr => ?_) fun e m' he => ?_
    · exact ⟨hr.1, hr.2.eq.trans hlog.eq⟩
    · exact ⟨trivial, he.2.eq.trans hlog.eq⟩
  | replay config =>
    show wp (openReplay g config) _ _ m
    unfold openReplay
    rw [wp_bind]
    refine wp_mono (wp_recovered hg) (fun h m₁ hh => ?_) fun e m' he => ⟨trivial, he⟩
    obtain ⟨hrecovered, hlog⟩ := hh
    refine wp_mono (does_historicalStart (G := fun _ => False) m₁) (fun r m' hr => ?_)
      fun e m' he => ⟨trivial, he.2.eq.trans hlog⟩
    obtain ⟨ctx, ls⟩ := r
    obtain ⟨⟨rfl, rfl⟩, hlog'⟩ := hr
    have hinit : (Call.replay config : Call (P.env H)).Initializes h.state h.state := rfl
    refine ⟨⟨.load hrecovered.fetched ?_ rfl rfl, hrecovered.adopts⟩, hlog'.eq.trans hlog⟩
    exact hrecovered.resolution.continues hrecovered.restored hinit _
  | fork config =>
    show wp (openFork g config) _ _ m
    unfold openFork
    rw [wp_bind]
    refine wp_mono (wp_recovered hg) (fun h m₁ hh => ?_) fun e m' he => ⟨trivial, he⟩
    obtain ⟨hrecovered, hlog⟩ := hh
    have hrest : Does (fun _ => False) (do
        createBranch h.ctx config h.checkpoint.step
        h.start g
          (.forkStarted h.ctx.runId config.threadId config.checkpointId config.branchId
            h.checkpoint.step h.checkpoint.superstep)
          config.resumeValue (config.checkpointing g) : M (P.env H) _)
        (Opened g (.fork config) m) (fun _ => True) := by
      refine within_seq ?_ ?_
      · unfold createBranch
        refine within_bind (does_awaitCall (V := fun _ => True) _ (by simp) (within_pure (by simp))
          (fun _ _ => rfl) (fun _ _ _ => rfl) (fun _ _ => does_record _) fun _ _ => trivial)
          fun r _ => ?_
        exact does_orFail _ (fun _ _ => trivial) fun _ _ => trivial
      · refine within_mono does_historicalStart (fun r hr => ?_) fun _ h => h
        obtain ⟨ctx, ls⟩ := r
        obtain ⟨rfl, rfl⟩ := hr
        have hinit : (Call.fork config : Call (P.env H)).Initializes h.state h.state := rfl
        refine ⟨.load hrecovered.fetched ?_ rfl rfl, hrecovered.adopts⟩
        exact hrecovered.resolution.continues hrecovered.restored hinit _
    refine wp_mono (hrest m₁) (fun r m' hr => ?_) fun e m' he => ?_
    · exact ⟨hr.1, hr.2.eq.trans hlog⟩
    · exact ⟨trivial, he.2.eq.trans hlog⟩

/-- **What a call enters its loop with.** -/
theorem wp_opened (hg : Compiled g) (hflat : Flat g) (call : Call (P.env H))
    (m : ProgramMachine P H) :
    wp (call.enter g) (fun r m' => Opened g call m r ∧
        r.1.absoluteStepLimit = min (r.2.steps + r.1.maxSteps) usizeMax ∧ jobs m' = jobs m)
      (fun e m' => call.Refused g e ∧ jobs m' = jobs m) m := by
  unfold Call.enter
  rw [wp_bind]
  refine wp_mono (wp_prepared hg hflat call m) ?_ fun e m' he => he
  rintro ⟨ctx, ls⟩ m₁ ⟨⟨hopens, hadopts⟩, hlog⟩
  have hempty : Does (fun _ => False) (saveEmpty ctx call.savesEmpty ls) (fun _ => True)
      (call.Refused g) := by
    refine does_saveEmpty fun hl e => ?_
    cases hopens with
    | invoke hposition hsteps hsuper =>
      have hfrontier : ls.frontier = g.entryIndex.toList := congrArg Position.frontier hposition
      rw [hl] at hfrontier
      refine .inr (.inr ?_)
      cases he : g.entryIndex with
      | none => rfl
      | some i => rw [he] at hfrontier; cases hfrontier
    | load hread hcontinues hsteps hsuper =>
      cases call with
      | invoke initialState config checkpoints => exact hread.elim
      | _ => trivial
  simp only [enterLoop]
  rw [wp_bind]
  refine wp_mono (hempty m₁) (fun k m₂ hk => ?_) fun e m₂ he => ⟨he.1, he.2.eq.trans hlog⟩
  rw [wp_pure]
  refine ⟨⟨?_, ⟨hadopts.hops, hadopts.maxSteps⟩⟩, rfl, hk.2.eq.trans hlog⟩
  cases hopens with
  | invoke hposition hsteps hsuper => exact .invoke hposition hsteps hsuper
  | load hread hcontinues hsteps hsuper => exact .load hread hcontinues hsteps hsuper

end Opening

/-! ## The deeds of a call -/

section Passing

variable {P : Program ν ρ} {H : Host P} {g : CompiledGraph ν ρ}

/-- The jobs worked on between two machines. -/
def since (m m' : ProgramMachine P H) : List (Worked P) := (jobs m').drop (jobs m).length

theorem Logs.since {G : Worked P → Prop} {m m' : ProgramMachine P H} (h : Logs G m m') :
    jobs m' = jobs m ++ since m m' ∧ ∀ w ∈ since m m', G w := by
  obtain ⟨ws, hws, hall⟩ := h
  have hsince : Core.since m m' = ws := by
    unfold Core.since
    rw [hws, List.drop_left]
  rw [hsince]
  exact ⟨hws, hall⟩

/-- The call stands at a loop state, after these deeds. -/
inductive Call.Passes (g : CompiledGraph ν ρ) (call : Call (P.env H)) (m : ProgramMachine P H)
    (ctx : RunContext) : List (Deed P) → LoopState (P.env H) Nat × ProgramMachine P H → Prop where
  | enter {ls : LoopState (P.env H) Nat} {m₁ : ProgramMachine P H}
      (h : call.enter g m = .ok (ctx, ls) m₁) : call.Passes g m ctx [] (ls, m₁)
  | turn {ds : List (Deed P)} {p q : LoopState (P.env H) Nat × ProgramMachine P H}
      {update : P.Update} (h : call.Passes g m ctx ds p) (hturn : Turn g ctx p q)
      (hstep : Step P g p.1.position update q.1.position) :
      call.Passes g m ctx (ds ++ (since p.2 q.2).map .worked ++ [.committed update]) q

/-- The machine a computation ends with. -/
def Halts {α : Type} (x : M (P.env H) α) (m m' : ProgramMachine P H) : Prop :=
  wp x (fun _ m'' => m'' = m') (fun _ m'' => m'' = m') m

/-- What a computation logs by the machine it ends with. -/
theorem Halts.logs {α : Type} {x : M (P.env H) α} {m m' : ProgramMachine P H} {G : Worked P → Prop}
    {Q : α → Prop} {S : Stop → Prop} (h : Halts x m m') (hx : Does G x Q S) : Logs G m m' := by
  have hboth := wp_iff.mp (hx m)
  have hend := wp_iff.mp h
  cases hrun : x m with
  | ok a m₁ =>
    obtain rfl := hend.1 a m₁ hrun
    exact (hboth.1 a m₁ hrun).2
  | error e m₁ =>
    obtain rfl := hend.2 e m₁ hrun
    exact (hboth.2 e m₁ hrun).2

/-- Where a call may be left, with the deeds done by then: at a loop state, in the middle of the
super-step from there, or when that super-step is committed. -/
inductive Call.Leaves (g : CompiledGraph ν ρ) (call : Call (P.env H)) (m : ProgramMachine P H) :
    List (Deed P) → Position P → Prop where
  | standing {ctx : RunContext} {ds : List (Deed P)}
      {p : LoopState (P.env H) Nat × ProgramMachine P H} (h : call.Passes g m ctx ds p) :
      call.Leaves g m ds p.1.position
  | during {ctx : RunContext} {ds : List (Deed P)}
      {p : LoopState (P.env H) Nat × ProgramMachine P H} {first : Nat} {rest : List Nat}
      {m' : ProgramMachine P H} {ws : List (Worked P)} (h : call.Passes g m ctx ds p)
      (hl : p.1.frontier = first :: rest)
      (hhalts : Halts (superstep g.nav ctx p.1 first rest) p.2 m') (hcut : ws <+: since p.2 m') :
      call.Leaves g m (ds ++ ws.map .worked) p.1.position
  | committed {ctx : RunContext} {ds : List (Deed P)}
      {p : LoopState (P.env H) Nat × ProgramMachine P H} {first : Nat} {rest : List Nat}
      {m' : ProgramMachine P H} {state : P.State} {steps superstep : Nat} {next : List Nat}
      {boundaries : List SubgraphBoundary} {update : P.Update} (h : call.Passes g m ctx ds p)
      (hl : p.1.frontier = first :: rest)
      (hadvance : advance g.nav ctx p.1 first rest p.2 =
        .ok (.committed state steps superstep next boundaries) m')
      (hstep : Step P g p.1.position update ⟨state, next, none⟩) :
      call.Leaves g m (ds ++ (since p.2 m').map .worked ++ [.committed update]) ⟨state, next, none⟩

variable {call : Call (P.env H)} {m : ProgramMachine P H}

theorem Call.Passes.reaches {ctx : RunContext} {ds : List (Deed P)}
    {p : LoopState (P.env H) Nat × ProgramMachine P H} (h : call.Passes g m ctx ds p) :
    call.Reaches g m ctx p := by
  induction h with
  | enter h => exact ⟨_, _, h, .refl⟩
  | turn _ hturn _ ih =>
    obtain ⟨ls, m₁, henter, hturns⟩ := ih
    exact ⟨ls, m₁, henter, hturns.tail hturn⟩

section Runs

variable (hg : Compiled g) (hflat : Flat g) (hs : Sound g .all call m)

include hg hs

theorem Call.Reaches.nodes {ctx : RunContext} {p : LoopState (P.env H) Nat × ProgramMachine P H}
    (h : call.Reaches g m ctx p) : ∀ i ∈ p.1.frontier, ∃ n, g.items[i]? = some (.node n) := by
  obtain ⟨seed, -, hvalid⟩ := h.valid hg hs
  exact fun i hi => hvalid.frontier.node hi

include hflat

theorem Call.Reaches.turned {ctx : RunContext}
    {p : LoopState (P.env H) Nat × ProgramMachine P H} (h : call.Reaches g m ctx p) {first : Nat}
    {rest : List Nat} (hl : p.1.frontier = first :: rest) :
    Does (Works P g p.1.position) (superstep g.nav ctx p.1 first rest) (Turned g p.1)
      (Fault g ctx p.1) := does_superstep (placed hg) hflat hl (h.nodes hg hs)

/-- Every loop state that is reached is passed. -/
theorem Call.Reaches.passes {ctx : RunContext}
    {p : LoopState (P.env H) Nat × ProgramMachine P H} (h : call.Reaches g m ctx p) :
    ∃ ds, call.Passes g m ctx ds p := by
  obtain ⟨ls, m₁, henter, hturns⟩ := h
  induction hturns with
  | refl => exact ⟨[], .enter henter⟩
  | @tail p q hturns hturn ih =>
    obtain ⟨ds, hds⟩ := ih
    obtain ⟨first, rest, hl, hstep⟩ := hturn
    have hturned := ((hds.reaches.turned hg hflat hs hl).of_ok hstep).1
    cases hturned with
    | committed h steps superstep => exact ⟨_, .turn hds ⟨first, rest, hl, hstep⟩ h⟩

theorem Call.Passes.logs {ctx : RunContext} {ds : List (Deed P)}
    {p : LoopState (P.env H) Nat × ProgramMachine P H} (h : call.Passes g m ctx ds p) :
    jobs p.2 = jobs m ++ works ds := by
  induction h with
  | enter h =>
    have hlog := (wp_of_ok (wp_opened hg hflat call m) h).2.2
    rw [works_nil, List.append_nil]
    exact hlog
  | @turn ds p q update hds hturn _ ih =>
    obtain ⟨first, rest, hl, hstep⟩ := hturn
    have hlog := ((hds.reaches.turned hg hflat hs hl).of_ok hstep).2.since.1
    rw [hlog, ih, works_append, works_append, works_worked, works_committed, List.append_nil,
      List.append_assoc]

/-- What was worked on was worked on somewhere the call stood. -/
theorem Call.Passes.worked {ctx : RunContext} {ds : List (Deed P)}
    {p : LoopState (P.env H) Nat × ProgramMachine P H} (h : call.Passes g m ctx ds p) : ∀ w ∈ works ds, ∃ ds' p', call.Passes g m ctx ds' p' ∧
      Works P g p'.1.position w := by
  induction h with
  | enter => exact fun _ hw => absurd hw List.not_mem_nil
  | @turn ds p q update hds hturn hstep ih =>
    intro w hw
    rw [works_append, works_append, works_worked, works_committed, List.append_nil,
      List.mem_append] at hw
    rcases hw with hw | hw
    · exact ih w hw
    · obtain ⟨first, rest, hl, hsuper⟩ := hturn
      exact ⟨ds, p, hds, ((hds.reaches.turned hg hflat hs hl).of_ok hsuper).2.since.2 w hw⟩

theorem Call.Leaves.worked {ds : List (Deed P)} {q : Position P} (h : call.Leaves g m ds q) : ∀ w ∈ works ds, ∃ ctx ds' p,
      call.Passes g m ctx ds' p ∧ Works P g p.1.position w := by
  intro w hw
  cases h with
  | @standing ctx ds p hpasses =>
    obtain ⟨ds', p', h⟩ := hpasses.worked hg hflat hs w hw
    exact ⟨ctx, ds', p', h⟩
  | @during ctx ds p first rest m' ws hpasses hl hhalts hcut =>
    rw [works_append, works_worked, List.mem_append] at hw
    rcases hw with hw | hw
    · obtain ⟨ds', p', h⟩ := hpasses.worked hg hflat hs w hw
      exact ⟨ctx, ds', p', h⟩
    · have hlogs := hhalts.logs (hpasses.reaches.turned hg hflat hs hl)
      exact ⟨ctx, ds, p, hpasses, hlogs.since.2 w (hcut.subset hw)⟩
  | @committed ctx ds p first rest m' state steps superstep next boundaries update hpasses hl hadvance
      hstep =>
    rw [works_append, works_append, works_worked, works_committed, List.append_nil,
      List.mem_append] at hw
    rcases hw with hw | hw
    · obtain ⟨ds', p', h⟩ := hpasses.worked hg hflat hs w hw
      exact ⟨ctx, ds', p', h⟩
    · have hdoes : Does (Works P g p.1.position) (advance g.nav ctx p.1 first rest) (Flows g p.1)
        (Fault g ctx p.1) := does_advance (placed hg) hflat hl (hpasses.reaches.nodes hg hs)
      exact ⟨ctx, ds, p, hpasses, (hdoes.of_ok hadvance).2.since.2 w hw⟩

end Runs

/-- A step leaves nothing offered. -/
theorem Step.resume {p q : Position P} {update : P.Update} (h : Step P g p update q) :
    q.resume = none := by
  cases h
  rfl

/-- A value is offered before anything is done, and to the node that was suspended. -/
theorem Call.Passes.offered (hg : Compiled g) (hflat : Flat g) {ctx : RunContext}
    {ds : List (Deed P)} {p : LoopState (P.env H) Nat × ProgramMachine P H}
    (h : call.Passes g m ctx ds p) {i : Nat} {value : P.Value} (hvalue : p.1.position.offered i = some value) :
    ds = [] ∧ call.value = some value ∧ p.1.frontier = [i] ∧
      ∃ checkpoint interrupt, call.Reads m checkpoint ∧ checkpoint.interrupt = some interrupt := by
  cases h with
  | @enter ls m₁ h =>
    refine ⟨rfl, ?_⟩
    have hopens := (wp_of_ok (wp_opened hg hflat call m) h).1.opens
    cases hopens with
    | invoke position =>
      replace hvalue : ls.position.offered i = some value := hvalue
      rw [position, Position.offered_none rfl] at hvalue
      cases hvalue
    | @load _ checkpoint ls hread continues =>
      cases hinterrupt : checkpoint.interrupt with
      | none =>
        rw [Position.offered_none (continues.fresh hinterrupt)] at hvalue
        cases hvalue
      | some interrupt =>
        obtain ⟨j, v, hfrontier, hv, hresume⟩ := continues.resume interrupt hinterrupt
        unfold Position.offered at hvalue
        rw [hresume] at hvalue
        simp only [Option.bind_some] at hvalue
        split at hvalue
        · rename_i hj
          obtain rfl : v = value := Option.some.inj hvalue
          obtain rfl : j = i := hj
          exact ⟨hv, hfrontier, checkpoint, interrupt, hread, hinterrupt⟩
        · cases hvalue
  | turn _ _ hstep =>
    rw [Position.offered_none hstep.resume] at hvalue
    cases hvalue

end Passing

/-! ## Lineages -/

section Lineages

variable {P : Program ν ρ} {g : CompiledGraph ν ρ}

/-- What is kept of a position and loaded again: a snapshot of its state, and its frontier. -/
structure Reloads (Init : P.State → P.State → Prop) (p q : Position P) : Prop where
  state : ∃ snapshot s, P.snapshot p.state = .ok snapshot ∧ P.restore snapshot = .ok s ∧
    Init s q.state
  frontier : q.frontier = p.frontier
  resume : ∀ i v, q.resume = some (i, v) → q.frontier = [i]

/-- Work, steps and reloads, one after the other. -/
inductive Lineage (g : CompiledGraph ν ρ) (Init : P.State → P.State → Prop) :
    Position P → List (Deed P) → Position P → Prop where
  | refl (p : Position P) : Lineage g Init p [] p
  | work {p q : Position P} {ds : List (Deed P)} {w : Worked P} (h : Lineage g Init p ds q)
      (hw : Works P g q w) : Lineage g Init p (ds ++ [.worked w]) q
  | step {p q r : Position P} {ds : List (Deed P)} {update : P.Update} (h : Lineage g Init p ds q)
      (hstep : Step P g q update r) : Lineage g Init p (ds ++ [.committed update]) r
  | reload {p q r : Position P} {ds : List (Deed P)} (h : Lineage g Init p ds q)
      (hreload : Reloads Init q r) : Lineage g Init p ds r

variable {Init : P.State → P.State → Prop}

theorem Lineage.works {p q : Position P} : ∀ {ws : List (Worked P)} {ds : List (Deed P)},
    Lineage g Init p ds q → (∀ w ∈ ws, Works P g q w) → Lineage g Init p (ds ++ ws.map .worked) q
  | [], _, h, _ => by
    rw [List.map_nil, List.append_nil]
    exact h
  | w :: ws, ds, h, hws => by
    rw [List.map_cons, List.append_cons]
    refine Lineage.works (.work h (hws w List.mem_cons_self)) fun w' hw' => ?_
    exact hws w' (List.mem_cons_of_mem w hw')

theorem Lineage.trans {p q r : Position P} {ds ds' : List (Deed P)} (h : Lineage g Init p ds q)
    (h' : Lineage g Init q ds' r) : Lineage g Init p (ds ++ ds') r := by
  induction h' with
  | refl =>
    rw [List.append_nil]
    exact h
  | work _ hw ih =>
    rw [← List.append_assoc]
    exact .work ih hw
  | step _ hstep ih =>
    rw [← List.append_assoc]
    exact .step ih hstep
  | reload _ hreload ih => exact .reload ih hreload

/-- What holds at first and is kept by steps and reloads holds in the end, and wherever work was
done. -/
theorem Lineage.inv {Inv : Position P → Prop} {p q : Position P} {ds : List (Deed P)}
    (h : Lineage g Init p ds q) (hp : Inv p)
    (hstep : ∀ {q r : Position P} {update : P.Update}, Inv q → Step P g q update r → Inv r)
    (hreload : ∀ {q r : Position P}, Inv q → Reloads Init q r → Inv r) :
    Inv q ∧ ∀ w ∈ Core.works ds, ∃ r, Inv r ∧ Works P g r w := by
  induction h with
  | refl => exact ⟨hp, by simp⟩
  | @work q ds w _ hw ih =>
    obtain ⟨hq, hall⟩ := ih
    refine ⟨hq, fun w' hw' => ?_⟩
    rw [works_append] at hw'
    rcases List.mem_append.mp hw' with hw' | hw'
    · exact hall w' hw'
    · have hw' : w' ∈ [w] := hw'
      rw [List.mem_singleton.mp hw']
      exact ⟨q, hq, hw⟩
  | step _ hs ih =>
    obtain ⟨hq, hall⟩ := ih
    refine ⟨hstep hq hs, fun w hw => hall w ?_⟩
    rw [works_append, works_committed, List.append_nil] at hw
    exact hw
  | reload _ hr ih =>
    obtain ⟨hq, hall⟩ := ih
    exact ⟨hreload hq hr, hall⟩

end Lineages

/-! ## Chains of calls -/

section Chains

variable {P : Program ν ρ} {g : CompiledGraph ν ρ} {Init : P.State → P.State → Prop}

/-- The checkpoint keeps the position. -/
structure Kept (g : CompiledGraph ν ρ) (checkpoint : Checkpoint P.Snapshot P.Value)
    (p : Position P) : Prop where
  snapshot : P.snapshot p.state = .ok checkpoint.snapshot
  frontier : PathsOf g p.frontier checkpoint.nextFrontier

/-- Calls one after the other, each loading a checkpoint that keeps the position where the one
before was left. Every call may be on a host of its own. -/
inductive Chain (g : CompiledGraph ν ρ) (Init : P.State → P.State → Prop) :
    Position P → List (Deed P) → Position P → Prop where
  | refl (p : Position P) : Chain g Init p [] p
  | call {p q r : Position P} {ds ds' : List (Deed P)} {H : Host P} {call : Call (P.env H)}
      {m : ProgramMachine P H} {checkpoint : Checkpoint P.Snapshot P.Value}
      (h : Chain g Init p ds q) (hread : call.Reads m checkpoint) (hrange : checkpoint.InRange)
      (hkept : Kept g checkpoint q) (hinit : ∀ s s', call.Initializes s s' → Init s s')
      (hleaves : call.Leaves g m ds' r) : Chain g Init p (ds ++ ds') r

/-- What a kept position is continued from is a reload of it. -/
theorem Kept.reloads (hg : Compiled g) {checkpoint : Checkpoint P.Snapshot P.Value}
    {p q : Position P} {value : Option P.Value} (h : Kept g checkpoint p)
    (hq : Continues g Init checkpoint value q) : Reloads Init p q where
  state := by
    obtain ⟨s, hs, hinit⟩ := hq.state
    exact ⟨_, s, h.snapshot, hs, hinit⟩
  frontier := PathsOf.inj hg.indexed hq.resolved.paths h.frontier
  resume i v hresume := by
    cases hi : checkpoint.interrupt with
    | none =>
      rw [hq.fresh hi] at hresume
      cases hresume
    | some interrupt =>
      obtain ⟨j, v', hfrontier, -, hresume'⟩ := hq.resume interrupt hi
      rw [hresume'] at hresume
      cases hresume
      exact hfrontier

section Runs

variable {H : Host P} {call : Call (P.env H)} {m : ProgramMachine P H} (hg : Compiled g)
  (hflat : Flat g) (hs : Sound g .all call m)

include hg hflat hs

theorem Call.Passes.lineage {ctx : RunContext} {ds : List (Deed P)}
    {p : LoopState (P.env H) Nat × ProgramMachine P H} (h : call.Passes g m ctx ds p)
    (Init : P.State → P.State → Prop) :
    ∃ ls m₁, call.enter g m = .ok (ctx, ls) m₁ ∧ Lineage g Init ls.position ds p.1.position := by
  induction h with
  | @enter ls m₁ h => exact ⟨ls, m₁, h, .refl _⟩
  | @turn ds p q update hds hturn hstep ih =>
    obtain ⟨ls, m₁, henter, hlineage⟩ := ih
    obtain ⟨first, rest, hl, hsuper⟩ := hturn
    have hworks := ((hds.reaches.turned hg hflat hs hl).of_ok hsuper).2.since.2
    exact ⟨ls, m₁, henter, .step (hlineage.works hworks) hstep⟩

/-- **Wherever a call is left, a lineage of the program leads there from its opening.** -/
theorem Call.Leaves.lineage {ds : List (Deed P)} {q : Position P} (h : call.Leaves g m ds q)
    (Init : P.State → P.State → Prop) :
    ∃ ls, call.Opens g m ls ∧ Lineage g Init ls.position ds q := by
  have hopen : ∀ {ctx : RunContext} {ls : LoopState (P.env H) Nat} {m₁ : ProgramMachine P H},
      call.enter g m = .ok (ctx, ls) m₁ → call.Opens g m ls :=
    fun henter => (wp_of_ok (wp_opened hg hflat call m) henter).1.opens
  cases h with
  | standing hpasses =>
    obtain ⟨ls, m₁, henter, hlineage⟩ := hpasses.lineage hg hflat hs Init
    exact ⟨ls, hopen henter, hlineage⟩
  | @during ctx ds p first rest m' ws hpasses hl hhalts hcut =>
    obtain ⟨ls, m₁, henter, hlineage⟩ := hpasses.lineage hg hflat hs Init
    have hlogs := hhalts.logs (hpasses.reaches.turned hg hflat hs hl)
    refine ⟨ls, hopen henter, hlineage.works fun w hw => ?_⟩
    exact hlogs.since.2 w (hcut.subset hw)
  | @committed ctx ds p first rest m' state steps superstep next boundaries update hpasses hl hadvance
      hstep =>
    obtain ⟨ls, m₁, henter, hlineage⟩ := hpasses.lineage hg hflat hs Init
    have hdoes : Does (Works P g p.1.position) (advance g.nav ctx p.1 first rest) (Flows g p.1)
      (Fault g ctx p.1) := does_advance (placed hg) hflat hl (hpasses.reaches.nodes hg hs)
    have hlogs := (hdoes.of_ok hadvance).2.since.2
    exact ⟨ls, hopen henter, .step (hlineage.works hlogs) hstep⟩

/-- **What a call saves to be continued keeps a position where the call is left.** -/
theorem Call.Writes.kept {ws : List (StoreWrite (P.env H))} (hwrites : call.Writes g m ws)
    {branchId : Option BranchId} {request : CheckpointRequest P.Snapshot P.Value}
    {answer : Option (Except CheckpointWriteError (Checkpoint P.Snapshot P.Value))}
    (hsave : .save branchId request answer ∈ ws) (hopen : request.completed = false) :
    ∃ ds q, call.Leaves g m ds q ∧ Kept g request.intoCheckpoint q := by
  obtain ⟨state, frontier, hrecorded⟩ := durable_of_log (hwrites.log hg hs trivial) hsave
  have hsnapshot : P.snapshot state = .ok request.snapshot := hrecorded.snapshot
  have hdurable := hrecorded.durable
  generalize hb : (⟨request.superstep, request.step, request.nextFrontier, request.completed,
    request.interrupt⟩ : CheckpointBoundary P.Value) = boundary at hdurable
  cases hdurable with
  | empty hflag hstarts hl =>
    have hcompleted : request.completed = true := congrArg CheckpointBoundary.completed hb
    rw [hopen] at hcompleted
    cases hcompleted
  | committed hreach hl hadvance hpaths =>
    obtain ⟨ds, hds⟩ := hreach.passes hg hflat hs
    have hflows := ((does_advance (placed hg) hflat hl (hreach.nodes hg hs)).of_ok hadvance).1
    have hfrontier : request.nextFrontier = _ := congrArg CheckpointBoundary.nextFrontier hb
    cases hflows with
    | committed hstep =>
      refine ⟨_, _, .committed hds hl hadvance hstep, hsnapshot, ?_⟩
      show PathsOf g _ request.nextFrontier
      rw [hfrontier]
      exact hpaths
  | @suspended ctx ls m₁ m₂ first suspension n hreach hl hadvance hn =>
    obtain ⟨ds, hds⟩ := hreach.passes hg hflat hs
    have hfrontier : request.nextFrontier = [n.path] := congrArg CheckpointBoundary.nextFrontier hb
    refine ⟨_, _, .standing hds, hsnapshot, ?_⟩
    show PathsOf g ls.frontier request.nextFrontier
    rw [hfrontier, hl]
    exact .cons ⟨n, hn, rfl⟩ .nil

end Runs

/-- **Chains refine to lineages.** -/
theorem Chain.lineage (hg : Compiled g) (hflat : Flat g) {p q : Position P} {ds : List (Deed P)}
    (h : Chain g Init p ds q) : Lineage g Init p ds q := by
  induction h with
  | refl => exact .refl _
  | @call q r ds ds' H call m checkpoint _ hread hrange hkept hinit hleaves ih =>
    have hs : Sound g .all call m := sound_all fun checkpoint' hread' => by
      rw [hread'.unique hread]
      exact hrange
    obtain ⟨ls, hopens, hlineage⟩ := hleaves.lineage hg hflat hs Init
    cases hopens with
    | invoke hposition hsteps hsuper => exact hread.elim
    | @load _ checkpoint' _ hread' hcontinues hsteps hsuper =>
      rw [hread'.unique hread] at hcontinues
      have hcontinues' : Continues g Init checkpoint call.value ls.position := by
        obtain ⟨s, hrestore, hs⟩ := hcontinues.state
        exact ⟨hcontinues.resolved, ⟨s, hrestore, hinit s _ hs⟩, hcontinues.fresh,
          hcontinues.resume⟩
      exact (Lineage.reload ih (hkept.reloads hg hcontinues')).trans hlineage

end Chains

/-! ## How a call ends -/

section Finish

variable {P : Program ν ρ} {H : Host P} {g : CompiledGraph ν ρ} {call : Call (P.env H)}
  {m : ProgramMachine P H}

/-- The call from `m` is over at a loop state, having left `m'`. -/
def Call.Finishes (g : CompiledGraph ν ρ) (call : Call (P.env H)) (m : ProgramMachine P H)
    (ctx : RunContext) (p : LoopState (P.env H) Nat × ProgramMachine P H)
    (m' : ProgramMachine P H) : Prop :=
  ∃ (ds : List (Deed P)) (ws : List (Worked P)), call.Passes g m ctx ds p ∧ call.Leaves g m (ds ++ ws.map .worked) p.1.position ∧
    jobs m' = jobs m ++ works (ds ++ ws.map .worked)

/-- The outcome is that of a position: nothing is left to execute, or its node suspends. -/
inductive Concludes (g : CompiledGraph ν ρ) (q : Position P) : ExecutionOutcome (P.env H) → Prop where
  | completed {report : RunReport (P.env H)} (hl : q.frontier = [])
      (state : report.finalState = q.state) : Concludes g q (.completed report)
  | interrupted {report : InterruptReport (P.env H)} {request : InterruptRequest P.Value}
      {nodePath : NodePath} (h : Suspends P g q request) (state : report.state = q.state)
      (interrupt : report.interrupt = request.intoCheckpoint nodePath) :
      Concludes g q (.interrupted report)

theorem does_leaveLoop {ctx : RunContext} {ls : LoopState (P.env H) Nat} {G : Worked P → Prop} :
    Does G (leaveLoop ctx (.inl ls)) (fun outcome => ∃ report, outcome = .completed report ∧
      report.finalState = ls.state) Outer := by
  unfold leaveLoop
  refine within_seq (does_controlRun (fun _ h => h) _ _ _) ?_
  refine within_seq (does_emit _ _) ?_
  exact within_bind within_get fun _ _ => within_pure ⟨_, rfl, rfl⟩

variable (hg : Compiled g) (hflat : Flat g) (hs : Sound g .all call m)

include hg hflat hs

theorem Call.Reaches.finishes {ctx : RunContext}
    {p : LoopState (P.env H) Nat × ProgramMachine P H} (h : call.Reaches g m ctx p)
    {m' : ProgramMachine P H} (hlogs : Logs (fun _ => False) p.2 m') :
    call.Finishes g m ctx p m' := by
  obtain ⟨ds, hds⟩ := h.passes hg hflat hs
  refine ⟨ds, [], hds, ?_, ?_⟩
  · rw [List.map_nil, List.append_nil]
    exact .standing hds
  · rw [List.map_nil, List.append_nil, hlogs.eq]
    exact hds.logs hg hflat hs

theorem Call.Reaches.halts {ctx : RunContext}
    {p : LoopState (P.env H) Nat × ProgramMachine P H} (h : call.Reaches g m ctx p) {first : Nat}
    {rest : List Nat} (hl : p.1.frontier = first :: rest) {m' : ProgramMachine P H}
    (hhalts : Halts (superstep g.nav ctx p.1 first rest) p.2 m')
    (hlogs : Logs (Works P g p.1.position) p.2 m') : call.Finishes g m ctx p m' := by
  obtain ⟨ds, hds⟩ := h.passes hg hflat hs
  refine ⟨ds, since p.2 m', hds, .during hds hl hhalts (List.prefix_refl _), ?_⟩
  rw [hlogs.since.1, hds.logs hg hflat hs, works_append, works_worked, List.append_assoc]

/-- **How a call ends**: at a position it came to, or before its loop. -/
theorem run_course :
    wp (call.run g)
      (fun outcome m' => ∃ ctx p, call.Finishes g m ctx p m' ∧ Concludes g p.1.position outcome)
      (fun e m' => (call.Refused g e ∧ jobs m' = jobs m) ∨
        ∃ ctx p, call.Finishes g m ctx p m' ∧ Fault g ctx p.1 e) m := by
  rw [Call.run_eq, wp_bind, wp_iff]
  refine ⟨?_, fun e m' he => .inl (wp_of_error (wp_opened hg hflat call m) he)⟩
  rintro ⟨ctx, ls⟩ m₁ henter
  have hentered := wp_of_ok (wp_enter hg hs) henter
  obtain ⟨seed, hnodes, hvalid⟩ := hentered.valid
  obtain ⟨ls₀, ws, ws', hstarts, -, -, hsave, -⟩ := hentered.log
  have hreach : ∀ {q}, Relation.ReflTransGen (Turn g ctx) (ls, m₁) q → call.Reaches g m ctx q :=
    fun hturns => ⟨ls, m₁, henter, hturns⟩
  simp only
  rw [wp_bind, wp_iff]
  have hends := wp_runLoop_ends (p := (ls, m₁)) (placed hg) hnodes hvalid .refl hentered.limit
  refine ⟨fun ended m₂ hloop => ?_, fun e m₂ hloop => ?_⟩
  · obtain ⟨q, hturns, hended⟩ := wp_of_ok hends hloop
    have hq := hreach hturns
    cases hended with
    | done hl =>
      rw [wp_bind]
      refine wp_mono (does_leaveLoop (G := fun _ => False) q.2) (fun outcome m₃ ho => ?_)
        fun e m₃ he => ?_
      · obtain ⟨⟨report, rfl, hstate⟩, hlogs⟩ := ho
        rw [Call.conclude_completed, wp_pure]
        exact ⟨ctx, q, hq.finishes hg hflat hs hlogs, .completed hl hstate⟩
      · exact .inr ⟨ctx, q, hq.finishes hg hflat hs he.2, .outer he.1⟩
    | @suspended first rest report m' hl hsuper =>
      -- a suspension is only reported when checkpointing was on
      have hspec := runLoop_spec (m := m₁) (placed hg) hnodes hentered.fits hvalid
        (fun _ _ => .inl trivial) (.inr hentered.limit)
      obtain ⟨-, ⟨_, hinl, -⟩ | ⟨c, _, ls₂, m₃, -, hc, hturns₂⟩⟩ := wp_of_ok hspec hloop
      · cases hinl
      have henabled : ∃ c, ls₀.checkpoints = .enabled c :=
        hsave.enabled (enabled_of_turns (p := (ls, m₁)) (placed hg) hnodes hvalid hturns₂ ⟨c, hc⟩)
      obtain ⟨hturned, hlogs⟩ := (hq.turned hg hflat hs hl).of_ok hsuper
      rw [leaveLoop, pure_bind, Call.conclude_eq hstarts henabled, wp_pure]
      have hhalts : Halts (superstep g.nav ctx q.1 first rest) q.2 m₂ := by
        unfold Halts wp
        rw [hsuper]
      cases hturned with
      | suspended h hstate hinterrupt =>
        exact ⟨ctx, q, hq.halts hg hflat hs hl hhalts hlogs, .interrupted h hstate hinterrupt⟩
  · obtain ⟨q, hturns, first, rest, hl, hsuper⟩ := wp_of_error hends hloop
    have hq := hreach hturns
    obtain ⟨hfault, hlogs⟩ := (hq.turned hg hflat hs hl).of_error hsuper
    have hhalts : Halts (superstep g.nav ctx q.1 first rest) q.2 m₂ := by
      unfold Halts wp
      rw [hsuper]
    exact .inr ⟨ctx, q, hq.halts hg hflat hs hl hhalts hlogs, hfault⟩

/-! ## Counters -/

/-- Every committed update is one step and one super-step. -/
theorem Call.Passes.counts {ctx : RunContext} {ds : List (Deed P)}
    {p : LoopState (P.env H) Nat × ProgramMachine P H} (h : call.Passes g m ctx ds p) :
    ∃ ls m₁, call.enter g m = .ok (ctx, ls) m₁ ∧
      p.1.steps = ls.steps + (updates ds).length ∧
      p.1.superstep = ls.superstep + (updates ds).length := by
  induction h with
  | @enter ls m₁ h => exact ⟨ls, m₁, h, rfl, rfl⟩
  | @turn ds p q update hds hturn hstep ih =>
    obtain ⟨ls, m₁, henter, hsteps, hsuper⟩ := ih
    obtain ⟨first, rest, hl, hstep'⟩ := hturn
    have hturned := ((hds.reaches.turned hg hflat hs hl).of_ok hstep').1
    cases hturned with
    | committed h steps superstep =>
      have hlen : (updates (ds ++ (since p.2 q.2).map .worked ++ [.committed update])).length =
          (updates ds).length + 1 := by simp
      exact ⟨ls, m₁, henter, by rw [hlen]; omega, by rw [hlen]; omega⟩

end Finish

end GroupAgent.Core
