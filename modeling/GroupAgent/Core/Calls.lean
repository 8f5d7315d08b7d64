import GroupAgent.Core.Loading
import GroupAgent.Core.Saving

/-!
# The calls of a compiled graph

A caller invokes a graph, or resumes, replays or forks a checkpoint. `Call` is any of these, and
`Call.run` is the source's function for it: `invoke_with_control` (`runtime.rs:286-308`),
`invoke_with_checkpoint` (1718-1734), `resume_with_state_initializer` (1069-1327), `replay`
(1334-1518) and `fork` (1524-1715).

* `Call.enter` is everything up to the loop: control points, loading, validation, restoring, the
  creation of a branch. **`wp_enter`** says what loop state a call enters with, from which
  checkpoint, and what it has written by then.
* `Call.Reaches`: the loop states that a call reaches.
* `CallLog` is what a call may have written: nothing, or the creation of its branch and then saves.
* `Fine` is how a call may stop, given what is tolerated of the graph: the panics of a mount beside
  another item are tolerated or not.

Results:
* `wp_prepare`: what a call starts from.
* **`run_spec`** is what every call does: how it can stop, and what it writes.

The statements are about any environment: neither the nodes nor the store are assumed to answer
truthfully. What `run_spec` assumes of a call is that its counters stay in range and that the
frontier it starts from is one of the graph (`Sound`).
-/

namespace GroupAgent.Core

open GroupAgent.Lib

variable {ν ρ : Type} {E : Env ν ρ}

/-- A call of a compiled graph. -/
inductive Call (E : Env ν ρ) where
  | invoke (initialState : E.State) (config : RunConfig) (checkpoints : Option CheckpointConfig)
  | resume (config : ResumeConfig E.Value) (initializer : E.State → Except SourceError E.State)
  | replay (config : ReplayConfig E.Value)
  | fork (config : ForkConfig E.Value)

def Call.config : Call E → RunConfig
  | .invoke _ config _ => config
  | .resume config _ => config.run
  | .replay config => config.run
  | .fork config => config.run

/-- The call, its report reduced to the outcome of the run. -/
def Call.run (g : CompiledGraph ν ρ) : Call E → M E (ExecutionOutcome E)
  | .invoke initialState config none => .completed <$> invokeWithControl g initialState config
  | .invoke initialState config (some checkpoints) =>
    invokeWithCheckpoint g initialState config checkpoints
  | .resume config initializer => resumeWithStateInitializer g config initializer
  | .replay config => (fun report => .completed report.run) <$> Core.replay g config
  | .fork config => ForkReport.outcome <$> Core.fork g config

/-! ## The parts of a call -/

/-- Everything before the loop state is executed. -/
def Call.prepare (g : CompiledGraph ν ρ) : Call E → M E (RunContext × LoopState E Nat)
  | .invoke initialState config none => openInvocation g.nav initialState config .disabled
  | .invoke initialState config (some checkpoints) =>
    openInvocation g.nav initialState config (checkpoints.checkpointing g)
  | .resume config initializer => openResume g config initializer
  | .replay config => openReplay g config
  | .fork config => openFork g config

def Call.savesEmpty : Call E → Bool
  | .invoke _ _ _ => true
  | .resume _ _ => false
  | .replay _ => false
  | .fork _ => false

/-- Everything before the loop. -/
def Call.enter (g : CompiledGraph ν ρ) (call : Call E) : M E (RunContext × LoopState E Nat) := do
  let (ctx, ls) ← call.prepare g
  enterLoop ctx call.savesEmpty ls

/-- What becomes of the outcome of the loop: without checkpointing it cannot be a suspension. -/
def Call.conclude : Call E → ExecutionOutcome E → M E (ExecutionOutcome E)
  | .invoke _ _ none, .interrupted _ =>
    panic (.missing "checkpoint-disabled invocation cannot return an interrupt outcome")
  | .replay _, .interrupted _ => panic (.missing "read-only replay rejects every node interrupt")
  | _, outcome => pure outcome

/-- A call enters the loop, runs it, and concludes. -/
theorem Call.run_eq (g : CompiledGraph ν ρ) (call : Call E) : call.run g = (do
    let (ctx, ls) ← call.enter g
    let ended ← runLoop g.nav ctx (ctx.maxSteps + 1) ls
    let outcome ← leaveLoop ctx ended
    call.conclude outcome) := by
  cases call with
  | invoke initialState config checkpoints =>
    cases checkpoints with
    | none =>
      simp only [Call.run, Call.enter, Call.prepare, Call.savesEmpty, invokeWithControl,
        invokeInternal, execute, bind_assoc, map_bind]
      congr 1; funext _; congr 1; funext _; congr 1; funext _; congr 1; funext outcome
      cases outcome <;> rfl
    | some checkpoints =>
      simp only [Call.run, Call.enter, Call.prepare, Call.savesEmpty, invokeWithCheckpoint,
        invokeInternal, execute, bind_assoc, Call.conclude, bind_pure]
  | resume config initializer =>
    simp only [Call.run, Call.enter, Call.prepare, Call.savesEmpty, resumeWithStateInitializer,
      execute, bind_assoc, Call.conclude, bind_pure]
  | replay config =>
    simp only [Call.run, Call.enter, Call.prepare, Call.savesEmpty, Core.replay, execute,
      bind_assoc, map_bind]
    congr 1; funext _; congr 1; funext _; congr 1; funext _; congr 1; funext outcome
    cases outcome <;> rfl
  | fork config =>
    simp only [Call.run, Call.enter, Call.prepare, Call.savesEmpty, Core.fork, execute,
      bind_assoc, map_bind, Call.conclude, bind_pure, map_pure]

/-! ## Loading -/

section Load

variable {tol : Tolerance} {ctx : RunContext} {g : CompiledGraph ν ρ}

theorem quiet_load {α β : Type} {step : Nat} {read : Future E.World (Except SourceError β)}
    {finish : Except SourceError β → Except GraphRunError α} :
    Quiet (load ctx step read finish) (fun _ => True) (Fine tol) := by
  intro m
  unfold load
  rw [wp_bind]
  refine wp_mono (wp_awaitCall (m := m) step (Q := fun _ m' => m'.writes = m.writes)
    (R := fun _ _ => False) (fun _ _ => rfl) fun w => ?_) ?_ fun _ _ h => h.elim
  · rw [wp_pure]
    exact ⟨fun _ _ => rfl, fun _ _ => rfl⟩
  · intro r m' hw
    have hfail : Quiet (orFail ctx r : M E α) (fun _ => True) (Fine tol) :=
      quiet_orFail ctx fun _ _ => trivial
    refine wp_quiet hfail ?_ ?_
    · exact fun a m'' _ ha hm => ⟨ha, hm.trans hw⟩
    · exact fun e m'' he hm => ⟨he, hm.trans hw⟩

theorem quiet_checkIdentity {threadId : ThreadId} {requested : Option CheckpointId}
    {checkpoint : Checkpoint E.Snapshot E.Value} :
    Quiet (checkIdentity ctx threadId requested checkpoint)
      (fun _ => checkpoint.threadId = threadId ∧ ∀ id ∈ requested, checkpoint.id = id)
      (Fine tol) := by
  unfold checkIdentity
  refine yields_bind (P := fun _ => ∀ id ∈ requested, checkpoint.id = id) ?_ fun _ hid => ?_
  · cases requested with
    | none => exact yields_pure (by simp)
    | some requested =>
      refine yields_bind (P := fun _ => checkpoint.id = requested) ?_ fun _ h => yields_pure ?_
      · simp only
        split
        · exact quiet_fail ctx _
        · rename_i h
          exact yields_pure (by simpa using h)
      · intro id hid
        cases hid
        exact h
  · split
    · exact quiet_fail ctx _
    · rename_i h
      exact yields_pure ⟨by simpa using h, hid⟩

theorem quiet_resolveCheckpoint (hg : Compiled g) {threadId : ThreadId}
    {checkpoint : Checkpoint E.Snapshot E.Value} {resumeValue : Option E.Value} :
    Quiet (resolveCheckpoint g ctx threadId checkpoint resumeValue)
      (fun r => Resolved g checkpoint r.1) (Fine tol) := by
  unfold resolveCheckpoint
  have hu := unreserved hg
  refine yields_bind (P := Resolved g checkpoint) ?_ fun frontier hfrontier => ?_
  · unfold compatibleFrontier
    split
    · rename_i frontier h
      exact yields_pure ((validate_iff hg.indexed hu).mp h)
    · exact quiet_fail ctx _
    · rename_i p h
      exact absurd h (validate_noPanic hg.indexed hu checkpoint p)
  · split
    · exact yields_pure hfrontier
    · exact quiet_fail ctx _
    · exact quiet_fail ctx _
    · exact yields_pure hfrontier

theorem quiet_restored {threadId : ThreadId} {checkpoint : Checkpoint E.Snapshot E.Value}
    {result : Except SourceError E.State} :
    Quiet (restored ctx threadId checkpoint result) (fun state => result = .ok state)
      (Fine tol) :=
  quiet_orFail ctx fun _ h => mapError_eq_ok.mp h

theorem quiet_restoreState {threadId : ThreadId} {checkpoint : Checkpoint E.Snapshot E.Value} :
    Quiet (restoreState ctx threadId checkpoint)
      (fun state => E.restore checkpoint.snapshot = .ok state) (Fine tol) := by
  unfold restoreState
  refine yields_seq (quiet_controlRun _ _ _) ?_
  refine yields_bind quiet_restored fun state hstate => ?_
  refine yields_seq (quiet_controlRun _ _ _) ?_
  exact yields_pure hstate

theorem quiet_reportNamespaces {frontier : List Nat}
    (h : ∀ i ∈ frontier, ∃ n, g.items[i]? = some (.node n)) :
    Quiet (reportNamespaces g ctx frontier : M E Unit) (fun _ => True) (Fine tol) := by
  unfold reportNamespaces
  cases frontier with
  | nil => exact yields_pure trivial
  | cons first rest =>
    refine yields_bind (yields_nodeAt (h first List.mem_cons_self)) fun node _ => ?_
    exact yields_forM fun _ _ => quiet_emit _ _

/-- What a begun run takes over from its configuration. -/
structure Begun (config : RunConfig) (ctx : RunContext) : Prop where
  nodeTimeout : ctx.control.nodeTimeout = config.control.nodeTimeout
  hops : ctx.hops = config.hops

theorem quiet_beginRun {config : RunConfig}
    (hclock : tol.overflow ∨ ClockFits E config.control.runTimeout) :
    Quiet (beginRun config : M E RunContext) (Begun config) (Fine tol) := by
  unfold beginRun
  refine yields_bind (quiet_ask _) fun started hstarted => ?_
  refine yields_bind (quiet_ask _) fun runId _ => ?_
  refine yields_bind (quiet_newControl hclock hstarted) fun control hcontrol => ?_
  refine yields_seq (quiet_emit _ _) ?_
  exact yields_pure ⟨hcontrol, rfl⟩

end Load

/-! ## The checkpoint a call loads -/

/-- The call, made from `m`, loads this checkpoint. -/
def Call.Reads (m : Machine E) (checkpoint : Checkpoint E.Snapshot E.Value) : Call E → Prop
  | .invoke _ _ _ => False
  | .resume config _ => ∃ ctx m', fetchResume config m = .ok (ctx, checkpoint) m'
  | .replay config => ∃ ctx m',
    fetchHistorical config.run config.threadId config.checkpointId m = .ok (ctx, checkpoint) m'
  | .fork config => ∃ ctx m',
    fetchHistorical config.run config.threadId config.checkpointId m = .ok (ctx, checkpoint) m'

/-- A call loads one checkpoint. -/
theorem Call.Reads.unique {call : Call E} {m : Machine E} {c c' : Checkpoint E.Snapshot E.Value}
    (h : call.Reads m c) (h' : call.Reads m c') : c = c' := by
  cases call with
  | invoke initialState config checkpoints => exact h.elim
  | resume config initializer =>
    obtain ⟨ctx, m₁, h⟩ := h
    obtain ⟨ctx', m₁', h'⟩ := h'
    rw [h] at h'
    cases h'
    rfl
  | replay config =>
    obtain ⟨ctx, m₁, h⟩ := h
    obtain ⟨ctx', m₁', h'⟩ := h'
    rw [h] at h'
    cases h'
    rfl
  | fork config =>
    obtain ⟨ctx, m₁, h⟩ := h
    obtain ⟨ctx', m₁', h'⟩ := h'
    rw [h] at h'
    cases h'
    rfl

/-- The loop state a checkpoint is continued from. -/
structure Restored (g : CompiledGraph ν ρ) (threadId : ThreadId)
    (checkpoint : Checkpoint E.Snapshot E.Value) (ls : LoopState E Nat) : Prop where
  thread : checkpoint.threadId = threadId
  resolved : Resolved g checkpoint ls.frontier
  steps : ls.steps = checkpoint.step
  superstep : ls.superstep = checkpoint.superstep

/-- The loop state a call from `m` starts from. -/
def Call.Starts (g : CompiledGraph ν ρ) (m : Machine E) (ls : LoopState E Nat) : Call E → Prop
  | .invoke initialState _ checkpoints =>
    ls.state = initialState ∧ ls.steps = 0 ∧ ls.superstep = 0 ∧
      ls.checkpoints = checkpoints.elim .disabled fun config => config.checkpointing g
  | .resume config initializer => ∃ checkpoint, (Call.resume config initializer).Reads m checkpoint ∧
      Restored g config.threadId checkpoint ls ∧
      ls.checkpoints = config.checkpointing g checkpoint.id
  | .replay config => ∃ checkpoint, (Call.replay config).Reads m checkpoint ∧
      Restored g config.threadId checkpoint ls ∧
      ls.checkpoints = .readOnlyReplay config.threadId config.checkpointId
  | .fork config => ∃ checkpoint, (Call.fork config).Reads m checkpoint ∧
      Restored g config.threadId checkpoint ls ∧ checkpoint.id = config.checkpointId ∧
      ls.checkpoints = config.checkpointing g

/-- What a call writes before the loop: a fork creates its branch. -/
inductive BranchLog : Call E → List (StoreWrite E) → Prop where
  | none {call : Call E} : BranchLog call []
  | branch {config : ForkConfig E.Value} {answer : Option (Except CheckpointWriteError Unit)} :
      BranchLog (.fork config)
        [.createBranch config.threadId config.branchId config.checkpointId answer]

/-- Counters to start from. -/
structure Begins (steps superstep : Nat) : Prop where
  steps_le : steps ≤ usizeMax
  superstep_le : superstep ≤ usizeMax

theorem Begins.room {ctx : RunContext} {steps superstep : Nat} (h : Begins steps superstep)
    (hlimit : ctx.absoluteStepLimit = min (steps + ctx.maxSteps) usizeMax) :
    Room ctx steps superstep where
  steps_le := by
    have := h.steps_le
    omega
  limit_le := by omega
  superstep_le := h.superstep_le

/-- What a call needs: counters in range and a frontier from which only real nodes come to run
together, where it loads them, and, unless it is tolerated, room for its timeouts, and hops enough. -/
structure Sound (g : CompiledGraph ν ρ) (tol : Tolerance) (call : Call E) (m : Machine E) : Prop where
  runClock : tol.overflow ∨ ClockFits E call.config.control.runTimeout
  nodeClock : tol.overflow ∨ ClockFits E call.config.control.nodeTimeout
  hops : HopsFit g tol call.config.hops
  begins : ∀ checkpoint, call.Reads m checkpoint →
    Begins checkpoint.step checkpoint.superstep
  loads : tol.mixed ∨ ∀ checkpoint frontier, call.Reads m checkpoint →
    Resolved g checkpoint frontier → NodesOnly g frontier

section Prepare

variable {g : CompiledGraph ν ρ} {seed : Option (List Nat)} {tol : Tolerance} {m : Machine E}

/-- A loop state ready to be executed. -/
structure Ready (g : CompiledGraph ν ρ) (tol : Tolerance) (call : Call E) (m : Machine E)
    (p : RunContext × LoopState E Nat) : Prop where
  frontier : ∃ seed, Watch g tol seed ∧ Frontier g seed p.2.frontier
  begins : Begins p.2.steps p.2.superstep
  fits : Fits E g tol p.1
  starts : call.Starts g m p.2

/-- A loaded frontier, as what is run together from it. -/
theorem Resolved.frontier {checkpoint : Checkpoint E.Snapshot E.Value} {frontier : List Nat}
    (h : Resolved g checkpoint frontier) (hn : tol.mixed ∨ NodesOnly g frontier) :
    ∃ seed, Watch g tol seed ∧ Frontier g seed frontier := by
  rcases hn with hmixed | hn
  · exact ⟨none, ⟨by simp, .inl hmixed⟩, h.strict, h.scope, by simp [Joint]⟩
  · refine ⟨some frontier, ⟨?_, .inr ⟨_, rfl⟩⟩, h.strict, h.scope, ?_⟩
    · rintro s ⟨⟩
      exact hn
    · rintro i hi j hj hne s ⟨⟩
      exact .seed hi hj hne

theorem Begun.fits {config : RunConfig} {ctx : RunContext} (h : Begun config ctx)
    (hclock : tol.overflow ∨ ClockFits E config.control.nodeTimeout)
    (hhops : HopsFit g tol config.hops) : Fits E g tol ctx where
  clock := by rw [h.nodeTimeout]; exact hclock
  hops := by rw [h.hops]; exact hhops

theorem quiet_openInvocation (hg : Placed g) (hn : Watch g tol seed) {config : RunConfig}
    (hclock : tol.overflow ∨ ClockFits E config.control.runTimeout)
    (hhops : HopsFit g tol config.hops) {initialState : E.State}
    {checkpoints : RuntimeCheckpoint} :
    Quiet (openInvocation g.nav initialState config checkpoints)
      (fun p => Frontier g seed p.2.frontier ∧ Begun config p.1 ∧ p.2.state = initialState ∧
        p.2.steps = 0 ∧ p.2.superstep = 0 ∧ p.2.checkpoints = checkpoints) (Fine tol) := by
  unfold openInvocation
  refine yields_bind (quiet_beginRun hclock) fun ctx hctx => ?_
  have hentry : Targets g seed g.entryIndex.toList := by
    cases he : g.entryIndex with
    | none => exact Targets.nil
    | some entry =>
      obtain ⟨item, hitem, -⟩ := hg.entry entry he
      exact Targets.singleton hitem
  have hstrict : StrictlyBy id g.entryIndex.toList := by
    cases g.entryIndex with
    | none => exact List.Pairwise.nil
    | some entry => exact List.pairwise_singleton _ _
  refine yields_bind (quiet_normalizeFrontier hg hn (hctx.hops ▸ hhops) hentry hstrict) fun start hstart => ?_
  obtain ⟨frontier, boundaries⟩ := start
  refine yields_seq (quiet_emitAll _ _ _) ?_
  refine yields_bind (P := fun _ => True) ?_ fun path _ => ?_
  · unfold initialPath
    cases frontier with
    | nil => exact yields_pure trivial
    | cons first rest =>
      exact yields_map (yields_nodeAt (hstart.node List.mem_cons_self)) fun _ _ => trivial
  · refine yields_seq (quiet_controlRun _ _ _) ?_
    exact yields_pure ⟨hstart, hctx, rfl, rfl, rfl, rfl⟩

theorem quiet_loadTarget {ctx : RunContext} {config : ResumeConfig E.Value} :
    Quiet (loadTarget ctx config) (fun _ => True) (Fine tol) := by
  unfold loadTarget
  cases config.target with
  | checkpoint checkpointId => exact quiet_load
  | latest => exact quiet_load

theorem quiet_checkLatest {ctx : RunContext} {config : ResumeConfig E.Value}
    {checkpoint : Checkpoint E.Snapshot E.Value} :
    Quiet (checkLatest ctx config checkpoint) (fun _ => True) (Fine tol) := by
  unfold checkLatest
  cases config.target with
  | latest => exact yields_pure trivial
  | checkpoint checkpointId =>
    refine yields_bind quiet_load fun latest _ => ?_
    split
    · exact quiet_fail ctx _
    · simp only
      split
      · exact quiet_fail ctx _
      · exact yields_pure trivial

theorem quiet_fetchResume {config : ResumeConfig E.Value}
    (hclock : tol.overflow ∨ ClockFits E config.run.control.runTimeout) :
    Quiet (fetchResume config : M E _) (fun p => Begun config.run p.1 ∧
      p.2.threadId = config.threadId) (Fine tol) := by
  unfold fetchResume
  refine yields_bind (quiet_beginRun hclock) fun ctx hctx => ?_
  refine yields_seq (quiet_controlRun _ _ _) ?_
  refine yields_bind quiet_loadTarget fun checkpoint _ => ?_
  refine yields_bind quiet_checkIdentity fun _ hthread => ?_
  refine yields_seq quiet_checkLatest ?_
  exact yields_pure ⟨hctx, hthread.1⟩

theorem wp_openResume (hg : Compiled g) {config : ResumeConfig E.Value}
    {initializer : E.State → Except SourceError E.State}
    (hs : Sound g tol (.resume config initializer) m) :
    wp (openResume g config initializer)
      (fun p m' => Ready g tol (.resume config initializer) m p ∧ m'.writes = m.writes)
      (fun e m' => Fine tol e ∧ m'.writes = m.writes) m := by
  unfold openResume
  rw [wp_bind]
  refine wp_quiet (quiet_fetchResume hs.runClock) ?_ fun e m' he hm => ⟨he, hm⟩
  rintro ⟨ctx, checkpoint⟩ m₁ hfetch ⟨hctx, hthread⟩ hm₁
  have hread : (Call.resume config initializer).Reads m checkpoint := ⟨ctx, m₁, hfetch⟩
  have hresolve : Quiet (resolveCheckpoint g ctx config.threadId checkpoint config.resumeValue)
      (fun r => Resolved g checkpoint r.1) (Fine tol) := quiet_resolveCheckpoint hg
  refine wp_bind_quiet hresolve (fun resolved m₂ hresolved hm₂ => ?_)
    fun e m' he hm => ⟨he, hm.trans hm₁⟩
  have hframe := hresolved.frontier (hs.loads.imp_right fun h => h checkpoint resolved.1 hread hresolved)
  have hfrontier : ∀ i ∈ resolved.1, ∃ n, g.items[i]? = some (.node n) := by
    obtain ⟨seed, -, hf⟩ := hframe
    exact fun i hi => hf.node hi
  have hrest : ∀ (state : E.State), Quiet (do
      controlRun ctx none checkpoint.step
      emit ctx.events (.runResumed ctx.runId config.threadId checkpoint.id checkpoint.step
        checkpoint.superstep)
      config.branchId.toList.forM fun branchId =>
        emit ctx.events (.branchResumed ctx.runId config.threadId branchId checkpoint.id
          checkpoint.step checkpoint.superstep)
      reportNamespaces g ctx resolved.1
      pure (ctx, restoredLoop checkpoint state resolved.1 resolved.2 config.resumeValue
        (config.checkpointing g checkpoint.id)) : M E _)
      (Ready g tol (.resume config initializer) m) (Fine tol) := by
    intro state
    refine yields_seq (quiet_controlRun _ _ _) ?_
    refine yields_seq (quiet_emit _ _) ?_
    refine yields_seq (yields_forM fun _ _ => quiet_emit _ _) ?_
    refine yields_seq (quiet_reportNamespaces hfrontier) ?_
    refine yields_pure ⟨hframe, ?_, ?_, ?_⟩
    · exact hs.begins checkpoint hread
    · exact hctx.fits hs.nodeClock hs.hops
    · exact ⟨checkpoint, hread, ⟨hthread, hresolved, rfl, rfl⟩, rfl⟩
  have hw : m₂.writes = m.writes := hm₂.trans hm₁
  refine wp_bind_quiet (S := Fine tol) quiet_restoreState (fun state m₃ _ hm₃ => ?_)
    fun e m' he hm => ⟨he, hm.trans hw⟩
  refine wp_bind_quiet (S := Fine tol) quiet_restored (fun state m₄ _ hm₄ => ?_)
    fun e m' he hm => ⟨he, hm.trans (hm₃.trans hw)⟩
  have hw₄ : m₄.writes = m.writes := hm₄.trans (hm₃.trans hw)
  refine wp_quiet (hrest state) ?_ ?_
  · exact fun p m' _ hp hm => ⟨hp, hm.trans hw₄⟩
  · exact fun e m' he hm => ⟨he, hm.trans hw₄⟩

/-- What a historical checkpoint is loaded as, from `m`. -/
structure Loaded (g : CompiledGraph ν ρ) (run : RunConfig) (threadId : ThreadId)
    (checkpointId : CheckpointId) (m : Machine E) (h : Historical E) : Prop where
  begun : Begun run h.ctx
  fetched : ∃ ctx m', fetchHistorical run threadId checkpointId m = .ok (ctx, h.checkpoint) m'
  thread : h.checkpoint.threadId = threadId
  id : h.checkpoint.id = checkpointId
  resolved : Resolved g h.checkpoint h.frontier

theorem quiet_fetchHistorical {run : RunConfig} {threadId : ThreadId} {checkpointId : CheckpointId}
    (hclock : tol.overflow ∨ ClockFits E run.control.runTimeout) :
    Quiet (fetchHistorical run threadId checkpointId : M E _) (fun p => Begun run p.1 ∧
      p.2.threadId = threadId ∧ p.2.id = checkpointId) (Fine tol) := by
  unfold fetchHistorical
  refine yields_bind (quiet_beginRun hclock) fun ctx hctx => ?_
  refine yields_seq (quiet_controlRun _ _ _) ?_
  refine yields_bind (P := fun _ => True) quiet_load fun checkpoint _ => ?_
  refine yields_bind quiet_checkIdentity fun _ hidentity => ?_
  exact yields_pure ⟨hctx, hidentity.1, hidentity.2 _ rfl⟩

theorem wp_loadHistorical (hg : Compiled g) {run : RunConfig} {threadId : ThreadId}
    {checkpointId : CheckpointId} {resumeValue : Option E.Value}
    (hclock : tol.overflow ∨ ClockFits E run.control.runTimeout) :
    wp (loadHistorical g run threadId checkpointId resumeValue)
      (fun h m' => Loaded g run threadId checkpointId m h ∧ m'.writes = m.writes)
      (fun e m' => Fine tol e ∧ m'.writes = m.writes) m := by
  unfold loadHistorical
  rw [wp_bind]
  refine wp_quiet (quiet_fetchHistorical hclock) ?_ fun e m' he hm => ⟨he, hm⟩
  rintro ⟨ctx, checkpoint⟩ m₁ hfetch ⟨hctx, hthread, hid⟩ hm₁
  refine wp_bind_quiet (S := Fine tol) (quiet_resolveCheckpoint hg) (fun resolved m₂ hresolved hm₂ => ?_)
    fun e m' he hm => ⟨he, hm.trans hm₁⟩
  refine wp_bind_quiet (S := Fine tol) quiet_restoreState (fun state m₃ _ hm₃ => ?_)
    fun e m' he hm => ⟨he, hm.trans (hm₂.trans hm₁)⟩
  refine ⟨⟨hctx, ⟨ctx, m₁, hfetch⟩, hthread, hid, hresolved⟩, hm₃.trans (hm₂.trans hm₁)⟩

theorem quiet_historicalStart (tol : Tolerance) {h : Historical E}
    (hf : ∀ i ∈ h.frontier, ∃ n, g.items[i]? = some (.node n))
    {event : GraphEvent} {resumeValue : Option E.Value} {checkpoints : RuntimeCheckpoint} :
    Quiet (h.start g event resumeValue checkpoints) (fun p => p.1 = h.ctx ∧ p.2 =
      restoredLoop h.checkpoint h.state h.frontier h.resumeNode resumeValue checkpoints)
      (Fine tol) := by
  unfold Historical.start
  refine yields_seq (quiet_emit _ _) ?_
  refine yields_seq (quiet_reportNamespaces hf) ?_
  exact yields_pure ⟨rfl, rfl⟩

theorem wp_openReplay (hg : Compiled g) {config : ReplayConfig E.Value}
    (hs : Sound g tol (.replay config) m) :
    wp (openReplay g config)
      (fun p m' => Ready g tol (.replay config) m p ∧ m'.writes = m.writes)
      (fun e m' => Fine tol e ∧ m'.writes = m.writes) m := by
  unfold openReplay
  rw [wp_bind]
  refine wp_mono (wp_loadHistorical hg hs.runClock) ?_ fun _ _ h => h
  rintro h m₁ ⟨hload, hm₁⟩
  have hframe := hload.resolved.frontier
    (hs.loads.imp_right fun hn => hn h.checkpoint h.frontier hload.fetched hload.resolved)
  have hfrontier : ∀ i ∈ h.frontier, ∃ n, g.items[i]? = some (.node n) := by
    obtain ⟨seed, -, hf⟩ := hframe
    exact fun i hi => hf.node hi
  refine wp_quiet (quiet_historicalStart tol hfrontier) ?_ fun e m' he hm => ⟨he, hm.trans hm₁⟩
  rintro ⟨ctx, ls⟩ m' - ⟨rfl, rfl⟩ hm
  refine ⟨⟨hframe, ?_, ?_, ?_⟩, hm.trans hm₁⟩
  · exact hs.begins h.checkpoint hload.fetched
  · exact hload.begun.fits hs.nodeClock hs.hops
  · exact ⟨h.checkpoint, hload.fetched, ⟨hload.thread, hload.resolved, rfl, rfl⟩, rfl⟩

theorem wp_createBranch (tol : Tolerance) {ctx : RunContext} {config : ForkConfig E.Value} {step : Nat} :
    wp (createBranch ctx config step)
      (fun _ m' => ∃ ws, BranchLog (.fork config) ws ∧ m'.writes = m.writes ++ ws)
      (fun e m' => Fine tol e ∧ ∃ ws, BranchLog (.fork config) ws ∧ m'.writes = m.writes ++ ws)
      m := by
  have hnone : ∃ ws, BranchLog (.fork config) ws ∧ m.writes = m.writes ++ ws :=
    ⟨[], .none, (List.append_nil _).symm⟩
  unfold createBranch
  rw [wp_bind]
  refine wp_mono (wp_awaitCall (m := m) step (Q := fun _ m' => ∃ ws, BranchLog (.fork config) ws ∧
    m'.writes = m.writes ++ ws) (R := fun _ _ => False) (fun _ _ => hnone) fun w => ?_) ?_
    fun _ _ h => h.elim
  · rw [wp_pure]
    refine ⟨fun error w => ?_, fun answer w => ?_⟩
    · exact ⟨_, .branch, rfl⟩
    · exact ⟨_, .branch, rfl⟩
  · rintro r m' ⟨ws, hlog, hw⟩
    have hfail : Quiet (orFail ctx r : M E Unit) (fun _ => True) (Fine tol) :=
      quiet_orFail ctx fun _ _ => trivial
    refine wp_quiet hfail ?_ ?_
    · exact fun a m'' _ _ hm => ⟨ws, hlog, hm.trans hw⟩
    · exact fun e m'' he hm => ⟨he, ws, hlog, hm.trans hw⟩

theorem wp_openFork (hg : Compiled g) {config : ForkConfig E.Value}
    (hs : Sound g tol (.fork config) m) :
    wp (openFork g config)
      (fun p m' => Ready g tol (.fork config) m p ∧
        ∃ ws, BranchLog (.fork config) ws ∧ m'.writes = m.writes ++ ws)
      (fun e m' => Fine tol e ∧ ∃ ws, BranchLog (.fork config) ws ∧ m'.writes = m.writes ++ ws)
      m := by
  unfold openFork
  rw [wp_bind]
  refine wp_mono (wp_loadHistorical hg hs.runClock) ?_
    fun e m' he => ⟨he.1, [], .none, by rw [he.2, List.append_nil]⟩
  rintro h m₁ ⟨hload, hm₁⟩
  have hframe := hload.resolved.frontier
    (hs.loads.imp_right fun hn => hn h.checkpoint h.frontier hload.fetched hload.resolved)
  have hfrontier : ∀ i ∈ h.frontier, ∃ n, g.items[i]? = some (.node n) := by
    obtain ⟨seed, -, hf⟩ := hframe
    exact fun i hi => hf.node hi
  rw [wp_bind]
  refine wp_mono (wp_createBranch tol) (fun _ m₂ hbranch => ?_) fun e m' hstop => ?_
  · obtain ⟨ws, hlog, hw⟩ := hbranch
    rw [hm₁] at hw
    refine wp_quiet (quiet_historicalStart tol hfrontier) ?_ fun e m' he hm =>
      ⟨he, ws, hlog, hm.trans hw⟩
    rintro ⟨ctx, ls⟩ m' - ⟨rfl, rfl⟩ hm
    refine ⟨⟨hframe, ?_, ?_, ?_⟩, ws, hlog, hm.trans hw⟩
    · exact hs.begins h.checkpoint hload.fetched
    · exact hload.begun.fits hs.nodeClock hs.hops
    · exact ⟨h.checkpoint, hload.fetched, ⟨hload.thread, hload.resolved, rfl, rfl⟩, hload.id, rfl⟩
  · rw [hm₁] at hstop
    exact hstop

/-- **What a call starts from.** -/
theorem wp_prepare (hg : Compiled g) {call : Call E} (hs : Sound g tol call m) :
    wp (call.prepare g)
      (fun p m' => Ready g tol call m p ∧ ∃ ws, BranchLog call ws ∧ m'.writes = m.writes ++ ws)
      (fun e m' => Fine tol e ∧ ∃ ws, BranchLog call ws ∧ m'.writes = m.writes ++ ws) m := by
  have hquiet : ∀ {x : M E (RunContext × LoopState E Nat)},
      wp x (fun p m' => Ready g tol call m p ∧ m'.writes = m.writes)
        (fun e m' => Fine tol e ∧ m'.writes = m.writes) m →
      wp x (fun p m' => Ready g tol call m p ∧ ∃ ws, BranchLog call ws ∧ m'.writes = m.writes ++ ws)
        (fun e m' => Fine tol e ∧ ∃ ws, BranchLog call ws ∧ m'.writes = m.writes ++ ws) m :=
    fun h => wp_mono h (fun p m' hp => ⟨hp.1, [], .none, by rw [hp.2, List.append_nil]⟩)
      fun e m' he => ⟨he.1, [], .none, by rw [he.2, List.append_nil]⟩
  cases call with
  | invoke initialState config checkpoints =>
    have hready : ∀ k : RuntimeCheckpoint,
        k = checkpoints.elim .disabled (fun config => config.checkpointing g) →
        Quiet (openInvocation g.nav initialState config k)
          (Ready g tol (.invoke initialState config checkpoints) m) (Fine tol) := by
      rintro k rfl
      have hnodes : Watch g tol (some []) := by
        refine ⟨?_, .inr ⟨_, rfl⟩⟩
        rintro s ⟨⟩
        exact together_nodes hg
      refine yields_mono (quiet_openInvocation (placed hg) hnodes hs.runClock hs.hops) ?_ fun _ h => h
      rintro ⟨ctx, ls⟩ ⟨hfrontier, hbegun, hstate, hsteps, hsuper, hk⟩
      refine ⟨⟨some [], hnodes, hfrontier⟩, ?_, ?_, hstate, hsteps, hsuper, hk⟩
      · simp only at hsteps hsuper
        simp only [hsteps, hsuper]
        exact ⟨Nat.zero_le _, Nat.zero_le _⟩
      · exact hbegun.fits hs.nodeClock hs.hops
    cases checkpoints with
    | none => exact hquiet (hready _ rfl m)
    | some config => exact hquiet (hready _ rfl m)
  | resume config initializer => exact hquiet (wp_openResume hg hs)
  | replay config => exact hquiet (wp_openReplay hg hs)
  | fork config => exact wp_openFork hg hs

end Prepare

/-! ## Entering the loop -/

section Enter

variable {g : CompiledGraph ν ρ} {tol : Tolerance} {m : Machine E}

/-- What a call writes between its preparation and the loop: an invocation of a graph with nothing
to execute saves that. -/
inductive EnterLog (savesEmpty : Bool) (runId : RunId) (ls : LoopState E Nat) :
    Option RuntimeCheckpoint → List (StoreWrite E) → Prop where
  | nothing : EnterLog savesEmpty runId ls (some ls.checkpoints) []
  | empty {c : EnabledCheckpoint} {out : Option (Checkpoint E.Snapshot E.Value)}
      {ws : List (StoreWrite E)} (hflag : savesEmpty = true) (hc : ls.checkpoints = .enabled c)
      (hl : ls.frontier = [])
      (hlog : SaveLog c runId ls.state ⟨ls.superstep, ls.steps, [], true, none⟩ out ws) :
      EnterLog savesEmpty runId ls (out.map fun chk => .enabled (c.after chk.id)) ws

theorem wp_saveEmpty (tol : Tolerance) {ctx : RunContext} {flag : Bool} {ls : LoopState E Nat} :
    wp (saveEmpty ctx flag ls)
      (fun k m' => ∃ ws, EnterLog flag ctx.runId ls (some k) ws ∧ m'.writes = m.writes ++ ws)
      (fun e m' => Fine tol e ∧ ∃ k ws, EnterLog flag ctx.runId ls k ws ∧
        m'.writes = m.writes ++ ws) m := by
  unfold saveEmpty
  split
  · rename_i hcond
    simp only [Bool.and_eq_true, List.isEmpty_iff] at hcond
    obtain ⟨⟨hflag, hl⟩, hsave⟩ := hcond
    cases hc : ls.checkpoints with
    | disabled => rw [hc] at hsave; cases hsave
    | readOnlyReplay _ _ => rw [hc] at hsave; cases hsave
    | enabled c =>
      rw [wp_bind]
      refine wp_mono (wp_saveBoundary tol) (fun r m' hr => ?_) ?_
      · obtain ⟨chk, ws, hlog, hw, rfl⟩ := hr
        exact ⟨ws, .empty hflag hc hl hlog, hw⟩
      · rintro e m' ⟨he, ws, hlog, hw⟩
        exact ⟨he, _, ws, .empty hflag hc hl hlog, hw⟩
  · exact ⟨[], .nothing, (List.append_nil _).symm⟩

/-- What a call enters the loop with. -/
structure Entered (g : CompiledGraph ν ρ) (tol : Tolerance) (call : Call E) (m : Machine E)
    (p : RunContext × LoopState E Nat) (m' : Machine E) : Prop where
  valid : ∃ seed, Watch g tol seed ∧ Valid g seed p.1 p.2
  fits : Fits E g tol p.1
  limit : p.1.absoluteStepLimit - p.2.steps < p.1.maxSteps + 1
  log : ∃ ls ws ws', call.Starts g m ls ∧ p.2 = { ls with checkpoints := p.2.checkpoints } ∧
    BranchLog call ws ∧ EnterLog call.savesEmpty p.1.runId ls (some p.2.checkpoints) ws' ∧
    m'.writes = m.writes ++ (ws ++ ws')

/-- What a call that does not get to the loop has written. -/
inductive OpenLog (g : CompiledGraph ν ρ) (call : Call E) (m : Machine E) :
    List (StoreWrite E) → Prop where
  | opening {ws : List (StoreWrite E)} (hbranch : BranchLog call ws) : OpenLog g call m ws
  | entering {runId : RunId} {ls : LoopState E Nat} {k : Option RuntimeCheckpoint}
      {ws ws' : List (StoreWrite E)} (hstarts : call.Starts g m ls) (hbranch : BranchLog call ws)
      (henter : EnterLog call.savesEmpty runId ls k ws') : OpenLog g call m (ws ++ ws')

/-- **What a call enters the loop with.** -/
theorem wp_enter (hg : Compiled g) {call : Call E} (hs : Sound g tol call m) :
    wp (call.enter g) (fun p m' => Entered g tol call m p m')
      (fun e m' => Fine tol e ∧ ∃ ws, OpenLog g call m ws ∧ m'.writes = m.writes ++ ws) m := by
  unfold Call.enter
  rw [wp_bind]
  refine wp_mono (wp_prepare hg hs) ?_ fun e m' ⟨he, ws, hbranch, hw⟩ => ⟨he, ws, .opening hbranch, hw⟩
  rintro ⟨ctx, ls⟩ m₁ ⟨hready, ws, hbranch, hw⟩
  simp only [enterLoop]
  rw [wp_bind]
  refine wp_mono (wp_saveEmpty tol) (fun k m₂ hk => ?_) fun e m₂ he => ?_
  · obtain ⟨ws', henter, hw'⟩ := hk
    rw [wp_pure]
    obtain ⟨seed, hnodes, hfrontier⟩ := hready.frontier
    refine ⟨⟨seed, hnodes, hfrontier, Begins.room hready.begins rfl⟩,
      ⟨hready.fits.clock, hready.fits.hops⟩, ?_, ls, ws, ws', hready.starts, rfl, hbranch, henter, ?_⟩
    · simp only
      omega
    · rw [hw', hw, List.append_assoc]
  · obtain ⟨hfine, k, ws', henter, hw'⟩ := he
    exact ⟨hfine, _, .entering hready.starts hbranch henter, by rw [hw', hw, List.append_assoc]⟩

end Enter

/-! ## The whole call -/

section Run

variable {g : CompiledGraph ν ρ} {tol : Tolerance} {m : Machine E}

/-- The loop states a call reaches from a machine, with the machine there. -/
def Call.Reaches (g : CompiledGraph ν ρ) (call : Call E) (m : Machine E) (ctx : RunContext)
    (p : LoopState E Nat × Machine E) : Prop :=
  ∃ ls m₁, call.enter g m = .ok (ctx, ls) m₁ ∧ Relation.ReflTransGen (Turn g ctx) (ls, m₁) p

/-- Every loop state of a call is valid. -/
theorem Call.Reaches.valid (hg : Compiled g) {call : Call E} (hs : Sound g tol call m)
    {ctx : RunContext} {p : LoopState E Nat × Machine E} (h : call.Reaches g m ctx p) :
    ∃ seed, Watch g tol seed ∧ Valid g seed ctx p.1 := by
  obtain ⟨ls, m₁, henter, hturns⟩ := h
  have hentered := wp_of_ok (wp_enter hg hs) henter
  obtain ⟨seed, hnodes, hvalid⟩ := hentered.valid
  exact ⟨seed, hnodes, Valid.turns (p := (ls, m₁)) (placed hg) hnodes hvalid hturns⟩

theorem EnterLog.alike {flag : Bool} {runId : RunId} {ls : LoopState E Nat} {k : RuntimeCheckpoint}
    {ws : List (StoreWrite E)} (h : EnterLog flag runId ls (some k) ws) :
    ls.checkpoints.Alike k := by
  generalize hk : some k = out at h
  cases h with
  | nothing =>
    obtain rfl := Option.some.inj hk
    exact .refl _
  | empty _ hc =>
    obtain ⟨chk, -, rfl⟩ := Option.map_eq_some_iff.mp hk.symm
    rw [hc]
    exact .enabled _ _

/-- The loop states of a call checkpoint as the call does. -/
theorem Call.Reaches.mode (hg : Compiled g) {call : Call E} (hs : Sound g tol call m)
    {ctx : RunContext} {p : LoopState E Nat × Machine E} (h : call.Reaches g m ctx p) :
    ∃ ls, call.Starts g m ls ∧ ls.checkpoints.Alike p.1.checkpoints := by
  obtain ⟨ls, m₁, henter, hturns⟩ := h
  have hentered := wp_of_ok (wp_enter hg hs) henter
  obtain ⟨seed, hnodes, hvalid⟩ := hentered.valid
  obtain ⟨ls₀, ws, ws', hstarts, -, -, hsave, -⟩ := hentered.log
  have halike := alike_of_turns (p := (ls, m₁)) (placed hg) hnodes hvalid hturns
  exact ⟨ls₀, hstarts, hsave.alike.trans halike⟩

/-- What a call writes. -/
inductive CallLog (g : CompiledGraph ν ρ) (call : Call E) (m : Machine E) :
    List (StoreWrite E) → Prop where
  | opening {ws : List (StoreWrite E)} (h : OpenLog g call m ws) : CallLog g call m ws
  | looping {ctx : RunContext} {ls ls' : LoopState E Nat} {m₁ : Machine E}
      {ws ws' ws'' : List (StoreWrite E)} (hstarts : call.Starts g m ls)
      (henter : call.enter g m = .ok (ctx, ls') m₁)
      (hls : ls' = { ls with checkpoints := ls'.checkpoints }) (hbranch : BranchLog call ws)
      (hsave : EnterLog call.savesEmpty ctx.runId ls (some ls'.checkpoints) ws')
      (hloop : LoopAdds g ctx ls' m₁ ws'') : CallLog g call m (ws ++ ws' ++ ws'')

/-- A call that starts with checkpointing can report a suspension. -/
theorem Call.conclude_eq {call : Call E} {ls : LoopState E Nat} (hstarts : call.Starts g m ls)
    (h : ∃ c, ls.checkpoints = .enabled c) (outcome : ExecutionOutcome E) :
    call.conclude outcome = pure outcome := by
  obtain ⟨c, hc⟩ := h
  cases call with
  | invoke initialState config checkpoints =>
    cases checkpoints with
    | none => rw [hstarts.2.2.2] at hc; cases hc
    | some checkpoints => rfl
  | resume config initializer => rfl
  | replay config =>
    obtain ⟨_, _, _, hk⟩ := hstarts
    rw [hk] at hc
    cases hc
  | fork config => rfl

theorem Call.conclude_completed (call : Call E) (report : RunReport E) :
    call.conclude (.completed report) = pure (.completed report) := by
  cases call with
  | invoke initialState config checkpoints => cases checkpoints <;> rfl
  | resume config initializer => rfl
  | replay config => rfl
  | fork config => rfl

theorem EnterLog.enabled {flag : Bool} {runId : RunId} {ls : LoopState E Nat}
    {k : RuntimeCheckpoint} {ws : List (StoreWrite E)} (h : EnterLog flag runId ls (some k) ws)
    (hk : ∃ c, k = .enabled c) : ∃ c, ls.checkpoints = .enabled c := by
  generalize hk' : some k = k' at h
  cases h with
  | nothing =>
    cases hk'
    exact hk
  | empty _ hc => exact ⟨_, hc⟩

/-- **Every call**: it stops finely, having written what a call writes. -/
theorem run_spec (hg : Compiled g) {call : Call E} (hs : Sound g tol call m)
    (hcounts : ∀ ctx p, call.Reaches g m ctx p → Counts tol p.1) :
    wp (call.run g) (fun _ m' => ∃ ws, CallLog g call m ws ∧ m'.writes = m.writes ++ ws)
      (fun e m' => Fine tol e ∧ ∃ ws, CallLog g call m ws ∧ m'.writes = m.writes ++ ws) m := by
  rw [Call.run_eq, wp_bind, wp_iff]
  refine ⟨?_, fun e m' he => ?_⟩
  · rintro ⟨ctx, ls'⟩ m₁ henter
    have hentered := wp_of_ok (wp_enter hg hs) henter
    obtain ⟨ls, ws, ws', hstarts, hls, hbranch, hsave, hw⟩ := hentered.log
    obtain ⟨seed, hnodes, hvalid⟩ := hentered.valid
    simp only
    rw [wp_bind]
    refine wp_mono (runLoop_spec (m := m₁) (placed hg) hnodes hentered.fits hvalid
      (fun q hq => hcounts ctx q ⟨_, _, henter, hq⟩) (.inr hentered.limit)) ?_ ?_
    · rintro ended m₂ ⟨⟨ws'', hloop, hw''⟩, hend⟩
      have hlog : CallLog g call m (ws ++ ws' ++ ws'') :=
        .looping hstarts henter hls hbranch hsave hloop
      have hwrites : m₂.writes = m.writes ++ (ws ++ ws' ++ ws'') := by
        rw [hw'', hw]
        simp only [List.append_assoc]
      rcases hend with ⟨ls₂, rfl, -, -⟩ | ⟨c, report, ls₂, m₃, rfl, hc, hturns⟩
      · have hquiet : Quiet (leaveLoop ctx (.inl ls₂) >>= call.conclude) (fun _ => True)
            (Fine tol) := by
          unfold leaveLoop
          rw [bind_assoc]
          refine yields_seq (quiet_controlRun _ _ _) ?_
          rw [bind_assoc]
          refine yields_seq (quiet_emit _ _) ?_
          rw [bind_assoc]
          intro m₄
          rw [wp_bind, wp_get, pure_bind, Call.conclude_completed]
          exact ⟨trivial, rfl⟩
        refine wp_quiet hquiet (fun _ m₄ _ _ hm => ⟨_, hlog, hm.trans hwrites⟩) ?_
        exact fun e m₄ he hm => ⟨he, _, hlog, hm.trans hwrites⟩
      · have henabled : ∃ c, ls.checkpoints = .enabled c :=
          hsave.enabled (enabled_of_turns (p := (ls', m₁)) (placed hg) hnodes hvalid hturns
            ⟨c, hc⟩)
        rw [leaveLoop, pure_bind, Call.conclude_eq hstarts henabled, wp_pure]
        exact ⟨_, hlog, hwrites⟩
    · rintro e m₂ ⟨he, ws'', hloop, hw''⟩
      refine ⟨he, _, .looping hstarts henter hls hbranch hsave hloop, ?_⟩
      rw [hw'', hw]
      simp only [List.append_assoc]
  · obtain ⟨hfine, ws, hopen, hw⟩ := wp_of_error (wp_enter hg hs) he
    exact ⟨hfine, ws, .opening hopen, hw⟩

end Run

end GroupAgent.Core
