import GroupAgent.Core.Sustained

/-!
# What a call starts from

Everything a call does before its loop (`runtime.rs:310-367`, 1069-1715 up to `execute_internal`),
over any relation that its steps keep.

* `Call.Lands`: the loop state a call starts from. A resume value goes to the one node that was
  interrupted, or there is none.
* `Call.Quits`: how a call stops before its loop. A value that is missing, or one that nobody asked
  for, is only found here.
* The relation is a parameter (`Steady`), so each use decides what it wants to know of the steps
  before the loop: that they write nothing, that they were seen, or that nobody saw a value.

Results: **`Steady.prepare`** puts them together, and `Steady.enter` adds the save of an empty
boundary that an invocation may make.

The checks come in the order of the source: control, loading, identity, thread, head of the branch,
frontier, resume value, control, state.
-/

namespace GroupAgent.Core

open GroupAgent.Lib

variable {ν ρ : Type} {E : Env ν ρ}

/-- Of a stop nothing is asked. -/
theorem stops_any : ∀ e, Plain e → (fun _ : Stop => True) e := fun _ _ => trivial

/-! ## Starting states -/

/-- The value a call supplies for a suspended node. -/
def Call.supplied : Call E → Option E.Value
  | .invoke _ _ _ => none
  | .resume config _ => config.resumeValue
  | .replay config => config.resumeValue
  | .fork config => config.resumeValue

/-- The loop state a checkpoint is continued from, with the value supplied. -/
structure Continued (g : CompiledGraph ν ρ) (checkpoint : Checkpoint E.Snapshot E.Value)
    (value : Option E.Value) (ls : LoopState E Nat) : Prop where
  answered : Answered g checkpoint value (ls.frontier, ls.resumeNode)
  value : ls.resumeValue = value
  steps : ls.steps = checkpoint.step
  superstep : ls.superstep = checkpoint.superstep

/-- The loop state that a call from `m` starts from. -/
inductive Call.Lands (g : CompiledGraph ν ρ) (m : Machine E) : Call E → LoopState E Nat → Prop where
  | invoke {initialState : E.State} {config : RunConfig} {checkpoints : Option CheckpointConfig}
      {ls : LoopState E Nat} (resumeNode : ls.resumeNode = none) (steps : ls.steps = 0)
      (superstep : ls.superstep = 0) : Call.Lands g m (.invoke initialState config checkpoints) ls
  | load {call : Call E} {checkpoint : Checkpoint E.Snapshot E.Value} {ls : LoopState E Nat}
      (hread : call.Reads m checkpoint) (continued : Continued g checkpoint call.supplied ls) :
      Call.Lands g m call ls

/-- What a call takes over from its configuration, and the loop state it starts from. -/
structure Landed (g : CompiledGraph ν ρ) (m : Machine E) (call : Call E)
    (p : RunContext × LoopState E Nat) : Prop where
  begun : Begun call.config p.1
  maxSteps : p.1.maxSteps = call.config.maxSteps
  lands : call.Lands g m p.2

/-- What the checkpoint of a replay or a fork is loaded as. -/
structure Located (g : CompiledGraph ν ρ) (m : Machine E) (call : Call E) (h : Historical E) :
    Prop where
  begun : Begun call.config h.ctx
  maxSteps : h.ctx.maxSteps = call.config.maxSteps
  hread : call.Reads m h.checkpoint
  answered : Answered g h.checkpoint call.supplied (h.frontier, h.resumeNode)

/-- Only the limit and the checkpointing change when the loop is entered. -/
theorem Landed.enter {g : CompiledGraph ν ρ} {m : Machine E} {call : Call E} {ctx : RunContext}
    {ls : LoopState E Nat} (h : Landed g m call (ctx, ls)) (limit : Nat)
    (checkpoints : RuntimeCheckpoint) :
    Landed g m call ({ ctx with absoluteStepLimit := limit }, { ls with checkpoints }) where
  begun := ⟨h.begun.nodeTimeout, h.begun.hops⟩
  maxSteps := h.maxSteps
  lands := by
    cases h.lands with
    | invoke hnode hsteps hsuper => exact .invoke hnode hsteps hsuper
    | load hread hcontinued =>
      exact .load hread ⟨hcontinued.answered, hcontinued.value, hcontinued.steps, hcontinued.superstep⟩

theorem Located.landed {g : CompiledGraph ν ρ} {m : Machine E} {call : Call E} {h : Historical E}
    (hl : Located g m call h) (checkpoints : RuntimeCheckpoint) : Landed g m call (h.ctx,
      restoredLoop h.checkpoint h.state h.frontier h.resumeNode call.supplied checkpoints) where
  begun := hl.begun
  maxSteps := hl.maxSteps
  lands := .load hl.hread ⟨hl.answered, rfl, rfl, rfl⟩

/-- How a call from `m` stops before its loop. -/
inductive Call.Quits (g : CompiledGraph ν ρ) (m : Machine E) (call : Call E) : Stop → Prop where
  | plain {e : Stop} (h : Plain e) : Call.Quits g m call e
  | clock (h : BeginsLate m call.config) : Call.Quits g m call (.panic .instantOverflow)
  | invalid {checkpoint : Checkpoint E.Snapshot E.Value} {p : Panic}
      (hread : call.Reads m checkpoint)
      (h : g.validateAndResolveCheckpointFrontier checkpoint = .error (.panic p)) :
      Call.Quits g m call (.panic p)
  | missing {checkpoint : Checkpoint E.Snapshot E.Value} {frontier : List Nat} {runId : RunId}
      {threadId : ThreadId} {interrupt : CheckpointInterrupt E.Value}
      (hread : call.Reads m checkpoint)
      (hresolved : g.validateAndResolveCheckpointFrontier checkpoint = .ok frontier)
      (hinterrupt : checkpoint.interrupt = some interrupt) (hvalue : call.supplied = none) :
      Call.Quits g m call (.error (.missingResumeValue runId threadId checkpoint.id interrupt.id
        interrupt.nodePath checkpoint.step))
  | unexpected {checkpoint : Checkpoint E.Snapshot E.Value} {frontier : List Nat} {runId : RunId}
      {threadId : ThreadId} (hread : call.Reads m checkpoint)
      (hresolved : g.validateAndResolveCheckpointFrontier checkpoint = .ok frontier)
      (hinterrupt : checkpoint.interrupt = none) (hvalue : call.supplied ≠ none) :
      Call.Quits g m call (.error
        (.unexpectedResumeValue runId threadId checkpoint.id checkpoint.step))

/-! ## Preparing a call -/

/-- The relation allows a branch to be created. -/
structure Steady.Creates (R : Machine E → Machine E → Prop) : Prop where
  await : ∀ threadId branchId source m,
    R m { m with world := ((E.createBranch threadId branchId source).await m.world).2 }
  select : ∀ threadId branchId source deadline m,
    R m { m with world := ((E.createBranch threadId branchId source).select deadline m.world).2 }
  record : ∀ threadId branchId source answer m,
    R m { m with writes := m.writes ++ [.createBranch threadId branchId source answer] }

namespace Steady

section Prepare

variable {R : Machine E → Machine E → Prop} [Std.Refl R] [IsTrans (Machine E) R] {S : Stop → Prop}
  {g : CompiledGraph ν ρ} {m : Machine E}

theorem createBranch (hR : Steady R) (hS : ∀ e, Plain e → S e) (hcreates : Creates R)
    {ctx : RunContext} {config : ForkConfig E.Value} {step : Nat} :
    Within R (Core.createBranch ctx config step) (fun _ => True) S := by
  unfold Core.createBranch
  refine within_bind (hR.awaitCall step (C := fun _ => True) ?_ ?_ ?_ ?_ ?_) fun r hr => ?_
  · exact within_pure ⟨nofun, fun _ _ => trivial⟩
  · exact fun _ _ m => hcreates.await _ _ _ m
  · exact fun _ _ deadline m => hcreates.select _ _ _ deadline m
  · exact fun _ answer _ => within_modify fun m => hcreates.record _ _ _ answer m
  · rintro _ (error | ok) _ ⟨⟩
    trivial
  · exact hR.calm.orFail ctx (fun _ _ => trivial) fun error he => hS _ (hr.1 error he)

variable (hR : Steady R)

include hR

/-- The rest of a resume, once its checkpoint is fetched. -/
theorem openResume {config : ResumeConfig E.Value}
    {initializer : E.State → Except SourceError E.State} :
    wp (Core.openResume g config initializer)
      (fun p m' => Landed g m (.resume config initializer) p ∧ R m m')
      (fun e m' => Call.Quits g m (.resume config initializer) e ∧ R m m') m := by
  have hplain : ∀ e, Plain e → Call.Quits g m (.resume config initializer) e :=
    fun _ h => .plain h
  have hclock : BeginsLate m config.run →
      Call.Quits g m (.resume config initializer) (.panic .instantOverflow) := fun h => .clock h
  have hfetch := hR.fetchResume hplain hclock
  unfold Core.openResume
  rw [wp_bind, wp_iff]
  refine ⟨fun fetched m₁ hx => ?_, fun e m₁ hx => wp_of_error hfetch hx⟩
  obtain ⟨ctx, checkpoint⟩ := fetched
  obtain ⟨⟨hbegun, hmax⟩, hm₁⟩ := wp_of_ok hfetch hx
  have hread : (Call.resume config initializer).Reads m checkpoint := ⟨ctx, m₁, hx⟩
  suffices hrest : Within R _ (Landed g m (.resume config initializer))
      (Call.Quits g m (.resume config initializer)) from hrest.after hm₁
  refine within_bind (hR.calm.resolveCheckpoint hplain ?_ ?_ ?_) fun resolved hresolved => ?_
  · exact fun p hp => .invalid hread hp
  · exact fun frontier interrupt hresolved hi hv => .missing hread hresolved hi hv
  · exact fun frontier hresolved hi hv => .unexpected hread hresolved hi hv
  refine within_bind (hR.restoreState hplain) fun state _ => ?_
  refine within_bind (hR.calm.restored hplain) fun state _ => ?_
  refine within_seq (hR.controlRun hplain _ _ _) ?_
  refine within_seq (hR.calm.emit _ _) ?_
  refine within_seq (within_forM fun _ _ => hR.calm.emit _ _) ?_
  refine within_seq (hR.calm.reportNamespaces hplain) (within_pure ?_)
  exact ⟨hbegun, hmax, .load hread ⟨hresolved, rfl, rfl, rfl⟩⟩

theorem loadHistorical (call : Call E) {threadId : ThreadId} {checkpointId : CheckpointId}
    (hreads : ∀ ctx checkpoint m₁, Core.fetchHistorical call.config threadId checkpointId m =
      .ok (ctx, checkpoint) m₁ → call.Reads m checkpoint) :
    wp (Core.loadHistorical g call.config threadId checkpointId call.supplied)
      (fun h m' => Located g m call h ∧ R m m') (fun e m' => call.Quits g m e ∧ R m m') m := by
  have hplain : ∀ e, Plain e → call.Quits g m e := fun _ h => .plain h
  have hclock : BeginsLate m call.config → call.Quits g m (.panic .instantOverflow) := .clock
  unfold Core.loadHistorical
  rw [wp_bind, wp_iff]
  have hfetch : wp (Core.fetchHistorical call.config threadId checkpointId) _ _ m :=
    hR.fetchHistorical hplain hclock
  refine ⟨fun fetched m₁ hx => ?_, fun e m₁ hx => wp_of_error hfetch hx⟩
  obtain ⟨ctx, checkpoint⟩ := fetched
  obtain ⟨⟨hbegun, hmax⟩, hm₁⟩ := wp_of_ok hfetch hx
  have hread : call.Reads m checkpoint := hreads ctx checkpoint m₁ hx
  suffices hrest : Within R _ (Located g m call) (call.Quits g m) from hrest.after hm₁
  refine within_bind (hR.calm.resolveCheckpoint hplain ?_ ?_ ?_) fun resolved hresolved => ?_
  · exact fun p hp => .invalid hread hp
  · exact fun frontier interrupt hresolved hi hv => .missing hread hresolved hi hv
  · exact fun frontier hresolved hi hv => .unexpected hread hresolved hi hv
  refine within_bind (hR.restoreState hplain) fun state _ => within_pure ?_
  exact ⟨hbegun, hmax, hread, hresolved⟩

theorem openReplay {config : ReplayConfig E.Value} :
    wp (Core.openReplay g config) (fun p m' => Landed g m (.replay config) p ∧
        p.2.checkpoints = .readOnlyReplay config.threadId config.checkpointId ∧ R m m')
      (fun e m' => Call.Quits g m (.replay config) e ∧ R m m') m := by
  unfold Core.openReplay
  rw [wp_bind]
  refine wp_mono (loadHistorical hR (.replay config) fun ctx checkpoint m₁ hx => ⟨ctx, m₁, hx⟩)
    (fun h m₁ hm₁ => ?_) fun _ _ h => h
  have hplain : ∀ e, Plain e → Call.Quits g m (.replay config) e := fun _ h => .plain h
  refine wp_mono ((hR.calm.historicalStart hplain).after hm₁.2) (fun p m₂ h => ⟨?_, ?_, h.2⟩)
    fun e m₂ h => h
  · rw [h.1]
    exact hm₁.1.landed _
  · rw [h.1]
    rfl

theorem openFork (hcreates : Steady.Creates R) {config : ForkConfig E.Value} :
    wp (Core.openFork g config) (fun p m' => Landed g m (.fork config) p ∧ R m m')
      (fun e m' => Call.Quits g m (.fork config) e ∧ R m m') m := by
  have hplain : ∀ e, Plain e → Call.Quits g m (.fork config) e := fun _ h => .plain h
  unfold Core.openFork
  rw [wp_bind]
  refine wp_mono (loadHistorical hR (.fork config) fun ctx checkpoint m₁ hx => ⟨ctx, m₁, hx⟩)
    (fun h m₁ hm₁ => ?_) fun _ _ h => h
  refine wp_mono ((within_seq (hR.createBranch hplain hcreates)
    (hR.calm.historicalStart hplain)).after hm₁.2) (fun p m₂ h => ⟨?_, h.2⟩) fun e m₂ h => h
  rw [h.1]
  exact hm₁.1.landed _

/-- **What a call starts from.** -/
theorem prepare (hcreates : Steady.Creates R) (call : Call E) :
    wp (call.prepare g) (fun p m' => Landed g m call p ∧ R m m')
      (fun e m' => call.Quits g m e ∧ R m m') m := by
  have hopen : ∀ (initialState : E.State) (config : RunConfig)
      (checkpoints : Option CheckpointConfig) (k : RuntimeCheckpoint),
      wp (Core.openInvocation g.nav initialState config k)
        (fun p m' => Landed g m (.invoke initialState config checkpoints) p ∧ R m m')
        (fun e m' => Call.Quits g m (.invoke initialState config checkpoints) e ∧ R m m') m := by
    intro initialState config checkpoints k
    have hplain : ∀ e, Plain e → Call.Quits g m (.invoke initialState config checkpoints) e :=
      fun _ h => .plain h
    refine wp_mono (hR.openInvocation hplain .clock) (fun p m' h => ?_) fun _ _ h => h
    obtain ⟨⟨⟨hbegun, hmax⟩, -, hnode, hsteps, hsuper⟩, hm'⟩ := h
    exact ⟨⟨hbegun, hmax, .invoke hnode hsteps hsuper⟩, hm'⟩
  cases call with
  | invoke initialState config checkpoints => cases checkpoints <;> exact hopen _ _ _ _
  | resume config initializer => exact openResume hR
  | replay config => exact wp_mono (openReplay hR) (fun _ _ h => ⟨h.1, h.2.2⟩) fun _ _ h => h
  | fork config => exact openFork hR hcreates

/-- **What a call enters its loop with.** -/
theorem enter (hcreates : Steady.Creates R) (hsaves : Saves R fun _ => True) (call : Call E) :
    wp (call.enter g)
      (fun p m' => (Landed g m call p ∧
        p.1.absoluteStepLimit = min (p.2.steps + p.1.maxSteps) usizeMax) ∧ R m m')
      (fun e m' => call.Quits g m e ∧ R m m') m := by
  unfold Call.enter
  rw [wp_bind]
  refine wp_mono (prepare hR hcreates call) (fun p m₁ hp => ?_) fun _ _ h => h
  obtain ⟨ctx, ls⟩ := p
  have hplain : ∀ e, Plain e → call.Quits g m e := fun _ h => .plain h
  refine wp_mono ((hR.enterLoop hplain hsaves trivial).after hp.2) (fun p m₂ h => ?_) fun e m₂ h => h
  obtain ⟨ctx', ls'⟩ := p
  obtain ⟨⟨-, hctx, hls⟩, hm₂⟩ := h
  simp only at hctx hls
  have hlanded := hp.1.enter (min (ls.steps + ctx.maxSteps) usizeMax) ls'.checkpoints
  rw [← hctx, ← hls] at hlanded
  refine ⟨⟨hlanded, ?_⟩, hm₂⟩
  rw [hctx, hls]

end Prepare

end Steady

end GroupAgent.Core
