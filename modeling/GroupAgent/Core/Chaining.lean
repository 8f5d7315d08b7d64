import GroupAgent.Core.RoundTrip
import GroupAgent.Lib.Lineage

/-!
# The chain of a call's saves

A run threads the parent that its next save expects through its own saves: `EnabledCheckpoint`
(`runtime.rs:1966-1973`) keeps it and `save` (2016-2126) replaces it by the identifier of the
checkpoint it was answered with.

* `Chained`: the saves of one run. Each names the checkpoint that the one before it was answered
  with, at larger counters, and nothing is saved after a save that was not accepted, that suspended
  the run or that completed it.
* `Call.Saves`: what a call checkpoints as, and the counters it starts from.
* `Faithful`: an accepted save was answered with the checkpoint that was asked for. The source does
  not check it of a store.

Results:
* `Chained.initial`: what a dropped call has sent is chained too, being an initial part of it.
* `Chained.linked`: over a store that keeps what it is sent, the accepted checkpoints are a parent
  chain.
* **`writes_chained`**: this is what every call writes, however it ends.

The first save of a resume or of a fork expects the checkpoint that was loaded; that the store
still has it at the head of its thread is the store's own check (`Store`).
-/

namespace GroupAgent.Core

open GroupAgent.Lib

variable {ν ρ : Type} {E : Env ν ρ}

/-! ## Chained saves -/

/-- A request of a run for a boundary behind a parent, not before these counters. -/
structure Sends (c : EnabledCheckpoint) (runId : RunId) (parent : Option CheckpointId)
    (superstep step : Nat) (request : CheckpointRequest E.Snapshot E.Value) : Prop where
  thread : request.threadId = c.threadId
  version : request.graphVersion = c.graphVersion
  run : request.runId = runId
  parent : request.expectedParent = parent
  superstep_le : superstep ≤ request.superstep
  step_le : step ≤ request.step

/-- The saves of a run behind a parent, from these counters on. Only a save that was accepted, at a
boundary that leaves something to execute and that nothing suspends, is followed by others. -/
inductive Chained (c : EnabledCheckpoint) (runId : RunId) :
    Option CheckpointId → Nat → Nat → List (StoreWrite E) → Prop where
  | nil {parent : Option CheckpointId} {superstep step : Nat} :
      Chained c runId parent superstep step []
  | last {parent : Option CheckpointId} {superstep step : Nat}
      {request : CheckpointRequest E.Snapshot E.Value}
      {answer : Option (Except CheckpointWriteError (Checkpoint E.Snapshot E.Value))}
      (hsends : Sends c runId parent superstep step request) :
      Chained c runId parent superstep step [.save c.branchId request answer]
  | link {parent : Option CheckpointId} {superstep step : Nat}
      {request : CheckpointRequest E.Snapshot E.Value} {chk : Checkpoint E.Snapshot E.Value}
      {ws : List (StoreWrite E)} (hsends : Sends c runId parent superstep step request)
      (hopen : request.completed = false) (hgoes : request.interrupt = none)
      (hsuper : superstep < request.superstep) (hstep : step < request.step)
      (hrest : Chained c runId (some chk.id) request.superstep request.step ws) :
      Chained c runId parent superstep step (.save c.branchId request (some (.ok chk)) :: ws)

section Chained

variable {c : EnabledCheckpoint} {runId : RunId} {parent : Option CheckpointId}
  {superstep step superstep' step' : Nat} {ws : List (StoreWrite E)}

theorem Sends.weaken {request : CheckpointRequest E.Snapshot E.Value}
    (h : Sends c runId parent superstep step request) (hsuper : superstep' ≤ superstep)
    (hstep : step' ≤ step) : Sends c runId parent superstep' step' request :=
  ⟨h.thread, h.version, h.run, h.parent, hsuper.trans h.superstep_le, hstep.trans h.step_le⟩

theorem Chained.weaken (h : Chained c runId parent superstep step ws)
    (hsuper : superstep' ≤ superstep) (hstep : step' ≤ step) :
    Chained c runId parent superstep' step' ws := by
  cases h with
  | nil => exact .nil
  | last hsends => exact .last (hsends.weaken hsuper hstep)
  | link hsends hopen hgoes hs hk hrest =>
    exact .link (hsends.weaken hsuper hstep) hopen hgoes (by omega) (by omega) hrest

/-- The parent that a save expects is no part of what the saves after it go by. -/
theorem Chained.of_after {id : CheckpointId}
    (h : Chained (c.after id) runId parent superstep step ws) :
    Chained c runId parent superstep step ws := by
  have hsame : ∀ {parent : Option CheckpointId} {superstep step : Nat}
      {request : CheckpointRequest E.Snapshot E.Value},
      Sends (c.after id) runId parent superstep step request →
        Sends c runId parent superstep step request :=
    fun h => ⟨h.thread, h.version, h.run, h.parent, h.superstep_le, h.step_le⟩
  induction h with
  | nil => exact .nil
  | last hsends => exact .last (hsame hsends)
  | link hsends hopen hgoes hsuper hstep _ ih =>
    exact .link (hsame hsends) hopen hgoes hsuper hstep ih

/-- What was sent until some moment is chained as well. -/
theorem Chained.initial (h : Chained c runId parent superstep step ws) {ws' : List (StoreWrite E)}
    (hp : ws' <+: ws) : Chained c runId parent superstep step ws' := by
  induction h generalizing ws' with
  | nil =>
    obtain rfl := List.prefix_nil.mp hp
    exact .nil
  | last hsends =>
    rcases List.prefix_cons_iff.mp hp with rfl | ⟨t, rfl, ht⟩
    · exact .nil
    · obtain rfl := List.prefix_nil.mp ht
      exact .last hsends
  | link hsends hopen hgoes hsuper hstep _ ih =>
    rcases List.prefix_cons_iff.mp hp with rfl | ⟨t, rfl, ht⟩
    · exact .nil
    · exact .link hsends hopen hgoes hsuper hstep (ih ht)

/-- The checkpoint that an accepted save was answered with. -/
def StoreWrite.kept : StoreWrite E → Option (Checkpoint E.Snapshot E.Value)
  | .save _ _ (some (.ok checkpoint)) => some checkpoint
  | _ => none

/-- The checkpoints that accepted saves were answered with. -/
def accepted (ws : List (StoreWrite E)) : List (Checkpoint E.Snapshot E.Value) :=
  ws.filterMap StoreWrite.kept

/-- Every accepted save was answered with what it sent. -/
def Faithful (ws : List (StoreWrite E)) : Prop :=
  ∀ branchId request chk, StoreWrite.save branchId request (some (.ok chk)) ∈ ws →
    chk = request.intoCheckpoint

/-- **The accepted checkpoints of a run are a parent chain.** -/
theorem Chained.linked (h : Chained c runId parent superstep step ws) (hf : Faithful ws) :
    Linked Checkpoint.id (fun chk : Checkpoint E.Snapshot E.Value => chk.parentId) parent
      (accepted ws) := by
  induction h with
  | nil => trivial
  | @last parent superstep step request answer hsends =>
    rcases answer with _ | (error | chk)
    · trivial
    · trivial
    · obtain rfl := hf _ _ _ (List.mem_singleton.mpr rfl)
      exact ⟨hsends.parent, trivial⟩
  | link hsends _ _ _ _ _ ih =>
    obtain rfl := hf _ _ _ List.mem_cons_self
    exact ⟨hsends.parent, ih fun _ _ _ hw => hf _ _ _ (List.mem_cons_of_mem _ hw)⟩

end Chained

/-! ## One save -/

section Log

variable {c : EnabledCheckpoint} {runId : RunId} {state : E.State}
  {boundary : CheckpointBoundary E.Value} {superstep step : Nat}

theorem sends_build {snapshot : E.Snapshot} {checkpointId : CheckpointId}
    (hsuper : superstep ≤ boundary.superstep) (hstep : step ≤ boundary.step) :
    Sends c runId c.expectedParent superstep step
      (c.build runId snapshot checkpointId boundary : CheckpointRequest E.Snapshot E.Value) :=
  ⟨rfl, rfl, rfl, rfl, hsuper, hstep⟩

/-- An attempt to save is chained. -/
theorem SaveLog.chained {out : Option (Checkpoint E.Snapshot E.Value)} {ws : List (StoreWrite E)}
    (h : SaveLog c runId state boundary out ws) (hsuper : superstep ≤ boundary.superstep)
    (hstep : step ≤ boundary.step) : Chained c runId c.expectedParent superstep step ws := by
  cases h with
  | unsent => exact .nil
  | refused => exact .last (sends_build hsuper hstep)
  | accepted => exact .last (sends_build hsuper hstep)

/-- An accepted save is followed by the saves of the run behind it. -/
theorem SaveLog.link {chk : Checkpoint E.Snapshot E.Value} {ws ws' : List (StoreWrite E)}
    (h : SaveLog c runId state boundary (some chk) ws) (hopen : boundary.completed = false)
    (hgoes : boundary.interrupt = none) (hsuper : superstep < boundary.superstep)
    (hstep : step < boundary.step)
    (hrest : Chained (c.after chk.id) runId (some chk.id) boundary.superstep boundary.step ws') :
    Chained c runId c.expectedParent superstep step (ws ++ ws') := by
  cases h with
  | accepted =>
    exact .link (sends_build hsuper.le hstep.le) hopen hgoes hsuper hstep hrest.of_after

end Log

/-! ## The loop -/

section Loop

variable {g : CompiledGraph ν ρ} {seed : Option (List Nat)} {ctx : RunContext}
  {ls : LoopState E Nat} {m : Machine E} {ws : List (StoreWrite E)}

/-- Nothing is added where nothing is left to execute. -/
theorem LoopAdds.nil_of_done (h : LoopAdds g ctx ls m ws) (hl : ls.frontier = []) : ws = [] := by
  have hadds : ∀ {k : Option RuntimeCheckpoint} {ws : List (StoreWrite E)},
      Adds g ctx ls m k ws → ws = [] := by
    intro k ws h
    cases h with
    | nothing => rfl
    | boundary _ hfrontier =>
      rw [hl] at hfrontier
      cases hfrontier
    | interrupt _ hfrontier =>
      rw [hl] at hfrontier
      cases hfrontier
  cases h with
  | done => rfl
  | last h => exact hadds h
  | step hturn =>
    obtain ⟨first, rest, hfrontier, -⟩ := hturn
    rw [hl] at hfrontier
    cases hfrontier

/-- Nothing is added by a run that does not save. -/
theorem LoopAdds.nil_of_mode (h : LoopAdds g ctx ls m ws) {k : RuntimeCheckpoint}
    (hk : ls.checkpoints = k) (hmode : ∀ c, k ≠ .enabled c) : ws = [] := by
  have hadds : ∀ {ls : LoopState E Nat} {m : Machine E} {out : Option RuntimeCheckpoint}
      {ws : List (StoreWrite E)}, ls.checkpoints = k → Adds g ctx ls m out ws →
        ws = [] ∧ out = some k := by
    intro ls m out ws hk h
    cases h with
    | nothing => exact ⟨rfl, congrArg some hk⟩
    | boundary hc => exact absurd (hk.symm.trans hc) (hmode _)
    | interrupt hc => exact absurd (hk.symm.trans hc) (hmode _)
  induction h with
  | done => rfl
  | last h => exact (hadds hk h).1
  | step _ h _ ih =>
    obtain ⟨rfl, hout⟩ := hadds hk h
    exact ih (Option.some.inj hout)

/-- What one super-step adds is chained. -/
theorem Adds.chained (hg : Placed g) {tol : Tolerance} (hn : Watch g tol seed)
    {k : Option RuntimeCheckpoint} (h : Adds g ctx ls m k ws) (hv : Valid g seed ctx ls)
    {c : EnabledCheckpoint} (hc : ls.checkpoints = .enabled c) :
    Chained c ctx.runId c.expectedParent ls.superstep ls.steps ws := by
  cases h with
  | nothing => exact .nil
  | boundary hc' hl hadv hpaths hlog =>
    rw [hc] at hc'
    cases hc'
    have hfit : Fits E g .all ctx := ⟨.inl trivial, .inl trivial⟩
    have hadvanced := ((quiet_advance hg hn.relax hfit hl hv.frontier hv.room (.inl trivial)).of_ok
      hadv).1
    cases hadvanced with
    | committed hsteps hsuper _ _ _ =>
      exact hlog.chained (by simp only; omega) (by simp only; omega)
  | interrupt hc' _ _ _ hlog =>
    rw [hc] at hc'
    cases hc'
    exact hlog.chained le_rfl le_rfl

/-- **What the loop adds is chained.** -/
theorem LoopAdds.chained (hg : Placed g) {tol : Tolerance} (hn : Watch g tol seed)
    (h : LoopAdds g ctx ls m ws) (hv : Valid g seed ctx ls) {c : EnabledCheckpoint}
    (hc : ls.checkpoints = .enabled c) :
    Chained c ctx.runId c.expectedParent ls.superstep ls.steps ws := by
  induction h generalizing c with
  | done => exact .nil
  | last h => exact h.chained hg hn hv hc
  | @step ls ls' m m' ws ws' hturn hadds hrest ih =>
    obtain ⟨hmoved, hv', -⟩ := hv.turn (p := (ls, m)) (q := (ls', m')) hg hn hturn
    have hsuper := hmoved.superstep
    have hsteps := hmoved.steps
    obtain ⟨first, rest, boundaries, m₁, hl, hadv⟩ := hmoved.advanced
    simp only at hl hadv hsuper hsteps
    have hfrontier : 0 < ls.frontier.length := by
      rw [hl]
      exact Nat.zero_lt_succ _
    generalize hk : some ls'.checkpoints = k at hadds
    cases hadds with
    | nothing =>
      rw [List.nil_append]
      exact (ih hv' ((Option.some.inj hk).trans hc)).weaken (by omega) (by omega)
    | @boundary c' first' rest' state steps superstep next boundaries' m₂ paths out ws hc' hl' hadv'
        hpaths hlog =>
      rw [hc] at hc'
      cases hc'
      rw [hl] at hl'
      cases hl'
      rw [hadv] at hadv'
      cases hadv'
      cases out with
      | none => cases hk
      | some chk =>
        have hck : ls'.checkpoints = .enabled (c.after chk.id) := Option.some.inj hk
        cases hnext : ls'.frontier with
        | nil =>
          -- the run is complete, so this save is its last
          obtain rfl := hrest.nil_of_done hnext
          rw [List.append_nil]
          exact hlog.chained (by simp only; omega) (by simp only; omega)
        | cons i next =>
          refine hlog.link ?_ rfl (by simp only; omega) (by simp only; omega) (ih hv' hck)
          simp only
          rw [hnext]
          rfl
    | interrupt hc' hl' hadv' =>
      rw [hl] at hl'
      cases hl'
      rw [hadv] at hadv'
      cases hadv'

end Loop

/-! ## A call -/

section Call

variable {g : CompiledGraph ν ρ} {m : Machine E}

/-- What a call that saves checkpoints as at first, and the counters it starts from. -/
inductive Call.Saves (g : CompiledGraph ν ρ) (m : Machine E) :
    Call E → EnabledCheckpoint → Nat → Nat → Prop where
  | invoke {initialState : E.State} {config : RunConfig} {checkpoints : CheckpointConfig}
      {c : EnabledCheckpoint} (hc : checkpoints.checkpointing g = .enabled c) :
      Call.Saves g m (.invoke initialState config (some checkpoints)) c 0 0
  | resume {config : ResumeConfig E.Value} {initializer : E.State → Except SourceError E.State}
      {checkpoint : Checkpoint E.Snapshot E.Value} {c : EnabledCheckpoint}
      (hread : (Call.resume config initializer).Reads m checkpoint)
      (hc : config.checkpointing g checkpoint.id = .enabled c) :
      Call.Saves g m (.resume config initializer) c checkpoint.superstep checkpoint.step
  | fork {config : ForkConfig E.Value} {checkpoint : Checkpoint E.Snapshot E.Value}
      {c : EnabledCheckpoint} (hread : (Call.fork config).Reads m checkpoint)
      (hid : checkpoint.id = config.checkpointId) (hc : config.checkpointing g = .enabled c) :
      Call.Saves g m (.fork config) c checkpoint.superstep checkpoint.step

/-- A call whose loop starts to save is one that saves. -/
theorem Call.Starts.saves {call : Call E} {ls : LoopState E Nat} (h : call.Starts g m ls)
    {c : EnabledCheckpoint} (hc : ls.checkpoints = .enabled c) :
    call.Saves g m c ls.superstep ls.steps := by
  cases call with
  | invoke initialState config checkpoints =>
    obtain ⟨-, hsteps, hsuper, hk⟩ := h
    rw [hsteps, hsuper]
    cases checkpoints with
    | none =>
      rw [hk] at hc
      cases hc
    | some checkpoints => exact .invoke (hk.symm.trans hc)
  | resume config initializer =>
    obtain ⟨checkpoint, hread, hrestored, hk⟩ := h
    rw [hrestored.steps, hrestored.superstep]
    exact .resume hread (hk.symm.trans hc)
  | replay config =>
    obtain ⟨checkpoint, -, -, hk⟩ := h
    rw [hk] at hc
    cases hc
  | fork config =>
    obtain ⟨checkpoint, hread, hrestored, hid, hk⟩ := h
    rw [hrestored.steps, hrestored.superstep]
    exact .fork hread hid (hk.symm.trans hc)

/-- The saves of a call are chained behind where it started. -/
def Call.Chains (g : CompiledGraph ν ρ) (call : Call E) (m : Machine E)
    (saves : List (StoreWrite E)) : Prop :=
  saves = [] ∨ ∃ c runId superstep step, call.Saves g m c superstep step ∧
    Chained c runId c.expectedParent superstep step saves

/-- What a call that is dropped has saved is chained as well. -/
theorem Call.Chains.initial {call : Call E} {saves cut : List (StoreWrite E)}
    (h : call.Chains g m saves) (hcut : cut <+: saves) : call.Chains g m cut := by
  rcases h with rfl | ⟨c, runId, superstep, step, hsaves, hchained⟩
  · exact .inl (List.prefix_nil.mp hcut)
  · exact .inr ⟨c, runId, superstep, step, hsaves, hchained.initial hcut⟩

theorem EnterLog.chains {call : Call E} {runId : RunId} {ls : LoopState E Nat}
    {k : Option RuntimeCheckpoint} {ws : List (StoreWrite E)}
    (h : EnterLog call.savesEmpty runId ls k ws) (hstarts : call.Starts g m ls) :
    call.Chains g m ws := by
  cases h with
  | nothing => exact .inl rfl
  | empty _ hc _ hlog =>
    exact .inr ⟨_, runId, _, _, hstarts.saves hc, hlog.chained le_rfl le_rfl⟩

/-- A call checkpoints as one thing. -/
theorem Call.Saves.unique {call : Call E} {c c' : EnabledCheckpoint}
    {superstep step superstep' step' : Nat} (h : call.Saves g m c superstep step)
    (h' : call.Saves g m c' superstep' step') : c = c' := by
  cases h with
  | invoke hc =>
    cases h' with
    | invoke hc' => exact RuntimeCheckpoint.enabled.inj (hc.symm.trans hc')
  | resume hread hc =>
    cases h' with
    | resume hread' hc' =>
      obtain rfl := hread.unique hread'
      exact RuntimeCheckpoint.enabled.inj (hc.symm.trans hc')
  | fork _ _ hc =>
    cases h' with
    | fork _ _ hc' => exact RuntimeCheckpoint.enabled.inj (hc.symm.trans hc')

/-- What the loop of a call adds is chained behind what it saved when it entered. -/
theorem chains_of_loop (hg : Placed g) {tol : Tolerance} {call : Call E} {ctx : RunContext}
    {ls ls' : LoopState E Nat} {m₁ : Machine E} {ws ws' : List (StoreWrite E)}
    (hstarts : call.Starts g m ls) (hls : ls' = { ls with checkpoints := ls'.checkpoints })
    (henter : EnterLog call.savesEmpty ctx.runId ls (some ls'.checkpoints) ws)
    {seed : Option (List Nat)} (hn : Watch g tol seed) (hv : Valid g seed ctx ls')
    (hloop : LoopAdds g ctx ls' m₁ ws') : call.Chains g m (ws ++ ws') := by
  have hsuper : ls'.superstep = ls.superstep := by rw [hls]
  have hsteps : ls'.steps = ls.steps := by rw [hls]
  have hfrontier : ls'.frontier = ls.frontier := by rw [hls]
  have hsaves : ∀ {c}, ls.checkpoints = .enabled c → call.Saves g m c ls'.superstep ls'.steps := by
    intro c hc
    rw [hsuper, hsteps]
    exact hstarts.saves hc
  have henter' := henter
  generalize hk : some ls'.checkpoints = k at henter
  cases henter with
  | nothing =>
    have hsame : ls'.checkpoints = ls.checkpoints := Option.some.inj hk
    cases hc : ls.checkpoints with
    | disabled => exact .inl (hloop.nil_of_mode (hsame.trans hc) nofun)
    | readOnlyReplay _ _ => exact .inl (hloop.nil_of_mode (hsame.trans hc) nofun)
    | enabled c =>
      exact .inr ⟨c, ctx.runId, _, _, hsaves hc, hloop.chained hg hn hv (hsame.trans hc)⟩
  | empty _ _ hl =>
    obtain rfl := hloop.nil_of_done (hfrontier.trans hl)
    rw [List.append_nil]
    exact henter'.chains hstarts

/-- What a call has written are at most the creation of its branch, and then its saves. -/
theorem Call.Writes.chains (hg : Compiled g) {call : Call E}
    (hrange : ∀ checkpoint, call.Reads m checkpoint → checkpoint.InRange)
    {ws : List (StoreWrite E)} (hwrites : call.Writes g m ws) :
    ∃ branch saves, ws = branch ++ saves ∧ BranchLog call branch ∧ call.Chains g m saves := by
  have hs := sound_all (g := g) hrange
  cases hwrites.log hg hs trivial with
  | opening h =>
    cases h with
    | opening hbranch => exact ⟨_, [], (List.append_nil _).symm, hbranch, .inl rfl⟩
    | entering hstarts hbranch henter => exact ⟨_, _, rfl, hbranch, henter.chains hstarts⟩
  | looping hstarts henter hls hbranch hsave hloop =>
    obtain ⟨seed, hnodes, hvalid⟩ := (wp_of_ok (wp_enter hg hs) henter).valid
    refine ⟨_, _, List.append_assoc _ _ _, hbranch, ?_⟩
    exact chains_of_loop (placed hg) hstarts hls hsave hnodes hvalid hloop

/-- The checkpoints a call is answered with are a parent chain. -/
theorem Call.Chains.linked {call : Call E} {saves : List (StoreWrite E)}
    (h : call.Chains g m saves) (hf : Faithful saves) {c : EnabledCheckpoint} {superstep step : Nat}
    (hsaves : call.Saves g m c superstep step) :
    Linked Checkpoint.id (fun chk : Checkpoint E.Snapshot E.Value => chk.parentId)
      c.expectedParent (accepted saves) := by
  rcases h with rfl | ⟨c', runId, superstep', step', hsaves', hchained⟩
  · trivial
  · obtain rfl := hsaves.unique hsaves'
    exact hchained.linked hf

end Call

namespace Crossroads

end Crossroads

end GroupAgent.Core
