import GroupAgent.Core.Budget
import GroupAgent.Core.Openings
import GroupAgent.Core.Retracing
import GroupAgent.Core.RoundTrip
import GroupAgent.Core.Stream

/-!
# Going on from a saved boundary

A resume, a replay or a fork (`runtime.rs:1069-1715`) of a boundary that a completed call has saved
does what that call did after it, where nodes and routers behave and snapshots restore.

* `Call.GoesOn`: the calls that go on from a checkpoint without a value for a suspended node.
* `Determined.prepare`: such a call comes to the loop state that was saved.
* `Call.Runs`: the stages that a call commits until it has nothing left to execute.
* `Call.cut`: a completed call is cut at each of its accepted saves, into what it did before and
  what it did after.

Results:
* **`continued_equivalent`**: the call that goes on commits the same stages, ends with the same
  report and saves the same boundaries, or none if it is read-only.

Premises: the environment behaves (`Env.Behaves`), the state restores from its snapshot, and the
graph has a version, without which nothing is saved. A call that is disturbed on the way ends early
(`CutShort`).
-/

namespace GroupAgent.Core

open GroupAgent.Lib

variable {ν ρ : Type} {E : Env ν ρ} {g : CompiledGraph ν ρ}

/-- A branch that the store has not created. -/
inductive Unbranched : Stop → Prop where
  | failed (runId : RunId) (threadId : ThreadId) (branchId : BranchId) (checkpointId : CheckpointId)
      (step : Nat) (source : CheckpointWriteError) :
      Unbranched (.error
        (.branchCreationFailed runId threadId branchId checkpointId step source))

/-- A call that goes on from a checkpoint, with no value for a suspended node and the state as it is
restored. -/
inductive Call.GoesOn : Call E → Prop where
  | resume {config : ResumeConfig E.Value} (h : config.resumeValue = none) :
      Call.GoesOn (.resume config .ok)
  | replay {config : ReplayConfig E.Value} (h : config.resumeValue = none) :
      Call.GoesOn (.replay config)
  | fork {config : ForkConfig E.Value} (h : config.resumeValue = none) : Call.GoesOn (.fork config)

/-- Such a call is not an invocation. -/
theorem Call.GoesOn.savesEmpty {call : Call E} (h : call.GoesOn) : call.savesEmpty = false := by
  cases h <;> rfl

/-! ## Preparing -/

namespace Determined

variable {D : Stop → Prop} {ctx : RunContext} {threadId : ThreadId}
  {checkpoint : Checkpoint E.Snapshot E.Value} {frontier : List Nat} {state : E.State}

theorem resolveCheckpoint
    (hvalid : g.validateAndResolveCheckpointFrontier checkpoint = .ok frontier)
    (hinterrupt : checkpoint.interrupt = none) :
    ComesTo D (Core.resolveCheckpoint g ctx threadId checkpoint none : M E _)
      (.ok (frontier, none)) := by
  unfold Core.resolveCheckpoint compatibleFrontier
  rw [hvalid, hinterrupt]
  exact comesTo_pure _

theorem restored {result : Except SourceError E.State} (h : result = .ok state) :
    ComesTo D (Core.restored ctx threadId checkpoint result) (.ok state) := by
  rw [h]
  exact comesTo_pure _

theorem reportNamespaces (hnodes : ∀ i ∈ frontier, ∃ n, g.items[i]? = some (.node n)) :
    ComesTo D (Core.reportNamespaces g ctx frontier : M E Unit) (.ok ()) := by
  unfold Core.reportNamespaces
  cases frontier with
  | nil => exact comesTo_pure _
  | cons first rest =>
    obtain ⟨n, hn⟩ := hnodes first List.mem_cons_self
    refine comesTo_within (nodeAt_within hn) fun node _ => ?_
    exact comesTo_forM fun graphPath _ => emit _ _

theorem historicalStart {h : Historical E} {event : GraphEvent} {checkpoints : RuntimeCheckpoint}
    (hnodes : ∀ i ∈ h.frontier, ∃ n, g.items[i]? = some (.node n)) :
    ComesTo D (h.start g event none checkpoints) (.ok (h.ctx,
      restoredLoop h.checkpoint h.state h.frontier h.resumeNode none checkpoints)) := by
  unfold Historical.start
  refine comesTo_seq (emit _ _) ?_
  exact comesTo_seq (reportNamespaces hnodes) (comesTo_pure _)

variable (hD : ∀ e, Disturbed e → D e)

include hD

theorem restoreState (hrestore : E.restore checkpoint.snapshot = .ok state) :
    ComesTo D (Core.restoreState ctx threadId checkpoint) (.ok state) := by
  unfold Core.restoreState
  refine comesTo_seq (controlRun hD ctx _ _) ?_
  refine comesTo_bind (k := fun _ => .ok state) (restored hrestore) ?_
  rintro _ ⟨⟩
  exact comesTo_seq (controlRun hD ctx _ _) (comesTo_pure _)

/-- A branch is created, or it is not. -/
theorem createBranch (hbranch : ∀ e, Unbranched e → D e) {config : ForkConfig E.Value}
    {step : Nat} :
    Within (Loose (E := E)) (Core.createBranch ctx config step) (fun _ => True) D := by
  unfold Core.createBranch
  refine within_bind (awaitCall (X := fun error => D (.error error)) (C := True) step
    (fun _ he => hD _ he) ?_ ?_ ?_) fun r hr => ?_
  · exact within_pure ⟨fun _ h => (by cases h), fun _ _ => trivial⟩
  · exact fun _ answer => within_modify fun m => rfl
  · rintro _ (source | _) _ ⟨⟩
    exact hbranch _ (.failed _ _ _ _ _ _)
  · exact loose_steady.calm.orFail ctx (fun _ _ => trivial) fun error he => hr.1 error he

/-- Restore the checkpoint of a replay or a fork. -/
theorem loadHistorical {run : RunConfig} {checkpointId : CheckpointId} {m m₁ : Machine E}
    (hfetch : fetchHistorical run threadId checkpointId m = .ok (ctx, checkpoint) m₁)
    (hvalid : g.validateAndResolveCheckpointFrontier checkpoint = .ok frontier)
    (hinterrupt : checkpoint.interrupt = none)
    (hrestore : E.restore checkpoint.snapshot = .ok state) :
    wp (Core.loadHistorical g run threadId checkpointId none)
      (fun h _ => h = ⟨ctx, checkpoint, frontier, none, state⟩) (fun e _ => D e) m := by
  have hrest : ComesTo D (do
      let r ← Core.resolveCheckpoint g ctx threadId checkpoint none
      let state ← Core.restoreState ctx threadId checkpoint
      pure { ctx, checkpoint, frontier := r.1, resumeNode := r.2, state } : M E (Historical E))
      (.ok ⟨ctx, checkpoint, frontier, none, state⟩) := by
    refine comesTo_bind (k := fun _ => .ok _) (resolveCheckpoint hvalid hinterrupt) ?_
    rintro _ ⟨⟩
    refine comesTo_bind (k := fun _ => .ok _) (restoreState hD hrestore) ?_
    rintro _ ⟨⟩
    exact comesTo_pure _
  unfold Core.loadHistorical
  refine wp_bind_of_ok hfetch ?_
  exact wp_mono (hrest.value m₁) (fun _ _ h => h.1) fun _ _ h => h.1

/-- Restore the checkpoint of a resume. -/
theorem openResume {config : ResumeConfig E.Value} (hvalue : config.resumeValue = none)
    {m m₁ : Machine E} (hfetch : fetchResume config m = .ok (ctx, checkpoint) m₁)
    (hvalid : g.validateAndResolveCheckpointFrontier checkpoint = .ok frontier)
    (hnodes : ∀ i ∈ frontier, ∃ n, g.items[i]? = some (.node n))
    (hinterrupt : checkpoint.interrupt = none)
    (hrestore : E.restore checkpoint.snapshot = .ok state) :
    wp (Core.openResume g config .ok)
      (fun p _ => p = (ctx, restoredLoop checkpoint state frontier none none
        (config.checkpointing g checkpoint.id))) (fun e _ => D e) m := by
  have hrest : ComesTo D (do
      let r ← Core.resolveCheckpoint g ctx config.threadId checkpoint none
      let state ← Core.restoreState ctx config.threadId checkpoint
      let state ← Core.restored ctx config.threadId checkpoint (.ok state)
      Core.controlRun ctx none checkpoint.step
      Core.emit ctx.events (.runResumed ctx.runId config.threadId checkpoint.id checkpoint.step
        checkpoint.superstep)
      config.branchId.toList.forM fun branchId =>
        Core.emit ctx.events (.branchResumed ctx.runId config.threadId branchId checkpoint.id
          checkpoint.step checkpoint.superstep)
      Core.reportNamespaces g ctx r.1
      pure (ctx, restoredLoop checkpoint state r.1 r.2 none
        (config.checkpointing g checkpoint.id)) : M E (RunContext × LoopState E Nat))
      (.ok (ctx, restoredLoop checkpoint state frontier none none
        (config.checkpointing g checkpoint.id))) := by
    refine comesTo_bind (k := fun _ => .ok _) (resolveCheckpoint hvalid hinterrupt) ?_
    rintro _ ⟨⟩
    refine comesTo_bind (k := fun _ => .ok _) (restoreState hD hrestore) ?_
    rintro _ ⟨⟩
    refine comesTo_bind (k := fun _ => .ok _) (restored rfl) ?_
    rintro _ ⟨⟩
    refine comesTo_seq (controlRun hD ctx _ _) ?_
    refine comesTo_seq (emit _ _) ?_
    refine comesTo_seq (comesTo_forM fun _ _ => emit _ _) ?_
    exact comesTo_seq (reportNamespaces hnodes) (comesTo_pure _)
  unfold Core.openResume
  refine wp_bind_of_ok hfetch ?_
  rw [hvalue]
  exact wp_mono (hrest.value m₁) (fun _ _ h => h.1) fun _ _ h => h.1

/-- **A call that goes on comes to the loop state that was saved.** -/
theorem prepare (hbranch : ∀ e, Unbranched e → D e) {call : Call E} (hgoes : call.GoesOn)
    {m : Machine E} (hread : call.Reads m checkpoint)
    (hvalid : g.validateAndResolveCheckpointFrontier checkpoint = .ok frontier)
    (hnodes : ∀ i ∈ frontier, ∃ n, g.items[i]? = some (.node n))
    (hinterrupt : checkpoint.interrupt = none)
    (hrestore : E.restore checkpoint.snapshot = .ok state) :
    wp (call.prepare g) (fun p _ => p.2.state = state ∧ p.2.frontier = frontier ∧
      p.2.visitedNodes = []) (fun e _ => D e) m := by
  cases hgoes with
  | @resume config hvalue =>
    obtain ⟨ctx, m₁, hfetch⟩ := hread
    refine wp_mono (openResume hD hvalue hfetch hvalid hnodes hinterrupt hrestore) ?_
      fun _ _ h => h
    rintro p m₂ rfl
    exact ⟨rfl, rfl, rfl⟩
  | @replay config hvalue =>
    obtain ⟨ctx, m₁, hfetch⟩ := hread
    unfold Call.prepare openReplay
    rw [wp_bind, hvalue]
    refine wp_mono (loadHistorical hD hfetch hvalid hinterrupt hrestore) ?_ fun _ _ h => h
    rintro h m₂ rfl
    refine wp_mono ((historicalStart hnodes).value m₂) (fun p _ hp => ?_) fun _ _ hp => hp.1
    rw [hp.1]
    exact ⟨rfl, rfl, rfl⟩
  | @fork config hvalue =>
    obtain ⟨ctx, m₁, hfetch⟩ := hread
    unfold Call.prepare openFork
    rw [wp_bind, hvalue]
    refine wp_mono (loadHistorical hD hfetch hvalid hinterrupt hrestore) ?_ fun _ _ h => h
    rintro h m₂ rfl
    refine wp_mono ((comesTo_within (createBranch hD hbranch) fun _ _ =>
      historicalStart hnodes).value m₂) (fun p _ hp => ?_) fun _ _ hp => hp.1
    rw [hp.1]
    exact ⟨rfl, rfl, rfl⟩

end Determined

/-! ## Where a call has been -/

/-- What a completed run reports of the loop state that it ended in. -/
structure LoopState.Reported (ls : LoopState E Nat) (report : RunReport E) : Prop where
  finalState : report.finalState = ls.state
  steps : report.steps = ls.steps
  visitedNodes : report.visitedNodes = ls.visitedNodes

theorem wp_leaveLoop {ctx : RunContext} {ls : LoopState E Nat} {m : Machine E} :
    wp (leaveLoop ctx (.inl ls))
      (fun outcome m' => (∃ report, outcome = .completed report ∧ ls.Reported report) ∧
        m'.writes = m.writes) (fun e _ => Disturbed e) m := by
  have hleave : Within (Loose (E := E)) (leaveLoop ctx (.inl ls))
      (fun outcome => ∃ report, outcome = .completed report ∧ ls.Reported report) Disturbed := by
    unfold leaveLoop
    refine within_bind (Determined.controlRun (fun _ h => h) ctx _ _).value fun _ _ => ?_
    refine within_bind (Determined.emit _ _).value fun _ _ => ?_
    exact within_bind within_get fun _ _ => within_pure ⟨_, rfl, rfl, rfl, rfl⟩
  have hquiet : Quiet (leaveLoop ctx (.inl ls)) (fun _ => True) (Fine .all) := by
    unfold leaveLoop
    refine yields_seq (quiet_controlRun _ _ _) ?_
    refine yields_seq (quiet_emit _ _) ?_
    exact fun m' => ⟨trivial, rfl⟩
  refine wp_iff.mpr ⟨fun outcome m' h => ?_, fun e m' h => (hleave.of_error h).1⟩
  exact ⟨(hleave.of_ok h).1, (hquiet.of_ok h).2⟩

/-- The call from `m` commits the stages, and then has nothing left to execute. -/
def Call.Runs (g : CompiledGraph ν ρ) (call : Call E) (m : Machine E) (stages : List (Stage E)) :
    Prop :=
  ∃ ctx ls m₁ q, call.enter g m = .ok (ctx, ls) m₁ ∧ Turns g ctx (ls, m₁) stages q ∧
    q.1.frontier = []

theorem Call.Starts.policy {call : Call E} {m : Machine E} {ls : LoopState E Nat}
    (h : call.Starts g m ls) : ls.checkpoints.policy = call.mode.policy := by
  cases call with
  | invoke initialState config checkpoints =>
    obtain ⟨-, -, -, hk⟩ := h
    rw [hk]
    cases checkpoints <;> rfl
  | resume config initializer =>
    obtain ⟨checkpoint, -, -, hk⟩ := h
    rw [hk]
    rfl
  | replay config =>
    obtain ⟨checkpoint, -, -, hk⟩ := h
    rw [hk]
    rfl
  | fork config =>
    obtain ⟨checkpoint, -, -, -, hk⟩ := h
    rw [hk]
    rfl

/-- Entering the loop leaves the policy as it was. -/
theorem EnterLog.policy {flag : Bool} {runId : RunId} {ls : LoopState E Nat}
    {k : RuntimeCheckpoint} {ws : List (StoreWrite E)} (h : EnterLog flag runId ls (some k) ws) :
    k.policy = ls.checkpoints.policy := by
  generalize hk : some k = out at h
  cases h with
  | nothing =>
    obtain rfl := Option.some.inj hk
    rfl
  | empty _ hc =>
    obtain ⟨chk, -, rfl⟩ := Option.map_eq_some_iff.mp hk.symm
    rw [hc]
    rfl

theorem BranchLog.kept {call : Call E} {ws : List (StoreWrite E)} (h : BranchLog call ws) :
    Core.kept ws = [] := by
  cases h <;> rfl

/-- The save of an opening comes after its branch. -/
theorem BranchLog.saved {call : Call E} {ws ws' before after : List (StoreWrite E)}
    {branchId : Option BranchId} {request : CheckpointRequest E.Snapshot E.Value}
    {answer : Option (Except CheckpointWriteError (Checkpoint E.Snapshot E.Value))}
    (h : BranchLog call ws) (hw : ws ++ ws' = before ++ .save branchId request answer :: after) :
    ∃ before', ws' = before' ++ .save branchId request answer :: after := by
  cases h with
  | none => exact ⟨before, hw⟩
  | branch =>
    cases before with
    | nil => cases hw
    | cons w before =>
      obtain ⟨-, hrest⟩ := List.cons.inj hw
      exact ⟨before, hrest⟩

/-- A call that returned a report, cut where it made an accepted save: at the loop state `r`, on the
way to its end `q`. -/
structure Call.Cut (g : CompiledGraph ν ρ) (call : Call E) (m : Machine E) (report : RunReport E)
    (request : CheckpointRequest E.Snapshot E.Value) (after : List (StoreWrite E))
    (ctx : RunContext) (earlier later : List (Stage E)) (r q : LoopState E Nat × Machine E) :
    Prop where
  entered : ∃ ls m₁, call.enter g m = .ok (ctx, ls) m₁ ∧ Turns g ctx (ls, m₁) earlier r
  turns : Turns g ctx r later q
  ended : q.1.frontier = []
  reported : q.1.Reported report
  cutAt : CutAt g request r.1
  writes : q.2.writes = r.2.writes ++ after
  policy : r.1.checkpoints.policy = call.mode.policy
  valid : ∃ seed, Watch g .all seed ∧ Valid g seed ctx r.1

/-- How a call returns a report. -/
theorem Call.completed (hg : Compiled g) {call : Call E} {m m' : Machine E}
    (hs : Sound g .all call m) {report : RunReport E}
    (h : call.run g m = .ok (.completed report) m') : ∃ ctx ls m₁ stages q,
      call.enter g m = .ok (ctx, ls) m₁ ∧ Turns g ctx (ls, m₁) stages q ∧ q.1.frontier = [] ∧
        q.1.Reported report ∧ m'.writes = q.2.writes := by
  rw [Call.run_eq] at h
  obtain ⟨⟨ctx, ls⟩, m₁, henter, h⟩ := bind_ok_iff.mp h
  obtain ⟨ended, m₂, hloop, h⟩ := bind_ok_iff.mp h
  obtain ⟨outcome, m₃, hleave, h⟩ := bind_ok_iff.mp h
  have hentered := wp_of_ok (wp_enter hg hs) henter
  obtain ⟨seed, hwatch, hv⟩ := hentered.valid
  obtain ⟨q, hturns, hended⟩ := wp_of_ok
    (wp_runLoop_ends (placed hg) hwatch (q := (ls, m₁)) hv .refl hentered.limit) hloop
  obtain ⟨stages, hstages⟩ := Turns.of_reflTransGen hturns
  cases hended with
  | suspended hl hstep =>
    cases hleave
    cases Call.conclude_ok h
  | done hl =>
    obtain ⟨⟨report', rfl, hreported⟩, hw⟩ := wp_of_ok wp_leaveLoop hleave
    rw [Call.conclude_completed] at h
    cases h
    exact ⟨ctx, ls, m₁, stages, q, henter, hstages, hl, hreported, hw⟩

/-- The save of an invocation with nothing to execute. -/
theorem EnterLog.cutAt {call : Call E} {m : Machine E} {runId : RunId} {ls : LoopState E Nat}
    {k : RuntimeCheckpoint} {ws : List (StoreWrite E)}
    (h : EnterLog call.savesEmpty runId ls (some k) ws) {ls' : LoopState E Nat}
    (hls : ls' = { ls with checkpoints := ls'.checkpoints }) (hlands : call.Lands g m ls')
    {before after : List (StoreWrite E)} {branchId : Option BranchId}
    {request : CheckpointRequest E.Snapshot E.Value} {chk : Checkpoint E.Snapshot E.Value}
    (hw : ws = before ++ .save branchId request (some (.ok chk)) :: after) :
    after = [] ∧ ls'.frontier = [] ∧ CutAt g request ls' := by
  generalize hk : some k = out at h
  cases h with
  | nothing => simp at hw
  | empty hsaves hc hl hlog =>
    obtain ⟨snapshot, checkpointId, hsnapshot, rfl⟩ := hlog.request (by
      rw [hw]
      exact List.mem_append_right _ List.mem_cons_self)
    have hone : ws.length ≤ 1 := by
      cases hlog <;> simp
    have hlen := congrArg List.length hw
    rw [List.length_append, List.length_cons] at hlen
    have hafter : after = [] := List.eq_nil_of_length_eq_zero (by omega)
    have hframe : ls'.stage = ls.stage ∧ ls'.resumeNode = ls.resumeNode := by
      rw [hls]
      exact ⟨rfl, rfl⟩
    have hfrontier : ls'.frontier = [] := (congrArg Stage.frontier hframe.1).trans hl
    refine ⟨hafter, hfrontier, ?_, rfl, ?_⟩
    · rw [hframe.1]
      refine ⟨hsnapshot, rfl, rfl, ?_, ?_⟩
      · show PathsOf g ls.frontier []
        rw [hl]
        exact .nil
      · show true = ls.frontier.isEmpty
        rw [hl]
        rfl
    · cases hlands with
      | invoke hnode => exact hnode
      | load hread =>
        cases call with
        | invoke initialState config checkpoints => exact hread.elim
        | resume config initializer => cases hsaves
        | replay config => cases hsaves
        | fork config => cases hsaves

/-- **A completed call is cut at each of its accepted saves.** -/
theorem Call.cut (hg : Compiled g) {call : Call E} {m m' : Machine E} (hs : Sound g .all call m)
    {report : RunReport E} (h : call.run g m = .ok (.completed report) m')
    {before after : List (StoreWrite E)} {branchId : Option BranchId}
    {request : CheckpointRequest E.Snapshot E.Value} {chk : Checkpoint E.Snapshot E.Value}
    (hw : m'.writes = m.writes ++ (before ++ .save branchId request (some (.ok chk)) :: after)) :
    ∃ ctx earlier later r q, call.Cut g m report request after ctx earlier later r q := by
  obtain ⟨ctx, ls, m₁, stages, q, henter, hturns, hend, hreported, hwq⟩ := Call.completed hg hs h
  have hentered := wp_of_ok (wp_enter hg hs) henter
  obtain ⟨seed, hwatch, hv⟩ := hentered.valid
  obtain ⟨ls₀, ws, ws', hstarts, hls, hbranch, hsave, hlog⟩ := hentered.log
  obtain ⟨⟨hlanded, -⟩, -⟩ :=
    wp_of_ok (loose_steady.enter loose_creates loose_saves call) henter
  have hpolicy : ls.checkpoints.policy = call.mode.policy :=
    hsave.policy.trans hstarts.policy
  obtain ⟨-, -, ws'', hgrows⟩ := hturns.grows (placed hg) hwatch hv
  have hsplit : (ws ++ ws') ++ ws'' =
      before ++ .save branchId request (some (.ok chk)) :: after := by
    have hwhole : m.writes ++ ((ws ++ ws') ++ ws'') =
        m.writes ++ (before ++ .save branchId request (some (.ok chk)) :: after) := by
      rw [← hw, hwq, hgrows, hlog]
      simp only [List.append_assoc]
    exact List.append_cancel_left hwhole
  -- the loop made the save
  have hloop : ∀ rest, ws'' = rest ++ .save branchId request (some (.ok chk)) :: after →
      ∃ ctx earlier later r q, call.Cut g m report request after ctx earlier later r q := by
    intro rest hrest
    obtain ⟨earlier, later, r, -, hearlier, hlater, hcutAt, hwrites⟩ :=
      hturns.cut (placed hg) hwatch hv (hgrows.trans (congrArg (m₁.writes ++ ·) hrest))
    have hvr := (hearlier.grows (placed hg) hwatch hv).1
    exact ⟨ctx, earlier, later, r, q, ⟨ls, m₁, henter, hearlier⟩, hlater, hend, hreported, hcutAt,
      hwrites, (hearlier.policy (placed hg) hwatch hv).trans hpolicy, seed, hwatch, hvr⟩
  rcases List.append_eq_append_iff.mp hsplit with ⟨rest, -, hrest⟩ | ⟨rest, hopen, hrest⟩
  · exact hloop rest hrest
  · cases rest with
    | nil => exact hloop [] hrest.symm
    | cons w rest =>
      -- the save was made before the loop, which has nothing to execute
      obtain ⟨rfl, hafter⟩ := List.cons.inj hrest
      obtain ⟨before', hsaved⟩ := hbranch.saved hopen
      obtain ⟨rfl, hl, hcutAt⟩ := hsave.cutAt hls hlanded.lands hsaved
      cases hturns with
      | head hturn =>
        obtain ⟨first, rest, hl', -⟩ := hturn
        rw [hl] at hl'
        cases hl'
      | refl =>
        refine ⟨ctx, [], [], _, _, ⟨ls, m₁, henter, .refl _⟩, .refl _, hend, hreported, hcutAt, ?_,
          hpolicy, seed, hwatch, hv⟩
        rw [hafter]
        exact hgrows

/-! ## Going on -/

/-- How a call that goes on from a saved boundary may stop short. -/
def CutShort (e : Stop) : Prop := Disturbed e ∨ Rejected e ∨ Unbranched e

/-- What a call that goes on enters its loop with. -/
theorem Determined.enter {call : Call E} (hgoes : call.GoesOn) {m : Machine E}
    {checkpoint : Checkpoint E.Snapshot E.Value} {frontier : List Nat} {state : E.State}
    (hread : call.Reads m checkpoint)
    (hvalid : g.validateAndResolveCheckpointFrontier checkpoint = .ok frontier)
    (hnodes : ∀ i ∈ frontier, ∃ n, g.items[i]? = some (.node n))
    (hinterrupt : checkpoint.interrupt = none)
    (hrestore : E.restore checkpoint.snapshot = .ok state) :
    wp (call.enter g) (fun p _ => p.2.state = state ∧ p.2.frontier = frontier ∧
      p.2.visitedNodes = []) (fun e _ => CutShort e) m := by
  unfold Call.enter
  rw [wp_bind]
  refine wp_mono (prepare (D := CutShort) (fun _ h => .inl h) (fun _ h => .inr (.inr h)) hgoes hread
    hvalid hnodes hinterrupt hrestore) ?_ fun _ _ h => h
  rintro ⟨ctx, ls⟩ m₁ hls
  rw [hgoes.savesEmpty]
  exact hls

/-- The loop state that a call goes on from is at the stage of the cut. -/
theorem CutAt.twin {request : CheckpointRequest E.Snapshot E.Value} {ls ls' : LoopState E Nat}
    (h : CutAt g request ls) {call : Call E} {m : Machine E}
    (hread : call.Reads m request.intoCheckpoint)
    (hlands : call.Lands g m ls') (hstate : ls'.state = ls.state)
    (hfrontier : ls'.frontier = ls.frontier) {flag : Bool}
    (hsaves : ∀ completed,
      ls'.checkpoints.shouldSave completed = (flag && ls.checkpoints.shouldSave completed)) :
    Twin flag ls ls' := by
  cases hlands with
  | invoke => exact hread.elim
  | load hread' continued =>
    obtain rfl := hread'.unique hread
    have hsteps : ls'.steps = ls.steps := continued.steps.trans h.keeps.step
    have hsuper : ls'.superstep = ls.superstep := continued.superstep.trans h.keeps.superstep
    have hnode : ls'.resumeNode = none := by
      rcases continued.answered.node with ⟨-, -, hnode⟩ | ⟨interrupt, v, hi, -⟩
      · exact hnode
      · have hnone : request.intoCheckpoint.interrupt = none := h.interrupt
        rw [hnone] at hi
        cases hi
    refine ⟨?_, h.resumeNode, hnode, hsaves⟩
    unfold LoopState.stage
    rw [hstate, hsteps, hsuper, hfrontier]

/-- Only a run with a policy saves. -/
theorem shouldSave_isSome (c : RuntimeCheckpoint) (completed : Bool) :
    c.shouldSave completed = (c.policy.isSome && c.shouldSave completed) := by
  cases c <;> rfl

theorem EnterLog.unsaved {flag : Bool} {runId : RunId} {ls : LoopState E Nat}
    {k : Option RuntimeCheckpoint} {ws : List (StoreWrite E)} (h : EnterLog flag runId ls k ws)
    (hflag : flag = false) : ws = [] := by
  cases h with
  | nothing => rfl
  | empty hsaves =>
    rw [hflag] at hsaves
    cases hsaves

/-- The report of a call that went on from a request, beside that of the call that sent it. -/
structure Call.EndsAlike (g : CompiledGraph ν ρ) (again : Call E) (m m' : Machine E)
    (report : RunReport E) (request : CheckpointRequest E.Snapshot E.Value)
    (visited : List NodePath) (later : List (Stage E)) (keeps : List (KeptBoundary E.Snapshot))
    (report' : RunReport E) : Prop where
  runs : again.Runs g m later
  finalState : report'.finalState = report.finalState
  steps : report'.steps = report.steps
  visited : report.visitedNodes = visited ++ report'.visitedNodes
  counts : report.steps = request.step + report'.visitedNodes.length
  writes : ∃ ws, m'.writes = m.writes ++ ws ∧ kept ws = keeps

section Cut

variable {call again : Call E} {m m₂ : Machine E} {report : RunReport E}
  {request : CheckpointRequest E.Snapshot E.Value} {after : List (StoreWrite E)} {ctx : RunContext}
  {earlier later : List (Stage E)} {r q : LoopState E Nat × Machine E}

/-- A call that goes on under the policy of the one that was cut, or without one, enters its loop
with a twin of the cut. -/
theorem Call.Cut.twin (hcut : call.Cut g m report request after ctx earlier later r q)
    (hread : again.Reads m₂ request.intoCheckpoint)
    (hpolicy : again.mode.policy = call.mode.policy ∨ again.mode.policy = none)
    {ls : LoopState E Nat} (hlands : again.Lands g m₂ ls)
    (hsaves : ls.checkpoints.policy = again.mode.policy) (hstate : ls.state = r.1.state)
    (hfrontier : ls.frontier = r.1.frontier) : Twin again.mode.policy.isSome r.1 ls := by
  refine hcut.cutAt.twin hread hlands hstate hfrontier fun completed => ?_
  rw [shouldSave_isSome, hsaves]
  rcases hpolicy with heq | hnone
  · rw [shouldSave_congr (hsaves.trans (heq.trans hcut.policy.symm))]
  · rw [hnone]
    rfl

/-- What the loop of a twin leaves is reported as the call that was cut reported it. -/
theorem Call.Cut.endsAlike (hg : Compiled g)
    (hcut : call.Cut g m report request after ctx earlier later r q) {ctx₂ : RunContext}
    {ls₂ ls₃ : LoopState E Nat} {m₃ m₄ m₅ : Machine E}
    (henter : again.enter g m₂ = .ok (ctx₂, ls₂) m₃)
    {ws : List (StoreWrite E)} (hlog : m₃.writes = m₂.writes ++ ws) (hbranch : BranchLog again ws)
    (hvisited : ls₂.visitedNodes = []) {flag : Bool}
    (hretraces : Retraces flag g ctx₂ r q later (ls₂, m₃) (ls₃, m₄)) {report' : RunReport E}
    (hreported : ls₃.Reported report') (hleft : m₅.writes = m₄.writes) :
    again.EndsAlike g m₂ m₅ report request r.1.visitedNodes later
      (if flag then kept after else []) report' := by
  obtain ⟨seed, hwatch, hv⟩ := hcut.valid
  obtain ⟨paths, hpaths, hcount⟩ := hcut.turns.visited (placed hg) hwatch hv
  obtain ⟨paths', hp, hp'⟩ := hretraces.visited
  obtain rfl := List.append_cancel_left (hp.symm.trans hpaths)
  have hstage := hretraces.twin.stage
  have hnew : report'.visitedNodes = paths' := by
    rw [hreported.visitedNodes, hp', hvisited]
    rfl
  refine ⟨⟨ctx₂, ls₂, m₃, _, henter, hretraces.turns, ?_⟩, ?_, ?_, ?_, ?_, ?_⟩
  · exact (congrArg Stage.frontier hstage).trans hcut.ended
  · rw [hreported.finalState, hcut.reported.finalState]
    exact congrArg Stage.state hstage
  · rw [hreported.steps, hcut.reported.steps]
    exact congrArg Stage.steps hstage
  · rw [hcut.reported.visitedNodes, hnew, hp]
  · have hstep : request.step = r.1.steps := hcut.cutAt.keeps.step
    rw [hnew, hcut.reported.steps, hcount, hstep]
  · obtain ⟨ws₁, ws', hws, hws', hkept⟩ := hretraces.writes
    obtain rfl := List.append_cancel_left (hws.symm.trans hcut.writes)
    refine ⟨ws ++ ws', ?_, ?_⟩
    · rw [hleft, hws', hlog, List.append_assoc]
    · rw [kept_append, hbranch.kept, hkept]
      rfl

/-- A call that goes on from the cut of another. -/
theorem Call.Cut.goesOn (hg : Compiled g) {b : Behaviour E} (hb : E.Behaves b)
    (hcut : call.Cut g m report request after ctx earlier later r q)
    (hresolved : Resolved g request.intoCheckpoint r.1.frontier)
    (hrange : request.intoCheckpoint.InRange)
    (hrestore : E.restore request.snapshot = .ok r.1.state) (hgoes : again.GoesOn)
    (hread : again.Reads m₂ request.intoCheckpoint)
    (hpolicy : again.mode.policy = call.mode.policy ∨ again.mode.policy = none)
    (hhops : call.config.hops ≤ again.config.hops)
    (hbudget : report.steps ≤ request.step + again.config.maxSteps) :
    wp (again.run g)
      (fun outcome m₃ => ∃ report', outcome = .completed report' ∧
        again.EndsAlike g m₂ m₃ report request r.1.visitedNodes later
          (if again.mode.policy.isSome then kept after else []) report')
      (fun e _ => CutShort e) m₂ := by
  obtain ⟨ls, m₁, henter, -⟩ := hcut.entered
  obtain ⟨seed, hwatch, hv⟩ := hcut.valid
  have hs₂ : Sound g .all again m₂ := sound_all fun checkpoint hread' => by
    rw [hread'.unique hread]
    exact hrange
  have henters := Determined.enter hgoes hread
    ((validate_iff hg.indexed (unreserved hg)).mpr hresolved) hresolved.paths.node
    hcut.cutAt.interrupt hrestore
  rw [Call.run_eq, wp_bind, wp_iff]
  refine ⟨?_, fun e m₃ he => wp_of_error henters he⟩
  rintro ⟨ctx₂, ls₂⟩ m₃ henter₂
  obtain ⟨hstate, hfrontier, hvisited⟩ := wp_of_ok henters henter₂
  have hentered := wp_of_ok (wp_enter hg hs₂) henter₂
  obtain ⟨seed₂, hwatch₂, hv₂⟩ := hentered.valid
  obtain ⟨ls₀, ws₀, ws₁, hstarts, -, hbranch, hsave, hlog⟩ := hentered.log
  obtain rfl := hsave.unsaved hgoes.savesEmpty
  obtain ⟨⟨hlanded, hlimit⟩, -⟩ :=
    wp_of_ok (loose_steady.enter loose_creates loose_saves again) henter₂
  obtain ⟨⟨hlanded₁, -⟩, -⟩ :=
    wp_of_ok (loose_steady.enter loose_creates loose_saves call) henter
  have htwin := hcut.twin hread hpolicy hlanded.lands (hsave.policy.trans hstarts.policy) hstate
    hfrontier
  obtain ⟨hvq, hgrows, -⟩ := hcut.turns.grows (placed hg) hwatch hv
  have hstart : ls₂.steps = request.step :=
    (congrArg Stage.steps htwin.stage).trans hcut.cutAt.keeps.step.symm
  have hstep : request.step = r.1.steps := hcut.cutAt.keeps.step
  have hmax : ctx₂.maxSteps = again.config.maxSteps := hlanded.maxSteps
  have hend := hcut.reported.steps
  have hroom := hvq.room.steps_le
  have hlimit_le := hvq.room.limit_le
  simp only at hlimit
  simp only
  rw [wp_bind]
  refine wp_mono (htwin.runLoop (placed hg) hwatch hwatch₂ hb hcut.turns hcut.ended hv ?_
    ?_ ?_ hv₂) ?_ fun e _ he => he.imp_right .inl
  · show ctx.hops ≤ ctx₂.hops
    rw [hlanded₁.begun.hops, hlanded.begun.hops]
    exact hhops
  · show q.1.steps ≤ ctx₂.absoluteStepLimit
    omega
  · omega
  rintro ended m₄ ⟨ls₃, rfl, hretraces⟩
  rw [wp_bind]
  refine wp_mono wp_leaveLoop ?_ fun e _ he => .inl he
  rintro outcome m₅ ⟨⟨report', rfl, hreported⟩, hw⟩
  rw [Call.conclude_completed, wp_pure]
  rw [List.append_nil] at hlog
  exact ⟨report', rfl, hcut.endsAlike hg henter₂ hlog hbranch hvisited hretraces hreported hw⟩

end Cut

/-- **Resume, replay and fork are equivalent to not having stopped.** From every save that the store
accepted of a call that returned a report, a call that goes on as that one, with as much budget
left, commits the stages that were committed after the save: the states, the counters and the
frontiers. It ends in the same state with the same counters, has visited the nodes that were visited
after the save, and has saved the same boundaries, or none where it is read-only. It can only be cut
short from outside or by the store. -/
theorem continued_equivalent (hg : Compiled g) (hversion : g.version ≠ none) {b : Behaviour E}
    (hb : E.Behaves b)
    (hcodec : ∀ state snapshot, E.snapshot state = .ok snapshot → E.restore snapshot = .ok state)
    (call : Call E) (m : Machine E)
    (hrange : ∀ checkpoint, call.Reads m checkpoint → checkpoint.InRange) {report : RunReport E}
    {m' : Machine E} (hrun : call.run g m = .ok (.completed report) m')
    {before after : List (StoreWrite E)} {branchId : Option BranchId}
    {request : CheckpointRequest E.Snapshot E.Value} {chk : Checkpoint E.Snapshot E.Value}
    (hwrites : m'.writes = m.writes ++
      (before ++ .save branchId request (some (.ok chk)) :: after)) :
    ∃ earlier later visited, call.Runs g m (earlier ++ later) ∧
      ∀ (again : Call E) (m₂ : Machine E), again.GoesOn → again.Reads m₂ request.intoCheckpoint →
        (again.mode.policy = call.mode.policy ∨ again.mode.policy = none) →
        call.config.hops ≤ again.config.hops →
        report.steps ≤ request.step + again.config.maxSteps →
        wp (again.run g)
          (fun outcome m₃ => ∃ report', outcome = .completed report' ∧
            again.EndsAlike g m₂ m₃ report request visited later
              (if again.mode.policy.isSome then kept after else []) report')
          (fun e _ => CutShort e) m₂ := by
  have hs := sound_all (g := g) hrange
  obtain ⟨ctx, earlier, later, r, q, hcut⟩ := Call.cut hg hs hrun hwrites
  obtain ⟨ls, m₁, henter, hearlier⟩ := hcut.entered
  have hlog : call.Writes g m _ := .inl ⟨_, m', hrun, hwrites⟩
  obtain ⟨state, frontier, hrecorded⟩ := durable_of_log (hlog.log hg hs trivial)
    (List.mem_append_right before List.mem_cons_self)
  have hloadable := hrecorded.durable.loadable hg hs
  have hresolved := hrecorded.resolved hg hs hversion
  obtain rfl : frontier = r.1.frontier :=
    PathsOf.inj hg.indexed hresolved.paths hcut.cutAt.keeps.frontier
  refine ⟨earlier, later, r.1.visitedNodes,
    ⟨ctx, ls, m₁, q, henter, hearlier.trans hcut.turns, hcut.ended⟩, ?_⟩
  intro again m₂ hgoes hread hpolicy hhops hbudget
  exact hcut.goesOn hg hb hresolved ⟨hloadable.steps_le, hloadable.superstep_le⟩
    (hcodec _ _ hcut.cutAt.keeps.snapshot) hgoes hread hpolicy hhops hbudget

namespace Race

/-- The first boundary that the invocation saves: after `f`, before `a` and `b`. -/
def request : CheckpointRequest (List NodePath) Unit where
  checkpointId := ⟨⟨0⟩⟩
  expectedParent := none
  graphVersion := some ⟨"1"⟩
  threadId := ⟨"t"⟩
  runId := ⟨⟨0⟩⟩
  superstep := 1
  step := 1
  snapshot := [.root ⟨"f"⟩]
  nextFrontier := [.root ⟨"a"⟩, .root ⟨"b"⟩]
  completed := false
  interrupt := none

/-- Resume the latest checkpoint. -/
def again : Call (env Unit Unit) :=
  .resume ⟨⟨"t"⟩, .latest, .everySuperstep, ⟨10, ⟨.none, false⟩, ⟨false, none, none⟩, 10⟩, none,
    none⟩ .ok

/-- The machine whose store holds the boundary, and on which `b` completes before `a`. -/
def restarted : Machine (env Unit Unit) := ⟨⟨[1], [request.intoCheckpoint]⟩, [], []⟩

/-- The first save of a call that returned a report, and the steps it reported. -/
def firstSave : EStateM.Result Stop (Machine (env Unit Unit)) (ExecutionOutcome (env Unit Unit)) →
    Option (CheckpointRequest (List NodePath) Unit × Checkpoint (List NodePath) Unit × Nat)
  | .ok (.completed report) ⟨_, _, .save none request (some (.ok chk)) :: _⟩ =>
    some (request, chk, report.steps)
  | _ => none

theorem call_saves : ∃ report m' after, call.run graph (machine [0]) = .ok (.completed report) m' ∧
    m'.writes = .save none request (some (.ok request.intoCheckpoint)) :: after ∧
    report.steps = 4 := by
  have hrun : firstSave (call.run graph (machine [0])) =
      some (request, request.intoCheckpoint, 4) := by decide +kernel
  unfold firstSave at hrun
  split at hrun
  · rename_i report world events request' chk after hrun'
    simp only [Option.some.injEq, Prod.mk.injEq] at hrun
    obtain ⟨rfl, rfl, hsteps⟩ := hrun
    exact ⟨report, _, after, hrun', rfl, hsteps⟩
  · cases hrun

/-- The resume loads it. -/
theorem again_reads : again.Reads restarted request.intoCheckpoint := ⟨_, _, rfl⟩

/-- A resume of the boundary ends in the state that the invocation ended in, and there is one. -/
theorem continued_equivalent_race : again.Reads restarted request.intoCheckpoint ∧
    ∃ report m', call.run graph (machine [0]) = .ok (.completed report) m' ∧
      ∀ m₂ outcome m₃, again.Reads m₂ request.intoCheckpoint →
        again.run graph m₂ = .ok outcome m₃ → ∃ report', outcome = .completed report' ∧
          report'.finalState = report.finalState ∧ report'.steps = 4 ∧
          report'.visitedNodes.length = 3 := by
  obtain ⟨report, m', after, hrun, hwrites, hsteps⟩ := call_saves
  refine ⟨again_reads, report, m', hrun, fun m₂ outcome m₃ hread hagain => ?_⟩
  have hcodec : ∀ state snapshot, (env Unit Unit).snapshot state = .ok snapshot →
      (env Unit Unit).restore snapshot = .ok state := by
    rintro state _ ⟨⟩
    rfl
  have hlog : m'.writes = (machine [0]).writes ++
      ([] ++ .save none request (some (.ok request.intoCheckpoint)) :: after) := hwrites
  have hbudget : report.steps ≤ request.step + again.config.maxSteps := by
    rw [hsteps]
    decide
  obtain ⟨earlier, later, visited, -, hcontinues⟩ := continued_equivalent compiled (by decide)
    behaves hcodec call (machine [0]) (fun _ h => h.elim) hrun hlog
  obtain ⟨report', rfl, halike⟩ := wp_of_ok (hcontinues again m₂ (.resume rfl) hread (.inl rfl)
    (Nat.le_refl _) hbudget) hagain
  refine ⟨report', rfl, halike.finalState, halike.steps.trans hsteps, ?_⟩
  have hcounts : 4 = 1 + report'.visitedNodes.length := hsteps.symm.trans halike.counts
  omega

end Race

end GroupAgent.Core
