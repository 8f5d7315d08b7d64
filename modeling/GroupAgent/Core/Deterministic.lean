import GroupAgent.Core.Determined
import GroupAgent.Core.Race

/-!
# Parallel super-steps are deterministic

A super-step of `execute_internal` (`runtime.rs:369-890`) whose nodes all make an update has one
outcome: in whatever order the futures of its nodes complete, and whatever else the world does, it
leaves the same loop state, saves the same boundary, or stops with the same error, unless it is
disturbed from outside or the store refuses the save.

* `Rejected`: the store has not accepted a save.
* `RuntimeCheckpoint.keeps`: whether the state can be saved where the run is to save it.
* `Behaviour.step`: the outcome of a super-step, from its updates.
* `Determined.superstep`: a super-step comes to it.

Results:
* **`superstep_deterministic`** adds what is saved.

Out of scope: a super-step of several nodes one of which fails, panics or asks for an interrupt.
What it reports does depend on which future completes first; `Behaviour.Spoils` says what it may
report.
-/

namespace GroupAgent.Core

open GroupAgent.Lib

variable {ν ρ : Type} {E : Env ν ρ} {g : CompiledGraph ν ρ}

/-- A save that the store has not accepted. -/
inductive Rejected : Stop → Prop where
  | saveFailed (runId : RunId) (threadId : ThreadId) (superstep step : Nat) (source : SourceError) :
      Rejected (.error (.checkpointSaveFailed runId threadId superstep step source))
  | conflict (runId : RunId) (threadId : ThreadId) (superstep step : Nat)
      (expectedParent actualParent : Option CheckpointId) :
      Rejected (.error
        (.checkpointConflict runId threadId superstep step expectedParent actualParent))
  | branchConflict (runId : RunId) (threadId : ThreadId) (branchId : BranchId)
      (superstep step : Nat) (expectedParent actualParent : Option CheckpointId) :
      Rejected (.error (.branchCheckpointConflict runId threadId branchId superstep step
        expectedParent actualParent))
  | idConflict (runId : RunId) (threadId : ThreadId) (checkpointId : CheckpointId)
      (superstep step : Nat) :
      Rejected (.error (.checkpointIdConflict runId threadId checkpointId superstep step))
  | encodeFailed (runId : RunId) (threadId : ThreadId) (superstep step : Nat)
      (source : CheckpointEncodingError) :
      Rejected (.error (.checkpointEncodeFailed runId threadId superstep step source))

theorem rejected_writeError (c : EnabledCheckpoint) (runId : RunId) (superstep step : Nat)
    (error : CheckpointWriteError) :
    Rejected (.error (c.writeError runId superstep step error)) := by
  unfold EnabledCheckpoint.writeError
  cases error with
  | conflict expectedParent actualParent =>
    cases c.branchId with
    | none => exact .conflict _ _ _ _ _ _
    | some branchId => exact .branchConflict _ _ _ _ _ _ _
  | failed source => exact .saveFailed _ _ _ _ _
  | idempotencyConflict checkpointId => exact .idConflict _ _ _ _ _
  | encoding source => exact .encodeFailed _ _ _ _ _
  | _ => exact .saveFailed _ _ _ _ _

/-- The state of a boundary can be saved, if it is to be saved. -/
def RuntimeCheckpoint.keeps (c : RuntimeCheckpoint) (runId : RunId) (s : Stage E) :
    Except Stop Unit :=
  match c with
  | .disabled => .ok ()
  | .readOnlyReplay _ _ => .ok ()
  | .enabled c =>
    if (RuntimeCheckpoint.enabled c).shouldSave s.frontier.isEmpty then
      match E.snapshot s.state with
      | .ok _ => .ok ()
      | .error source => .error
        (.error (.snapshotFailed runId c.threadId s.superstep s.steps source))
    else .ok ()

/-- The outcome of a super-step, from its updates: the stage it commits to, if that can be saved. -/
def Behaviour.step (b : Behaviour E) (g : CompiledGraph ν ρ) (ctx : RunContext)
    (ls : LoopState E Nat) (graphPath : GraphPath) (batch : List (NodeUpdate E.Update)) :
    Except Stop (Stage E) := do
  let state ← Behaviour.apply ls.state (ls.steps + 1) batch
  let steps := ls.steps + ls.frontier.length
  let targets ← b.routeAll g state (ls.steps + 1) ls.frontier
  let (next, _) ←
    b.normalize g state steps ctx.hops (g.orScopeExit graphPath (canonical id targets)) []
  let s : Stage E := ⟨state, steps, ls.superstep + 1, next⟩
  ls.checkpoints.keeps ctx.runId s
  pure s

/-- Where every node makes an update, what the super-step advances to is its outcome before the
save. -/
theorem Behaviour.Advances.step {b : Behaviour E} {ctx : RunContext} {ls : LoopState E Nat}
    {first : Nat} {rest : List Nat} {r : Except Stop (Advance E Nat)}
    (h : b.Advances g ctx ls first rest r) (hl : ls.frontier = first :: rest)
    {n : CompiledNode ν ρ Nat} (hn : g.items[first]? = some (.node n))
    {batch : List (NodeUpdate E.Update)} (hmakes : b.Makes g ls (ls.steps + 1) ls.frontier batch) :
    (∃ e, r = .error e ∧ b.step g ctx ls n.graphPath batch = .error e) ∨
    ∃ s boundaries, r = .ok (.committed s.state s.steps s.superstep s.frontier boundaries) ∧
      (∀ i ∈ s.frontier, ∃ n, g.items[i]? = some (.node n)) ∧
      b.step g ctx ls n.graphPath batch =
        (ls.checkpoints.keeps ctx.runId s >>= fun _ => .ok s) := by
  obtain ⟨n', v, hn', hran, rfl⟩ := h
  rw [hn] at hn'
  cases hn'
  rw [hl] at hmakes
  rw [hran.of_makes hmakes]
  unfold Behaviour.step
  rw [hl]
  cases Behaviour.apply ls.state (ls.steps + 1) batch with
  | error e => exact .inl ⟨e, rfl, rfl⟩
  | ok state =>
    show (∃ e, b.carry g ctx.hops ls (first :: rest) n.graphPath (.inl state) = .error e ∧ _) ∨ _
    simp only [Behaviour.carry, ok_bind]
    cases hroute : b.routeAll g state (ls.steps + 1) (first :: rest) with
    | error e => exact .inl ⟨e, by rw [error_bind], by rw [error_bind]⟩
    | ok targets =>
      simp only [ok_bind]
      cases hsettle : b.normalize g state (ls.steps + (first :: rest).length) ctx.hops
          (g.orScopeExit n.graphPath (canonical id targets)) [] with
      | error e => exact .inl ⟨e, by rw [error_bind], by rw [error_bind]⟩
      | ok settled =>
        obtain ⟨next, boundaries⟩ := settled
        refine .inr ⟨⟨state, _, _, next⟩, boundaries, ?_, Behaviour.normalize_nodes hsettle, rfl⟩
        show (b.carry g ctx.hops ls (first :: rest) n.graphPath (.inl state)) = _
        simp only [Behaviour.carry, hroute, hsettle, ok_bind, pure_eq_ok]

/-! ## Saving -/

namespace Determined

variable {D : Stop → Prop} {α β γ : Type} {ctx : RunContext}

/-- A call of the checkpointer is cut short from outside, its start fails, or it is answered. -/
theorem awaitCall {X : GraphRunError → Prop} {C : Prop} (step : Nat)
    {start : M E (Except GraphRunError γ)} {future : γ → Future E.World β}
    {log : γ → Option β → M E Unit} {finish : γ → β → Except GraphRunError α}
    (hX : ∀ error, Disturbed (.error error) → X error)
    (hstart : Within (Loose (E := E)) start
      (fun r => (∀ error, r = .error error → X error) ∧ ∀ c, r = .ok c → C) D)
    (hlog : ∀ c answer, Within (Loose (E := E)) (log c answer) (fun _ => True) D)
    (hfinish : ∀ c answer error, finish c answer = .error error → X error) :
    Within (Loose (E := E)) (awaitRunBoundary ctx step (Task.call start future log finish))
      (fun r => (∀ error, r = .error error → X error) ∧ ∀ a, r = .ok a → C) D := by
  have herror : ∀ {r : Except GraphRunError α} {error}, r = .error error → X error →
      (∀ error, r = .error error → X error) ∧ ∀ a, r = .ok a → C := by
    rintro _ error rfl h
    refine ⟨?_, fun _ hok => by cases hok⟩
    rintro _ ⟨⟩
    exact h
  unfold awaitRunBoundary
  split
  · refine within_bind hstart fun r hr => ?_
    cases r with
    | error error => exact within_pure (herror rfl (hr.1 error rfl))
    | ok c =>
      refine within_bind (P := fun _ => True) (fun m => ⟨trivial, rfl⟩) fun answer _ => ?_
      exact within_seq (hlog c _) (within_pure ⟨hfinish c answer, fun _ _ => hr.2 c rfl⟩)
  · refine within_bind (P := fun r => ∀ result, r = .ready result →
      (∀ error, result = .error error → X error) ∧ ∀ a, result = .ok a → C) ?_ ?_
    · refine within_bind (P := fun _ => True) (fun m => ⟨trivial, rfl⟩) fun r _ => ?_
      match r with
      | some .cancelled => exact within_pure nofun
      | some (.elapsed passed h) => exact within_pure nofun
      | none =>
        refine within_bind hstart fun r hr => ?_
        cases r with
        | error error =>
          refine within_pure ?_
          rintro _ ⟨⟩
          exact herror rfl (hr.1 error rfl)
        | ok c =>
          refine within_bind (P := fun _ => True) (fun m => ⟨trivial, rfl⟩) fun answer _ => ?_
          cases answer with
          | cancelled => exact within_seq (hlog c _) (within_pure nofun)
          | elapsed passed h => exact within_seq (hlog c _) (within_pure nofun)
          | ready answer =>
            refine within_seq (hlog c _) (within_pure ?_)
            rintro _ ⟨⟩
            exact ⟨hfinish c answer, fun _ _ => hr.2 c rfl⟩
    · intro r hr
      cases r with
      | cancelled => exact within_pure (herror rfl (hX _ (.cancelled _ _ _)))
      | elapsed passed h =>
        refine within_bind (deadlineError (h ▸ blames_run ctx.control none)) fun error he => ?_
        exact within_pure (herror rfl (hX error he))
      | ready result => exact within_pure (hr result rfl)

variable (hD : ∀ e, Disturbed e → D e) (hrejected : ∀ e, Rejected e → D e)

include hD hrejected

/-- A save fails for the state, or for what the store says. -/
theorem saveBoundary {c : EnabledCheckpoint} {state : E.State}
    {boundary : CheckpointBoundary E.Value} :
    Within (Loose (E := E)) (Core.saveBoundary ctx (.enabled c) state boundary)
      (fun _ => ∃ snapshot, E.snapshot state = .ok snapshot)
      (fun e => D e ∨ ∃ source, E.snapshot state = .error source ∧ e = .error
        (.snapshotFailed ctx.runId c.threadId boundary.superstep boundary.step source)) := by
  let X : GraphRunError → Prop := fun error => D (.error error) ∨
    ∃ source, E.snapshot state = .error source ∧
      error = .snapshotFailed ctx.runId c.threadId boundary.superstep boundary.step source
  have hstop : ∀ error, X error → D (.error error) ∨ ∃ source, E.snapshot state = .error source ∧
      Stop.error error = .error
        (.snapshotFailed ctx.runId c.threadId boundary.superstep boundary.step source) := by
    rintro error (he | ⟨source, hsource, rfl⟩)
    · exact .inl he
    · exact .inr ⟨source, hsource, rfl⟩
  unfold Core.saveBoundary
  refine within_bind (awaitCall (X := X) (C := ∃ snapshot, E.snapshot state = .ok snapshot)
    boundary.step (fun _ he => .inl (hD _ he)) ?_ ?_ ?_) fun r hr => ?_
  · unfold EnabledCheckpoint.request
    split
    · rename_i source hsource
      refine within_pure ⟨?_, fun _ h => by cases h⟩
      rintro _ ⟨⟩
      exact .inr ⟨source, hsource, rfl⟩
    · rename_i snapshot hsnapshot
      refine within_bind (P := fun _ => True) (fun m => ⟨trivial, rfl⟩) fun id _ => ?_
      exact within_pure ⟨fun _ h => (by cases h), fun _ _ => ⟨snapshot, hsnapshot⟩⟩
  · exact fun request answer => within_modify fun m => rfl
  · rintro request (error | checkpoint) _ ⟨⟩
    exact .inl (hrejected _ (rejected_writeError c _ _ _ error))
  · refine within_bind (P := fun _ => ∃ snapshot, E.snapshot state = .ok snapshot)
      (loose_steady.calm.orFail ctx hr.2 fun error he => hstop error (hr.1 error he)) ?_
    exact fun saved hsaved => within_bind (emit _ _).value fun _ _ => within_pure hsaved

theorem saveCommitted {c : RuntimeCheckpoint} {s : Stage E}
    (hnodes : ∀ i ∈ s.frontier, ∃ n, g.items[i]? = some (.node n)) :
    Within (Loose (E := E))
      (Core.saveCommitted g.nav ctx c s.state s.superstep s.steps s.frontier)
      (fun _ => c.keeps ctx.runId s = .ok ())
      (fun e => D e ∨ c.keeps ctx.runId s = .error e) := by
  unfold Core.saveCommitted RuntimeCheckpoint.keeps
  cases c with
  | disabled => exact within_pure rfl
  | readOnlyReplay _ _ => exact within_pure rfl
  | enabled c =>
    simp only
    split
    · refine within_bind (pathsOf hnodes) fun paths _ => ?_
      refine within_bind (within_mono (saveBoundary hD hrejected) (fun _ h => h) ?_) ?_
      · rintro e (he | ⟨source, hsource, rfl⟩)
        · exact .inl he
        · rw [hsource]
          exact .inr rfl
      · rintro saved ⟨snapshot, hsnapshot⟩
        rw [hsnapshot]
        refine within_bind (within_mono (controlRun hD ctx _ _).value (fun _ h => h)
          fun _ h => .inl h) fun _ _ => ?_
        exact within_pure rfl
    · exact within_pure rfl

/-- What a committed super-step moves the loop on to. -/
structure MovedTo (g : CompiledGraph ν ρ) (ls : LoopState E Nat) (s : Stage E)
    (ls' : LoopState E Nat) : Prop where
  stage : ls'.stage = s
  visited : ∃ paths, PathsOf g ls.frontier paths ∧ ls'.visitedNodes = ls.visitedNodes ++ paths
  resumeNode : ls'.resumeNode = none
  resumeValue : ls'.resumeValue = none

theorem commit {ls : LoopState E Nat} {firstNode : NodePath} {s : Stage E}
    {boundaries : List SubgraphBoundary}
    (hnodes : ∀ i ∈ ls.frontier, ∃ n, g.items[i]? = some (.node n))
    (hnext : ∀ i ∈ s.frontier, ∃ n, g.items[i]? = some (.node n)) :
    Within (Loose (E := E))
      (Core.commit g.nav ctx ls firstNode s.state s.steps s.superstep s.frontier boundaries)
      (fun ls' => ls.checkpoints.keeps ctx.runId s = .ok () ∧ MovedTo g ls s ls')
      (fun e => D e ∨ ls.checkpoints.keeps ctx.runId s = .error e) := by
  have hstop : ∀ e, D e → D e ∨ ls.checkpoints.keeps ctx.runId s = .error e := fun _ he => .inl he
  unfold Core.commit
  refine within_bind (saveCommitted hD hrejected hnext) fun checkpoints hkeeps => ?_
  unfold moveOn
  refine within_bind (within_mono (comesTo_forM fun _ _ => emit _ _).value (fun _ h => h) hstop)
    fun _ _ => ?_
  refine within_bind (emitIf (within_pure trivial)).value fun _ _ => ?_
  refine within_bind (within_mono (controlRun hD ctx _ _).value (fun _ h => h) hstop) fun _ _ => ?_
  refine within_bind (pathsOf hnodes) fun paths hpaths => ?_
  exact within_pure ⟨hkeeps, rfl, ⟨paths, hpaths, rfl⟩, rfl, rfl⟩

/-- **A super-step whose nodes all make an update comes to one outcome.** -/
theorem superstep {b : Behaviour E} (hb : E.Behaves b) {ls : LoopState E Nat} {first : Nat}
    {rest : List Nat} (hl : ls.frontier = first :: rest) {n : CompiledNode ν ρ Nat}
    (hn : g.items[first]? = some (.node n)) {batch : List (NodeUpdate E.Update)}
    (hmakes : b.Makes g ls (ls.steps + 1) ls.frontier batch)
    (hroom : (∀ e, Budgeted e → D e) ∨ Spacious ctx ls (first :: rest)) :
    Within (Loose (E := E)) (Core.superstep g.nav ctx ls first rest)
      (fun next => ∃ s ls', next = .inl ls' ∧ b.step g ctx ls n.graphPath batch = .ok s ∧
        MovedTo g ls s ls')
      (fun e => D e ∨ b.step g ctx ls n.graphPath batch = .error e) := by
  have hnodes : ∀ i ∈ ls.frontier, ∃ n, g.items[i]? = some (.node n) := hmakes.paths.node
  unfold Core.superstep
  refine within_bind (nodeAt_within hn) fun node hnode => ?_
  subst hnode
  refine within_bind (within_mono (advance hD hb (hl ▸ hnodes) hroom) (fun _ h => h) ?_)
    fun advanced hadvanced => ?_
  · rintro e (he | he)
    · exact .inl he
    · rcases he.step hl hn hmakes with ⟨e', he', hstep⟩ | ⟨s, boundaries, hok, -⟩
      · cases he'
        exact .inr hstep
      · cases hok
  · rcases hadvanced.step hl hn hmakes with ⟨e, he, -⟩ | ⟨s, boundaries, hok, hnext, hstep⟩
    · cases he
    · cases hok
      refine within_map (within_mono (commit hD hrejected hnodes hnext) (fun _ h => h) ?_) ?_
      · rintro e (he | he)
        · exact .inl he
        · rw [hstep, he]
          exact .inr rfl
      · rintro ls' ⟨hkeeps, hmoved⟩
        exact ⟨s, ls', rfl, by rw [hstep, hkeeps]; rfl, hmoved⟩

end Determined

/-! ## What is saved -/

/-- What a run that checkpoints as `c` saves of a stage, and how checkpointing goes on: nothing, or
one request that the store accepts. -/
inductive Keeping (g : CompiledGraph ν ρ) (runId : RunId) (c : RuntimeCheckpoint) (s : Stage E) :
    RuntimeCheckpoint → List (StoreWrite E) → Prop where
  | skipped (h : c.shouldSave s.frontier.isEmpty = false) : Keeping g runId c s c []
  | saved {e : EnabledCheckpoint} {paths : List NodePath} {snapshot : E.Snapshot}
      {checkpointId : CheckpointId} {chk : Checkpoint E.Snapshot E.Value} (hc : c = .enabled e)
      (h : c.shouldSave s.frontier.isEmpty = true) (hpaths : PathsOf g s.frontier paths)
      (hsnapshot : E.snapshot s.state = .ok snapshot) :
      Keeping g runId c s (.enabled (e.after chk.id))
        [.save e.branchId (e.build runId snapshot checkpointId
          ⟨s.superstep, s.steps, paths, s.frontier.isEmpty, none⟩) (some (.ok chk))]

theorem keeping_saveCommitted {ctx : RunContext} {c : RuntimeCheckpoint} {s : Stage E}
    {m : Machine E} (hnodes : ∀ i ∈ s.frontier, ∃ n, g.items[i]? = some (.node n)) :
    wp (saveCommitted g.nav ctx c s.state s.superstep s.steps s.frontier)
      (fun k m' => ∃ ws, Keeping g ctx.runId c s k ws ∧ m'.writes = m.writes ++ ws)
      (fun _ _ => True) m := by
  unfold saveCommitted
  split
  · rename_i hsave
    cases c with
    | disabled => cases hsave
    | readOnlyReplay _ _ => cases hsave
    | enabled e =>
      rw [wp_bind]
      refine wp_quiet (quiet_pathsOf (S := fun _ => True) hnodes) ?_ fun _ _ _ _ => trivial
      intro paths m₁ _ hpaths hm₁
      rw [wp_bind]
      refine wp_mono (wp_saveBoundary .all) ?_ fun _ _ _ => trivial
      rintro _ m₂ ⟨chk, ws, hlog, hw, rfl⟩
      rw [wp_bind]
      have hcontrol : Quiet (controlRun ctx none s.steps : M E Unit) (fun _ => True) (Fine .all) :=
        quiet_controlRun ctx none s.steps
      refine wp_quiet hcontrol ?_ fun _ _ _ _ => trivial
      intro _ m₃ _ _ hm₃
      refine ⟨ws, ?_, by rw [hm₃, hw, hm₁]⟩
      cases hlog with
      | accepted hsnapshot => exact .saved rfl hsave hpaths hsnapshot
  · rename_i hsave
    exact ⟨[], .skipped (by simpa using hsave), (List.append_nil _).symm⟩

/-- What a committed super-step saves of the stage it commits to. -/
theorem keeping_superstep (hg : Placed g) {seed : Option (List Nat)} {tol : Tolerance}
    (hwatch : Watch g tol seed) {ctx : RunContext} {ls : LoopState E Nat} (hv : Valid g seed ctx ls)
    {first : Nat} {rest : List Nat} (hl : ls.frontier = first :: rest) {m : Machine E} :
    wp (superstep g.nav ctx ls first rest)
      (fun next m' => ∀ ls', next = .inl ls' →
        ∃ ws, Keeping g ctx.runId ls.checkpoints ls'.stage ls'.checkpoints ws ∧
          m'.writes = m.writes ++ ws) (fun _ _ => True) m := by
  have hfit : Fits E g .all ctx := ⟨.inl trivial, .inl trivial⟩
  obtain ⟨n, hn⟩ := hv.frontier.node (i := first) (by rw [hl]; exact List.mem_cons_self)
  unfold superstep
  rw [nodeAt_eq hn, pure_bind, wp_bind]
  refine wp_quiet (quiet_advance hg hwatch.relax hfit hl hv.frontier hv.room (.inl trivial)) ?_
    fun _ _ _ _ => trivial
  rintro advanced m₁ - hadvanced hm₁
  cases hadvanced with
  | suspended =>
    simp only [wp_map]
    refine wp_iff.mpr ⟨?_, fun _ _ _ => trivial⟩
    rintro report m' - _ ⟨⟩
  | @committed state steps superstep next boundaries _ _ _ _ hnext =>
    simp only [wp_map]
    unfold commit
    rw [wp_bind]
    refine wp_mono (keeping_saveCommitted (s := ⟨state, steps, superstep, next⟩)
      fun i hi => hnext.node hi) ?_ fun _ _ _ => trivial
    rintro k m₂ ⟨ws, hkeeping, hw⟩
    have htail : Quiet (moveOn g.nav ctx ls n.path state steps superstep next boundaries k)
        (fun ls' => ls'.stage = ⟨state, steps, superstep, next⟩ ∧ ls'.checkpoints = k)
        (Fine .all) := by
      unfold moveOn
      refine yields_seq (quiet_emitAll _ _ _) ?_
      refine yields_seq (quiet_emitIf (yields_pure trivial)) ?_
      refine yields_seq (quiet_controlRun _ _ _) ?_
      exact yields_bind (quiet_pathsOf fun i hi => hv.frontier.node hi) fun paths _ =>
        yields_pure ⟨rfl, rfl⟩
    refine wp_quiet htail ?_ fun _ _ _ _ => trivial
    rintro ls' m₃ - ⟨hstage, rfl⟩ hm₃ _ ⟨⟩
    exact ⟨ws, hstage ▸ hkeeping, by rw [hm₃, hw, hm₁]⟩

/-- Whatever a super-step whose nodes all make an update sends to the store is its outcome. -/
theorem Adds.outcome {b : Behaviour E} (hb : E.Behaves b) {ctx : RunContext} {ls : LoopState E Nat}
    {first : Nat} {rest : List Nat} (hl : ls.frontier = first :: rest) {n : CompiledNode ν ρ Nat}
    (hn : g.items[first]? = some (.node n)) {batch : List (NodeUpdate E.Update)}
    (hmakes : b.Makes g ls (ls.steps + 1) ls.frontier batch) {m : Machine E}
    {k : Option RuntimeCheckpoint} {ws : List (StoreWrite E)} (h : Adds g ctx ls m k ws)
    {branchId : Option BranchId} {request : CheckpointRequest E.Snapshot E.Value}
    {answer : Option (Except CheckpointWriteError (Checkpoint E.Snapshot E.Value))}
    (hw : .save branchId request answer ∈ ws) :
    ∃ s, b.step g ctx ls n.graphPath batch = .ok s ∧ Keeps g request s := by
  have hnodes : ∀ i ∈ ls.frontier, ∃ n, g.items[i]? = some (.node n) := hmakes.paths.node
  have hadvances : Within Loose (advance g.nav ctx ls first rest)
      (fun a => b.Advances g ctx ls first rest (.ok a)) (fun _ => True) :=
    within_mono (Determined.advance (D := fun _ => True) (fun _ _ => trivial) hb (hl ▸ hnodes)
      (.inl fun _ _ => trivial)) (fun _ h => h) fun _ _ => trivial
  cases h with
  | nothing => cases hw
  | @boundary c first' rest' state steps superstep next boundaries m₁ paths out ws hc hl' hadv
      hpaths hlog =>
    rw [hl] at hl'
    cases hl'
    obtain ⟨snapshot, checkpointId, hsnapshot, rfl⟩ := hlog.request hw
    rcases (hadvances.of_ok hadv).1.step hl hn hmakes with
      ⟨e, he, -⟩ | ⟨s, boundaries', hok, -, hstep⟩
    · cases he
    · cases hok
      refine ⟨s, ?_, hsnapshot, rfl, rfl, hpaths, rfl⟩
      rw [hstep, hc]
      unfold RuntimeCheckpoint.keeps
      simp only [hsnapshot, ite_self]
      rfl
  | @interrupt c first' request' m₁ n' out ws hc hl' hadv =>
    rw [hl] at hl'
    cases hl'
    rcases (hadvances.of_ok hadv).1.step hl hn hmakes with ⟨e, he, -⟩ | ⟨s, boundaries', hok, -, -⟩
    · cases he
    · cases hok

/-- **Parallel determinism.** A super-step whose nodes all make an update has one outcome. It
applies one update of each node, in declaration order. On every machine, hence in whatever order the
futures complete, the loop moves on to that outcome, the nodes visited are those of the frontier,
and one request that keeps the outcome is saved where the policy asks for it; or the super-step
stops with the error of that outcome, or it is disturbed, out of budget, or rejected by the store,
having sent to it nothing else. -/
theorem superstep_deterministic (hg : Compiled g) (call : Call E) (m₀ : Machine E)
    (hrange : ∀ checkpoint, call.Reads m₀ checkpoint → checkpoint.InRange) {ctx : RunContext}
    {ls : LoopState E Nat} {m₁ : Machine E} (hreach : call.Reaches g m₀ ctx (ls, m₁))
    {b : Behaviour E} (hb : E.Behaves b) {first : Nat} {rest : List Nat}
    (hl : ls.frontier = first :: rest) {n : CompiledNode ν ρ Nat}
    (hn : g.items[first]? = some (.node n)) {batch : List (NodeUpdate E.Update)}
    (hmakes : b.Makes g ls (ls.steps + 1) ls.frontier batch) :
    StrictlyBy id ls.frontier ∧ PathsOf g ls.frontier (batch.map NodeUpdate.nodePath) ∧
    ∀ m, wp (superstep g.nav ctx ls first rest)
      (fun next m' => ∃ s ls' ws, next = .inl ls' ∧ b.step g ctx ls n.graphPath batch = .ok s ∧
        ls'.stage = s ∧ ls'.visitedNodes = ls.visitedNodes ++ batch.map NodeUpdate.nodePath ∧
        Keeping g ctx.runId ls.checkpoints s ls'.checkpoints ws ∧ m'.writes = m.writes ++ ws)
      (fun e m' => (b.step g ctx ls n.graphPath batch = .error e ∨
          Disturbed e ∨ Budgeted e ∨ Rejected e) ∧
        ∃ ws, m'.writes = m.writes ++ ws ∧ ∀ branchId request answer,
          .save branchId request answer ∈ ws →
            ∃ s, b.step g ctx ls n.graphPath batch = .ok s ∧ Keeps g request s) m := by
  have hs := sound_all (g := g) hrange
  obtain ⟨seed, hwatch, hv⟩ := hreach.valid hg hs
  refine ⟨hv.frontier.strict, hmakes.paths, fun m => ?_⟩
  have houtcome : Within Loose (superstep g.nav ctx ls first rest) _ _ :=
    Determined.superstep (D := fun e => Disturbed e ∨ Budgeted e ∨ Rejected e) (fun _ h => .inl h)
      (fun _ h => .inr (.inr h)) hb hl hn hmakes (.inl fun _ h => .inr (.inl h))
  have hkeeping := keeping_superstep (m := m) (placed hg) hwatch hv hl
  have hfit : Fits E g .all ctx := ⟨.inl trivial, .inl trivial⟩
  have hstepped := wp_superstep (m := m) (placed hg) hwatch.relax hfit hl hv (.inl trivial)
  refine wp_iff.mpr ⟨fun next m' hnext => ?_, fun e m' he => ?_⟩
  · obtain ⟨s, ls', rfl, hstep, hmoved⟩ := (houtcome.of_ok hnext).1
    obtain ⟨ws, hkeep, hw⟩ := wp_of_ok hkeeping hnext ls' rfl
    obtain ⟨paths, hpaths, hvisited⟩ := hmoved.visited
    obtain rfl := Determined.paths_unique hpaths hmakes.paths
    rw [hmoved.stage] at hkeep
    exact ⟨s, ls', ws, rfl, hstep, hmoved.stage, hvisited, hkeep, hw⟩
  · obtain ⟨-, k, ws, hadds, hw⟩ := wp_of_error hstepped he
    refine ⟨(houtcome.of_error he).1.symm, ws, hw, fun branchId request answer hsave => ?_⟩
    exact hadds.outcome hb hl hn hmakes hsave

namespace Race

/-- The loop state after the first super-step of the invocation. -/
theorem reaches_side : ∃ ctx ls m, call.Reaches graph (machine [1]) ctx (ls, m) ∧
    ls.frontier = [1, 2] ∧ ls.steps = 1 ∧ ls.state = [.root ⟨"f"⟩] := by
  have hside : ∃ p ∈ call.followed graph (machine [1]) 1,
      p.1.frontier = [1, 2] ∧ p.1.steps = 1 ∧ p.1.state = [.root ⟨"f"⟩] := by
    decide +kernel
  obtain ⟨⟨ls, m⟩, hmem, hside⟩ := hside
  obtain ⟨ctx, hreach⟩ := Call.reaches_of_mem hmem
  exact ⟨ctx, ls, m, hreach, hside⟩

/-- Both nodes make an update, and that of `a` is applied first, whichever completes first. -/
theorem superstep_deterministic_race : ∃ ctx ls m₁, call.Reaches graph (machine [1]) ctx (ls, m₁) ∧
    ls.frontier = [1, 2] ∧ ∀ m next m', superstep graph.nav ctx ls 1 [2] m = .ok next m' →
      ∃ ls', next = .inl ls' ∧ ls'.state = [.root ⟨"f"⟩, .root ⟨"a"⟩, .root ⟨"b"⟩] := by
  obtain ⟨ctx, ls, m₁, hreach, hl, hsteps, hstate⟩ := reaches_side
  refine ⟨ctx, ls, m₁, hreach, hl, fun m next m' hnext => ?_⟩
  have hmakes : (behaviour Unit Unit).Makes graph ls (ls.steps + 1) ls.frontier
      [⟨.root ⟨"a"⟩, .root ⟨"a"⟩⟩, ⟨.root ⟨"b"⟩, .root ⟨"b"⟩⟩] := by
    rw [hl]
    refine .cons (n := ⟨.root ⟨"a"⟩, .root, .normal (), .fixed (some 3)⟩) rfl rfl ?_
    exact .cons (n := ⟨.root ⟨"b"⟩, .root, .normal (), .fixed (some 3)⟩) rfl rfl .nil
  obtain ⟨s, ls', ws, rfl, hstep, rfl, -⟩ := wp_of_ok ((superstep_deterministic compiled call
    (machine [1]) (fun _ h => h.elim) hreach behaves hl rfl hmakes).2.2 m) hnext
  refine ⟨ls', rfl, ?_⟩
  unfold Behaviour.step at hstep
  obtain ⟨state, happly, hstep⟩ := bind_eq_ok.mp hstep
  obtain ⟨targets, -, hstep⟩ := bind_eq_ok.mp hstep
  obtain ⟨settled, -, hstep⟩ := bind_eq_ok.mp hstep
  obtain ⟨_, -, hstep⟩ := bind_eq_ok.mp hstep
  have hstate' : ls'.state = state := congrArg Stage.state (Except.ok.inj hstep).symm
  have happlied : ls.state ++ [.root ⟨"a"⟩, .root ⟨"b"⟩] = state := Except.ok.inj happly
  rw [hstate', ← happlied, hstate]
  rfl

end Race

end GroupAgent.Core
