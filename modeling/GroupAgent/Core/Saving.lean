import GroupAgent.Core.Advance
import Mathlib.Logic.Relation

/-!
# What the run loop writes

The writes to the checkpointer are logged by the machine. This file says what a save
(`EnabledCheckpoint::save`, `runtime.rs:2016-2126`), a super-step and the loop (369-890) add to the
log.

* `SaveLog` is one attempt to save a boundary: nothing was sent, the request was refused or not
  waited for, or it was accepted.
* `Adds` is what one super-step adds: nothing, an attempt to save the boundary it advanced to, or
  an attempt to save the boundary before a suspended node.
* `LoopAdds` is what the loop adds: what its super-steps add, one after the other, until an attempt
  fails or the run is over.
* `Valid`: the loop states these lemmas are about, a frontier of real nodes under counters in
  range.

Results: **`runLoop_spec`** proves it of every run from such a state, together with how such a run
can stop.

A log entry is made when a request is sent, before its answer. So a call that is dropped while it
waits has logged a request whose answer is open.
-/

namespace GroupAgent.Core

open GroupAgent.Lib

variable {ν ρ : Type} {E : Env ν ρ}

/-! ## One save -/

/-- The log of one attempt to save a boundary, and the checkpoint it was answered with. -/
inductive SaveLog (c : EnabledCheckpoint) (runId : RunId) (state : E.State)
    (boundary : CheckpointBoundary E.Value) :
    Option (Checkpoint E.Snapshot E.Value) → List (StoreWrite E) → Prop where
  | unsent : SaveLog c runId state boundary none []
  | refused {snapshot : E.Snapshot} {checkpointId : CheckpointId}
      {answer : Option (Except CheckpointWriteError (Checkpoint E.Snapshot E.Value))}
      (hsnapshot : E.snapshot state = .ok snapshot) (hanswer : ∀ chk, answer ≠ some (.ok chk)) :
      SaveLog c runId state boundary none
        [.save c.branchId (c.build runId snapshot checkpointId boundary) answer]
  | accepted {snapshot : E.Snapshot} {checkpointId : CheckpointId}
      {chk : Checkpoint E.Snapshot E.Value} (hsnapshot : E.snapshot state = .ok snapshot) :
      SaveLog c runId state boundary (some chk)
        [.save c.branchId (c.build runId snapshot checkpointId boundary) (some (.ok chk))]

/-- Checkpointing after an accepted save. -/
def EnabledCheckpoint.after (c : EnabledCheckpoint) (chk : CheckpointId) : EnabledCheckpoint :=
  { c with expectedParent := some chk }

/-- The answer of a save, by the checkpoint it was answered with. -/
def SaveAnswers (c : EnabledCheckpoint) (r : Except GraphRunError (SavedCheckpoint × EnabledCheckpoint)) :
    Option (Checkpoint E.Snapshot E.Value) → Prop
  | none => ∃ error, r = .error error
  | some chk => r = .ok (⟨chk.id, c.threadId⟩, c.after chk.id)

section Save

variable {ctx : RunContext} {c : EnabledCheckpoint} {runId : RunId} {state : E.State}
  {boundary : CheckpointBoundary E.Value} {m : Machine E}

@[simp] theorem wp_ask {α : Type} {f : E.World → α × E.World} {Q : α → Machine E → Prop}
    {R : Stop → Machine E → Prop} :
    wp (ask f) Q R m ↔ Q (f m.world).1 { m with world := (f m.world).2 } := Iff.rfl

@[simp] theorem wp_record {write : StoreWrite E} {Q : Unit → Machine E → Prop}
    {R : Stop → Machine E → Prop} :
    wp (record write) Q R m ↔ Q () { m with writes := m.writes ++ [write] } := Iff.rfl

theorem wp_quiet {α : Type} {x : M E α} {P : α → Prop} {S : Stop → Prop} {Q : α → Machine E → Prop}
    {R : Stop → Machine E → Prop} (h : Quiet x P S)
    (hQ : ∀ a m', x m = .ok a m' → P a → m'.writes = m.writes → Q a m')
    (hR : ∀ e m', S e → m'.writes = m.writes → R e m') : wp x Q R m := by
  rw [wp_iff]
  refine ⟨fun a m' hx => ?_, fun e m' hx => ?_⟩
  · exact hQ a m' hx (h.of_ok hx).1 (h.of_ok hx).2
  · exact hR e m' (h.of_error hx).1 (h.of_error hx).2

/-- The run deadline has an error of its own. -/
theorem deadlineError_run (step : Nat) {passed : ActiveDeadline}
    (h : ctx.control.deadline none = some passed) :
    ∃ error, (ActiveControl.deadlineError ctx.runId none step passed : M E GraphRunError) =
      pure error := by
  unfold ActiveControl.deadlineError
  cases passed with
  | run timeout instant => exact ⟨_, rfl⟩
  | node timeout instant => exact absurd rfl (blames_run ctx.control none timeout instant h)

/-- Waiting for a call: it is not started, its start fails, it is dropped, or it is answered. Only
its start and its log can stop the run. -/
theorem wp_awaitCall (step : Nat) {γ β α : Type} {start : M E (Except GraphRunError γ)}
    {future : γ → Future E.World β} {log : γ → Option β → M E Unit}
    {finish : γ → β → Except GraphRunError α} {Q : Except GraphRunError α → Machine E → Prop}
    {R : Stop → Machine E → Prop} (hlate : ∀ error w, Q (.error error) { m with world := w })
    (h : ∀ w, wp start (fun r m' => match r with
      | .error error => Q (.error error) m'
      | .ok c =>
        (∀ error w, wp (log c none) (fun _ m'' => Q (.error error) m'') R
          { m' with world := w }) ∧
        ∀ answer w, wp (log c (some answer))
          (fun _ m'' => Q (finish c answer) m'') R { m' with world := w }) R
      { m with world := w }) :
    wp (awaitRunBoundary ctx step (Task.call start future log finish)) Q R m := by
  unfold awaitRunBoundary
  split
  · simp only [Task.call, wp_bind]
    refine wp_mono (h m.world) (fun r m' hr => ?_) fun _ _ h => h
    cases r with
    | error error => exact hr
    | ok c =>
      simp only [wp_bind, wp_ask]
      exact wp_mono (hr.2 _ _) (fun _ _ h => h) fun _ _ h => h
  · simp only [Task.call, wp_bind, wp_ask]
    cases hp : (E.preempted (ctx.control.deadline none) m.world).1 with
    | some r =>
      cases r with
      | cancelled => exact hlate _ _
      | elapsed passed hforce =>
        obtain ⟨error, herror⟩ := deadlineError_run (E := E) step hforce
        simp only [wp_pure, herror, wp_bind]
        exact hlate _ _
      | ready value => exact value.elim
    | none =>
      simp only [wp_bind]
      refine wp_mono (h _) (fun r m' hr => ?_) fun _ _ h => h
      cases r with
      | error error => exact hr
      | ok c =>
        simp only [wp_bind, wp_ask]
        cases ha : ((future c).select (ctx.control.deadline none) m'.world).1 with
        | cancelled =>
          simp only [wp_bind]
          exact wp_mono (hr.1 _ _) (fun _ _ h => h) fun _ _ h => h
        | elapsed passed hforce =>
          obtain ⟨error, herror⟩ := deadlineError_run (E := E) step hforce
          simp only [wp_bind, wp_pure, herror]
          exact wp_mono (hr.1 _ _) (fun _ _ h => h) fun _ _ h => h
        | ready answer =>
          simp only [wp_bind]
          exact wp_mono (hr.2 _ _) (fun _ _ h => h) fun _ _ h => h

theorem wp_request {Q : Except GraphRunError (CheckpointRequest E.Snapshot E.Value) → Machine E → Prop}
    {R : Stop → Machine E → Prop}
    (herror : ∀ error, Q (.error error) m)
    (hok : ∀ snapshot checkpointId w, E.snapshot state = .ok snapshot →
      Q (.ok (c.build runId snapshot checkpointId boundary)) { m with world := w }) :
    wp (c.request runId state boundary) Q R m := by
  unfold EnabledCheckpoint.request
  cases hs : E.snapshot state with
  | error source => exact herror _
  | ok snapshot =>
    simp only [wp_bind, wp_ask]
    exact hok _ _ _ hs

/-- Go on after a step that writes nothing. -/
theorem wp_bind_quiet {α β : Type} {x : M E α} {f : α → M E β} {P : α → Prop} {S : Stop → Prop}
    {Q : β → Machine E → Prop} {R : Stop → Machine E → Prop} (h : Quiet x P S)
    (hQ : ∀ a m', P a → m'.writes = m.writes → wp (f a) Q R m')
    (hR : ∀ e m', S e → m'.writes = m.writes → R e m') : wp (x >>= f) Q R m := by
  rw [wp_bind]
  exact wp_quiet h (fun a m' _ => hQ a m') hR

/-- Waiting for a save never stops the run by itself. -/
theorem wp_save (step : Nat) : wp (awaitRunBoundary ctx step (c.save runId state boundary))
    (fun r m' => ∃ out ws, SaveLog c runId state boundary out ws ∧ SaveAnswers c r out ∧
      m'.writes = m.writes ++ ws) (fun _ _ => False) m := by
  have hunsent : ∀ (error : GraphRunError) (w : E.World), ∃ out ws,
      SaveLog c runId state boundary out ws ∧ SaveAnswers c (.error error) out ∧
        ({ m with world := w } : Machine E).writes = m.writes ++ ws :=
    fun error _ => ⟨none, [], .unsent, ⟨error, rfl⟩, (List.append_nil _).symm⟩
  refine wp_awaitCall step hunsent fun w => ?_
  refine wp_request (fun error => hunsent error w) fun snapshot id w' hs => ⟨fun error w'' => ?_, ?_⟩
  · rw [wp_record]
    exact ⟨none, _, .refused hs (by simp), ⟨error, rfl⟩, rfl⟩
  · intro answer w''
    rw [wp_record]
    cases answer with
    | error error => exact ⟨none, _, .refused hs (by simp), ⟨_, rfl⟩, rfl⟩
    | ok chk => exact ⟨some chk, _, .accepted hs, rfl, rfl⟩

/-- Saving a boundary adds one attempt, accepted when the run goes on. -/
theorem wp_saveBoundary (tol : Tolerance) : wp (saveBoundary ctx (.enabled c) state boundary)
    (fun r m' => ∃ chk ws, SaveLog c ctx.runId state boundary (some chk) ws ∧
      m'.writes = m.writes ++ ws ∧ r = (⟨chk.id, c.threadId⟩, .enabled (c.after chk.id)))
    (fun e m' => Fine tol e ∧ ∃ ws, SaveLog c ctx.runId state boundary none ws ∧
      m'.writes = m.writes ++ ws) m := by
  unfold saveBoundary
  rw [wp_bind]
  refine wp_mono (wp_save boundary.step) (fun r m' hr => ?_) fun _ _ h => h.elim
  obtain ⟨out, ws, hlog, hr, hw⟩ := hr
  rw [wp_bind]
  cases out with
  | none =>
    obtain ⟨error, rfl⟩ := hr
    have hfail : Quiet (orFail ctx (.error error) : M E (SavedCheckpoint × EnabledCheckpoint))
        (fun _ => False) (Fine tol) := quiet_orFail ctx (by simp)
    refine wp_quiet hfail ?_ ?_
    · exact fun _ _ _ h => h.elim
    · intro e m'' he hm
      exact ⟨he, ws, hlog, by rw [hm, hw]⟩
  | some chk =>
    have hr' : r = .ok (⟨chk.id, c.threadId⟩, c.after chk.id) := hr
    subst hr'
    rw [orFail, wp_pure, wp_bind]
    refine wp_quiet (quiet_emit (S := fun _ => False) _ _) ?_ fun _ _ h => h.elim
    intro _ m'' _ _ hm
    exact ⟨chk, ws, hlog, by rw [hm, hw], rfl⟩

end Save

/-! ## One super-step -/

section Step

variable {g : CompiledGraph ν ρ} {seed : Option (List Nat)} {tol : Tolerance} {ctx : RunContext}
  {ls : LoopState E Nat} {m : Machine E}

/-- What a super-step from `ls` at `m` adds to the log, and how checkpointing goes on if it does. -/
inductive Adds (g : CompiledGraph ν ρ) (ctx : RunContext) (ls : LoopState E Nat) (m : Machine E) :
    Option RuntimeCheckpoint → List (StoreWrite E) → Prop where
  | nothing : Adds g ctx ls m (some ls.checkpoints) []
  | boundary {c : EnabledCheckpoint} {first : Nat} {rest : List Nat} {state : E.State}
      {steps superstep : Nat} {next : List Nat} {boundaries : List SubgraphBoundary}
      {m₁ : Machine E} {paths : List NodePath} {out : Option (Checkpoint E.Snapshot E.Value)}
      {ws : List (StoreWrite E)} (hc : ls.checkpoints = .enabled c) (hl : ls.frontier = first :: rest)
      (hadv : advance g.nav ctx ls first rest m =
        .ok (.committed state steps superstep next boundaries) m₁)
      (hpaths : PathsOf g next paths)
      (hlog : SaveLog c ctx.runId state ⟨superstep, steps, paths, next.isEmpty, none⟩ out ws) :
      Adds g ctx ls m (out.map fun chk => .enabled (c.after chk.id)) ws
  | interrupt {c : EnabledCheckpoint} {first : Nat} {request : InterruptRequest E.Value}
      {m₁ : Machine E} {n : CompiledNode ν ρ Nat} {out : Option (Checkpoint E.Snapshot E.Value)}
      {ws : List (StoreWrite E)} (hc : ls.checkpoints = .enabled c) (hl : ls.frontier = [first])
      (hadv : advance g.nav ctx ls first [] m = .ok (.suspended request) m₁)
      (hn : g.items[first]? = some (.node n))
      (hlog : SaveLog c ctx.runId ls.state
        ⟨ls.superstep, ls.steps, [n.path], false, some (request.intoCheckpoint n.path)⟩ out ws) :
      Adds g ctx ls m (out.map fun chk => .enabled (c.after chk.id)) ws

/-- A loop state a super-step can start from. -/
structure Valid (g : CompiledGraph ν ρ) (seed : Option (List Nat)) (ctx : RunContext)
    (ls : LoopState E Nat) : Prop where
  frontier : Frontier g seed ls.frontier
  room : Room ctx ls.steps ls.superstep

/-- The loop state after a committed super-step. -/
structure Moved (g : CompiledGraph ν ρ) (ctx : RunContext) (ls : LoopState E Nat) (m : Machine E)
    (ls' : LoopState E Nat) : Prop where
  advanced : ∃ first rest boundaries m₁, ls.frontier = first :: rest ∧
    advance g.nav ctx ls first rest m =
      .ok (.committed ls'.state ls'.steps ls'.superstep ls'.frontier boundaries) m₁
  steps : ls'.steps = ls.steps + ls.frontier.length
  superstep : ls'.superstep = ls.superstep + 1
  applies : ∃ batch, Applies g ls.frontier ls.state batch ls'.state
  visited : ∃ paths, PathsOf g ls.frontier paths ∧ ls'.visitedNodes = ls.visitedNodes ++ paths
  resumeNode : ls'.resumeNode = none

theorem wp_saveCommitted (tol : Tolerance) {checkpoints : RuntimeCheckpoint} {state : E.State}
    {superstep steps : Nat} {next : List Nat}
    (h : ∀ i ∈ next, ∃ n, g.items[i]? = some (.node n)) :
    wp (saveCommitted g.nav ctx checkpoints state superstep steps next)
      (fun r m' => (r = checkpoints ∧ m'.writes = m.writes) ∨
        ∃ c paths chk ws, checkpoints = .enabled c ∧ PathsOf g next paths ∧
          SaveLog c ctx.runId state ⟨superstep, steps, paths, next.isEmpty, none⟩ (some chk) ws ∧
          r = .enabled (c.after chk.id) ∧ m'.writes = m.writes ++ ws)
      (fun e m' => Fine tol e ∧ ∃ c paths out ws, checkpoints = .enabled c ∧ PathsOf g next paths ∧
          SaveLog c ctx.runId state ⟨superstep, steps, paths, next.isEmpty, none⟩ out ws ∧
          m'.writes = m.writes ++ ws) m := by
  unfold saveCommitted
  split
  · rename_i hsave
    cases checkpoints with
    | disabled => cases hsave
    | readOnlyReplay _ _ => cases hsave
    | enabled c =>
      rw [wp_bind]
      refine wp_quiet (quiet_pathsOf (S := fun _ => False) h) ?_ fun _ _ h => h.elim
      intro paths m₁ _ hpaths hm₁
      rw [wp_bind]
      refine wp_mono (wp_saveBoundary tol) (fun r m₂ hr => ?_) ?_
      · obtain ⟨chk, ws, hlog, hw, rfl⟩ := hr
        rw [hm₁] at hw
        rw [wp_bind]
        have hcontrol : Quiet (controlRun ctx none steps : M E Unit) (fun _ => True) (Fine tol) :=
          quiet_controlRun ctx none steps
        refine wp_quiet hcontrol ?_ ?_
        · intro _ m₃ _ _ hm₃
          exact Or.inr ⟨c, paths, chk, ws, rfl, hpaths, hlog, rfl, by rw [hm₃, hw]⟩
        · intro e m₃ he hm₃
          exact ⟨he, c, paths, some chk, ws, rfl, hpaths, hlog, by rw [hm₃, hw]⟩
      · rintro e m₂ ⟨he, ws, hlog, hw⟩
        rw [hm₁] at hw
        exact ⟨he, c, paths, none, ws, rfl, hpaths, hlog, hw⟩
  · exact Or.inl ⟨rfl, rfl⟩

/-- What a super-step leaves: a moved loop state, or a saved suspension. -/
def Stepped (g : CompiledGraph ν ρ) (seed : Option (List Nat)) (ctx : RunContext)
    (ls : LoopState E Nat) (m m' : Machine E) : LoopState E Nat ⊕ InterruptReport E → Prop
  | .inl ls' => Moved g ctx ls m ls' ∧ Valid g seed ctx ls' ∧
      ∃ ws, Adds g ctx ls m (some ls'.checkpoints) ws ∧ m'.writes = m.writes ++ ws
  | .inr _ => ∃ c k ws, ls.checkpoints = .enabled c ∧ Adds g ctx ls m k ws ∧
      m'.writes = m.writes ++ ws

/-- How a super-step stops: finely, having added what it adds. -/
def Stopped (g : CompiledGraph ν ρ) (tol : Tolerance) (ctx : RunContext) (ls : LoopState E Nat)
    (m : Machine E) (e : Stop) (m' : Machine E) : Prop :=
  Fine tol e ∧ ∃ k ws, Adds g ctx ls m k ws ∧ m'.writes = m.writes ++ ws

theorem stopped_of_quiet {e : Stop} {m' : Machine E} (he : Fine tol e)
    (hm : m'.writes = m.writes) : Stopped g tol ctx ls m e m' :=
  ⟨he, _, [], .nothing, by rw [hm, List.append_nil]⟩

theorem wp_interruptRun {first : Nat} {request : InterruptRequest E.Value} {m₁ : Machine E}
    {n : CompiledNode ν ρ Nat} (hl : ls.frontier = [first])
    (hadv : advance g.nav ctx ls first [] m = .ok (.suspended request) m₁)
    (hm₁ : m₁.writes = m.writes) (hn : g.items[first]? = some (.node n)) (step : Nat) :
    wp (interruptRun ctx ls n.path request step ls.superstep)
      (fun r m' => Stepped g seed ctx ls m m' (.inr r)) (Stopped g tol ctx ls m) m₁ := by
  unfold interruptRun
  rw [wp_bind]
  refine wp_quiet (quiet_emit (S := fun _ => False) _ _) ?_ fun _ _ h => h.elim
  intro _ m₂ _ _ hm₂
  have hw₂ : m₂.writes = m.writes := hm₂.trans hm₁
  split
  · rename_i error _
    have hfail : Quiet (fail ctx error : M E (InterruptReport E)) (fun _ => False) (Fine tol) :=
      quiet_fail ctx error
    refine wp_quiet hfail (fun _ _ _ h => h.elim) fun e m₃ he hm₃ => ?_
    exact stopped_of_quiet he (hm₃.trans hw₂)
  · rename_i hnone
    cases hc : ls.checkpoints with
    | disabled => rw [hc] at hnone; cases hnone
    | readOnlyReplay _ _ => rw [hc] at hnone; cases hnone
    | enabled c =>
      rw [wp_bind]
      refine wp_mono (wp_saveBoundary tol) (fun r m₃ hr => ?_) ?_
      · obtain ⟨chk, ws, hlog, hw, rfl⟩ := hr
        rw [hw₂] at hw
        have hadds := Adds.interrupt hc hl hadv hn hlog
        rw [wp_bind]
        have hcontrol : Quiet (controlRun ctx none ls.steps : M E Unit) (fun _ => True)
            (Fine tol) := quiet_controlRun ctx none ls.steps
        refine wp_quiet hcontrol ?_ fun e m₄ he hm₄ => ⟨he, _, ws, hadds, by rw [hm₄, hw]⟩
        intro _ m₄ _ _ hm₄
        rw [wp_bind]
        refine wp_quiet (quiet_emit (S := fun _ => False) _ _) ?_ fun _ _ h => h.elim
        intro _ m₅ _ _ hm₅
        rw [wp_bind, wp_get, wp_pure]
        exact ⟨c, _, ws, hc, hadds, by rw [hm₅, hm₄, hw]⟩
      · rintro e m₃ ⟨he, ws, hlog, hw⟩
        rw [hw₂] at hw
        exact ⟨he, _, ws, .interrupt hc hl hadv hn hlog, hw⟩

theorem wp_commit {first : Nat} {rest : List Nat} {firstNode : NodePath} {state : E.State}
    {steps superstep : Nat} {next : List Nat} {boundaries : List SubgraphBoundary} {m₁ : Machine E}
    (hf : Frontier g seed ls.frontier) (hl : ls.frontier = first :: rest)
    (hadv : advance g.nav ctx ls first rest m =
      .ok (.committed state steps superstep next boundaries) m₁)
    (hadvanced : Advanced g seed ctx ls (.committed state steps superstep next boundaries))
    (hm₁ : m₁.writes = m.writes) :
    wp (commit g.nav ctx ls firstNode state steps superstep next boundaries)
      (fun r m' => Stepped g seed ctx ls m m' (.inl r)) (Stopped g tol ctx ls m) m₁ := by
  cases hadvanced with
  | committed hsteps hsuper happlies hroom hnext =>
  -- after the save nothing but a control point can stop the super-step
  have hrest : ∀ (k : RuntimeCheckpoint) (ws : List (StoreWrite E)) (m₂ : Machine E),
      Adds g ctx ls m (some k) ws → m₂.writes = m.writes ++ ws →
      wp (moveOn g.nav ctx ls firstNode state steps superstep next boundaries k)
        (fun r m' => Stepped g seed ctx ls m m' (.inl r)) (Stopped g tol ctx ls m) m₂ := by
    intro k ws m₂ hadds hw
    have htail : Quiet (moveOn g.nav ctx ls firstNode state steps superstep next boundaries k)
        (fun ls' => Moved g ctx ls m ls' ∧ Valid g seed ctx ls' ∧ ls'.checkpoints = k)
        (Fine tol) := by
      unfold moveOn
      refine yields_seq (quiet_emitAll _ _ _) ?_
      refine yields_seq (quiet_emitIf (yields_pure trivial)) ?_
      refine yields_seq (quiet_controlRun _ _ _) ?_
      refine yields_bind (quiet_pathsOf fun i hi => hf.node hi) fun paths hpaths => ?_
      refine yields_pure ⟨⟨?_, hsteps, hsuper, happlies, ⟨paths, hpaths, rfl⟩, rfl⟩,
        ⟨hnext, hroom⟩, rfl⟩
      exact ⟨first, rest, boundaries, m₁, hl, hadv⟩
    refine wp_quiet htail ?_ fun e m₃ he hm₃ => ⟨he, _, ws, hadds, by rw [hm₃, hw]⟩
    rintro ls' m₃ - ⟨hmoved, hvalid, rfl⟩ hm₃
    exact ⟨hmoved, hvalid, ws, hadds, by rw [hm₃, hw]⟩
  unfold commit
  rw [wp_bind]
  refine wp_mono (wp_saveCommitted tol fun i hi => hnext.node hi) ?_ ?_
  · rintro k m₂ (⟨rfl, hw⟩ | ⟨c, paths, chk, ws, hc, hpaths, hlog, rfl, hw⟩)
    · exact hrest _ [] m₂ .nothing (by rw [hw, hm₁, List.append_nil])
    · exact hrest _ ws m₂ (.boundary hc hl hadv hpaths hlog) (by rw [hw, hm₁])
  · rintro e m₂ ⟨he, c, paths, out, ws, hc, hpaths, hlog, hw⟩
    exact ⟨he, _, ws, .boundary hc hl hadv hpaths hlog, by rw [hw, hm₁]⟩

/-- **One super-step**: what it leaves, what it adds to the log, and how it can stop. -/
theorem wp_superstep (hg : Placed g) (hn : Watch g tol seed) (hfit : Fits E g tol ctx) {first : Nat} {rest : List Nat}
    (hl : ls.frontier = first :: rest) (hv : Valid g seed ctx ls) (hcounts : Counts tol ls) :
    wp (superstep g.nav ctx ls first rest) (fun r m' => Stepped g seed ctx ls m m' r)
      (Stopped g tol ctx ls m) m := by
  have hfirst : ∃ n, g.items[first]? = some (.node n) := hv.frontier.node (by rw [hl]; simp)
  unfold superstep
  rw [wp_bind]
  refine wp_quiet (yields_nodeAt (S := fun _ => False) hfirst) ?_ fun _ _ h => h.elim
  intro firstNode m₀ hm hnode hm₀
  have hsame : m₀ = m := by
    rw [nodeAt_eq hnode] at hm
    cases hm
    rfl
  subst hsame
  rw [wp_bind]
  refine wp_quiet (quiet_advance hg hn hfit hl hv.frontier hv.room hcounts) ?_ ?_
  · intro a m₁ hadv hadvanced hm₁
    cases a with
    | suspended request =>
      cases hadvanced with
      | suspended hsingle =>
      have hrest : rest = [] := by
        rw [hl, List.length_cons] at hsingle
        exact List.length_eq_zero_iff.mp (by omega)
      subst hrest
      simp only [wp_map]
      exact wp_interruptRun hl hadv hm₁ hnode _
    | committed state steps superstep next boundaries =>
      simp only [wp_map]
      exact wp_commit hv.frontier hl hadv hadvanced hm₁
  · exact fun e m' he hm' => stopped_of_quiet he hm'

end Step

/-! ## The loop -/

section Loop

variable {g : CompiledGraph ν ρ} {seed : Option (List Nat)} {tol : Tolerance} {ctx : RunContext}

/-- One turn of the loop that went on. -/
def Turn (g : CompiledGraph ν ρ) (ctx : RunContext) (p q : LoopState E Nat × Machine E) : Prop :=
  ∃ first rest, p.1.frontier = first :: rest ∧
    superstep g.nav ctx p.1 first rest p.2 = .ok (.inl q.1) q.2

theorem Valid.turn (hg : Placed g) (hn : Watch g tol seed) {p q : LoopState E Nat × Machine E}
    (hv : Valid g seed ctx p.1) (h : Turn g ctx p q) :
    Stepped g seed ctx p.1 p.2 q.2 (.inl q.1) := by
  obtain ⟨first, rest, hl, hstep⟩ := h
  have hfit : Fits E g .all ctx := ⟨.inl trivial, .inl trivial⟩
  exact wp_of_ok (wp_superstep (m := p.2) hg hn.relax hfit hl hv (.inl trivial)) hstep

/-- **Every loop state of a run is valid.** -/
theorem Valid.turns (hg : Placed g) (hn : Watch g tol seed) {p q : LoopState E Nat × Machine E}
    (hv : Valid g seed ctx p.1) (h : Relation.ReflTransGen (Turn g ctx) p q) :
    Valid g seed ctx q.1 := by
  induction h with
  | refl => exact hv
  | tail _ hturn ih => exact (ih.turn hg hn hturn).2.1

theorem Adds.enabled {ls : LoopState E Nat} {m : Machine E} {c : EnabledCheckpoint}
    {ws : List (StoreWrite E)} (h : Adds g ctx ls m (some (.enabled c)) ws) :
    ∃ c, ls.checkpoints = .enabled c := by
  generalize hk : some (RuntimeCheckpoint.enabled c) = k at h
  cases h with
  | nothing => exact ⟨c, (Option.some.inj hk).symm⟩
  | boundary hc => exact ⟨_, hc⟩
  | interrupt hc => exact ⟨_, hc⟩

/-- Checkpointing is not switched on by a turn. -/
theorem enabled_of_turns (hg : Placed g) (hn : Watch g tol seed) {p q : LoopState E Nat × Machine E}
    (hv : Valid g seed ctx p.1) (h : Relation.ReflTransGen (Turn g ctx) p q)
    (hq : ∃ c, q.1.checkpoints = .enabled c) : ∃ c, p.1.checkpoints = .enabled c := by
  induction h with
  | refl => exact hq
  | tail hpq hturn ih =>
    obtain ⟨c, hc⟩ := hq
    obtain ⟨-, -, ws, hadds, -⟩ := (hv.turns hg hn hpq).turn hg hn hturn
    rw [hc] at hadds
    exact ih hadds.enabled

/-- The same mode: a save only moves on the parent that the next one expects. -/
inductive RuntimeCheckpoint.Alike : RuntimeCheckpoint → RuntimeCheckpoint → Prop where
  | refl (c : RuntimeCheckpoint) : Alike c c
  | enabled (c c' : EnabledCheckpoint) : Alike (.enabled c) (.enabled c')

theorem RuntimeCheckpoint.Alike.trans {a b c : RuntimeCheckpoint} (h : a.Alike b) (h' : b.Alike c) :
    a.Alike c := by
  cases h with
  | refl => exact h'
  | enabled =>
    cases h' with
    | refl => exact .enabled _ _
    | enabled => exact .enabled _ _

theorem Adds.alike {ls : LoopState E Nat} {m : Machine E} {k : RuntimeCheckpoint}
    {ws : List (StoreWrite E)} (h : Adds g ctx ls m (some k) ws) : ls.checkpoints.Alike k := by
  generalize hk : some k = out at h
  cases h with
  | nothing =>
    obtain rfl := Option.some.inj hk
    exact .refl _
  | boundary hc =>
    obtain ⟨chk, -, rfl⟩ := Option.map_eq_some_iff.mp hk.symm
    rw [hc]
    exact .enabled _ _
  | interrupt hc =>
    obtain ⟨chk, -, rfl⟩ := Option.map_eq_some_iff.mp hk.symm
    rw [hc]
    exact .enabled _ _

theorem alike_of_turns (hg : Placed g) (hn : Watch g tol seed) {p q : LoopState E Nat × Machine E}
    (hv : Valid g seed ctx p.1) (h : Relation.ReflTransGen (Turn g ctx) p q) :
    p.1.checkpoints.Alike q.1.checkpoints := by
  induction h with
  | refl => exact .refl _
  | tail hpq hturn ih =>
    obtain ⟨-, -, ws, hadds, -⟩ := (hv.turns hg hn hpq).turn hg hn hturn
    exact ih.trans hadds.alike

/-- What the loop adds to the log, super-step after super-step. -/
inductive LoopAdds (g : CompiledGraph ν ρ) (ctx : RunContext) :
    LoopState E Nat → Machine E → List (StoreWrite E) → Prop where
  | done {ls : LoopState E Nat} {m : Machine E} : LoopAdds g ctx ls m []
  | last {ls : LoopState E Nat} {m : Machine E} {k : Option RuntimeCheckpoint}
      {ws : List (StoreWrite E)} (h : Adds g ctx ls m k ws) : LoopAdds g ctx ls m ws
  | step {ls ls' : LoopState E Nat} {m m' : Machine E} {ws ws' : List (StoreWrite E)}
      (hturn : Turn g ctx (ls, m) (ls', m')) (h : Adds g ctx ls m (some ls'.checkpoints) ws)
      (hrest : LoopAdds g ctx ls' m' ws') : LoopAdds g ctx ls m (ws ++ ws')

/-- **The loop**: it stops finely and adds what its super-steps add. It is interrupted only when
checkpointing was on. -/
theorem runLoop_spec (hg : Placed g) (hn : Watch g tol seed) (hfit : Fits E g tol ctx) : ∀ {turns : Nat} {ls : LoopState E Nat}
      {m : Machine E}, Valid g seed ctx ls →
      (∀ q, Relation.ReflTransGen (Turn g ctx) (ls, m) q → Counts tol q.1) →
      (tol.hops ∨ ctx.absoluteStepLimit - ls.steps < turns) →
      wp (runLoop g.nav ctx turns ls)
        (fun r m' => (∃ ws, LoopAdds g ctx ls m ws ∧ m'.writes = m.writes ++ ws) ∧
          ((∃ ls', r = .inl ls' ∧ ls'.frontier = [] ∧
              Relation.ReflTransGen (Turn g ctx) (ls, m) (ls', m')) ∨
            ∃ c report ls' m'', r = .inr report ∧ ls'.checkpoints = .enabled c ∧
              Relation.ReflTransGen (Turn g ctx) (ls, m) (ls', m'')))
        (fun e m' => Fine tol e ∧ ∃ ws, LoopAdds g ctx ls m ws ∧ m'.writes = m.writes ++ ws) m
  | 0, ls, m, _, _, hturns =>
    ⟨hturns.resolve_right (Nat.not_lt_zero _), [], .done, (List.append_nil _).symm⟩
  | turns + 1, ls, m, hv, hcounts, hturns => by
    unfold runLoop
    cases hl : ls.frontier with
    | nil =>
      exact ⟨⟨[], .done, (List.append_nil _).symm⟩, Or.inl ⟨ls, rfl, hl, .refl⟩⟩
    | cons first rest =>
      simp only
      rw [wp_bind, wp_iff]
      have hspec := wp_superstep (m := m) hg hn hfit hl hv (hcounts _ .refl)
      refine ⟨fun r m₁ hr => ?_, fun e m₁ he => ?_⟩
      · have hstepped := wp_of_ok hspec hr
        cases r with
        | inr report =>
          obtain ⟨c, k, ws, hc, hadds, hw⟩ := hstepped
          exact ⟨⟨ws, .last hadds, hw⟩, Or.inr ⟨c, report, ls, m, rfl, hc, .refl⟩⟩
        | inl ls' =>
          obtain ⟨hmoved, hv', ws, hadds, hw⟩ := hstepped
          have hturn : Turn g ctx (ls, m) (ls', m₁) := ⟨first, rest, hl, hr⟩
          -- a turn executes at least one node of the budget
          have hturns' : tol.hops ∨ ctx.absoluteStepLimit - ls'.steps < turns := by
            refine hturns.imp_right fun hlt => ?_
            have hsteps := hmoved.steps
            rw [hl, List.length_cons] at hsteps
            have hle := hv'.room.steps_le
            omega
          refine wp_mono (runLoop_spec hg hn hfit (m := m₁) hv'
            (fun q hq => hcounts q (.head hturn hq)) hturns') ?_ ?_
          · rintro r m₂ ⟨⟨ws', hrest, hw'⟩, hend⟩
            refine ⟨⟨ws ++ ws', .step hturn hadds hrest, by rw [hw', hw, List.append_assoc]⟩, ?_⟩
            rcases hend with ⟨ls₂, rfl, hnil, hturns⟩ | ⟨c, report, ls₂, m₃, rfl, hc, hturns⟩
            · exact Or.inl ⟨ls₂, rfl, hnil, .head hturn hturns⟩
            · exact Or.inr ⟨c, report, ls₂, m₃, rfl, hc, .head hturn hturns⟩
          · rintro e m₂ ⟨he, ws', hrest, hw'⟩
            exact ⟨he, ws ++ ws', .step hturn hadds hrest, by rw [hw', hw, List.append_assoc]⟩
      · obtain ⟨hfine, k, ws, hadds, hw⟩ := wp_of_error hspec he
        exact ⟨hfine, ws, .last hadds, hw⟩

end Loop

end GroupAgent.Core
