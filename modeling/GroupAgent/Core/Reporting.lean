import GroupAgent.Core.Crossing

/-!
# What a super-step tells

The events of one turn of the loop of `execute_internal` (`runtime.rs:369-890`) and of the end of a
run, as what a listener reads (`Protocol`).

* `SaveDue`: an accepted save is due to be reported.
* `Between`: where a listener is between two super-steps. `Over`: the stream has told how the run
  ended.
* `EventEmitter::emit` (2200-2214) builds an event only for somebody; what is said here is about
  the events that are built, retained or not.

Results:
* **`tells_superstep`**: a super-step tells its nodes, its updates, the routers, the save and the
  subgraphs, in this order.
* **`tells_runLoop`**, **`tells_leaveLoop`**: the loop, and how it ends.

Out of scope: the order in which the nodes of a parallel super-step report their completion, which
the grammar leaves open.
-/

namespace GroupAgent.Core

open GroupAgent.Lib

variable {ν ρ : Type} {E : Env ν ρ}

section Saves

variable {mode : StreamMode} {maxSteps : Nat} {m₀ m : Machine E} {t : Telling} {ctx : RunContext}
  {g : CompiledGraph ν ρ}

/-! ## Saves -/

/-- A write that is logged is due to be reported if it is an accepted save. -/
theorem Told.recorded (h : Told mode maxSteps m₀ t m) (hdue : t.due = none) (write : StoreWrite E)
    (w : E.World) : Told mode maxSteps m₀ ⟨t.reader, write.report⟩
      { m with world := w, writes := m.writes ++ [write] } := by
  obtain ⟨events, writes, hevents, hwrites, hread, hreport⟩ := h
  refine ⟨events, writes ++ [write], hevents, ?_, hread, ?_⟩
  · show m.writes ++ [write] = _
    rw [hwrites, List.append_assoc]
  · rw [List.filterMap_append, hreport, hdue]
    cases hwrite : write.report with
    | none => simp [hwrite]
    | some event => simp [hwrite]

/-- What is due after an attempt to save. -/
def SaveDue (c : EnabledCheckpoint) (runId : RunId) (boundary : CheckpointBoundary E.Value)
    (t : Telling) : Except GraphRunError (SavedCheckpoint × EnabledCheckpoint) → Telling → Prop
  | .error _, t' => t' = t
  | .ok (saved, c'), t' => saved.threadId = c.threadId ∧ c' = c.after saved.id ∧
    t' = ⟨t.reader, some (.checkpointSaved runId saved.id saved.threadId boundary.superstep
      boundary.step boundary.completed)⟩

theorem moves_save (hdue : t.due = none) {c : EnabledCheckpoint} {runId : RunId} {state : E.State}
    {boundary : CheckpointBoundary E.Value} {step : Nat} {S : Stop → Telling → Prop} :
    Moves (Told mode maxSteps m₀) t (awaitRunBoundary ctx step (c.save runId state boundary))
      (SaveDue c runId boundary t) S := by
  intro m hm
  have hunsent : ∀ (error : GraphRunError) (w : E.World), ∃ t',
      Told mode maxSteps m₀ t' { m with world := w } ∧
        SaveDue c runId boundary t (.error error) t' := fun error w => ⟨t, hm, rfl⟩
  refine wp_mono (R := fun _ _ => False) ?_ (fun _ _ h => h) fun _ _ h => h.elim
  refine wp_awaitCall step hunsent fun w => ?_
  refine wp_request (fun error => hunsent error w) fun snapshot id w' _ => ⟨fun error w'' => ?_, ?_⟩
  · rw [wp_record]
    refine ⟨t, ?_, rfl⟩
    rw [← show (⟨t.reader, none⟩ : Telling) = t by rw [← hdue]]
    exact hm.recorded hdue _ w''
  · intro answer w''
    rw [wp_record]
    cases answer with
    | error error =>
      refine ⟨t, ?_, rfl⟩
      rw [← show (⟨t.reader, none⟩ : Telling) = t by rw [← hdue]]
      exact hm.recorded hdue _ w''
    | ok checkpoint => exact ⟨_, hm.recorded hdue _ w'', rfl, rfl, rfl⟩

/-- **A save** that was accepted is reported before the run goes on. -/
theorem tells_saveBoundary (h : Live ctx t) {c : EnabledCheckpoint} {state : E.State}
    {boundary : CheckpointBoundary E.Value} {r : CheckpointId → StreamReader}
    (hnext : ∀ checkpointId, StreamReader.Next mode t.reader
      (.checkpointSaved t.reader.runId checkpointId c.threadId boundary.superstep boundary.step
        boundary.completed) (r checkpointId)) :
    Tells mode maxSteps m₀ t (saveBoundary ctx (.enabled c) state boundary) fun saved t' =>
      Live ctx t' ∧ saved.1.threadId = c.threadId ∧ saved.2 = .enabled (c.after saved.1.id) ∧
        t' = ⟨r saved.1.id, none⟩ := by
  unfold saveBoundary
  refine moves_bind (moves_save h.due) ?_
  rintro (error | ⟨saved, c'⟩) t' hdue
  · obtain rfl := hdue
    exact moves_bind (tells_fail (P := fun _ _ => False) h) fun _ _ hfalse => hfalse.elim
  · obtain ⟨hthread, rfl, rfl⟩ := hdue
    have hreported := hnext saved.id
    rw [h.run, ← hthread] at hreported
    refine moves_bind (moves_pure (P := fun a t' => a = (saved, c.after saved.id) ∧ t' = _)
      ⟨rfl, rfl⟩) ?_
    rintro _ _ ⟨rfl, rfl⟩
    refine moves_bind (moves_report (t := ⟨t.reader, some _⟩) h.retained hreported rfl rfl) ?_
    rintro _ _ rfl
    exact moves_pure ⟨h.next hreported rfl, hthread, rfl, rfl⟩

/-! ## The policy -/

/-- The policy a run saves by, if it saves. -/
def RuntimeCheckpoint.policy : RuntimeCheckpoint → Option CheckpointPolicy
  | .disabled => none
  | .readOnlyReplay _ _ => none
  | .enabled c => some c.policy

theorem shouldSave_eq {c : RuntimeCheckpoint} (h : mode.policy = c.policy) (completed : Bool) :
    c.shouldSave completed = mode.saves completed := by
  unfold StreamMode.saves
  rw [h]
  cases c <;> rfl

theorem enabled_of_saves {c : RuntimeCheckpoint} (h : mode.policy = c.policy) {completed : Bool}
    (hsaves : mode.saves completed) : ∃ enabled, c = .enabled enabled := by
  rw [← shouldSave_eq h] at hsaves
  cases c with
  | disabled => cases hsaves
  | readOnlyReplay _ _ => cases hsaves
  | enabled enabled => exact ⟨enabled, rfl⟩

/-- A committed boundary once it is saved if it has to be. -/
def StreamMode.kept (mode : StreamMode) (completed : Bool) : StreamBoundary :=
  if mode.saves completed then .saved completed else .pending

theorem saves_true (mode : StreamMode) : mode.saves true = mode.policy.isSome := by
  unfold StreamMode.saves
  cases mode.policy with
  | none => rfl
  | some policy => exact Bool.or_true _

/-- The boundary is a committed one, and nothing or something behind it has been reported. -/
def StreamMode.Left (mode : StreamMode) (completed : Bool) (boundary : StreamBoundary) : Prop :=
  boundary = mode.kept completed ∨ boundary = (mode.kept completed).passed

theorem StreamMode.Left.settled {completed : Bool} {boundary : StreamBoundary}
    (h : mode.Left completed boundary) : boundary.settled mode := by
  unfold StreamBoundary.settled
  by_cases hevery : mode.policy = some .everySuperstep
  · have hkept : mode.kept completed = .saved completed := by
      unfold StreamMode.kept StreamMode.saves
      rw [hevery]
      rfl
    rcases h with rfl | rfl
    · rw [hkept]
      rfl
    · rw [hkept]
      rfl
  · simp [hevery]

theorem StreamMode.Left.goes {boundary : StreamBoundary} (h : mode.Left false boundary) :
    boundary ≠ .saved true := by
  unfold StreamMode.Left StreamMode.kept at h
  cases hsaves : mode.saves false <;> rw [hsaves] at h <;> rcases h with rfl | rfl <;> exact nofun

/-- A boundary with nothing left to execute is final. -/
theorem StreamMode.Left.final {boundary : StreamBoundary} (h : mode.Left true boundary) :
    boundary.final mode := by
  unfold StreamMode.Left StreamMode.kept at h
  unfold StreamBoundary.final
  rw [saves_true] at h
  cases hpolicy : mode.policy with
  | none => rfl
  | some policy =>
    rw [hpolicy] at h
    rcases h with rfl | rfl <;> rfl

theorem StreamMode.Left.passed {completed : Bool} {boundary : StreamBoundary}
    (h : mode.Left completed boundary) : mode.Left completed boundary.passed := by
  rcases h with rfl | rfl
  · exact .inr rfl
  · refine .inr ?_
    cases mode.kept completed <;> rfl

theorem StreamMode.Left.crossed {completed : Bool} {boundary : StreamBoundary}
    (h : mode.Left completed boundary) (boundaries : List SubgraphBoundary) :
    mode.Left completed (boundary.crossed boundaries) := by
  cases boundaries with
  | nil => exact h
  | cons first boundaries => exact h.passed

theorem tells_saveCommitted (h : Live ctx t) {superstep : Option Nat}
    (hphase : t.reader.phase = .standing superstep .pending) {c : RuntimeCheckpoint}
    (hmode : mode.policy = c.policy) {state : E.State} {frontier : List Nat} {paths : List NodePath}
    (hpaths : PathsOf g frontier paths) : Tells mode maxSteps m₀ t
      (saveCommitted g.nav ctx c state t.reader.superstep t.reader.steps frontier) fun c' t' =>
        Live ctx t' ∧ c'.policy = c.policy ∧ t' = ⟨{ t.reader with
          phase := .standing superstep (mode.kept frontier.isEmpty) }, none⟩ := by
  unfold saveCommitted StreamMode.kept
  rw [shouldSave_eq hmode]
  split
  · rename_i hsaves
    obtain ⟨enabled, rfl⟩ := enabled_of_saves hmode hsaves
    refine moves_bind (tells_pathsOf hpaths) ?_
    rintro nodeIds t ⟨rfl, rfl⟩
    refine moves_bind (tells_saveBoundary h fun checkpointId => .boundarySaved hphase hsaves) ?_
    rintro ⟨saved, c'⟩ _ ⟨hlive, -, hafter, rfl⟩
    have hafter : c' = .enabled (enabled.after saved.id) := hafter
    subst hafter
    refine moves_bind (tells_controlRun hlive) ?_
    rintro _ _ rfl
    exact moves_pure ⟨hlive, rfl, rfl⟩
  · exact moves_pure ⟨h, rfl, h.eq hphase⟩

end Saves

/-! ## One super-step -/

section Step

variable {mode : StreamMode} {maxSteps : Nat} {m₀ m : Machine E} {t : Telling} {ctx : RunContext}
  {g : CompiledGraph ν ρ} {ls : LoopState E Nat}

/-- Where a listener is between two super-steps. -/
structure Between (mode : StreamMode) (g : CompiledGraph ν ρ) (ctx : RunContext)
    (ls : LoopState E Nat) (boundary : StreamBoundary) (t : Telling) : Prop where
  live : Live ctx t
  policy : mode.policy = ls.checkpoints.policy
  steps : t.reader.steps = ls.steps
  superstep : t.reader.superstep = ls.superstep
  settles : Settles g t.reader.path ls.frontier
  phase : t.reader.phase = .standing none boundary
  settled : boundary.settled mode
  goes : ls.frontier ≠ [] → boundary ≠ .saved true

theorem Settles.paths {p : GraphPath} {l : List Nat} (h : Settles g p l) :
    ∃ paths, PathsOf g l paths ∧ ∀ path ∈ paths, path.graphPath = p := by
  have hnode := h.node
  clear h
  induction l with
  | nil => exact ⟨[], .nil, nofun⟩
  | cons index l ih =>
    obtain ⟨n, hn, hpath⟩ := hnode index List.mem_cons_self
    obtain ⟨paths, hpaths, hin⟩ := ih fun i hi => hnode i (List.mem_cons_of_mem index hi)
    exact ⟨n.path :: paths, .cons ⟨n, hn, rfl⟩ hpaths, List.forall_mem_cons.mpr ⟨hpath, hin⟩⟩

theorem tells_enforceBudget (h : Live ctx t) {steps : Nat} {frontier : List Nat}
    (hnodes : ∀ i ∈ frontier, ∃ n, g.items[i]? = some (.node n)) :
    Tells mode maxSteps m₀ t (enforceBudget g.nav ctx steps frontier : M E Unit)
      fun _ t' => t' = t := by
  unfold enforceBudget
  simp only
  split
  · exact moves_pure rfl
  · rename_i blocked hblocked
    obtain ⟨node, hnode⟩ := hnodes blocked (List.mem_of_getElem? hblocked)
    refine moves_bind (tells_nodeAt hnode) ?_
    rintro _ t ⟨rfl, -⟩
    refine moves_bind tells_usizeAdd ?_
    rintro step t ⟨rfl, -⟩
    exact tells_fail h

/-- The number a listener knows a super-step by: one of a single node has none. -/
def batchNumber (rest : List Nat) (superstep : Nat) : Option Nat :=
  if rest.isEmpty then none else some superstep

/-- Executing a frontier leaves its updates to be reported. -/
theorem tells_runFrontier {boundary : StreamBoundary} (h : Between mode g ctx ls boundary t)
    {first : Nat} {rest : List Nat} (hl : ls.frontier = first :: rest) {paths : List NodePath}
    (hpaths : PathsOf g (first :: rest) paths)
    (hin : ∀ path ∈ paths, path.graphPath = t.reader.path)
    {firstNode : NodePath} {firstStep : Nat} (hstep : firstStep = ls.steps + 1) :
    Tells mode maxSteps m₀ t (do
      emitIf (!rest.isEmpty) ctx.events
        (GraphEvent.superstepStarted ctx.runId (ls.superstep + 1) <$>
          pathsOf g.nav (first :: rest))
      runFrontier g.nav ctx ls first rest firstNode firstStep) fun outcome t' =>
        ExecutionHeard t.reader (batchNumber rest (ls.superstep + 1)) (paths.zipIdx firstStep)
          outcome t' ∧ Live ctx t' := by
  have hopen := h.goes (by rw [hl]; exact List.cons_ne_nil _ _)
  rw [pathsOf_eq hpaths, map_pure]
  cases rest with
  | nil =>
    obtain ⟨path, rfl⟩ := List.length_eq_one_iff.mp hpaths.length_eq.symm
    obtain ⟨node, hnode, rfl⟩ := (List.forall₂_cons.mp hpaths).1
    exact tells_runSingle h.live hnode h.phase h.settled hopen
      (hin _ List.mem_cons_self) h.steps hstep
  | cons second rest =>
    have hseveral : 2 ≤ paths.length := by
      rw [← hpaths.length_eq, List.length_cons, List.length_cons]
      exact Nat.le_add_left 2 _
    have hne : paths ≠ [] := by
      rintro rfl
      exact absurd hseveral (by simp)
    refine moves_bind (tells_emit h.live (.superstepStarted h.phase h.settled hopen hseveral hin)
      (by rw [h.live.run, h.superstep]) rfl rfl) ?_
    rintro _ _ ⟨rfl, hlive⟩
    refine moves_map (tells_runParallel hlive hpaths hne rfl h.steps hstep) ?_
    rintro state t' ⟨hlive, rfl⟩
    rw [← h.superstep]
    exact ⟨rfl, hlive⟩

/-- What a super-step that was executed leaves a listener: the boundary it advanced to, behind the
subgraphs that are still to be reported, or a node to suspend. -/
def AdvanceHeard (g : CompiledGraph ν ρ) (ls : LoopState E Nat) (r : StreamReader) (first : Nat)
    (rest : List Nat) : Advance E Nat → Telling → Prop
  | .committed _ steps superstep next boundaries, t =>
    steps = ls.steps + 1 + rest.length ∧ superstep = ls.superstep + 1 ∧
    Settled g r.path (next, boundaries) ∧
    t = ⟨{ r with
      steps := steps
      superstep := superstep
      phase := .standing (batchNumber rest superstep) .pending }, none⟩
  | .suspended _, t => rest = [] ∧ ∃ n, g.items[first]? = some (.node n) ∧
    t = ⟨{ r with
      phase := .executing none [(n.path, ls.steps + 1)] [(n.path, ls.steps + 1)] }, none⟩

theorem tells_advance (hg : Placed g) (hh : Housed g) {boundary : StreamBoundary}
    (h : Between mode g ctx ls boundary t) {first : Nat} {rest : List Nat}
    (hl : ls.frontier = first :: rest) :
    Tells mode maxSteps m₀ t (advance g.nav ctx ls first rest) fun a t' =>
      AdvanceHeard g ls t.reader first rest a t' ∧ Live ctx t' := by
  have hsettles := h.settles
  rw [hl] at hsettles
  obtain ⟨paths, hpaths, hin⟩ := hsettles.paths
  obtain ⟨node, hnode, hpath⟩ := hsettles.node first List.mem_cons_self
  have hnodes : ∀ i ∈ first :: rest, ∃ n, g.items[i]? = some (.node n) := by
    intro i hi
    obtain ⟨n, hn, -⟩ := hsettles.node i hi
    exact ⟨n, hn⟩
  unfold advance
  refine moves_bind (tells_nodeAt hnode) ?_
  rintro _ _ ⟨rfl, rfl⟩
  refine moves_bind tells_usizeAdd ?_
  rintro firstStep _ ⟨rfl, hfirst⟩
  refine moves_bind (tells_controlRun h.live) ?_
  rintro _ _ rfl
  refine moves_bind (tells_enforceBudget h.live hnodes) ?_
  rintro _ _ rfl
  refine moves_bind tells_usizeAdd ?_
  rintro superstep t ⟨rfl, rfl⟩
  rw [← bind_assoc]
  refine moves_bind (tells_runFrontier h hl hpaths hin hfirst) ?_
  rintro (state | request) _ ⟨hran, hlive⟩
  · obtain rfl := hran
    refine moves_bind (tells_reportUpdates hlive hpaths rfl) ?_
    rintro _ _ ⟨hlive, rfl⟩
    refine moves_bind (tells_routeAll hg rfl hlive rfl hnodes) ?_
    rintro targets _ ⟨rfl, hrouted⟩
    refine moves_bind (tells_settle hg hh hlive rfl rfl hsettles hrouted List.mem_cons_self hnode)
      ?_
    rintro ⟨next, boundaries⟩ _ ⟨rfl, hsettled⟩
    refine moves_pure ⟨⟨?_, rfl, hsettled, ?_⟩, hlive⟩
    · rw [List.length_cons, Nat.add_assoc, Nat.add_comm 1]
    · rw [h.superstep, hfirst, List.length_cons, Nat.add_assoc, Nat.add_comm 1]
  · obtain ⟨hnone, rfl⟩ := hran
    cases rest with
    | cons second rest => cases hnone
    | nil =>
      obtain ⟨path, rfl⟩ := List.length_eq_one_iff.mp hpaths.length_eq.symm
      obtain ⟨n, hn, rfl⟩ := (List.forall₂_cons.mp hpaths).1
      subst hfirst
      exact moves_pure ⟨⟨rfl, n, hn, rfl⟩, hlive⟩

/-- A listener of a run that was suspended. -/
structure Suspended (t : Telling) (report : InterruptReport E) : Prop where
  phase : t.reader.phase = .ended (.interrupted report.interrupt.id report.checkpointId)
  run : t.reader.runId = report.runId
  due : t.due = none

theorem tells_interruptRun (h : Live ctx t) (hmode : mode.policy = ls.checkpoints.policy)
    (hsteps : t.reader.steps = ls.steps) (hsuper : t.reader.superstep = ls.superstep)
    {nodePath : NodePath} {step : Nat} {batch : List (NodePath × Nat)}
    (hphase : t.reader.phase = .executing none batch [(nodePath, step)])
    {request : InterruptRequest E.Value} : Tells mode maxSteps m₀ t
      (interruptRun ctx ls nodePath request step ls.superstep) fun report t' =>
        Suspended t' report := by
  unfold interruptRun
  refine moves_bind (tells_emit h (.singleInterrupted hphase List.mem_cons_self)
    (by rw [h.run]) rfl rfl) ?_
  rintro _ _ ⟨rfl, hlive⟩
  cases hc : ls.checkpoints with
  | disabled => exact tells_fail hlive
  | readOnlyReplay _ _ => exact tells_fail hlive
  | enabled c =>
    rw [← hsteps, ← hsuper]
    refine moves_bind (tells_saveBoundary hlive fun checkpointId => .suspensionSaved rfl ?_) ?_
    · rw [hmode, hc]
      exact Option.some_ne_none _
    · rintro ⟨saved, c'⟩ _ ⟨hlive, hthread, -, rfl⟩
      refine moves_bind (tells_controlRun hlive) ?_
      rintro _ _ rfl
      have hthread : c.threadId = saved.threadId := hthread.symm
      refine moves_bind (tells_last hlive (.runInterrupted rfl) (by rw [hlive.run, hthread]) rfl)
        ?_
      rintro _ _ rfl
      refine moves_bind moves_get ?_
      rintro m _ ⟨rfl, -⟩
      exact moves_pure ⟨rfl, hlive.run, rfl⟩

/-- A committed boundary is saved if it has to be, and then the subgraphs are reported. -/
theorem tells_commit (h : Live ctx t) {first : Nat} {rest : List Nat}
    (hl : ls.frontier = first :: rest) {paths : List NodePath}
    (hpaths : PathsOf g ls.frontier paths)
    {superstep steps : Nat} {next : List Nat} {boundaries : List SubgraphBoundary}
    (hphase : t.reader.phase = .standing (batchNumber rest superstep) .pending)
    (hmode : mode.policy = ls.checkpoints.policy) (hsteps : t.reader.steps = steps)
    (hsuper : t.reader.superstep = superstep)
    (hsettled : Settled g t.reader.path (next, boundaries)) {state : E.State}
    {firstNode : NodePath} : Tells mode maxSteps m₀ t
      (commit g.nav ctx ls firstNode state steps superstep next boundaries) fun ls' t' =>
        ∃ boundary, Between mode g ctx ls' boundary t' ∧
          (ls'.frontier = [] → boundary.final mode) := by
  obtain ⟨q, hwalk, hsettles⟩ := hsettled
  obtain ⟨nextPaths, hnext, -⟩ := hsettles.paths
  have hleft : mode.Left next.isEmpty (mode.kept next.isEmpty) := .inl rfl
  subst hsteps hsuper
  unfold commit
  refine moves_bind (tells_saveCommitted h hphase hmode hnext) ?_
  rintro c _ ⟨hlive, hpolicy, rfl⟩
  unfold moveOn
  refine moves_bind (tells_boundaries hlive rfl hleft.settled hwalk rfl) ?_
  rintro _ _ ⟨hlive, rfl⟩
  have hleft := hleft.crossed boundaries
  have hrest : ∀ {t' : Telling} {boundary : StreamBoundary}, Live ctx t' →
      mode.Left next.isEmpty boundary → t'.reader.phase = .standing none boundary →
      t'.reader.path = q → t'.reader.steps = t.reader.steps →
      t'.reader.superstep = t.reader.superstep → Tells mode maxSteps m₀ t' (do
        controlRun ctx (some firstNode) (ls.steps + 1)
        let nodeIds ← pathsOf g.nav ls.frontier
        pure
          { state
            steps := t.reader.steps
            visitedNodes := ls.visitedNodes ++ nodeIds
            frontier := next
            superstep := t.reader.superstep
            resumeNode := none
            resumeValue := none
            checkpoints := c }) fun ls' t' => ∃ boundary, Between mode g ctx ls' boundary t' ∧
              (ls'.frontier = [] → boundary.final mode) := by
    intro t' boundary hlive' hleft' hphase' hpath' hsteps' hsuper'
    refine moves_bind (tells_controlRun hlive') ?_
    rintro _ t' rfl
    refine moves_bind (tells_pathsOf hpaths) ?_
    rintro nodeIds t' ⟨rfl, -⟩
    rw [← hpath'] at hsettles
    refine moves_pure ⟨boundary, ⟨hlive', hmode.trans hpolicy.symm, hsteps', hsuper', hsettles,
      hphase', hleft'.settled, fun hne => ?_⟩, fun hnil => ?_⟩
    · cases next with
      | nil => exact absurd rfl hne
      | cons _ _ => exact hleft'.goes
    · have hnil : next = [] := hnil
      subst hnil
      exact hleft'.final
  have hlength : ls.frontier.length = rest.length + 1 := by rw [hl, List.length_cons]
  rw [hlength]
  cases rest with
  | nil => exact hrest hlive hleft rfl rfl rfl rfl
  | cons second rest =>
    have hseveral : decide (1 < (second :: rest).length + 1) = true := by
      rw [decide_eq_true_iff, List.length_cons]
      exact Nat.lt_add_left_iff_pos.mpr (Nat.succ_pos _)
    rw [hseveral]
    refine moves_bind (tells_emit hlive (.superstepCompleted rfl hleft.settled)
      (by rw [hlive.run]) rfl rfl) ?_
    rintro _ _ ⟨rfl, hlive⟩
    exact hrest hlive hleft.passed rfl rfl rfl rfl

/-- What a turn of the loop leaves a listener. -/
def TurnHeard (mode : StreamMode) (g : CompiledGraph ν ρ) (ctx : RunContext) :
    LoopState E Nat ⊕ InterruptReport E → Telling → Prop
  | .inl ls, t => ∃ boundary, Between mode g ctx ls boundary t ∧
    (ls.frontier = [] → boundary.final mode)
  | .inr report, t => Suspended t report

/-- **One super-step.** -/
theorem tells_superstep (hg : Placed g) (hh : Housed g) {boundary : StreamBoundary}
    (h : Between mode g ctx ls boundary t) {first : Nat} {rest : List Nat}
    (hl : ls.frontier = first :: rest) :
    Tells mode maxSteps m₀ t (superstep g.nav ctx ls first rest) (TurnHeard mode g ctx) := by
  obtain ⟨node, hnode, -⟩ := h.settles.node first (by rw [hl]; exact List.mem_cons_self)
  obtain ⟨paths, hpaths, -⟩ := h.settles.paths
  unfold superstep
  refine moves_bind (tells_nodeAt hnode) ?_
  rintro _ _ ⟨rfl, rfl⟩
  refine moves_bind (tells_advance hg hh h hl) ?_
  rintro (⟨state, steps, superstep, next, boundaries⟩ | request) _ ⟨hcame, hlive⟩
  · obtain ⟨-, -, hsettled, rfl⟩ := hcame
    exact moves_map (tells_commit hlive hl hpaths rfl h.policy rfl rfl hsettled) fun _ _ h => h
  · obtain ⟨rfl, n, hn, rfl⟩ := hcame
    rw [hnode] at hn
    cases hn
    exact moves_map (tells_interruptRun hlive h.policy h.steps h.superstep rfl) fun _ _ h => h

/-- **The loop.** -/
theorem tells_runLoop (hg : Placed g) (hh : Housed g) : ∀ {turns : Nat} {ls : LoopState E Nat}
    {boundary : StreamBoundary} {t : Telling}, Between mode g ctx ls boundary t →
      (ls.frontier = [] → boundary.final mode) →
      Tells mode maxSteps m₀ t (runLoop g.nav ctx turns ls) fun ended t' =>
        TurnHeard mode g ctx ended t' ∧ ∀ ls', ended = .inl ls' → ls'.frontier = []
  | 0, _, _, _, _, _ => tells_outOfFuel
  | turns + 1, ls, boundary, t, h, hfinal => by
    unfold runLoop
    cases hl : ls.frontier with
    | nil =>
      refine moves_pure ⟨⟨boundary, h, hfinal⟩, ?_⟩
      rintro _ ⟨⟩
      exact hl
    | cons first rest =>
      refine moves_bind (tells_superstep hg hh h hl) ?_
      rintro (ls' | report) t hturned
      · obtain ⟨boundary', h', hfinal'⟩ := hturned
        exact tells_runLoop hg hh h' hfinal'
      · refine moves_pure ⟨hturned, ?_⟩
        rintro _ ⟨⟩

/-- How the stream of a run ends. -/
def ExecutionOutcome.ending : ExecutionOutcome E → StreamEnd
  | .completed report => .completed report.steps
  | .interrupted report => .interrupted report.interrupt.id report.checkpointId

def ExecutionOutcome.runId : ExecutionOutcome E → RunId
  | .completed report => report.runId
  | .interrupted report => report.runId

/-- A stream that is over, with nothing left to be reported. -/
structure Over (runId : RunId) (how : StreamEnd) (t : Telling) : Prop where
  run : t.reader.runId = runId
  phase : t.reader.phase = .ended how
  due : t.due = none
  path : ∀ steps, how = .completed steps → t.reader.path = .root

theorem tells_leaveLoop {ended : LoopState E Nat ⊕ InterruptReport E}
    (h : TurnHeard mode g ctx ended t) (hdone : ∀ ls', ended = .inl ls' → ls'.frontier = []) :
    Tells mode maxSteps m₀ t (leaveLoop ctx ended) fun outcome t' =>
      Over outcome.runId outcome.ending t' := by
  unfold leaveLoop
  cases ended with
  | inl ls =>
    obtain ⟨boundary, h, hfinal⟩ := h
    have hnil := hdone ls rfl
    refine moves_bind (tells_controlRun h.live) ?_
    rintro _ t rfl
    have hroot := h.settles.root hnil
    refine moves_bind (tells_last h.live (.runCompleted h.phase h.settled (hfinal hnil) hroot)
      (by rw [h.live.run, h.steps]) rfl) ?_
    rintro _ _ rfl
    refine moves_bind moves_get ?_
    rintro m _ ⟨rfl, -⟩
    refine moves_pure ⟨h.live.run, ?_, rfl, fun _ _ => hroot⟩
    rw [h.steps]
    rfl
  | inr report => exact moves_pure ⟨h.run, h.phase, h.due, nofun⟩

end Step

end GroupAgent.Core
