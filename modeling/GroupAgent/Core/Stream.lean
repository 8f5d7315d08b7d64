import GroupAgent.Core.Frontiers
import GroupAgent.Core.Reporting

/-!
# The event stream of a call

Every call of a compiled graph tells a listener a stream of the protocol: the events of
`invoke_internal` and `execute_internal` (`runtime.rs:310-890`) and of resume, replay and fork
(1069-1715), in the order they are emitted.

* `Call.mode`: what a caller knows of the stream beforehand.
* `Opens`: a computation that starts a run, from where it has told of the start.
* `Telling` and `Crossing` have the parts, `Reporting` the super-steps; here they are put behind
  the events each call opens with.

Results:
* **`stream_protocol`**: the stream of a call follows the protocol and ends as the call does.
* **`saves_reported`**: the checkpoints that it reports are those that were accepted, in their
  order.

Out of scope: a call that is dropped before it ends. Its stream is an initial part, which the
protocol reads but not to an end.
-/

namespace GroupAgent.Core

open GroupAgent.Lib

variable {ν ρ : Type} {E : Env ν ρ}

/-! ## Loading -/

section Load

variable {mode : StreamMode} {maxSteps : Nat} {m₀ : Machine E} {t : Telling} {ctx : RunContext}
  {g : CompiledGraph ν ρ}

theorem tells_load (h : Live ctx t) {α β : Type} {step : Nat}
    {read : Future E.World (Except SourceError β)}
    {finish : Except SourceError β → Except GraphRunError α} :
    Tells mode maxSteps m₀ t (load ctx step read finish) fun _ t' => t' = t := by
  unfold load
  refine moves_bind (P := fun _ t' => t' = t) (fun m hm => ?_) ?_
  · refine wp_mono (R := fun _ _ => False) (wp_awaitCall step (fun _ _ => ⟨t, hm, rfl⟩) fun w => ?_)
      (fun _ _ h => h) fun _ _ h => h.elim
    rw [wp_pure]
    exact ⟨fun _ _ => ⟨t, hm, rfl⟩, fun _ _ => ⟨t, hm, rfl⟩⟩
  · rintro r _ rfl
    exact tells_orFail h fun _ _ => rfl

theorem tells_loadTarget (h : Live ctx t) {config : ResumeConfig E.Value} :
    Tells mode maxSteps m₀ t (loadTarget ctx config) fun _ t' => t' = t := by
  unfold loadTarget
  cases config.target with
  | checkpoint checkpointId => exact tells_load h
  | latest => exact tells_load h

theorem tells_checkIdentity (h : Live ctx t) {threadId : ThreadId} {requested : Option CheckpointId}
    {checkpoint : Checkpoint E.Snapshot E.Value} : Tells mode maxSteps m₀ t
      (checkIdentity ctx threadId requested checkpoint) fun _ t' => t' = t := by
  have hthread : Tells mode maxSteps m₀ t (if checkpoint.threadId ≠ threadId then
      fail ctx (.checkpointIncompatible ctx.runId threadId checkpoint.id checkpoint.step
        (.threadMismatch checkpoint.threadId))
      else pure () : M E Unit) fun _ t' => t' = t := by
    split
    · exact tells_fail h
    · exact moves_pure rfl
  unfold checkIdentity
  refine moves_bind (P := fun _ t' => t' = t) ?_ ?_
  · cases requested with
    | none => exact moves_pure rfl
    | some requested =>
      refine moves_bind (P := fun _ t' => t' = t) ?_ ?_
      · simp only
        split
        · exact tells_fail h
        · exact moves_pure rfl
      · rintro _ t rfl
        exact moves_pure rfl
  · rintro _ t rfl
    exact hthread

theorem tells_checkLatest (h : Live ctx t) {config : ResumeConfig E.Value}
    {checkpoint : Checkpoint E.Snapshot E.Value} :
    Tells mode maxSteps m₀ t (checkLatest ctx config checkpoint) fun _ t' => t' = t := by
  unfold checkLatest
  cases config.target with
  | latest => exact moves_pure rfl
  | checkpoint checkpointId =>
    refine moves_bind (tells_load h) ?_
    rintro latest t rfl
    split
    · exact tells_fail h
    · simp only
      split
      · exact tells_fail h
      · exact moves_pure rfl

theorem tells_resolveCheckpoint (hg : Compiled g) (h : Live ctx t) {threadId : ThreadId}
    {checkpoint : Checkpoint E.Snapshot E.Value} {resumeValue : Option E.Value} :
    Tells mode maxSteps m₀ t (resolveCheckpoint g ctx threadId checkpoint resumeValue) fun r t' =>
      t' = t ∧ Resolved g checkpoint r.1 := by
  have hresolved : Quiet (resolveCheckpoint g ctx threadId checkpoint resumeValue)
      (fun r => Resolved g checkpoint r.1) (Fine .all) := quiet_resolveCheckpoint hg
  refine Moves.and (P := fun _ t' => t' = t) ?_ hresolved
  unfold resolveCheckpoint
  refine moves_bind (P := fun _ t' => t' = t) ?_ ?_
  · unfold compatibleFrontier
    split
    · exact moves_pure rfl
    · exact tells_fail h
    · exact tells_panic
  · rintro frontier t rfl
    split
    · exact moves_pure rfl
    · exact tells_fail h
    · exact tells_fail h
    · exact moves_pure rfl

theorem tells_restored (h : Live ctx t) {threadId : ThreadId}
    {checkpoint : Checkpoint E.Snapshot E.Value} {result : Except SourceError E.State} :
    Tells mode maxSteps m₀ t (restored ctx threadId checkpoint result) fun _ t' => t' = t :=
  tells_orFail h fun _ _ => rfl

theorem tells_restoreState (h : Live ctx t) {threadId : ThreadId}
    {checkpoint : Checkpoint E.Snapshot E.Value} :
    Tells mode maxSteps m₀ t (restoreState ctx threadId checkpoint) fun _ t' => t' = t := by
  unfold restoreState
  refine moves_bind (tells_controlRun h) ?_
  rintro _ t rfl
  refine moves_bind (tells_restored h) ?_
  rintro state t rfl
  refine moves_bind (tells_controlRun h) ?_
  rintro _ t rfl
  exact moves_pure rfl

theorem tells_createBranch (h : Live ctx t) {config : ForkConfig E.Value} {step : Nat} :
    Tells mode maxSteps m₀ t (createBranch ctx config step) fun _ t' => t' = t := by
  unfold createBranch
  have hsame : (⟨t.reader, none⟩ : Telling) = t := (h.eq rfl).symm
  refine moves_bind (P := fun _ t' => t' = t) (fun m hm => ?_) ?_
  · refine wp_mono (R := fun _ _ => False) (wp_awaitCall step (fun _ _ => ⟨t, hm, rfl⟩) fun w => ?_)
      (fun _ _ h => h) fun _ _ h => h.elim
    rw [wp_pure]
    refine ⟨fun _ w' => ?_, fun _ w' => ?_⟩
    · rw [wp_record]
      exact ⟨_, hm.recorded h.due _ w', hsame⟩
    · rw [wp_record]
      exact ⟨_, hm.recorded h.due _ w', hsame⟩
  · rintro r _ rfl
    exact tells_orFail h fun _ _ => rfl

/-! ## Reporting where a loaded frontier lies -/

theorem crosses_prefixes (p : GraphPath) : Crosses .root (p.prefixes.map .started) p := by
  have htake : ∀ n ≤ p.segments.length, Crosses .root
      ((List.range n).map fun k => .started ⟨p.segments.take (k + 1)⟩) ⟨p.segments.take n⟩ := by
    intro n
    induction n with
    | zero => exact fun _ => .nil
    | succ n ih =>
      intro hn
      rw [List.range_succ, List.map_append]
      refine .started (fun hroot => ?_) ?_
      · have hnil : p.segments.take (n + 1) = [] := congrArg GraphPath.segments hroot
        rw [List.take_eq_nil_iff] at hnil
        rcases hnil with hnil | hnil
        · cases hnil
        · rw [hnil] at hn
          cases hn
      · have hparent : (p.segments.take (n + 1)).dropLast = p.segments.take n := by
          rw [List.take_succ_eq_append_getElem hn, List.dropLast_concat]
        unfold GraphPath.parent
        simp only [hparent]
        exact ih (Nat.le_of_succ_le hn)
  have hwhole := htake _ (Nat.le_refl _)
  rw [List.take_length] at hwhole
  unfold GraphPath.prefixes
  rw [List.map_map]
  exact hwhole

/-- A listener is told where a loaded frontier lies. -/
theorem tells_reportNamespaces (hg : Placed g) (h : Live ctx t)
    (hphase : t.reader.phase = .standing none .loaded) (hpath : t.reader.path = .root)
    {frontier : List Nat} (hscope : ∃ graphPath, ∀ i ∈ frontier, ∃ n, g.items[i]? = some (.node n) ∧
      n.graphPath = graphPath) : Tells mode maxSteps m₀ t
      (reportNamespaces g ctx frontier : M E Unit) fun _ t' => Live ctx t' ∧ ∃ p,
        Settles g p frontier ∧
        t' = ⟨{ t.reader with path := p, phase := .standing none .loaded }, none⟩ := by
  obtain ⟨graphPath, hscope⟩ := hscope
  unfold reportNamespaces
  cases frontier with
  | nil =>
    refine moves_pure ⟨h, .root, ⟨nofun, fun _ => rfl⟩, ?_⟩
    rw [← hpath]
    exact h.eq hphase
  | cons first rest =>
    obtain ⟨node, hnode, rfl⟩ := hscope first List.mem_cons_self
    refine moves_bind (tells_nodeAt hnode) ?_
    rintro node t ⟨rfl, rfl⟩
    have hsettles : Settles g node.graphPath (first :: rest) := by
      refine ⟨fun i hi => ?_, nofun⟩
      obtain ⟨n, hn, hscope⟩ := hscope i hi
      exact ⟨n, hn, (hg.node i n hn).trans hscope⟩
    have hevents : (node.graphPath.prefixes.forM fun graphPath =>
        emit ctx.events (.subgraphStarted ctx.runId graphPath) : M E Unit) =
        (node.graphPath.prefixes.map .started).forM fun boundary =>
          emit ctx.events (SubgraphBoundary.event ctx.runId boundary) := by
      rw [List.forM_eq_forM, List.forM_eq_forM, List.forM_map]
      rfl
    rw [hevents]
    refine moves_mono (tells_boundaries h hphase rfl (crosses_prefixes node.graphPath) hpath) ?_
      fun _ _ he => he
    rintro _ _ ⟨hlive, rfl⟩
    refine ⟨hlive, node.graphPath, hsettles, ?_⟩
    unfold StreamBoundary.crossed
    split <;> rfl

end Load

/-! ## Opening a call -/

section Open

variable {g : CompiledGraph ν ρ}

/-- What a listener knows of the stream of a call beforehand. -/
def Call.mode : Call E → StreamMode
  | .invoke _ _ none => ⟨.invoke, none⟩
  | .invoke _ _ (some checkpoints) => ⟨.invoke, some checkpoints.policy⟩
  | .resume config _ => ⟨.resume config.branchId, some config.checkpointPolicy⟩
  | .replay _ => ⟨.replay, none⟩
  | .fork config => ⟨.fork config.branchId, some config.checkpointPolicy⟩

/-- A computation that starts a run, from where it has told of the start. -/
def Opens {α : Type} (mode : StreamMode) (config : RunConfig) (m : Machine E) (x : M E α)
    (P : α → Telling → Prop) : Prop :=
  wp x (fun a m' => ∃ t, Told mode config.maxSteps m t m' ∧ P a t)
    (fun e m' => ∀ error, e = .error error → ∃ t, Told mode config.maxSteps m t m' ∧ Failed e t) m

section Opens

variable {α β : Type} {mode : StreamMode} {config : RunConfig} {m : Machine E} {x : M E α}
  {P : α → Telling → Prop}

theorem opens_bind {f : α → M E β} {Q : β → Telling → Prop} (hx : Opens mode config m x P)
    (hf : ∀ a t, P a t → Tells mode config.maxSteps m t (f a) Q) :
    Opens mode config m (x >>= f) Q := by
  unfold Opens
  rw [wp_bind]
  refine wp_mono hx ?_ fun _ _ he => he
  rintro a m' ⟨t, hm', ha⟩
  exact wp_mono (hf a t ha m' hm') (fun _ _ h => h) fun _ _ he _ _ => he

theorem opens_beginRun (hall : config.events.retention = .all) :
    Opens mode config m (beginRun config) fun ctx t =>
      t = ⟨.start mode ctx.runId, none⟩ ∧ Live ctx t := by
  have henabled : config.events.isEnabled = true := by
    unfold EventConfig.isEnabled
    simp [hall]
  have hcontrol : ∀ started (m' : Machine E), wp (ActiveControl.new config.control started : M E _)
      (fun _ m'' => m'' = m') (fun e _ => ∀ error, e ≠ .error error) m' := by
    intro started m'
    unfold ActiveControl.new ActiveControl.deadlineFrom instantAdd
    cases config.control.runTimeout with
    | none => rfl
    | some timeout =>
      simp only [wp_bind]
      split
      · rfl
      · rintro error ⟨⟩
  unfold Opens beginRun
  rw [wp_bind, wp_ask, wp_bind, wp_ask, wp_bind]
  refine wp_mono (hcontrol _ _) ?_ fun e _ he error h => absurd h (he error)
  rintro control _ rfl
  unfold emit emitWith
  rw [wp_bind, if_pos henabled, wp_bind, wp_pure, wp_modify]
  simp only [hall, if_true, wp_pure]
  refine ⟨_, ⟨[], [], rfl, (List.append_nil _).symm, .nil, rfl⟩, rfl, hall, rfl, ?_, rfl⟩
  unfold StreamReader.start
  split <;> rfl

/-- A loop state that a call opens, before the loop. -/
def OpeningHeard (mode : StreamMode) (g : CompiledGraph ν ρ) (boundaries : StreamBoundary → Prop)
    (p : RunContext × LoopState E Nat) (t : Telling) : Prop :=
  ∃ boundary, boundaries boundary ∧ Between mode g p.1 p.2 boundary t

theorem opens_openInvocation (hg : Placed g) (hh : Housed g)
    (hall : config.events.retention = .all) (hentry : mode.entry = .invoke)
    {initialState : E.State} {c : RuntimeCheckpoint} (hmode : mode.policy = c.policy) :
    Opens mode config m (openInvocation g.nav initialState config c)
      (OpeningHeard mode g fun boundary => boundary = .entering ∨ boundary = .entered) := by
  unfold openInvocation
  refine opens_bind (opens_beginRun hall) ?_
  rintro ctx _ ⟨rfl, h⟩
  have hphase : (StreamReader.start mode ctx.runId).phase = .standing none .entering := by
    unfold StreamReader.start
    rw [if_pos hentry]
  refine moves_bind (tells_start hg hh h hphase rfl) ?_
  rintro ⟨frontier, boundaries⟩ _ ⟨rfl, q, hwalk, hsettles⟩
  refine moves_bind (tells_boundaries h hphase rfl hwalk rfl) ?_
  rintro _ _ ⟨hlive, rfl⟩
  have hkind : StreamBoundary.crossed boundaries .entering = .entering ∨
      StreamBoundary.crossed boundaries .entering = .entered := by
    cases boundaries with
    | nil => exact .inl rfl
    | cons first boundaries => exact .inr rfl
  have hpath : ∀ t, Tells mode config.maxSteps m t (initialPath g.nav frontier)
      fun _ t' => t' = t := by
    intro t
    unfold initialPath
    cases frontier with
    | nil => exact moves_pure rfl
    | cons first rest =>
      obtain ⟨node, hnode, -⟩ := hsettles.node first List.mem_cons_self
      exact moves_map (tells_nodeAt hnode) fun _ _ hn => hn.1
  refine moves_bind (hpath _) ?_
  rintro initialNode _ rfl
  refine moves_bind (tells_controlRun hlive) ?_
  rintro _ _ rfl
  refine moves_pure ⟨_, hkind, hlive, hmode, rfl, rfl, hsettles, rfl, ?_, fun _ => ?_⟩
  · rcases hkind with hkind | hkind <;> rw [hkind] <;> rfl
  · rcases hkind with hkind | hkind <;> rw [hkind] <;> exact nofun

theorem opens_fetchResume (hall : config.events.retention = .all) {resume : ResumeConfig E.Value}
    (hconfig : resume.run = config) : Opens mode config m (fetchResume resume) fun p t =>
      t = ⟨.start mode p.1.runId, none⟩ ∧ Live p.1 t := by
  subst hconfig
  unfold fetchResume
  refine opens_bind (opens_beginRun hall) ?_
  rintro ctx t ⟨ht, h⟩
  refine moves_bind (tells_controlRun h) ?_
  rintro _ t rfl
  refine moves_bind (tells_loadTarget h) ?_
  rintro checkpoint t rfl
  refine moves_bind (tells_checkIdentity h) ?_
  rintro _ t rfl
  refine moves_bind (tells_checkLatest h) ?_
  rintro _ t rfl
  exact moves_pure ⟨ht, h⟩

theorem opens_loadHistorical (hg : Compiled g) (hall : config.events.retention = .all)
    {threadId : ThreadId} {checkpointId : CheckpointId} {resumeValue : Option E.Value} :
    Opens mode config m (loadHistorical g config threadId checkpointId resumeValue)
      fun loaded t => t = ⟨.start mode loaded.ctx.runId, none⟩ ∧ Live loaded.ctx t ∧
        Resolved g loaded.checkpoint loaded.frontier := by
  have hfetch : Opens mode config m (fetchHistorical config threadId checkpointId : M E _)
      fun p t => t = ⟨.start mode p.1.runId, none⟩ ∧ Live p.1 t := by
    unfold fetchHistorical loadExact
    refine opens_bind (opens_beginRun hall) ?_
    rintro ctx t ⟨ht, h⟩
    refine moves_bind (tells_controlRun h) ?_
    rintro _ t rfl
    refine moves_bind (tells_load h) ?_
    rintro checkpoint t rfl
    refine moves_bind (tells_checkIdentity h) ?_
    rintro _ t rfl
    exact moves_pure ⟨ht, h⟩
  unfold loadHistorical
  refine opens_bind hfetch ?_
  rintro ⟨ctx, checkpoint⟩ t ⟨ht, h⟩
  refine moves_bind (tells_resolveCheckpoint hg h) ?_
  rintro ⟨frontier, resumeNode⟩ t ⟨rfl, hresolved⟩
  refine moves_bind (tells_restoreState h) ?_
  rintro state t rfl
  exact moves_pure ⟨ht, h, hresolved⟩

/-- A loaded checkpoint is continued from where it lies. -/
theorem tells_restoredLoop (hg : Placed g) {maxSteps : Nat} {t : Telling} {ctx : RunContext}
    (h : Live ctx t) (hphase : t.reader.phase = .standing none .loaded)
    (hpath : t.reader.path = .root) {checkpoint : Checkpoint E.Snapshot E.Value}
    (hsteps : t.reader.steps = checkpoint.step) (hsuper : t.reader.superstep = checkpoint.superstep)
    {frontier : List Nat} (hresolved : Resolved g checkpoint frontier) {c : RuntimeCheckpoint}
    (hmode : mode.policy = c.policy) {state : E.State} {resumeNode : Option Nat}
    {resumeValue : Option E.Value} : Tells mode maxSteps m t (do
      reportNamespaces g ctx frontier
      pure (ctx, restoredLoop checkpoint state frontier resumeNode resumeValue c))
      (OpeningHeard mode g fun boundary => boundary = .loaded) := by
  refine moves_bind (tells_reportNamespaces hg h hphase hpath hresolved.scope) ?_
  rintro _ _ ⟨hlive, p, hsettles, rfl⟩
  exact moves_pure ⟨_, rfl, hlive, hmode, hsteps, hsuper, hsettles, rfl, rfl, fun _ => nofun⟩

theorem opens_openResume (hg : Compiled g) {resume : ResumeConfig E.Value}
    (hall : resume.run.events.retention = .all)
    {initializer : E.State → Except SourceError E.State} :
    Opens (Call.resume resume initializer).mode resume.run m (openResume g resume initializer)
      (OpeningHeard (Call.resume resume initializer).mode g
        fun boundary => boundary = .loaded) := by
  unfold openResume
  refine opens_bind (opens_fetchResume hall rfl) ?_
  rintro ⟨ctx, checkpoint⟩ t ⟨ht, h⟩
  refine moves_bind (tells_resolveCheckpoint hg h) ?_
  rintro ⟨frontier, resumeNode⟩ t ⟨rfl, hresolved⟩
  refine moves_bind (tells_restoreState h) ?_
  rintro state t rfl
  refine moves_bind (tells_restored h) ?_
  rintro state t rfl
  refine moves_bind (tells_controlRun h) ?_
  rintro _ t rfl
  subst ht
  refine moves_bind (tells_emit h (.runResumed rfl rfl) rfl rfl rfl) ?_
  rintro _ _ ⟨rfl, hlive⟩
  cases hbranch : resume.branchId with
  | none =>
    rw [hbranch] at hlive
    exact tells_restoredLoop (placed hg) hlive rfl rfl rfl rfl hresolved rfl
  | some branchId =>
    rw [hbranch] at hlive
    simp only [Option.toList_some, List.forM_eq_forM, List.forM_cons, List.forM_nil, bind_assoc,
      pure_bind]
    refine moves_bind (tells_emit hlive (.branchResumed rfl) rfl rfl rfl) ?_
    rintro _ _ ⟨rfl, hlive⟩
    exact tells_restoredLoop (placed hg) hlive rfl rfl rfl rfl hresolved rfl

theorem opens_openReplay (hg : Compiled g) {replay : ReplayConfig E.Value}
    (hall : replay.run.events.retention = .all) :
    Opens (Call.replay replay).mode replay.run m (openReplay g replay)
      (OpeningHeard (Call.replay replay).mode g fun boundary => boundary = .loaded) := by
  unfold openReplay
  refine opens_bind (opens_loadHistorical hg hall) ?_
  rintro loaded _ ⟨rfl, h, hresolved⟩
  unfold Historical.start
  refine moves_bind (tells_emit h (.replayStarted rfl rfl) rfl rfl rfl) ?_
  rintro _ _ ⟨rfl, hlive⟩
  exact tells_restoredLoop (placed hg) hlive rfl rfl rfl rfl hresolved rfl

theorem opens_openFork (hg : Compiled g) {fork : ForkConfig E.Value}
    (hall : fork.run.events.retention = .all) :
    Opens (Call.fork fork).mode fork.run m (openFork g fork)
      (OpeningHeard (Call.fork fork).mode g fun boundary => boundary = .loaded) := by
  unfold openFork
  refine opens_bind (opens_loadHistorical hg hall) ?_
  rintro loaded t ⟨ht, h, hresolved⟩
  refine moves_bind (tells_createBranch h) ?_
  rintro _ t rfl
  subst ht
  unfold Historical.start
  refine moves_bind (tells_emit h (.forkStarted rfl rfl) rfl rfl rfl) ?_
  rintro _ _ ⟨rfl, hlive⟩
  exact tells_restoredLoop (placed hg) hlive rfl rfl rfl rfl hresolved rfl

end Opens

/-! ## One call -/

variable {m : Machine E}

theorem tells_enterLoop {mode : StreamMode} {maxSteps : Nat} {t : Telling}
    {p : RunContext × LoopState E Nat} {flag : Bool} {kind : StreamBoundary → Prop}
    (h : OpeningHeard mode g kind p t)
    (hkind : ∀ boundary, kind boundary → flag = false ∧ boundary = .loaded ∨
      flag = true ∧ (boundary = .entering ∨ boundary = .entered)) :
    Tells mode maxSteps m t (enterLoop p.1 flag p.2) fun p' t' => ∃ boundary,
      Between mode g p'.1 p'.2 boundary t' ∧ (p'.2.frontier = [] → boundary.final mode) := by
  obtain ⟨ctx, ls⟩ := p
  obtain ⟨boundary, hof, h⟩ := h
  have hsaved : Tells mode maxSteps m t (saveEmpty ctx flag ls) fun c t' => ∃ boundary,
      Between mode g ctx { ls with checkpoints := c } boundary t' ∧
        (ls.frontier = [] → boundary.final mode) := by
    unfold saveEmpty
    split
    · rename_i hcondition
      simp only [Bool.and_eq_true, List.isEmpty_iff] at hcondition
      obtain ⟨⟨hflag, hnil⟩, hsaves⟩ := hcondition
      rw [shouldSave_eq h.policy] at hsaves
      obtain ⟨c, hc⟩ := enabled_of_saves h.policy hsaves
      have hsavable : boundary.savable mode true := by
        rw [saves_true] at hsaves
        rcases hkind boundary hof with ⟨hfalse, -⟩ | ⟨-, rfl | rfl⟩
        · rw [hflag] at hfalse
          cases hfalse
        · simpa [StreamBoundary.savable] using hsaves
        · simpa [StreamBoundary.savable] using hsaves
      rw [hc, ← h.superstep, ← h.steps]
      refine moves_bind (tells_saveBoundary h.live fun _ => .boundarySaved h.phase hsavable) ?_
      rintro ⟨saved, c'⟩ _ ⟨hlive, -, hafter, rfl⟩
      have hafter : c' = .enabled (c.after saved.id) := hafter
      subst hafter
      have hpolicy : mode.policy = some c.policy := by
        rw [h.policy, hc]
        rfl
      refine moves_pure ⟨_, ⟨hlive, hpolicy, rfl, rfl, h.settles, rfl, rfl,
        fun hne => absurd hnil hne⟩, fun _ => ?_⟩
      simp [StreamBoundary.final]
    · rename_i hcondition
      refine moves_pure ⟨boundary, h, fun hnil => ?_⟩
      unfold StreamBoundary.final
      rcases hkind boundary hof with ⟨-, rfl⟩ | ⟨hflag, -⟩
      · simp
      · rw [shouldSave_eq h.policy, saves_true, hflag, hnil] at hcondition
        cases hpolicy : mode.policy with
        | none => rfl
        | some policy =>
          rw [hpolicy] at hcondition
          exact absurd rfl hcondition
  unfold enterLoop
  refine moves_bind hsaved ?_
  rintro c t ⟨boundary, h, hfinal⟩
  exact moves_pure ⟨boundary, { h with live := ⟨h.live.retained, h.live.run, h.live.goes,
    h.live.due⟩ }, hfinal⟩

theorem opens_enter (hg : Compiled g) (call : Call E)
    (hall : call.config.events.retention = .all) :
    Opens call.mode call.config m (call.enter g) fun p t => ∃ boundary,
      Between call.mode g p.1 p.2 boundary t ∧ (p.2.frontier = [] → boundary.final call.mode) := by
  have hloaded : ∀ boundary, boundary = .loaded → false = false ∧ boundary = StreamBoundary.loaded ∨
      false = true ∧ (boundary = .entering ∨ boundary = .entered) := fun boundary h => .inl ⟨rfl, h⟩
  unfold Call.enter
  cases call with
  | invoke initialState config checkpoints =>
    have hkind : ∀ boundary, (boundary = .entering ∨ boundary = .entered) →
        true = false ∧ boundary = StreamBoundary.loaded ∨
          true = true ∧ (boundary = .entering ∨ boundary = .entered) :=
      fun boundary h => .inr ⟨rfl, h⟩
    cases checkpoints with
    | none =>
      exact opens_bind (opens_openInvocation (placed hg) (housed hg) hall rfl rfl)
        fun p t h => tells_enterLoop h hkind
    | some checkpoints =>
      exact opens_bind (opens_openInvocation (placed hg) (housed hg) hall rfl rfl)
        fun p t h => tells_enterLoop h hkind
  | resume config initializer =>
    exact opens_bind (opens_openResume hg hall) fun p t h => tells_enterLoop h hloaded
  | replay config =>
    exact opens_bind (opens_openReplay hg hall) fun p t h => tells_enterLoop h hloaded
  | fork config =>
    exact opens_bind (opens_openFork hg hall) fun p t h => tells_enterLoop h hloaded

/-- **What a call tells.** -/
theorem opens_run (hg : Compiled g) (call : Call E)
    (hall : call.config.events.retention = .all) :
    Opens call.mode call.config m (call.run g) fun outcome t =>
      Over outcome.runId outcome.ending t := by
  rw [Call.run_eq]
  refine opens_bind (opens_enter hg call hall) ?_
  rintro ⟨ctx, ls⟩ t ⟨boundary, h, hfinal⟩
  refine moves_bind (tells_runLoop (placed hg) (housed hg) h hfinal) ?_
  rintro ended t ⟨hturned, hdone⟩
  refine moves_bind (tells_leaveLoop hturned hdone) ?_
  rintro outcome t hover
  unfold Call.conclude
  split
  · exact tells_panic
  · exact tells_panic
  · exact moves_pure hover

/-- What a listener may rely on of the events behind the start of a run that ended so. -/
structure RunStream (mode : StreamMode) (runId : RunId) (how : StreamEnd)
    (events : List GraphEvent) : Prop where
  protocol : ∃ r, Follow (StreamReader.Next mode) (.start mode runId) events r ∧
    r.phase = .ended how
  once : ∃ body last, events = body ++ [last] ∧ last.ends? = some how ∧
    ∀ event ∈ body, event.ends? = none
  own : ∀ event ∈ events, event.runId = runId
  entered : ∀ p, p ≠ GraphPath.root →
    (events.filterMap GraphEvent.leaves?).count p ≤ (events.filterMap GraphEvent.enters?).count p ∧
      (events.filterMap GraphEvent.enters?).count p ≤
        (events.filterMap GraphEvent.leaves?).count p + 1
  left : ∀ steps, how = .completed steps → ∀ p, p ≠ GraphPath.root →
    (events.filterMap GraphEvent.leaves?).count p = (events.filterMap GraphEvent.enters?).count p
  updated : ∀ before event after node, events = before ++ event :: after →
    event.updates? = some node → node ∈ before.filterMap GraphEvent.completes?

theorem runStream_of_follow {mode : StreamMode} {runId : RunId} {how : StreamEnd}
    {events : List GraphEvent} {r : StreamReader}
    (h : Follow (StreamReader.Next mode) (.start mode runId) events r)
    (hphase : r.phase = .ended how)
    (hpath : ∀ steps, how = .completed steps → r.path = .root) :
    RunStream mode runId how events := by
  have hgoes : (StreamReader.start mode runId).phase.ends? = none := by
    unfold StreamReader.start
    split <;> rfl
  have hreported : (StreamReader.start mode runId).phase.Reported [] := by
    unfold StreamReader.start
    split <;> trivial
  refine ⟨⟨r, h, hphase⟩, ended_once h hgoes (by rw [hphase]; rfl), (own_events h).2, ?_, ?_,
    updated_completed h hreported⟩
  · intro p hp
    rw [balanced h rfl hp]
    split <;> omega
  · intro steps hhow p hp
    have hout : ¬p.segments <+: r.path.segments := by
      rw [hpath steps hhow]
      exact fun hprefix => GraphPath.ne_root.mp hp (List.prefix_nil.mp hprefix)
    rw [balanced h rfl hp, if_neg hout, Nat.add_zero]

/-- What a call has told and written when it is over. -/
theorem Told.over {mode : StreamMode} {maxSteps : Nat} {t : Telling} {m' : Machine E}
    (h : Told mode maxSteps m t m') {runId : RunId} {how : StreamEnd} (ho : Over runId how t) :
    ∃ events writes, m'.events = m.events ++ .runStarted runId maxSteps :: events ∧
      m'.writes = m.writes ++ writes ∧ RunStream mode runId how events ∧
      events.filter GraphEvent.isSave = writes.filterMap StoreWrite.report := by
  obtain ⟨events, writes, hevents, hwrites, hread, hreport⟩ := h
  have hrun := ho.run
  subst hrun
  rw [ho.due, Option.toList_none, List.append_nil] at hreport
  exact ⟨events, writes, hevents, hwrites, runStream_of_follow hread ho.phase ho.path, hreport.symm⟩

/-- **The stream of a call** follows the protocol, and ends as the call does. -/
theorem stream_protocol (hg : Compiled g) (call : Call E) (m : Machine E)
    (hall : call.config.events.retention = .all) :
    (∀ outcome m', call.run g m = .ok outcome m' → ∃ events,
      m'.events = m.events ++ .runStarted outcome.runId call.config.maxSteps :: events ∧
        RunStream call.mode outcome.runId outcome.ending events) ∧
    ∀ error m', call.run g m = .error (.error error) m' → ∃ runId events,
      m'.events = m.events ++ .runStarted runId call.config.maxSteps :: events ∧
        RunStream call.mode runId (.failed (RunFailure.ofError error)) events := by
  refine ⟨fun outcome m' hrun => ?_, fun error m' hrun => ?_⟩
  · obtain ⟨t, htold, hover⟩ := wp_of_ok (opens_run hg call hall) hrun
    obtain ⟨events, writes, hevents, -, hstream, -⟩ := htold.over hover
    exact ⟨events, hevents, hstream⟩
  · obtain ⟨t, htold, hfailed⟩ := wp_of_error (opens_run hg call hall) hrun error rfl
    obtain ⟨hphase, hdue⟩ := hfailed error rfl
    obtain ⟨events, writes, hevents, -, hstream, -⟩ := htold.over ⟨rfl, hphase, hdue, nofun⟩
    exact ⟨_, events, hevents, hstream⟩

/-- **Saves are reported**: the checkpoints that a call reports are those that the store accepted,
one by one and in their order, also if the call fails. -/
theorem saves_reported (hg : Compiled g) (call : Call E) (m : Machine E)
    (hall : call.config.events.retention = .all) {m' : Machine E}
    (hrun : (∃ outcome, call.run g m = .ok outcome m') ∨
      ∃ error, call.run g m = .error (.error error) m') :
    ∃ events writes, m'.events = m.events ++ events ∧ m'.writes = m.writes ++ writes ∧
      events.filter GraphEvent.isSave = writes.filterMap StoreWrite.report := by
  have hover : ∃ t runId how, Told call.mode call.config.maxSteps m t m' ∧ Over runId how t := by
    rcases hrun with ⟨outcome, hrun⟩ | ⟨error, hrun⟩
    · obtain ⟨t, htold, hover⟩ := wp_of_ok (opens_run hg call hall) hrun
      exact ⟨t, _, _, htold, hover⟩
    · obtain ⟨t, htold, hfailed⟩ := wp_of_error (opens_run hg call hall) hrun error rfl
      obtain ⟨hphase, hdue⟩ := hfailed error rfl
      exact ⟨t, _, _, htold, rfl, hphase, hdue, nofun⟩
  obtain ⟨t, runId, how, htold, hover⟩ := hover
  obtain ⟨events, writes, hevents, hwrites, -, hsaves⟩ := htold.over hover
  exact ⟨_, writes, hevents, hwrites, hsaves⟩

end Open

namespace Crossroads

/-- An invocation that saves every boundary and retains its events. -/
def telling : Call (Script.env Unit Unit) :=
  .invoke () ⟨10, ⟨.all, false⟩, ⟨false, none, none⟩, 10⟩
    (some ⟨⟨"t"⟩, .everySuperstep, none, none⟩)

/-- The machine on which the router chooses `a`, which the mounted graph follows. -/
def mounting : Machine (Script.env Unit Unit) := Script.machine ⟨[[⟨"a"⟩]], none⟩

theorem telling_ends : ∃ outcome m', telling.run graph mounting = .ok outcome m' := by
  have hsome : (EStateM.run' (telling.run graph) mounting).isSome = true := by decide +kernel
  unfold EStateM.run' EStateM.run at hsome
  cases hrun : telling.run graph mounting with
  | ok outcome m' => exact ⟨outcome, m', rfl⟩
  | error e m' =>
    rw [hrun] at hsome
    cases hsome

/-- The mounted graph is entered and left. -/
theorem telling_protocol :
    (final (telling.run graph) mounting).events.filterMap GraphEvent.enters? = [⟨[⟨"s"⟩]⟩] ∧
    ∃ outcome m' events, telling.run graph mounting = .ok outcome m' ∧
      RunStream telling.mode outcome.runId outcome.ending events := by
  refine ⟨by decide +kernel, ?_⟩
  obtain ⟨outcome, m', hrun⟩ := telling_ends
  obtain ⟨events, -, hstream⟩ := (stream_protocol compiled telling mounting rfl).1 outcome m' hrun
  exact ⟨outcome, m', events, hrun, hstream⟩

/-- The three boundaries are saved, and reported. -/
theorem telling_saves :
    ((final (telling.run graph) mounting).events.filter GraphEvent.isSave).length = 3 ∧
    ∃ m' : Machine (Script.env Unit Unit), ∃ events writes,
      m'.events = mounting.events ++ events ∧ m'.writes = mounting.writes ++ writes ∧
      events.filter GraphEvent.isSave = writes.filterMap StoreWrite.report := by
  refine ⟨by decide +kernel, ?_⟩
  obtain ⟨outcome, m', hrun⟩ := telling_ends
  exact ⟨m', saves_reported compiled telling mounting rfl (.inl ⟨outcome, hrun⟩)⟩

end Crossroads

end GroupAgent.Core
