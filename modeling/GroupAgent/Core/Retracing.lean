import GroupAgent.Core.Deterministic
import GroupAgent.Core.Reporting

/-!
# Retracing a run

Two runs of one graph that stand at one stage go on alike where nodes and routers behave: the loop
(`runtime.rs:369-890`) of the second commits the stages that the loop of the first committed,
visits the same nodes, and saves the same boundaries or none, unless it is disturbed from outside
or the store refuses a save.

* `kept`: what the store has accepted, apart from the run that sent it.
* `Turns`: turns of the loop, with the stages they move on to. `Turns.cut` finds the turn that made
  an accepted save.
* `Turn.explained`: every turn has an outcome of its updates, so that a second run can be compared
  with it.
* `Twin`: a loop state at the stage of another, of a run that saves as the other does or not at
  all.

Results: `Twin.superstep` is one super-step, **`Twin.runLoop`** the loop to its end.

Two runs differ in their identifiers, in the events they keep and in the world they are in. None of
these is part of a stage.
-/

namespace GroupAgent.Core

open GroupAgent.Lib

variable {ν ρ : Type} {E : Env ν ρ} {g : CompiledGraph ν ρ}

/-! ## What is kept -/

/-- What a request keeps of a boundary, apart from the run that it is made in. -/
structure KeptBoundary (τ : Type) where
  snapshot : τ
  superstep : Nat
  step : Nat
  nextFrontier : List NodePath
  completed : Bool

def CheckpointRequest.boundary {τ π : Type} (r : CheckpointRequest τ π) : KeptBoundary τ :=
  ⟨r.snapshot, r.superstep, r.step, r.nextFrontier, r.completed⟩

def StoreWrite.keptBoundary : StoreWrite E → Option (KeptBoundary E.Snapshot)
  | .save _ request (some (.ok _)) => some request.boundary
  | .save _ _ (some (.error _)) => none
  | .save _ _ none => none
  | .createBranch _ _ _ _ => none

/-- What the store has accepted, in order. -/
def kept (ws : List (StoreWrite E)) : List (KeptBoundary E.Snapshot) :=
  ws.filterMap StoreWrite.keptBoundary

@[simp] theorem kept_nil : kept ([] : List (StoreWrite E)) = [] := rfl

@[simp] theorem kept_append (ws ws' : List (StoreWrite E)) :
    kept (ws ++ ws') = kept ws ++ kept ws' := List.filterMap_append

/-- A save leaves the policy as it was. -/
theorem Keeping.policy {runId : RunId} {c k : RuntimeCheckpoint} {s : Stage E}
    {ws : List (StoreWrite E)} (h : Keeping g runId c s k ws) : k.policy = c.policy := by
  cases h with
  | skipped => rfl
  | saved hc =>
    rw [hc]
    rfl

/-- Which boundaries are saved is for the policy. -/
theorem shouldSave_congr {c c' : RuntimeCheckpoint} (h : c.policy = c'.policy) (completed : Bool) :
    c.shouldSave completed = c'.shouldSave completed := by
  have hmode : (⟨.invoke, c.policy⟩ : StreamMode).policy = c.policy := rfl
  rw [shouldSave_eq hmode, shouldSave_eq (hmode.trans h)]

/-- Whether a boundary is kept is for the policy, and what is kept of it for its stage. -/
theorem Keeping.kept_eq {runId runId' : RunId} {c c' k k' : RuntimeCheckpoint} {s : Stage E}
    {ws ws' : List (StoreWrite E)} (h : Keeping g runId c s k ws)
    (h' : Keeping g runId' c' s k' ws') {flag : Bool}
    (hsaves : ∀ completed, c'.shouldSave completed = (flag && c.shouldSave completed)) :
    kept ws' = if flag then kept ws else [] := by
  have hsave := hsaves s.frontier.isEmpty
  cases h with
  | skipped hskip =>
    cases h' with
    | skipped => simp
    | saved _ hsave' => simp [hsave', hskip] at hsave
  | @saved e paths snapshot id chk _ hkeep hpaths hsnapshot =>
    cases h' with
    | skipped hskip' =>
      rw [hskip', hkeep, Bool.and_true] at hsave
      simp [← hsave]
    | @saved e' paths' snapshot' id' chk' _ hkeep' hpaths' hsnapshot' =>
      rw [hkeep', hkeep, Bool.and_true] at hsave
      rw [← hsave, hsnapshot] at *
      cases hsnapshot'
      rw [Determined.paths_unique hpaths hpaths']
      rfl

/-! ## Turns -/

/-- Turns of the loop, with the stages they move on to. -/
inductive Turns (g : CompiledGraph ν ρ) (ctx : RunContext) :
    LoopState E Nat × Machine E → List (Stage E) → LoopState E Nat × Machine E → Prop where
  | refl (p : LoopState E Nat × Machine E) : Turns g ctx p [] p
  | head {p q r : LoopState E Nat × Machine E} {stages : List (Stage E)} (hturn : Turn g ctx p q)
      (h : Turns g ctx q stages r) : Turns g ctx p (q.1.stage :: stages) r

section Turns

variable {ctx : RunContext} {seed : Option (List Nat)} {tol : Tolerance}
  {p q : LoopState E Nat × Machine E} {stages : List (Stage E)}

theorem Turns.of_reflTransGen (h : Relation.ReflTransGen (Turn g ctx) p q) :
    ∃ stages, Turns g ctx p stages q := by
  induction h using Relation.ReflTransGen.head_induction_on with
  | refl => exact ⟨[], .refl q⟩
  | @head p p' hturn _ ih =>
    obtain ⟨stages, h⟩ := ih
    exact ⟨_, .head hturn h⟩

theorem Turns.trans {r : LoopState E Nat × Machine E} {stages' : List (Stage E)}
    (h : Turns g ctx p stages q) (h' : Turns g ctx q stages' r) :
    Turns g ctx p (stages ++ stages') r := by
  induction h with
  | refl p => exact h'
  | head hturn _ ih => exact .head hturn (ih h')

/-- What a turn saves. -/
theorem Turn.keeping (hg : Placed g) (hwatch : Watch g tol seed) (hv : Valid g seed ctx p.1)
    (h : Turn g ctx p q) :
    ∃ ws, Keeping g ctx.runId p.1.checkpoints q.1.stage q.1.checkpoints ws ∧
      q.2.writes = p.2.writes ++ ws := by
  obtain ⟨first, rest, hl, hstep⟩ := h
  exact wp_of_ok (keeping_superstep (m := p.2) hg hwatch hv hl) hstep _ rfl

/-- Turns count what they visit. -/
theorem Turns.visited (hg : Placed g) (hwatch : Watch g tol seed) (hv : Valid g seed ctx p.1)
    (h : Turns g ctx p stages q) : ∃ paths, q.1.visitedNodes = p.1.visitedNodes ++ paths ∧
      q.1.steps = p.1.steps + paths.length := by
  induction h with
  | refl p => exact ⟨[], (List.append_nil _).symm, rfl⟩
  | @head p q r stages hturn _ ih =>
    obtain ⟨hmoved, hv', -⟩ := hv.turn hg hwatch hturn
    obtain ⟨paths, hpaths, hvisited⟩ := hmoved.visited
    obtain ⟨paths', hvisited', hsteps'⟩ := ih hv'
    refine ⟨paths ++ paths', by rw [hvisited', hvisited, List.append_assoc], ?_⟩
    rw [hsteps', hmoved.steps, hpaths.length_eq, List.length_append, Nat.add_assoc]

/-- Turns leave the policy as it was. -/
theorem Turns.policy (hg : Placed g) (hwatch : Watch g tol seed) (hv : Valid g seed ctx p.1)
    (h : Turns g ctx p stages q) : q.1.checkpoints.policy = p.1.checkpoints.policy := by
  induction h with
  | refl p => rfl
  | head hturn _ ih =>
    obtain ⟨ws, hkeeping, -⟩ := Turn.keeping hg hwatch hv hturn
    obtain ⟨-, hv', -⟩ := hv.turn hg hwatch hturn
    rw [ih hv', hkeeping.policy]

/-- Turns add to the log, and count what they execute. -/
theorem Turns.grows (hg : Placed g) (hwatch : Watch g tol seed) (hv : Valid g seed ctx p.1)
    (h : Turns g ctx p stages q) : Valid g seed ctx q.1 ∧
      p.1.steps + stages.length ≤ q.1.steps ∧ ∃ ws, q.2.writes = p.2.writes ++ ws := by
  induction h with
  | refl p => exact ⟨hv, Nat.le_refl _, [], (List.append_nil _).symm⟩
  | @head p q r stages hturn _ ih =>
    obtain ⟨hmoved, hv', -⟩ := hv.turn hg hwatch hturn
    obtain ⟨ws, -, hw⟩ := Turn.keeping hg hwatch hv hturn
    obtain ⟨first, rest, hl, -⟩ := hturn
    obtain ⟨hvalid, hsteps, ws', hw'⟩ := ih hv'
    have hcount := hmoved.steps
    rw [hl, List.length_cons] at hcount
    refine ⟨hvalid, ?_, ws ++ ws', by rw [hw', hw, List.append_assoc]⟩
    rw [List.length_cons]
    omega

/-- The loop state at which an accepted save was made. -/
structure CutAt (g : CompiledGraph ν ρ) (request : CheckpointRequest E.Snapshot E.Value)
    (ls : LoopState E Nat) : Prop where
  keeps : Keeps g request ls.stage
  interrupt : request.interrupt = none
  resumeNode : ls.resumeNode = none

/-- **The turn that made an accepted save.** -/
theorem Turns.cut (hg : Placed g) (hwatch : Watch g tol seed) (hv : Valid g seed ctx p.1)
    (h : Turns g ctx p stages q) {before after : List (StoreWrite E)}
    {branchId : Option BranchId} {request : CheckpointRequest E.Snapshot E.Value}
    {chk : Checkpoint E.Snapshot E.Value}
    (hw : q.2.writes = p.2.writes ++ (before ++ .save branchId request (some (.ok chk)) :: after)) :
    ∃ earlier later r, stages = earlier ++ later ∧ Turns g ctx p earlier r ∧ Turns g ctx r later q ∧
      CutAt g request r.1 ∧ q.2.writes = r.2.writes ++ after := by
  induction h generalizing before with
  | refl p =>
    have hlen := congrArg List.length hw
    simp at hlen
  | @head p q r stages hturn hrest ih =>
    obtain ⟨ws, hkeeping, hwrites⟩ := Turn.keeping hg hwatch hv hturn
    obtain ⟨hmoved, hv', -⟩ := hv.turn hg hwatch hturn
    obtain ⟨-, -, ws', hgrows⟩ := hrest.grows hg hwatch hv'
    have hsplit : ws ++ ws' = before ++ .save branchId request (some (.ok chk)) :: after := by
      have hlog : p.2.writes ++ (ws ++ ws') =
          p.2.writes ++ (before ++ .save branchId request (some (.ok chk)) :: after) := by
        rw [← hw, hgrows, hwrites, List.append_assoc]
      exact List.append_cancel_left hlog
    have hlater : ∀ rest, before = ws ++ rest → ∃ earlier later r',
        q.1.stage :: stages = earlier ++ later ∧ Turns g ctx p earlier r' ∧
          Turns g ctx r' later r ∧ CutAt g request r'.1 ∧ r.2.writes = r'.2.writes ++ after := by
      rintro rest rfl
      have hrest' : r.2.writes =
          q.2.writes ++ (rest ++ .save branchId request (some (.ok chk)) :: after) := by
        rw [hw, hwrites]
        simp only [List.append_assoc]
      obtain ⟨earlier, later, r', rfl, hearlier, hlater, hcut⟩ := ih hv' hrest'
      exact ⟨_, later, r', rfl, .head hturn hearlier, hlater, hcut⟩
    generalize q.1.checkpoints = k at hkeeping
    cases hkeeping with
    | skipped => exact hlater before rfl
    | saved hc hsave hpaths hsnapshot =>
      cases before with
      | nil =>
        obtain ⟨hfirst, rfl⟩ := List.cons.inj hsplit
        cases hfirst
        refine ⟨[q.1.stage], stages, q, rfl, .head hturn (.refl q), hrest, ?_, hgrows⟩
        exact ⟨⟨hsnapshot, rfl, rfl, hpaths, rfl⟩, rfl, hmoved.resumeNode⟩
      | cons w before =>
        obtain ⟨rfl, -⟩ := List.cons.inj hsplit
        exact hlater before rfl

end Turns

/-! ## The outcome of a turn -/

section Outcome

variable {b : Behaviour E} {ctx ctx' : RunContext}

/-- A super-step that goes on to a state has applied an update of every node. -/
theorem Behaviour.Ran.makes {ls : LoopState E Nat} {first : Nat} {rest : List Nat} {state : E.State}
    (h : b.Ran g ctx ls first rest (.ok (.inl state))) :
    ∃ batch, b.Makes g ls (ls.steps + 1) (first :: rest) batch := by
  generalize hr : (Except.ok (Sum.inl state) : Except Stop _) = r at h
  cases h with
  | applied hmakes => exact ⟨_, hmakes⟩
  | suspended => cases hr
  | failed => cases hr
  | spoiled => cases hr

/-- What the executions of a frontier are given is all that their updates depend on. -/
theorem Behaviour.Makes.congr {ls ls' : LoopState E Nat} {step : Nat} {frontier : List Nat}
    {batch : List (NodeUpdate E.Update)} (h : b.Makes g ls step frontier batch)
    (hasks : ∀ index n step, ls'.asks index n step = ls.asks index n step) :
    b.Makes g ls' step frontier batch := by
  induction h with
  | nil => exact .nil
  | cons hn hu _ ih => exact .cons hn (by rw [hasks]; exact hu) ih

/-- More hops settle what fewer hops settle. -/
theorem Behaviour.normalize_mono {state : E.State} {step : Nat} {next : List Nat} :
    ∀ {hops hops' : Nat} {frontier : List Nat} {boundaries boundaries' : List SubgraphBoundary},
      b.normalize g state step hops frontier boundaries = .ok (next, boundaries') → hops ≤ hops' →
        b.normalize g state step hops' frontier boundaries = .ok (next, boundaries')
  | 0, _, _, _, _, h, _ => by cases h
  | _ + 1, 0, _, _, _, _, hle => absurd hle (Nat.not_succ_le_zero _)
  | _ + 1, _ + 1, [], _, _, h, _ => h
  | hops + 1, hops' + 1, [index], boundaries, boundaries', h, hle => by
    unfold normalize at h ⊢
    obtain ⟨item, hitem, h⟩ := bind_eq_ok.mp h
    rw [hitem, ok_bind]
    cases item with
    | node n => exact h
    | enterSubgraph graphPath nested t =>
      obtain ⟨targets, htargets, h⟩ := bind_eq_ok.mp h
      simp only
      rw [htargets, ok_bind]
      exact normalize_mono h (Nat.le_of_succ_le_succ hle)
    | exitSubgraph graphPath mountPath t =>
      obtain ⟨targets, htargets, h⟩ := bind_eq_ok.mp h
      simp only
      rw [htargets, ok_bind]
      exact normalize_mono h (Nat.le_of_succ_le_succ hle)
  | _ + 1, _ + 1, _ :: _ :: _, _, _, h, _ => h

theorem keeps_eq_ok {c : RuntimeCheckpoint} {runId : RunId} {s : Stage E} :
    c.keeps runId s = .ok () ↔
      (c.shouldSave s.frontier.isEmpty = true → ∃ snapshot, E.snapshot s.state = .ok snapshot) := by
  unfold RuntimeCheckpoint.keeps
  cases c with
  | disabled => simp [RuntimeCheckpoint.shouldSave]
  | readOnlyReplay _ _ => simp [RuntimeCheckpoint.shouldSave]
  | enabled c =>
    simp only
    split
    · rename_i hsave
      cases E.snapshot s.state <;> simp [hsave]
    · rename_i hsave
      simp [hsave]

/-- An outcome that another run has too. -/
theorem Behaviour.step_congr {ls ls' : LoopState E Nat} {graphPath : GraphPath}
    {batch : List (NodeUpdate E.Update)} {s : Stage E}
    (h : b.step g ctx ls graphPath batch = .ok s) (hstage : ls'.stage = ls.stage)
    (hhops : ctx.hops ≤ ctx'.hops)
    (hsaves : ∀ completed, ls'.checkpoints.shouldSave completed = true →
      ls.checkpoints.shouldSave completed = true) :
    b.step g ctx' ls' graphPath batch = .ok s := by
  have hstate : ls'.state = ls.state := congrArg Stage.state hstage
  have hsteps : ls'.steps = ls.steps := congrArg Stage.steps hstage
  have hsuper : ls'.superstep = ls.superstep := congrArg Stage.superstep hstage
  have hfrontier : ls'.frontier = ls.frontier := congrArg Stage.frontier hstage
  unfold step at h ⊢
  rw [hstate, hsteps, hsuper, hfrontier]
  obtain ⟨state, happly, h⟩ := bind_eq_ok.mp h
  obtain ⟨targets, htargets, h⟩ := bind_eq_ok.mp h
  obtain ⟨⟨next, boundaries⟩, hsettle, h⟩ := bind_eq_ok.mp h
  obtain ⟨⟨⟩, hkeeps, h⟩ := bind_eq_ok.mp h
  cases h
  have hkeeps' : ls'.checkpoints.keeps ctx'.runId
      (⟨state, ls.steps + ls.frontier.length, ls.superstep + 1, next⟩ : Stage E) = .ok () :=
    keeps_eq_ok.mpr fun hsave => keeps_eq_ok.mp hkeeps (hsaves _ hsave)
  rw [happly, ok_bind, htargets, ok_bind, normalize_mono hsettle hhops, ok_bind]
  simp only
  rw [hkeeps', ok_bind]
  rfl

/-- How a turn comes about. -/
structure Behaviour.Explains (b : Behaviour E) (g : CompiledGraph ν ρ) (ctx : RunContext)
    (p q : LoopState E Nat × Machine E) (n : CompiledNode ν ρ Nat)
    (batch : List (NodeUpdate E.Update)) : Prop where
  makes : b.Makes g p.1 (p.1.steps + 1) p.1.frontier batch
  step : b.step g ctx p.1 n.graphPath batch = .ok q.1.stage
  visited : q.1.visitedNodes = p.1.visitedNodes ++ batch.map NodeUpdate.nodePath

/-- **Every turn has an outcome of its updates.** -/
theorem Turn.explained (hg : Placed g) {seed : Option (List Nat)} {tol : Tolerance}
    (hwatch : Watch g tol seed) (hb : E.Behaves b) {p q : LoopState E Nat × Machine E}
    (hv : Valid g seed ctx p.1) (h : Turn g ctx p q) : ∃ first rest n batch,
      p.1.frontier = first :: rest ∧ g.items[first]? = some (.node n) ∧
        b.Explains g ctx p q n batch := by
  obtain ⟨hmoved, -, -⟩ := hv.turn hg hwatch h
  obtain ⟨first, rest, boundaries, m₁, hl, hadvance⟩ := hmoved.advanced
  have hnodes : ∀ i ∈ first :: rest, ∃ n, g.items[i]? = some (.node n) := fun i hi =>
    hv.frontier.node (hl ▸ hi)
  have hadvances : Within Loose (advance g.nav ctx p.1 first rest)
      (fun a => b.Advances g ctx p.1 first rest (.ok a)) (fun _ => True) :=
    within_mono (Determined.advance (D := fun _ => True) (fun _ _ => trivial) hb hnodes
      (.inl fun _ _ => trivial)) (fun _ h => h) fun _ _ => trivial
  obtain ⟨n, v, hn, hran, hv'⟩ := (hadvances.of_ok hadvance).1
  obtain ⟨v, rfl, hcarry⟩ := bind_eq_ok.mp hv'.symm
  cases v with
  | inr request => cases hcarry
  | inl state =>
    obtain ⟨batch, hmakes⟩ := hran.makes
    rw [← hl] at hmakes
    obtain ⟨first', rest', hl', hstep⟩ := h
    rw [hl] at hl'
    cases hl'
    have houtcome : Within Loose (superstep g.nav ctx p.1 first rest) _ _ :=
      Determined.superstep (D := fun _ => True) (fun _ _ => trivial) (fun _ _ => trivial) hb hl hn
        hmakes (.inl fun _ _ => trivial)
    obtain ⟨s, ls', hls', hs, hmovedTo⟩ := (houtcome.of_ok hstep).1
    cases hls'
    obtain ⟨paths, hpaths, hvisited⟩ := hmovedTo.visited
    obtain rfl := Determined.paths_unique hpaths hmakes.paths
    exact ⟨first, rest, n, batch, hl, hn, hmakes, by rw [hs, hmovedTo.stage], hvisited⟩

end Outcome

/-! ## Twins -/

/-- A loop state at the stage of another, of a run that saves as the other does, or not at all. -/
structure Twin (flag : Bool) (ls ls' : LoopState E Nat) : Prop where
  stage : ls'.stage = ls.stage
  resumeNode : ls.resumeNode = none
  resumeNode' : ls'.resumeNode = none
  saves : ∀ completed,
    ls'.checkpoints.shouldSave completed = (flag && ls.checkpoints.shouldSave completed)

theorem Twin.asks {flag : Bool} {ls ls' : LoopState E Nat} (h : Twin flag ls ls') (index : Nat)
    (n : CompiledNode ν ρ Nat) (step : Nat) : ls'.asks index n step = ls.asks index n step := by
  have hstate : ls'.state = ls.state := congrArg Stage.state h.stage
  unfold LoopState.asks
  rw [h.resumeNode, h.resumeNode', hstate]
  rfl

/-- How one run retraces a part of another, from `p'` to `q'` what that did from `p` to `q`. -/
structure Retraces (flag : Bool) (g : CompiledGraph ν ρ) (ctx' : RunContext)
    (p q : LoopState E Nat × Machine E) (stages : List (Stage E))
    (p' q' : LoopState E Nat × Machine E) : Prop where
  twin : Twin flag q.1 q'.1
  turns : Turns g ctx' p' stages q'
  visited : ∃ paths, q.1.visitedNodes = p.1.visitedNodes ++ paths ∧
    q'.1.visitedNodes = p'.1.visitedNodes ++ paths
  writes : ∃ ws ws', q.2.writes = p.2.writes ++ ws ∧ q'.2.writes = p'.2.writes ++ ws' ∧
    kept ws' = if flag then kept ws else []

section Twin

variable {b : Behaviour E} {ctx ctx' : RunContext} {flag : Bool} {seed seed' : Option (List Nat)}
  {tol tol' : Tolerance}

/-- A turn of one run is the turn of its twin, or the twin is disturbed or refused. -/
theorem Twin.superstep (hg : Placed g) (hwatch : Watch g tol seed) (hwatch' : Watch g tol' seed')
    (hb : E.Behaves b) {p q : LoopState E Nat × Machine E} (hv : Valid g seed ctx p.1)
    (hturn : Turn g ctx p q) (hhops : ctx.hops ≤ ctx'.hops) {ls' : LoopState E Nat}
    (htwin : Twin flag p.1 ls') (hv' : Valid g seed' ctx' ls')
    (hlimit : q.1.steps ≤ ctx'.absoluteStepLimit) (m' : Machine E) : ∃ first rest,
      ls'.frontier = first :: rest ∧ wp (superstep g.nav ctx' ls' first rest)
        (fun next m'' => ∃ ls'', next = .inl ls'' ∧
          Retraces flag g ctx' p q [q.1.stage] (ls', m') (ls'', m''))
        (fun e _ => Disturbed e ∨ Rejected e) m' := by
  obtain ⟨first, rest, n, batch, hl, hn, hexplains⟩ := Turn.explained hg hwatch hb hv hturn
  obtain ⟨ws, hkeeping, hw⟩ := Turn.keeping hg hwatch hv hturn
  obtain ⟨hmoved, hvq, -⟩ := hv.turn hg hwatch hturn
  have hsteps : ls'.steps = p.1.steps := congrArg Stage.steps htwin.stage
  have hsuper : ls'.superstep = p.1.superstep := congrArg Stage.superstep htwin.stage
  have hfrontier : ls'.frontier = p.1.frontier := congrArg Stage.frontier htwin.stage
  have hl' : ls'.frontier = first :: rest := hfrontier.trans hl
  have hmakes : b.Makes g ls' (ls'.steps + 1) ls'.frontier batch := by
    rw [hsteps, hfrontier]
    exact hexplains.makes.congr htwin.asks
  have hstep : b.step g ctx' ls' n.graphPath batch = .ok q.1.stage :=
    Behaviour.step_congr hexplains.step htwin.stage hhops fun completed hsave => by
      rw [htwin.saves, Bool.and_eq_true] at hsave
      exact hsave.2
  have hspace : Determined.Spacious ctx' ls' (first :: rest) := by
    refine ⟨?_, hv'.room.limit_le, ?_⟩
    · rw [hsteps, ← hl, ← hmoved.steps]
      exact hlimit
    · rw [hsuper, ← hmoved.superstep]
      exact hvq.room.superstep_le
  refine ⟨first, rest, hl', wp_iff.mpr ⟨fun next m'' hnext => ?_, fun e m'' he => ?_⟩⟩
  all_goals
    have houtcome : Within Loose (Core.superstep g.nav ctx' ls' first rest) _ _ :=
      Determined.superstep (D := fun e => Disturbed e ∨ Rejected e) (fun _ h => .inl h)
        (fun _ h => .inr h) hb hl' hn hmakes (.inr hspace)
  · obtain ⟨s, ls'', rfl, hs, hmovedTo⟩ := (houtcome.of_ok hnext).1
    rw [hstep] at hs
    cases hs
    obtain ⟨ws', hkeeping', hw'⟩ :=
      wp_of_ok (keeping_superstep (m := m') hg hwatch' hv' hl') hnext ls'' rfl
    obtain ⟨paths, hpaths, hvisited⟩ := hmovedTo.visited
    obtain rfl := Determined.paths_unique hpaths hmakes.paths
    rw [hmovedTo.stage] at hkeeping'
    have htwin' : Twin flag q.1 ls'' := by
      refine ⟨hmovedTo.stage, hmoved.resumeNode, hmovedTo.resumeNode, fun completed => ?_⟩
      rw [shouldSave_congr hkeeping'.policy, shouldSave_congr hkeeping.policy, htwin.saves]
    have hturn' : Turn g ctx' (ls', m') (ls'', m'') := ⟨first, rest, hl', hnext⟩
    refine ⟨ls'', rfl, htwin', ?_, ⟨_, hexplains.visited, hvisited⟩, ws, ws', hw, hw',
      hkeeping.kept_eq hkeeping' htwin.saves⟩
    rw [← hmovedTo.stage]
    exact .head hturn' (.refl _)
  · rcases (houtcome.of_error he).1 with he | he
    · exact he
    · rw [hstep] at he
      cases he

theorem Retraces.head {p q r p' q' r' : LoopState E Nat × Machine E} {s : Stage E}
    {stages : List (Stage E)} (h : Retraces flag g ctx' p q [s] p' q')
    (hrest : Retraces flag g ctx' q r stages q' r') :
    Retraces flag g ctx' p r (s :: stages) p' r' where
  twin := hrest.twin
  turns := by
    generalize hs : [s] = first at h
    cases h.turns with
    | refl => cases hs
    | head hturn hnil =>
      obtain ⟨rfl, rfl⟩ := List.cons.inj hs
      cases hnil
      exact .head hturn hrest.turns
  visited := by
    obtain ⟨paths, hp, hp'⟩ := h.visited
    obtain ⟨paths', hq, hq'⟩ := hrest.visited
    exact ⟨paths ++ paths', by rw [hq, hp, List.append_assoc], by rw [hq', hp', List.append_assoc]⟩
  writes := by
    obtain ⟨ws, ws', hp, hp', hkept⟩ := h.writes
    obtain ⟨vs, vs', hq, hq', hkept'⟩ := hrest.writes
    refine ⟨ws ++ vs, ws' ++ vs', by rw [hq, hp, List.append_assoc],
      by rw [hq', hp', List.append_assoc], ?_⟩
    rw [kept_append, kept_append, hkept, hkept']
    cases flag <;> rfl

/-- **The loop of a twin** commits what the loop of the first has committed, or it is disturbed or
refused. -/
theorem Twin.runLoop (hg : Placed g) (hwatch : Watch g tol seed) (hwatch' : Watch g tol' seed')
    (hb : E.Behaves b) {p q : LoopState E Nat × Machine E} {stages : List (Stage E)}
    (h : Turns g ctx p stages q) (hend : q.1.frontier = []) (hv : Valid g seed ctx p.1)
    (hhops : ctx.hops ≤ ctx'.hops) (hlimit : q.1.steps ≤ ctx'.absoluteStepLimit) :
    ∀ {turns : Nat} {ls' : LoopState E Nat} {m' : Machine E}, stages.length < turns →
      Twin flag p.1 ls' → Valid g seed' ctx' ls' →
      wp (runLoop g.nav ctx' turns ls')
        (fun ended m'' => ∃ ls'', ended = .inl ls'' ∧
          Retraces flag g ctx' p q stages (ls', m') (ls'', m''))
        (fun e _ => Disturbed e ∨ Rejected e) m' := by
  induction h with
  | refl p =>
    intro turns ls' m' hturns htwin _
    obtain ⟨turns, rfl⟩ := Nat.exists_eq_add_of_lt hturns
    have hnil : ls'.frontier = [] := (congrArg Stage.frontier htwin.stage).trans hend
    unfold Core.runLoop
    simp only [hnil]
    exact ⟨ls', rfl, htwin, .refl _, ⟨[], by simp, by simp⟩, [], [], by simp, by simp, by simp⟩
  | @head p q r stages hturn hrest ih =>
    intro turns ls' m' hturns htwin hv'
    obtain ⟨-, hvq, -⟩ := hv.turn hg hwatch hturn
    obtain ⟨-, hsteps, -⟩ := hrest.grows hg hwatch hvq
    cases turns with
    | zero => cases hturns
    | succ turns =>
      obtain ⟨first, rest, hl', hsuper⟩ := htwin.superstep hg hwatch hwatch' hb hv hturn hhops hv'
        ((Nat.le_add_right _ _).trans (hsteps.trans hlimit)) m'
      unfold Core.runLoop
      simp only [hl']
      rw [wp_bind, wp_iff]
      refine ⟨fun next m'' hnext => ?_, fun e m'' he => wp_of_error hsuper he⟩
      obtain ⟨ls'', rfl, hretraces⟩ := wp_of_ok hsuper hnext
      obtain ⟨-, hv'', -⟩ := hv'.turn (p := (ls', m')) (q := (ls'', m'')) hg hwatch'
        ⟨first, rest, hl', hnext⟩
      refine wp_mono (ih hend hvq hlimit (Nat.lt_of_succ_lt_succ hturns) hretraces.twin hv'') ?_
        fun _ _ h => h
      rintro ended m₃ ⟨ls₃, rfl, hrest'⟩
      exact ⟨ls₃, rfl, hretraces.head hrest'⟩

end Twin

end GroupAgent.Core
