import GroupAgent.Core.RoundTrip

/-!
# Super-steps are durable as a whole or not at all

The loop of `execute_internal` (`runtime.rs:369-890`) applies the updates of a super-step in one
batch and saves behind it (`EnabledCheckpoint::save`, 2016-2126). A record in store is of a
`Stage`: a state, the counters and a frontier. The stages of a call are the one it starts from and
those that its super-steps commit, each with all the updates of its frontier.

* `Call.Committed`: the stages of a call, with the batches of updates that lead there.
* `Whole`: which of them a record is of. A record with an interrupt is of the stage before its node
  ran; any other is of the stage its super-step committed.
* `Ended`, `Breaks`: how the loop ends or stops, at a loop state that it reached.

Results:
* **`superstep_atomic`**: every save of a call is of such a stage, and a super-step that stops ends
  the call with the writes made before it.

Premise: a checkpoint the call reads has counters that fit in `usize` on the target (`InRange`),
which the store's own conversion checks. What the store does with a save is its own matter;
`Durable` and `Chaining` say what it keeps.
-/

namespace GroupAgent.Core

open GroupAgent.Lib

variable {ν ρ : Type} {E : Env ν ρ} {g : CompiledGraph ν ρ} {call : Call E} {m : Machine E}

/-! ## Stages -/

/-- Where a run stands between two super-steps, as far as a record keeps it. -/
structure Stage (E : Env ν ρ) where
  state : E.State
  steps : Nat
  superstep : Nat
  frontier : List Nat

def LoopState.stage (ls : LoopState E Nat) : Stage E := ⟨ls.state, ls.steps, ls.superstep, ls.frontier⟩

/-- The super-step from `ls` at `m` commits to the stage: an update of every node of its frontier is
applied, every transition is resolved, and the next frontier is settled. -/
structure Commits (g : CompiledGraph ν ρ) (ctx : RunContext) (ls : LoopState E Nat) (m : Machine E)
    (batch : List (NodeUpdate E.Update)) (s : Stage E) : Prop where
  advanced : ∃ first rest boundaries m', ls.frontier = first :: rest ∧
    advance g.nav ctx ls first rest m =
      .ok (.committed s.state s.steps s.superstep s.frontier boundaries) m'
  applies : Applies g ls.frontier ls.state batch s.state
  steps : s.steps = ls.steps + batch.length
  superstep : s.superstep = ls.superstep + 1

/-- The stages of a call from `m`, with the batches committed on the way. -/
inductive Call.Committed (g : CompiledGraph ν ρ) (call : Call E) (m : Machine E) :
    List (List (NodeUpdate E.Update)) → Stage E → Prop where
  | start {ctx : RunContext} {ls : LoopState E Nat} {m₁ : Machine E}
      (henter : call.enter g m = .ok (ctx, ls) m₁) : call.Committed g m [] ls.stage
  | step {ctx : RunContext} {ls : LoopState E Nat} {m₁ : Machine E} {s : Stage E}
      {batches : List (List (NodeUpdate E.Update))} {batch : List (NodeUpdate E.Update)}
      (h : call.Committed g m batches ls.stage) (hreach : call.Reaches g m ctx (ls, m₁))
      (hcommits : Commits g ctx ls m₁ batch s) : call.Committed g m (batches ++ [batch]) s

/-- The batches lead from one stage to another: applied in order they are its state, and its
counters count them. -/
structure Stage.Leads (start : Stage E) (batches : List (List (NodeUpdate E.Update)))
    (s : Stage E) : Prop where
  state : batches.foldlM applied start.state = .ok s.state
  steps : s.steps = start.steps + (batches.map List.length).sum
  superstep : s.superstep = start.superstep + batches.length

theorem Stage.Leads.snoc {start : Stage E} {batches : List (List (NodeUpdate E.Update))}
    {ctx : RunContext} {ls : LoopState E Nat} {batch : List (NodeUpdate E.Update)} {s : Stage E}
    (h : start.Leads batches ls.stage) (hcommits : Commits g ctx ls m batch s) :
    start.Leads (batches ++ [batch]) s where
  state := by
    rw [List.foldlM_append, h.state]
    show ([batch].foldlM applied ls.state : Except SourceError E.State) = _
    rw [List.foldlM_cons, hcommits.applies.2]
    rfl
  steps := by
    have hsteps : ls.steps = start.steps + (batches.map List.length).sum := h.steps
    rw [hcommits.steps, hsteps]
    simp only [List.map_append, List.sum_append, List.map_cons, List.map_nil, List.sum_cons,
      List.sum_nil]
    omega
  superstep := by
    have hsuper : ls.superstep = start.superstep + batches.length := h.superstep
    rw [hcommits.superstep, hsuper, List.length_append, List.length_singleton]
    omega

/-- Every stage of a call is led to from the loop state it enters with. -/
theorem Call.Committed.leads {batches : List (List (NodeUpdate E.Update))} {s : Stage E}
    (h : call.Committed g m batches s) : ∃ ctx ls m₁, call.enter g m = .ok (ctx, ls) m₁ ∧
      ls.stage.Leads batches s := by
  induction h with
  | @start ctx ls m₁ henter => exact ⟨ctx, ls, m₁, henter, rfl, rfl, rfl⟩
  | step _ _ hcommits ih =>
    obtain ⟨ctx, ls, m₁, henter, hleads⟩ := ih
    exact ⟨ctx, ls, m₁, henter, hleads.snoc hcommits⟩

/-! ## The stages a call reaches -/

theorem Applies.length_eq {frontier : List Nat} {state state' : E.State}
    {batch : List (NodeUpdate E.Update)} (h : Applies g frontier state batch state') :
    frontier.length = batch.length := by
  rw [h.1.length_eq, List.length_map]

/-- Every loop state a call reaches is at a stage of the call. -/
theorem Call.Reaches.committed (hg : Compiled g) (hs : Sound g .all call m) {ctx : RunContext}
    {p : LoopState E Nat × Machine E} (h : call.Reaches g m ctx p) :
    ∃ batches, call.Committed g m batches p.1.stage := by
  obtain ⟨ls, m₁, henter, hturns⟩ := h
  induction hturns with
  | refl => exact ⟨[], .start henter⟩
  | @tail p q hturns hturn ih =>
    obtain ⟨batches, hcommitted⟩ := ih
    have hreach : call.Reaches g m ctx p := ⟨ls, m₁, henter, hturns⟩
    obtain ⟨seed, hnodes, hvalid⟩ := hreach.valid hg hs
    obtain ⟨hmoved, -, -⟩ := hvalid.turn (placed hg) hnodes hturn
    obtain ⟨batch, happlies⟩ := hmoved.applies
    have hcommits : Commits g ctx p.1 p.2 batch q.1.stage :=
      ⟨hmoved.advanced, happlies, by rw [← happlies.length_eq]; exact hmoved.steps, hmoved.superstep⟩
    exact ⟨_, hcommitted.step hreach hcommits⟩

/-! ## What a record is of -/

/-- The stage a record of a call is of, with the batches that lead there: that of an invocation with
nothing to execute, one a super-step committed, or the one before a suspended node. -/
inductive Whole (g : CompiledGraph ν ρ) (call : Call E) (m : Machine E) :
    Option (CheckpointInterrupt E.Value) → List (List (NodeUpdate E.Update)) → Stage E → Prop where
  | empty {initialState : E.State} {config : RunConfig} {checkpoints : Option CheckpointConfig}
      (hcall : call = .invoke initialState config checkpoints) :
      Whole g call m none [] ⟨initialState, 0, 0, []⟩
  | committed {batches : List (List (NodeUpdate E.Update))} {batch : List (NodeUpdate E.Update)}
      {s : Stage E} (h : call.Committed g m (batches ++ [batch]) s) :
      Whole g call m none (batches ++ [batch]) s
  | suspended {batches : List (List (NodeUpdate E.Update))} {ctx : RunContext}
      {ls : LoopState E Nat} {m₁ m₂ : Machine E} {first : Nat} {request : InterruptRequest E.Value}
      {n : CompiledNode ν ρ Nat} (h : call.Committed g m batches ls.stage)
      (hreach : call.Reaches g m ctx (ls, m₁)) (hl : ls.frontier = [first])
      (hn : g.items[first]? = some (.node n))
      (hadv : advance g.nav ctx ls first [] m₁ = .ok (.suspended request) m₂) :
      Whole g call m (some (request.intoCheckpoint n.path)) batches ls.stage

/-- A request keeps a stage. -/
structure Keeps (g : CompiledGraph ν ρ) (request : CheckpointRequest E.Snapshot E.Value)
    (s : Stage E) : Prop where
  snapshot : E.snapshot s.state = .ok request.snapshot
  step : request.step = s.steps
  superstep : request.superstep = s.superstep
  frontier : PathsOf g s.frontier request.nextFrontier
  completed : request.completed = s.frontier.isEmpty

theorem Durable.whole (hg : Compiled g) (hs : Sound g .all call m) {state : E.State}
    {boundary : CheckpointBoundary E.Value} {frontier : List Nat}
    (h : Durable g call m state boundary frontier) : ∃ batches,
      Whole g call m boundary.interrupt batches ⟨state, boundary.step, boundary.superstep, frontier⟩ := by
  cases h with
  | @empty ls hflag hstarts hl =>
    cases call with
    | invoke initialState config checkpoints =>
      obtain ⟨hstate, hsteps, hsuper, -⟩ := hstarts
      rw [hstate, hsteps, hsuper]
      exact ⟨[], .empty rfl⟩
    | resume config initializer => cases hflag
    | replay config => cases hflag
    | fork config => cases hflag
  | @committed ctx ls m₁ m₂ first rest state steps superstep next boundaries paths hreach hl hadv hpaths =>
    obtain ⟨batches, hcommitted⟩ := hreach.committed hg hs
    obtain ⟨seed, hnodes, hvalid⟩ := hreach.valid hg hs
    have hfit : Fits E g .all ctx := ⟨.inl trivial, .inl trivial⟩
    have hadvanced := ((quiet_advance (placed hg) hnodes.relax hfit hl hvalid.frontier hvalid.room
      (.inl trivial)).of_ok hadv).1
    cases hadvanced with
    | committed hsteps hsuper happlies hroom hnext =>
      obtain ⟨batch, happlies⟩ := happlies
      have hcommits : Commits g ctx ls m₁ batch ⟨state, steps, superstep, frontier⟩ :=
        ⟨⟨first, rest, boundaries, m₂, hl, hadv⟩, happlies, by rw [← happlies.length_eq]; exact hsteps, hsuper⟩
      exact ⟨_, .committed (hcommitted.step hreach hcommits)⟩
  | suspended hreach hl hadv hn =>
    obtain ⟨batches, hcommitted⟩ := hreach.committed hg hs
    have hwhole := Whole.suspended hcommitted hreach hl hn hadv
    simp only [LoopState.stage] at hwhole
    rw [hl] at hwhole
    exact ⟨batches, hwhole⟩

theorem Recorded.whole (hg : Compiled g) (hs : Sound g .all call m)
    {request : CheckpointRequest E.Snapshot E.Value} {state : E.State} {frontier : List Nat}
    (h : Recorded g call m request state frontier) :
    ∃ batches s, Whole g call m request.interrupt batches s ∧ Keeps g request s := by
  obtain ⟨batches, hwhole⟩ := h.durable.whole hg hs
  have hloadable := h.durable.loadable hg hs
  exact ⟨batches, _, hwhole, h.snapshot, rfl, rfl, hloadable.paths, hloadable.completed⟩

/-! ## How the loop ends -/

/-- The loop ends at a loop state with nothing to execute, or with the suspension of its
super-step. -/
inductive Ended (g : CompiledGraph ν ρ) (ctx : RunContext) (q : LoopState E Nat × Machine E) :
    LoopState E Nat ⊕ InterruptReport E → Machine E → Prop where
  | done (hl : q.1.frontier = []) : Ended g ctx q (.inl q.1) q.2
  | suspended {first : Nat} {rest : List Nat} {report : InterruptReport E} {m' : Machine E}
      (hl : q.1.frontier = first :: rest)
      (h : superstep g.nav ctx q.1 first rest q.2 = .ok (.inr report) m') :
      Ended g ctx q (.inr report) m'

/-- The super-step of a loop state stops. -/
def Breaks (g : CompiledGraph ν ρ) (ctx : RunContext) (q : LoopState E Nat × Machine E) (e : Stop)
    (m' : Machine E) : Prop :=
  ∃ first rest, q.1.frontier = first :: rest ∧
    superstep g.nav ctx q.1 first rest q.2 = .error e m'

/-- The loop ends or stops at a loop state it reached. -/
theorem wp_runLoop_ends (hg : Placed g) {ctx : RunContext} {seed : Option (List Nat)} {tol : Tolerance}
    (hn : Watch g tol seed) {p : LoopState E Nat × Machine E} : ∀ {turns : Nat}
      {q : LoopState E Nat × Machine E}, Valid g seed ctx q.1 →
      Relation.ReflTransGen (Turn g ctx) p q → ctx.absoluteStepLimit - q.1.steps < turns →
      wp (runLoop g.nav ctx turns q.1)
        (fun ended m' => ∃ q, Relation.ReflTransGen (Turn g ctx) p q ∧ Ended g ctx q ended m')
        (fun e m' => ∃ q, Relation.ReflTransGen (Turn g ctx) p q ∧ Breaks g ctx q e m') q.2
  | 0, _, _, _, hlimit => absurd hlimit (Nat.not_lt_zero _)
  | turns + 1, q, hv, hpq, hlimit => by
    unfold runLoop
    cases hl : q.1.frontier with
    | nil => exact ⟨q, hpq, .done hl⟩
    | cons first rest =>
      simp only
      rw [wp_bind, wp_iff]
      refine ⟨fun r m₁ hr => ?_, fun e m₁ he => ⟨q, hpq, first, rest, hl, he⟩⟩
      cases r with
      | inr report => exact ⟨q, hpq, .suspended hl hr⟩
      | inl ls' =>
        have hturn : Turn g ctx q (ls', m₁) := ⟨first, rest, hl, hr⟩
        obtain ⟨hmoved, hv', -⟩ := hv.turn hg hn hturn
        -- a turn executes at least one node of the budget
        have hsteps := hmoved.steps
        rw [hl, List.length_cons] at hsteps
        have hle := hv'.room.steps_le
        simp only at hsteps hle
        exact wp_runLoop_ends hg hn (q := (ls', m₁)) hv' (.tail hpq hturn) (by simp only; omega)

/-! ## Super-steps that stop -/

/-- The loop gets to every loop state that is reached, with turns left. -/
theorem runLoop_reaches (hg : Placed g) {seed : Option (List Nat)} {tol : Tolerance}
    (hn : Watch g tol seed) {ctx : RunContext} {p q : LoopState E Nat × Machine E}
    (hv : Valid g seed ctx p.1) (h : Relation.ReflTransGen (Turn g ctx) p q) : ∀ {turns : Nat},
      ctx.absoluteStepLimit - p.1.steps < turns → ∃ left,
        runLoop g.nav ctx turns p.1 p.2 = runLoop g.nav ctx (left + 1) q.1 q.2 := by
  induction h using Relation.ReflTransGen.head_induction_on with
  | refl =>
    intro turns hturns
    obtain ⟨left, rfl⟩ := Nat.exists_eq_add_of_lt hturns
    exact ⟨_, rfl⟩
  | @head p p' hturn _ ih =>
    intro turns hturns
    obtain ⟨hmoved, hv', -⟩ := hv.turn hg hn hturn
    obtain ⟨first, rest, hl, hstep⟩ := hturn
    cases turns with
    | zero => cases hturns
    | succ turns =>
      have hloop : runLoop g.nav ctx (turns + 1) p.1 p.2 = runLoop g.nav ctx turns p'.1 p'.2 := by
        rw [runLoop, hl]
        exact bind_of_ok hstep
      have hsteps := hmoved.steps
      rw [hl, List.length_cons] at hsteps
      have hle := hv'.room.steps_le
      rw [hloop]
      exact ih hv' (by omega)

/-- A super-step that stops before it is committed stops the loop. -/
theorem runLoop_stops {ctx : RunContext} {ls : LoopState E Nat} {m m' : Machine E} {first : Nat}
    {rest : List Nat} (hl : ls.frontier = first :: rest)
    (hfirst : ∃ n, g.items[first]? = some (.node n)) {e : Stop}
    (hadv : advance g.nav ctx ls first rest m = .error e m') (left : Nat) :
    runLoop g.nav ctx (left + 1) ls m = .error e m' := by
  obtain ⟨n, hn⟩ := hfirst
  have hstep : superstep g.nav ctx ls first rest m = .error e m' := by
    unfold superstep
    rw [nodeAt_eq hn, pure_bind]
    exact bind_of_error hadv
  rw [runLoop, hl]
  exact bind_of_error hstep

/-- **Super-step atomicity.** Every save of a call keeps a stage that whole super-steps lead to, or
the one before a suspended node; and a super-step that stops before it is committed ends the call
with the writes made before it. -/
theorem superstep_atomic (hg : Compiled g) (call : Call E) (m : Machine E)
    (hrange : ∀ checkpoint, call.Reads m checkpoint → checkpoint.InRange) :
    (∀ ws, call.Writes g m ws → ∀ branchId request answer, .save branchId request answer ∈ ws →
      ∃ batches s, Whole g call m request.interrupt batches s ∧ Keeps g request s) ∧
    ∀ ctx p first rest e m', call.Reaches g m ctx p → p.1.frontier = first :: rest →
      advance g.nav ctx p.1 first rest p.2 = .error e m' →
        call.run g m = .error e m' ∧ m'.writes = p.2.writes := by
  have hs := sound_all (g := g) hrange
  refine ⟨fun ws hwrites branchId request answer hsave => ?_, ?_⟩
  · obtain ⟨state, frontier, hrecorded⟩ := durable_of_log (hwrites.log hg hs trivial) hsave
    exact hrecorded.whole hg hs
  · intro ctx p first rest e m' hreach hl hadv
    obtain ⟨seed, hnodes, hvalid⟩ := hreach.valid hg hs
    have hfit : Fits E g .all ctx := ⟨.inl trivial, .inl trivial⟩
    have hquiet := quiet_advance (placed hg) hnodes.relax hfit hl hvalid.frontier hvalid.room
      (.inl trivial)
    obtain ⟨ls, m₁, henter, hturns⟩ := hreach
    have hentered := wp_of_ok (wp_enter hg hs) henter
    obtain ⟨seed', hnodes', hvalid'⟩ := hentered.valid
    obtain ⟨left, hleft⟩ := runLoop_reaches (placed hg) hnodes' (p := (ls, m₁)) hvalid' hturns
      hentered.limit
    refine ⟨?_, (hquiet.of_error hadv).2⟩
    rw [Call.run_eq, bind_of_ok henter]
    refine bind_of_error (hleft.trans ?_)
    exact runLoop_stops hl (hvalid.frontier.node (by rw [hl]; simp)) hadv left

namespace Crossroads

/-- The first boundary an invocation saves keeps a stage of its own. -/
theorem saving_whole : ∃ request : CheckpointRequest Unit Unit,
    request.nextFrontier = [.root ⟨"b"⟩] ∧
      ∃ batches s, Whole graph saving choosing request.interrupt batches s ∧ Keeps graph request s := by
  have hsaved : [.root ⟨"b"⟩] ∈ savedFrontiers (saving.logAfter graph choosing) := by
    decide +kernel
  obtain ⟨branchId, request, answer, hsave, hb⟩ := exists_saved hsaved
  exact ⟨request, hb, (superstep_atomic compiled saving choosing fun _ h => h.elim).1 _
    (Call.Writes.of_empty rfl) branchId request answer hsave⟩

end Crossroads

end GroupAgent.Core
