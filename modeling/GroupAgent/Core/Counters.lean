import GroupAgent.Core.Atomic
import GroupAgent.Core.Openings

/-!
# The counters of a run, and its step budget

The loop of `execute_internal` (`runtime.rs:369-890`) counts steps and super-steps on from a
checkpoint, and admits a frontier only if it fits the step limit. The limit is a saturating sum of
the checkpoint's steps and `max_steps`; the additions made before the budget check are not
saturating, and panic where `usize` overflows.

* `Overflows`: the loop states whose next super-step adds beyond `usize::MAX`. `Exceeds`: those
  whose frontier does not fit the budget.
* `wp_accept`: a super-step is admitted, or stops for one of these reasons, or for another.
  `Admission` lists what may become of it.
* `Budgeted`: the stops that are for the counters. All others are `Plain`.

Results:
* `run_budgeted_iff`: a call stops for one of these reasons exactly when a loop state that it
  reaches gives it.
* **`counters_overflow_iff`**: the counters of a call are safe exactly when no such state
  overflows.

A counter near the limit is accepted from a record: `try_from_parts` and the conversion to `usize`
check its range only. `resume_overflows` is a checkpoint of that kind.
-/

namespace GroupAgent.Core

open GroupAgent.Lib

variable {ν ρ : Type} {E : Env ν ρ} {g : CompiledGraph ν ρ} {call : Call E} {m : Machine E}

/-! ## Stops of the counters -/

/-- The stops of the counters and of the step budget. -/
def Budgeted : Stop → Prop
  | .panic .counterOverflow => True
  | .error (.maxStepsExceeded _ _ _) => True
  | _ => False

theorem Plain.not_budgeted : ∀ {e : Stop}, Plain e → ¬Budgeted e
  | .panic .counterOverflow, h => h.elim
  | .panic .structuralIndex, _ => id
  | .panic .mixedFrontier, _ => id
  | .panic .indexOutOfBounds, _ => id
  | .panic .instantOverflow, _ => id
  | .panic (.missing _), _ => id
  | .outOfFuel, _ => id
  | .error error, h => by
    cases error <;> first | exact h.elim | exact id

/-- Machines of which nothing is asked. -/
abbrev Loose : Machine E → Machine E → Prop := SameView fun _ => ()

theorem loose_steady : Steady (Loose (E := E)) where
  idle _ _ _ := rfl
  events _ _ := rfl

theorem loose_runs : Steady.Runs (Loose (E := E)) fun _ => True where
  await _ _ _ := rfl
  select _ _ _ _ := rfl
  nextReady _ _ _ _ := rfl

theorem loose_saves : Steady.Saves (Loose (E := E)) fun _ => True where
  await _ _ _ _ _ := rfl
  select _ _ _ _ _ _ := rfl
  record _ _ _ _ _ _ := rfl
  after _ _ _ := trivial

theorem loose_creates : Steady.Creates (Loose (E := E)) where
  await _ _ _ _ := rfl
  select _ _ _ _ _ := rfl
  record _ _ _ _ _ := rfl

/-! ## When a super-step is admitted -/

/-- The control point before a super-step passes. -/
def Passes (g : CompiledGraph ν ρ) (ctx : RunContext) (p : LoopState E Nat × Machine E) : Prop :=
  ∃ first rest n m', p.1.frontier = first :: rest ∧ g.items[first]? = some (.node n) ∧
    controlRun ctx (some n.path) (p.1.steps + 1) p.2 = .ok () m'

/-- The next super-step adds beyond the range of a counter: to the steps, for the number of the first
step; to the limit, for the number of the first step that does not fit; or to the super-steps. -/
inductive Overflows (g : CompiledGraph ν ρ) (ctx : RunContext) (p : LoopState E Nat × Machine E) :
    Prop where
  | step (hl : p.1.frontier ≠ []) (h : p.1.steps = usizeMax)
  | blocked (hpass : Passes g ctx p) (hfit : ctx.absoluteStepLimit - p.1.steps < p.1.frontier.length)
      (h : ctx.absoluteStepLimit = usizeMax)
  | superstep (hpass : Passes g ctx p)
      (hfit : p.1.frontier.length ≤ ctx.absoluteStepLimit - p.1.steps) (h : p.1.superstep = usizeMax)

/-- The next frontier does not fit the budget that is left: the node is the first without a step. -/
structure Exceeds (g : CompiledGraph ν ρ) (ctx : RunContext) (p : LoopState E Nat × Machine E)
    (node : NodePath) (step : Nat) : Prop where
  passes : Passes g ctx p
  larger : ctx.absoluteStepLimit - p.1.steps < p.1.frontier.length
  counted : ctx.absoluteStepLimit < usizeMax
  blocked : ∃ index n, p.1.frontier[ctx.absoluteStepLimit - p.1.steps]? = some index ∧
    g.items[index]? = some (.node n) ∧ n.path = node
  step : step = ctx.absoluteStepLimit + 1

/-- What becomes of a super-step before its frontier is executed. -/
inductive Admission (g : CompiledGraph ν ρ) (ctx : RunContext) (p : LoopState E Nat × Machine E) :
    Option Stop → Prop where
  | admitted (hpass : Passes g ctx p)
      (hfit : p.1.frontier.length ≤ ctx.absoluteStepLimit - p.1.steps)
      (hsuper : p.1.superstep + 1 ≤ usizeMax) : Admission g ctx p none
  | overflow (h : Overflows g ctx p) : Admission g ctx p (some (.panic .counterOverflow))
  | exceeded {node : NodePath} {step : Nat} (h : Exceeds g ctx p node step) :
      Admission g ctx p (some (.error (.maxStepsExceeded ctx.maxSteps node step)))
  | refused {e : Stop} (h : ¬Budgeted e) (hsteps : p.1.steps < usizeMax) (hpass : ¬Passes g ctx p) :
      Admission g ctx p (some e)

theorem loose_fail {ctx : RunContext} {error : GraphRunError} {α : Type} {m : Machine E} :
    wp (fail ctx error : M E α) (fun _ _ => False) (fun e _ => e = .error error) m :=
  wp_mono (loose_steady.calm.fail (S := fun e => e = .error error) (Q := fun _ => False) ctx rfl m)
    (fun _ _ h => h.1) fun _ _ h => h.1

theorem wp_usizeAdd {a b : Nat} {m : Machine E} {Q : Nat → Machine E → Prop}
    {R : Stop → Machine E → Prop} (hfit : a + b ≤ usizeMax → Q (a + b) m)
    (hover : usizeMax < a + b → R (.panic .counterOverflow) m) : wp (usizeAdd a b) Q R m := by
  unfold usizeAdd
  by_cases h : a + b ≤ usizeMax
  · rw [if_pos h]
    exact hfit h
  · rw [if_neg h]
    exact hover (Nat.lt_of_not_le h)

/-- The frontier of a loop state is of real nodes, and its counters are in range. -/
structure Countable (g : CompiledGraph ν ρ) (ctx : RunContext) (ls : LoopState E Nat) : Prop where
  nodes : ∀ i ∈ ls.frontier, ∃ n, g.items[i]? = some (.node n)
  room : Room ctx ls.steps ls.superstep

/-- **What becomes of a super-step** before its frontier is executed. -/
theorem wp_accept {ctx : RunContext} {ls : LoopState E Nat} (hv : Countable g ctx ls) {first : Nat}
    {rest : List Nat} (hl : ls.frontier = first :: rest) :
    wp (g.accept ctx ls first rest) (fun _ _ => Admission g ctx (ls, m) none)
      (fun e _ => Admission g ctx (ls, m) (some e)) m := by
  obtain ⟨n, hn⟩ := hv.nodes first (by rw [hl]; exact List.mem_cons_self)
  obtain ⟨hsteps, hlimit, hsuper⟩ := hv.room
  unfold CompiledGraph.accept
  rw [nodeAt_eq hn, pure_bind, wp_bind]
  refine wp_usizeAdd (fun hstep => ?_) fun hover => ?_
  swap
  · exact .overflow (.step (by simp [hl]) (by simp only; omega))
  rw [wp_bind]
  have hcontrol := loose_steady.controlRun (S := Plain) (fun _ h => h) ctx (some n.path)
    (ls.steps + 1) (E := E)
  refine wp_iff.mpr ⟨fun _ m₁ hx => ?_, fun e m₁ hx => ?_⟩
  swap
  · refine .refused (hcontrol.of_error hx).1.not_budgeted (Nat.lt_of_succ_le hstep) ?_
    rintro ⟨first', rest', n', m', hl', hn', hpass⟩
    rw [hl] at hl'
    cases hl'
    rw [hn] at hn'
    cases hn'
    rw [hx] at hpass
    cases hpass
  have hpass : Passes g ctx (ls, m) := ⟨first, rest, n, m₁, hl, hn, hx⟩
  rw [wp_bind]
  unfold enforceBudget
  simp only
  rw [← hl]
  cases hblocked : ls.frontier[ctx.absoluteStepLimit - ls.steps]? with
  | none =>
    have hfit : ls.frontier.length ≤ ctx.absoluteStepLimit - ls.steps :=
      List.getElem?_eq_none_iff.mp hblocked
    rw [wp_pure, wp_bind]
    refine wp_usizeAdd (fun hsuper => ?_) fun hover => ?_
    · have hemit : Within (Loose (E := E)) (emitIf (!rest.isEmpty) ctx.events
          (GraphEvent.superstepStarted ctx.runId (ls.superstep + 1) <$> pathsOf g.nav ls.frontier))
          (fun _ => True) (fun _ => False) := by
        refine loose_steady.calm.emitIf ?_
        refine within_map (P := fun _ => True) ?_ fun _ _ => trivial
        have hpaths : ∀ i ∈ ls.frontier, Within (Loose (E := E))
            (CompiledNode.path <$> g.nav.nodeAt i) (fun _ => True) (fun _ => False) := by
          intro i hi
          obtain ⟨n, hn⟩ := hv.nodes i hi
          rw [nodeAt_eq hn]
          exact within_map (within_pure (P := fun _ => True) trivial) fun _ _ => trivial
        exact within_mono (within_mapM (P := fun _ _ => True) hpaths) (fun _ _ => trivial)
          fun _ h => h
      rw [wp_bind]
      refine wp_mono (hemit m₁) (fun _ _ _ => ?_) fun _ _ h => h.1.elim
      exact .admitted hpass hfit hsuper
    · exact .overflow (.superstep hpass hfit (by simp only; omega))
  | some index =>
    have hlt : ctx.absoluteStepLimit - ls.steps < ls.frontier.length :=
      (List.getElem?_eq_some_iff.mp hblocked).1
    obtain ⟨n', hn'⟩ := hv.nodes index (List.mem_of_getElem? hblocked)
    simp only
    rw [nodeAt_eq hn', pure_bind, wp_bind]
    refine wp_usizeAdd (fun hstep => ?_) fun hover => ?_
    · refine wp_mono loose_fail (fun _ _ h => h.elim) ?_
      rintro _ _ rfl
      refine .exceeded ⟨hpass, hlt, ?_, ⟨index, n', hblocked, hn', rfl⟩, ?_⟩
      · omega
      · omega
    · exact .overflow (.blocked hpass hlt (by omega))

/-! ## When a call stops for its counters -/

theorem Call.Reaches.countable (hg : Compiled g) (hs : Sound g .all call m) {ctx : RunContext}
    {p : LoopState E Nat × Machine E} (h : call.Reaches g m ctx p) : Countable g ctx p.1 := by
  obtain ⟨seed, -, hvalid⟩ := h.valid hg hs
  exact ⟨fun i hi => hvalid.frontier.node hi, hvalid.room⟩

/-- A super-step stops as it advances, or plainly. -/
theorem superstep_stops {ctx : RunContext} {ls : LoopState E Nat} {m m' : Machine E} {first : Nat}
    {rest : List Nat} (hfirst : ∃ n, g.items[first]? = some (.node n)) {e : Stop}
    (h : superstep g.nav ctx ls first rest m = .error e m') :
    advance g.nav ctx ls first rest m = .error e m' ∨ Plain e := by
  obtain ⟨n, hn⟩ := hfirst
  have hplain : ∀ e, Plain e → Plain e := fun _ h => h
  unfold superstep at h
  rw [nodeAt_eq hn, pure_bind] at h
  rcases bind_error_iff.mp h with h | ⟨advanced, m₂, -, h⟩
  · exact .inl h
  refine .inr ?_
  cases advanced with
  | suspended request =>
    have hinterrupt : Within (Loose (E := E)) (Sum.inr (α := LoopState E Nat) <$>
        interruptRun ctx ls n.path request (ls.steps + 1) ls.superstep) (fun _ => True) Plain :=
      within_map (loose_steady.interruptRun hplain loose_saves trivial) fun _ _ => trivial
    exact (hinterrupt.of_error h).1
  | committed state steps superstep next boundaries =>
    have hcommit : Within (Loose (E := E)) (Sum.inl (β := InterruptReport E) <$>
        commit g.nav ctx ls n.path state steps superstep next boundaries) (fun _ => True) Plain :=
      within_map (loose_steady.commit hplain loose_saves trivial) fun _ _ => trivial
    exact (hcommit.of_error h).1

/-- **Where a call stops** that does not stop plainly: before its loop, or as it advances from a loop
state that it reaches. -/
theorem Call.stops_at (hg : Compiled g)
    (hrange : ∀ checkpoint, call.Reads m checkpoint → checkpoint.InRange) {e : Stop}
    (he : ¬Plain e) {m' : Machine E} (h : call.run g m = .error e m') :
    call.Quits g m e ∨ ∃ ctx p first rest, call.Reaches g m ctx p ∧ p.1.frontier = first :: rest ∧
      advance g.nav ctx p.1 first rest p.2 = .error e m' := by
  have hplain : ∀ e, Plain e → Plain e := fun _ h => h
  have hs := sound_all (g := g) hrange
  rw [Call.run_eq] at h
  rcases bind_error_iff.mp h with h | ⟨⟨ctx, ls⟩, m₁, henter, h⟩
  · unfold Call.enter at h
    rcases bind_error_iff.mp h with h | ⟨⟨ctx, ls⟩, m₁, -, h⟩
    · exact .inl (wp_of_error (loose_steady.prepare loose_creates call) h).1
    · exact absurd ((loose_steady.enterLoop hplain loose_saves trivial).of_error h).1 he
  have hentered := wp_of_ok (wp_enter hg hs) henter
  obtain ⟨seed, hnodes, hvalid⟩ := hentered.valid
  rcases bind_error_iff.mp h with h | ⟨ended, m₂, -, h⟩
  · obtain ⟨p, hturns, first, rest, hl, hstep⟩ := wp_of_error
      (wp_runLoop_ends (placed hg) hnodes (q := (ls, m₁)) hvalid .refl hentered.limit) h
    have hreach : call.Reaches g m ctx p := ⟨ls, m₁, henter, hturns⟩
    have hfirst := (hreach.countable hg hs).nodes first (by rw [hl]; exact List.mem_cons_self)
    rcases superstep_stops hfirst hstep with hadv | hstop
    · exact .inr ⟨ctx, p, first, rest, hreach, hl, hadv⟩
    · exact absurd hstop he
  · rcases bind_error_iff.mp h with h | ⟨outcome, m₃, -, h⟩
    · exact absurd ((loose_steady.leaveLoop hplain ended).of_error h).1 he
    · unfold Call.conclude at h
      split at h
      · cases h
        exact absurd trivial he
      · cases h
        exact absurd trivial he
      · cases h

/-- A super-step that stops for its counters is not admitted. -/
theorem advance_budgeted {ctx : RunContext} {ls : LoopState E Nat} {m m' : Machine E} {first : Nat}
    {rest : List Nat} {e : Stop} (he : Budgeted e)
    (h : advance g.nav ctx ls first rest m = .error e m') :
    g.accept ctx ls first rest m = .error e m' := by
  have hS : ∀ e, Plain e → ¬Budgeted e := fun _ h => h.not_budgeted
  rw [advance_eq] at h
  rcases bind_error_iff.mp h with h | ⟨⟨node, firstStep, superstep⟩, m₂, -, h⟩
  · exact h
  rcases bind_error_iff.mp h with h | ⟨outcome, m₃, -, h⟩
  · have hrun : Within (Loose (E := E)) (runFrontier g.nav ctx ls first rest node.path firstStep)
        (fun _ => True) fun e => ¬Budgeted e :=
      loose_steady.runFrontier hS loose_runs id fun _ _ _ _ => trivial
    exact absurd he (hrun.of_error h).1
  · exact absurd he ((loose_steady.follow hS outcome).of_error h).1

/-- **A call stops for its counters** exactly when it reaches a loop state whose next super-step is
not admitted for them. -/
theorem run_budgeted_iff (hg : Compiled g)
    (hrange : ∀ checkpoint, call.Reads m checkpoint → checkpoint.InRange) {e : Stop}
    (he : Budgeted e) {m' : Machine E} : call.run g m = .error e m' ↔ ∃ ctx p first rest,
      call.Reaches g m ctx p ∧ p.1.frontier = first :: rest ∧
        g.accept ctx p.1 first rest p.2 = .error e m' := by
  constructor
  · intro h
    rcases Call.stops_at hg hrange (fun hplain => hplain.not_budgeted he) h with
      hquits | ⟨ctx, p, first, rest, hreach, hl, hadv⟩
    · cases hquits with
      | plain hplain => exact absurd he hplain.not_budgeted
      | invalid _ hpanic => exact absurd hpanic (validate_noPanic hg.indexed (unreserved hg) _ _)
      | clock => exact he.elim
      | missing => exact he.elim
      | unexpected => exact he.elim
    · exact ⟨ctx, p, first, rest, hreach, hl, advance_budgeted he hadv⟩
  · rintro ⟨ctx, p, first, rest, hreach, hl, haccept⟩
    have hadv : advance g.nav ctx p.1 first rest p.2 = .error e m' := by
      rw [advance_eq]
      exact bind_of_error haccept
    exact ((superstep_atomic hg call m hrange).2 ctx p first rest e m' hreach hl hadv).1

/-! ## Safe counters -/

/-- The checkpoint is read from a record that was accepted. -/
def Checkpoint.Accepted {τ π : Type} (checkpoint : Checkpoint τ π) : Prop :=
  ∃ parts record codec, CheckpointRecord.tryFromParts parts = .ok record ∧
    Checkpoint.fromRecord record codec = .ok checkpoint

theorem Checkpoint.Accepted.inRange {τ π : Type} {checkpoint : Checkpoint τ π}
    (h : checkpoint.Accepted) : checkpoint.InRange := by
  obtain ⟨parts, record, codec, -, hfrom⟩ := h
  obtain ⟨hmatches, hholds⟩ := fromRecord_iff.mp hfrom
  unfold Checkpoint.InRange
  rw [hholds.step, hholds.superstep]
  exact ⟨hmatches.steps_le, hmatches.superstep_le⟩

theorem Overflows.not_admitted {ctx : RunContext} {p : LoopState E Nat × Machine E}
    (hover : Overflows g ctx p) (hv : Countable g ctx p.1) {o : Option Stop}
    (h : Admission g ctx p o) : o = some (.panic .counterOverflow) := by
  have hsteps := hv.room.steps_le
  have hlimit := hv.room.limit_le
  cases h with
  | overflow _ => rfl
  | admitted hpass hfit hsuper =>
    have hlength : 0 < p.1.frontier.length := by
      obtain ⟨first, rest, _, _, hl, -⟩ := hpass
      rw [hl]
      exact Nat.succ_pos _
    cases hover with
    | step _ h => omega
    | blocked _ hlarger h => omega
    | superstep _ _ h => omega
  | exceeded hexceeds =>
    have hcounted := hexceeds.counted
    have hlarger := hexceeds.larger
    cases hover with
    | step _ h => omega
    | blocked _ _ h => omega
    | superstep _ hfit _ => omega
  | refused _ hlt hpass =>
    cases hover with
    | step _ h => omega
    | blocked hpass' _ _ => exact absurd hpass' hpass
    | superstep hpass' _ _ => exact absurd hpass' hpass

theorem Overflows.nonempty {ctx : RunContext} {p : LoopState E Nat × Machine E}
    (h : Overflows g ctx p) : ∃ first rest, p.1.frontier = first :: rest := by
  cases h with
  | step hl _ => exact List.exists_cons_of_ne_nil hl
  | blocked hpass _ _ =>
    obtain ⟨first, rest, _, _, hl, -⟩ := hpass
    exact ⟨first, rest, hl⟩
  | superstep hpass _ _ =>
    obtain ⟨first, rest, _, _, hl, -⟩ := hpass
    exact ⟨first, rest, hl⟩

/-- A call panics for its counters exactly when it reaches a loop state that overflows. -/
theorem run_overflows_iff (hg : Compiled g)
    (hrange : ∀ checkpoint, call.Reads m checkpoint → checkpoint.InRange) :
    (∃ m', call.run g m = .error (.panic .counterOverflow) m') ↔
      ∃ ctx p, call.Reaches g m ctx p ∧ Overflows g ctx p := by
  have hs := sound_all (g := g) hrange
  constructor
  · rintro ⟨m', h⟩
    obtain ⟨ctx, p, first, rest, hreach, hl, haccept⟩ :=
      (run_budgeted_iff (e := .panic .counterOverflow) hg hrange trivial).mp h
    refine ⟨ctx, p, hreach, ?_⟩
    have hadmission := wp_of_error (wp_accept (hreach.countable hg hs) hl) haccept
    cases hadmission with
    | overflow h => exact h
    | refused h => exact absurd trivial h
  · rintro ⟨ctx, p, hreach, hover⟩
    obtain ⟨first, rest, hl⟩ := hover.nonempty
    have hv := hreach.countable hg hs
    have hspec := wp_iff.mp (wp_accept (m := p.2) hv hl)
    cases haccept : g.accept ctx p.1 first rest p.2 with
    | ok r m' => cases hover.not_admitted hv (hspec.1 r m' haccept)
    | error e m' =>
      cases hover.not_admitted hv (hspec.2 e m' haccept)
      exact ⟨m', (run_budgeted_iff (e := .panic .counterOverflow) hg hrange trivial).mpr
        ⟨ctx, p, first, rest, hreach, hl, haccept⟩⟩

/-- **The counters of a call are safe** exactly when no loop state that it reaches overflows. Whatever
was loaded, the limit never lies below the steps already executed, and everything that an admitted
super-step adds later fits its counter. -/
theorem counters_overflow_iff (hg : Compiled g) (call : Call E) (m : Machine E)
    (haccepted : ∀ checkpoint, call.Reads m checkpoint → checkpoint.Accepted) :
    (((∀ m', call.run g m ≠ .error (.panic .counterOverflow) m') ∧
        ∀ ctx p, call.Reaches g m ctx p → p.1.steps ≤ ctx.absoluteStepLimit) ↔
      ∀ ctx p, call.Reaches g m ctx p → ¬Overflows g ctx p) ∧
    ∀ ctx p, call.Reaches g m ctx p →
      p.1.steps ≤ ctx.absoluteStepLimit ∧ ctx.absoluteStepLimit ≤ usizeMax ∧
      ∀ first rest r m', p.1.frontier = first :: rest →
        g.accept ctx p.1 first rest p.2 = .ok r m' →
          p.1.steps + p.1.frontier.length ≤ ctx.absoluteStepLimit ∧ p.1.superstep + 1 ≤ usizeMax := by
  have hrange : ∀ checkpoint, call.Reads m checkpoint → checkpoint.InRange :=
    fun checkpoint hread => (haccepted checkpoint hread).inRange
  have hs := sound_all (g := g) hrange
  have hroom : ∀ ctx p, call.Reaches g m ctx p → Room ctx p.1.steps p.1.superstep :=
    fun ctx p hreach => (hreach.countable hg hs).room
  refine ⟨⟨fun h ctx p hreach hover => ?_, fun h => ⟨fun m' hrun => ?_, ?_⟩⟩, fun ctx p hreach => ?_⟩
  · obtain ⟨m', hrun⟩ := (run_overflows_iff hg hrange).mpr ⟨ctx, p, hreach, hover⟩
    exact h.1 m' hrun
  · obtain ⟨ctx, p, hreach, hover⟩ := (run_overflows_iff hg hrange).mp ⟨m', hrun⟩
    exact h ctx p hreach hover
  · exact fun ctx p hreach => (hroom ctx p hreach).steps_le
  · refine ⟨(hroom ctx p hreach).steps_le, (hroom ctx p hreach).limit_le, ?_⟩
    intro first rest r m' hl haccept
    cases wp_of_ok (wp_accept (hreach.countable hg hs) hl) haccept with
    | admitted hpass hfit hsuper =>
      have hsteps := (hroom ctx p hreach).steps_le
      simp only at hfit
      exact ⟨by omega, hsuper⟩

namespace Crossroads

/-- A stored record whose step counter is at its maximum. -/
def exhaustedParts : CheckpointRecordParts :=
  { parts with step := 18446744073709551615, nextFrontier := [.root ⟨"a"⟩] }

def exhausted : Checkpoint Unit Unit := { checkpoint [.root ⟨"a"⟩] with step := usizeMax }

def exhaustedMachine : Machine (Script.env Unit Unit) := Script.machine ⟨[], some exhausted⟩

theorem exhausted_accepted : exhausted.Accepted :=
  ⟨exhaustedParts, ⟨exhaustedParts, rfl⟩, codec, rfl, rfl⟩

theorem reads_exhausted : Crossroads.call.Reads exhaustedMachine exhausted := ⟨_, _, rfl⟩

/-- The record is accepted and its frontier is valid, and the run it is resumed by overflows. -/
theorem resume_overflows : Compiled graph ∧ exhausted.Accepted ∧
    graph.validateAndResolveCheckpointFrontier exhausted = .ok [1] ∧
    ∃ m', Crossroads.call.run graph exhaustedMachine = .error (.panic .counterOverflow) m' :=
  ⟨compiled, exhausted_accepted, rfl, panicked_eq (by decide +kernel)⟩

theorem counters_overflow_iff_exhausted : Compiled graph ∧
    (((∀ m', Crossroads.call.run graph exhaustedMachine ≠ .error (.panic .counterOverflow) m') ∧
        ∀ ctx p, Crossroads.call.Reaches graph exhaustedMachine ctx p → p.1.steps ≤ ctx.absoluteStepLimit) ↔
      ∀ ctx p, Crossroads.call.Reaches graph exhaustedMachine ctx p → ¬Overflows graph ctx p) :=
  ⟨compiled, (counters_overflow_iff compiled Crossroads.call exhaustedMachine fun c hread => by
    obtain rfl := hread.unique reads_exhausted
    exact exhausted_accepted).1⟩

end Crossroads

end GroupAgent.Core
