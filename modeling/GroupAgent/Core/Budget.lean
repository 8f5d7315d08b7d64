import GroupAgent.Core.Counters
import GroupAgent.Core.Watched

/-!
# The step budget of a call

`max_steps` (`context.rs:126-129`) bounds the node executions of one call, while the step counter
goes on over all calls of a thread. The loop of `execute_internal` (`runtime.rs:369-890`) asks for
control, then compares the size of the frontier with the budget left, and only then executes it.

* `OverBudget`: a frontier is reached, past its control point, that is larger than the budget left.
  The control point comes first, so a call that is cancelled there fails for its cancellation.
* `exceeded_iff`: a call whose counters do not overflow fails for its budget exactly then.
* `Entering`, `Rounds`: the frontiers that a call waits for, in a log the environment keeps of the
  nodes it is asked for (`Watched`). A call that fails waits for whole frontiers all the same.
* `Counted`: the checkpoints of a chain of calls, with the node executions committed since the
  original invocation.

Results:
* **`budget_exact`** puts them together: what is waited for, when the budget fails, and what the
  counters of saves and of outcomes are.

Premise: no counter overflows (`Overflows`), which is a panic of its own; `Counters` says exactly
when.
-/

namespace GroupAgent.Core

open GroupAgent.Lib

variable {ν ρ : Type} {E : Env ν ρ} {g : CompiledGraph ν ρ} {call : Call E} {m : Machine E}

/-! ## Entering the loop -/

theorem Call.enters {ctx : RunContext} {ls : LoopState E Nat} {m₁ : Machine E}
    (h : call.enter g m = .ok (ctx, ls) m₁) : Entering g m call ctx ls := by
  obtain ⟨⟨hlanded, hlimit⟩, -⟩ := wp_of_ok (loose_steady.enter loose_creates loose_saves call) h
  exact ⟨hlanded, hlimit⟩

theorem Entering.limit_eq {ctx : RunContext} {ls : LoopState E Nat} (h : Entering g m call ctx ls) :
    ctx.absoluteStepLimit = min (ls.steps + call.config.maxSteps) usizeMax := by
  rw [h.limit, h.landed.maxSteps]

/-! ## Failing for the budget -/

/-- Past its control point, the next frontier is larger than the budget that is left of the call. The
node is the first that did not fit, under the number its step would have had. -/
def OverBudget (g : CompiledGraph ν ρ) (m : Machine E) (call : Call E) (node : NodePath) (step : Nat) :
    Prop :=
  ∃ ctx ls m₁ p, call.enter g m = .ok (ctx, ls) m₁ ∧ Relation.ReflTransGen (Turn g ctx) (ls, m₁) p ∧
    Passes g ctx p ∧
    let left := call.config.maxSteps - (p.1.steps - ls.steps)
    ∃ index n, p.1.frontier[left]? = some index ∧ g.items[index]? = some (.node n) ∧ n.path = node ∧
      step = p.1.steps + left + 1

/-- The counter does not go back. -/
theorem Call.Reaches.steps_ge (hg : Compiled g)
    (hrange : ∀ checkpoint, call.Reads m checkpoint → checkpoint.InRange) {ctx : RunContext}
    {ls : LoopState E Nat} {m₁ : Machine E} {p : LoopState E Nat × Machine E}
    (henter : call.enter g m = .ok (ctx, ls) m₁)
    (hturns : Relation.ReflTransGen (Turn g ctx) (ls, m₁) p) : ls.steps ≤ p.1.steps := by
  have hs := sound_all (g := g) hrange
  obtain ⟨seed, hnodes, hvalid⟩ := (wp_of_ok (wp_enter hg hs) henter).valid
  induction hturns with
  | refl => exact Nat.le_refl _
  | tail hturns hturn ih =>
    have hv := Valid.turns (p := (ls, m₁)) (placed hg) hnodes hvalid hturns
    obtain ⟨hmoved, -, -⟩ := hv.turn (placed hg) hnodes hturn
    rw [hmoved.steps]
    omega

/-- **A call fails for its budget** exactly when it gets to a frontier that is over it. -/
theorem exceeded_iff (hg : Compiled g)
    (hrange : ∀ checkpoint, call.Reads m checkpoint → checkpoint.InRange)
    (hsafe : ∀ ctx p, call.Reaches g m ctx p → ¬Overflows g ctx p) {maxSteps : Nat} {node : NodePath}
    {step : Nat} : (∃ m', call.run g m = .error (.error (.maxStepsExceeded maxSteps node step)) m') ↔
      maxSteps = call.config.maxSteps ∧ OverBudget g m call node step := by
  have hs := sound_all (g := g) hrange
  constructor
  · rintro ⟨m', h⟩
    obtain ⟨ctx, p, first, rest, ⟨ls, m₁, henter, hturns⟩, hl, haccept⟩ :=
      (run_budgeted_iff (e := .error (.maxStepsExceeded maxSteps node step)) hg hrange trivial).mp h
    have hreach : call.Reaches g m ctx p := ⟨ls, m₁, henter, hturns⟩
    have hentering := Call.enters henter
    have hge := Call.Reaches.steps_ge hg hrange henter hturns
    have hadmission : Admission g ctx p (some (.error (.maxStepsExceeded maxSteps node step))) :=
      wp_of_error (wp_accept (hreach.countable hg hs) hl) haccept
    have hlimit := hentering.limit_eq
    cases hadmission with
    | refused h => exact absurd trivial h
    | exceeded hexceeds =>
      obtain ⟨hpass, hlarger, hcounted, ⟨index, n, hindex, hn, rfl⟩, rfl⟩ := hexceeds
      refine ⟨hentering.landed.maxSteps, ctx, ls, m₁, p, henter, hturns, hpass, index, n, ?_, hn, rfl, ?_⟩
      · rw [← hindex]
        congr 1
        omega
      · have hroom := (hreach.countable hg hs).room.steps_le
        omega
  · rintro ⟨rfl, ctx, ls, m₁, p, henter, hturns, hpass, index, n, hindex, hn, rfl, rfl⟩
    have hreach : call.Reaches g m ctx p := ⟨ls, m₁, henter, hturns⟩
    have hentering := Call.enters henter
    have hge := Call.Reaches.steps_ge hg hrange henter hturns
    have hv := hreach.countable hg hs
    have hlimit := hentering.limit_eq
    have hroom := hv.room
    have hlt := (List.getElem?_eq_some_iff.mp hindex).1
    have hlarger : ctx.absoluteStepLimit - p.1.steps < p.1.frontier.length := by omega
    have hcounted : ctx.absoluteStepLimit < usizeMax := by
      refine Nat.lt_of_le_of_ne hroom.limit_le fun hmax => ?_
      exact hsafe ctx p hreach (.blocked hpass hlarger hmax)
    have hleft : call.config.maxSteps - (p.1.steps - ls.steps) =
        ctx.absoluteStepLimit - p.1.steps := by omega
    rw [hleft] at hindex ⊢
    obtain ⟨first, rest, _, _, hl, -⟩ := id hpass
    have hspec := wp_iff.mp (wp_accept (m := p.2) hv hl)
    cases haccept : g.accept ctx p.1 first rest p.2 with
    | ok r m' =>
      have hadmission : Admission g ctx p none := hspec.1 r m' haccept
      cases hadmission with
      | admitted _ hfit _ => exact absurd hfit (Nat.not_le_of_lt hlarger)
    | error e m' =>
      have hadmission : Admission g ctx p (some e) := hspec.2 e m' haccept
      cases hadmission with
      | overflow hover => exact absurd hover (hsafe ctx p hreach)
      | refused _ _ hpass' => exact absurd hpass hpass'
      | exceeded hexceeds =>
        obtain ⟨-, -, -, ⟨index', n', hindex', hn', rfl⟩, rfl⟩ := hexceeds
        rw [hindex] at hindex'
        cases hindex'
        rw [hn] at hn'
        cases hn'
        have hstep : p.1.steps + (ctx.absoluteStepLimit - p.1.steps) + 1 =
            ctx.absoluteStepLimit + 1 := by
          have := hroom.steps_le
          omega
        rw [hstep]
        have hmax : ctx.maxSteps = call.config.maxSteps := hentering.landed.maxSteps
        rw [hmax] at haccept
        exact ⟨m', (run_budgeted_iff (e := .error (.maxStepsExceeded _ _ _)) hg hrange trivial).mpr
          ⟨ctx, p, first, rest, hreach, hl, haccept⟩⟩

/-! ## Counting over a chain of calls -/

/-- The node executions in committed batches. -/
def executions {U : Type} (batches : List (List (NodeUpdate U))) : Nat := (batches.map List.length).sum

/-- The call, made from `m`, saves the request once it has committed the batches. -/
def Call.SavesAfter (g : CompiledGraph ν ρ) (m : Machine E) (call : Call E)
    (batches : List (List (NodeUpdate E.Update))) (request : CheckpointRequest E.Snapshot E.Value) :
    Prop :=
  ∃ ws branchId answer s, call.Writes g m ws ∧ .save branchId request answer ∈ ws ∧
    Whole g call m request.interrupt batches s ∧ Keeps g request s

/-- The checkpoints of a chain of calls, each with the node executions committed since the original
invocation. -/
inductive Counted (g : CompiledGraph ν ρ) : Checkpoint E.Snapshot E.Value → Nat → Prop where
  | invoke {m : Machine E} {initialState : E.State} {config : RunConfig}
      {checkpoints : Option CheckpointConfig} {batches : List (List (NodeUpdate E.Update))}
      {request : CheckpointRequest E.Snapshot E.Value}
      (hsave : (Call.invoke initialState config checkpoints).SavesAfter g m batches request) :
      Counted g request.intoCheckpoint (executions batches)
  | onward {m : Machine E} {call : Call E} {loaded : Checkpoint E.Snapshot E.Value} {n : Nat}
      {batches : List (List (NodeUpdate E.Update))}
      {request : CheckpointRequest E.Snapshot E.Value} (hloaded : Counted g loaded n)
      (hread : call.Reads m loaded) (hsave : call.SavesAfter g m batches request) :
      Counted g request.intoCheckpoint (n + executions batches)

/-- The call from `m` begins when `n` node executions are committed. -/
def Call.After (g : CompiledGraph ν ρ) (m : Machine E) (call : Call E) (n : Nat) : Prop :=
  (∃ initialState config checkpoints, call = .invoke initialState config checkpoints ∧ n = 0) ∨
    ∃ loaded, Counted g loaded n ∧ call.Reads m loaded

/-- The counter a call starts from. -/
def Call.StartsAt (m : Machine E) (call : Call E) (n : Nat) : Prop :=
  (∃ initialState config checkpoints, call = .invoke initialState config checkpoints ∧ n = 0) ∨
    ∃ loaded : Checkpoint E.Snapshot E.Value, loaded.step = n ∧ call.Reads m loaded

theorem Call.StartsAt.steps {n : Nat} (h : call.StartsAt m n) {ctx : RunContext} {ls : LoopState E Nat}
    {m₁ : Machine E} (henter : call.enter g m = .ok (ctx, ls) m₁) : ls.steps = n := by
  cases (Call.enters henter).landed.lands with
  | invoke _ hsteps _ =>
    rcases h with ⟨_, _, _, -, rfl⟩ | ⟨loaded, -, hread⟩
    · exact hsteps
    · exact hread.elim
  | load hread hcontinued =>
    rcases h with ⟨_, _, _, rfl, -⟩ | ⟨loaded, rfl, hread'⟩
    · exact hread.elim
    · rw [hcontinued.steps, hread.unique hread']

theorem Call.StartsAt.committed {n : Nat} (h : call.StartsAt m n)
    {batches : List (List (NodeUpdate E.Update))} {s : Stage E} (hs : call.Committed g m batches s) :
    s.steps = n + executions batches := by
  obtain ⟨ctx, ls, m₁, henter, hleads⟩ := hs.leads
  rw [hleads.steps]
  exact congrArg (· + executions batches) (h.steps henter)

/-- What a call saves counts what it has committed. -/
theorem Call.StartsAt.saved {n : Nat} (h : call.StartsAt m n)
    {batches : List (List (NodeUpdate E.Update))} {request : CheckpointRequest E.Snapshot E.Value}
    (hsave : call.SavesAfter g m batches request) : request.step = n + executions batches := by
  obtain ⟨ws, branchId, answer, s, -, -, hwhole, hkeeps⟩ := hsave
  rw [hkeeps.step]
  generalize request.interrupt = interrupt at hwhole
  cases hwhole with
  | empty hcall =>
    rcases h with ⟨_, _, _, -, rfl⟩ | ⟨loaded, -, hread⟩
    · rfl
    · rw [hcall] at hread
      exact hread.elim
  | committed hcommitted => exact h.committed hcommitted
  | suspended hcommitted => exact h.committed hcommitted

/-- **The counter of a checkpoint** is the number of node executions since the original invocation. -/
theorem Counted.step {checkpoint : Checkpoint E.Snapshot E.Value} {n : Nat}
    (h : Counted g checkpoint n) : checkpoint.step = n := by
  induction h with
  | @invoke m initialState config checkpoints batches request hsave =>
    have hstart : (Call.invoke initialState config checkpoints).StartsAt m 0 :=
      .inl ⟨_, _, _, rfl, rfl⟩
    exact (hstart.saved hsave).trans (Nat.zero_add _)
  | @onward m call loaded n batches request hloaded hread hsave ih =>
    have hstart : call.StartsAt m n := .inr ⟨loaded, ih, hread⟩
    exact hstart.saved hsave

theorem Call.After.startsAt {n : Nat} (h : call.After g m n) : call.StartsAt m n :=
  h.imp id fun ⟨loaded, hcounted, hread⟩ => ⟨loaded, hcounted.step, hread⟩

/-! ## What an outcome counts -/

/-- The steps an outcome reports. -/
def ExecutionOutcome.steps : ExecutionOutcome E → Nat
  | .completed report => report.steps
  | .interrupted report => report.steps

/-- The loop of the call, made from `m`, ends at a loop state it reached once it has committed the
batches, and the outcome is the report of that. -/
def Call.EndsAfter (g : CompiledGraph ν ρ) (m : Machine E) (call : Call E)
    (batches : List (List (NodeUpdate E.Update))) (outcome : ExecutionOutcome E) : Prop :=
  ∃ ctx q ended m₁ m₂, call.Reaches g m ctx q ∧ call.Committed g m batches q.1.stage ∧
    Ended g ctx q ended m₁ ∧ leaveLoop ctx ended m₁ = .ok outcome m₂

theorem leaveLoop_steps {ctx : RunContext} {ls : LoopState E Nat} {outcome : ExecutionOutcome E}
    {m m' : Machine E} (h : leaveLoop ctx (.inl ls) m = .ok outcome m') : outcome.steps = ls.steps := by
  have hleave : Within (Loose (E := E)) (leaveLoop ctx (.inl ls))
      (fun outcome => outcome.steps = ls.steps) fun _ => True := by
    refine within_seq (loose_steady.controlRun stops_any _ _ _) ?_
    refine within_seq (loose_steady.calm.emit _ _) ?_
    exact within_bind within_get fun _ _ => within_pure rfl
  exact (hleave.of_ok h).1

/-- An outcome reports the steps of the loop state it ended at. -/
theorem Ended.steps {ctx : RunContext} {q : LoopState E Nat × Machine E}
    {ended : LoopState E Nat ⊕ InterruptReport E} {m₁ m₂ : Machine E} (h : Ended g ctx q ended m₁)
    {outcome : ExecutionOutcome E} (hleave : leaveLoop ctx ended m₁ = .ok outcome m₂) :
    outcome.steps = q.1.steps := by
  cases h with
  | done hl => exact leaveLoop_steps hleave
  | @suspended first rest report _ hl hstep =>
    cases hleave
    have hrun : ∀ firstNode firstStep, Within (Loose (E := E))
        (runFrontier g.nav ctx q.1 first rest firstNode firstStep) (fun _ => True) fun _ => True :=
      fun _ _ => loose_steady.runFrontier stops_any loose_runs trivial fun _ _ _ _ => trivial
    have hsuper := loose_steady.superstep stops_any loose_saves trivial trivial
      (fun _ _ => trivial) hrun
    exact ((hsuper.of_ok hstep).1.2 report rfl).1

theorem Call.conclude_ok {outcome outcome' : ExecutionOutcome E} {m' : Machine E}
    (h : call.conclude outcome m = .ok outcome' m') : outcome' = outcome := by
  unfold Call.conclude at h
  split at h
  · cases h
  · cases h
  · cases h
    rfl

/-- **How a call ends** that returns an outcome. -/
theorem Call.ends (hg : Compiled g) (hrange : ∀ checkpoint, call.Reads m checkpoint → checkpoint.InRange)
    {outcome : ExecutionOutcome E} {m' : Machine E} (h : call.run g m = .ok outcome m') :
    ∃ batches, call.EndsAfter g m batches outcome := by
  have hs := sound_all (g := g) hrange
  rw [Call.run_eq] at h
  obtain ⟨⟨ctx, ls⟩, m₁, henter, h⟩ := bind_ok_iff.mp h
  obtain ⟨ended, m₂, hloop, h⟩ := bind_ok_iff.mp h
  obtain ⟨concluded, m₃, hleave, h⟩ := bind_ok_iff.mp h
  obtain rfl := Call.conclude_ok h
  have hentered := wp_of_ok (wp_enter hg hs) henter
  obtain ⟨seed, hnodes, hvalid⟩ := hentered.valid
  obtain ⟨q, hturns, hended⟩ := wp_of_ok
    (wp_runLoop_ends (placed hg) hnodes (q := (ls, m₁)) hvalid .refl hentered.limit) hloop
  have hreach : call.Reaches g m ctx q := ⟨ls, m₁, henter, hturns⟩
  obtain ⟨batches, hcommitted⟩ := hreach.committed hg hs
  exact ⟨batches, ctx, q, ended, m₂, m₃, hreach, hcommitted, hended, hleave⟩

/-- What a call reports counts what it has committed. -/
theorem Call.StartsAt.reported {n : Nat} (h : call.StartsAt m n)
    {batches : List (List (NodeUpdate E.Update))} {outcome : ExecutionOutcome E}
    (hends : call.EndsAfter g m batches outcome) : outcome.steps = n + executions batches := by
  obtain ⟨ctx, q, ended, m₁, m₂, -, hcommitted, hended, hleave⟩ := hends
  rw [hended.steps hleave]
  exact h.committed hcommitted

/-! ## The budget and the counters -/

/-- **The step budget is exact.** A call waits for whole frontiers, of at most as many node
executions as it may make. It fails for its budget exactly when it gets to a frontier that is over
it, if its counters do not overflow. And what the calls of a chain report and save counts the
node executions committed since the original invocation. -/
theorem budget_exact (hg : Compiled g) :
    (∀ (call : Call E.watched) (m : Machine E.watched), ∃ log,
      waits (final (call.run g) m) = waits m ++ log ∧ (log = [] ∨ ∃ ctx ls fronts,
        Entering g m call ctx ls ∧ Rounds g ctx ls fronts log ∧
          (fronts.map List.length).sum ≤ call.config.maxSteps)) ∧
    (∀ (call : Call E) (m : Machine E),
      (∀ checkpoint, call.Reads m checkpoint → checkpoint.InRange) →
      (∀ ctx p, call.Reaches g m ctx p → ¬Overflows g ctx p) → ∀ maxSteps node step,
        (∃ m', call.run g m = .error (.error (.maxStepsExceeded maxSteps node step)) m') ↔
          maxSteps = call.config.maxSteps ∧ OverBudget g m call node step) ∧
    (∀ (call : Call E) (m : Machine E) (n : Nat),
      (∀ checkpoint, call.Reads m checkpoint → checkpoint.InRange) → call.After g m n →
      (∀ ws, call.Writes g m ws → ∀ branchId request answer, .save branchId request answer ∈ ws →
        ∃ batches, call.SavesAfter g m batches request ∧ request.step = n + executions batches) ∧
      ∀ outcome m', call.run g m = .ok outcome m' → ∃ batches,
        call.EndsAfter g m batches outcome ∧ outcome.steps = n + executions batches) ∧
    ∀ (checkpoint : Checkpoint E.Snapshot E.Value) (n : Nat),
      Counted g checkpoint n → checkpoint.step = n := by
  refine ⟨fun call m => ?_, fun call m hrange hsafe _ _ _ => exceeded_iff hg hrange hsafe,
    fun call m n hrange hafter => ⟨fun ws hws branchId request answer hsave => ?_, ?_⟩,
    fun checkpoint n h => h.step⟩
  · obtain ⟨log, hlog, hrounds⟩ := run_rounds g call m
    refine ⟨log, hlog, hrounds.imp id ?_⟩
    rintro ⟨ctx, ls, fronts, hentering, hrounds⟩
    have htotal := hrounds.total_le
    have hlimit := hentering.limit_eq
    exact ⟨ctx, ls, fronts, hentering, hrounds, by omega⟩
  · obtain ⟨batches, s, hwhole, hkeeps⟩ :=
      (superstep_atomic hg call m hrange).1 ws hws branchId request answer hsave
    have hsaves : call.SavesAfter g m batches request :=
      ⟨ws, branchId, answer, s, hws, hsave, hwhole, hkeeps⟩
    exact ⟨batches, hsaves, hafter.startsAt.saved hsaves⟩
  · intro outcome m' h
    obtain ⟨batches, hends⟩ := Call.ends hg hrange h
    exact ⟨batches, hends, hafter.startsAt.reported hends⟩

namespace Crossroads

/-- The environment that goes by a script, cancelled at the second look. -/
abbrev impatient : Env Unit Unit :=
  { (Script.env Unit Unit).beside Bool with isCancelled := fun w => (w.2, (w.1, true)) }

/-- Run the graph with no steps to spend. -/
def broke : Call impatient := .invoke () ⟨0, ⟨.none, false⟩, ⟨true, none, none⟩, 10⟩ none

def calm : Machine impatient := ⟨(⟨[], none⟩, false), [], []⟩

/-- The next frontier is larger than the budget left of the call, which is cancelled first. -/
theorem cancelled_over_budget : ∃ ctx p, broke.Reaches graph calm ctx p ∧
    broke.config.maxSteps - p.1.steps < p.1.frontier.length ∧
    ∃ runId node m', broke.run graph calm = .error (.error (.cancelled runId node 1)) m' :=
  ⟨_, _, ⟨_, _, rfl, .refl⟩, by decide, _, _, _, rfl⟩

/-- The first boundary an invocation saves counts one node execution. -/
theorem budget_exact_saving : ∃ request : CheckpointRequest Unit Unit,
    request.nextFrontier = [.root ⟨"b"⟩] ∧ ∃ batches, saving.SavesAfter graph choosing batches request ∧
      request.step = 0 + executions batches := by
  have hsaved : [.root ⟨"b"⟩] ∈ savedFrontiers (saving.logAfter graph choosing) := by
    decide +kernel
  obtain ⟨branchId, request, answer, hsave, hb⟩ := exists_saved hsaved
  have hafter : saving.After graph choosing 0 := .inl ⟨_, _, _, rfl, rfl⟩
  exact ⟨request, hb, ((budget_exact compiled).2.2.1 saving choosing 0 (fun _ h => h.elim) hafter).1 _
    (Call.Writes.of_empty rfl) branchId request answer hsave⟩

end Crossroads

end GroupAgent.Core
