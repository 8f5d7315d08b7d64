import GroupAgent.Core.Atomic
import GroupAgent.Core.Counters
import GroupAgent.Core.Sights

/-!
# Deadlines

The deadlines of a run and of its nodes: how they are computed, which one is in force, and what
comes first when several things happen at once (`ActiveControl`, `runtime.rs:2230-2354`,
`execute_node` 2129-2181, `wait_for_deadline` 2357-2364 and `await_run_boundary` 2366-2391 of
`crates/group-agent-core/src`).

* `Arms.poll`: one poll of the biased `select!`, its arms in the order of the source. `Selects` is
  the race: polls that find nothing, then one that finds something. `selects_decides`: a race goes
  to the token before the deadline, and to the deadline before the work.
* `Polls`: how a world answers the questions that the arms ask. `Env.Polled` ties an environment to
  it: its nodes are futures that race by these arms.
* `executeNode_decides`, `awaitRunBoundary_decides`: so the two places of the source that race, do.
  An outcome of a node, or an answer of a future of the runtime's own, comes only when the last
  poll found neither the token nor the deadline in force.
* `StartsLate`: the next super-step starts a node when the clock cannot hold its deadline.
* `Controlled`: what a call sees, check by check: a passed token is answered with a cancellation, a
  passed deadline with the timeout that set it.

Results:
* `run_clock_iff`: a call panics for its deadlines exactly when one of them is beyond the clock.
* **`deadlines_iff`** puts them together with what a call sees.

Out of scope: how long anything takes. The clock is whatever the world answers, and the range of an
`Instant` (`instantMax`) is a parameter.
-/

namespace GroupAgent.Core

open GroupAgent.Lib

variable {ν ρ : Type}

/-! ## The biased race -/

/-- What a race polls: the future of the token, a sleep until an instant, and the work. -/
structure Arms (W α : Type) where
  cancelled : W → Bool × W
  elapsed : Instant → W → Bool × W
  work : W → Option α × W

namespace Arms

variable {W α : Type} (arms : Arms W α)

/-- Whether the deadline has passed. Without one this is never ready. -/
def waitForDeadline (deadline : Option ActiveDeadline) (w : W) :
    Option { passed : ActiveDeadline // deadline = some passed } × W :=
  match deadline with
  | none => (none, w)
  | some passed =>
    let r := arms.elapsed passed.instant w
    (if r.1 then some ⟨passed, rfl⟩ else none, r.2)

/-- One poll of the biased `select!`. It is pending when no arm is ready. -/
def poll (deadline : Option ActiveDeadline) (w : W) : Option (Raced deadline α) × W :=
  let c := arms.cancelled w
  if c.1 then (some .cancelled, c.2)
  else
    match arms.waitForDeadline deadline c.2 with
    | (some ⟨passed, h⟩, w) => (some (.elapsed passed h), w)
    | (none, w) =>
      let r := arms.work w
      (r.1.map .ready, r.2)

/-- The race is polled until it is not pending. Between two polls the world goes on. -/
inductive Selects (wait : W → W → Prop) (deadline : Option ActiveDeadline) :
    W → Raced deadline α → W → Prop where
  | done {w w' : W} {r : Raced deadline α} (h : arms.poll deadline w = (some r, w')) :
      Selects wait deadline w r w'
  | pending {w w₁ w₂ w' : W} {r : Raced deadline α} (h : arms.poll deadline w = (none, w₁))
      (hwait : wait w₁ w₂) (hrest : Selects wait deadline w₂ r w') : Selects wait deadline w r w'

/-- What a poll decides: the token first, then the deadline, then the work. -/
inductive Decides (deadline : Option ActiveDeadline) (w : W) : Raced deadline α → Prop where
  | cancelled (h : (arms.cancelled w).1 = true) : Decides deadline w .cancelled
  | elapsed {passed : ActiveDeadline} (inForce : deadline = some passed)
      (hcancelled : (arms.cancelled w).1 = false)
      (h : (arms.elapsed passed.instant (arms.cancelled w).2).1 = true) :
      Decides deadline w (.elapsed passed inForce)
  | ready {value : α} (hcancelled : (arms.cancelled w).1 = false)
      (helapsed : ∀ passed ∈ deadline,
        (arms.elapsed passed.instant (arms.cancelled w).2).1 = false) :
      Decides deadline w (.ready value)

theorem poll_decides {deadline : Option ActiveDeadline} {w w' : W} {r : Raced deadline α}
    (h : arms.poll deadline w = (some r, w')) : arms.Decides deadline w r := by
  unfold poll waitForDeadline at h
  cases hcancelled : (arms.cancelled w).1 with
  | true =>
    simp only [hcancelled, if_true, Prod.mk.injEq, Option.some.injEq] at h
    obtain ⟨rfl, -⟩ := h
    exact .cancelled hcancelled
  | false =>
    simp only [hcancelled, Bool.false_eq_true, if_false] at h
    cases deadline with
    | none =>
      simp only [Prod.mk.injEq, Option.map_eq_some_iff] at h
      obtain ⟨⟨value, -, rfl⟩, -⟩ := h
      exact .ready hcancelled (by simp)
    | some passed =>
      cases helapsed : (arms.elapsed passed.instant (arms.cancelled w).2).1 with
      | true =>
        simp only [helapsed, if_true, Prod.mk.injEq, Option.some.injEq] at h
        obtain ⟨rfl, -⟩ := h
        exact .elapsed rfl hcancelled helapsed
      | false =>
        simp only [helapsed, Bool.false_eq_true, if_false, Prod.mk.injEq,
          Option.map_eq_some_iff] at h
        obtain ⟨⟨value, -, rfl⟩, -⟩ := h
        exact .ready hcancelled (by simpa using helapsed)

/-- **A race** goes to what its last poll decides for. -/
theorem selects_decides {wait : W → W → Prop} {deadline : Option ActiveDeadline} {w w' : W}
    {r : Raced deadline α} (h : arms.Selects wait deadline w r w') :
    ∃ last, arms.Decides deadline last r := by
  induction h with
  | done h => exact ⟨_, arms.poll_decides h⟩
  | pending _ _ _ ih => exact ih

end Arms

/-! ## Where a run races -/

/-- How the world answers the polls of a race: the token and the sleeps. Between two polls it goes
on. -/
structure Polls (W : Type) where
  cancelled : W → Bool × W
  elapsed : Instant → W → Bool × W
  wait : W → W → Prop

namespace Polls

variable {W α : Type} (polls : Polls W)

/-- The race of some work. -/
def arms (work : W → Option α × W) : Arms W α := ⟨polls.cancelled, polls.elapsed, work⟩

/-- What a poll decides, whatever the work. -/
def Decides (deadline : Option ActiveDeadline) (w : W) (r : Raced deadline α) : Prop :=
  (polls.arms fun w => (none, w)).Decides deadline w r

/-- The race of a future is polled so. -/
def Races (future : Future W α) : Prop :=
  ∃ work, ∀ deadline w, (polls.arms work).Selects polls.wait deadline w
    (future.select deadline w).1 (future.select deadline w).2

variable {polls} {deadline : Option ActiveDeadline} {w : W}

theorem decides_of_arms {work : W → Option α × W} {r : Raced deadline α}
    (h : (polls.arms work).Decides deadline w r) : polls.Decides deadline w r := by
  cases h with
  | cancelled h => exact .cancelled h
  | elapsed inForce hcancelled h => exact .elapsed inForce hcancelled h
  | ready hcancelled helapsed => exact .ready hcancelled helapsed

/-- Work that is ready when a poll comes to it may be any. -/
theorem Decides.map {β : Type} {f : α → β} {r : Raced deadline α} (h : polls.Decides deadline w r) :
    polls.Decides deadline w (r.map f) := by
  cases h with
  | cancelled h => exact .cancelled h
  | elapsed inForce hcancelled h => exact .elapsed inForce hcancelled h
  | ready hcancelled helapsed => exact .ready hcancelled helapsed

theorem Races.decides {future : Future W α} (h : polls.Races future)
    (deadline : Option ActiveDeadline) (w : W) :
    ∃ last, polls.Decides deadline last (future.select deadline w).1 := by
  obtain ⟨work, hselects⟩ := h
  obtain ⟨last, hlast⟩ := (polls.arms work).selects_decides (hselects deadline w)
  exact ⟨last, decides_of_arms hlast⟩

/-- A poll that finds neither the token nor the deadline comes to the work. -/
theorem ready_of_poll {work : W → Option α × W} {w' : W}
    (h : (polls.arms work).poll deadline w = (none, w')) {β : Type} (value : β) :
    polls.Decides deadline w (.ready value) := by
  unfold Arms.poll Arms.waitForDeadline arms at h
  cases hcancelled : (polls.cancelled w).1 with
  | true => simp [hcancelled] at h
  | false =>
    refine .ready hcancelled fun passed hpassed => ?_
    cases hpassed
    show (polls.elapsed passed.instant (polls.cancelled w).2).1 = false
    cases helapsed : (polls.elapsed passed.instant (polls.cancelled w).2).1 with
    | true => simp [hcancelled, helapsed] at h
    | false => rfl

end Polls

/-- Every race of a run is polled: that of a node, and the first poll of a future of the runtime's
own, up to its work. -/
structure Env.Polled (E : Env ν ρ) (polls : Polls E.World) : Prop where
  run : ∀ attempt, polls.Races (E.run attempt)
  preempted : ∀ deadline w, E.preempted deadline w = (polls.arms fun w => (none, w)).poll deadline w

section Races

variable {E : Env ν ρ} {polls : Polls E.World} {ctx : RunContext} {m m' : Machine E}

/-- **A node under controls** gives an outcome only if the last poll of its race found neither the
token nor the deadline in force. -/
theorem executeNode_decides (hE : E.Polled polls) (hcontrols : ctx.control.isDisabled = false)
    {attempt : NodeAttempt ν E.State E.Value} {nodeDeadline : Option (Duration × Instant)}
    {outcome : NodeOutcome E.Update E.Value}
    (h : executeNode ctx attempt nodeDeadline m = .ok outcome m') :
    ∃ last answer, polls.Decides (ctx.control.deadline nodeDeadline) last (.ready answer) ∧
      attempt.kind.outcome answer = .ok outcome := by
  unfold executeNode at h
  obtain ⟨_, m₁, -, h⟩ := bind_ok_iff.mp h
  obtain ⟨r, m₂, hrace, h⟩ := bind_ok_iff.mp h
  unfold executeNode.awaitNode at hrace
  rw [if_neg (by simp [hcontrols])] at hrace
  obtain ⟨last, hlast⟩ := (hE.run attempt).decides (ctx.control.deadline nodeDeadline) m₁.world
  cases hrace
  unfold executeNode.finishNode at h
  generalize ((E.run attempt).select (ctx.control.deadline nodeDeadline) m₁.world).1 = r at h hlast
  cases r with
  | cancelled => exact (wp_of_ok loose_fail h).elim
  | elapsed passed inForce =>
    obtain ⟨error, m₃, -, h⟩ := bind_ok_iff.mp h
    exact (wp_of_ok loose_fail h).elim
  | ready answer =>
    obtain ⟨_, m₃, -, h⟩ := bind_ok_iff.mp h
    refine ⟨last, answer, hlast, ?_⟩
    cases houtcome : attempt.kind.outcome answer with
    | error source =>
      rw [houtcome] at h
      exact (wp_of_ok loose_fail h).elim
    | ok outcome' =>
      rw [houtcome] at h
      cases h
      rfl

variable {α β γ : Type} {start : M E (Except GraphRunError γ)} {future : γ → Future E.World β}
  {log : γ → Option β → M E Unit} {finish : γ → β → Except GraphRunError α}

/-- The race of a future of the runtime's own goes to what a poll decided. -/
theorem call_decides (hE : E.Polled polls) (hfuture : ∀ c, polls.Races (future c))
    {deadline : Option ActiveDeadline} {r : Raced deadline (Except GraphRunError α)}
    (h : (Task.call start future log finish).select deadline m = .ok r m') :
    ∃ last, polls.Decides deadline last r := by
  obtain ⟨first, m₁, hfirst, h⟩ := bind_ok_iff.mp h
  have hpoll := hE.preempted deadline m.world
  cases hfirst
  cases hp : E.preempted deadline m.world with
  | mk first w =>
    rw [hp] at hpoll
    simp only [hp] at h
    cases first with
    | some raced =>
      have hdecides := ((polls.arms fun w => (none, w)).poll_decides hpoll.symm)
      refine ⟨m.world, ?_⟩
      cases raced with
      | cancelled =>
        cases h
        exact Polls.Decides.map (f := Empty.elim) hdecides
      | elapsed passed inForce =>
        cases h
        exact Polls.Decides.map (f := Empty.elim) hdecides
      | ready value => exact value.elim
    | none =>
      obtain ⟨started, m₂, -, h⟩ := bind_ok_iff.mp h
      cases started with
      | error error =>
        cases h
        exact ⟨m.world, Polls.ready_of_poll hpoll.symm _⟩
      | ok c =>
        obtain ⟨answer, m₃, hanswer, h⟩ := bind_ok_iff.mp h
        cases hanswer
        obtain ⟨last, hlast⟩ := (hfuture c).decides deadline m₂.world
        refine ⟨last, ?_⟩
        generalize ((future c).select deadline m₂.world).1 = answer at h hlast
        cases answer with
        | cancelled =>
          obtain ⟨_, m₄, -, h⟩ := bind_ok_iff.mp h
          cases h
          exact hlast.map (f := finish c)
        | elapsed passed inForce =>
          obtain ⟨_, m₄, -, h⟩ := bind_ok_iff.mp h
          cases h
          exact hlast.map (f := finish c)
        | ready answer =>
          obtain ⟨_, m₄, -, h⟩ := bind_ok_iff.mp h
          cases h
          exact hlast.map (f := finish c)

/-- What the outcome of a race answers where the runtime waits between two super-steps. -/
inductive RaceAnswer (ctx : RunContext) (step : Nat) {deadline : Option ActiveDeadline} :
    Raced deadline (Except GraphRunError α) → Except GraphRunError α → Prop where
  | cancelled : RaceAnswer ctx step .cancelled (.error (.cancelled ctx.runId none step))
  | elapsed {timeout : Duration} {instant : Instant} (inForce : deadline = some (.run timeout instant)) :
      RaceAnswer ctx step (.elapsed (.run timeout instant) inForce)
        (.error (.runTimedOut ctx.runId timeout none step))
  | ready {result : Except GraphRunError α} : RaceAnswer ctx step (.ready result) result

/-- **A future of the runtime's own under controls** is answered by itself only if a poll found
neither the token nor the run deadline; else the error says which of them it found. -/
theorem awaitRunBoundary_decides (hE : E.Polled polls) (hfuture : ∀ c, polls.Races (future c))
    (hcontrols : ctx.control.isDisabled = false) {step : Nat} {answer : Except GraphRunError α}
    (h : awaitRunBoundary ctx step (Task.call start future log finish) m = .ok answer m') :
    ∃ last r, polls.Decides (ctx.control.deadline none) last r ∧ RaceAnswer ctx step r answer := by
  unfold awaitRunBoundary at h
  rw [if_neg (by simp [hcontrols])] at h
  obtain ⟨r, m₁, hrace, h⟩ := bind_ok_iff.mp h
  obtain ⟨last, hlast⟩ := call_decides hE hfuture hrace
  refine ⟨last, r, hlast, ?_⟩
  cases r with
  | cancelled =>
    cases h
    exact .cancelled
  | elapsed passed inForce =>
    cases passed with
    | run timeout instant =>
      cases h
      exact .elapsed inForce
    | node timeout instant => exact absurd rfl (blames_run ctx.control none timeout instant inForce)
  | ready result =>
    cases h
    exact .ready

end Races

/-! ## Deadlines beyond the clock -/

section Clock

variable {E : Env ν ρ} {g : CompiledGraph ν ρ} {call : Call E} {m : Machine E} {ctx : RunContext}

/-- The clock cannot hold the deadline of the node that starts next. -/
def NodeLate (ctx : RunContext) (node : CompiledNode ν ρ Nat) (step : Nat) (m : Machine E) : Prop :=
  ∃ m₁, controlRun ctx (some node.path) step m = .ok () m₁ ∧
    E.Beyond (E.now m₁.world).1 ctx.control.nodeTimeout

/-- The clock cannot hold the deadline of a node of the frontier, when those before it have
started. -/
def LateAmong (g : CompiledGraph ν ρ) (ctx : RunContext) (ls : LoopState E Nat) (offset : Nat)
    (frontier : List Nat) (m : Machine E) : Prop :=
  ∃ k index n attempts m₁, frontier[k]? = some index ∧ g.items[index]? = some (.node n) ∧
    startAll g.nav ctx ls offset (frontier.take k) m = .ok attempts m₁ ∧
    NodeLate ctx n (ls.steps + (offset + k) + 1) m₁

/-- The next super-step starts a node when the clock cannot hold its deadline. -/
def StartsLate (g : CompiledGraph ν ρ) (ctx : RunContext) (p : LoopState E Nat × Machine E) : Prop :=
  ∃ first rest r m₁, p.1.frontier = first :: rest ∧ g.accept ctx p.1 first rest p.2 = .ok r m₁ ∧
    LateAmong g ctx p.1 0 (first :: rest) m₁

/-- A stop that no deadline beyond the clock gives. -/
def InTime (e : Stop) : Prop := e ≠ .panic .instantOverflow

theorem plain_inTime : ∀ e, Plain e → InTime e := by
  rintro _ h rfl
  exact h

/-- Whether a stop is for the clock, when the clock is known. -/
theorem inTime_iff {e : Stop} {P : Prop} (he : InTime e) (hP : ¬P) : e = .panic .instantOverflow ↔ P :=
  ⟨fun h => absurd h he, fun h => absurd h hP⟩

/-- **Starting a node** stops for the clock exactly when the clock cannot hold its deadline. -/
theorem wp_startNode {ls : LoopState E Nat} {index step : Nat} {node : CompiledNode ν ρ Nat} :
    wp (startNode ctx ls index node step) (fun _ _ => ¬NodeLate ctx node step m)
      (fun e _ => e = .panic .instantOverflow ↔ NodeLate ctx node step m) m := by
  unfold startNode
  rw [wp_bind, wp_iff]
  refine ⟨fun _ m₁ hcontrol => ?_, fun e m₁ hcontrol => ?_⟩
  · have hlate : NodeLate ctx node step m ↔
        E.Beyond (E.now m₁.world).1 ctx.control.nodeTimeout := by
      constructor
      · rintro ⟨m₁', h, hbeyond⟩
        rw [hcontrol] at h
        cases h
        exact hbeyond
      · exact fun h => ⟨m₁, hcontrol, h⟩
    rw [hlate, wp_bind]
    have hnow : wp (ask E.now) (fun now _ => now = (E.now m₁.world).1) (fun _ _ => False) m₁ := rfl
    refine wp_mono hnow ?_ fun _ _ h => h.elim
    rintro now m₂ rfl
    suffices hrest : Within (Loose (E := E)) _
        (fun _ => ¬E.Beyond (E.now m₁.world).1 ctx.control.nodeTimeout)
        fun e => e = Stop.panic .instantOverflow ↔
          E.Beyond (E.now m₁.world).1 ctx.control.nodeTimeout from
      wp_mono (hrest m₂) (fun _ _ h => h.1) fun _ _ h => h.1
    refine within_bind (Steady.deadlineFrom fun h => ⟨fun _ => h, fun _ => rfl⟩) fun deadline hd => ?_
    refine within_seq (loose_steady.calm.emit _ _) ?_
    refine within_seq (loose_steady.control (fun e he => inTime_iff (plain_inTime e he) hd.2)
      (blames_some _ _)) ?_
    exact within_pure hd.2
  · have hplain := (loose_steady.controlRun plain_inTime ctx _ _).of_error hcontrol
    refine inTime_iff hplain.1 ?_
    rintro ⟨m₁', h, -⟩
    rw [hcontrol] at h
    cases h

theorem startAll_cons {ls : LoopState E Nat} {offset index : Nat} {n : CompiledNode ν ρ Nat}
    (hn : g.items[index]? = some (.node n)) (frontier : List Nat) :
    startAll g.nav ctx ls offset (index :: frontier) = (do
      let r ← startNode ctx ls index n (ls.steps + offset + 1)
      let rest ← startAll g.nav ctx ls (offset + 1) frontier
      pure (({ r.1 with offset, deadline := ctx.control.deadline r.2 } :
        ParallelAttempt ν E.State E.Value) :: rest)) := by
  rw [startAll, nodeAt_eq hn, pure_bind]

/-- When the first node of a frontier has started, the others are next. -/
theorem lateAmong_cons {ls : LoopState E Nat} {offset index : Nat} {frontier : List Nat}
    {n : CompiledNode ν ρ Nat} (hn : g.items[index]? = some (.node n))
    {r : NodeAttempt ν E.State E.Value × Option (Duration × Instant)} {m₁ : Machine E}
    (hstart : startNode ctx ls index n (ls.steps + offset + 1) m = .ok r m₁) :
    LateAmong g ctx ls offset (index :: frontier) m ↔ LateAmong g ctx ls (offset + 1) frontier m₁ := by
  constructor
  · rintro ⟨k, index', n', attempts, m₂, hk, hn', hstarts, hlate⟩
    cases k with
    | zero =>
      cases hk
      rw [hn] at hn'
      cases hn'
      cases hstarts
      exact absurd hlate (wp_of_ok wp_startNode hstart)
    | succ k =>
      rw [List.take_succ_cons, startAll_cons hn, bind_of_ok hstart] at hstarts
      obtain ⟨rest, m₃, hrest, hpure⟩ := bind_ok_iff.mp hstarts
      cases hpure
      have hstep : offset + (k + 1) = offset + 1 + k := by omega
      rw [hstep] at hlate
      exact ⟨k, index', n', rest, _, hk, hn', hrest, hlate⟩
  · rintro ⟨k, index', n', attempts, m₂, hk, hn', hstarts, hlate⟩
    have hfirst : startAll g.nav ctx ls offset ((index :: frontier).take (k + 1)) m = .ok
        (({ r.1 with offset, deadline := ctx.control.deadline r.2 } : ParallelAttempt ν E.State E.Value)
          :: attempts) m₂ := by
      rw [List.take_succ_cons, startAll_cons hn, bind_of_ok hstart, bind_of_ok hstarts]
      rfl
    have hstep : offset + (k + 1) = offset + 1 + k := by omega
    rw [← hstep] at hlate
    exact ⟨k + 1, index', n', _, m₂, hk, hn', hfirst, hlate⟩

/-- **Starting a frontier** stops for the clock exactly when it cannot hold the deadline of one of
its nodes. -/
theorem wp_startAll {ls : LoopState E Nat} : ∀ {offset : Nat} {frontier : List Nat} {m : Machine E},
    (∀ i ∈ frontier, ∃ n, g.items[i]? = some (.node n)) →
    wp (startAll g.nav ctx ls offset frontier) (fun _ _ => ¬LateAmong g ctx ls offset frontier m)
      (fun e _ => e = .panic .instantOverflow ↔ LateAmong g ctx ls offset frontier m) m
  | offset, [], m, _ => by
    rintro ⟨k, index, n, attempts, m₁, hk, -⟩
    cases hk
  | offset, index :: frontier, m, h => by
    obtain ⟨n, hn⟩ := h index List.mem_cons_self
    rw [startAll_cons hn, wp_bind, wp_iff]
    refine ⟨fun r m₁ hstart => ?_, fun e m₁ hstart => ?_⟩
    · rw [lateAmong_cons hn hstart, wp_bind]
      exact wp_mono (wp_startAll fun i hi => h i (List.mem_cons_of_mem index hi))
        (fun _ _ h => h) fun _ _ h => h
    · rw [wp_of_error wp_startNode hstart]
      constructor
      · exact fun hlate => ⟨0, index, n, [], m, rfl, hn, rfl, hlate⟩
      · rintro ⟨k, index', n', attempts, m₂, hk, hn', hstarts, hlate⟩
        cases k with
        | zero =>
          cases hk
          rw [hn] at hn'
          cases hn'
          cases hstarts
          exact hlate
        | succ k =>
          rw [List.take_succ_cons, startAll_cons hn, bind_of_error hstart] at hstarts
          cases hstarts

/-! ## Calls that panic for the clock -/

/-- What is known of the clock is not changed by what leaves it alone. -/
theorem wp_inTime {α β : Type} {x : M E α} {f : α → M E β} {P : Prop}
    (hx : wp x (fun _ _ => ¬P) (fun e _ => e = .panic .instantOverflow ↔ P) m)
    (hf : ∀ a, Within (Loose (E := E)) (f a) (fun _ => True) InTime) :
    wp (x >>= f) (fun _ _ => ¬P) (fun e _ => e = .panic .instantOverflow ↔ P) m := by
  rw [wp_bind]
  refine wp_mono hx (fun a m₁ hP => ?_) fun _ _ h => h
  exact wp_mono (hf a m₁) (fun _ _ _ => hP) fun _ _ h => inTime_iff h.1 hP

theorem lateAmong_single {ls : LoopState E Nat} {first : Nat} {n : CompiledNode ν ρ Nat}
    (hn : g.items[first]? = some (.node n)) :
    LateAmong g ctx ls 0 [first] m ↔ NodeLate ctx n (ls.steps + 1) m := by
  constructor
  · rintro ⟨k, index, n', attempts, m₁, hk, hn', hstarts, hlate⟩
    cases k with
    | zero =>
      cases hk
      rw [hn] at hn'
      cases hn'
      cases hstarts
      exact hlate
    | succ k => cases hk
  · exact fun h => ⟨0, first, n, [], m, rfl, hn, rfl, h⟩

/-- **Executing a frontier** stops for the clock exactly when it cannot hold the deadline of one of
its nodes. -/
theorem wp_runFrontier {ls : LoopState E Nat} {first : Nat} {rest : List Nat} {firstNode : NodePath}
    (h : ∀ i ∈ first :: rest, ∃ n, g.items[i]? = some (.node n)) :
    wp (runFrontier g.nav ctx ls first rest firstNode (ls.steps + 1))
      (fun _ _ => ¬LateAmong g ctx ls 0 (first :: rest) m)
      (fun e _ => e = .panic .instantOverflow ↔ LateAmong g ctx ls 0 (first :: rest) m) m := by
  unfold runFrontier
  cases rest with
  | nil =>
    obtain ⟨n, hn⟩ := h first List.mem_cons_self
    unfold runSingle
    rw [lateAmong_single hn, nodeAt_eq hn, pure_bind]
    refine wp_inTime wp_startNode fun started => ?_
    refine within_bind (loose_steady.executeNode plain_inTime loose_runs trivial _) fun outcome _ => ?_
    cases outcome with
    | interrupt request => exact within_pure trivial
    | update update =>
      refine within_seq (loose_steady.calm.emit _ _) ?_
      refine within_seq (loose_steady.controlRun plain_inTime _ _ _) ?_
      refine within_seq (loose_steady.controlRun plain_inTime _ _ _) ?_
      split
      · exact loose_steady.calm.fail ctx (plain_inTime _ trivial)
      · exact within_pure trivial
  | cons second rest =>
    rw [wp_map]
    unfold runParallel
    refine wp_inTime (wp_startAll h) fun attempts => ?_
    refine within_bind (loose_steady.awaitAll plain_inTime loose_runs fun _ _ => trivial) fun slots _ => ?_
    refine within_seq (loose_steady.controlRun plain_inTime _ _ _) ?_
    refine within_bind (Steady.pathsOf plain_inTime g _) fun nodeIds _ => ?_
    refine within_bind (Steady.zipUpdates plain_inTime) fun batch _ => ?_
    split
    · exact loose_steady.calm.fail ctx (plain_inTime _ trivial)
    · exact within_pure trivial

/-- **A super-step** stops for the clock exactly when it starts late. -/
theorem advance_clock_iff {p : LoopState E Nat × Machine E} {first : Nat} {rest : List Nat}
    (hl : p.1.frontier = first :: rest) (h : ∀ i ∈ first :: rest, ∃ n, g.items[i]? = some (.node n)) :
    (∃ m', advance g.nav ctx p.1 first rest p.2 = .error (.panic .instantOverflow) m') ↔
      StartsLate g ctx p := by
  rw [advance_eq]
  have haccept : Within Loose (g.accept ctx p.1 first rest) _ InTime :=
    loose_steady.accept plain_inTime nofun nofun
  constructor
  · rintro ⟨m', he⟩
    rcases bind_error_iff.mp he with he | ⟨⟨node, firstStep, number⟩, m₁, hr, he⟩
    · exact absurd rfl (haccept.of_error he).1
    · obtain ⟨⟨-, hstep, -⟩, -⟩ := haccept.of_ok hr
      simp only at hstep
      subst hstep
      refine ⟨first, rest, _, m₁, hl, hr, ?_⟩
      rcases bind_error_iff.mp he with he | ⟨outcome, m₂, -, he⟩
      · exact (wp_of_error (wp_runFrontier h) he).mp rfl
      · exact absurd rfl ((loose_steady.follow plain_inTime outcome).of_error he).1
  · rintro ⟨first', rest', ⟨node, firstStep, number⟩, m₁, hl', hr, hlate⟩
    rw [hl] at hl'
    cases hl'
    obtain ⟨⟨-, hstep, -⟩, -⟩ := haccept.of_ok hr
    simp only at hstep
    subst hstep
    rw [bind_of_ok hr]
    have hrun : wp (runFrontier g.nav ctx p.1 first rest node.path (p.1.steps + 1)) _ _ m₁ :=
      wp_runFrontier h
    cases hx : runFrontier g.nav ctx p.1 first rest node.path (p.1.steps + 1) m₁ with
    | ok outcome m₂ => exact absurd hlate (wp_of_ok hrun hx)
    | error e m₂ =>
      obtain rfl := (wp_of_error hrun hx).mpr hlate
      exact ⟨m₂, bind_of_error hx⟩

/-- A deadline of the call is beyond the clock: that of the run, or that of a node which it
starts. -/
def Call.OutlastsClock (g : CompiledGraph ν ρ) (m : Machine E) (call : Call E) : Prop :=
  BeginsLate m call.config ∨ ∃ ctx p, call.Reaches g m ctx p ∧ StartsLate g ctx p

/-- Every call begins its run first. -/
theorem Call.prepare_begins {e : Stop} {m' : Machine E}
    (h : beginRun (E := E) call.config m = .error e m') : call.prepare g m = .error e m' := by
  cases call with
  | invoke initialState config checkpoints => cases checkpoints <;> exact bind_of_error h
  | resume config initializer => exact bind_of_error (bind_of_error h)
  | replay config => exact bind_of_error (bind_of_error (bind_of_error h))
  | fork config => exact bind_of_error (bind_of_error (bind_of_error h))

/-- **A call panics for its deadlines** exactly when one of them is beyond the clock. -/
theorem run_clock_iff (hg : Compiled g)
    (hrange : ∀ checkpoint, call.Reads m checkpoint → checkpoint.InRange) :
    (∃ m', call.run g m = .error (.panic .instantOverflow) m') ↔ call.OutlastsClock g m := by
  have hs := sound_all (g := g) hrange
  have hnodes : ∀ ctx p first rest, call.Reaches g m ctx p → p.1.frontier = first :: rest →
      ∀ i ∈ first :: rest, ∃ n, g.items[i]? = some (.node n) := by
    intro ctx p first rest hreach hl
    rw [← hl]
    exact (hreach.countable hg hs).nodes
  constructor
  · rintro ⟨m', h⟩
    rcases Call.stops_at hg hrange id h with hquits | ⟨ctx, p, first, rest, hreach, hl, hadv⟩
    · cases hquits with
      | plain hplain => exact hplain.elim
      | clock hlate => exact .inl hlate
      | invalid _ hpanic => exact absurd hpanic (validate_noPanic hg.indexed (unreserved hg) _ _)
    · exact .inr ⟨ctx, p, hreach,
        (advance_clock_iff hl (hnodes ctx p first rest hreach hl)).mp ⟨m', hadv⟩⟩
  · rintro (hlate | ⟨ctx, p, hreach, hlate⟩)
    · have hbegin : ∃ m', beginRun (E := E) call.config m = .error (.panic .instantOverflow) m' := by
        have hspec : wp (beginRun call.config) _ _ m := loose_steady.beginRun
        cases hb : beginRun (E := E) call.config m with
        | ok ctx m' => exact absurd hlate (wp_of_ok hspec hb).1.2.2
        | error e m' =>
          obtain rfl := (wp_of_error hspec hb).1.1
          exact ⟨m', rfl⟩
      obtain ⟨m', hbegin⟩ := hbegin
      refine ⟨m', ?_⟩
      rw [Call.run_proceed]
      exact bind_of_error (Call.prepare_begins hbegin)
    · obtain ⟨first, rest, -, -, hl, -⟩ := id hlate
      obtain ⟨m', hadv⟩ := (advance_clock_iff hl (hnodes ctx p first rest hreach hl)).mpr hlate
      exact ⟨m', ((superstep_atomic hg call m hrange).2 ctx p first rest _ m' hreach hl hadv).1⟩

end Clock

/-! ## Deadlines and controls -/

section Controlled

variable {E : Env ν ρ} {g : CompiledGraph ν ρ}

/-- What comes first, in a call from `m`. -/
structure Controlled (g : CompiledGraph ν ρ) (call : Call E.sighted) (m : Machine E.sighted) : Prop where
  /-- The earlier of two deadlines is in force, the run's on a tie. -/
  inForce : ∀ (c : ActiveControl) node, InForce c.run node (c.deadline node)
  /-- A race goes to the token, then to the deadline, then to the work. -/
  races : ∀ {W α : Type} (arms : Arms W α) wait deadline w r w',
    arms.Selects wait deadline w r w' → ∃ last, arms.Decides deadline last r
  /-- The updates of a frontier are applied only after clear sights. -/
  updates : ∀ ctx (ls : LoopState E.sighted Nat) first rest firstNode firstStep m₁ state m₂,
    runFrontier g.nav ctx ls first rest firstNode firstStep m₁ = .ok (.inl state) m₂ →
      ∃ log, sights m₂ = sights m₁ ++ log ∧ Clear ctx.control.run log
  /-- So is everything that a loop state of the call holds. -/
  reached : ∀ ctx p, call.Reaches g m ctx p → ∃ started more,
    sights p.2 = sights m ++ .clock started :: more ∧
      ctx.control.run = call.config.runDeadline started ∧
      Clear (call.config.runDeadline started) more
  /-- The call returns after clear sights. If it stops, it may have seen an alarm, as the last thing,
  and stops for that. -/
  ended : wp (call.run g)
    (fun _ m' => ∃ log, sights m' = sights m ++ log ∧ ∃ started more, log = .clock started :: more ∧
      Clear (call.config.runDeadline started) more)
    (fun e m' => ∃ log, sights m' = sights m ++ log ∧ ∃ started more, log = .clock started :: more ∧
      Halts (Clear (call.config.runDeadline started)) (Alarm (call.config.runDeadline started)) e more) m

theorem controlled (g : CompiledGraph ν ρ) (call : Call E.sighted) (m : Machine E.sighted) :
    Controlled g call m where
  inForce := inForce_deadline
  races arms _ _ _ _ _ h := arms.selects_decides h
  updates ctx ls first rest firstNode firstStep m₁ state m₂ h := by
    obtain ⟨log, hlog, hclear, -⟩ := wp_of_ok (guarded_runFrontier m₁) h
    exact ⟨log, hlog, hclear⟩
  reached _ _ h := h.sights
  ended := run_sights call m

/-- **Deadlines.** No deadline of a call panics, and cancellation comes before deadlines and
deadlines before results, exactly when none of its deadlines is beyond the clock. -/
theorem deadlines_iff (hg : Compiled g) (call : Call E.sighted) (m : Machine E.sighted)
    (hrange : ∀ checkpoint, call.Reads m checkpoint → checkpoint.InRange) :
    ((∀ m', call.run g m ≠ .error (.panic .instantOverflow) m') ∧ Controlled g call m) ↔
      ¬call.OutlastsClock g m := by
  rw [← run_clock_iff hg hrange]
  constructor
  · rintro ⟨hsafe, -⟩ ⟨m', h⟩
    exact hsafe m' h
  · exact fun h => ⟨fun m' hm' => h ⟨m', hm'⟩, controlled g call m⟩

end Controlled

namespace Crossroads

/-- An environment with a clock of signed 64-bit seconds and nanoseconds. -/
abbrev clockwork : Env Unit Unit := { Script.env Unit Unit with instantMax := 9223372036854775807999999999 }

/-- The longest duration of unsigned 64-bit seconds and nanoseconds. -/
def longest : Duration := 18446744073709551615999999999

/-- Run the graph with the longest timeouts. -/
def patient (runTimeout nodeTimeout : Option Duration) : Call clockwork :=
  .invoke () ⟨10, ⟨.none, false⟩, ⟨false, runTimeout, nodeTimeout⟩, 10⟩ none

/-- The longest timeout of a run panics, and so does that of a node. -/
theorem longest_timeout_panics : Compiled graph ∧
    (∃ m', (patient (some longest) none).run graph ⟨⟨[], none⟩, [], []⟩ =
      .error (.panic .instantOverflow) m') ∧
    ∃ m', (patient none (some longest)).run graph ⟨⟨[], none⟩, [], []⟩ =
      .error (.panic .instantOverflow) m' :=
  ⟨compiled, panicked_eq (by decide +kernel), panicked_eq (by decide +kernel)⟩

/-- The call of the longest timeout of a run, seen. -/
def watched : Call clockwork.sighted :=
  .invoke () ⟨10, ⟨.none, false⟩, ⟨false, some longest, none⟩, 10⟩ none

theorem deadlines_iff_longest : Compiled graph ∧
    watched.OutlastsClock graph ⟨(⟨[], none⟩, []), [], []⟩ := by
  refine ⟨compiled, ?_⟩
  by_contra hclock
  obtain ⟨m', hpanics⟩ : ∃ m', watched.run graph ⟨(⟨[], none⟩, []), [], []⟩ =
      .error (.panic .instantOverflow) m' := panicked_eq (by decide +kernel)
  exact ((deadlines_iff compiled watched _ fun _ h => h.elim).mpr hclock).1 m' hpanics

end Crossroads

end GroupAgent.Core
