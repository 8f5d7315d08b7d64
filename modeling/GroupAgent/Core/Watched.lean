import GroupAgent.Core.Backed
import Mathlib.Algebra.GroupWithZero.Nat

/-!
# Which executions a call waits for

The environment with a log of its waits: each entry holds the node executions that are under way
when the runtime waits for a node to complete (`execute_node`, `runtime.rs:2129-2181`, and the
`FuturesUnordered` of `execute_internal`, 369-890).

* `Env.watched`: the environment with its log, which no node and no store can read.
* `Waits`: every wait is for all executions that are pending, and one of them completes.
* `Front`: the executions of a frontier, one at each of its nodes, with the context that each is
  given.
* `Rounds`: the waits of a run, frontier by frontier. Only its last frontier may be left before all
  of it has completed, and every frontier fits the budget that is left to it.

Results: **`run_rounds`**: this is what a call waits for.

An execution that is waited for may have worked before; how often a future is polled is not part of
the log.
-/

namespace GroupAgent.Core

open GroupAgent.Lib

variable {ν ρ : Type}

/-! ## The watched environment -/

/-- A future that notes when it is waited for. -/
def Future.noting {W L α : Type} (entry : L) (future : Future W α) : Future (W × List L) α where
  await w := ((future.await w.1).1, ((future.await w.1).2, w.2 ++ [entry]))
  select deadline w :=
    ((future.select deadline w.1).1, ((future.select deadline w.1).2, w.2 ++ [entry]))

/-- The environment with the log of its waits. -/
abbrev Env.watched (E : Env ν ρ) : Env ν ρ :=
  { E.beside (List (List (NodeAttempt ν E.State E.Value))) with
    run := fun a => (E.run a).noting [a]
    nextReady := fun pending h w =>
      let r := E.nextReady pending h w.1
      (r.1, (r.2, w.2 ++ [pending.map ParallelAttempt.toNodeAttempt])) }

section Watched

variable {E : Env ν ρ}

/-- The waits so far. -/
abbrev waits (m : Machine E.watched) : List (List (NodeAttempt ν E.State E.Value)) := m.world.2

/-- Nothing is waited for. -/
abbrev Unwaited : Machine E.watched → Machine E.watched → Prop := SameView waits

theorem unwaited_steady : Steady (Unwaited (E := E)) where
  idle m w h := by
    show w.2 = m.world.2
    cases h with
    | calm h => cases h <;> rfl
    | _ => rfl
  events _ _ := rfl

theorem unwaited_saves (K : RuntimeCheckpoint → Prop) (hK : ∀ c id, K (.enabled c) →
    K (.enabled (c.after id))) : Steady.Saves (Unwaited (E := E)) K where
  await _ _ _ _ _ := rfl
  select _ _ _ _ _ _ := rfl
  record _ _ _ _ _ _ := rfl
  after := hK

theorem unwaited_creates : Steady.Creates (Unwaited (E := E)) where
  await _ _ _ _ := rfl
  select _ _ _ _ _ := rfl
  record _ _ _ _ _ := rfl

/-! ## Waiting for a frontier -/

/-- Waits for what is pending: every wait is for all of it, and leads to one completion. -/
inductive Waits {α : Type} : List α → List (List α) → List α → Prop where
  | none {pending : List α} : Waits pending [] pending
  | wait {pending left : List α} {log : List (List α)} (i : Nat) (hi : i < pending.length)
      (h : Waits (pending.eraseIdx i) log left) : Waits pending (pending :: log) left

/-- The executions of a frontier, one at each of its nodes. -/
def Front (g : CompiledGraph ν ρ) (ctx : RunContext) (ls : LoopState E Nat) :
    List (NodeAttempt ν E.State E.Value) → Prop :=
  List.Forall₂ (Attempts g ctx ls) ls.frontier

/-- Nothing is waited for, or executions of the frontier. -/
def Partly (g : CompiledGraph ν ρ) (ctx : RunContext) (ls : LoopState E Nat)
    (log : List (List (NodeAttempt ν E.State E.Value))) : Prop :=
  log = [] ∨ ∃ front left, Front g ctx ls front ∧ Waits front log left

variable {g : CompiledGraph ν ρ} {ctx : RunContext} {ls : LoopState E.watched Nat}

theorem waits_awaitAll {checkpoints : RuntimeCheckpoint} : ∀ {count : Nat}
    {pending : List (ParallelAttempt ν E.State E.Value)} {slots : List (Option E.Update)},
    count = pending.length →
    Appends waits (awaitAll (E := E.watched) ctx checkpoints count pending slots)
      (fun _ log => Waits (pending.map ParallelAttempt.toNodeAttempt) log [])
      fun _ log => ∃ left, Waits (pending.map ParallelAttempt.toNodeAttempt) log left
  | 0, pending, _, hcount => by
    rw [List.length_eq_zero_iff.mp hcount.symm]
    exact appends_pure .none
  | count + 1, pending, slots, hcount => by
    unfold awaitAll
    have hne : pending ≠ [] := by
      rintro rfl
      cases hcount
    rw [dif_pos hne]
    refine appends_bind (P := fun _ log => log = [pending.map ParallelAttempt.toNodeAttempt])
      (fun m => ⟨_, rfl, rfl⟩) ?_
    rintro ⟨i, answer⟩ _ rfl
    have hi : i.val < (pending.map ParallelAttempt.toNodeAttempt).length := by
      rw [List.length_map]
      exact i.isLt
    have hstopped : ∃ left, Waits (pending.map ParallelAttempt.toNodeAttempt)
        ([pending.map ParallelAttempt.toNodeAttempt] ++ []) left := ⟨_, .wait i hi .none⟩
    refine appends_after (unwaited_steady.finishNode stops_any answer) (fun _ _ => hstopped)
      fun outcome _ => ?_
    cases outcome with
    | interrupt request =>
      refine appends_after (unwaited_steady.calm.emit _ _) (fun _ (_ : True) => hstopped) fun _ _ => ?_
      cases checkpoints <;> exact appends_mono
        (unwaited_steady.calm.fail (S := fun _ => True) (Q := fun _ => False) ctx trivial).appends
        (fun _ _ h => h.2.elim) fun _ _ h => h.1 ▸ hstopped
    | update update =>
      refine appends_after (unwaited_steady.calm.emit _ _) (fun _ (_ : True) => hstopped) fun _ _ => ?_
      refine appends_after (unwaited_steady.controlRun stops_any _ _ _) (fun _ _ => hstopped) fun _ _ => ?_
      have hlength : count = (pending.eraseIdx i).length := by
        rw [List.length_eraseIdx_of_lt i.isLt]
        omega
      have hrest : Appends waits (awaitAll (E := E.watched) ctx checkpoints count (pending.eraseIdx i)
          (slots.set (pending.get i).offset (some update))) _ _ := waits_awaitAll hlength
      rw [← List.eraseIdx_map] at hrest
      refine appends_mono hrest (fun _ _ h => .wait i hi h) ?_
      rintro _ _ ⟨left, h⟩
      exact ⟨left, .wait i hi h⟩

theorem waits_executeNode {a : NodeAttempt ν E.State E.Value}
    {nodeDeadline : Option (Duration × Instant)} :
    Appends waits (executeNode (E := E.watched) ctx a nodeDeadline) (fun _ log => log = [[a]])
      fun _ log => log = [] ∨ log = [[a]] := by
  unfold executeNode
  refine appends_after (unwaited_steady.control stops_any (blames_some _ _)) (fun _ _ => .inl rfl)
    fun _ _ => ?_
  refine appends_before (P := fun _ log => log = [[a]]) ?_ fun answer log hlog => ?_
  · unfold executeNode.awaitNode
    split
    · refine appends_map (P := fun _ log => log = [[a]]) (fun m => ?_) fun _ _ h => h
      exact ⟨_, rfl, rfl⟩
    · exact fun m => ⟨_, rfl, rfl⟩
  · exact within_mono (unwaited_steady.finishNode stops_any answer) (fun _ _ => hlog)
      fun _ _ => .inr hlog

theorem waits_runSingle {first : Nat} {firstNode : NodePath} {firstStep : Nat} :
    Appends waits (runSingle g.nav ctx ls first firstNode firstStep)
      (fun _ log => ∃ a, Attempts g ctx ls first a ∧ log = [[a]])
      fun _ log => log = [] ∨ ∃ a, Attempts g ctx ls first a ∧ log = [[a]] := by
  unfold runSingle
  refine appends_after (Steady.nodeAt stops_any g first) (fun _ _ => .inl rfl) fun node hnode => ?_
  refine appends_after (unwaited_steady.startNode stops_any trivial first node firstStep)
    (fun _ _ => .inl rfl) fun started hstarted => ?_
  obtain ⟨a, nodeDeadline⟩ := started
  have ha : Attempts g ctx ls first a := ⟨node, firstStep, hnode, hstarted⟩
  have hexecute : Appends waits (executeNode (E := E.watched) ctx a nodeDeadline)
      (fun _ log => log = [[a]])
      fun _ log => log = [] ∨ ∃ a, Attempts g ctx ls first a ∧ log = [[a]] :=
    appends_mono waits_executeNode (fun _ _ h => h) fun _ _ h => h.imp id fun h => ⟨a, ha, h⟩
  refine appends_before hexecute fun outcome log hlog => ?_
  refine within_mono (P := fun _ => True) (S := fun _ => True) ?_ (fun _ _ => ⟨a, ha, hlog⟩)
    fun _ _ => .inr ⟨a, ha, hlog⟩
  cases outcome with
  | interrupt request => exact within_pure trivial
  | update update =>
    refine within_seq (unwaited_steady.calm.emit _ _) ?_
    refine within_seq (unwaited_steady.controlRun stops_any _ _ _) ?_
    refine within_seq (unwaited_steady.controlRun stops_any _ _ _) ?_
    split
    · exact unwaited_steady.calm.fail ctx trivial
    · exact within_pure trivial

/-- Executing a frontier waits for all of it, one completion after another. -/
theorem waits_runFrontier {first : Nat} {rest : List Nat} (hl : ls.frontier = first :: rest)
    {firstNode : NodePath} {firstStep : Nat} :
    Appends waits (runFrontier g.nav ctx ls first rest firstNode firstStep)
      (fun _ log => ∃ front, Front g ctx ls front ∧ Waits front log [])
      fun _ log => Partly g ctx ls log := by
  have hsingle : ∀ a, rest = [] → Attempts g ctx ls first a → Front g ctx ls [a] ∧ Waits [a] [[a]] [] := by
    rintro a rfl ha
    unfold Front
    rw [hl]
    exact ⟨.cons ha .nil, .wait 0 Nat.one_pos .none⟩
  unfold runFrontier
  cases rest with
  | nil =>
    refine appends_mono waits_runSingle ?_ ?_
    · rintro _ _ ⟨a, ha, rfl⟩
      exact ⟨[a], hsingle a rfl ha⟩
    · rintro _ _ (rfl | ⟨a, ha, rfl⟩)
      · exact .inl rfl
      · exact .inr ⟨[a], [], hsingle a rfl ha⟩
  | cons second rest =>
    refine appends_map (P := fun _ log => ∃ front, Front g ctx ls front ∧ Waits front log []) ?_
      fun _ _ h => h
    unfold runParallel
    refine appends_after (unwaited_steady.startAll stops_any trivial) (fun _ _ => .inl rfl)
      fun attempts hattempts => ?_
    have hfront : Front g ctx ls (attempts.map ParallelAttempt.toNodeAttempt) := by
      unfold Front
      rw [hl, List.forall₂_map_right_iff]
      exact hattempts
    have hawait : Appends waits (awaitAll (E := E.watched) ctx ls.checkpoints _ attempts
        (List.replicate (first :: second :: rest).length none)) _ _ :=
      waits_awaitAll hattempts.length_eq
    refine appends_before (P := fun _ log => Waits (attempts.map ParallelAttempt.toNodeAttempt) log [])
      (appends_mono hawait (fun _ _ h => h) ?_) fun slots log hlog => ?_
    · rintro _ log ⟨left, h⟩
      exact .inr ⟨_, left, hfront, h⟩
    refine within_mono (P := fun _ => True) (S := fun _ => True) ?_
      (fun _ _ => ⟨_, hfront, hlog⟩) fun _ _ => .inr ⟨_, [], hfront, hlog⟩
    refine within_seq (unwaited_steady.controlRun stops_any _ _ _) ?_
    refine within_bind (Steady.pathsOf stops_any g _) fun nodeIds _ => ?_
    refine within_bind (Steady.zipUpdates stops_any) fun batch _ => ?_
    split
    · exact unwaited_steady.calm.fail ctx trivial
    · exact within_pure trivial

/-! ## Waiting for a run -/

/-- What a run waits for from a loop state on, frontier by frontier. Every frontier fits the budget
that is left. The run goes on from one only when all of it has completed. -/
inductive Rounds (g : CompiledGraph ν ρ) (ctx : RunContext) : LoopState E.watched Nat →
    List (List (NodeAttempt ν E.State E.Value)) → List (List (NodeAttempt ν E.State E.Value)) →
    Prop where
  | stop {ls : LoopState E.watched Nat} : Rounds g ctx ls [] []
  | last {ls : LoopState E.watched Nat} {front left : List (NodeAttempt ν E.State E.Value)}
      {log : List (List (NodeAttempt ν E.State E.Value))}
      (hfit : ls.frontier.length ≤ ctx.absoluteStepLimit - ls.steps)
      (hfront : Front g ctx ls front) (h : Waits front log left) : Rounds g ctx ls [front] log
  | next {ls ls' : LoopState E.watched Nat} {front : List (NodeAttempt ν E.State E.Value)}
      {log log' fronts : List (List (NodeAttempt ν E.State E.Value))}
      (hfit : ls.frontier.length ≤ ctx.absoluteStepLimit - ls.steps)
      (hfront : Front g ctx ls front) (h : Waits front log [])
      (hcarried : Steady.Carried (fun _ => True) ls ls.frontier.length ls')
      (hrest : Rounds g ctx ls' fronts log') : Rounds g ctx ls (front :: fronts) (log ++ log')

theorem Front.length_eq {front : List (NodeAttempt ν E.State E.Value)} (h : Front g ctx ls front) :
    front.length = ls.frontier.length :=
  (List.Forall₂.length_eq h).symm

/-- The executions of all frontiers together fit the budget. -/
theorem Rounds.total_le {fronts log : List (List (NodeAttempt ν E.State E.Value))}
    (h : Rounds g ctx ls fronts log) :
    (fronts.map List.length).sum ≤ ctx.absoluteStepLimit - ls.steps := by
  induction h with
  | stop => exact Nat.zero_le _
  | last hfit hfront _ =>
    rw [List.map_singleton, List.sum_singleton, hfront.length_eq]
    exact hfit
  | next hfit hfront _ hcarried _ ih =>
    rw [List.map_cons, List.sum_cons, hfront.length_eq]
    rw [hcarried.steps] at ih
    omega

/-- A super-step waits for its frontier, if that fits the budget. -/
theorem waits_superstep {first : Nat} {rest : List Nat} (hl : ls.frontier = first :: rest) :
    Appends waits (superstep g.nav ctx ls first rest)
      (fun r log => ls.frontier.length ≤ ctx.absoluteStepLimit - ls.steps ∧
        (∃ front, Front g ctx ls front ∧ Waits front log []) ∧
        ∀ ls', r = .inl ls' → Steady.Carried (fun _ => True) ls ls.frontier.length ls')
      fun _ log => log = [] ∨ ls.frontier.length ≤ ctx.absoluteStepLimit - ls.steps ∧
        ∃ front left, Front g ctx ls front ∧ Waits front log left := by
  have hsaves := unwaited_saves (E := E) (fun _ => True) fun _ _ _ => trivial
  unfold superstep
  refine appends_after (Steady.nodeAt stops_any g first) (fun _ _ => .inl rfl) fun firstNode _ => ?_
  rw [advance_eq, bind_assoc]
  refine appends_after (unwaited_steady.accept stops_any trivial fun _ _ => trivial)
    (fun _ _ => .inl rfl) fun admitted hadmitted => ?_
  obtain ⟨node, firstStep, superstep⟩ := admitted
  obtain ⟨-, -, hsuper, hfit⟩ := hadmitted
  rw [← hl] at hfit
  rw [bind_assoc]
  have hrun : Appends waits (runFrontier g.nav ctx ls first rest node.path firstStep)
      (fun _ log => ∃ front, Front g ctx ls front ∧ Waits front log [])
      fun _ log => log = [] ∨ ls.frontier.length ≤ ctx.absoluteStepLimit - ls.steps ∧
        ∃ front left, Front g ctx ls front ∧ Waits front log left :=
    appends_mono (waits_runFrontier hl) (fun _ _ h => h) fun _ _ h => h.imp id fun h => ⟨hfit, h⟩
  refine appends_before hrun fun outcome log hlog => ?_
  have hstopped : log = [] ∨ ls.frontier.length ≤ ctx.absoluteStepLimit - ls.steps ∧
      ∃ front left, Front g ctx ls front ∧ Waits front log left := by
    obtain ⟨front, hfront, hwaits⟩ := hlog
    exact .inr ⟨hfit, front, [], hfront, hwaits⟩
  refine within_bind (within_mono (unwaited_steady.follow stops_any outcome) (fun _ h => h)
    fun _ _ => hstopped) fun r hr => ?_
  cases r with
  | suspended request =>
    refine within_map (P := fun _ => True) ?_ fun report _ => ⟨hfit, hlog, nofun⟩
    exact within_mono (unwaited_steady.interruptRun stops_any hsaves trivial) (fun _ _ => trivial)
      fun _ _ => hstopped
  | committed state steps number next boundaries =>
    obtain ⟨hsteps, hnumber⟩ := hr state steps number next boundaries rfl
    refine within_map (within_mono (unwaited_steady.commit stops_any hsaves trivial)
      (fun _ h => h) fun _ _ => hstopped) fun ls' hls' => ⟨hfit, hlog, ?_⟩
    rintro _ ⟨⟩
    refine ⟨trivial, hls'.2.1, hls'.2.2.1.trans ?_, hls'.2.2.2.trans (hnumber.trans hsuper)⟩
    rw [hsteps, hl]

theorem waits_runLoop : ∀ {turns : Nat} {ls : LoopState E.watched Nat},
    Appends waits (runLoop g.nav ctx turns ls) (fun _ log => ∃ fronts, Rounds g ctx ls fronts log)
      fun _ log => ∃ fronts, Rounds g ctx ls fronts log
  | 0, ls => by
    have hthrow : Within (Unwaited (E := E))
        (throw .outOfFuel : M E.watched (LoopState E.watched Nat ⊕ InterruptReport E.watched))
        (fun _ => False) (fun _ => True) := within_throw trivial
    refine appends_mono hthrow.appends (fun _ _ h => h.2.elim) ?_
    rintro _ _ ⟨rfl, -⟩
    exact ⟨[], .stop⟩
  | turns + 1, ls => by
    unfold runLoop
    cases hl : ls.frontier with
    | nil => exact appends_pure ⟨[], .stop⟩
    | cons first rest =>
      have hstep : Appends waits (superstep g.nav ctx ls first rest)
          (fun r log => ls.frontier.length ≤ ctx.absoluteStepLimit - ls.steps ∧
            (∃ front, Front g ctx ls front ∧ Waits front log []) ∧
            ∀ ls', r = .inl ls' → Steady.Carried (fun _ => True) ls ls.frontier.length ls')
          fun _ log => ∃ fronts, Rounds g ctx ls fronts log := by
        refine appends_mono (waits_superstep hl) (fun _ _ h => h) ?_
        rintro _ _ (rfl | ⟨hfit, front, left, hfront, hwaits⟩)
        · exact ⟨[], .stop⟩
        · exact ⟨[front], .last hfit hfront hwaits⟩
      refine appends_bind hstep ?_
      rintro r log ⟨hfit, ⟨front, hfront, hwaits⟩, hcarried⟩
      cases r with
      | inr report =>
        refine appends_pure ⟨[front], ?_⟩
        rw [List.append_nil]
        exact .last hfit hfront hwaits
      | inl ls' =>
        refine appends_mono waits_runLoop ?_ ?_
        · rintro _ _ ⟨fronts, hrounds⟩
          exact ⟨front :: fronts, .next hfit hfront hwaits (hcarried ls' rfl) hrounds⟩
        · rintro _ _ ⟨fronts, hrounds⟩
          exact ⟨front :: fronts, .next hfit hfront hwaits (hcarried ls' rfl) hrounds⟩

/-- What a call that enters its loop so waits for. -/
structure Entering (g : CompiledGraph ν ρ) (m : Machine E) (call : Call E) (ctx : RunContext)
    (ls : LoopState E Nat) : Prop where
  landed : Landed g m call (ctx, ls)
  limit : ctx.absoluteStepLimit = min (ls.steps + ctx.maxSteps) usizeMax

/-- **What a call waits for**: nothing, if it does not enter its loop, or the rounds of its run. -/
theorem run_rounds (g : CompiledGraph ν ρ) (call : Call E.watched) (m : Machine E.watched) :
    ∃ log, waits (final (call.run g) m) = waits m ++ log ∧ (log = [] ∨ ∃ ctx ls fronts,
      Entering g m call ctx ls ∧ Rounds g ctx ls fronts log) := by
  have hsaves := unwaited_saves (E := E) (fun _ => True) fun _ _ _ => trivial
  rw [← wp_final (P := fun m' => ∃ log, waits m' = waits m ++ log ∧ (log = [] ∨ ∃ ctx ls fronts,
      Entering g m call ctx ls ∧ Rounds g ctx ls fronts log)), Call.run_eq, wp_bind]
  refine wp_mono (unwaited_steady.enter unwaited_creates hsaves call) (fun p m₁ hp => ?_)
    fun e m₁ h => ⟨[], by rw [List.append_nil]; exact h.2, .inl rfl⟩
  obtain ⟨ctx, ls⟩ := p
  obtain ⟨⟨hlanded, hlimit⟩, hm₁⟩ := hp
  have hm₁ : waits m₁ = waits m := hm₁
  have hrest : Appends waits (do
      let ended ← runLoop g.nav ctx (ctx.maxSteps + 1) ls
      let outcome ← leaveLoop ctx ended
      call.conclude outcome) (fun _ log => ∃ fronts, Rounds g ctx ls fronts log)
      fun _ log => ∃ fronts, Rounds g ctx ls fronts log := by
    refine appends_before waits_runLoop fun ended log hlog => ?_
    refine within_mono (P := fun _ => True) (S := fun _ => True) ?_ (fun _ _ => hlog) fun _ _ => hlog
    refine within_bind (unwaited_steady.leaveLoop stops_any ended) fun outcome _ => ?_
    unfold Call.conclude
    split
    · exact within_throw trivial
    · exact within_throw trivial
    · exact within_pure trivial
  refine wp_mono (hrest m₁) ?_ ?_
  · rintro _ m₂ ⟨log, hlog, fronts, hrounds⟩
    exact ⟨log, by rw [hlog, hm₁], .inr ⟨ctx, ls, fronts, ⟨hlanded, hlimit⟩, hrounds⟩⟩
  · rintro _ m₂ ⟨log, hlog, fronts, hrounds⟩
    exact ⟨log, by rw [hlog, hm₁], .inr ⟨ctx, ls, fronts, ⟨hlanded, hlimit⟩, hrounds⟩⟩

end Watched

end GroupAgent.Core
