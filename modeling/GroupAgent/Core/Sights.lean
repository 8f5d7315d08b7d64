import GroupAgent.Lib.Guard
import GroupAgent.Core.Openings
import GroupAgent.Core.Backed

/-!
# What a run sees of its controls

The environment with a log of what the runtime sees of its controls: the cancellation token, the
clock, and how its races end (`ActiveControl::check`, `runtime.rs:2283-2297`, `execute_node`
2129-2181 and `await_run_boundary` 2366-2391).

* `Env.sighted`: the environment with its log. A sight is what was looked at and what was found.
* `InForce`: the deadline the runtime races against is the earlier of the two, the run's on a tie.
* `Clear`: sights after which a run goes on. `Alarm`: a cancellation or a deadline found, with the
  error that it gives.
* `Guarded`: a computation adds clear sights, and stops at the first alarm. Every part of a run
  does.

Results: **`run_sights`**: a call sees the clock, and after that clear sights for the deadline of
its run. Only when it stops may it have seen an alarm, as the last thing, and then its error is the
alarm's.

A race that the work wins is a clear sight here, whatever the token or the clock held by then. In
which order a race is decided is the matter of `Deadlines`.
-/

namespace GroupAgent.Core

open GroupAgent.Lib

variable {ν ρ : Type}

/-! ## The deadline in force -/

/-- The deadline in force out of those of the run and the node: the earlier, the run's on a tie. -/
inductive InForce (run node : Option (Duration × Instant)) : Option ActiveDeadline → Prop where
  | none (hrun : run = none) (hnode : node = none) : InForce run node none
  | run {timeout : Duration} {deadline : Instant} (hrun : run = some (timeout, deadline))
      (hnode : ∀ other ∈ node, deadline ≤ other.2) : InForce run node (some (.run timeout deadline))
  | node {timeout : Duration} {deadline : Instant} (hnode : node = some (timeout, deadline))
      (hrun : ∀ other ∈ run, deadline < other.2) : InForce run node (some (.node timeout deadline))

theorem inForce_deadline (c : ActiveControl) (node : Option (Duration × Instant)) :
    InForce c.run node (c.deadline node) := by
  unfold ActiveControl.deadline
  match hrun : c.run, node with
  | none, none => exact .none rfl rfl
  | some (timeout, deadline), none => exact .run rfl (by simp)
  | none, some (timeout, deadline) => exact .node rfl (by simp)
  | some (runTimeout, run), some (nodeTimeout, node) =>
    by_cases h : run ≤ node
    · simp only [h, if_true]
      exact .run rfl (by simpa using h)
    · simp only [h, if_false]
      exact .node rfl (by simpa using h)

/-- Before the deadline in force it is before that of the run. -/
theorem InForce.before {run node : Option (Duration × Instant)} {passed : ActiveDeadline}
    (h : InForce run node (some passed)) {now : Instant} (hnow : now < passed.instant) :
    ∀ other ∈ run, now < other.2 := by
  cases h with
  | run hrun _ =>
    subst hrun
    rintro _ ⟨⟩
    exact hnow
  | node _ hrun => exact fun other hother => Nat.lt_trans hnow (hrun other hother)

/-! ## Sights -/

/-- Something that a run sees of its controls. -/
inductive Sight where
  | token (cancelled : Bool)
  | clock (now : Instant)
  /-- A race is lost to the token. -/
  | cancelled
  /-- A race is lost to a deadline. -/
  | elapsed (passed : ActiveDeadline)
  /-- A race is won. -/
  | won
  deriving DecidableEq, Repr

def Raced.sight {deadline : Option ActiveDeadline} {α : Type} : Raced deadline α → Sight
  | .cancelled => .cancelled
  | .elapsed passed _ => .elapsed passed
  | .ready _ => .won

/-- A future whose races are seen. -/
def Future.sighting {W α : Type} (future : Future W α) : Future (W × List Sight) α where
  await w := ((future.await w.1).1, ((future.await w.1).2, w.2))
  select deadline w :=
    ((future.select deadline w.1).1,
      ((future.select deadline w.1).2, w.2 ++ [(future.select deadline w.1).1.sight]))

/-- The environment with the log of what is seen of the controls. -/
abbrev Env.sighted (E : Env ν ρ) : Env ν ρ :=
  { E.beside (List Sight) with
    now := fun w => ((E.now w.1).1, ((E.now w.1).2, w.2 ++ [.clock (E.now w.1).1]))
    isCancelled := fun w =>
      ((E.isCancelled w.1).1, ((E.isCancelled w.1).2, w.2 ++ [.token (E.isCancelled w.1).1]))
    run := fun a => (E.run a).sighting
    nextReady := fun pending h w =>
      let r := E.nextReady pending h w.1
      (r.1, (r.2, w.2 ++ [r.1.2.sight]))
    preempted := fun deadline w =>
      let r := E.preempted deadline w.1
      (r.1, (r.2, w.2 ++ (r.1.map Raced.sight).toList))
    save := fun branchId request => (E.save branchId request).sighting
    latest := fun threadId => (E.latest threadId).sighting
    get := fun threadId checkpointId => (E.get threadId checkpointId).sighting
    branchHead := fun threadId branchId => (E.branchHead threadId branchId).sighting
    createBranch := fun threadId branchId source => (E.createBranch threadId branchId source).sighting }

/-- Sights after which a run with the deadline goes on. A look at the token that finds nothing comes
with one at the clock where there is a deadline. -/
inductive Clear (run : Option (Duration × Instant)) : List Sight → Prop where
  | nil : Clear run []
  | token {log : List Sight} (hrun : run = none) (h : Clear run log) :
      Clear run (.token false :: log)
  | check {now : Instant} {log : List Sight} (hnow : ∀ other ∈ run, now < other.2)
      (h : Clear run log) : Clear run (.token false :: .clock now :: log)
  | started {now : Instant} {log : List Sight} (h : Clear run log) : Clear run (.clock now :: log)
  | won {log : List Sight} (h : Clear run log) : Clear run (.won :: log)

/-- A cancellation found, or a deadline that is in force, and the error it gives. The token is looked
at first, and the clock only when nothing is found. -/
inductive Alarm (run : Option (Duration × Instant)) : Stop → List Sight → Prop where
  | token {runId : RunId} {nodeId : Option NodePath} {step : Nat} :
      Alarm run (.error (.cancelled runId nodeId step)) [.token true]
  | raceCancelled {runId : RunId} {nodeId : Option NodePath} {step : Nat} :
      Alarm run (.error (.cancelled runId nodeId step)) [.cancelled]
  | runPassed {runId : RunId} {nodeId : Option NodePath} {step : Nat} {timeout : Duration}
      {deadline now : Instant} (hrun : run = some (timeout, deadline)) (hnow : deadline ≤ now) :
      Alarm run (.error (.runTimedOut runId timeout nodeId step)) [.token false, .clock now]
  | nodePassed {runId : RunId} {nodeId : NodePath} {step : Nat} {timeout : Duration}
      {deadline now : Instant} (hrun : ∀ other ∈ run, deadline < other.2) (hnow : deadline ≤ now) :
      Alarm run (.error (.nodeTimedOut runId timeout nodeId step)) [.token false, .clock now]
  | runElapsed {runId : RunId} {nodeId : Option NodePath} {step : Nat} {timeout : Duration}
      {deadline : Instant} (hrun : run = some (timeout, deadline)) :
      Alarm run (.error (.runTimedOut runId timeout nodeId step)) [.elapsed (.run timeout deadline)]
  | nodeElapsed {runId : RunId} {nodeId : NodePath} {step : Nat} {timeout : Duration}
      {deadline : Instant} (hrun : ∀ other ∈ run, deadline < other.2) :
      Alarm run (.error (.nodeTimedOut runId timeout nodeId step)) [.elapsed (.node timeout deadline)]

theorem goes_clear (run : Option (Duration × Instant)) : Goes (Clear run) where
  nil := .nil
  append u v hu hv := by
    induction hu with
    | nil => exact hv
    | token hrun _ ih => exact .token hrun ih
    | check hnow _ ih => exact .check hnow ih
    | started _ ih => exact .started ih
    | won _ ih => exact .won ih

section Sighted

variable {E : Env ν ρ}

/-- What is seen so far. -/
abbrev sights (m : Machine E.sighted) : List Sight := m.world.2

/-- Nothing is seen. -/
abbrev Unseeing : Machine E.sighted → Machine E.sighted → Prop := SameView sights

theorem unseeing_calm : Calm (Unseeing (E := E)) where
  step m w h := by
    show w.2 = m.world.2
    cases h <;> rfl
  events _ _ := rfl

/-- The computation adds clear sights, and stops at the first alarm. -/
abbrev Guarded (run : Option (Duration × Instant)) {α : Type} (x : M E.sighted α) (P : α → Prop) : Prop :=
  Guards sights (Clear run) (Alarm run) x P

/-! ## Rules -/

variable {run : Option (Duration × Instant)} {α β : Type}

theorem guarded_within {x : M E.sighted α} {P : α → Prop} {S : Stop → Prop} (h : Within Unseeing x P S) :
    Guarded run x P := h.guards (goes_clear run)

theorem guarded_pure {a : α} {P : α → Prop} (h : P a) : Guarded run (pure a : M E.sighted α) P :=
  guards_pure (goes_clear run) h

theorem guarded_bind {x : M E.sighted α} {f : α → M E.sighted β} {P : α → Prop} {Q : β → Prop}
    (hx : Guarded run x P) (hf : ∀ a, P a → Guarded run (f a) Q) : Guarded run (x >>= f) Q :=
  guards_bind (goes_clear run) hx hf

theorem guarded_seq {x : M E.sighted α} {y : M E.sighted β} {Q : β → Prop}
    (hx : Guarded run x fun _ => True) (hy : Guarded run y Q) : Guarded run (x >>= fun _ => y) Q :=
  guards_seq (goes_clear run) hx hy

theorem guarded_emit (config : EventConfig) (event : GraphEvent) :
    Guarded run (emit config event : M E.sighted Unit) fun _ => True :=
  guarded_within (S := fun _ => True) (unseeing_calm.emit config event)

theorem guarded_fail (ctx : RunContext) (error : GraphRunError) {P : α → Prop} :
    Guarded run (fail ctx error : M E.sighted α) P :=
  guarded_within (S := fun _ => True) (unseeing_calm.fail ctx trivial)

theorem guarded_orFail (ctx : RunContext) (r : Except GraphRunError α) :
    Guarded run (orFail ctx r : M E.sighted α) fun _ => True :=
  guarded_within (S := fun _ => True) (unseeing_calm.orFail ctx (fun _ _ => trivial) fun _ _ => trivial)

theorem guarded_nodeAt (g : CompiledGraph ν ρ) (index : Nat) :
    Guarded run (g.nodeAt index : M E.sighted (CompiledNode ν ρ Nat)) fun _ => True :=
  guarded_within (within_mono (Steady.nodeAt stops_any g index) (fun _ _ => trivial) fun _ h => h)

theorem guarded_pathsOf (g : CompiledGraph ν ρ) (frontier : List Nat) :
    Guarded run (pathsOf g.nav frontier : M E.sighted (List NodePath)) fun _ => True :=
  guarded_within (within_mono (Steady.pathsOf stops_any g frontier) (fun _ _ => trivial) fun _ h => h)

theorem guarded_usizeAdd (a b : Nat) :
    Guarded run (usizeAdd a b : M E.sighted Nat) fun _ => True :=
  guarded_within (within_mono (Steady.usizeAdd fun _ => trivial) (fun _ _ => trivial)
    fun _ (h : True) => h)

/-! ## Control points -/

variable {ctx : RunContext}

/-- The error of a deadline in force is its alarm, wherever it is found to have passed. -/
theorem deadlineError_alarm {node : Option (Duration × Instant)} {passed : ActiveDeadline}
    (h : InForce run node (some passed)) {runId : RunId} {nodeId : Option NodePath} {step : Nat}
    (hb : Blames nodeId (some passed)) {S : Stop → Prop} :
    Within Unseeing (ActiveControl.deadlineError runId nodeId step passed : M E.sighted GraphRunError)
      (fun error => Alarm run (.error error) [.elapsed passed] ∧
        ∀ now, passed.instant ≤ now → Alarm run (.error error) [.token false, .clock now]) S := by
  unfold ActiveControl.deadlineError
  cases h with
  | run hrun _ => exact within_pure ⟨.runElapsed hrun, fun now hnow => .runPassed hrun hnow⟩
  | node _ hrun =>
    cases nodeId with
    | none => exact absurd rfl (hb _ _ rfl)
    | some path => exact within_pure ⟨.nodeElapsed hrun, fun now hnow => .nodePassed hrun hnow⟩

/-- A look at the controls finds nothing, or the error of an alarm. -/
theorem appends_check {node : Option (Duration × Instant)} {active : Option ActiveDeadline}
    (h : InForce run node active) {runId : RunId} {nodeId : Option NodePath} {step : Nat}
    (hb : Blames nodeId active) {S : Stop → List Sight → Prop} :
    Appends sights (ActiveControl.check runId nodeId step active : M E.sighted (Option GraphRunError))
      (fun found log => match found with
        | none => Clear run log
        | some error => Alarm run (.error error) log) S := by
  unfold ActiveControl.check
  refine appends_bind (P := fun cancelled log => log = [.token cancelled])
    (fun m => ⟨_, rfl, rfl⟩) ?_
  rintro cancelled _ rfl
  cases cancelled with
  | true => exact appends_pure .token
  | false =>
    simp only [Bool.false_eq_true, if_false]
    cases active with
    | none =>
      cases h with
      | none hrun _ => exact appends_pure (.token hrun .nil)
    | some passed =>
      refine appends_bind (P := fun now log => log = [.clock now]) (fun m => ⟨_, rfl, rfl⟩) ?_
      rintro now _ rfl
      by_cases hnow : passed.instant ≤ now
      · simp only [hnow, if_true]
        refine appends_map (P := fun error log =>
          log = [] ∧ Alarm run (.error error) [.token false, .clock now]) ?_ ?_
        · refine appends_mono (deadlineError_alarm h hb (S := fun _ => False)).appends ?_ ?_
          · exact fun error _ herror => ⟨herror.1, herror.2.2 now hnow⟩
          · exact fun _ _ h => h.2.elim
        · rintro error _ ⟨rfl, halarm⟩
          exact halarm
      · simp only [hnow, if_false]
        exact appends_pure (.check (h.before (Nat.lt_of_not_le hnow)) .nil)

theorem guarded_control {node : Option (Duration × Instant)} {active : Option ActiveDeadline}
    (h : InForce run node active) {nodeId : Option NodePath} {step : Nat}
    (hb : Blames nodeId active) :
    Guarded run (control ctx nodeId step active : M E.sighted Unit) fun _ => True := by
  unfold control
  refine appends_before (appends_check h hb) fun found log hlog => ?_
  cases found with
  | none => exact within_pure ⟨hlog, trivial⟩
  | some error => exact unseeing_calm.fail ctx (.inr ⟨[], log, rfl, .nil, hlog⟩)

theorem guarded_controlRun (nodeId : Option NodePath) (step : Nat) :
    Guarded ctx.control.run (controlRun ctx nodeId step : M E.sighted Unit) fun _ => True :=
  guarded_control (inForce_deadline ctx.control none) (blames_run ctx.control nodeId)

/-! ## Executing nodes -/

section Execute

variable {g : CompiledGraph ν ρ} {ls : LoopState E.sighted Nat}

theorem guarded_startNode (index : Nat) (node : CompiledNode ν ρ Nat) (step : Nat) :
    Guarded ctx.control.run (startNode ctx ls index node step) fun _ => True := by
  unfold startNode
  refine guarded_seq (guarded_controlRun _ _) ?_
  refine guarded_bind (P := fun _ => True) ?_ fun now _ => ?_
  · exact fun m => ⟨_, rfl, .started .nil, trivial⟩
  refine guarded_bind (guarded_within (Steady.deadlineFrom (S := fun _ => True) fun _ => trivial))
    fun deadline _ => ?_
  refine guarded_seq (guarded_emit _ _) ?_
  refine guarded_seq (guarded_control (inForce_deadline ctx.control deadline) (blames_some _ _)) ?_
  exact guarded_pure trivial

/-- An answer does not settle the node: the controls are looked at first. -/
theorem guarded_ready (active : Option ActiveDeadline) {nodeId : NodePath} {step : Nat}
    {kind : NodeKind ν} (answer : kind.Answer E.Update E.Value) :
    Guarded ctx.control.run (executeNode.finishNode (E := E.sighted) ctx nodeId step kind
      (.ready answer : Raced active (kind.Answer E.Update E.Value))) fun _ => True := by
  unfold executeNode.finishNode
  refine guarded_seq (guarded_controlRun _ _) ?_
  split
  · exact guarded_fail _ _
  · exact guarded_pure trivial

/-- A race that is lost stops the node with the error of its alarm. -/
theorem finishNode_after {node : Option (Duration × Instant)} {active : Option ActiveDeadline}
    (h : InForce ctx.control.run node active) {nodeId : NodePath} {step : Nat} {kind : NodeKind ν}
    (answer : Raced active (kind.Answer E.Update E.Value)) :
    Appends sights (executeNode.finishNode (E := E.sighted) ctx nodeId step kind answer)
      (fun _ log => Clear ctx.control.run (answer.sight :: log))
      fun e log => Halts (Clear ctx.control.run) (Alarm ctx.control.run) e (answer.sight :: log) := by
  unfold executeNode.finishNode
  cases answer with
  | cancelled =>
    have hfail := unseeing_calm (E := E).fail (α := NodeOutcome E.Update E.Value) ctx
      (S := fun e => e = .error (.cancelled ctx.runId (some nodeId) step)) (Q := fun _ => False) rfl
    refine appends_mono hfail.appends (fun _ _ h => h.2.elim) ?_
    rintro _ _ ⟨rfl, rfl⟩
    exact .inr ⟨[], _, rfl, .nil, .raceCancelled⟩
  | elapsed passed hpassed =>
    have hpassed : InForce ctx.control.run node (some passed) := hpassed ▸ h
    refine appends_after (deadlineError_alarm hpassed (blames_some nodeId _) (S := fun _ => False))
      nofun fun error herror => ?_
    have hfail := unseeing_calm (E := E).fail (α := NodeOutcome E.Update E.Value) ctx
      (S := fun e => e = .error error) (Q := fun _ => False) rfl
    refine appends_mono hfail.appends (fun _ _ h => h.2.elim) ?_
    rintro _ _ ⟨rfl, rfl⟩
    exact .inr ⟨[], _, rfl, .nil, herror.1⟩
  | ready answer =>
    refine appends_mono (guarded_ready active answer) (fun _ _ h => .won h.1) ?_
    exact fun _ _ h => h.after (goes_clear _) (.won .nil)

theorem guarded_executeNode (a : NodeAttempt ν E.State E.Value)
    (nodeDeadline : Option (Duration × Instant)) :
    Guarded ctx.control.run (executeNode (E := E.sighted) ctx a nodeDeadline) fun _ => True := by
  have hforce := inForce_deadline ctx.control nodeDeadline
  unfold executeNode
  refine guarded_seq (guarded_control hforce (blames_some _ _)) ?_
  unfold executeNode.awaitNode
  split
  · have hrun : Guarded (E := E) ctx.control.run (ask (E.sighted.run a).await) fun _ => True :=
      fun m => ⟨[], (List.append_nil _).symm, .nil, trivial⟩
    refine guarded_bind (P := fun r => ∃ answer, r = .ready answer) ?_ ?_
    · exact guards_map hrun fun answer _ => ⟨answer, rfl⟩
    · rintro _ ⟨answer, rfl⟩
      exact guarded_ready (E := E) _ answer
  · refine appends_bind (P := fun r log => log = [r.sight]) (fun m => ⟨_, rfl, rfl⟩) ?_
    rintro answer _ rfl
    exact appends_mono (finishNode_after (E := E) hforce answer) (fun _ _ h => ⟨h, trivial⟩)
      fun _ _ h => h

theorem guarded_runSingle {first : Nat} {firstNode : NodePath} {firstStep : Nat} :
    Guarded ctx.control.run (runSingle g.nav ctx ls first firstNode firstStep) fun _ => True := by
  unfold runSingle
  refine guarded_bind (guarded_nodeAt g first) fun node _ => ?_
  refine guarded_bind (guarded_startNode first node firstStep) fun started _ => ?_
  refine guarded_bind (guarded_executeNode _ _) fun outcome _ => ?_
  cases outcome with
  | interrupt request => exact guarded_pure trivial
  | update update =>
    refine guarded_seq (guarded_emit _ _) ?_
    refine guarded_seq (guarded_controlRun _ _) ?_
    refine guarded_seq (guarded_controlRun _ _) ?_
    split
    · exact guarded_fail _ _
    · exact guarded_pure trivial

/-- The deadline of an attempt is in force. -/
def Timed (ctx : RunContext) (a : ParallelAttempt ν E.State E.Value) : Prop :=
  ∃ node, InForce ctx.control.run node a.deadline

theorem guarded_startAll : ∀ {offset : Nat} {frontier : List Nat},
    Guarded ctx.control.run (startAll g.nav ctx ls offset frontier) fun attempts =>
      ∀ a ∈ attempts, Timed ctx a
  | _, [] => guarded_pure nofun
  | offset, index :: frontier => by
    unfold startAll
    refine guarded_bind (guarded_nodeAt g index) fun node _ => ?_
    refine guarded_bind (guarded_startNode index node _) fun started _ => ?_
    refine guarded_bind guarded_startAll fun rest hrest => guarded_pure ?_
    rintro a ha
    rcases List.mem_cons.mp ha with rfl | ha
    · exact ⟨_, inForce_deadline ctx.control _⟩
    · exact hrest a ha

theorem guarded_awaitAll {checkpoints : RuntimeCheckpoint} : ∀ {count : Nat}
    {pending : List (ParallelAttempt ν E.State E.Value)} {slots : List (Option E.Update)},
    (∀ a ∈ pending, Timed ctx a) →
    Guarded ctx.control.run (awaitAll (E := E.sighted) ctx checkpoints count pending slots) fun _ => True
  | 0, _, _, _ => guarded_pure trivial
  | count + 1, pending, slots, h => by
    unfold awaitAll
    split
    · rename_i hne
      refine appends_bind (P := fun r log => log = [r.2.sight]) (fun m => ⟨_, rfl, rfl⟩) ?_
      rintro ⟨i, answer⟩ _ rfl
      obtain ⟨node, hforce⟩ := h _ (List.get_mem pending i)
      refine appends_bind (finishNode_after (E := E) hforce answer) fun outcome log hlog => ?_
      refine guards_after (goes_clear _) hlog ?_
      cases outcome with
      | interrupt request =>
        refine guarded_seq (guarded_emit _ _) ?_
        cases checkpoints <;> exact guarded_fail _ _
      | update update =>
        refine guarded_seq (guarded_emit _ _) ?_
        refine guarded_seq (guarded_controlRun _ _) ?_
        exact guarded_awaitAll fun a ha => h a (List.mem_of_mem_eraseIdx ha)
    · exact guarded_pure trivial

theorem guarded_runFrontier {first : Nat} {rest : List Nat} {firstNode : NodePath} {firstStep : Nat} :
    Guarded ctx.control.run (runFrontier g.nav ctx ls first rest firstNode firstStep) fun _ => True := by
  unfold runFrontier
  cases rest with
  | nil => exact guarded_runSingle
  | cons second rest =>
    refine guards_map (P := fun _ => True) ?_ fun _ _ => trivial
    unfold runParallel
    refine guarded_bind guarded_startAll fun attempts hattempts => ?_
    refine guarded_bind (guarded_awaitAll hattempts) fun slots _ => ?_
    refine guarded_seq (guarded_controlRun _ _) ?_
    refine guarded_bind (guarded_pathsOf g _) fun nodeIds _ => ?_
    refine guarded_bind (guarded_within (Steady.zipUpdates stops_any)) fun batch _ => ?_
    split
    · exact guarded_fail _ _
    · exact guarded_pure trivial

end Execute

/-! ## Super-steps -/

section Superstep

variable {g : CompiledGraph ν ρ} {ls : LoopState E.sighted Nat}

theorem guarded_accept {first : Nat} {rest : List Nat} :
    Guarded ctx.control.run (g.accept ctx ls first rest) fun _ => True := by
  unfold CompiledGraph.accept
  refine guarded_bind (guarded_nodeAt g first) fun firstNode _ => ?_
  refine guarded_bind (guarded_usizeAdd _ _) fun firstStep _ => ?_
  refine guarded_seq (guarded_controlRun _ _) ?_
  refine guarded_seq ?_ ?_
  · unfold enforceBudget
    simp only
    split
    · exact guarded_pure trivial
    · refine guarded_bind (guarded_nodeAt g _) fun node _ => ?_
      exact guarded_bind (guarded_usizeAdd _ _) fun step _ => guarded_fail _ _
  refine guarded_bind (guarded_usizeAdd _ _) fun superstep _ => ?_
  refine guarded_seq (guarded_within (S := fun _ => True) (unseeing_calm.emitIf ?_)) (guarded_pure trivial)
  exact within_map (Steady.pathsOf stops_any g _) fun _ _ => trivial

theorem guarded_reportUpdates : ∀ {step : Nat} {frontier : List Nat},
    Guarded ctx.control.run (reportUpdates g.nav ctx step frontier : M E.sighted Unit) fun _ => True
  | _, [] => guarded_pure trivial
  | step, index :: frontier => by
    unfold reportUpdates
    refine guarded_bind (guarded_nodeAt g index) fun node _ => ?_
    refine guarded_seq (guarded_emit _ _) ?_
    exact guarded_seq (guarded_controlRun _ _) guarded_reportUpdates

theorem guarded_routeAll {state : E.State} : ∀ {step : Nat} {frontier : List Nat},
    Guarded ctx.control.run (routeAll (E := E.sighted) g.nav ctx state step frontier) fun _ => True
  | _, [] => guarded_pure trivial
  | step, index :: frontier => by
    unfold routeAll
    refine guarded_bind (guarded_nodeAt g index) fun node _ => ?_
    refine guarded_bind (guarded_within (unseeing_calm.resolveTransition stops_any)) fun targets _ => ?_
    refine guarded_seq (guarded_controlRun _ _) ?_
    exact guarded_bind guarded_routeAll fun rest _ => guarded_pure trivial

theorem guarded_follow {frontier : List Nat} {firstNode : CompiledNode ν ρ Nat}
    {firstStep superstep : Nat} (outcome : E.State ⊕ InterruptRequest E.Value) :
    Guarded ctx.control.run
      (g.follow (E := E.sighted) ctx ls frontier firstNode firstStep superstep outcome) fun _ => True := by
  cases outcome with
  | inr request => exact guarded_pure trivial
  | inl state =>
    unfold CompiledGraph.follow
    refine guarded_seq guarded_reportUpdates ?_
    refine guarded_bind guarded_routeAll fun targets _ => ?_
    refine guarded_bind (guarded_within (unseeing_calm.normalizeFrontier stops_any)) fun next _ => ?_
    exact guarded_pure trivial

/-- How a race of the checkpointer shows: as it ends, or not at all when nothing is called. -/
def Shows {deadline : Option ActiveDeadline} {α : Type} (r : Raced deadline α) (log : List Sight) :
    Prop :=
  log = [r.sight] ∨ ∃ answer, r = .ready answer ∧ log = []

section Call

variable {α β γ : Type} {start : M E.sighted (Except GraphRunError γ)}
  (future : γ → Future E.World β) {note : γ → Option β → M E.sighted Unit}
  {finish : γ → β → Except GraphRunError α}
  (hstart : Within Unseeing start (fun _ => True) fun _ => False)
  (hnote : ∀ c answer, Within Unseeing (note c answer) (fun _ => True) fun _ => False)

include hstart hnote

theorem shows_select (active : Option ActiveDeadline) :
    Appends sights ((Task.call start (fun c => (future c).sighting) note finish).select active)
      Shows fun _ _ => False := by
  unfold Task.call
  refine appends_bind (P := fun r log => log = (r.map Raced.sight).toList) (fun m => ⟨_, rfl, rfl⟩) ?_
  rintro r _ rfl
  match r with
  | some .cancelled => exact appends_pure (.inl rfl)
  | some (.elapsed passed h) => exact appends_pure (.inl rfl)
  | none =>
    refine appends_after hstart (fun _ h => h) fun c _ => ?_
    cases c with
    | error error => exact appends_pure (.inr ⟨_, rfl, rfl⟩)
    | ok c =>
      refine appends_bind (P := fun r log => log = [r.sight]) (fun m => ⟨_, rfl, rfl⟩) ?_
      rintro answer _ rfl
      cases answer with
      | cancelled => exact appends_after (hnote c none) (fun _ h => h) fun _ _ => appends_pure (.inl rfl)
      | elapsed passed h =>
        exact appends_after (hnote c none) (fun _ h => h) fun _ _ => appends_pure (.inl rfl)
      | ready answer =>
        exact appends_after (hnote c (some answer)) (fun _ h => h) fun _ _ => appends_pure (.inl rfl)

/-- A call of the checkpointer races against the controls, unless they are off. -/
theorem guarded_awaitCall {step : Nat} :
    Guarded ctx.control.run (awaitRunBoundary ctx step
      (Task.call start (fun c => (future c).sighting) note finish) >>= orFail ctx) fun _ => True := by
  have hawait : Appends sights (awaitRunBoundary ctx step
      (Task.call start (fun c => (future c).sighting) note finish)) (fun r log =>
        Clear ctx.control.run log ∨ ∃ error, r = .error error ∧ Alarm ctx.control.run (.error error) log)
      fun _ _ => False := by
    unfold awaitRunBoundary
    split
    · have htask : Within Unseeing (Task.call start (fun c => (future c).sighting) note finish).await
          (fun _ => True) fun _ => False := by
        refine within_bind hstart fun c _ => ?_
        cases c with
        | error error => exact within_pure trivial
        | ok c =>
          refine within_bind (P := fun _ => True) (fun m => ⟨trivial, rfl⟩) fun answer _ => ?_
          exact within_seq (hnote c _) (within_pure trivial)
      refine appends_mono htask.appends ?_ fun _ _ h => h.2
      rintro _ _ ⟨rfl, -⟩
      exact .inl .nil
    · refine appends_bind (shows_select future hstart hnote _) fun r log hshows => ?_
      have hforce := inForce_deadline ctx.control none
      cases r with
      | cancelled =>
        rcases hshows with rfl | ⟨_, hr, -⟩
        · exact appends_pure (.inr ⟨_, rfl, .raceCancelled⟩)
        · cases hr
      | elapsed passed h =>
        rcases hshows with rfl | ⟨_, hr, -⟩
        · have hpassed : InForce ctx.control.run none (some passed) := h ▸ hforce
          have hb : Blames none (some passed) := h ▸ blames_run ctx.control none
          refine appends_after (deadlineError_alarm hpassed hb (S := fun _ => False)) (fun _ h => h)
            fun error herror => appends_pure (.inr ⟨_, rfl, ?_⟩)
          rw [List.append_nil]
          exact herror.1
        · cases hr
      | ready result =>
        refine appends_pure (.inl ?_)
        rw [List.append_nil]
        rcases hshows with rfl | ⟨_, -, rfl⟩
        · exact .won .nil
        · exact .nil
  refine appends_bind (appends_mono hawait (fun _ _ h => h) fun _ _ h => h.elim) ?_
  rintro r log (hclear | ⟨error, rfl, halarm⟩)
  · exact guards_after (goes_clear _) hclear (guarded_orFail _ _)
  · have hfail := unseeing_calm (E := E).fail (α := α) ctx
      (S := fun e => e = .error error) (Q := fun _ => False) rfl
    refine appends_mono hfail.appends (fun _ _ h => h.2.elim) ?_
    rintro _ _ ⟨rfl, rfl⟩
    rw [List.append_nil]
    exact .inr ⟨[], _, rfl, .nil, halarm⟩

end Call

theorem guarded_saveBoundary {c : RuntimeCheckpoint} {state : E.State}
    {boundary : CheckpointBoundary E.Value} :
    Guarded ctx.control.run (saveBoundary (E := E.sighted) ctx c state boundary) fun _ => True := by
  unfold saveBoundary
  cases c with
  | disabled => exact guarded_within (within_throw (S := fun _ => True) trivial)
  | readOnlyReplay _ _ => exact guarded_within (within_throw (S := fun _ => True) trivial)
  | enabled c =>
    have hrequest : Within Unseeing (c.request (E := E.sighted) ctx.runId state boundary)
        (fun _ => True) fun _ => False := by
      unfold EnabledCheckpoint.request
      split
      · exact within_pure trivial
      · exact within_bind (unseeing_calm.ask .nextCheckpointId) fun _ _ => within_pure trivial
    have hnote : ∀ request answer, Within Unseeing
        (record (E := E.sighted) (.save c.branchId request answer)) (fun _ => True) fun _ => False :=
      fun _ _ => within_modify fun _ => rfl
    have hsave : Guarded (E := E) ctx.control.run (awaitRunBoundary ctx boundary.step
        (c.save (E := E.sighted) ctx.runId state boundary) >>= orFail ctx) fun _ => True :=
      guarded_awaitCall (E.save c.branchId) hrequest hnote
    simp only
    rw [← bind_assoc]
    refine guarded_bind hsave fun r _ => ?_
    exact guarded_seq (guarded_emit _ _) (guarded_pure trivial)

theorem guarded_interruptRun {nodePath : NodePath} {request : InterruptRequest E.Value}
    {step superstep : Nat} :
    Guarded ctx.control.run (interruptRun ctx ls nodePath request step superstep) fun _ => True := by
  unfold interruptRun
  refine guarded_seq (guarded_emit _ _) ?_
  split
  · exact guarded_fail _ _
  · refine guarded_bind guarded_saveBoundary fun saved _ => ?_
    refine guarded_seq (guarded_controlRun _ _) ?_
    refine guarded_seq (guarded_emit _ _) ?_
    exact guarded_bind (guarded_within (within_get (S := fun _ => True))) fun _ _ => guarded_pure trivial

theorem guarded_commit {firstNode : NodePath} {state : E.State} {steps superstep : Nat}
    {next : List Nat} {boundaries : List SubgraphBoundary} :
    Guarded ctx.control.run (commit g.nav ctx ls firstNode state steps superstep next boundaries)
      fun _ => True := by
  unfold commit
  refine guarded_bind (P := fun _ => True) ?_ fun checkpoints _ => ?_
  · unfold saveCommitted
    split
    · refine guarded_bind (guarded_pathsOf g next) fun paths _ => ?_
      refine guarded_bind guarded_saveBoundary fun saved _ => ?_
      exact guarded_seq (guarded_controlRun _ _) (guarded_pure trivial)
    · exact guarded_pure trivial
  · unfold moveOn
    refine guarded_seq (guarded_within (S := fun _ => True)
      (within_forM fun _ _ => unseeing_calm.emit _ _)) ?_
    refine guarded_seq (guarded_within (S := fun _ => True)
      (unseeing_calm.emitIf (within_pure trivial))) ?_
    refine guarded_seq (guarded_controlRun _ _) ?_
    exact guarded_bind (guarded_pathsOf g _) fun nodeIds _ => guarded_pure trivial

/-- **A super-step** stops at the first alarm. -/
theorem guarded_superstep {first : Nat} {rest : List Nat} :
    Guarded ctx.control.run (superstep g.nav ctx ls first rest) fun _ => True := by
  unfold superstep
  refine guarded_bind (guarded_nodeAt g first) fun firstNode _ => ?_
  rw [advance_eq, bind_assoc]
  refine guarded_bind guarded_accept fun admitted _ => ?_
  rw [bind_assoc]
  refine guarded_bind guarded_runFrontier fun outcome _ => ?_
  refine guarded_bind (guarded_follow (E := E) outcome) fun r _ => ?_
  cases r with
  | suspended request => exact guards_map guarded_interruptRun fun _ _ => trivial
  | committed state steps number next boundaries => exact guards_map guarded_commit fun _ _ => trivial

theorem guarded_runLoop : ∀ {turns : Nat} {ls : LoopState E.sighted Nat},
    Guarded ctx.control.run (runLoop g.nav ctx turns ls) fun _ => True
  | 0, _ => guarded_within (within_throw (S := fun _ => True) trivial)
  | turns + 1, ls => by
    unfold runLoop
    cases ls.frontier with
    | nil => exact guarded_pure trivial
    | cons first rest =>
      refine guarded_bind guarded_superstep fun r _ => ?_
      cases r with
      | inr report => exact guarded_pure trivial
      | inl ls' => exact guarded_runLoop

theorem guarded_enterLoop {flag : Bool} :
    Guarded ctx.control.run (enterLoop ctx flag ls) fun p => p.1.control.run = ctx.control.run := by
  unfold enterLoop saveEmpty
  refine guarded_bind (P := fun _ => True) ?_ fun checkpoints _ => guarded_pure rfl
  split
  · exact guarded_bind guarded_saveBoundary fun saved _ => guarded_pure trivial
  · exact guarded_pure trivial

/-- **A call, once its controls are set**, stops at the first alarm. -/
theorem guarded_proceed (call : Call E.sighted) :
    Guarded ctx.control.run (call.proceed g (ctx, ls)) fun _ => True := by
  unfold Call.proceed
  refine guarded_bind guarded_enterLoop fun p hp => ?_
  rw [← hp]
  refine guarded_bind guarded_runLoop fun ended _ => ?_
  refine guarded_bind (P := fun _ => True) ?_ fun outcome _ => ?_
  · cases ended with
    | inr report => exact guarded_pure trivial
    | inl ls =>
      refine guarded_seq (guarded_controlRun _ _) ?_
      refine guarded_seq (guarded_emit _ _) ?_
      exact guarded_bind (guarded_within (within_get (S := fun _ => True))) fun _ _ => guarded_pure trivial
  · unfold Call.conclude
    split
    · exact guarded_within (within_throw (S := fun _ => True) trivial)
    · exact guarded_within (within_throw (S := fun _ => True) trivial)
    · exact guarded_pure trivial

end Superstep

/-! ## Openings -/

/-- The deadline of a run that begins at the instant. -/
def RunConfig.runDeadline (config : RunConfig) (started : Instant) : Option (Duration × Instant) :=
  config.control.runTimeout.map fun timeout => (timeout, started + timeout)

/-- An opening looks at the clock and sets the deadline of its run by it. After that it adds clear
sights, and stops at the first alarm. -/
def Sets (config : RunConfig) (x : M E.sighted α) (deadline : α → Option (Duration × Instant)) : Prop :=
  Appends sights x (fun a log => ∃ started more, log = .clock started :: more ∧
      deadline a = config.runDeadline started ∧ Clear (config.runDeadline started) more)
    fun e log => ∃ started more, log = .clock started :: more ∧
      Halts (Clear (config.runDeadline started)) (Alarm (config.runDeadline started)) e more

theorem sets_bind {config : RunConfig} {x : M E.sighted α} {f : α → M E.sighted β}
    {deadline : α → Option (Duration × Instant)} {deadline' : β → Option (Duration × Instant)}
    (hx : Sets config x deadline)
    (hf : ∀ a, Guarded (deadline a) (f a) fun b => deadline' b = deadline a) :
    Sets config (x >>= f) deadline' := by
  refine appends_bind hx ?_
  rintro a _ ⟨started, more, rfl, ha, hclear⟩
  have hafter := hf a
  rw [ha] at hafter
  refine appends_mono (guards_after (goes_clear _) hclear hafter) ?_ ?_
  · exact fun b last hb => ⟨started, more ++ last, rfl, hb.2, hb.1⟩
  · exact fun e last he => ⟨started, more ++ last, rfl, he⟩

theorem sets_beginRun (config : RunConfig) :
    Sets config (beginRun config : M E.sighted RunContext) fun ctx => ctx.control.run := by
  unfold beginRun
  refine appends_bind (P := fun started log => log = [.clock started]) (fun m => ⟨_, rfl, rfl⟩) ?_
  rintro started _ rfl
  have hcontrol : Within Unseeing (ActiveControl.new config.control started : M E.sighted ActiveControl)
      (fun control => control.run = config.runDeadline started) fun _ => True :=
    within_bind (Steady.deadlineFrom fun _ => trivial) fun _ h => within_pure h.1
  have hrest : Within (Unseeing (E := E)) (do
      let runId ← ask E.sighted.nextRunId
      let control ← ActiveControl.new config.control started
      emit config.events (.runStarted runId config.maxSteps)
      pure (f := M E.sighted)
        { runId
          maxSteps := config.maxSteps
          absoluteStepLimit := 0
          events := config.events
          control
          hops := config.hops : RunContext })
      (fun ctx => ctx.control.run = config.runDeadline started) fun _ => True := by
    refine within_bind (unseeing_calm.ask .nextRunId) fun runId _ => ?_
    refine within_bind hcontrol fun control h => ?_
    exact within_seq (unseeing_calm.emit _ _) (within_pure h)
  refine appends_mono hrest.appends ?_ ?_
  · rintro ctx _ ⟨rfl, hrun⟩
    exact ⟨started, [], rfl, hrun, .nil⟩
  · rintro e _ ⟨rfl, -⟩
    exact ⟨started, [], rfl, .inl .nil⟩

theorem guarded_load {β : Type} {step : Nat} (future : Future E.World (Except SourceError β))
    {finish : Except SourceError β → Except GraphRunError α} :
    Guarded ctx.control.run (load (E := E.sighted) ctx step future.sighting finish) fun _ => True :=
  guarded_awaitCall (fun _ => future) (within_pure trivial) fun _ _ => within_pure trivial

theorem guarded_loadExact {threadId : ThreadId} {checkpointId : CheckpointId} :
    Guarded ctx.control.run (loadExact (E := E.sighted) ctx threadId checkpointId) fun _ => True :=
  guarded_load (E.get threadId checkpointId)

theorem readHead_sighted (threadId : ThreadId) (branchId : Option BranchId) :
    readHead (E := E.sighted) threadId branchId = (readHead (E := E) threadId branchId).sighting := by
  cases branchId <;> rfl

theorem guarded_loadTarget {config : ResumeConfig E.Value} :
    Guarded ctx.control.run (loadTarget (E := E.sighted) ctx config) fun _ => True := by
  unfold loadTarget
  split
  · exact guarded_loadExact
  · rw [readHead_sighted]
    exact guarded_load _

theorem guarded_checkLatest {config : ResumeConfig E.Value}
    {checkpoint : Checkpoint E.Snapshot E.Value} :
    Guarded ctx.control.run (checkLatest (E := E.sighted) ctx config checkpoint) fun _ => True := by
  unfold checkLatest
  split
  · exact guarded_pure trivial
  · rw [readHead_sighted]
    refine guarded_bind (guarded_load _) fun latest _ => ?_
    split
    · exact guarded_fail _ _
    · simp only
      split
      · exact guarded_fail _ _
      · exact guarded_pure trivial

theorem guarded_restoreState {threadId : ThreadId} {checkpoint : Checkpoint E.Snapshot E.Value} :
    Guarded ctx.control.run (restoreState (E := E.sighted) ctx threadId checkpoint) fun _ => True := by
  unfold restoreState
  refine guarded_seq (guarded_controlRun _ _) ?_
  refine guarded_bind (guarded_within (unseeing_calm.restored stops_any)) fun state _ => ?_
  exact guarded_seq (guarded_controlRun _ _) (guarded_pure trivial)

theorem guarded_createBranch {config : ForkConfig E.Value} {step : Nat} :
    Guarded ctx.control.run (createBranch (E := E.sighted) ctx config step) fun _ => True := by
  have hstart : Within (Unseeing (E := E)) (pure (.ok ()) : M E.sighted (Except GraphRunError Unit))
      (fun _ => True) fun _ => False := within_pure trivial
  have hnote : ∀ (_ : Unit) answer, Within (Unseeing (E := E)) (record (.createBranch config.threadId
      config.branchId config.checkpointId answer)) (fun _ => True) fun _ => False :=
    fun _ _ => within_modify fun _ => rfl
  unfold createBranch
  exact guarded_awaitCall
    (fun _ => E.createBranch config.threadId config.branchId config.checkpointId) hstart hnote

section Prepare

variable {g : CompiledGraph ν ρ}

theorem guarded_resolveCheckpoint {threadId : ThreadId} {checkpoint : Checkpoint E.Snapshot E.Value}
    {value : Option E.Value} :
    Guarded run (resolveCheckpoint (E := E.sighted) g ctx threadId checkpoint value) fun _ => True := by
  have hresolve : Within Unseeing (resolveCheckpoint (E := E.sighted) g ctx threadId checkpoint value) _ _ :=
    unseeing_calm.resolveCheckpoint stops_any (fun _ _ => trivial) (fun _ _ _ _ _ => trivial)
      fun _ _ _ _ => trivial
  exact guarded_within (within_mono hresolve (fun _ _ => trivial) fun _ h => h)

theorem sets_openInvocation {initialState : E.State} {config : RunConfig}
    {checkpoints : RuntimeCheckpoint} :
    Sets config (openInvocation (E := E.sighted) g.nav initialState config checkpoints)
      fun p => p.1.control.run := by
  unfold openInvocation
  refine sets_bind (sets_beginRun config) fun ctx => ?_
  refine guarded_bind (guarded_within (unseeing_calm.normalizeFrontier stops_any)) fun start _ => ?_
  refine guarded_seq (guarded_within (S := fun _ => True)
    (within_forM fun _ _ => unseeing_calm.emit _ _)) ?_
  refine guarded_bind (P := fun _ => True) ?_ fun initial _ => ?_
  · unfold initialPath
    split
    · exact guarded_pure trivial
    · exact guards_map (guarded_nodeAt g _) fun _ _ => trivial
  · exact guarded_seq (guarded_controlRun _ _) (guarded_pure rfl)

theorem sets_fetchResume {config : ResumeConfig E.Value} :
    Sets config.run (fetchResume (E := E.sighted) config) fun p => p.1.control.run := by
  unfold fetchResume
  refine sets_bind (sets_beginRun config.run) fun ctx => ?_
  refine guarded_seq (guarded_controlRun _ _) ?_
  refine guarded_bind guarded_loadTarget fun checkpoint _ => ?_
  refine guarded_seq (guarded_within (unseeing_calm.checkIdentity stops_any)) ?_
  exact guarded_seq guarded_checkLatest (guarded_pure rfl)

theorem sets_openResume {config : ResumeConfig E.Value}
    {initializer : E.State → Except SourceError E.State} :
    Sets config.run (openResume (E := E.sighted) g config initializer) fun p => p.1.control.run := by
  unfold openResume
  refine sets_bind sets_fetchResume fun p => ?_
  obtain ⟨ctx, checkpoint⟩ := p
  refine guarded_bind (guarded_resolveCheckpoint) fun resolved _ => ?_
  refine guarded_bind guarded_restoreState fun state _ => ?_
  refine guarded_bind (guarded_within (unseeing_calm.restored stops_any)) fun state _ => ?_
  refine guarded_seq (guarded_controlRun _ _) ?_
  refine guarded_seq (guarded_emit _ _) ?_
  refine guarded_seq (guarded_within (S := fun _ => True)
    (within_forM fun _ _ => unseeing_calm.emit _ _)) ?_
  exact guarded_seq (guarded_within (unseeing_calm.reportNamespaces stops_any)) (guarded_pure rfl)

theorem sets_loadHistorical {run : RunConfig} {threadId : ThreadId} {checkpointId : CheckpointId}
    {value : Option E.Value} :
    Sets run (loadHistorical (E := E.sighted) g run threadId checkpointId value)
      fun h => h.ctx.control.run := by
  have hfetch : Sets run (fetchHistorical (E := E.sighted) run threadId checkpointId)
      fun p => p.1.control.run := by
    unfold fetchHistorical
    refine sets_bind (sets_beginRun run) fun ctx => ?_
    refine guarded_seq (guarded_controlRun _ _) ?_
    refine guarded_bind guarded_loadExact fun checkpoint _ => ?_
    exact guarded_seq (guarded_within (unseeing_calm.checkIdentity stops_any)) (guarded_pure rfl)
  unfold loadHistorical
  refine sets_bind hfetch ?_
  rintro ⟨ctx, checkpoint⟩
  refine guarded_bind guarded_resolveCheckpoint fun resolved _ => ?_
  exact guarded_bind guarded_restoreState fun state _ => guarded_pure rfl

theorem guarded_historicalStart {h : Historical E.sighted} {event : GraphEvent}
    {value : Option E.Value} {checkpoints : RuntimeCheckpoint} :
    Guarded run (h.start g event value checkpoints) fun p => p.1.control.run = h.ctx.control.run := by
  refine guards_mono (guarded_within (unseeing_calm.historicalStart stops_any)) ?_
  rintro _ rfl
  rfl

/-- **What a call sees until its controls are set.** -/
theorem sets_prepare (call : Call E.sighted) :
    Sets call.config (call.prepare g) fun p => p.1.control.run := by
  cases call with
  | invoke initialState config checkpoints => cases checkpoints <;> exact sets_openInvocation
  | resume config initializer => exact sets_openResume
  | replay config => exact sets_bind sets_loadHistorical fun h => guarded_historicalStart
  | fork config =>
    refine sets_bind sets_loadHistorical fun h => ?_
    exact guarded_seq guarded_createBranch guarded_historicalStart

/-- **What a call sees**: the clock, and after that clear sights for the deadline of its run. Only
when it stops may it have seen an alarm, as the last thing, and then that is what it stops for. -/
theorem run_sights (call : Call E.sighted) : Appends sights (call.run g)
    (fun _ log => ∃ started more, log = .clock started :: more ∧
      Clear (call.config.runDeadline started) more)
    fun e log => ∃ started more, log = .clock started :: more ∧
      Halts (Clear (call.config.runDeadline started)) (Alarm (call.config.runDeadline started)) e more := by
  rw [Call.run_proceed]
  refine appends_bind (sets_prepare call) ?_
  rintro ⟨ctx, ls⟩ _ ⟨started, more, rfl, hrun, hclear⟩
  have hproceed : Guarded ctx.control.run (call.proceed g (ctx, ls)) fun _ => True :=
    guarded_proceed call
  simp only at hrun
  rw [hrun] at hproceed
  refine appends_mono (guards_after (goes_clear _) hclear hproceed) ?_ ?_
  · exact fun _ last h => ⟨started, more ++ last, rfl, h.1⟩
  · exact fun e last h => ⟨started, more ++ last, rfl, h⟩

/-- The loop states that a call reaches have seen nothing but clear sights. -/
theorem Call.Reaches.sights {call : Call E.sighted} {m : Machine E.sighted}
    {p : LoopState E.sighted Nat × Machine E.sighted} (h : call.Reaches g m ctx p) :
    ∃ started more, Core.sights p.2 = Core.sights m ++ .clock started :: more ∧
      ctx.control.run = call.config.runDeadline started ∧
      Clear (call.config.runDeadline started) more := by
  obtain ⟨ls, m₁, henter, hturns⟩ := h
  have hsets : Sets call.config (call.enter g) fun p => p.1.control.run :=
    sets_bind (sets_prepare call) fun _ => guarded_enterLoop
  obtain ⟨_, hlog, started, more, rfl, hrun, hclear⟩ := wp_of_ok (hsets m) henter
  simp only at hrun
  induction hturns with
  | refl => exact ⟨started, more, hlog, hrun, hclear⟩
  | tail _ hturn ih =>
    obtain ⟨started', more', hlog', hrun', hclear'⟩ := ih
    obtain ⟨first, rest, -, hstep⟩ := hturn
    obtain ⟨last, hlast, hclear'', -⟩ := wp_of_ok (guarded_superstep (E := E) _) hstep
    refine ⟨started', more' ++ last, ?_, hrun', (goes_clear _).append _ _ hclear' ?_⟩
    · rw [hlast, hlog', List.append_assoc, List.cons_append]
    · rw [← hrun']
      exact hclear''

end Prepare

end Sighted

end GroupAgent.Core
