import GroupAgent.Core.Advance

/-!
# What every step of a run keeps

The pieces of the runtime (`runtime.rs:369-890` and what it calls) by how they change the machine,
over any graph. A relation between machines is kept by all of them when it is kept by what they are
made of.

* `Env.Idle`: what the environment does when it neither executes a node nor writes to the
  checkpointer. `Steady R`: the relation allows that, and any event.
* `Env.Calm`, `Calm R`: the same without the controls and without the checkpointer.
* `Steady.Runs R A`: it allows the attempts of `A` to be executed.
* `Plain`: the stops that come from no counter, no clock, no budget and no resume value. All but a
  few places of the runtime only stop plainly.
* `advance_eq` takes a super-step apart: it is admitted, executes its frontier, and follows its
  transitions.

Later files choose the relation: that the log of writes is the same (`Quiet` has that one by hand),
that the log of sights or of waits has grown by something, or nothing at all. `Sustained` adds what
saves, and whole calls.
-/

namespace GroupAgent.Core

open GroupAgent.Lib

variable {ν ρ : Type} {E : Env ν ρ}

/-! ## Steps of the environment -/

/-- A step of the environment that executes no node, and looks neither at the controls nor at the
checkpointer. -/
inductive Env.Calm (E : Env ν ρ) : E.World → E.World → Prop where
  | nextRunId (w : E.World) : E.Calm w (E.nextRunId w).2
  | nextCheckpointId (w : E.World) : E.Calm w (E.nextCheckpointId w).2
  | onEvent (event : GraphEvent) (w : E.World) : E.Calm w (E.onEvent event w)
  | route (router : ρ) (state : E.State) (w : E.World) : E.Calm w (E.route router state w).2
  | fanOutRoute (router : ρ) (state : E.State) (w : E.World) :
      E.Calm w (E.fanOutRoute router state w).2

/-- A step of the environment that executes no node and writes nothing to the checkpointer. -/
inductive Env.Idle (E : Env ν ρ) : E.World → E.World → Prop where
  | calm {w w' : E.World} (h : E.Calm w w') : E.Idle w w'
  | now (w : E.World) : E.Idle w (E.now w).2
  | isCancelled (w : E.World) : E.Idle w (E.isCancelled w).2
  | preempted (deadline : Option ActiveDeadline) (w : E.World) :
      E.Idle w (E.preempted deadline w).2
  | latest (threadId : ThreadId) (w : E.World) : E.Idle w ((E.latest threadId).await w).2
  | latestRaced (threadId : ThreadId) (deadline : Option ActiveDeadline) (w : E.World) :
      E.Idle w ((E.latest threadId).select deadline w).2
  | get (threadId : ThreadId) (id : CheckpointId) (w : E.World) :
      E.Idle w ((E.get threadId id).await w).2
  | getRaced (threadId : ThreadId) (id : CheckpointId) (deadline : Option ActiveDeadline)
      (w : E.World) : E.Idle w ((E.get threadId id).select deadline w).2
  | branchHead (threadId : ThreadId) (branchId : BranchId) (w : E.World) :
      E.Idle w ((E.branchHead threadId branchId).await w).2
  | branchHeadRaced (threadId : ThreadId) (branchId : BranchId)
      (deadline : Option ActiveDeadline) (w : E.World) :
      E.Idle w ((E.branchHead threadId branchId).select deadline w).2

/-- The relation allows calm steps of the environment, and any event. -/
structure Calm (R : Machine E → Machine E → Prop) : Prop where
  step : ∀ m w, E.Calm m.world w → R m { m with world := w }
  events : ∀ m events, R m { m with events }

/-- The relation allows idle steps of the environment, and any event. -/
structure Steady (R : Machine E → Machine E → Prop) : Prop where
  idle : ∀ m w, E.Idle m.world w → R m { m with world := w }
  events : ∀ m events, R m { m with events }

theorem Steady.calm {R : Machine E → Machine E → Prop} (hR : Steady R) : Calm R :=
  ⟨fun m w h => hR.idle m w (.calm h), hR.events⟩

/-- The relation allows the attempts of `A` to be executed. -/
structure Steady.Runs (R : Machine E → Machine E → Prop)
    (A : NodeAttempt ν E.State E.Value → Prop) : Prop where
  await : ∀ a m, A a → R m { m with world := ((E.run a).await m.world).2 }
  select : ∀ a deadline m, A a → R m { m with world := ((E.run a).select deadline m.world).2 }
  nextReady : ∀ pending hne m, (∀ a ∈ pending, A a.toNodeAttempt) →
    R m { m with world := (E.nextReady pending hne m.world).2 }

/-- The clock cannot hold the deadline that a timeout sets from the instant on. -/
def Env.Beyond (E : Env ν ρ) (started : Instant) (timeout : Option Duration) : Prop :=
  ∃ t, timeout = some t ∧ E.instantMax < started + t

/-- The stops that come from no counter, no clock, no budget and no resume value. -/
def Plain : Stop → Prop
  | .panic .counterOverflow => False
  | .panic .instantOverflow => False
  | .error (.maxStepsExceeded _ _ _) => False
  | .error (.missingResumeValue _ _ _ _ _ _) => False
  | .error (.unexpectedResumeValue _ _ _ _) => False
  | _ => True

/-! ## The parts of a super-step -/

/-- The attempt that the runtime makes at a node. -/
def LoopState.attempt (ls : LoopState E Nat) (ctx : RunContext) (index : Nat) (node : CompiledNode ν ρ Nat)
    (step : Nat) : NodeAttempt ν E.State E.Value where
  kind := node.kind
  state := ls.state
  context :=
    { step
      nodePath := node.path
      runDeadline := ctx.control.run.map Prod.snd
      resumeValue := if ls.resumeNode = some index then ls.resumeValue else none }

/-- The attempt is one at a node of the graph, from the loop state. -/
def Attempts (g : CompiledGraph ν ρ) (ctx : RunContext) (ls : LoopState E Nat) (index : Nat)
    (a : NodeAttempt ν E.State E.Value) : Prop :=
  ∃ node step, g.items[index]? = some (.node node) ∧ a = ls.attempt ctx index node step

/-- Everything a super-step does before it executes its frontier: the first node, its step number,
and the number of the super-step. -/
def CompiledGraph.accept (g : CompiledGraph ν ρ) (ctx : RunContext) (ls : LoopState E Nat) (first : Nat)
    (rest : List Nat) : M E (CompiledNode ν ρ Nat × Nat × Nat) := do
  let firstNode ← g.nav.nodeAt first
  let firstStep ← usizeAdd ls.steps 1
  controlRun ctx (some firstNode.path) firstStep
  enforceBudget g.nav ctx ls.steps (first :: rest)
  let superstep ← usizeAdd ls.superstep 1
  emitIf (!rest.isEmpty) ctx.events
    (GraphEvent.superstepStarted ctx.runId superstep <$> pathsOf g.nav (first :: rest))
  pure (firstNode, firstStep, superstep)

/-- What a super-step does with what its frontier came to. -/
def CompiledGraph.follow (g : CompiledGraph ν ρ) (ctx : RunContext) (ls : LoopState E Nat) (frontier : List Nat)
    (firstNode : CompiledNode ν ρ Nat) (firstStep superstep : Nat) :
    E.State ⊕ InterruptRequest E.Value → M E (Advance E Nat)
  | .inr request => pure (.suspended request)
  | .inl state => do
    let steps := ls.steps + frontier.length
    reportUpdates g.nav ctx firstStep frontier
    let targets ← routeAll g.nav ctx state firstStep frontier
    let (next, boundaries) ←
      g.nav.settle ctx state steps firstNode.graphPath (canonical id targets)
    pure (.committed state steps superstep next boundaries)

/-- A super-step is admitted, executes its frontier, and follows its transitions. -/
theorem advance_eq (g : CompiledGraph ν ρ) (ctx : RunContext) (ls : LoopState E Nat) (first : Nat)
    (rest : List Nat) : advance g.nav ctx ls first rest = (do
      let (firstNode, firstStep, superstep) ← g.accept ctx ls first rest
      let outcome ← runFrontier g.nav ctx ls first rest firstNode.path firstStep
      g.follow ctx ls (first :: rest) firstNode firstStep superstep outcome) := by
  unfold advance CompiledGraph.accept
  simp only [bind_assoc, pure_bind]
  rfl

namespace Calm

variable {R : Machine E → Machine E → Prop} [Std.Refl R] [IsTrans (Machine E) R] {S : Stop → Prop}
  {α : Type} (hR : Calm R)

include hR

omit [Std.Refl R] [IsTrans (Machine E) R] in
theorem ask {f : E.World → α × E.World} (h : ∀ w, E.Calm w (f w).2) :
    Within R (Core.ask f) (fun _ => True) S :=
  fun m => ⟨trivial, hR.step m _ (h m.world)⟩

theorem emitWith {config : EventConfig} {event : M E GraphEvent}
    (h : Within R event (fun _ => True) S) :
    Within R (Core.emitWith config event) (fun _ => True) S := by
  unfold Core.emitWith
  by_cases henabled : config.isEnabled
  · rw [if_pos henabled]
    refine within_bind h fun event _ => within_modify fun m => ?_
    have hevents := hR.events
    by_cases hsink : config.hasSink
    · simp only [hsink, if_true]
      exact trans_of R (hR.step m _ (.onEvent event m.world)) (hevents _ _)
    · simp only [hsink, Bool.false_eq_true, if_false]
      exact hevents m _
  · rw [if_neg henabled]
    exact within_pure trivial

theorem emit (config : EventConfig) (event : GraphEvent) :
    Within R (Core.emit config event : M E Unit) (fun _ => True) S :=
  hR.emitWith (within_pure trivial)

theorem emitIf {condition : Bool} {config : EventConfig} {event : M E GraphEvent}
    (h : Within R event (fun _ => True) S) :
    Within R (Core.emitIf condition config event) (fun _ => True) S := by
  unfold Core.emitIf
  split
  · exact hR.emitWith h
  · exact within_pure trivial

theorem fail (ctx : RunContext) {error : GraphRunError} {Q : α → Prop} (h : S (.error error)) :
    Within R (Core.fail ctx error : M E α) Q S := by
  unfold Core.fail
  exact within_seq (hR.emit _ _) (within_throw h)

theorem orFail (ctx : RunContext) {r : Except GraphRunError α} {Q : α → Prop}
    (hok : ∀ a, r = .ok a → Q a) (herror : ∀ error, r = .error error → S (.error error)) :
    Within R (Core.orFail ctx r : M E α) Q S := by
  unfold Core.orFail
  cases r with
  | ok a => exact within_pure (hok a rfl)
  | error error => exact hR.fail ctx (herror error rfl)

end Calm

namespace Steady

variable {R : Machine E → Machine E → Prop} [Std.Refl R] [IsTrans (Machine E) R] {S : Stop → Prop}
  {α : Type}

/-! ## Primitives -/

omit [Std.Refl R] [IsTrans (Machine E) R] in
theorem ask (hR : Steady R) {f : E.World → α × E.World} (h : ∀ w, E.Idle w (f w).2) :
    Within R (Core.ask f) (fun a => ∃ w, (f w).1 = a) S :=
  fun m => ⟨⟨m.world, rfl⟩, hR.idle m _ (h m.world)⟩

omit [IsTrans (Machine E) R] in
theorem usizeAdd {a b : Nat} (h : usizeMax < a + b → S (.panic .counterOverflow)) :
    Within R (Core.usizeAdd a b : M E Nat) (fun c => c = a + b ∧ a + b ≤ usizeMax) S := by
  unfold Core.usizeAdd
  split
  · rename_i hle
    exact within_pure ⟨rfl, hle⟩
  · rename_i hgt
    exact within_throw (h (Nat.lt_of_not_le hgt))

omit [IsTrans (Machine E) R] in
theorem nodeAt (hS : ∀ e, Plain e → S e) (g : CompiledGraph ν ρ) (index : Nat) :
    Within R (g.nodeAt index : M E (CompiledNode ν ρ Nat))
      (fun n => g.items[index]? = some (.node n)) S := by
  unfold CompiledGraph.nodeAt CompiledGraph.node
  split
  · rename_i n hn
    exact within_pure hn
  · exact within_throw (hS _ trivial)
  · exact within_throw (hS _ trivial)
  · exact within_throw (hS _ trivial)

theorem pathsOf (hS : ∀ e, Plain e → S e) (g : CompiledGraph ν ρ) (frontier : List Nat) :
    Within R (Core.pathsOf g.nav frontier : M E (List NodePath)) (PathsOf g frontier) S := by
  unfold Core.pathsOf
  exact within_mapM fun index _ => within_map (nodeAt hS g index) fun n hn => ⟨n, hn, rfl⟩

/-! ## Control points -/

section Controls

variable (hR : Steady R) (hS : ∀ e, Plain e → S e) {ctx : RunContext}

omit [IsTrans (Machine E) R] in
theorem deadlineError {runId : RunId} {nodeId : Option NodePath} {step : Nat}
    {deadline : ActiveDeadline} (h : Blames nodeId (some deadline)) :
    Within R (ActiveControl.deadlineError runId nodeId step deadline : M E GraphRunError)
      (fun error => Plain (.error error)) S := by
  unfold ActiveControl.deadlineError
  cases deadline with
  | run timeout instant => exact within_pure trivial
  | node timeout instant =>
    cases nodeId with
    | none => exact absurd rfl (h timeout instant rfl)
    | some path => exact within_pure trivial

include hR

theorem check {runId : RunId} {nodeId : Option NodePath} {step : Nat}
    {deadline : Option ActiveDeadline} (h : Blames nodeId deadline) :
    Within R (ActiveControl.check runId nodeId step deadline : M E (Option GraphRunError))
      (fun found => ∀ error ∈ found, Plain (.error error)) S := by
  unfold ActiveControl.check
  refine within_bind (hR.ask .isCancelled) fun cancelled _ => ?_
  split
  · refine within_pure ?_
    rintro _ ⟨⟩
    trivial
  · cases deadline with
    | none => exact within_pure (by simp)
    | some deadline =>
      refine within_bind (hR.ask .now) fun now _ => ?_
      split
      · refine within_map (deadlineError h) fun error herror => ?_
        rintro _ ⟨⟩
        exact herror
      · exact within_pure (by simp)

include hS

theorem control {nodeId : Option NodePath} {step : Nat} {deadline : Option ActiveDeadline}
    (h : Blames nodeId deadline) :
    Within R (Core.control ctx nodeId step deadline : M E Unit) (fun _ => True) S := by
  unfold Core.control
  refine within_bind (hR.check h) fun found hfound => ?_
  cases found with
  | none => exact within_pure trivial
  | some error => exact hR.calm.fail ctx (hS _ (hfound error rfl))

theorem controlRun (ctx : RunContext) (nodeId : Option NodePath) (step : Nat) :
    Within R (Core.controlRun ctx nodeId step : M E Unit) (fun _ => True) S :=
  hR.control hS (blames_run ctx.control nodeId)

end Controls

omit [IsTrans (Machine E) R] in
/-- Only the clock keeps a timeout from setting a deadline. -/
theorem deadlineFrom {started : Instant} {timeout : Option Duration}
    (hclock : E.Beyond started timeout → S (.panic .instantOverflow)) :
    Within R (ActiveControl.deadlineFrom started timeout : M E (Option (Duration × Instant)))
      (fun deadline => deadline = timeout.map (fun t => (t, started + t)) ∧
        ¬E.Beyond started timeout) S := by
  unfold ActiveControl.deadlineFrom
  cases timeout with
  | none => exact within_pure ⟨rfl, fun ⟨_, h, _⟩ => nomatch h⟩
  | some timeout =>
    unfold instantAdd
    by_cases hle : started + timeout ≤ E.instantMax
    · simp only [hle, if_true]
      refine within_pure ⟨rfl, ?_⟩
      rintro ⟨_, ⟨⟩, hlt⟩
      exact Nat.not_lt_of_le hle hlt
    · simp only [hle, if_false]
      exact within_throw (hclock ⟨timeout, rfl, Nat.lt_of_not_le hle⟩)

/-! ## Executing nodes -/

section Execute

variable (hR : Steady R) (hS : ∀ e, Plain e → S e) {g : CompiledGraph ν ρ} {ctx : RunContext}
  {ls : LoopState E Nat} {A : NodeAttempt ν E.State E.Value → Prop}

include hR hS

theorem startNode (hclock : S (.panic .instantOverflow)) (index : Nat)
    (node : CompiledNode ν ρ Nat) (step : Nat) :
    Within R (Core.startNode ctx ls index node step)
      (fun r => r.1 = ls.attempt ctx index node step) S := by
  unfold Core.startNode
  refine within_seq (hR.controlRun hS _ _ _) ?_
  refine within_bind (hR.ask .now) fun now _ => ?_
  refine within_bind (deadlineFrom fun _ => hclock) fun deadline _ => ?_
  refine within_seq (hR.calm.emit _ _) ?_
  refine within_seq (hR.control hS (blames_some _ _)) ?_
  exact within_pure rfl

theorem finishNode {nodeId : NodePath} {step : Nat} {kind : NodeKind ν}
    {active : Option ActiveDeadline} (answer : Raced active (kind.Answer E.Update E.Value)) :
    Within R (executeNode.finishNode ctx nodeId step kind answer) (fun _ => True) S := by
  unfold executeNode.finishNode
  cases answer with
  | cancelled => exact hR.calm.fail ctx (hS _ trivial)
  | elapsed passed h =>
    refine within_bind (deadlineError (blames_some nodeId _)) fun error herror => ?_
    exact hR.calm.fail ctx (hS _ herror)
  | ready answer =>
    refine within_seq (hR.controlRun hS _ _ _) ?_
    split
    · exact hR.calm.fail ctx (hS _ trivial)
    · exact within_pure trivial

theorem executeNode (hruns : Runs R A) {a : NodeAttempt ν E.State E.Value} (ha : A a)
    (nodeDeadline : Option (Duration × Instant)) :
    Within R (Core.executeNode ctx a nodeDeadline) (fun _ => True) S := by
  unfold Core.executeNode
  refine within_seq (hR.control hS (blames_some _ _)) ?_
  refine within_bind (P := fun _ => True) ?_ fun answer _ => hR.finishNode hS answer
  unfold executeNode.awaitNode
  split
  · refine within_map (P := fun _ => True) (fun m => ?_) fun _ _ => trivial
    exact ⟨trivial, hruns.await a m ha⟩
  · exact fun m => ⟨trivial, hruns.select a _ m ha⟩

theorem runSingle (hruns : Runs R A) (hclock : S (.panic .instantOverflow)) {first : Nat}
    (hA : ∀ a, Attempts g ctx ls first a → A a) {firstNode : NodePath} {firstStep : Nat} :
    Within R (Core.runSingle g.nav ctx ls first firstNode firstStep) (fun _ => True) S := by
  unfold Core.runSingle
  refine within_bind (nodeAt hS g first) fun node hnode => ?_
  refine within_bind (hR.startNode hS hclock first node firstStep) fun started hstarted => ?_
  refine within_bind (hR.executeNode hS hruns (hA _ ⟨node, _, hnode, hstarted⟩) _)
    fun outcome _ => ?_
  cases outcome with
  | interrupt request => exact within_pure trivial
  | update update =>
    refine within_seq (hR.calm.emit _ _) ?_
    refine within_seq (hR.controlRun hS _ _ _) ?_
    refine within_seq (hR.controlRun hS _ _ _) ?_
    split
    · exact hR.calm.fail ctx (hS _ trivial)
    · exact within_pure trivial

theorem startAll (hclock : S (.panic .instantOverflow)) :
    ∀ {offset : Nat} {frontier : List Nat}, Within R (Core.startAll g.nav ctx ls offset frontier)
      (List.Forall₂ (fun index a => Attempts g ctx ls index a.toNodeAttempt) frontier) S
  | _, [] => within_pure .nil
  | offset, index :: frontier => by
    unfold Core.startAll
    refine within_bind (nodeAt hS g index) fun node hnode => ?_
    refine within_bind (hR.startNode hS hclock index node _) fun started hstarted => ?_
    refine within_bind (startAll hclock) fun rest hrest => ?_
    exact within_pure (.cons ⟨node, _, hnode, hstarted⟩ hrest)

theorem awaitAll (hruns : Runs R A) {checkpoints : RuntimeCheckpoint} : ∀ {count : Nat}
    {pending : List (ParallelAttempt ν E.State E.Value)} {slots : List (Option E.Update)},
    (∀ a ∈ pending, A a.toNodeAttempt) →
    Within R (Core.awaitAll ctx checkpoints count pending slots) (fun _ => True) S
  | 0, _, _, _ => within_pure trivial
  | count + 1, pending, slots, h => by
    unfold Core.awaitAll
    split
    · rename_i hne
      refine within_bind (P := fun _ => True) (fun m => ⟨trivial, hruns.nextReady pending hne m h⟩)
        fun r _ => ?_
      obtain ⟨i, answer⟩ := r
      refine within_bind (hR.finishNode hS answer) fun outcome _ => ?_
      cases outcome with
      | interrupt request =>
        refine within_seq (hR.calm.emit _ _) ?_
        cases checkpoints <;> exact hR.calm.fail ctx (hS _ trivial)
      | update update =>
        refine within_seq (hR.calm.emit _ _) ?_
        refine within_seq (hR.controlRun hS _ _ _) ?_
        exact awaitAll hruns fun a ha => h a (List.mem_of_mem_eraseIdx ha)
    · exact within_pure trivial

omit hR in
theorem zipUpdates : ∀ {nodeIds : List NodePath}
    {slots : List (Option E.Update)},
    Within R (Core.zipUpdates nodeIds slots) (fun _ => True) S
  | [], _ => by
    unfold Core.zipUpdates
    exact within_pure trivial
  | _ :: _, [] => by
    unfold Core.zipUpdates
    exact within_pure trivial
  | _ :: _, none :: _ => by
    unfold Core.zipUpdates
    exact within_throw (hS _ trivial)
  | _ :: _, some _ :: _ => by
    unfold Core.zipUpdates
    exact within_bind zipUpdates fun _ _ => within_pure trivial

theorem runParallel (hruns : Runs R A) (hclock : S (.panic .instantOverflow))
    {frontier : List Nat} (hA : ∀ index ∈ frontier, ∀ a, Attempts g ctx ls index a → A a)
    {firstNode : NodePath} {firstStep : Nat} :
    Within R (Core.runParallel g.nav ctx ls frontier firstNode firstStep) (fun _ => True) S := by
  unfold Core.runParallel
  refine within_bind (hR.startAll hS hclock) fun attempts hattempts => ?_
  refine within_bind (hR.awaitAll hS hruns fun a ha => ?_) fun slots _ => ?_
  · obtain ⟨k, hk, rfl⟩ := List.getElem_of_mem ha
    have hlen := hattempts.length_eq
    have hget := hattempts.get (i := k) (by omega) hk
    exact hA _ (List.getElem_mem (by omega)) _ hget
  refine within_seq (hR.controlRun hS _ _ _) ?_
  refine within_bind (pathsOf hS g frontier) fun nodeIds _ => ?_
  refine within_bind (zipUpdates hS) fun batch _ => ?_
  split
  · exact hR.calm.fail ctx (hS _ trivial)
  · exact within_pure trivial

theorem runFrontier (hruns : Runs R A) (hclock : S (.panic .instantOverflow)) {first : Nat}
    {rest : List Nat} (hA : ∀ index ∈ first :: rest, ∀ a, Attempts g ctx ls index a → A a)
    {firstNode : NodePath} {firstStep : Nat} :
    Within R (Core.runFrontier g.nav ctx ls first rest firstNode firstStep) (fun _ => True) S := by
  unfold Core.runFrontier
  cases rest with
  | nil => exact hR.runSingle hS hruns hclock (hA first List.mem_cons_self)
  | cons second rest =>
    exact within_map (hR.runParallel hS hruns hclock hA) fun _ _ => trivial

end Execute

end Steady

/-! ## Routing -/

namespace Calm

section Routing

variable {R : Machine E → Machine E → Prop} [Std.Refl R] [IsTrans (Machine E) R] {S : Stop → Prop}
  (hR : Calm R) (hS : ∀ e, Plain e → S e) {g : CompiledGraph ν ρ} {ctx : RunContext}

omit [IsTrans (Machine E) R] in
theorem itemAt (hS : ∀ e, Plain e → S e) (g : CompiledGraph ν ρ) (index : Nat) :
    Within R (g.itemAt index : M E (CompiledItem ν ρ Nat))
      (fun item => g.items[index]? = some item) S := by
  unfold CompiledGraph.itemAt
  split
  · rename_i item hitem
    exact within_pure hitem
  · exact within_throw (hS _ trivial)

include hS

theorem pathAt (index : Nat) :
    Within R (g.pathAt index : M E NodePath) (fun _ => True) S := by
  unfold CompiledGraph.pathAt
  refine within_bind (itemAt hS g index) fun item _ => ?_
  split <;> exact within_pure trivial

theorem targetPath {target : Option Nat} {targetId : NodeId} {graphPath : GraphPath} :
    Within R (CompiledTransition.targetPath g.pathAt graphPath target targetId : M E NodePath)
      (fun _ => True) S := by
  unfold CompiledTransition.targetPath
  cases target with
  | none => exact within_pure trivial
  | some index => exact pathAt hS index

include hR

theorem resolveTransition {t : CompiledTransition ρ Nat} {state : E.State}
    {graphPath : GraphPath} {source : NodePath} {step : Nat} :
    Within R (Core.resolveTransition ctx id g.pathAt t state graphPath source step)
      (fun _ => True) S := by
  unfold Core.resolveTransition
  refine within_bind (P := fun _ => True) ?_ fun r _ => ?_
  · cases t with
    | fixed target => exact within_pure trivial
    | staticFanOut targets => exact within_pure trivial
    | conditional router allowed =>
      refine within_bind (hR.ask (.route router state)) fun answer _ => ?_
      cases answer with
      | error source => exact within_pure trivial
      | ok targetId =>
        cases hl : allowed.lookup targetId with
        | none =>
          simp only [hl]
          exact within_pure trivial
        | some target =>
          simp only [hl]
          exact within_bind (targetPath hS) fun path _ => within_pure trivial
    | conditionalFanOut router allowed =>
      refine within_bind (hR.ask (.fanOutRoute router state)) fun answer _ => ?_
      match answer with
      | .error source => exact within_pure trivial
      | .ok [] => exact within_pure trivial
      | .ok (targetId :: selected) =>
        simp only
        cases CompiledTransition.selectAll allowed [] (targetId :: selected) with
        | error error => exact within_pure trivial
        | ok resolved =>
          refine within_bind (P := fun _ => True) ?_ fun _ _ => within_pure trivial
          exact within_mono (within_mapM (P := fun _ _ => True) fun p _ => targetPath hS)
            (fun _ _ => trivial) fun _ h => h
  · split
    · rename_i error
      refine hR.fail ctx (hS _ ?_)
      cases error <;> trivial
    · exact within_pure trivial
    · exact within_seq (hR.emit _ _) (within_pure trivial)

omit hR in
theorem assertNodes : ∀ {frontier : List Nat},
    Within R (g.assertNodes frontier : M E Unit) (fun _ => True) S
  | [] => within_pure trivial
  | index :: frontier => by
    unfold CompiledGraph.assertNodes
    refine within_bind (itemAt hS g index) fun item _ => ?_
    cases item with
    | node n => exact assertNodes
    | enterSubgraph graphPath nested t => exact within_throw (hS _ trivial)
    | exitSubgraph graphPath mountPath t => exact within_throw (hS _ trivial)

theorem normalizeFrontier {state : E.State} {step : Nat} : ∀ {hops : Nat} {frontier : List Nat}
    {boundaries : List SubgraphBoundary},
    Within R (g.normalizeFrontier ctx state step hops frontier boundaries) (fun _ => True) S
  | 0, _, _ => within_throw (hS _ trivial)
  | hops + 1, [], _ => within_pure trivial
  | hops + 1, [index], boundaries => by
    unfold CompiledGraph.normalizeFrontier
    refine within_bind (itemAt hS g index) fun item _ => ?_
    cases item with
    | node n => exact within_pure trivial
    | enterSubgraph graphPath nested t =>
      exact within_bind (hR.resolveTransition hS) fun targets _ => normalizeFrontier
    | exitSubgraph graphPath mountPath t =>
      exact within_bind (hR.resolveTransition hS) fun targets _ => normalizeFrontier
  | hops + 1, index :: second :: rest, boundaries => by
    unfold CompiledGraph.normalizeFrontier
    exact within_seq (assertNodes hS) (within_pure trivial)

end Routing

end Calm

namespace Steady

section Routing

variable {R : Machine E → Machine E → Prop} [Std.Refl R] [IsTrans (Machine E) R] {S : Stop → Prop}
  (hR : Steady R) (hS : ∀ e, Plain e → S e) {g : CompiledGraph ν ρ} {ctx : RunContext}

include hR hS

theorem reportUpdates : ∀ {step : Nat} {frontier : List Nat},
    Within R (Core.reportUpdates g.nav ctx step frontier : M E Unit) (fun _ => True) S
  | _, [] => within_pure trivial
  | step, index :: frontier => by
    unfold Core.reportUpdates
    refine within_bind (nodeAt hS g index) fun node _ => ?_
    refine within_seq (hR.calm.emit _ _) ?_
    exact within_seq (hR.controlRun hS _ _ _) reportUpdates

theorem routeAll {state : E.State} : ∀ {step : Nat} {frontier : List Nat},
    Within R (Core.routeAll g.nav ctx state step frontier) (fun _ => True) S
  | _, [] => within_pure trivial
  | step, index :: frontier => by
    unfold Core.routeAll
    refine within_bind (nodeAt hS g index) fun node _ => ?_
    refine within_bind (hR.calm.resolveTransition hS) fun targets _ => ?_
    refine within_seq (hR.controlRun hS _ _ _) ?_
    exact within_bind routeAll fun rest _ => within_pure trivial

end Routing

/-! ## Advancing -/

section Advance

variable {R : Machine E → Machine E → Prop} [Std.Refl R] [IsTrans (Machine E) R] {S : Stop → Prop}
  (hR : Steady R) (hS : ∀ e, Plain e → S e) {g : CompiledGraph ν ρ} {ctx : RunContext}
  {ls : LoopState E Nat}

include hR hS

/-- Only overflows and the budget refuse a super-step otherwise than plainly. -/
theorem accept (hcounter : S (.panic .counterOverflow))
    (hbudget : ∀ node step, S (.error (.maxStepsExceeded ctx.maxSteps node step))) {first : Nat}
    {rest : List Nat} : Within R (g.accept ctx ls first rest) (fun r =>
      g.items[first]? = some (.node r.1) ∧ r.2.1 = ls.steps + 1 ∧ r.2.2 = ls.superstep + 1 ∧
      (first :: rest).length ≤ ctx.absoluteStepLimit - ls.steps) S := by
  unfold CompiledGraph.accept
  refine within_bind (nodeAt hS g first) fun firstNode hnode => ?_
  refine within_bind (usizeAdd fun _ => hcounter) fun firstStep hstep => ?_
  refine within_seq (hR.controlRun hS _ _ _) ?_
  refine within_bind (P := fun _ =>
    (first :: rest).length ≤ ctx.absoluteStepLimit - ls.steps) ?_ fun _ hfit => ?_
  · unfold enforceBudget
    simp only
    split
    · rename_i hnone
      exact within_pure (List.getElem?_eq_none_iff.mp hnone)
    · refine within_bind (nodeAt hS g _) fun node _ => ?_
      refine within_bind (usizeAdd fun _ => hcounter) fun step _ => ?_
      exact hR.calm.fail ctx (hbudget _ _)
  refine within_bind (usizeAdd fun _ => hcounter) fun superstep hsuper => ?_
  refine within_seq (hR.calm.emitIf (within_map (pathsOf hS g _) fun _ _ => trivial)) ?_
  exact within_pure ⟨hnode, hstep.1, hsuper.1, hfit⟩

theorem follow {frontier : List Nat} {firstNode : CompiledNode ν ρ Nat} {firstStep superstep : Nat}
    (outcome : E.State ⊕ InterruptRequest E.Value) :
    Within R (g.follow ctx ls frontier firstNode firstStep superstep outcome)
      (fun r => ∀ state steps number next boundaries,
        r = .committed state steps number next boundaries →
          steps = ls.steps + frontier.length ∧ number = superstep) S := by
  cases outcome with
  | inr request => exact within_pure nofun
  | inl state =>
    unfold CompiledGraph.follow
    refine within_seq (hR.reportUpdates hS) ?_
    refine within_bind (hR.routeAll hS) fun targets _ => ?_
    refine within_bind (hR.calm.normalizeFrontier hS) fun next _ => ?_
    refine within_pure ?_
    rintro _ _ _ _ _ ⟨⟩
    exact ⟨rfl, rfl⟩

end Advance

end Steady

end GroupAgent.Core
