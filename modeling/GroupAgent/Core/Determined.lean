import GroupAgent.Core.Behaviour

/-!
# What a super-step comes to

On an environment that behaves, every piece of the run loop (`execute_internal`,
`runtime.rs:369-890`; `execute_node`, 2129-2181; `normalize_frontier`, 900-974) comes to what the
behaviour says, whatever the world does, or it is disturbed from outside. One lemma for each piece,
in the order of `Steady`; `D` are the stops that count as disturbances.

* `Disturbed`: a cancellation, a deadline, or a timeout that the clock cannot hold.
* `Determined.awaitAll`: when the pending executions have completed, each has put its own update
  into its own slot. The induction is on the executions left, and says nothing of their order.
* `Determined.runParallel`: the updates are applied in frontier order.

Results:
* **`Determined.advance`**: what a super-step advances to.

Premise: `Env.Behaves`. A node that answers differently at another time, or a router that does, has
no behaviour in this sense, and nothing is said of it here.
-/

namespace GroupAgent.Core

open GroupAgent.Lib

variable {ν ρ : Type} {E : Env ν ρ}

/-- The stops that come from outside. -/
inductive Disturbed : Stop → Prop where
  | cancelled (runId : RunId) (nodeId : Option NodePath) (step : Nat) :
      Disturbed (.error (.cancelled runId nodeId step))
  | runTimedOut (runId : RunId) (timeout : Duration) (nodeId : Option NodePath) (step : Nat) :
      Disturbed (.error (.runTimedOut runId timeout nodeId step))
  | nodeTimedOut (runId : RunId) (timeout : Duration) (nodeId : NodePath) (step : Nat) :
      Disturbed (.error (.nodeTimedOut runId timeout nodeId step))
  | clock : Disturbed (.panic .instantOverflow)

namespace Determined

variable {D : Stop → Prop} {α : Type}

/-! ## Primitives -/

theorem ask {f : E.World → α × E.World} {a : α} (h : ∀ w, (f w).1 = a) :
    ComesTo D (Core.ask f) (.ok a) :=
  fun m => congrArg Except.ok (h m.world).symm

theorem emitWith {config : EventConfig} {event : M E GraphEvent}
    (h : Within (Loose (E := E)) event (fun _ => True) D) :
    ComesTo D (Core.emitWith config event) (.ok ()) := by
  unfold Core.emitWith
  split
  · exact comesTo_within h fun _ _ _ => rfl
  · exact comesTo_pure ()

theorem emit (config : EventConfig) (event : GraphEvent) :
    ComesTo D (Core.emit config event : M E Unit) (.ok ()) :=
  emitWith (within_pure trivial)

theorem emitIf {condition : Bool} {config : EventConfig} {event : M E GraphEvent}
    (h : Within (Loose (E := E)) event (fun _ => True) D) :
    ComesTo D (Core.emitIf condition config event) (.ok ()) := by
  unfold Core.emitIf
  split
  · exact emitWith h
  · exact comesTo_pure ()

theorem fail (ctx : RunContext) (error : GraphRunError) :
    ComesTo D (Core.fail ctx error : M E α) (.error (.error error)) := by
  unfold Core.fail
  exact comesTo_seq (emit _ _) (comesTo_throw _)

/-- A failure that counts as a disturbance. -/
theorem halt (ctx : RunContext) {error : GraphRunError} (h : D (.error error)) (r : Except Stop α) :
    ComesTo D (Core.fail ctx error : M E α) r := by
  intro m
  refine wp_mono (fail (D := D) ctx error m) (fun _ _ hok => by cases hok) fun e _ he => ?_
  rcases he with he | he
  · cases he
    exact .inr h
  · exact .inr he

theorem nodeAt (g : CompiledGraph ν ρ) (index : Nat) :
    ComesTo D (g.nodeAt index : M E (CompiledNode ν ρ Nat)) (g.realNode index) := by
  unfold CompiledGraph.nodeAt CompiledGraph.realNode
  cases g.node index with
  | ok node => exact comesTo_pure node
  | error p => exact comesTo_throw _

theorem itemAt (g : CompiledGraph ν ρ) (index : Nat) :
    ComesTo D (g.itemAt index : M E (CompiledItem ν ρ Nat)) (g.itemOr index) := by
  unfold CompiledGraph.itemAt CompiledGraph.itemOr
  cases g.items[index]? with
  | some item => exact comesTo_pure item
  | none => exact comesTo_throw _

theorem pathAt (g : CompiledGraph ν ρ) (index : Nat) :
    ComesTo D (g.pathAt index : M E NodePath) (g.pathOr index) := by
  unfold CompiledGraph.pathAt CompiledGraph.pathOr
  refine comesTo_bind (k := fun item => .ok item.path) (itemAt g index) fun item _ => ?_
  cases item <;> exact comesTo_pure _

/-! ## Control points -/

section Controls

variable (hD : ∀ e, Disturbed e → D e) {ctx : RunContext}

theorem deadlineError {runId : RunId} {nodeId : Option NodePath} {step : Nat}
    {deadline : ActiveDeadline} (h : Blames nodeId (some deadline)) :
    Within (Loose (E := E)) (ActiveControl.deadlineError runId nodeId step deadline)
      (fun error => Disturbed (.error error)) D := by
  unfold ActiveControl.deadlineError
  cases deadline with
  | run timeout instant => exact within_pure (.runTimedOut _ _ _ _)
  | node timeout instant =>
    cases nodeId with
    | none => exact absurd rfl (h timeout instant rfl)
    | some path => exact within_pure (.nodeTimedOut _ _ _ _)

theorem check {runId : RunId} {nodeId : Option NodePath} {step : Nat}
    {deadline : Option ActiveDeadline} (h : Blames nodeId deadline) :
    Within (Loose (E := E)) (ActiveControl.check runId nodeId step deadline)
      (fun found => ∀ error ∈ found, Disturbed (.error error)) D := by
  unfold ActiveControl.check
  refine within_bind (loose_steady.ask .isCancelled) fun cancelled _ => ?_
  split
  · refine within_pure ?_
    rintro _ ⟨⟩
    exact .cancelled _ _ _
  · cases deadline with
    | none => exact within_pure (by simp)
    | some deadline =>
      refine within_bind (loose_steady.ask .now) fun now _ => ?_
      split
      · refine within_map (deadlineError h) fun error herror => ?_
        rintro _ ⟨⟩
        exact herror
      · exact within_pure (by simp)

include hD

theorem control {nodeId : Option NodePath} {step : Nat} {deadline : Option ActiveDeadline}
    (h : Blames nodeId deadline) :
    ComesTo D (Core.control ctx nodeId step deadline : M E Unit) (.ok ()) := by
  unfold Core.control
  refine comesTo_within (check h) fun found hfound => ?_
  cases found with
  | none => exact comesTo_pure ()
  | some error => exact halt ctx (hD _ (hfound error rfl)) _

theorem controlRun (ctx : RunContext) (nodeId : Option NodePath) (step : Nat) :
    ComesTo D (Core.controlRun ctx nodeId step : M E Unit) (.ok ()) :=
  control hD (blames_run ctx.control nodeId)

end Controls

/-! ## Routing -/

section Routing

variable {b : Behaviour E} (hb : E.Behaves b) (g : CompiledGraph ν ρ) (ctx : RunContext)

theorem targetPath (graphPath : GraphPath) (target : Option Nat) (targetId : NodeId) :
    ComesTo D (CompiledTransition.targetPath g.pathAt graphPath target targetId : M E NodePath)
      (CompiledTransition.targetPath g.pathOr graphPath target targetId) := by
  cases target with
  | none => exact comesTo_pure _
  | some index => exact pathAt g index

theorem assertNodes : ∀ frontier : List Nat,
    ComesTo D (g.assertNodes frontier : M E Unit) (g.allNodes frontier)
  | [] => comesTo_pure ()
  | index :: frontier => by
    unfold CompiledGraph.assertNodes CompiledGraph.allNodes
    refine comesTo_bind (itemAt g index) fun item _ => ?_
    cases item with
    | node n => exact assertNodes frontier
    | enterSubgraph graphPath nested t => exact comesTo_throw _
    | exitSubgraph graphPath mountPath t => exact comesTo_throw _

include hb

theorem resolveInto (t : CompiledTransition ρ Nat) (state : E.State) (graphPath : GraphPath) :
    ComesTo D (t.resolveInto (routersOn (E := E) state) id g.pathAt graphPath)
      (t.resolveInto (b.routers state) id g.pathOr graphPath) := by
  cases t with
  | fixed target => exact comesTo_pure _
  | staticFanOut targets => exact comesTo_pure _
  | conditional router allowed =>
    refine comesTo_bind (ask (hb.route router state)) fun answer _ => ?_
    cases answer with
    | error source => exact comesTo_pure _
    | ok targetId =>
      cases hl : allowed.lookup targetId with
      | none =>
        simp only [hl]
        exact comesTo_pure _
      | some target =>
        simp only [hl]
        exact comesTo_bind (targetPath g graphPath target targetId) fun _ _ => comesTo_pure _
  | conditionalFanOut router allowed =>
    refine comesTo_bind (ask (hb.fanOutRoute router state)) fun answer _ => ?_
    match answer with
    | .error source => exact comesTo_pure _
    | .ok [] => exact comesTo_pure _
    | .ok (targetId :: selected) =>
      simp only
      cases CompiledTransition.selectAll allowed [] (targetId :: selected) with
      | error error => exact comesTo_pure _
      | ok resolved =>
        refine comesTo_bind (comesTo_mapM fun p _ => ?_) fun _ _ => comesTo_pure _
        exact targetPath g graphPath p.1 p.2

theorem resolveTransition (t : CompiledTransition ρ Nat) (state : E.State) (graphPath : GraphPath)
    (source : NodePath) (step : Nat) :
    ComesTo D (Core.resolveTransition ctx id g.pathAt t state graphPath source step)
      (b.resolve g t state graphPath source step) := by
  unfold Core.resolveTransition Behaviour.resolve
  refine comesTo_bind (resolveInto hb g t state graphPath) fun r _ => ?_
  match r with
  | .error error => exact fail ctx _
  | .ok (targets, none) => exact comesTo_pure _
  | .ok (targets, some decision) => exact comesTo_seq (emit _ _) (comesTo_pure _)

theorem normalizeFrontier (state : E.State) (step : Nat) : ∀ (hops : Nat) (frontier : List Nat)
    (boundaries : List SubgraphBoundary),
    ComesTo D (g.normalizeFrontier ctx state step hops frontier boundaries)
      (b.normalize g state step hops frontier boundaries)
  | 0, _, _ => comesTo_throw _
  | _ + 1, [], _ => comesTo_pure _
  | hops + 1, [index], boundaries => by
    unfold CompiledGraph.normalizeFrontier Behaviour.normalize
    refine comesTo_bind (itemAt g index) fun item _ => ?_
    cases item with
    | node n => exact comesTo_pure _
    | enterSubgraph graphPath nested t =>
      refine comesTo_bind (resolveTransition hb g ctx t state _ _ step) fun targets _ => ?_
      exact normalizeFrontier state step hops _ _
    | exitSubgraph graphPath mountPath t =>
      refine comesTo_bind (resolveTransition hb g ctx t state _ _ step) fun targets _ => ?_
      exact normalizeFrontier state step hops _ _
  | _ + 1, index :: second :: rest, _ => by
    unfold CompiledGraph.normalizeFrontier Behaviour.normalize
    exact comesTo_bind (k := fun _ => .ok _) (assertNodes g _) fun _ _ => comesTo_pure _

theorem routeAll (hD : ∀ e, Disturbed e → D e) (state : E.State) : ∀ (step : Nat)
    (frontier : List Nat),
    ComesTo D (Core.routeAll g.nav ctx state step frontier) (b.routeAll g state step frontier)
  | _, [] => comesTo_pure _
  | step, index :: frontier => by
    unfold Core.routeAll Behaviour.routeAll
    refine comesTo_bind (nodeAt g index) fun node _ => ?_
    refine comesTo_bind (resolveTransition hb g ctx _ state _ _ step) fun targets _ => ?_
    refine comesTo_seq (controlRun hD ctx _ _) ?_
    exact comesTo_bind (routeAll hD state (step + 1) frontier) fun rest _ => comesTo_pure _

end Routing

/-! ## Executing nodes -/

section Execute

variable {b : Behaviour E} {g : CompiledGraph ν ρ} {ctx : RunContext} {ls : LoopState E Nat}

theorem nodeAt_within {index : Nat} {n : CompiledNode ν ρ Nat}
    (hn : g.items[index]? = some (.node n)) :
    Within (Loose (E := E)) (g.nav.nodeAt index) (fun node => node = n) D := by
  rw [nodeAt_eq hn]
  exact within_pure rfl

theorem pathsOf {frontier : List Nat} (hnodes : ∀ i ∈ frontier, ∃ n, g.items[i]? = some (.node n)) :
    Within (Loose (E := E)) (Core.pathsOf g.nav frontier) (PathsOf g frontier) D := by
  unfold Core.pathsOf
  refine within_mapM fun i hi => ?_
  obtain ⟨n, hn⟩ := hnodes i hi
  refine within_map (nodeAt_within hn) ?_
  rintro _ rfl
  exact ⟨_, hn, rfl⟩

variable (hD : ∀ e, Disturbed e → D e)

include hD

theorem startNode (index : Nat) (node : CompiledNode ν ρ Nat) (step : Nat) :
    Within (Loose (E := E)) (Core.startNode ctx ls index node step)
      (fun r => r.1 = ls.attempt ctx index node step) D := by
  unfold Core.startNode
  refine within_bind (controlRun hD ctx _ _).value fun _ _ => ?_
  refine within_bind (loose_steady.ask .now) fun now _ => ?_
  refine within_bind (Steady.deadlineFrom fun _ => hD _ .clock) fun deadline _ => ?_
  refine within_bind (emit _ _).value fun _ _ => ?_
  refine within_bind (control hD (blames_some _ _)).value fun _ _ => ?_
  exact within_pure rfl

theorem finishNode {nodeId : NodePath} {step : Nat} {kind : NodeKind ν}
    {active : Option ActiveDeadline} {answer : Raced active (kind.Answer E.Update E.Value)}
    {out : Except SourceError (NodeOutcome E.Update E.Value)}
    (h : ∀ ready, answer = .ready ready → kind.outcome ready = out) :
    ComesTo D (executeNode.finishNode ctx nodeId step kind answer)
      (out.mapError fun source => .error (.nodeFailed nodeId step source)) := by
  unfold executeNode.finishNode
  cases answer with
  | cancelled => exact halt ctx (hD _ (.cancelled _ _ _)) _
  | elapsed passed _ =>
    refine comesTo_within (deadlineError (blames_some nodeId _)) fun error herror => ?_
    exact halt ctx (hD _ herror) _
  | ready answer =>
    refine comesTo_seq (controlRun hD ctx _ _) ?_
    rw [h answer rfl]
    cases out with
    | error source => exact fail ctx _
    | ok outcome => exact comesTo_pure _

/-- A node that is executed alone comes to its answer. -/
theorem executeNode (hb : E.Behaves b) (a : NodeAttempt ν E.State E.Value)
    (nodeDeadline : Option (Duration × Instant)) :
    ComesTo D (Core.executeNode ctx a nodeDeadline) (b.execute a.timeless) := by
  unfold Core.executeNode
  refine comesTo_seq (control hD (blames_some _ _)) ?_
  refine comesTo_within (R := Loose)
    (P := fun answer => ∀ ready, answer = .ready ready → a.kind.outcome ready = b.node a.timeless)
    ?_ fun answer hanswer => finishNode hD hanswer
  unfold executeNode.awaitNode
  split
  · refine within_map (P := fun answer => a.kind.outcome answer = b.node a.timeless)
      (fun m => ⟨hb.await a m.world, rfl⟩) ?_
    rintro answer hanswer _ ⟨⟩
    exact hanswer
  · exact fun m => ⟨fun ready hready => hb.select a _ m.world ready hready, rfl⟩

/-- A single execution goes on by its outcome. -/
theorem runSingle_outcome (hb : E.Behaves b) {first : Nat} {n : CompiledNode ν ρ Nat}
    (hn : g.items[first]? = some (.node n)) {r : Except Stop (E.State ⊕ InterruptRequest E.Value)}
    (hfailed : ∀ source, b.node (ls.asks first n (ls.steps + 1)) = .error source →
      r = .error (.error (.nodeFailed n.path (ls.steps + 1) source)))
    (hinterrupt : ∀ request, b.node (ls.asks first n (ls.steps + 1)) = .ok (.interrupt request) →
      r = .ok (.inr request))
    (hupdate : ∀ update, b.node (ls.asks first n (ls.steps + 1)) = .ok (.update update) →
      r = Sum.inl <$> Behaviour.apply ls.state (ls.steps + 1) [⟨n.path, update⟩]) :
    ComesTo D (Core.runSingle g.nav ctx ls first n.path (ls.steps + 1)) r := by
  -- an execution without an outcome is what the super-step comes to
  have hr : r = (b.execute (ls.asks first n (ls.steps + 1)) >>= fun _ => r) := by
    unfold Behaviour.execute
    cases hask : b.node (ls.asks first n (ls.steps + 1)) with
    | error source => exact hfailed source hask
    | ok outcome => rfl
  rw [hr]
  unfold Core.runSingle
  refine comesTo_within (nodeAt_within hn) fun node hnode => ?_
  subst hnode
  refine comesTo_within (startNode hD first node _) fun started hstarted => ?_
  obtain ⟨attempt, nodeDeadline⟩ := started
  obtain rfl : attempt = _ := hstarted
  refine comesTo_bind (executeNode hD hb _ nodeDeadline) fun outcome houtcome => ?_
  have hask : b.node (ls.asks first node (ls.steps + 1)) = .ok outcome :=
    mapError_eq_ok.mp houtcome
  cases outcome with
  | interrupt request =>
    rw [hinterrupt request hask]
    exact comesTo_pure _
  | update update =>
    rw [hupdate update hask]
    refine comesTo_seq (emit _ _) ?_
    refine comesTo_seq (controlRun hD ctx _ _) ?_
    refine comesTo_seq (controlRun hD ctx _ _) ?_
    have happly : Behaviour.apply ls.state (ls.steps + 1) [⟨node.path, update⟩] =
        (E.apply ls.state update).mapError fun source =>
          .error (.stateUpdateFailed node.path (ls.steps + 1) source) := rfl
    rw [happly]
    cases E.apply ls.state update with
    | error source => exact fail ctx _
    | ok state => exact comesTo_pure _

/-- **A super-step of one node** goes as its execution and its update say. -/
theorem runSingle (hb : E.Behaves b) {first : Nat} {n : CompiledNode ν ρ Nat}
    (hn : g.items[first]? = some (.node n)) {r : Except Stop (E.State ⊕ InterruptRequest E.Value)}
    (hran : b.Ran g ctx ls first [] r) :
    ComesTo D (Core.runSingle g.nav ctx ls first n.path (ls.steps + 1)) r := by
  cases hran with
  | spoiled hrest => exact absurd rfl hrest
  | suspended _ hn' hask =>
    rw [hn] at hn'
    cases hn'
    refine runSingle_outcome hD hb hn (fun _ h => ?_) (fun _ h => ?_) fun _ h => ?_
    all_goals
      rw [hask] at h
      cases h
    rfl
  | failed _ hn' hask =>
    rw [hn] at hn'
    cases hn'
    refine runSingle_outcome hD hb hn (fun _ h => ?_) (fun _ h => ?_) fun _ h => ?_
    all_goals
      rw [hask] at h
      cases h
    rfl
  | applied hmakes =>
    cases hmakes with
    | cons hn' hu hrest =>
      cases hrest
      rw [hn] at hn'
      cases hn'
      refine runSingle_outcome hD hb hn (fun _ h => ?_) (fun _ h => ?_) fun _ h => ?_
      all_goals
        rw [hu] at h
        cases h
      rfl

/-! ## Executing a batch -/

omit hD in
/-- The executions of a frontier, each at its place in the batch. -/
inductive Started (g : CompiledGraph ν ρ) (ctx : RunContext) (ls : LoopState E Nat) :
    Nat → List Nat → List (ParallelAttempt ν E.State E.Value) → Prop where
  | nil {offset : Nat} : Started g ctx ls offset [] []
  | cons {offset index : Nat} {frontier : List Nat} {a : ParallelAttempt ν E.State E.Value}
      {attempts : List (ParallelAttempt ν E.State E.Value)} {n : CompiledNode ν ρ Nat}
      (hn : g.items[index]? = some (.node n))
      (h : a.toNodeAttempt = ls.attempt ctx index n (ls.steps + offset + 1))
      (hoffset : a.offset = offset) (hrest : Started g ctx ls (offset + 1) frontier attempts) :
      Started g ctx ls offset (index :: frontier) (a :: attempts)

theorem startAll : ∀ {offset : Nat} {frontier : List Nat},
    (∀ i ∈ frontier, ∃ n, g.items[i]? = some (.node n)) →
    Within (Loose (E := E)) (Core.startAll g.nav ctx ls offset frontier)
      (Started g ctx ls offset frontier) D
  | _, [], _ => within_pure .nil
  | offset, index :: frontier, hnodes => by
    obtain ⟨n, hn⟩ := hnodes index List.mem_cons_self
    unfold Core.startAll
    refine within_bind (nodeAt_within hn) fun node hnode => ?_
    subst hnode
    refine within_bind (startNode hD index node _) fun started hstarted => ?_
    refine within_bind (startAll fun i hi => hnodes i (List.mem_cons_of_mem index hi))
      fun attempts hattempts => ?_
    exact within_pure (.cons hn hstarted rfl hattempts)

omit hD in
theorem Started.offsets {offset : Nat} {frontier : List Nat}
    {attempts : List (ParallelAttempt ν E.State E.Value)}
    (h : Started g ctx ls offset frontier attempts) :
    attempts.map ParallelAttempt.offset = List.range' offset frontier.length := by
  induction h with
  | nil => rfl
  | cons _ _ hoffset _ ih =>
    rw [List.map_cons, hoffset, ih, List.length_cons, List.range'_succ]

/-- Every execution of `pending` has put its update into its slot, and nothing else has. -/
structure Filled (b : Behaviour E) (pending : List (ParallelAttempt ν E.State E.Value))
    (slots filled : List (Option E.Update)) : Prop where
  length : filled.length = slots.length
  done : ∀ a ∈ pending, ∃ update, b.node a.toNodeAttempt.timeless = .ok (.update update) ∧
    filled[a.offset]? = some (some update)
  other : ∀ k : Nat, (∀ a ∈ pending, a.offset ≠ k) → filled[k]? = slots[k]?

omit hD in
/-- An execution that has completed fills its own slot, and leaves those of the others. -/
theorem Filled.of_eraseIdx {pending : List (ParallelAttempt ν E.State E.Value)}
    {slots filled : List (Option E.Update)} (hnodup : (pending.map ParallelAttempt.offset).Nodup)
    (i : Fin pending.length) (hlt : (pending.get i).offset < slots.length) {update : E.Update}
    (hupdate : b.node (pending.get i).toNodeAttempt.timeless = .ok (.update update))
    (h : Filled b (pending.eraseIdx i) (slots.set (pending.get i).offset (some update)) filled) :
    Filled b pending slots filled := by
  have hperm : (pending.get i :: pending.eraseIdx i).Perm pending :=
    List.getElem_cons_eraseIdx_perm i.isLt
  have hown : ∀ a ∈ pending.eraseIdx i, a.offset ≠ (pending.get i).offset := by
    have hnodup' := (hperm.map ParallelAttempt.offset).nodup_iff.mpr hnodup
    rw [List.map_cons, List.nodup_cons] at hnodup'
    exact fun a ha hoffset => hnodup'.1 (List.mem_map.mpr ⟨a, ha, hoffset⟩)
  refine ⟨?_, ?_, ?_⟩
  · rw [h.length, List.length_set]
  · intro a ha
    rcases List.mem_cons.mp (hperm.mem_iff.mpr ha) with rfl | ha
    · refine ⟨update, hupdate, ?_⟩
      rw [h.other _ hown, List.getElem?_set_self hlt]
    · exact h.done a ha
  · intro k hk
    rw [h.other k fun a ha => hk a (List.mem_of_mem_eraseIdx ha)]
    rw [List.getElem?_set_ne (hk _ (List.get_mem pending i))]

/-- In whatever order the pending executions complete, each fills its own slot, or one of them ends
the super-step. -/
theorem awaitAll (hb : E.Behaves b) {checkpoints : RuntimeCheckpoint} : ∀ {count : Nat}
    {pending : List (ParallelAttempt ν E.State E.Value)} {slots : List (Option E.Update)},
    pending.length = count → (pending.map ParallelAttempt.offset).Nodup →
    (∀ a ∈ pending, a.offset < slots.length) →
    Within (Loose (E := E)) (Core.awaitAll ctx checkpoints count pending slots)
      (Filled b pending slots)
      (fun e => D e ∨ ∃ a ∈ pending, b.Ruins ctx checkpoints a.toNodeAttempt e)
  | 0, pending, slots, hlen, _, _ => by
    obtain rfl := List.length_eq_zero_iff.mp hlen
    exact within_pure ⟨rfl, fun _ ha => absurd ha List.not_mem_nil, fun _ _ => rfl⟩
  | count + 1, pending, slots, hlen, hnodup, hlt => by
    unfold Core.awaitAll
    have hne : pending ≠ [] := by
      rintro rfl
      cases hlen
    rw [dif_pos hne]
    refine within_bind (P := fun r => ∃ w, (E.nextReady pending hne w).1 = r)
      (fun m => ⟨⟨m.world, rfl⟩, rfl⟩) ?_
    rintro ⟨i, answer⟩ ⟨w, hready⟩
    have hmem : pending.get i ∈ pending := List.get_mem pending i
    have hfinish : ComesTo D (executeNode.finishNode ctx (pending.get i).context.nodePath
        (pending.get i).context.step (pending.get i).kind answer)
        (b.execute (pending.get i).toNodeAttempt.timeless) :=
      finishNode hD fun ready h => by
        subst h
        exact hb.nextReady pending hne w i ready hready
    have hstop : ∀ e, D e → D e ∨ ∃ a ∈ pending, b.Ruins ctx checkpoints a.toNodeAttempt e :=
      fun _ he => .inl he
    refine within_bind (hfinish.within
      (P := fun outcome => b.node (pending.get i).toNodeAttempt.timeless = .ok outcome) ?_ ?_)
      fun outcome houtcome => ?_
    · exact fun outcome h => mapError_eq_ok.mp h
    · rintro e (he | he)
      · obtain ⟨source, hsource, rfl⟩ := mapError_eq_error.mp he
        exact .inr ⟨_, hmem, .failed hsource⟩
      · exact .inl he
    cases outcome with
    | interrupt request =>
      refine within_bind (emit _ _).value fun _ _ => ?_
      split
      · rename_i error herror
        refine (fail ctx error).within (D := D) (fun _ h => by cases h) ?_
        rintro e (he | he)
        · cases he
          exact .inr ⟨_, hmem, .interrupted houtcome herror⟩
        · exact .inl he
      · rename_i hnone
        cases checkpoints <;> cases hnone
    | update update =>
      refine within_bind (emit _ _).value fun _ _ => ?_
      refine within_bind (within_mono (controlRun hD ctx _ _).value (fun _ h => h) hstop)
        fun _ _ => ?_
      have hlen' : (pending.eraseIdx i).length = count := by
        rw [List.length_eraseIdx_of_lt i.isLt, hlen]
        rfl
      have hnodup' : ((pending.eraseIdx i).map ParallelAttempt.offset).Nodup :=
        hnodup.sublist ((List.eraseIdx_sublist pending i).map ParallelAttempt.offset)
      have hlt' : ∀ a ∈ pending.eraseIdx i,
          a.offset < (slots.set (pending.get i).offset (some update)).length := fun a ha => by
        rw [List.length_set]
        exact hlt a (List.mem_of_mem_eraseIdx ha)
      refine within_mono (awaitAll hb hlen' hnodup' hlt')
        (fun filled hfilled => hfilled.of_eraseIdx hnodup i (hlt _ hmem) houtcome) ?_
      rintro e (he | ⟨a, ha, he⟩)
      · exact .inl he
      · exact .inr ⟨a, List.mem_of_mem_eraseIdx ha, he⟩

omit hD in
/-- Executions that have all filled their slots have made one list of updates. -/
theorem Started.makes {filled : List (Option E.Update)} {offset : Nat} {frontier : List Nat}
    {attempts : List (ParallelAttempt ν E.State E.Value)}
    (h : Started g ctx ls offset frontier attempts)
    (hdone : ∀ a ∈ attempts, ∃ update, b.node a.toNodeAttempt.timeless = .ok (.update update) ∧
      filled[a.offset]? = some (some update)) :
    ∃ batch, b.Makes g ls (ls.steps + offset + 1) frontier batch ∧
      ∀ k < frontier.length, filled[offset + k]? = batch[k]?.map (some ∘ NodeUpdate.update) := by
  induction h with
  | nil => exact ⟨[], .nil, fun k hk => absurd hk (Nat.not_lt_zero k)⟩
  | @cons offset index frontier a attempts n hn hattempt hoffset _ ih =>
    obtain ⟨update, hupdate, hslot⟩ := hdone a List.mem_cons_self
    obtain ⟨batch, hmakes, hslots⟩ := ih fun a ha => hdone a (List.mem_cons_of_mem _ ha)
    rw [hattempt, LoopState.attempt_timeless] at hupdate
    refine ⟨_, .cons hn hupdate hmakes, fun k hk => ?_⟩
    cases k with
    | zero =>
      rw [hoffset] at hslot
      exact hslot
    | succ k =>
      rw [List.getElem?_cons_succ, ← hslots k (Nat.lt_of_succ_lt_succ hk), Nat.add_assoc,
        Nat.add_comm 1 k]

omit hD in
theorem Started.spoils {offset : Nat} {frontier : List Nat}
    {attempts : List (ParallelAttempt ν E.State E.Value)}
    (h : Started g ctx ls offset frontier attempts) {a : ParallelAttempt ν E.State E.Value}
    (ha : a ∈ attempts) {e : Stop} (he : b.Ruins ctx ls.checkpoints a.toNodeAttempt e) :
    b.Spoils g ctx ls (ls.steps + offset + 1) frontier e := by
  induction h with
  | nil => cases ha
  | cons hn hattempt _ _ ih =>
    rcases List.mem_cons.mp ha with rfl | ha
    · rw [hattempt] at he
      exact .head hn he.timeless
    · exact .tail (ih ha)

omit hD in
/-- Slots that hold the updates of a batch, place by place, are that batch. -/
theorem filled_eq {filled : List (Option E.Update)} {batch : List (NodeUpdate E.Update)}
    (hlen : filled.length = batch.length)
    (hslots : ∀ k < batch.length, filled[k]? = batch[k]?.map (some ∘ NodeUpdate.update)) :
    filled = batch.map (some ∘ NodeUpdate.update) := by
  refine List.ext_getElem? fun k => ?_
  rw [List.getElem?_map]
  by_cases hk : k < batch.length
  · exact hslots k hk
  · rw [List.getElem?_eq_none (by omega), List.getElem?_eq_none (by omega)]
    rfl

omit hD in
theorem zipUpdates : ∀ batch : List (NodeUpdate E.Update),
    (Core.zipUpdates (batch.map NodeUpdate.nodePath) (batch.map (some ∘ NodeUpdate.update)) :
      M E (List (NodeUpdate E.Update))) = pure batch
  | [] => rfl
  | u :: batch => by
    have hcons : (Core.zipUpdates ((u :: batch).map NodeUpdate.nodePath)
        ((u :: batch).map (some ∘ NodeUpdate.update)) : M E (List (NodeUpdate E.Update))) =
        (do let rest ← Core.zipUpdates (batch.map NodeUpdate.nodePath)
              (batch.map (some ∘ NodeUpdate.update))
            pure (u :: rest)) := rfl
    rw [hcons, zipUpdates batch, pure_bind]

omit hD in
/-- The paths of a frontier are one list. -/
theorem paths_unique {frontier : List Nat} {paths paths' : List NodePath}
    (h : PathsOf g frontier paths) (h' : PathsOf g frontier paths') : paths = paths' := by
  induction h generalizing paths' with
  | nil =>
    cases h'
    rfl
  | cons hn _ ih =>
    cases h' with
    | cons hn' hrest' =>
      obtain ⟨n, hn, rfl⟩ := hn
      obtain ⟨n', hn', rfl⟩ := hn'
      rw [hn] at hn'
      cases hn'
      rw [ih hrest']

/-- **A parallel super-step** applies the updates in frontier order, in whatever order they came. -/
theorem runParallel (hb : E.Behaves b) {first second : Nat} {rest : List Nat}
    (hnodes : ∀ i ∈ first :: second :: rest, ∃ n, g.items[i]? = some (.node n))
    {firstNode : NodePath} :
    Within (Loose (E := E))
      (Core.runParallel g.nav ctx ls (first :: second :: rest) firstNode (ls.steps + 1))
      (fun state => b.Ran g ctx ls first (second :: rest) (.ok (.inl state)))
      (fun e => D e ∨ b.Ran g ctx ls first (second :: rest) (.error e)) := by
  have hstop : ∀ e, D e → D e ∨ b.Ran g ctx ls first (second :: rest) (.error e) :=
    fun _ he => .inl he
  unfold Core.runParallel
  refine within_bind (within_mono (startAll hD hnodes) (fun _ h => h) hstop)
    fun attempts hstarted => ?_
  have hoffsets := hstarted.offsets
  have hlen : attempts.length = (first :: second :: rest).length := by
    rw [← List.length_map (f := ParallelAttempt.offset), hoffsets, List.length_range']
  refine within_bind (within_mono (awaitAll hD hb hlen ?_ ?_) (fun _ h => h) ?_)
    fun filled hfilled => ?_
  · rw [hoffsets]
    exact List.nodup_range'
  · intro a ha
    have hoffset : a.offset ∈ attempts.map ParallelAttempt.offset := List.mem_map_of_mem ha
    rw [hoffsets, List.mem_range'_1] at hoffset
    rw [List.length_replicate]
    omega
  · rintro e (he | ⟨a, ha, he⟩)
    · exact .inl he
    · exact .inr (.spoiled (List.cons_ne_nil _ _) (hstarted.spoils ha he))
  obtain ⟨batch, hmakes, hslots⟩ := hstarted.makes hfilled.done
  have hbatch : (first :: second :: rest).length = batch.length := by
    rw [hmakes.paths.length_eq, List.length_map]
  have hzip : filled = batch.map (some ∘ NodeUpdate.update) := by
    refine filled_eq ?_ fun k hk => ?_
    · rw [hfilled.length, List.length_replicate, hbatch]
    · rw [← hslots k (hbatch ▸ hk), Nat.zero_add]
  refine within_bind (within_mono (controlRun hD ctx _ _).value (fun _ h => h) hstop) fun _ _ => ?_
  refine within_bind (pathsOf hnodes) fun nodeIds hpaths => ?_
  obtain rfl := paths_unique hpaths hmakes.paths
  rw [hzip, zipUpdates, pure_bind]
  have hran : b.Ran g ctx ls first (second :: rest) _ := .applied hmakes
  have happly : Behaviour.apply ls.state (ls.steps + 1) batch =
      (E.applyBatch ls.state batch).mapError fun source => .error
        (.stateBatchUpdateFailed (batch.map NodeUpdate.nodePath) (ls.steps + 1) source) := by
    match batch, hbatch with
    | _ :: _ :: _, _ => rfl
  rw [happly] at hran
  cases hstate : E.applyBatch ls.state batch with
  | error source =>
    rw [hstate] at hran
    refine (fail ctx _).within (D := D) (fun _ h => by cases h) ?_
    rintro e (he | he)
    · cases he
      exact .inr hran
    · exact .inl he
  | ok state =>
    rw [hstate] at hran
    exact within_pure hran

theorem runFrontier (hb : E.Behaves b) {first : Nat} {rest : List Nat}
    (hnodes : ∀ i ∈ first :: rest, ∃ n, g.items[i]? = some (.node n)) {n : CompiledNode ν ρ Nat}
    (hn : g.items[first]? = some (.node n)) :
    Within (Loose (E := E)) (Core.runFrontier g.nav ctx ls first rest n.path (ls.steps + 1))
      (fun v => b.Ran g ctx ls first rest (.ok v))
      (fun e => D e ∨ b.Ran g ctx ls first rest (.error e)) := by
  unfold Core.runFrontier
  cases rest with
  | cons second rest => exact within_map (runParallel hD hb hnodes) fun state hstate => hstate
  | nil =>
    have hran : ∃ r, b.Ran g ctx ls first [] r := by
      cases hask : b.node (ls.asks first n (ls.steps + 1)) with
      | error source => exact ⟨_, .failed rfl hn hask⟩
      | ok outcome =>
        cases outcome with
        | interrupt request => exact ⟨_, .suspended rfl hn hask⟩
        | update update => exact ⟨_, .applied (.cons hn hask .nil)⟩
    obtain ⟨r, hr⟩ := hran
    refine (runSingle hD hb hn hr).within ?_ ?_
    · rintro v rfl
      exact hr
    · rintro e (rfl | he)
      · exact .inr hr
      · exact .inl he

/-! ## One super-step -/

theorem reportUpdates : ∀ {step : Nat} {frontier : List Nat},
    (∀ i ∈ frontier, ∃ n, g.items[i]? = some (.node n)) →
    ComesTo D (Core.reportUpdates g.nav ctx step frontier : M E Unit) (.ok ())
  | _, [], _ => comesTo_pure ()
  | step, index :: frontier, hnodes => by
    obtain ⟨n, hn⟩ := hnodes index List.mem_cons_self
    unfold Core.reportUpdates
    refine comesTo_within (nodeAt_within hn) fun node _ => ?_
    refine comesTo_seq (emit _ _) ?_
    refine comesTo_seq (controlRun hD ctx _ _) ?_
    exact reportUpdates fun i hi => hnodes i (List.mem_cons_of_mem index hi)

/-- The counters have room for a frontier. -/
structure Spacious (ctx : RunContext) (ls : LoopState E Nat) (frontier : List Nat) : Prop where
  steps_le : ls.steps + frontier.length ≤ ctx.absoluteStepLimit
  limit_le : ctx.absoluteStepLimit ≤ usizeMax
  superstep_le : ls.superstep + 1 ≤ usizeMax

/-- A super-step is admitted where there is room for it. -/
theorem accept {first : Nat} {rest : List Nat}
    (hnodes : ∀ i ∈ first :: rest, ∃ n, g.items[i]? = some (.node n)) {n : CompiledNode ν ρ Nat}
    (hn : g.items[first]? = some (.node n))
    (hroom : (∀ e, Budgeted e → D e) ∨ Spacious ctx ls (first :: rest)) :
    Within (Loose (E := E)) (g.accept ctx ls first rest)
      (fun r => r = (n, ls.steps + 1, ls.superstep + 1)) D := by
  have hcounter : ∀ a c : Nat, (Spacious ctx ls (first :: rest) → a + c ≤ usizeMax) →
      usizeMax < a + c → D (.panic .counterOverflow) := by
    intro a c hle hlt
    rcases hroom with hbudget | hroom
    · exact hbudget _ trivial
    · exact absurd (hle hroom) (Nat.not_le_of_lt hlt)
  unfold CompiledGraph.accept
  refine within_bind (nodeAt_within hn) fun firstNode hfirst => ?_
  refine within_bind (Steady.usizeAdd (hcounter _ _ fun hroom => ?_)) fun firstStep hstep => ?_
  · have hsteps := hroom.steps_le
    have hlimit := hroom.limit_le
    rw [List.length_cons] at hsteps
    omega
  refine within_bind (controlRun hD ctx _ _).value fun _ _ => ?_
  refine within_bind (P := fun _ => True) ?_ fun _ _ => ?_
  · unfold enforceBudget
    simp only
    split
    · exact within_pure trivial
    · rename_i blocked hblocked
      have hover : ∀ e, Budgeted e → D e := by
        rcases hroom with hbudget | hroom
        · exact hbudget
        · obtain ⟨hlt, -⟩ := List.getElem?_eq_some_iff.mp hblocked
          have hsteps := hroom.steps_le
          omega
      obtain ⟨node, hnode⟩ := hnodes blocked (List.mem_of_getElem? hblocked)
      refine within_bind (nodeAt_within hnode) fun node _ => ?_
      refine within_bind (Steady.usizeAdd fun _ => hover _ trivial) fun step _ => ?_
      have hexceeded : D (.error (.maxStepsExceeded ctx.maxSteps node.path step)) := hover _ trivial
      exact within_mono (halt ctx hexceeded (.ok ())).value (fun _ _ => trivial) fun _ h => h
  refine within_bind (Steady.usizeAdd (hcounter _ _ Spacious.superstep_le))
    fun superstep hsuper => ?_
  refine within_bind (emitIf (within_map (pathsOf hnodes) fun _ _ => trivial)).value fun _ _ => ?_
  exact within_pure (by rw [hfirst, hstep.1, hsuper.1])

theorem follow (hb : E.Behaves b) {first : Nat} {rest : List Nat}
    (hnodes : ∀ i ∈ first :: rest, ∃ n, g.items[i]? = some (.node n)) (n : CompiledNode ν ρ Nat)
    (v : E.State ⊕ InterruptRequest E.Value) :
    ComesTo D (g.follow ctx ls (first :: rest) n (ls.steps + 1) (ls.superstep + 1) v)
      (b.carry g ctx.hops ls (first :: rest) n.graphPath v) := by
  cases v with
  | inr request => exact comesTo_pure _
  | inl state =>
    unfold CompiledGraph.follow Behaviour.carry
    refine comesTo_seq (reportUpdates hD hnodes) ?_
    refine comesTo_bind (routeAll hb g ctx hD state _ _) fun targets _ => ?_
    refine comesTo_bind (normalizeFrontier hb g ctx state _ ctx.hops _ []) fun settled _ => ?_
    exact comesTo_pure _

/-- **What a super-step advances to.** -/
theorem advance (hb : E.Behaves b) {first : Nat} {rest : List Nat}
    (hnodes : ∀ i ∈ first :: rest, ∃ n, g.items[i]? = some (.node n))
    (hroom : (∀ e, Budgeted e → D e) ∨ Spacious ctx ls (first :: rest)) :
    Within (Loose (E := E)) (Core.advance g.nav ctx ls first rest)
      (fun a => b.Advances g ctx ls first rest (.ok a))
      (fun e => D e ∨ b.Advances g ctx ls first rest (.error e)) := by
  obtain ⟨n, hn⟩ := hnodes first List.mem_cons_self
  rw [advance_eq]
  refine within_bind (within_mono (accept hD hnodes hn hroom) (fun _ h => h) fun _ h => .inl h) ?_
  rintro _ rfl
  refine within_bind (within_mono (runFrontier hD hb hnodes hn) (fun _ h => h) ?_) fun v hv => ?_
  · rintro e (he | he)
    · exact .inl he
    · exact .inr ⟨n, _, hn, he, rfl⟩
  · refine (follow hD hb hnodes n v).within ?_ ?_
    · intro a ha
      exact ⟨n, _, hn, hv, ha.symm⟩
    · rintro e (he | he)
      · exact .inr ⟨n, _, hn, hv, he.symm⟩
      · exact .inl he

end Execute

end Determined

end GroupAgent.Core
