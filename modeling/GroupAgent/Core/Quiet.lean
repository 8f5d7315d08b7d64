import GroupAgent.Core.Resume
import GroupAgent.Core.Coactive

/-!
# What the runtime's steps do

One lemma for each piece of the run loop (`runtime.rs:369-890` and what it calls) that writes
nothing to the checkpointer: what it returns, and how it may stop. `Quiet x P S` says that `x`
returns a `P` or stops with an `S` and leaves the log of writes alone.

* `Fine tol` are the stops that are no fault of the loop: an error, and what the tolerance `tol`
  tolerates (an overflow of a counter or of the clock, the bound on hops, a frontier with
  structural items among others).
* The environment's own steps are quiet by the way a machine is built: a future of a node cannot
  reach the log.

Saves and the creation of a branch are not quiet; they are in `Saving` and `Calls`. The pieces that
look at an index are in `Advance`, since they need to know that it is in range.
-/

namespace GroupAgent.Core

open GroupAgent.Lib

variable {ν ρ : Type} {E : Env ν ρ}

/-! ## Resolved targets -/

namespace CompiledTransition

variable {ι : Type}

/-- The target lists a transition can resolve to, over the answers of its router. -/
inductive Resolves (key : ι → Nat) : CompiledTransition ρ ι → List ι → Prop where
  | fixed (target : Option ι) : Resolves key (.fixed target) target.toList
  | staticFanOut (targets : List ι) : Resolves key (.staticFanOut targets) targets
  | conditional {router : ρ} {allowed : List (NodeId × Option ι)} {targetId : NodeId}
      {target : Option ι} (h : allowed.lookup targetId = some target) :
      Resolves key (.conditional router allowed) target.toList
  | conditionalFanOut {router : ρ} {allowed : List (NodeId × Option ι)} {selected : List NodeId}
      {resolved : List (Option ι × NodeId)} (hne : selected ≠ [])
      (h : selectAll allowed [] selected = .ok resolved) :
      Resolves key (.conditionalFanOut router allowed)
        ((endLast key resolved).filterMap Prod.fst)

theorem mem_of_lookup {α β : Type} [BEq α] [LawfulBEq α] {k : α} {v : β} : ∀ {l : List (α × β)},
    l.lookup k = some v → (k, v) ∈ l
  | [], h => by cases h
  | (k', v') :: l, h => by
    rw [List.lookup_cons] at h
    by_cases hk : k = k'
    · subst hk
      rw [beq_self_eq_true] at h
      cases h
      exact List.mem_cons_self
    · have hne : (k == k') = false := by simpa using hk
      rw [hne] at h
      exact List.mem_cons_of_mem _ (mem_of_lookup h)

theorem mem_endLast {key : ι → Nat} {resolved : List (Option ι × NodeId)} {p : Option ι × NodeId} :
    p ∈ endLast key resolved ↔ p ∈ resolved := by
  unfold endLast
  rw [List.mem_append, mem_sortByKey, List.mem_filter, List.mem_filter]
  cases p.1 <;> simp

theorem selectAll_mem {allowed : List (NodeId × Option ι)} : ∀ {selected seen : List NodeId}
    {resolved : List (Option ι × NodeId)}, selectAll allowed seen selected = .ok resolved →
      ∀ p ∈ resolved, allowed.lookup p.2 = some p.1
  | [], _, _, h, p, hp => by
    cases h
    cases hp
  | targetId :: selected, seen, resolved, h, p, hp => by
    unfold selectAll at h
    split at h
    · cases h
    cases hl : allowed.lookup targetId with
    | none => simp only [hl] at h; cases h
    | some target =>
      simp only [hl] at h
      obtain ⟨rest, hrest, hr⟩ := bind_eq_ok.mp h
      cases hr
      rcases List.mem_cons.mp hp with rfl | hp
      · exact hl
      · exact selectAll_mem hrest p hp

theorem Resolves.mem {key : ι → Nat} {t : CompiledTransition ρ ι} {ts : List ι}
    (h : Resolves key t ts) : ∀ a ∈ ts, a ∈ t.targets := by
  intro a ha
  cases h with
  | fixed target => exact ha
  | staticFanOut targets => exact ha
  | @conditional router allowed targetId target hl =>
    refine List.mem_filterMap.mpr ⟨(targetId, target), mem_of_lookup hl, ?_⟩
    simpa using ha
  | @conditionalFanOut router allowed selected resolved hne hs =>
    obtain ⟨p, hp, hpa⟩ := List.mem_filterMap.mp ha
    have hl := selectAll_mem hs p (mem_endLast.mp hp)
    exact List.mem_filterMap.mpr ⟨(p.2, p.1), mem_of_lookup hl, hpa⟩

/-- Only a fan-out resolves to two targets. -/
theorem Resolves.isFanOut {key : ι → Nat} {t : CompiledTransition ρ ι} {ts : List ι}
    (h : Resolves key t ts) {a b : ι} (ha : a ∈ ts) (hb : b ∈ ts) (hne : a ≠ b) :
    t.isFanOut = true := by
  cases h with
  | fixed target =>
    rw [Option.mem_toList] at ha hb
    exact absurd (Option.some.inj (ha.symm.trans hb)) hne
  | staticFanOut targets => rfl
  | conditional hl =>
    rw [Option.mem_toList] at ha hb
    exact absurd (Option.some.inj (ha.symm.trans hb)) hne
  | conditionalFanOut hs => rfl

end CompiledTransition

/-! ## Stops -/

/-- What is tolerated beside errors: overflows of a counter or of the clock, the hop bound, and
frontiers with structural items among others. -/
structure Tolerance where
  overflow : Prop
  hops : Prop
  mixed : Prop

def Tolerance.all : Tolerance := ⟨True, True, True⟩

/-- Limits of the model and of the machine, but no faulty frontier. -/
def Tolerance.limits : Tolerance := ⟨True, True, False⟩

/-- Nothing beside errors. -/
def Tolerance.none : Tolerance := ⟨False, False, False⟩

/-- The stops a run may end in: an error, or what is tolerated. -/
def Fine (tol : Tolerance) : Stop → Prop
  | .error _ => True
  | .outOfFuel => tol.hops
  | .panic .counterOverflow => tol.overflow
  | .panic .instantOverflow => tol.overflow
  | .panic .mixedFrontier => tol.mixed
  | .panic _ => False

/-- The computation returns a `P` or stops with an `S`, and writes nothing to the checkpointer. -/
abbrev Quiet {α : Type} (x : M E α) (P : α → Prop) (S : Stop → Prop) : Prop :=
  Yields Machine.writes x P S

section Primitives

variable {α : Type} {S : Stop → Prop} {tol : Tolerance}

theorem quiet_ask (f : E.World → α × E.World) : Quiet (ask f) (fun a => ∃ w, (f w).1 = a) S :=
  fun m => ⟨⟨m.world, rfl⟩, rfl⟩

theorem quiet_emitWith {config : EventConfig} {event : M E GraphEvent}
    (h : Quiet event (fun _ => True) S) : Quiet (emitWith config event) (fun _ => True) S := by
  unfold emitWith
  split
  · exact yields_bind h fun _ _ => yields_modify fun _ => rfl
  · exact yields_pure trivial

theorem quiet_emit (config : EventConfig) (event : GraphEvent) :
    Quiet (emit config event : M E Unit) (fun _ => True) S :=
  quiet_emitWith (yields_pure trivial)

theorem quiet_emitAll (config : EventConfig) (events : SubgraphBoundary → GraphEvent)
    (boundaries : List SubgraphBoundary) :
    Quiet (boundaries.forM fun boundary => emit config (events boundary) : M E Unit)
      (fun _ => True) S :=
  yields_forM fun _ _ => quiet_emit config _

theorem quiet_fail (ctx : RunContext) (error : GraphRunError) {P : α → Prop} :
    Quiet (fail ctx error : M E α) P (Fine tol) := by
  unfold fail
  exact yields_seq (quiet_emit _ _) (yields_throw trivial)

theorem quiet_orFail (ctx : RunContext) {r : Except GraphRunError α} {P : α → Prop}
    (h : ∀ a, r = .ok a → P a) : Quiet (orFail ctx r : M E α) P (Fine tol) := by
  unfold orFail
  cases r with
  | ok a => exact yields_pure (h a rfl)
  | error error => exact quiet_fail ctx error

theorem quiet_usizeAdd {a b : Nat} (h : tol.overflow ∨ a + b ≤ usizeMax) :
    Quiet (usizeAdd a b : M E Nat) (fun c => c = a + b ∧ a + b ≤ usizeMax) (Fine tol) := by
  unfold usizeAdd
  split
  · rename_i hle
    exact yields_pure ⟨rfl, hle⟩
  · rename_i hgt
    rcases h with h | h
    · exact yields_throw h
    · exact absurd h hgt

theorem quiet_instantAdd {start : Instant} {timeout : Duration}
    (h : tol.overflow ∨ start + timeout ≤ E.instantMax) :
    Quiet (instantAdd start timeout : M E Instant) (fun _ => True) (Fine tol) := by
  unfold instantAdd
  split
  · exact yields_pure trivial
  · rename_i hgt
    rcases h with h | h
    · exact yields_throw h
    · exact absurd h hgt

/-- Adding the timeout to any reading of the clock stays in range. -/
def ClockFits (E : Env ν ρ) (timeout : Option Duration) : Prop :=
  ∀ w t, timeout = some t → (E.now w).1 + t ≤ E.instantMax

theorem quiet_emitIf {condition : Bool} {config : EventConfig} {event : M E GraphEvent}
    (h : Quiet event (fun _ => True) S) : Quiet (emitIf condition config event) (fun _ => True) S := by
  unfold emitIf
  split
  · exact quiet_emitWith h
  · exact yields_pure trivial

end Primitives

/-! ## Control points -/

section Controls

variable {α : Type} {tol : Tolerance}

/-- A node deadline is only in force where a node is named. -/
def Blames (nodeId : Option NodePath) (deadline : Option ActiveDeadline) : Prop :=
  ∀ timeout instant, deadline = some (.node timeout instant) → nodeId ≠ none

theorem blames_run (c : ActiveControl) (nodeId : Option NodePath) :
    Blames nodeId (c.deadline none) := by
  intro timeout instant h
  unfold ActiveControl.deadline at h
  split at h <;> simp_all

theorem blames_some (path : NodePath) (deadline : Option ActiveDeadline) :
    Blames (some path) deadline := fun _ _ _ => by simp

theorem quiet_deadlineError {runId : RunId} {nodeId : Option NodePath} {step : Nat}
    {deadline : ActiveDeadline} (h : Blames nodeId (some deadline)) :
    Quiet (ActiveControl.deadlineError runId nodeId step deadline : M E GraphRunError)
      (fun _ => True) (Fine tol) := by
  unfold ActiveControl.deadlineError
  cases deadline with
  | run timeout instant => exact yields_pure trivial
  | node timeout instant =>
    cases nodeId with
    | none => exact absurd rfl (h timeout instant rfl)
    | some path => exact yields_pure trivial

theorem quiet_check {runId : RunId} {nodeId : Option NodePath} {step : Nat}
    {deadline : Option ActiveDeadline} (h : Blames nodeId deadline) :
    Quiet (ActiveControl.check runId nodeId step deadline : M E (Option GraphRunError))
      (fun _ => True) (Fine tol) := by
  unfold ActiveControl.check
  refine yields_bind (quiet_ask _) fun cancelled _ => ?_
  split
  · exact yields_pure trivial
  · cases deadline with
    | none => exact yields_pure trivial
    | some deadline =>
      refine yields_bind (quiet_ask _) fun now _ => ?_
      split
      · exact yields_map (quiet_deadlineError h) fun _ _ => trivial
      · exact yields_pure trivial

theorem quiet_control {ctx : RunContext} {nodeId : Option NodePath} {step : Nat}
    {deadline : Option ActiveDeadline} (h : Blames nodeId deadline) :
    Quiet (control ctx nodeId step deadline : M E Unit) (fun _ => True) (Fine tol) := by
  unfold control
  refine yields_bind (quiet_check h) fun error _ => ?_
  cases error with
  | none => exact yields_pure trivial
  | some error => exact quiet_fail ctx error

theorem quiet_controlRun (ctx : RunContext) (nodeId : Option NodePath) (step : Nat) :
    Quiet (controlRun ctx nodeId step : M E Unit) (fun _ => True) (Fine tol) :=
  quiet_control (blames_run ctx.control nodeId)

theorem quiet_deadlineFrom {timeout : Option Duration} (h : tol.overflow ∨ ClockFits E timeout)
    {started : Instant} (hstarted : ∃ w, (E.now w).1 = started) :
    Quiet (ActiveControl.deadlineFrom started timeout : M E (Option (Duration × Instant)))
      (fun _ => True) (Fine tol) := by
  unfold ActiveControl.deadlineFrom
  cases timeout with
  | none => exact yields_pure trivial
  | some timeout =>
    obtain ⟨w, rfl⟩ := hstarted
    refine yields_bind (quiet_instantAdd (h.imp_right fun hfits => hfits w timeout rfl)) fun _ _ => ?_
    exact yields_pure trivial

theorem quiet_newControl {config : RunControl} (h : tol.overflow ∨ ClockFits E config.runTimeout)
    {now : Instant} (hnow : ∃ w, (E.now w).1 = now) :
    Quiet (ActiveControl.new config now : M E ActiveControl)
      (fun c => c.nodeTimeout = config.nodeTimeout) (Fine tol) := by
  unfold ActiveControl.new
  exact yields_bind (quiet_deadlineFrom h hnow) fun _ _ => yields_pure rfl

end Controls

/-! ## Nodes -/

section Nodes

variable {tol : Tolerance} {ctx : RunContext} {ι : Type} [DecidableEq ι]

theorem quiet_finishNode {nodeId : NodePath} {step : Nat} {kind : NodeKind ν}
    {active : Option ActiveDeadline} (answer : Raced active (kind.Answer E.Update E.Value)) :
    Quiet (executeNode.finishNode ctx nodeId step kind answer) (fun _ => True) (Fine tol) := by
  unfold executeNode.finishNode
  cases answer with
  | cancelled => exact quiet_fail ctx _
  | elapsed passed h =>
    refine yields_bind (quiet_deadlineError (blames_some nodeId _)) fun error _ => ?_
    exact quiet_fail ctx error
  | ready answer =>
    refine yields_seq (quiet_controlRun _ _ _) ?_
    split
    · exact quiet_fail ctx _
    · exact yields_pure trivial

theorem quiet_executeNode (attempt : NodeAttempt ν E.State E.Value)
    (nodeDeadline : Option (Duration × Instant)) :
    Quiet (executeNode ctx attempt nodeDeadline) (fun _ => True) (Fine tol) := by
  unfold executeNode
  refine yields_seq (quiet_control (blames_some _ _)) ?_
  refine yields_bind (P := fun _ => True) ?_ fun answer _ => quiet_finishNode answer
  unfold executeNode.awaitNode
  split
  · exact yields_map (quiet_ask _) fun _ _ => trivial
  · exact yields_mono (quiet_ask _) (fun _ _ => trivial) fun _ h => h

theorem quiet_startNode (hclock : tol.overflow ∨ ClockFits E ctx.control.nodeTimeout)
    (ls : LoopState E ι) (index : ι) (node : CompiledNode ν ρ ι) (step : Nat) :
    Quiet (startNode ctx ls index node step) (fun _ => True) (Fine tol) := by
  unfold startNode
  refine yields_seq (quiet_controlRun _ _ _) ?_
  refine yields_bind (quiet_ask _) fun now hnow => ?_
  refine yields_bind (quiet_deadlineFrom hclock hnow) fun deadline _ => ?_
  refine yields_seq (quiet_emit _ _) ?_
  refine yields_seq (quiet_control (blames_some _ _)) ?_
  exact yields_pure trivial

end Nodes

/-! ## Following transitions -/

section Follow

variable {g : CompiledGraph ν ρ} {tol : Tolerance} {ctx : RunContext} {φ : Type}
  {view : Machine E → φ}

theorem yields_itemAt {index : Nat} {item : CompiledItem ν ρ Nat}
    (h : g.items[index]? = some item) {S : Stop → Prop} :
    Yields view (g.itemAt index : M E (CompiledItem ν ρ Nat)) (fun x => x = item) S := by
  unfold CompiledGraph.itemAt
  rw [h]
  exact yields_pure rfl

theorem nodeAt_eq {index : Nat} {node : CompiledNode ν ρ Nat}
    (h : g.items[index]? = some (.node node)) :
    (g.nav.nodeAt index : M E (CompiledNode ν ρ Nat)) = pure node := by
  show g.nodeAt index = _
  unfold CompiledGraph.nodeAt CompiledGraph.node
  rw [h]
  rfl

theorem yields_nodeAt {index : Nat} (h : ∃ n, g.items[index]? = some (.node n)) {S : Stop → Prop} :
    Yields view (g.nodeAt index : M E (CompiledNode ν ρ Nat))
      (fun n => g.items[index]? = some (.node n)) S := by
  obtain ⟨n, hn⟩ := h
  unfold CompiledGraph.nodeAt CompiledGraph.node
  rw [hn]
  exact yields_pure rfl

theorem yields_pathAt {index : Nat} (h : ∃ item, g.items[index]? = some item) {S : Stop → Prop} :
    Yields view (g.pathAt index : M E NodePath) (fun _ => True) S := by
  obtain ⟨item, hitem⟩ := h
  unfold CompiledGraph.pathAt
  refine yields_bind (yields_itemAt hitem) fun x _ => ?_
  split <;> exact yields_pure trivial

theorem yields_targetPath {target : Option Nat} {targetId : NodeId} {graphPath : GraphPath}
    (h : ∀ a ∈ target, ∃ item, g.items[a]? = some item) {S : Stop → Prop} :
    Yields view (CompiledTransition.targetPath g.pathAt graphPath target targetId : M E NodePath)
      (fun _ => True) S := by
  unfold CompiledTransition.targetPath
  cases target with
  | none => exact yields_pure trivial
  | some index => exact yields_pathAt (h index rfl)

/-- A transition whose targets exist resolves to a list of them, or to an error. -/
theorem quiet_resolveInto {t : CompiledTransition ρ Nat} {state : E.State} {graphPath : GraphPath}
    (h : ∀ a ∈ t.targets, ∃ item, g.items[a]? = some item) {S : Stop → Prop} :
    Quiet (t.resolveInto (routersOn state) id g.pathAt graphPath :
        M E (Except TransitionError (List Nat × Option RouteDecision)))
      (fun r => ∀ ts d, r = .ok (ts, d) → t.Resolves id ts) S := by
  cases t with
  | fixed target => exact yields_pure fun ts d hr => by cases hr; exact .fixed target
  | staticFanOut targets => exact yields_pure fun ts d hr => by cases hr; exact .staticFanOut targets
  | conditional router allowed =>
    refine yields_bind (quiet_ask _) fun answer _ => ?_
    cases answer with
    | error source => exact yields_pure fun ts d hr => by cases hr
    | ok targetId =>
      cases hl : allowed.lookup targetId with
      | none =>
        simp only [hl]
        exact yields_pure fun ts d hr => by cases hr
      | some target =>
        simp only [hl]
        have hmem := CompiledTransition.mem_of_lookup hl
        refine yields_bind (yields_targetPath fun a ha => h a ?_) fun path _ => ?_
        · exact List.mem_filterMap.mpr ⟨_, hmem, ha⟩
        · exact yields_pure fun ts d hr => by cases hr; exact .conditional hl
  | conditionalFanOut router allowed =>
    refine yields_bind (quiet_ask _) fun answer _ => ?_
    cases answer with
    | error source => exact yields_pure fun ts d hr => by cases hr
    | ok selected =>
      cases selected with
      | nil => exact yields_pure fun ts d hr => by cases hr
      | cons targetId selected =>
        simp only
        cases hs : CompiledTransition.selectAll allowed [] (targetId :: selected) with
        | error error => exact yields_pure fun ts d hr => by cases hr
        | ok resolved =>
          simp only
          refine yields_bind (P := fun _ => True) ?_ fun paths _ => ?_
          · refine yields_mono (yields_mapM (P := fun _ _ => True) fun p hp => ?_)
              (fun _ _ => trivial) fun _ h => h
            refine yields_targetPath fun a ha => h a ?_
            have hl := CompiledTransition.selectAll_mem hs p (CompiledTransition.mem_endLast.mp hp)
            exact List.mem_filterMap.mpr ⟨_, CompiledTransition.mem_of_lookup hl, ha⟩
          · exact yields_pure fun ts d hr => by
              cases hr
              exact .conditionalFanOut (by simp) hs

theorem quiet_resolveTransition {t : CompiledTransition ρ Nat} {state : E.State}
    {graphPath : GraphPath} {source : NodePath} {step : Nat}
    (h : ∀ a ∈ t.targets, ∃ item, g.items[a]? = some item) :
    Quiet (resolveTransition ctx id g.pathAt t state graphPath source step) (t.Resolves id)
      (Fine tol) := by
  unfold resolveTransition
  refine yields_bind (quiet_resolveInto h) fun r hr => ?_
  split
  · exact quiet_fail ctx _
  · exact yields_pure (hr _ _ rfl)
  · refine yields_seq (quiet_emit _ _) ?_
    exact yields_pure (hr _ _ rfl)

end Follow

end GroupAgent.Core
