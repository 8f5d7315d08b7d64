import GroupAgent.Core.Telling

/-!
# The subgraphs a run crosses

Between two frontiers a run follows structural items: the targets its transitions resolve to
(`runtime.rs:978-1032`) are normalized (900-974). It tells the routing decisions on the way, and
which subgraphs it entered and left when it gets there (236-239).

* `Crosses`: a walk from one namespace to another, one mount at a time, entered or left.
* `Stays`: targets that are reached in a namespace. `Settles`: a frontier that is.
* `Settled`: what normalizing returns, a frontier of the namespace the walk leads to.

Results:
* `tells_normalizeFrontier`: normalizing targets tells of the routers on the way.
* **`tells_settle`**: normalizing targets that are reached in one namespace crosses to the
  namespace of the frontier it ends in, which is the root if nothing is left to execute.

The boundaries are those of one super-step, reported after its event. That an event names what the
run did is `Telling`; the grammar of the whole stream is `Protocol`.
-/

namespace GroupAgent.Core

open GroupAgent.Lib

variable {ν ρ : Type} {E : Env ν ρ}

/-! ## Walks -/

/-- The subgraph boundaries lead from one namespace to another. -/
inductive Crosses : GraphPath → List SubgraphBoundary → GraphPath → Prop where
  | nil {p : GraphPath} : Crosses p [] p
  | started {p q : GraphPath} {boundaries : List SubgraphBoundary} (hroot : q ≠ .root)
      (hwalk : Crosses p boundaries q.parent) : Crosses p (boundaries ++ [.started q]) q
  | completed {p q : GraphPath} {boundaries : List SubgraphBoundary} (hroot : q ≠ .root)
      (hwalk : Crosses p boundaries q) : Crosses p (boundaries ++ [.completed q]) q.parent

/-- Items that are reached in a namespace, which is the root if there are none. -/
structure Stays (g : CompiledGraph ν ρ) (p : GraphPath) (l : List Nat) : Prop where
  house : ∀ i ∈ l, ∃ item, g.items[i]? = some item ∧ item.house = p
  root : l = [] → p = .root

/-- Real nodes of a namespace, which is the root if there are none. -/
structure Settles (g : CompiledGraph ν ρ) (p : GraphPath) (l : List Nat) : Prop where
  node : ∀ i ∈ l, ∃ n, g.items[i]? = some (.node n) ∧ n.path.graphPath = p
  root : l = [] → p = .root

section Targets

variable {g : CompiledGraph ν ρ} {ts : List Nat}

/-- The targets of a node or an exit stay in its namespace, and so does its exit. -/
theorem stays_orScopeExit (hg : Placed g) (hh : Housed g) {i : Nat} {item : CompiledItem ν ρ Nat}
    (hi : g.items[i]? = some item)
    (h : ∀ j ∈ ts, ∃ item', g.items[j]? = some item' ∧ item'.isExit = false ∧
      item'.path.graphPath = item.path.graphPath) :
    Stays g item.path.graphPath (g.orScopeExit item.path.graphPath ts) := by
  unfold CompiledGraph.orScopeExit
  cases ts with
  | cons first ts =>
    refine ⟨fun j hj => ?_, nofun⟩
    obtain ⟨item', hitem', hexit, hpath⟩ := h j hj
    exact ⟨item', hitem', (CompiledItem.house_of_not_exit hexit).trans hpath⟩
  | nil =>
    simp only [List.isEmpty_nil, if_true]
    cases hexit : g.scopeExit item.path.graphPath with
    | none =>
      refine ⟨nofun, fun _ => ?_⟩
      obtain hroot | ⟨exit, hsome⟩ := hh.scope i item hi
      · exact hroot
      · rw [hexit] at hsome
        cases hsome
    | some exit =>
      obtain ⟨mountPath, t, hitem⟩ := hg.scopeExit _ exit hexit
      refine ⟨fun j hj => ?_, nofun⟩
      obtain rfl := List.mem_singleton.mp hj
      exact ⟨_, hitem, rfl⟩

theorem Stays.settles {p : GraphPath} (h : Stays g p ts)
    (hnodes : ∀ i ∈ ts, ∃ n, g.items[i]? = some (.node n)) : Settles g p ts where
  node i hi := by
    obtain ⟨n, hn⟩ := hnodes i hi
    obtain ⟨item, hitem, hhouse⟩ := h.house i hi
    rw [hn] at hitem
    cases hitem
    exact ⟨n, hn, hhouse⟩
  root := h.root

end Targets

/-! ## Transitions -/

section Transitions

variable {mode : StreamMode} {maxSteps : Nat} {m₀ : Machine E} {t : Telling} {ctx : RunContext}
  {g : CompiledGraph ν ρ}

theorem tells_targetPath {target : Option Nat} {targetId : NodeId} {graphPath : GraphPath}
    (h : ∀ a ∈ target, ∃ item, g.items[a]? = some item) : Tells mode maxSteps m₀ t
      (CompiledTransition.targetPath g.pathAt graphPath target targetId : M E NodePath)
      fun _ t' => t' = t := by
  have hsame : Within (SameView id) (CompiledTransition.targetPath g.pathAt graphPath target
      targetId : M E NodePath) (fun _ => True) (fun _ => False) := yields_targetPath h
  refine moves_mono (hsame.moves ?_ fun _ he => he.elim) (fun _ _ ht => ht.1) fun _ _ he => he
  rintro m m' rfl hm
  exact hm

theorem tells_resolveInto {transition : CompiledTransition ρ Nat} {state : E.State}
    {graphPath : GraphPath} (h : ∀ a ∈ transition.targets, ∃ item, g.items[a]? = some item) :
    Tells mode maxSteps m₀ t (transition.resolveInto (routersOn state) id g.pathAt graphPath :
      M E (Except TransitionError (List Nat × Option RouteDecision))) fun _ t' => t' = t := by
  cases transition with
  | fixed target => exact moves_pure rfl
  | staticFanOut targets => exact moves_pure rfl
  | conditional router allowed =>
    refine moves_bind (tells_ask _) ?_
    rintro answer t rfl
    cases answer with
    | error source => exact moves_pure rfl
    | ok targetId =>
      cases hl : allowed.lookup targetId with
      | none =>
        simp only [hl]
        exact moves_pure rfl
      | some target =>
        simp only [hl]
        refine moves_bind (tells_targetPath fun a ha => h a ?_) ?_
        · exact List.mem_filterMap.mpr ⟨_, CompiledTransition.mem_of_lookup hl, ha⟩
        · rintro path t rfl
          exact moves_pure rfl
  | conditionalFanOut router allowed =>
    refine moves_bind (tells_ask _) ?_
    rintro answer t rfl
    cases answer with
    | error source => exact moves_pure rfl
    | ok selected =>
      cases selected with
      | nil => exact moves_pure rfl
      | cons targetId selected =>
        cases hs : CompiledTransition.selectAll allowed [] (targetId :: selected) with
        | error error =>
          simp only [hs]
          exact moves_pure rfl
        | ok resolved =>
          simp only [hs]
          refine moves_bind (moves_mapM fun p hp => tells_targetPath fun a ha => h a ?_) ?_
          · have hl := CompiledTransition.selectAll_mem hs p (CompiledTransition.mem_endLast.mp hp)
            exact List.mem_filterMap.mpr ⟨_, CompiledTransition.mem_of_lookup hl, ha⟩
          · rintro paths t rfl
            exact moves_pure rfl

/-- A listener is told of the decisions of routers, wherever it stands. -/
theorem tells_resolveTransition (h : Live ctx t) {superstep : Option Nat}
    {boundary : StreamBoundary} (hphase : t.reader.phase = .standing superstep boundary)
    (hresolving : boundary.resolving) {transition : CompiledTransition ρ Nat} {state : E.State}
    {graphPath : GraphPath} {source : NodePath} {step : Nat}
    (hexists : ∀ a ∈ transition.targets, ∃ item, g.items[a]? = some item) :
    Tells mode maxSteps m₀ t
      (resolveTransition ctx id g.pathAt transition state graphPath source step) fun targets t' =>
        t' = t ∧ transition.Resolves id targets := by
  have hresolves : Quiet (resolveTransition ctx id g.pathAt transition state graphPath source step)
      (transition.Resolves id) (Fine .all) := quiet_resolveTransition hexists
  refine moves_mono (Moves.and (P := fun _ t' => t' = t) ?_ hresolves) (fun _ _ ht => ht)
    fun _ _ he => he
  have htold : ∀ decision : RouteDecision, Tells mode maxSteps m₀ t
      (emit ctx.events (decision.event ctx.runId source step) : M E Unit) fun _ t' => t' = t := by
    intro decision
    have hsame : t = ⟨t.reader, none⟩ := h.eq rfl
    cases decision with
    | single target =>
      refine moves_mono (tells_emit h (.routeSelected hphase hresolving) (by rw [h.run]; rfl) rfl
        rfl) (fun _ _ ht => ?_) fun _ _ he => he
      exact ht.1.trans hsame.symm
    | multiple targets =>
      refine moves_mono (tells_emit h (.routesSelected hphase hresolving) (by rw [h.run]; rfl) rfl
        rfl) (fun _ _ ht => ?_) fun _ _ he => he
      exact ht.1.trans hsame.symm
  unfold resolveTransition
  refine moves_bind (tells_resolveInto hexists) ?_
  rintro r t rfl
  split
  · exact tells_fail h
  · exact moves_pure rfl
  · refine moves_bind (htold _) ?_
    rintro _ t rfl
    exact moves_pure rfl

/-- Targets of the nodes of a frontier. -/
def Routed (g : CompiledGraph ν ρ) (frontier targets : List Nat) : Prop :=
  ∀ j ∈ targets, ∃ i ∈ frontier, ∃ n, g.items[i]? = some (.node n) ∧ j ∈ n.transition.targets

theorem tells_routeAll (hg : Placed g) {superstep : Option Nat} {boundary : StreamBoundary}
    (hresolving : boundary.resolving) {state : E.State} : ∀ {step : Nat} {frontier : List Nat}
    {t : Telling}, Live ctx t → t.reader.phase = .standing superstep boundary →
      (∀ i ∈ frontier, ∃ n, g.items[i]? = some (.node n)) →
      Tells mode maxSteps m₀ t (routeAll g.nav ctx state step frontier) fun targets t' =>
        t' = t ∧ Routed g frontier targets
  | _, [], _, _, _, _ => moves_pure ⟨rfl, nofun⟩
  | step, index :: frontier, t, h, hphase, hnodes => by
    unfold routeAll
    obtain ⟨node, hnode⟩ := hnodes index List.mem_cons_self
    refine moves_bind (tells_nodeAt hnode) ?_
    rintro node t ⟨rfl, rfl⟩
    have hexists : ∀ a ∈ node.transition.targets, ∃ item, g.items[a]? = some item := by
      intro a ha
      obtain ⟨item, hitem, -⟩ := hg.target index (.node node) a hnode ha
      exact ⟨item, hitem⟩
    refine moves_bind (tells_resolveTransition h hphase hresolving hexists) ?_
    rintro targets t ⟨rfl, hresolves⟩
    refine moves_bind (tells_controlRun h) ?_
    rintro _ t rfl
    refine moves_bind (tells_routeAll hg hresolving h hphase fun i hi =>
      hnodes i (List.mem_cons_of_mem index hi)) ?_
    rintro rest t ⟨rfl, hrest⟩
    refine moves_pure ⟨rfl, fun j hj => ?_⟩
    rcases List.mem_append.mp hj with hj | hj
    · exact ⟨index, List.mem_cons_self, node, hnode, hresolves.mem j hj⟩
    · obtain ⟨i, hi, hrouted⟩ := hrest j hj
      exact ⟨i, List.mem_cons_of_mem index hi, hrouted⟩

/-! ## Settling -/

/-- Where targets settle to, across the boundaries. -/
def Settled (g : CompiledGraph ν ρ) (p : GraphPath) (r : List Nat × List SubgraphBoundary) : Prop :=
  ∃ q, Crosses p r.2 q ∧ Settles g q r.1

theorem tells_assertNodes : ∀ {frontier : List Nat} {t : Telling},
    (∀ i ∈ frontier, ∃ item, g.items[i]? = some item) →
      Tells mode maxSteps m₀ t (g.assertNodes frontier : M E Unit) fun _ t' =>
        t' = t ∧ ∀ i ∈ frontier, ∃ n, g.items[i]? = some (.node n)
  | [], _, _ => moves_pure ⟨rfl, nofun⟩
  | index :: frontier, t, h => by
    obtain ⟨item, hitem⟩ := h index List.mem_cons_self
    unfold CompiledGraph.assertNodes CompiledGraph.itemAt
    rw [hitem]
    cases item with
    | node n =>
      refine moves_mono (tells_assertNodes fun i hi => h i (List.mem_cons_of_mem index hi)) ?_
        fun _ _ he => he
      rintro _ t ⟨rfl, hrest⟩
      exact ⟨rfl, List.forall_mem_cons.mpr ⟨⟨n, hitem⟩, hrest⟩⟩
    | enterSubgraph graphPath nested t => exact tells_panic
    | exitSubgraph graphPath mountPath t => exact tells_panic

/-- **Normalizing targets** tells of the routers on the way. -/
theorem tells_normalizeFrontier (hg : Placed g) (hh : Housed g) {superstep : Option Nat}
    {boundary : StreamBoundary} (hresolving : boundary.resolving) {p : GraphPath} {state : E.State}
    {step : Nat} : ∀ {hops : Nat} {targets : List Nat} {boundaries : List SubgraphBoundary}
    {q : GraphPath} {t : Telling}, Live ctx t → t.reader.phase = .standing superstep boundary →
      Crosses p boundaries q → Stays g q targets →
      Tells mode maxSteps m₀ t (g.normalizeFrontier ctx state step hops targets boundaries)
        fun r t' => t' = t ∧ Settled g p r
  | 0, _, _, _, _, _, _, _, _ => tells_outOfFuel
  | hops + 1, [], _, _, _, _, _, hwalk, hstays =>
    moves_pure ⟨rfl, _, hwalk, hstays.settles fun _ hi => absurd hi List.not_mem_nil⟩
  | hops + 1, [index], boundaries, q, t, h, hphase, hwalk, hstays => by
    obtain ⟨item, hitem, hhouse⟩ := hstays.house index List.mem_cons_self
    subst hhouse
    unfold CompiledGraph.normalizeFrontier CompiledGraph.itemAt
    rw [hitem, pure_bind]
    have hexists : ∀ a ∈ item.transition.targets, ∃ item, g.items[a]? = some item := by
      intro a ha
      obtain ⟨item', hitem', -⟩ := hg.target index item a hitem ha
      exact ⟨item', hitem'⟩
    cases item with
    | node n =>
      refine moves_pure ⟨rfl, _, hwalk, hstays.settles fun i hi => ?_⟩
      rw [List.mem_singleton.mp hi]
      exact ⟨n, hitem⟩
    | enterSubgraph graphPath nested transition =>
      obtain ⟨j, rfl⟩ := hg.enter index graphPath nested transition hitem
      refine moves_bind (tells_resolveTransition h hphase hresolving hexists) ?_
      rintro targets t ⟨rfl, hresolves⟩
      cases hresolves with
      | fixed =>
        refine tells_normalizeFrontier hg hh hresolving h hphase
          (.started (GraphPath.ne_root.mpr nested) hwalk)
          ⟨fun i hi => ?_, fun hnil => absurd hnil (List.cons_ne_nil _ _)⟩
        exact hh.enter index graphPath nested _ i hitem hi
    | exitSubgraph graphPath mountPath transition =>
      obtain ⟨hroot, hparent⟩ := hh.exit index graphPath mountPath transition hitem
      refine moves_bind (tells_resolveTransition h hphase hresolving hexists) ?_
      rintro targets t ⟨rfl, hresolves⟩
      have hcrossed : Crosses p (boundaries ++ [.completed graphPath]) mountPath.graphPath := by
        rw [hparent]
        exact .completed hroot hwalk
      refine tells_normalizeFrontier hg hh hresolving h hphase hcrossed
        (stays_orScopeExit hg hh hitem fun j hj => ?_)
      obtain ⟨item', hitem', hstay⟩ := hg.target index _ j hitem
        (hresolves.mem j (mem_canonical.mp hj))
      exact ⟨item', hitem', hstay rfl⟩
  | hops + 1, index :: second :: rest, boundaries, q, t, h, hphase, hwalk, hstays => by
    unfold CompiledGraph.normalizeFrontier
    refine moves_bind (tells_assertNodes fun i hi => ?_) ?_
    · obtain ⟨item, hitem, -⟩ := hstays.house i hi
      exact ⟨item, hitem⟩
    · rintro _ t ⟨rfl, hnodes⟩
      exact moves_pure ⟨rfl, q, hwalk, hstays.settles hnodes⟩

/-- What follows a frontier of a namespace. -/
theorem tells_settle (hg : Placed g) (hh : Housed g) (h : Live ctx t) {superstep : Option Nat}
    {boundary : StreamBoundary} (hphase : t.reader.phase = .standing superstep boundary)
    (hresolving : boundary.resolving) {state : E.State} {steps : Nat} {p : GraphPath}
    {frontier targets : List Nat} (hsettles : Settles g p frontier)
    (hrouted : Routed g frontier targets) {first : Nat} {node : CompiledNode ν ρ Nat}
    (hfirst : first ∈ frontier) (hnode : g.items[first]? = some (.node node)) :
    Tells mode maxSteps m₀ t (g.nav.settle ctx state steps node.graphPath (canonical id targets))
      fun r t' => t' = t ∧ Settled g p r := by
  have hpath : ∀ i ∈ frontier, ∀ n, g.items[i]? = some (.node n) → n.path.graphPath = p := by
    intro i hi n hn
    obtain ⟨n', hn', hpath⟩ := hsettles.node i hi
    rw [hn] at hn'
    cases hn'
    exact hpath
  obtain rfl := hpath first hfirst node hnode
  rw [← hg.node first node hnode]
  refine tells_normalizeFrontier hg hh hresolving h hphase .nil
    (stays_orScopeExit hg hh hnode fun j hj => ?_)
  obtain ⟨i, hi, n, hn, hj⟩ := hrouted j (mem_canonical.mp hj)
  obtain ⟨item', hitem', hstay⟩ := hg.target i (.node n) j hn hj
  exact ⟨item', hitem', (hstay rfl).1, (hstay rfl).2.trans (hpath i hi n hn)⟩

/-- The first frontier of an invocation. -/
theorem tells_start (hg : Placed g) (hh : Housed g) (h : Live ctx t) {superstep : Option Nat}
    {boundary : StreamBoundary} (hphase : t.reader.phase = .standing superstep boundary)
    (hresolving : boundary.resolving) {state : E.State} :
    Tells mode maxSteps m₀ t (g.nav.start ctx state) fun r t' => t' = t ∧ Settled g .root r := by
  refine tells_normalizeFrontier hg hh hresolving h hphase .nil ⟨fun i hi => ?_, fun _ => rfl⟩
  obtain ⟨item, hitem, hexit, hpath⟩ := hg.entry i (Option.mem_toList.mp hi)
  exact ⟨item, hitem, (CompiledItem.house_of_not_exit hexit).trans hpath⟩

/-! ## Reporting the boundaries -/

/-- A boundary once the subgraphs behind it have been reported. -/
def StreamBoundary.crossed (boundaries : List SubgraphBoundary) (boundary : StreamBoundary) :
    StreamBoundary :=
  if boundaries.isEmpty then boundary else boundary.passed

theorem StreamBoundary.passed_crossed (boundaries : List SubgraphBoundary)
    (boundary : StreamBoundary) : (boundary.crossed boundaries).passed = boundary.passed := by
  cases boundaries with
  | nil => rfl
  | cons first boundaries => cases boundary <;> rfl

theorem StreamBoundary.settled_crossed (boundaries : List SubgraphBoundary)
    {boundary : StreamBoundary} (h : boundary.settled mode) :
    (boundary.crossed boundaries).settled mode := by
  cases boundaries with
  | nil => exact h
  | cons first boundaries => cases boundary <;> rfl

theorem StreamBoundary.crossed_snoc (boundaries : List SubgraphBoundary) (last : SubgraphBoundary)
    (boundary : StreamBoundary) : boundary.crossed (boundaries ++ [last]) = boundary.passed := by
  cases boundaries <;> rfl

/-- A listener that has been told of the boundaries stands in the namespace they lead to. -/
theorem tells_boundaries (h : Live ctx t) {superstep : Option Nat} {boundary : StreamBoundary}
    (hphase : t.reader.phase = .standing superstep boundary) (hsettled : boundary.settled mode)
    {p q : GraphPath} {boundaries : List SubgraphBoundary} (hwalk : Crosses p boundaries q)
    (hpath : t.reader.path = p) : Tells mode maxSteps m₀ t
      (boundaries.forM fun boundary => emit ctx.events (boundary.event ctx.runId) : M E Unit)
      fun _ t' => Live ctx t' ∧ t' = ⟨{ t.reader with
        path := q
        phase := .standing superstep (boundary.crossed boundaries) }, none⟩ := by
  induction hwalk with
  | nil =>
    refine moves_pure ⟨h, ?_⟩
    rw [← hpath]
    exact h.eq hphase
  | @started q boundaries hroot hwalk ih =>
    rw [List.forM_eq_forM, List.forM_append]
    refine moves_bind ih ?_
    rintro _ _ ⟨hlive, rfl⟩
    rw [List.forM_cons]
    have hsettled := StreamBoundary.settled_crossed boundaries hsettled
    refine moves_bind (tells_emit hlive (.subgraphStarted rfl hsettled hroot rfl)
      (by rw [hlive.run]; rfl) rfl rfl) ?_
    rintro _ _ ⟨rfl, hlive⟩
    refine moves_pure ⟨hlive, ?_⟩
    rw [StreamBoundary.passed_crossed, StreamBoundary.crossed_snoc]
  | @completed q boundaries hroot hwalk ih =>
    rw [List.forM_eq_forM, List.forM_append]
    refine moves_bind ih ?_
    rintro _ _ ⟨hlive, rfl⟩
    rw [List.forM_cons]
    have hsettled := StreamBoundary.settled_crossed boundaries hsettled
    refine moves_bind (tells_emit hlive (.subgraphCompleted rfl hsettled hroot)
      (by rw [hlive.run]; rfl) rfl rfl) ?_
    rintro _ _ ⟨rfl, hlive⟩
    refine moves_pure ⟨hlive, ?_⟩
    rw [StreamBoundary.passed_crossed, StreamBoundary.crossed_snoc]

end Transitions

end GroupAgent.Core
