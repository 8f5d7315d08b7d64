import GroupAgent.Core.Hops

/-!
# Super-steps on real nodes

The pieces of a super-step that look at indices, on a frontier of real nodes of a placed graph:
`resolve_transition` (`runtime.rs:978-1032`), `normalize_frontier` (900-974), `execute_node`
(2129-2181) and the loop body around them. They never find a structural item, so the debug
assertion of the loop and the unreachable branches of `execute_node` are never met.

* `Frontier` is what the loop executes: real nodes of one namespace, in increasing order, that may
  run together. `Targets` is what transitions lead to, before it is normalized: items of one
  namespace that may run together. Both are relative to a seed, the frontier a call starts from.
* Each lemma about a piece says in which states it may be called and what it hands on; the next
  piece takes it up. Only this file looks at how an index names an item.

Results:
* **`quiet_normalizeFrontier`**: normalizing targets ends in a frontier.
* **`quiet_advance`**: a super-step advances from a frontier to a frontier, and writes nothing on
  the way.

The graph is one that `compile` returned (`Placed`, from `Compiled` in `Placement`). A frontier
that is read from a store is a `Frontier` once it is validated, with itself as the seed; what its
nodes lead to together, no fan-out need have been checked for. See `Frontiers` for those.
-/

namespace GroupAgent.Core

open GroupAgent.Lib

variable {ν ρ : Type} {E : Env ν ρ}

/-! ## Frontiers -/

/-- Two items may run together, as far as that is watched, from a seed. -/
def Joint (g : CompiledGraph ν ρ) (seed : Option (List Nat)) (i j : Nat) : Prop :=
  ∀ s ∈ seed, Together g s i j

/-- The pairs are watched and only real nodes are among them, unless a mixed frontier is
tolerated. -/
structure Watch (g : CompiledGraph ν ρ) (tol : Tolerance) (seed : Option (List Nat)) : Prop where
  nodes : ∀ s ∈ seed, NodesOnly g s
  known : tol.mixed ∨ ∃ s, seed = some s

theorem Watch.relax {g : CompiledGraph ν ρ} {tol : Tolerance} {seed : Option (List Nat)}
    (h : Watch g tol seed) : Watch g .all seed := ⟨h.nodes, .inl trivial⟩

/-- What the loop executes: real nodes of one namespace, in strictly increasing order, that may run
together. -/
structure Frontier (g : CompiledGraph ν ρ) (seed : Option (List Nat)) (l : List Nat) : Prop where
  strict : StrictlyBy id l
  nodes : ∃ graphPath, ∀ i ∈ l, ∃ n, g.items[i]? = some (.node n) ∧ n.graphPath = graphPath
  together : ∀ i ∈ l, ∀ j ∈ l, i ≠ j → Joint g seed i j

/-- What transitions lead to: items of one namespace that may run together. -/
structure Targets (g : CompiledGraph ν ρ) (seed : Option (List Nat)) (l : List Nat) : Prop where
  scope : ∃ graphPath, ∀ i ∈ l, ∃ item, g.items[i]? = some item ∧ item.path.graphPath = graphPath
  together : ∀ i ∈ l, ∀ j ∈ l, i ≠ j → Joint g seed i j

theorem Frontier.node {g : CompiledGraph ν ρ} {seed : Option (List Nat)} {l : List Nat} (h : Frontier g seed l) {i : Nat}
    (hi : i ∈ l) : ∃ n, g.items[i]? = some (.node n) := by
  obtain ⟨graphPath, hnodes⟩ := h.nodes
  obtain ⟨n, hn, -⟩ := hnodes i hi
  exact ⟨n, hn⟩

theorem Frontier.nil {g : CompiledGraph ν ρ} {seed : Option (List Nat)} : Frontier g seed [] :=
  ⟨List.Pairwise.nil, ⟨GraphPath.root, by simp⟩, by simp⟩

theorem Targets.nil {g : CompiledGraph ν ρ} {seed : Option (List Nat)} : Targets g seed [] :=
  ⟨⟨GraphPath.root, by simp⟩, by simp⟩

theorem Targets.singleton {g : CompiledGraph ν ρ} {seed : Option (List Nat)} {i : Nat}
    {item : CompiledItem ν ρ Nat} (hi : g.items[i]? = some item) : Targets g seed [i] where
  scope := ⟨item.path.graphPath, by simp [hi]⟩
  together := by
    intro a ha b hb hne
    rw [List.mem_singleton] at ha hb
    exact absurd (ha.trans hb.symm) hne

theorem Targets.canonical {g : CompiledGraph ν ρ} {seed : Option (List Nat)} {l : List Nat} (h : Targets g seed l) :
    Targets g seed (canonical id l) where
  scope := by
    obtain ⟨graphPath, hscope⟩ := h.scope
    exact ⟨graphPath, fun i hi => hscope i (mem_canonical.mp hi)⟩
  together i hi j hj := h.together i (mem_canonical.mp hi) j (mem_canonical.mp hj)

theorem strict_canonical (l : List Nat) : StrictlyBy id (canonical id l) :=
  canonical_strict fun _ _ _ _ h => h

/-! ## Following transitions -/

section Follow

variable {g : CompiledGraph ν ρ} {seed : Option (List Nat)} {tol : Tolerance} {ctx : RunContext}

/-- The targets of a node or an exit are items of its namespace that may run together. -/
theorem targets_of_resolves (hg : Placed g) {i : Nat} {item : CompiledItem ν ρ Nat}
    (hi : g.items[i]? = some item) (henter : item.isEnter = false) {ts : List Nat}
    (h : item.transition.Resolves id ts) : Targets g seed ts where
  scope := by
    refine ⟨item.path.graphPath, fun a ha => ?_⟩
    obtain ⟨item', hitem', hstay⟩ := hg.target i item a hi (h.mem a ha)
    exact ⟨item', hitem', (hstay henter).2⟩
  together a ha b hb hne _ _ := .fork hi (h.isFanOut ha hb hne) (h.mem a ha) (h.mem b hb) hne

theorem targets_orScopeExit (hg : Placed g) {ts : List Nat} (h : Targets g seed ts)
    (graphPath : GraphPath) : Targets g seed (g.orScopeExit graphPath ts) := by
  unfold CompiledGraph.orScopeExit
  split
  · cases he : g.scopeExit graphPath with
    | none => exact Targets.nil
    | some exit =>
      obtain ⟨mountPath, t, hitem⟩ := hg.scopeExit graphPath exit he
      exact Targets.singleton hitem
  · exact h

theorem strict_orScopeExit {ts : List Nat} (h : StrictlyBy id ts) (graphPath : GraphPath) :
    StrictlyBy id (g.orScopeExit graphPath ts) := by
  unfold CompiledGraph.orScopeExit
  split
  · cases g.scopeExit graphPath with
    | none => exact List.Pairwise.nil
    | some exit => exact List.pairwise_singleton _ _
  · exact h

theorem Targets.node {ts s : List Nat} (h : Targets g (some s) ts) (hn : NodesOnly g s)
    (hs : StrictlyBy id ts) (hlen : 2 ≤ ts.length) : ∀ i ∈ ts, ∃ n, g.items[i]? = some (.node n) := by
  intro i hi
  match ts, hs, hlen with
  | a :: b :: rest, hs, _ =>
    have hab : a ≠ b := Nat.ne_of_lt ((List.pairwise_cons.mp hs).1 b List.mem_cons_self)
    have hb : b ∈ a :: b :: rest := List.mem_cons_of_mem a List.mem_cons_self
    by_cases hia : i = a
    · exact hn i b (h.together i hi b hb (by rw [hia]; exact hab) s rfl)
    · exact hn i a (h.together i hi a List.mem_cons_self hia s rfl)

/-- Targets that are real nodes are a frontier. -/
theorem Targets.frontier (hg : Placed g) {ts : List Nat} (h : Targets g seed ts)
    (hs : StrictlyBy id ts) (hnodes : ∀ i ∈ ts, ∃ n, g.items[i]? = some (.node n)) :
    Frontier g seed ts where
  strict := hs
  nodes := by
    obtain ⟨graphPath, hscope⟩ := h.scope
    refine ⟨graphPath, fun i hi => ?_⟩
    obtain ⟨n, hn⟩ := hnodes i hi
    obtain ⟨item, hitem, hpath⟩ := hscope i hi
    rw [hn] at hitem
    cases hitem
    refine ⟨n, hn, ?_⟩
    rw [← hg.node i n hn]
    exact hpath
  together := h.together

/-- The assertion holds of real nodes only. -/
theorem quiet_assertNodes : ∀ {frontier : List Nat},
    (∀ i ∈ frontier, ∃ item, g.items[i]? = some item) →
    (tol.mixed ∨ ∀ i ∈ frontier, ∃ n, g.items[i]? = some (.node n)) →
      Quiet (g.assertNodes frontier : M E Unit)
        (fun _ => ∀ i ∈ frontier, ∃ n, g.items[i]? = some (.node n)) (Fine tol)
  | [], _, _ => yields_pure (by simp)
  | index :: frontier, hitems, h => by
    unfold CompiledGraph.assertNodes
    obtain ⟨item, hitem⟩ := hitems index List.mem_cons_self
    refine yields_bind (yields_itemAt hitem) fun x hx => ?_
    subst hx
    have hstop : ∀ {item : CompiledItem ν ρ Nat}, g.items[index]? = some item →
        (∀ n, item ≠ .node n) → Quiet (panic .mixedFrontier : M E Unit)
          (fun _ => ∀ i ∈ index :: frontier, ∃ n, g.items[i]? = some (.node n)) (Fine tol) := by
      intro item hi hne
      refine yields_throw (h.resolve_right fun hall => ?_)
      obtain ⟨n, hn⟩ := hall index List.mem_cons_self
      rw [hn] at hi
      exact hne n (Option.some.inj hi).symm
    cases x with
    | node n =>
      refine yields_mono (quiet_assertNodes (fun i hi => hitems i (List.mem_cons_of_mem index hi))
        (h.imp_right fun hall i hi => hall i (List.mem_cons_of_mem index hi))) ?_ fun _ hS => hS
      intro _ hrest
      exact List.forall_mem_cons.mpr ⟨⟨n, hitem⟩, hrest⟩
    | enterSubgraph graphPath nested t => exact hstop hitem (by simp)
    | exitSubgraph graphPath mountPath t => exact hstop hitem (by simp)

/-- Normalizing targets ends in a frontier, or in the hop bound. -/
theorem quiet_normalizeTargets (hg : Placed g) (hn : Watch g tol seed) (htol : tol.hops)
    {state : E.State} {step : Nat} : ∀ {hops : Nat} {targets : List Nat} {boundaries : List SubgraphBoundary},
      Targets g seed targets → StrictlyBy id targets →
      Quiet (g.normalizeFrontier ctx state step hops targets boundaries)
        (fun r => Frontier g seed r.1) (Fine tol)
  | 0, _, _, _, _ => yields_throw htol
  | hops + 1, [], boundaries, _, _ => yields_pure Frontier.nil
  | hops + 1, [index], boundaries, h, hs => by
    unfold CompiledGraph.normalizeFrontier
    obtain ⟨graphPath, hscope⟩ := h.scope
    obtain ⟨item, hitem, -⟩ := hscope index List.mem_cons_self
    refine yields_bind (yields_itemAt hitem) fun x hx => ?_
    subst hx
    have hexists : ∀ a ∈ x.transition.targets, ∃ item, g.items[a]? = some item := by
      intro a ha
      obtain ⟨item', hitem', -⟩ := hg.target index x a hitem ha
      exact ⟨item', hitem'⟩
    cases x with
    | node n =>
      refine yields_pure (h.frontier hg hs fun i hi => ?_)
      rw [List.mem_singleton.mp hi]
      exact ⟨n, hitem⟩
    | enterSubgraph graphPath nested t =>
      obtain ⟨j, rfl⟩ := hg.enter index graphPath nested t hitem
      refine yields_bind (quiet_resolveTransition hexists) fun ts hts => ?_
      cases hts with
      | fixed =>
        obtain ⟨item', hitem'⟩ := hexists j List.mem_cons_self
        exact quiet_normalizeTargets hg hn htol (Targets.singleton hitem')
          (List.pairwise_singleton _ _)
    | exitSubgraph graphPath mountPath t =>
      refine yields_bind (quiet_resolveTransition hexists) fun ts hts => ?_
      have hts' : Targets g seed ts := targets_of_resolves hg hitem rfl hts
      exact quiet_normalizeTargets hg hn htol (targets_orScopeExit hg hts'.canonical _)
        (strict_orScopeExit (strict_canonical ts) _)
  | hops + 1, index :: second :: rest, boundaries, h, hs => by
    unfold CompiledGraph.normalizeFrontier
    have hitems : ∀ i ∈ index :: second :: rest, ∃ item, g.items[i]? = some item := by
      obtain ⟨graphPath, hscope⟩ := h.scope
      intro i hi
      obtain ⟨item, hitem, -⟩ := hscope i hi
      exact ⟨item, hitem⟩
    have hnodes : tol.mixed ∨ ∀ i ∈ index :: second :: rest, ∃ n, g.items[i]? = some (.node n) := by
      refine hn.known.imp_right ?_
      rintro ⟨s, rfl⟩
      exact h.node (hn.nodes s rfl) hs (Nat.le_add_left 2 rest.length)
    refine yields_bind (quiet_assertNodes hitems hnodes) fun _ hall => ?_
    exact yields_pure (h.frontier hg hs hall)

/-- The hops of a run are enough, unless running out of them is tolerated. -/
def HopsFit (g : CompiledGraph ν ρ) (tol : Tolerance) (hops : Nat) : Prop :=
  tol.hops ∨ Acyclic (Hop g) ∧ g.items.length < hops

/-- **Normalizing targets ends in a frontier of real nodes.** -/
theorem quiet_normalizeFrontier (hg : Placed g) (hn : Watch g tol seed) {state : E.State}
    {step : Nat} {hops : Nat} (hhops : HopsFit g tol hops) {targets : List Nat}
    {boundaries : List SubgraphBoundary} (h : Targets g seed targets) (hs : StrictlyBy id targets) :
    Quiet (g.normalizeFrontier ctx state step hops targets boundaries)
      (fun r => Frontier g seed r.1) (Fine tol) := by
  rcases hhops with htol | ⟨hr, hlt⟩
  · exact quiet_normalizeTargets hg hn htol h hs
  · have hends : Quiet (g.normalizeFrontier ctx state step hops targets boundaries)
        (fun _ => True) Bounded := quiet_hops hg hr hlt targets boundaries
    have hwatch : Watch g ⟨tol.overflow, True, tol.mixed⟩ seed := ⟨hn.nodes, hn.known⟩
    have hnodes : Quiet (g.normalizeFrontier ctx state step hops targets boundaries)
        (fun r => Frontier g seed r.1) (Fine ⟨tol.overflow, True, tol.mixed⟩) :=
      quiet_normalizeTargets hg hwatch trivial h hs
    refine yields_mono (hnodes.and hends) (fun _ hr => hr.1) ?_
    rintro e ⟨hfine, hbounded⟩
    cases e with
    | error error => trivial
    | panic p => cases p <;> exact hfine
    | outOfFuel => exact absurd rfl hbounded

end Follow

/-! ## Loops over a frontier -/

section Loops

variable {g : CompiledGraph ν ρ} {seed : Option (List Nat)} {tol : Tolerance} {ctx : RunContext}

/-- The paths of the real nodes of a list. -/
def PathsOf (g : CompiledGraph ν ρ) : List Nat → List NodePath → Prop :=
  List.Forall₂ fun index path => ∃ n, g.items[index]? = some (.node n) ∧ n.path = path

theorem quiet_pathsOf {frontier : List Nat} {S : Stop → Prop}
    (h : ∀ i ∈ frontier, ∃ n, g.items[i]? = some (.node n)) :
    Quiet (pathsOf g.nav frontier : M E (List NodePath)) (PathsOf g frontier) S :=
  yields_mapM fun i hi => yields_map (yields_nodeAt (h i hi)) fun n hn => ⟨n, hn, rfl⟩

theorem quiet_enforceBudget {steps : Nat} {frontier : List Nat}
    (h : ∀ i ∈ frontier, ∃ n, g.items[i]? = some (.node n))
    (hroom : tol.overflow ∨ steps + frontier.length ≤ usizeMax) :
    Quiet (enforceBudget g.nav ctx steps frontier : M E Unit)
      (fun _ => frontier.length ≤ ctx.absoluteStepLimit - steps) (Fine tol) := by
  unfold enforceBudget
  simp only
  split
  · rename_i hnone
    exact yields_pure (List.getElem?_eq_none_iff.mp hnone)
  · rename_i blocked hblocked
    refine yields_bind (yields_nodeAt (h blocked (List.mem_of_getElem? hblocked))) fun node _ => ?_
    obtain ⟨hlt, -⟩ := List.getElem?_eq_some_iff.mp hblocked
    exact yields_bind (quiet_usizeAdd (hroom.imp_right fun h => by omega)) fun step _ =>
      quiet_fail ctx _

theorem quiet_reportUpdates : ∀ {step : Nat} {frontier : List Nat},
    (∀ i ∈ frontier, ∃ n, g.items[i]? = some (.node n)) →
      Quiet (reportUpdates g.nav ctx step frontier : M E Unit) (fun _ => True) (Fine tol)
  | _, [], _ => yields_pure trivial
  | step, index :: frontier, h => by
    unfold reportUpdates
    refine yields_bind (yields_nodeAt (h index List.mem_cons_self)) fun node _ => ?_
    refine yields_seq (quiet_emit _ _) ?_
    refine yields_seq (quiet_controlRun _ _ _) ?_
    exact quiet_reportUpdates fun i hi => h i (List.mem_cons_of_mem index hi)

/-- The targets of every node of a frontier, one list after the other. -/
def Routes (g : CompiledGraph ν ρ) (frontier targets : List Nat) : Prop :=
  ∃ f : Nat → List Nat, targets = frontier.flatMap f ∧
    ∀ i ∈ frontier, ∃ n, g.items[i]? = some (.node n) ∧ n.transition.Resolves id (f i)

theorem Routes.cons {index : Nat} {frontier targets ts : List Nat} {n : CompiledNode ν ρ Nat}
    (h : Routes g frontier targets) (hnew : index ∉ frontier)
    (hn : g.items[index]? = some (.node n)) (hts : n.transition.Resolves id ts) :
    Routes g (index :: frontier) (ts ++ targets) := by
  obtain ⟨f, rfl, hf⟩ := h
  have hsame : ∀ i ∈ frontier, (if i = index then ts else f i) = f i := by
    intro i hi
    refine if_neg ?_
    rintro rfl
    exact hnew hi
  refine ⟨fun i => if i = index then ts else f i, ?_, fun i hi => ?_⟩
  · rw [List.flatMap_cons, if_pos rfl]
    congr 1
    exact List.flatMap_congr fun i hi => (hsame i hi).symm
  · rcases List.mem_cons.mp hi with rfl | hi
    · exact ⟨n, hn, by simpa using hts⟩
    · simp only [hsame i hi]
      exact hf i hi

theorem quiet_routeAll (hg : Placed g) {state : E.State} : ∀ {step : Nat} {frontier : List Nat},
    (∀ i ∈ frontier, ∃ n, g.items[i]? = some (.node n)) → frontier.Nodup →
      Quiet (routeAll g.nav ctx state step frontier) (Routes g frontier) (Fine tol)
  | _, [], _, _ => yields_pure ⟨fun _ => [], rfl, by simp⟩
  | step, index :: frontier, h, hnodup => by
    unfold routeAll
    obtain ⟨hnew, hnodup⟩ := List.nodup_cons.mp hnodup
    refine yields_bind (yields_nodeAt (h index List.mem_cons_self)) fun node hnode => ?_
    have hexists : ∀ a ∈ node.transition.targets, ∃ item, g.items[a]? = some item := by
      intro a ha
      obtain ⟨item, hitem, -⟩ := hg.target index (.node node) a hnode ha
      exact ⟨item, hitem⟩
    refine yields_bind (quiet_resolveTransition hexists) fun ts hts => ?_
    refine yields_seq (quiet_controlRun _ _ _) ?_
    have hrest : ∀ i ∈ frontier, ∃ n, g.items[i]? = some (.node n) :=
      fun i hi => h i (List.mem_cons_of_mem index hi)
    refine yields_bind (quiet_routeAll hg hrest hnodup) fun rest hroutes => ?_
    exact yields_pure (hroutes.cons hnew hnode hts)

/-- What a frontier leads to may run together. -/
theorem Routes.targets (hg : Placed g) {frontier ts : List Nat} (hf : Frontier g seed frontier)
    (h : Routes g frontier ts) : Targets g seed ts := by
  obtain ⟨f, rfl, hres⟩ := h
  obtain ⟨graphPath, hnodes⟩ := hf.nodes
  constructor
  · refine ⟨graphPath, fun a ha => ?_⟩
    obtain ⟨i, hi, ha⟩ := List.mem_flatMap.mp ha
    obtain ⟨n, hn, hr⟩ := hres i hi
    obtain ⟨n', hn', hpath⟩ := hnodes i hi
    rw [hn] at hn'
    cases hn'
    obtain ⟨item, hitem, hstay⟩ := hg.target i (.node n) a hn (hr.mem a ha)
    exact ⟨item, hitem, (hstay rfl).2.trans ((hg.node i n hn).trans hpath)⟩
  · intro a ha b hb hne
    obtain ⟨i, hi, ha⟩ := List.mem_flatMap.mp ha
    obtain ⟨j, hj, hb⟩ := List.mem_flatMap.mp hb
    obtain ⟨n, hn, hrn⟩ := hres i hi
    obtain ⟨m, hm, hrm⟩ := hres j hj
    by_cases hij : i = j
    · -- both come from one node, whose transition is a fan-out
      subst hij
      rw [hn] at hm
      cases hm
      exact fun _ _ => .fork hn (hrn.isFanOut ha hb hne) (hrn.mem a ha) (hrn.mem b hb) hne
    · exact fun s hs => .step (hf.together i hi j hj hij s hs) hn hm (hrn.mem a ha) (hrm.mem b hb) hne

end Loops

/-! ## Executing a frontier -/

section Execute

variable {g : CompiledGraph ν ρ} {tol : Tolerance} {ctx : RunContext} {ls : LoopState E Nat}

/-- Every node of the batch is started, at its own offset. -/
theorem quiet_startAll (hclock : tol.overflow ∨ ClockFits E ctx.control.nodeTimeout) :
    ∀ {offset : Nat} {frontier : List Nat},
      (∀ i ∈ frontier, ∃ n, g.items[i]? = some (.node n)) →
      Quiet (startAll g.nav ctx ls offset frontier)
        (fun attempts => attempts.length = frontier.length ∧
          ∀ k < frontier.length, ∃ a ∈ attempts, a.offset = offset + k) (Fine tol)
  | offset, [], _ => yields_pure ⟨rfl, fun k hk => absurd hk (Nat.not_lt_zero k)⟩
  | offset, index :: frontier, h => by
    unfold startAll
    refine yields_bind (yields_nodeAt (h index List.mem_cons_self)) fun node _ => ?_
    refine yields_bind (quiet_startNode hclock ls index node _) fun started _ => ?_
    refine yields_bind (quiet_startAll hclock fun i hi => h i (List.mem_cons_of_mem index hi))
      fun rest hrest => ?_
    refine yields_pure ⟨by simp [hrest.1], fun k hk => ?_⟩
    cases k with
    | zero => exact ⟨_, List.mem_cons_self, rfl⟩
    | succ k =>
      rw [List.length_cons] at hk
      obtain ⟨a, ha, hoffset⟩ := hrest.2 k (by omega)
      exact ⟨a, List.mem_cons_of_mem _ ha, by omega⟩

/-- When every execution has completed, every slot that one of them stood for is filled. -/
theorem quiet_awaitAll {checkpoints : RuntimeCheckpoint} : ∀ {count : Nat}
    {pending : List (ParallelAttempt ν E.State E.Value)} {slots : List (Option E.Update)},
      pending.length = count → (∀ k : Nat, slots[k]? = some none → ∃ a ∈ pending, a.offset = k) →
      Quiet (awaitAll ctx checkpoints count pending slots)
        (fun filled => none ∉ filled ∧ filled.length = slots.length) (Fine tol)
  | 0, pending, slots, hlen, hslots => by
    refine yields_pure ⟨fun hnone => ?_, rfl⟩
    obtain ⟨k, hk, he⟩ := List.getElem_of_mem hnone
    obtain ⟨a, ha, -⟩ := hslots k (by rw [List.getElem?_eq_getElem hk, he])
    rw [List.length_eq_zero_iff.mp hlen] at ha
    cases ha
  | count + 1, pending, slots, hlen, hslots => by
    unfold awaitAll
    have hne : pending ≠ [] := by
      rintro rfl
      cases hlen
    rw [dif_pos hne]
    refine yields_bind (quiet_ask _) fun ready _ => ?_
    obtain ⟨i, answer⟩ := ready
    refine yields_bind (quiet_finishNode answer) fun outcome _ => ?_
    cases outcome with
    | interrupt request =>
      refine yields_seq (quiet_emit _ _) ?_
      cases checkpoints <;> exact quiet_fail ctx _
    | update update =>
      refine yields_seq (quiet_emit _ _) ?_
      refine yields_seq (quiet_controlRun _ _ _) ?_
      have hlen' : (pending.eraseIdx i).length = count := by
        rw [List.length_eraseIdx_of_lt i.isLt, hlen]
        rfl
      have hslots' : ∀ k : Nat, (slots.set (pending.get i).offset (some update))[k]? = some none →
          ∃ a ∈ pending.eraseIdx i, a.offset = k := by
        intro k hk
        rw [List.getElem?_set] at hk
        split at hk
        · split at hk <;> cases hk
        · rename_i hoffset
          obtain ⟨a, ha, rfl⟩ := hslots k hk
          refine ⟨a, ?_, rfl⟩
          obtain ⟨j, hj, rfl⟩ := List.getElem_of_mem ha
          refine List.mem_eraseIdx_iff_getElem?.mpr ⟨j, ?_, List.getElem?_eq_getElem hj⟩
          rintro rfl
          exact hoffset rfl
      have hfilled : Quiet (awaitAll ctx checkpoints count (pending.eraseIdx i)
          (slots.set (pending.get i).offset (some update)))
          (fun filled => none ∉ filled ∧
            filled.length = (slots.set (pending.get i).offset (some update)).length) (Fine tol) :=
        quiet_awaitAll hlen' hslots'
      rw [List.length_set] at hfilled
      exact hfilled

theorem quiet_zipUpdates {S : Stop → Prop} : ∀ {nodeIds : List NodePath}
    {slots : List (Option E.Update)}, none ∉ slots → slots.length = nodeIds.length →
      Quiet (zipUpdates nodeIds slots) (fun batch => batch.map NodeUpdate.nodePath = nodeIds) S
  | [], _, _, _ => by
    unfold zipUpdates
    exact yields_pure rfl
  | nodeId :: nodeIds, [], _, hlen => by cases hlen
  | nodeId :: nodeIds, slot :: slots, h, hlen => by
    unfold zipUpdates
    cases slot with
    | none => exact absurd List.mem_cons_self h
    | some update =>
      refine yields_bind (quiet_zipUpdates (fun hn => h (List.mem_cons_of_mem _ hn))
        (Nat.succ.inj hlen)) fun batch hbatch => ?_
      exact yields_pure (by rw [List.map_cons, hbatch])

/-- The state after the updates of one super-step: one update is applied alone, several as a
batch. -/
def applied (state : E.State) : List (NodeUpdate E.Update) → Except SourceError E.State
  | [update] => E.apply state update.update
  | batch => E.applyBatch state batch

/-- An update of every node of a frontier, in its order, that together lead from one state to
another. -/
def Applies (g : CompiledGraph ν ρ) (frontier : List Nat) (state : E.State)
    (batch : List (NodeUpdate E.Update)) (state' : E.State) : Prop :=
  PathsOf g frontier (batch.map NodeUpdate.nodePath) ∧ applied state batch = .ok state'

theorem quiet_runParallel (hclock : tol.overflow ∨ ClockFits E ctx.control.nodeTimeout)
    {first second : Nat} {rest : List Nat}
    (h : ∀ i ∈ first :: second :: rest, ∃ n, g.items[i]? = some (.node n))
    {firstNode : NodePath} {firstStep : Nat} :
    Quiet (runParallel g.nav ctx ls (first :: second :: rest) firstNode firstStep)
      (fun state => ∃ batch, Applies g (first :: second :: rest) ls.state batch state)
      (Fine tol) := by
  unfold runParallel
  refine yields_bind (quiet_startAll hclock h) fun attempts hattempts => ?_
  refine yields_bind (quiet_awaitAll hattempts.1 fun k hk => ?_) fun slots hslots => ?_
  · obtain ⟨hlt, -⟩ := List.getElem?_eq_some_iff.mp hk
    rw [List.length_replicate] at hlt
    obtain ⟨a, ha, hoffset⟩ := hattempts.2 k hlt
    exact ⟨a, ha, by omega⟩
  refine yields_seq (quiet_controlRun _ _ _) ?_
  refine yields_bind (quiet_pathsOf h) fun nodeIds hpaths => ?_
  have hlen : slots.length = nodeIds.length := by
    rw [hslots.2, List.length_replicate, hpaths.length_eq]
  refine yields_bind (quiet_zipUpdates hslots.1 hlen) fun batch hbatch => ?_
  cases happly : E.applyBatch ls.state batch with
  | error source => exact quiet_fail ctx _
  | ok state =>
    rw [← hbatch] at hpaths
    refine yields_pure ⟨batch, hpaths, ?_⟩
    match batch, hpaths.length_eq with
    | _ :: _ :: _, _ => exact happly

theorem quiet_runSingle (hclock : tol.overflow ∨ ClockFits E ctx.control.nodeTimeout) {first : Nat}
    (h : ∃ n, g.items[first]? = some (.node n)) {firstNode : NodePath} {firstStep : Nat} :
    Quiet (runSingle g.nav ctx ls first firstNode firstStep)
      (fun r => ∀ state, r = .inl state → ∃ batch, Applies g [first] ls.state batch state)
      (Fine tol) := by
  unfold runSingle
  refine yields_bind (yields_nodeAt h) fun node hnode => ?_
  refine yields_bind (quiet_startNode hclock ls first node firstStep) fun started _ => ?_
  refine yields_bind (quiet_executeNode _ _) fun outcome _ => ?_
  cases outcome with
  | interrupt request => exact yields_pure fun state h => by cases h
  | update update =>
    refine yields_seq (quiet_emit _ _) ?_
    refine yields_seq (quiet_controlRun _ _ _) ?_
    refine yields_seq (quiet_controlRun _ _ _) ?_
    cases happly : E.apply ls.state update with
    | error source => exact quiet_fail ctx _
    | ok state =>
      refine yields_pure fun state' h => ?_
      cases h
      exact ⟨[⟨node.path, update⟩], .cons ⟨node, hnode, rfl⟩ .nil, happly⟩

/-- Only a frontier of one node can be suspended. -/
theorem quiet_runFrontier (hclock : tol.overflow ∨ ClockFits E ctx.control.nodeTimeout) {first : Nat}
    {rest : List Nat} (h : ∀ i ∈ first :: rest, ∃ n, g.items[i]? = some (.node n))
    {firstNode : NodePath} {firstStep : Nat} :
    Quiet (runFrontier g.nav ctx ls first rest firstNode firstStep)
      (fun r => (∀ request, r = .inr request → rest = []) ∧
        ∀ state, r = .inl state → ∃ batch, Applies g (first :: rest) ls.state batch state)
      (Fine tol) := by
  unfold runFrontier
  cases rest with
  | nil =>
    exact yields_mono (quiet_runSingle hclock (h first List.mem_cons_self))
      (fun _ hr => ⟨fun _ _ => rfl, hr⟩) fun _ hS => hS
  | cons second rest =>
    refine yields_map (quiet_runParallel hclock h) fun state hbatch => ?_
    refine ⟨(fun request hr => by cases hr), fun state' hr => ?_⟩
    cases hr
    exact hbatch

end Execute

/-! ## One super-step -/

section Advance

variable {g : CompiledGraph ν ρ} {seed : Option (List Nat)} {tol : Tolerance} {ctx : RunContext}
  {ls : LoopState E Nat}

/-- The counters of a loop state: no step beyond the limit. -/
structure Room (ctx : RunContext) (steps superstep : Nat) : Prop where
  steps_le : steps ≤ ctx.absoluteStepLimit
  limit_le : ctx.absoluteStepLimit ≤ usizeMax
  superstep_le : superstep ≤ usizeMax

/-- The counters can count the frontier, unless an overflow is tolerated. -/
def Counts (tol : Tolerance) (ls : LoopState E Nat) : Prop :=
  tol.overflow ∨
    (ls.frontier ≠ [] → ls.steps + ls.frontier.length ≤ usizeMax ∧ ls.superstep + 1 ≤ usizeMax)

/-- What a super-step from `ls` comes to: another boundary with a frontier of real nodes and the
counters moved on, or a suspension of its only node. -/
inductive Advanced (g : CompiledGraph ν ρ) (seed : Option (List Nat)) (ctx : RunContext)
    (ls : LoopState E Nat) : Advance E Nat → Prop where
  | committed {state : E.State} {steps superstep : Nat} {next : List Nat}
      {boundaries : List SubgraphBoundary} (steps_eq : steps = ls.steps + ls.frontier.length)
      (superstep_eq : superstep = ls.superstep + 1)
      (applies : ∃ batch, Applies g ls.frontier ls.state batch state)
      (room : Room ctx steps superstep)
      (frontier : Frontier g seed next) :
      Advanced g seed ctx ls (.committed state steps superstep next boundaries)
  | suspended {request : InterruptRequest E.Value} (single : ls.frontier.length = 1) :
      Advanced g seed ctx ls (.suspended request)

/-- What a run needs for its super-steps, unless it is tolerated: room for its timeouts, and hops
enough. -/
structure Fits (E : Env ν ρ) (g : CompiledGraph ν ρ) (tol : Tolerance) (ctx : RunContext) : Prop where
  clock : tol.overflow ∨ ClockFits E ctx.control.nodeTimeout
  hops : HopsFit g tol ctx.hops

/-- **A super-step advances from real nodes to real nodes** and writes nothing on the way. -/
theorem quiet_advance (hg : Placed g) (hn : Watch g tol seed) (hfit : Fits E g tol ctx) {first : Nat} {rest : List Nat}
    (hl : ls.frontier = first :: rest) (hf : Frontier g seed ls.frontier)
    (hroom : Room ctx ls.steps ls.superstep) (hcounts : Counts tol ls) :
    Quiet (advance g.nav ctx ls first rest) (Advanced g seed ctx ls) (Fine tol) := by
  rw [hl] at hf
  have hnodes : ∀ i ∈ first :: rest, ∃ n, g.items[i]? = some (.node n) := fun i hi => hf.node hi
  have hfits : tol.overflow ∨
      ls.steps + (first :: rest).length ≤ usizeMax ∧ ls.superstep + 1 ≤ usizeMax := by
    refine hcounts.imp_right fun h => ?_
    rw [hl] at h
    exact h (List.cons_ne_nil first rest)
  have hsteps := hroom.steps_le
  unfold advance
  refine yields_bind (yields_nodeAt (hnodes first List.mem_cons_self)) fun firstNode _ => ?_
  refine yields_bind (quiet_usizeAdd (hfits.imp_right fun h => ?_)) fun firstStep _ => ?_
  · have hlen := h.1
    rw [List.length_cons] at hlen
    omega
  refine yields_seq (quiet_controlRun _ _ _) ?_
  refine yields_bind (quiet_enforceBudget hnodes (hfits.imp_right And.left)) fun _ hbudget => ?_
  rw [List.length_cons] at hbudget
  refine yields_bind (quiet_usizeAdd (hfits.imp_right And.right)) fun superstep hsuper => ?_
  refine yields_seq (quiet_emitIf (yields_map (quiet_pathsOf hnodes) fun _ _ => trivial)) ?_
  refine yields_bind (quiet_runFrontier hfit.clock hnodes) fun outcome houtcome => ?_
  cases outcome with
  | inr request =>
    have hrest := houtcome.1 request rfl
    subst hrest
    exact yields_pure (.suspended (by rw [hl]; rfl))
  | inl state =>
    refine yields_seq (quiet_reportUpdates hnodes) ?_
    refine yields_bind (quiet_routeAll hg hnodes hf.strict.nodup) fun targets htargets => ?_
    have htargets' : Targets g seed (canonical id targets) := (htargets.targets hg hf).canonical
    refine yields_bind (quiet_normalizeFrontier hg hn hfit.hops (targets_orScopeExit hg htargets' _)
      (strict_orScopeExit (strict_canonical targets) _)) fun next hnext => ?_
    have hlimit := hroom.limit_le
    refine yields_pure (.committed (by rw [hl]) hsuper.1 (by rw [hl]; exact houtcome.2 state rfl)
      ⟨?_, hlimit, ?_⟩ hnext)
    · rw [List.length_cons]
      omega
    · omega

end Advance

end GroupAgent.Core
