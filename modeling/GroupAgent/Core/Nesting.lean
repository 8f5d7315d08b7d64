import GroupAgent.Core.Placement
import GroupAgent.Core.Resolving

/-!
# Resolving in nested graphs

How the transitions of a mounted graph resolve in the graph that mounts it: `append_graph`
(`graph.rs:905-954`) remaps them, and the runtime takes the frontier of a namespace that has run
out to the exit of its mount (`runtime.rs:369-890`).

* `Nested`: a graph inside another one, at any depth, with the prefix of its paths and the base of
  its block. It follows the constructors of `Compiled`.
* At every depth the items of the inner graph stand in the outer one with their paths prefixed and
  their transitions shifted (`Nested.item`). A namespace below the root is left through the exit of
  its mount (`Compiled.ends_own`).
* `END` has no item, so a router that answers it adds nothing; a fan-out that answers `END` only
  leaves the namespace.

Results:
* **`conditional_fan_out`** collects what holds of conditional fan-outs: which outputs are
  accepted, which error the others end in, that resolving commutes with mounting at any depth, and
  where a namespace is left when only `END` is chosen.
-/

namespace GroupAgent.Core

open GroupAgent.Lib

variable {ν ρ : Type}

/-! ## The whitelists of compiled graphs -/

section Compiled

variable {sg : StateGraph ν ρ (CompiledGraph ν ρ)} {g : CompiledGraph ν ρ}

/-- Two declarations are entered at different items. -/
theorem Flattened.entryOf_inj (hf : Flattened sg g) {a b : NodeId} (ha : a ∈ sg.itemIds)
    (hb : b ∈ sg.itemIds) (h : sg.entryOf a = sg.entryOf b) : a = b := by
  obtain ⟨item, hitem, -, hpath⟩ := hf.entry_item ha
  obtain ⟨item', hitem', -, hpath'⟩ := hf.entry_item hb
  rw [h, hitem'] at hitem
  cases hitem
  rw [hpath'] at hpath
  exact (congrArg NodePath.leaf hpath).symm

theorem lists_named (targets : List NodeId) :
    CompiledTransition.Lists (targets.map fun nodeId => (nodeId, StateGraph.namedTarget nodeId)) := by
  have hnamed : ∀ nodeId : NodeId, StateGraph.namedTarget nodeId = none ↔ nodeId = NodeId.END := by
    intro nodeId
    unfold StateGraph.namedTarget
    by_cases h : nodeId.isEnd = true
    · simp [NodeId.isEnd_iff.mp h]
    · simp [h, mt NodeId.isEnd_iff.mpr h]
  refine ⟨fun p hp => ?_, fun p hp q hq heq => ?_⟩
  · obtain ⟨nodeId, -, rfl⟩ := List.mem_map.mp hp
    exact hnamed nodeId
  · obtain ⟨a, -, rfl⟩ := List.mem_map.mp hp
    obtain ⟨b, -, rfl⟩ := List.mem_map.mp hq
    simp only at heq ⊢
    by_cases ha : a = NodeId.END
    · rw [ha, (hnamed NodeId.END).mpr rfl, eq_comm, hnamed] at heq
      rw [ha, heq]
    · have hb : b ≠ NodeId.END := fun hb => ha ((hnamed a).mp (heq.trans ((hnamed b).mpr hb)))
      unfold StateGraph.namedTarget at heq
      rw [if_neg (mt NodeId.isEnd_iff.mp ha), if_neg (mt NodeId.isEnd_iff.mp hb)] at heq
      exact Option.some.inj heq

theorem listed_transition {itemId : NodeId} {t : CompiledTransition ρ NodeId}
    (h : sg.transition itemId = some t) : CompiledTransition.Listed t := by
  unfold StateGraph.transition at h
  split at h
  · cases h
    trivial
  · split at h
    · cases h
      trivial
    · split at h
      · cases h
        exact lists_named _
      · split at h
        · cases h
          exact lists_named _
        · cases h

theorem Flattened.listed_placed (hf : Flattened sg g) {itemId : NodeId} (hmem : itemId ∈ sg.itemIds) :
    CompiledTransition.Listed (sg.placedTransition itemId) := by
  obtain ⟨t, ht, hknown⟩ := hf.known itemId hmem
  rw [StateGraph.placedTransition_of_some ht, CompiledTransition.listed_ordered]
  exact (listed_transition ht).map fun a ha b hb h => hf.entryOf_inj (hknown a ha) (hknown b hb) h

/-- Every whitelist of a compiled graph is well formed, at any depth. -/
theorem Compiled.listed (h : Compiled g) : ∀ (i : Nat) item, g.items[i]? = some item →
    CompiledTransition.Listed item.transition := by
  induction h with
  | mk sg g _ hcompile ih =>
    have hf := flattened hcompile
    intro i item hi
    cases hf.stands hi with
    | node hmem => exact hf.listed_placed (List.mem_map.mpr ⟨_, hmem, rfl⟩)
    | enter hmem => trivial
    | exit hmem => exact hf.listed_placed (List.mem_map.mpr ⟨_, hmem, rfl⟩)
    | @inner itemId child hmem j item hj =>
      rw [CompiledItem.relocate_transition]
      exact (ih itemId child hmem j item hj).map fun a _ b _ h => Nat.add_left_cancel h

/-- A namespace that runs out ends at the exit of its own mount, at any depth. -/
theorem Compiled.ends_own (h : Compiled g) : ∀ (i : Nat) item, g.items[i]? = some item →
    (hne : item.path.graphPath.segments ≠ []) → ∃ exit t,
      g.scopeExits.lookup item.path.graphPath = some exit ∧
      g.items[exit]? = some (.exitSubgraph item.path.graphPath (item.path.graphPath.mountPath hne) t) := by
  induction h with
  | mk sg g _ hcompile ih =>
    have hf := flattened hcompile
    intro i item hi hne
    generalize hpath : item.path.graphPath = graphPath at hne ⊢
    cases hf.stands hi with
    | node hmem => exact absurd (hpath ▸ rfl) hne
    | enter hmem =>
      refine absurd ?_ hne
      rw [← hpath]
      simp [CompiledItem.path, GraphPath.mountPath_child, GraphPath.root]
    | exit hmem => exact absurd (hpath ▸ rfl) hne
    | @inner itemId child hmem j item hj =>
      rw [CompiledItem.relocate_path, NodePath.prefixed_graphPath] at hpath
      subst hpath
      by_cases hinner : item.path.graphPath.segments = []
      · have hroot : item.path.graphPath = GraphPath.root := by
          cases hp : item.path.graphPath
          rw [hp] at hinner
          exact congrArg GraphPath.mk hinner
        simp only [hroot, GraphPath.root_prefixed]
        refine ⟨sg.exitOf itemId, sg.placedTransition itemId, hf.scopeExit_mount hmem, ?_⟩
        rw [hf.exit_at hmem, GraphPath.mountPath_child]
      · obtain ⟨exit, t, hexit, hitem⟩ := ih itemId child hmem j item hj hinner
        refine ⟨sg.baseOf itemId + exit, t.map (sg.baseOf itemId + ·), ?_, ?_⟩
        · rw [hf.scopeExit_inner hmem hinner, hexit]
          rfl
        · rw [hf.block_some hmem hitem, GraphPath.mountPath_prefixed hinner]
          rfl

/-- A graph inside another one: where its items stand there, and the path of its mount. -/
inductive Nested (inner : CompiledGraph ν ρ) :
    (Nat → Nat) → GraphPath → CompiledGraph ν ρ → Prop where
  | own : Nested inner (fun i => i) GraphPath.root inner
  | mount {f : Nat → Nat} {pre : GraphPath} {child g : CompiledGraph ν ρ}
      {sg : StateGraph ν ρ (CompiledGraph ν ρ)} {itemId : NodeId} (nested : Nested inner f pre child)
      (mounted : (itemId, .subgraph child) ∈ sg.items) (compiled : sg.compile = .ok g) :
      Nested inner (fun i => sg.baseOf itemId + f i) (pre.prefixed (GraphPath.root.child itemId)) g

namespace Nested

variable {inner : CompiledGraph ν ρ} {f : Nat → Nat} {pre : GraphPath}

/-- The items of a nested graph stand in their order. -/
theorem le_iff (h : Nested inner f pre g) (a b : Nat) : a ≤ b ↔ f a ≤ f b := by
  induction h with
  | own => exact Iff.rfl
  | mount _ _ _ ih => rw [Nat.add_le_add_iff_left, ih]

/-- An item of a nested graph, with its targets renamed and its path below the mount. -/
theorem item (h : Nested inner f pre g) {i : Nat} {item : CompiledItem ν ρ Nat}
    (hi : inner.items[i]? = some item) : ∃ item', g.items[f i]? = some item' ∧
      item'.transition = item.transition.map f ∧ item'.path = item.path.prefixed pre := by
  induction h with
  | own =>
    refine ⟨item, hi, ?_, ?_⟩
    · exact (CompiledTransition.map_id item.transition).symm
    · cases item.path
      simp [NodePath.prefixed]
  | @mount f pre child g sg itemId _ hmem hcompile ih =>
    obtain ⟨item', hitem', htransition, hpath⟩ := ih
    refine ⟨_, (flattened hcompile).block_some hmem hitem', ?_, ?_⟩
    · rw [CompiledItem.relocate_transition, htransition, CompiledTransition.map_map]
    · rw [CompiledItem.relocate_path, hpath]
      simp [NodePath.prefixed, GraphPath.prefixed_prefixed]

end Nested

theorem CompiledGraph.pathAt_eq {E : Env ν ρ} {i : Nat} {item : CompiledItem ν ρ Nat}
    (h : g.items[i]? = some item) : (g.pathAt i : M E NodePath) = pure item.path := by
  unfold CompiledGraph.pathAt CompiledGraph.itemAt
  rw [h]
  cases item <;> simp [CompiledItem.path]

/-- At any depth, an item of a nested graph resolves as it does in its own graph. -/
theorem Nested.resolves {E : Env ν ρ} {inner : CompiledGraph ν ρ} {f : Nat → Nat} {pre : GraphPath}
    (h : Nested inner f pre g) (hinner : Compiled inner) {i : Nat} {item : CompiledItem ν ρ Nat}
    (hi : inner.items[i]? = some item) (routers : Routers (M E) ρ) :
    ∃ item', g.items[f i]? = some item' ∧ item'.path = item.path.prefixed pre ∧
      item'.transition.resolveInto routers id g.pathAt item'.path.graphPath =
        CompiledTransition.imageOf f pre <$>
          item.transition.resolveInto routers id inner.pathAt item.path.graphPath := by
  obtain ⟨item', hitem', htransition, hpath⟩ := h.item hi
  refine ⟨item', hitem', hpath, ?_⟩
  rw [htransition, hpath]
  refine CompiledTransition.resolveInto_map (fun a _ b _ => h.le_iff a b) fun a ha => ?_
  obtain ⟨target, htarget, -⟩ := (placed hinner).target i item a hi ha
  obtain ⟨target', htarget', -, hpath'⟩ := h.item htarget
  rw [CompiledGraph.pathAt_eq htarget, CompiledGraph.pathAt_eq htarget', hpath', map_pure]

/-! ## The whole -/

/-- What resolving one output of a fan-out router comes to, on a list of targets: either the output
is selected, its items are appended in index order and reported before the rest of it, or it is
rejected and the list is left alone. -/
def FansOut (pathAt : Nat → NodePath) (graphPath : GraphPath)
    (allowed : List (NodeId × Option Nat)) (selected : List NodeId) (targets : List Nat)
    (r : Except TransitionError (Option RouteDecision) × List Nat) : Prop :=
  (CompiledTransition.Selects allowed selected ∧ ∃ items : List Nat,
    items.Perm (CompiledTransition.itemsOf allowed selected) ∧ items.Pairwise (· ≤ ·) ∧
    r = (.ok (some (.multiple (items.map pathAt ++
      (CompiledTransition.endsOf allowed selected).map fun targetId => ⟨graphPath, targetId⟩))),
      targets ++ items)) ∨
  (¬CompiledTransition.Selects allowed selected ∧ ∃ error, r = (.error error, targets))

theorem fansOut (routers : Routers Id ρ) (pathAt : Nat → NodePath) (router : ρ)
    (allowed : List (NodeId × Option Nat)) (graphPath : GraphPath) (selected : List NodeId)
    (targets : List Nat) (hr : routers.fanOut router = pure (.ok selected)) :
    FansOut pathAt graphPath allowed selected targets
      ((CompiledTransition.conditionalFanOut router allowed).resolveAppending routers id
        (fun i => pure (pathAt i)) graphPath targets).run := by
  rw [CompiledTransition.resolveAppending_eq]
  by_cases h : CompiledTransition.Selects allowed selected
  · obtain ⟨items, hperm, hsorted, hresolve⟩ := CompiledTransition.resolveInto_of_selects id
      pathAt graphPath hr h
    rw [hresolve]
    exact .inl ⟨h, items, hperm, hsorted, rfl⟩
  · obtain ⟨error, hresolve⟩ := CompiledTransition.resolveInto_of_not_selects id
      graphPath hr h fun i => pure (pathAt i)
    rw [hresolve]
    exact .inr ⟨h, error, rfl⟩

/-- On a whitelist as it is compiled, every item is appended once, and only `END` is reported after
the items. -/
theorem Compiled.fansOut_strictly (h : Compiled g) {i : Nat} {item : CompiledItem ν ρ Nat}
    (hi : g.items[i]? = some item) {router : ρ} {allowed : List (NodeId × Option Nat)}
    (ht : item.transition = .conditionalFanOut router allowed) {selected : List NodeId}
    (hselects : CompiledTransition.Selects allowed selected) :
    (CompiledTransition.itemsOf allowed selected).Nodup ∧
      CompiledTransition.endsOf allowed selected =
        if NodeId.END ∈ selected then [NodeId.END] else [] := by
  have hlists := h.listed i item hi
  rw [ht] at hlists
  exact ⟨CompiledTransition.Lists.nodup_itemsOf hlists hselects.nodup,
    CompiledTransition.Lists.endsOf_eq hlists hselects⟩

/-- Resolving after a remapping by a strictly increasing mapping. -/
theorem resolve_remapped {m : Type → Type} [Monad m] [LawfulMonad m] {mapping : List Nat}
    (hmapping : mapping.Pairwise (· < ·)) {t t' : CompiledTransition ρ Nat}
    (hremap : t.remap mapping = .ok t') (routers : Routers m ρ) {pre : GraphPath}
    {pathAt pathAt' : Nat → m NodePath}
    (hpath : ∀ i mapped, mapping[i]? = some mapped →
      pathAt' mapped = (fun p => p.prefixed pre) <$> pathAt i) (graphPath : GraphPath) :
    t'.resolveInto routers id pathAt' (graphPath.prefixed pre) =
      CompiledTransition.imageOf (mapping.getD · 0) pre <$>
        t.resolveInto routers id pathAt graphPath := by
  obtain ⟨hlt, rfl⟩ := CompiledTransition.remap_eq_ok.mp hremap
  refine CompiledTransition.resolveInto_map (fun a ha b hb => ?_) fun a ha => ?_
  · exact CompiledTransition.getD_le_getD hmapping (hlt a ha) (hlt b hb)
  · exact hpath a _ (by simp [hlt a ha])

/-- The frontier of a namespace that has run out: nothing at the root, the exit of its own mount
below. -/
theorem Compiled.orScopeExit_nil (h : Compiled g) {i : Nat} {item : CompiledItem ν ρ Nat}
    (hi : g.items[i]? = some item) :
    (item.path.graphPath = GraphPath.root ∧ g.orScopeExit item.path.graphPath [] = []) ∨
    ∃ (hne : item.path.graphPath.segments ≠ []) (exit : Nat) (t : CompiledTransition ρ Nat),
      g.orScopeExit item.path.graphPath [] = [exit] ∧ g.items[exit]? =
        some (.exitSubgraph item.path.graphPath (item.path.graphPath.mountPath hne) t) := by
  by_cases hne : item.path.graphPath.segments = []
  · have hroot : item.path.graphPath = GraphPath.root := by
      cases hp : item.path.graphPath
      rw [hp] at hne
      exact congrArg GraphPath.mk hne
    refine .inl ⟨hroot, ?_⟩
    cases h with
    | mk sg g _ hcompile =>
      simp [CompiledGraph.orScopeExit, CompiledGraph.scopeExit, hroot,
        (flattened hcompile).scopeExit_root]
  · obtain ⟨exit, t, hexit, hitem⟩ := h.ends_own i item hi hne
    exact .inr ⟨hne, exit, t, by simp [CompiledGraph.orScopeExit, CompiledGraph.scopeExit, hexit],
      hitem⟩

/-- A router that selects only `END` leaves its namespace without targets. -/
theorem Compiled.resolve_end {E : Env ν ρ} (h : Compiled g) {i : Nat} {item : CompiledItem ν ρ Nat}
    (hi : g.items[i]? = some item) {router : ρ} {allowed : List (NodeId × Option Nat)}
    (ht : item.transition = .conditionalFanOut router allowed)
    (hend : NodeId.END ∈ allowed.map Prod.fst) {routers : Routers (M E) ρ}
    (hr : routers.fanOut router = pure (.ok [NodeId.END])) :
    item.transition.resolveInto routers id g.pathAt item.path.graphPath =
      pure (.ok ([], some (.multiple [⟨item.path.graphPath, NodeId.END⟩]))) := by
  have hlists := h.listed i item hi
  rw [ht] at hlists ⊢
  obtain ⟨target, hlookup⟩ := CompiledTransition.mem_keys_iff.mp hend
  obtain rfl : target = none :=
    (CompiledTransition.Lists.ends hlists _ (CompiledTransition.mem_of_lookup hlookup)).mpr rfl
  have hselect : CompiledTransition.selectAll allowed [] [NodeId.END] =
      .ok [(none, NodeId.END)] := by
    rw [CompiledTransition.selectAll_eq_ok]
    simpa [hlookup] using hend
  simp [CompiledTransition.resolveInto, hr, hselect, CompiledTransition.endLast,
    CompiledTransition.targetPath, sortByKey]

end Compiled

/-- Fan-out resolution: what one output appends and reports; that a rejection appends nothing,
whatever the shape of the transition; that the whitelists of compiled graphs make this strict; that
resolving commutes with every strictly increasing mapping, and with every nesting of compiled graphs;
and that a selection of `END` alone ends the namespace it is made in. -/
theorem conditional_fan_out :
    (∀ (routers : Routers Id ρ) (pathAt : Nat → NodePath) (router : ρ)
      (allowed : List (NodeId × Option Nat)) (graphPath : GraphPath) (selected : List NodeId)
      (targets : List Nat), routers.fanOut router = pure (.ok selected) →
      FansOut pathAt graphPath allowed selected targets
        ((CompiledTransition.conditionalFanOut router allowed).resolveAppending routers id
          (fun i => pure (pathAt i)) graphPath targets).run) ∧
    (∀ (routers : Routers Id ρ) (pathAt : Nat → Id NodePath) (t : CompiledTransition ρ Nat)
      (graphPath : GraphPath) (targets : List Nat) (error : TransitionError),
      (t.resolveAppending routers id pathAt graphPath targets).run.1 = .error error →
      (t.resolveAppending routers id pathAt graphPath targets).run.2 = targets) ∧
    (∀ g : CompiledGraph ν ρ, Compiled g → ∀ (i : Nat) item router allowed,
      g.items[i]? = some item → item.transition = .conditionalFanOut router allowed →
      ∀ selected, CompiledTransition.Selects allowed selected →
        (CompiledTransition.itemsOf allowed selected).Nodup ∧
        CompiledTransition.endsOf allowed selected =
          if NodeId.END ∈ selected then [NodeId.END] else []) ∧
    (∀ (m : Type → Type) [Monad m] [LawfulMonad m] (mapping : List Nat),
      mapping.Pairwise (· < ·) → ∀ t t' : CompiledTransition ρ Nat, t.remap mapping = .ok t' →
      ∀ (routers : Routers m ρ) (pre : GraphPath) (pathAt pathAt' : Nat → m NodePath),
      (∀ i mapped, mapping[i]? = some mapped →
        pathAt' mapped = (fun p => p.prefixed pre) <$> pathAt i) →
      ∀ graphPath, t'.resolveInto routers id pathAt' (graphPath.prefixed pre) =
        CompiledTransition.imageOf (mapping.getD · 0) pre <$>
          t.resolveInto routers id pathAt graphPath) ∧
    (∀ (E : Env ν ρ) (inner g : CompiledGraph ν ρ) (f : Nat → Nat) (pre : GraphPath),
      Compiled inner → Nested inner f pre g → ∀ (i : Nat) item, inner.items[i]? = some item →
      ∀ routers : Routers (M E) ρ, ∃ item', g.items[f i]? = some item' ∧
        item'.path = item.path.prefixed pre ∧
        item'.transition.resolveInto routers id g.pathAt item'.path.graphPath =
          CompiledTransition.imageOf f pre <$>
            item.transition.resolveInto routers id inner.pathAt item.path.graphPath) ∧
    (∀ (E : Env ν ρ) (g : CompiledGraph ν ρ), Compiled g → ∀ (i : Nat) item router allowed,
      g.items[i]? = some item → item.transition = .conditionalFanOut router allowed →
      NodeId.END ∈ allowed.map Prod.fst → ∀ routers : Routers (M E) ρ,
      routers.fanOut router = pure (.ok [NodeId.END]) →
      item.transition.resolveInto routers id g.pathAt item.path.graphPath =
        pure (.ok ([], some (.multiple [⟨item.path.graphPath, NodeId.END⟩]))) ∧
      ((item.path.graphPath = GraphPath.root ∧ g.orScopeExit item.path.graphPath [] = []) ∨
        ∃ (hne : item.path.graphPath.segments ≠ []) (exit : Nat) (t : CompiledTransition ρ Nat),
          g.orScopeExit item.path.graphPath [] = [exit] ∧ g.items[exit]? =
            some (.exitSubgraph item.path.graphPath (item.path.graphPath.mountPath hne) t))) := by
  refine ⟨?_, ?_, ?_, ?_, ?_, ?_⟩
  · intro routers pathAt router allowed graphPath selected targets hr
    exact fansOut routers pathAt router allowed graphPath selected targets hr
  · intro routers pathAt t graphPath targets error h
    rw [CompiledTransition.resolveAppending_eq] at h ⊢
    exact CompiledTransition.appendTo_error h
  · intro g h i item router allowed hi ht selected hselects
    exact h.fansOut_strictly hi ht hselects
  · intro m _ _ mapping hmapping t t' hremap routers pre pathAt pathAt' hpath graphPath
    exact resolve_remapped hmapping hremap routers hpath graphPath
  · intro E inner g f pre hinner hnested i item hi routers
    exact hnested.resolves hinner hi routers
  · intro E g h i item router allowed hi ht hend routers hr
    exact ⟨h.resolve_end hi ht hend hr, h.orScopeExit_nil hi⟩

end GroupAgent.Core
