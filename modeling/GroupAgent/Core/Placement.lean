import GroupAgent.Core.Flatten

/-!
# Where the items of a compiled graph stand

Every item of a flattened graph stands in one namespace, and the transitions of nodes and mount
exits lead to items of the same namespace. `Placed` collects this, together with what the runtime
looks up: the path of every item in `node_paths`, and the exit of every namespace in `scope_exits`
(`graph.rs:967-976` of `crates/group-agent-core/src`).

Results: **`placed`** proves it of every compiled graph, by induction on the mounting:
`append_graph` (`graph.rs:905-954`) moves a block as a whole, so what held inside it holds at its
base.

Everything about runs uses `Placed` only, and never how the graph was built. Which items may run
together is not part of it (`Coactive`).
-/

namespace GroupAgent.Core

open GroupAgent.Lib

variable {ν ρ : Type}

/-! ## Items -/

namespace CompiledItem

variable {ι : Type}

/-- The outgoing transition of an item. -/
def transition : CompiledItem ν ρ ι → CompiledTransition ρ ι
  | .node n => n.transition
  | .enterSubgraph _ _ t => t
  | .exitSubgraph _ _ t => t

/-- The path reported for an item. -/
def path : CompiledItem ν ρ ι → NodePath
  | .node n => n.path
  | .enterSubgraph graphPath nested _ => graphPath.mountPath nested
  | .exitSubgraph _ mountPath _ => mountPath

def isExit : CompiledItem ν ρ ι → Bool
  | .node _ => false
  | .enterSubgraph _ _ _ => false
  | .exitSubgraph _ _ _ => true

def isEnter : CompiledItem ν ρ ι → Bool
  | .node _ => false
  | .enterSubgraph _ _ _ => true
  | .exitSubgraph _ _ _ => false

variable {pre : GraphPath} {base : Nat}

@[simp] theorem relocate_transition (item : CompiledItem ν ρ Nat) :
    (item.relocate pre base).transition = item.transition.map (base + ·) := by
  cases item <;> rfl

@[simp] theorem relocate_path (item : CompiledItem ν ρ Nat) :
    (item.relocate pre base).path = item.path.prefixed pre := by
  cases item with
  | node n => rfl
  | enterSubgraph graphPath nested t => exact GraphPath.mountPath_prefixed nested pre
  | exitSubgraph graphPath mountPath t => rfl

@[simp] theorem relocate_isExit (item : CompiledItem ν ρ Nat) :
    (item.relocate pre base).isExit = item.isExit := by
  cases item <;> rfl

@[simp] theorem relocate_isEnter (item : CompiledItem ν ρ Nat) :
    (item.relocate pre base).isEnter = item.isEnter := by
  cases item <;> rfl

end CompiledItem

/-! ## Declared items -/

namespace StateGraph

variable {μ : Type} {sg : StateGraph ν ρ μ}

theorem placedTransition_of_some {itemId : NodeId} {t : CompiledTransition ρ NodeId}
    (h : sg.transition itemId = some t) :
    sg.placedTransition itemId = (t.map sg.entryOf).ordered id := by
  unfold placedTransition
  rw [h]

theorem mem_placedTransition {itemId : NodeId} {t : CompiledTransition ρ NodeId}
    (h : sg.transition itemId = some t) {j : Nat} :
    j ∈ (sg.placedTransition itemId).targets ↔ ∃ a ∈ t.targets, sg.entryOf a = j := by
  rw [placedTransition_of_some h, CompiledTransition.mem_targets_ordered,
    CompiledTransition.targets_map, List.mem_map]

end StateGraph

namespace Flattened

variable {sg : StateGraph ν ρ (CompiledGraph ν ρ)} {g : CompiledGraph ν ρ}

theorem block_some (hf : Flattened sg g) {itemId : NodeId} {child : CompiledGraph ν ρ}
    (hmem : (itemId, .subgraph child) ∈ sg.items) {j : Nat} {item : CompiledItem ν ρ Nat}
    (hj : child.items[j]? = some item) :
    g.items[sg.baseOf itemId + j]? =
      some (item.relocate (GraphPath.root.child itemId) (sg.baseOf itemId)) := by
  rw [hf.block_at hmem (List.getElem?_eq_some_iff.mp hj).1, hj]
  rfl

/-- The item a declaration is entered at stands in the root namespace. -/
theorem entry_item (hf : Flattened sg g) {itemId : NodeId} (hmem : itemId ∈ sg.itemIds) :
    ∃ item, g.items[sg.entryOf itemId]? = some item ∧ item.isExit = false ∧
      item.path = ⟨GraphPath.root, itemId⟩ := by
  obtain ⟨⟨id, declared⟩, hdecl, rfl⟩ := List.mem_map.mp hmem
  cases declared with
  | node kind => exact ⟨_, hf.node_at hdecl, rfl, rfl⟩
  | subgraph child =>
    exact ⟨_, hf.enter_at hdecl, rfl, GraphPath.mountPath_child GraphPath.root id⟩

end Flattened

/-- What stands at an index of the graph that `sg` compiles to: the own items of a node or of a
mount, or an item of a mounted graph. -/
inductive Stands (sg : StateGraph ν ρ (CompiledGraph ν ρ)) : Nat → CompiledItem ν ρ Nat → Prop where
  | node {itemId : NodeId} {kind : NodeKind ν} (hmem : (itemId, .node kind) ∈ sg.items) :
      Stands sg (sg.entryOf itemId)
        (.node ⟨⟨GraphPath.root, itemId⟩, GraphPath.root, kind, sg.placedTransition itemId⟩)
  | enter {itemId : NodeId} {child : CompiledGraph ν ρ} (hmem : (itemId, .subgraph child) ∈ sg.items) :
      Stands sg (sg.entryOf itemId) (.enterSubgraph (GraphPath.root.child itemId)
        (GraphPath.child_ne_nil _ _) (.fixed (some (sg.mountTarget itemId child))))
  | exit {itemId : NodeId} {child : CompiledGraph ν ρ} (hmem : (itemId, .subgraph child) ∈ sg.items) :
      Stands sg (sg.exitOf itemId) (.exitSubgraph (GraphPath.root.child itemId)
        ⟨GraphPath.root, itemId⟩ (sg.placedTransition itemId))
  | inner {itemId : NodeId} {child : CompiledGraph ν ρ} (hmem : (itemId, .subgraph child) ∈ sg.items)
      {j : Nat} {item : CompiledItem ν ρ Nat} (hj : child.items[j]? = some item) :
      Stands sg (sg.baseOf itemId + j)
        (item.relocate (GraphPath.root.child itemId) (sg.baseOf itemId))

namespace Flattened

variable {sg : StateGraph ν ρ (CompiledGraph ν ρ)} {g : CompiledGraph ν ρ}

theorem at_of_stands (hf : Flattened sg g) {i : Nat} {item : CompiledItem ν ρ Nat}
    (h : Stands sg i item) : g.items[i]? = some item := by
  cases h with
  | node hmem => exact hf.node_at hmem
  | enter hmem => exact hf.enter_at hmem
  | exit hmem => exact hf.exit_at hmem
  | inner hmem hj => exact hf.block_some hmem hj

theorem stands (hf : Flattened sg g) {i : Nat} {item : CompiledItem ν ρ Nat}
    (hi : g.items[i]? = some item) : Stands sg i item := by
  have hsome : ∃ item', Stands sg i item' := by
    rcases hf.cover (List.getElem?_eq_some_iff.mp hi).1 with
      ⟨itemId, kind, hmem, rfl⟩ | ⟨itemId, child, hmem, rfl | rfl | ⟨j, hj, rfl⟩⟩
    · exact ⟨_, .node hmem⟩
    · exact ⟨_, .enter hmem⟩
    · exact ⟨_, .exit hmem⟩
    · exact ⟨_, .inner hmem (List.getElem?_eq_getElem hj)⟩
  obtain ⟨item', h⟩ := hsome
  have heq := hf.at_of_stands h
  rw [hi] at heq
  cases heq
  exact h

end Flattened

/-! ## Every compiled graph -/

/-- Where items stand, and where they lead. -/
structure Placed (g : CompiledGraph ν ρ) : Prop where
  node : ∀ (i : Nat) n, g.items[i]? = some (.node n) → n.path.graphPath = n.graphPath
  enter : ∀ (i : Nat) graphPath nested t, g.items[i]? = some (.enterSubgraph graphPath nested t) →
    ∃ j, t = .fixed (some j)
  target : ∀ (i : Nat) item (j : Nat), g.items[i]? = some item → j ∈ item.transition.targets →
    ∃ item', g.items[j]? = some item' ∧ (item.isEnter = false →
      item'.isExit = false ∧ item'.path.graphPath = item.path.graphPath)
  entry : ∀ i, g.entryIndex = some i → ∃ item, g.items[i]? = some item ∧ item.isExit = false ∧
    item.path.graphPath = GraphPath.root
  scopeExit : ∀ graphPath i, g.scopeExits.lookup graphPath = some i → ∃ mountPath t,
    g.items[i]? = some (.exitSubgraph graphPath mountPath t)

section Placed

variable {sg : StateGraph ν ρ (CompiledGraph ν ρ)} {g : CompiledGraph ν ρ}

theorem Flattened.target_item (hf : Flattened sg g) {itemId : NodeId} (hmem : itemId ∈ sg.itemIds)
    {j : Nat} (hj : j ∈ (sg.placedTransition itemId).targets) :
    ∃ item, g.items[j]? = some item ∧ item.isExit = false ∧
      item.path.graphPath = GraphPath.root := by
  obtain ⟨t, ht, hknown⟩ := hf.known itemId hmem
  obtain ⟨a, ha, rfl⟩ := (StateGraph.mem_placedTransition ht).mp hj
  obtain ⟨item, hitem, hexit, hpath⟩ := hf.entry_item (hknown a ha)
  exact ⟨item, hitem, hexit, by rw [hpath]⟩

theorem Flattened.mountTarget_item (hf : Flattened sg g) {itemId : NodeId}
    {child : CompiledGraph ν ρ} (hmem : (itemId, .subgraph child) ∈ sg.items)
    (hchild : Placed child) : ∃ item, g.items[sg.mountTarget itemId child]? = some item := by
  unfold StateGraph.mountTarget
  cases he : child.entryIndex with
  | none => exact ⟨_, hf.exit_at hmem⟩
  | some entry =>
    obtain ⟨item, hitem, -⟩ := hchild.entry entry he
    exact ⟨_, hf.block_some hmem hitem⟩

theorem Flattened.scopeExit_item (hf : Flattened sg g)
    (hmounted : ∀ itemId child, (itemId, .subgraph child) ∈ sg.items → Placed child)
    {graphPath : GraphPath} {i : Nat} (h : g.scopeExits.lookup graphPath = some i) :
    ∃ mountPath t, g.items[i]? = some (.exitSubgraph graphPath mountPath t) := by
  rw [hf.exits] at h
  obtain ⟨segments⟩ := graphPath
  cases segments with
  | nil => cases h
  | cons itemId inner =>
    unfold StateGraph.exitIn at h
    simp only at h
    split at h
    · rename_i child hlookup
      have hmem : (itemId, .subgraph child) ∈ sg.items := StateGraph.item?_eq_some.mp hlookup
      split at h
      · rename_i hinner
        cases h
        subst hinner
        exact ⟨_, _, hf.exit_at hmem⟩
      · obtain ⟨exit, hexit, rfl⟩ := Option.map_eq_some_iff.mp h
        obtain ⟨mountPath, t, hitem⟩ := (hmounted itemId child hmem).scopeExit _ _ hexit
        exact ⟨_, _, hf.block_some hmem hitem⟩
    · cases h

theorem placed_of_mounted (hf : Flattened sg g)
    (hmounted : ∀ itemId child, (itemId, .subgraph child) ∈ sg.items → Placed child) :
    Placed g where
  node i n hi := by
    generalize hx : CompiledItem.node n = x at hi
    cases hf.stands hi with
    | node hmem => cases hx; rfl
    | enter hmem => cases hx
    | exit hmem => cases hx
    | @inner itemId child hmem j item hj =>
      cases item with
      | node n' =>
        cases hx
        have := (hmounted itemId child hmem).node j n' hj
        simp [this]
      | enterSubgraph graphPath nested t => cases hx
      | exitSubgraph graphPath mountPath t => cases hx
  enter i graphPath nested t hi := by
    generalize hx : CompiledItem.enterSubgraph graphPath nested t = x at hi
    cases hf.stands hi with
    | node hmem => cases hx
    | enter hmem => cases hx; exact ⟨_, rfl⟩
    | exit hmem => cases hx
    | @inner itemId child hmem j item hj =>
      cases item with
      | node n => cases hx
      | enterSubgraph graphPath' nested' t' =>
        cases hx
        obtain ⟨j', rfl⟩ := (hmounted itemId child hmem).enter j graphPath' nested' t' hj
        exact ⟨_, rfl⟩
      | exitSubgraph graphPath mountPath t => cases hx
  target i item j hi hj := by
    cases hf.stands hi with
    | node hmem =>
      obtain ⟨item', hitem', hexit, hpath⟩ :=
        hf.target_item (List.mem_map.mpr ⟨_, hmem, rfl⟩) hj
      exact ⟨item', hitem', fun _ => ⟨hexit, hpath⟩⟩
    | @enter itemId child hmem =>
      have he : j = sg.mountTarget itemId child := by
        simpa [CompiledItem.transition, CompiledTransition.targets] using hj
      subst he
      obtain ⟨item', hitem'⟩ := hf.mountTarget_item hmem (hmounted _ _ hmem)
      exact ⟨item', hitem', fun h => by cases h⟩
    | exit hmem =>
      obtain ⟨item', hitem', hexit, hpath⟩ :=
        hf.target_item (List.mem_map.mpr ⟨_, hmem, rfl⟩) hj
      exact ⟨item', hitem', fun _ => ⟨hexit, hpath⟩⟩
    | @inner itemId child hmem i' item hi' =>
      rw [CompiledItem.relocate_transition, CompiledTransition.targets_map] at hj
      obtain ⟨j', hj', rfl⟩ := List.mem_map.mp hj
      obtain ⟨item', hitem', hstay⟩ := (hmounted itemId child hmem).target i' item j' hi' hj'
      refine ⟨_, hf.block_some hmem hitem', fun henter => ?_⟩
      rw [CompiledItem.relocate_isEnter] at henter
      obtain ⟨hexit, hpath⟩ := hstay henter
      simp [hexit, hpath]
  entry i hi := by
    rw [hf.entry] at hi
    obtain ⟨a, ha, rfl⟩ := Option.map_eq_some_iff.mp hi
    obtain ⟨item, hitem, hexit, hpath⟩ := hf.entry_item (hf.entry_known a ha)
    exact ⟨item, hitem, hexit, by rw [hpath]⟩
  scopeExit graphPath i h := hf.scopeExit_item hmounted h

end Placed

theorem placed {g : CompiledGraph ν ρ} (h : Compiled g) : Placed g := by
  induction h with
  | mk sg g _ hcompile ih => exact placed_of_mounted (flattened hcompile) ih

/-- A path names one index of a compiled graph, and every real node is found under its path. -/
theorem Compiled.indexed {g : CompiledGraph ν ρ} (h : Compiled g) :
    PathsIndexed (g.items.map some) g.nodePaths := by
  cases h with
  | mk sg _ _ hcompile => exact (flattened hcompile).indexed

end GroupAgent.Core
