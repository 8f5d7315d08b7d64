import GroupAgent.Core.Placement
import GroupAgent.Core.Protocol

/-!
# The namespace an item is reached in

A run that follows the items of a compiled graph (`graph.rs:967-976`, the entry and the exit of a
mount placed by 905-954) enters and leaves subgraphs as it goes. An item is reached in the
namespace that it stands in; the exit of a mount from inside it.

* `CompiledItem.house`: the namespace an item is reached in.
* `GraphPath.parent`: the namespace around another one. Relocating commutes with it
  (`parent_prefixed`).

Results:
* **`housed`**: in every compiled graph the entry of a mount leads into its namespace, its exit
  leads out of it, and every namespace but the root has an exit.

The proof goes by the nesting of compiled graphs (`Compiled`), one mount at a time. It says where
targets stand, not which of them a router chooses.
-/

namespace GroupAgent.Core

open GroupAgent.Lib

variable {ν ρ : Type}

/-! ## Namespaces -/

namespace GraphPath

theorem ne_root {p : GraphPath} : p ≠ root ↔ p.segments ≠ [] := by
  cases p
  simp [root]

@[simp] theorem parent_child (p : GraphPath) (id : NodeId) : (p.child id).parent = p := by
  cases p
  simp [parent, child]

theorem parent_prefixed {p : GraphPath} (h : p.segments ≠ []) (pre : GraphPath) :
    (p.prefixed pre).parent = p.parent.prefixed pre := by
  simp [parent, prefixed, List.dropLast_append_of_ne_nil h]

end GraphPath

/-- The namespace in which a run reaches an item. -/
def CompiledItem.house {ι : Type} : CompiledItem ν ρ ι → GraphPath
  | .node n => n.path.graphPath
  | .enterSubgraph graphPath _ _ => graphPath.parent
  | .exitSubgraph graphPath _ _ => graphPath

namespace CompiledItem

theorem house_of_not_exit {ι : Type} {item : CompiledItem ν ρ ι} (h : item.isExit = false) :
    item.house = item.path.graphPath := by
  cases item with
  | node n => rfl
  | enterSubgraph graphPath nested t => rfl
  | exitSubgraph graphPath mountPath t => cases h

@[simp] theorem relocate_house {pre : GraphPath} {base : Nat} (item : CompiledItem ν ρ Nat) :
    (item.relocate pre base).house = item.house.prefixed pre := by
  cases item with
  | node n => rfl
  | enterSubgraph graphPath nested t => exact GraphPath.parent_prefixed nested pre
  | exitSubgraph graphPath mountPath t => rfl

end CompiledItem

/-- Where mounts lead, and that every namespace can be left. -/
structure Housed (g : CompiledGraph ν ρ) : Prop where
  enter : ∀ (i : Nat) graphPath nested t (j : Nat),
    g.items[i]? = some (.enterSubgraph graphPath nested t) → j ∈ t.targets →
      ∃ item, g.items[j]? = some item ∧ item.house = graphPath
  exit : ∀ (i : Nat) graphPath mountPath t,
    g.items[i]? = some (.exitSubgraph graphPath mountPath t) →
      graphPath ≠ .root ∧ mountPath.graphPath = graphPath.parent
  scope : ∀ (i : Nat) item, g.items[i]? = some item → item.path.graphPath = .root ∨
    ∃ exit, g.scopeExit item.path.graphPath = some exit

section Housed

variable {sg : StateGraph ν ρ (CompiledGraph ν ρ)} {g : CompiledGraph ν ρ}

/-- The entry of a mount leads into its namespace. -/
theorem Flattened.mountTarget_house (hf : Flattened sg g) {itemId : NodeId}
    {child : CompiledGraph ν ρ} (hmem : (itemId, .subgraph child) ∈ sg.items)
    (hchild : Placed child) : ∃ item, g.items[sg.mountTarget itemId child]? = some item ∧
      item.house = GraphPath.root.child itemId := by
  unfold StateGraph.mountTarget
  cases he : child.entryIndex with
  | none => exact ⟨_, hf.exit_at hmem, rfl⟩
  | some entry =>
    obtain ⟨item, hitem, hexit, hpath⟩ := hchild.entry entry he
    refine ⟨_, hf.block_some hmem hitem, ?_⟩
    rw [CompiledItem.relocate_house, CompiledItem.house_of_not_exit hexit, hpath,
      GraphPath.root_prefixed]

theorem housed_of_mounted (hf : Flattened sg g)
    (hplaced : ∀ itemId child, (itemId, .subgraph child) ∈ sg.items → Placed child)
    (hmounted : ∀ itemId child, (itemId, .subgraph child) ∈ sg.items → Housed child) :
    Housed g where
  enter i graphPath nested t j hi hj := by
    generalize hx : CompiledItem.enterSubgraph graphPath nested t = x at hi
    cases hf.stands hi with
    | node hmem => cases hx
    | @enter itemId child hmem =>
      cases hx
      have he : j = sg.mountTarget itemId child := by
        simpa [CompiledTransition.targets] using hj
      subst he
      exact hf.mountTarget_house hmem (hplaced _ _ hmem)
    | exit hmem => cases hx
    | @inner itemId child hmem i' item hi' =>
      cases item with
      | node n => cases hx
      | enterSubgraph graphPath' nested' t' =>
        cases hx
        rw [CompiledTransition.targets_map] at hj
        obtain ⟨j', hj', rfl⟩ := List.mem_map.mp hj
        obtain ⟨item', hitem', hhouse⟩ :=
          (hmounted itemId child hmem).enter i' graphPath' nested' t' j' hi' hj'
        refine ⟨_, hf.block_some hmem hitem', ?_⟩
        rw [CompiledItem.relocate_house, hhouse]
      | exitSubgraph graphPath mountPath t => cases hx
  exit i graphPath mountPath t hi := by
    generalize hx : CompiledItem.exitSubgraph graphPath mountPath t = x at hi
    cases hf.stands hi with
    | node hmem => cases hx
    | enter hmem => cases hx
    | exit hmem =>
      cases hx
      exact ⟨GraphPath.ne_root.mpr (GraphPath.child_ne_nil _ _), (GraphPath.parent_child _ _).symm⟩
    | @inner itemId child hmem i' item hi' =>
      cases item with
      | node n => cases hx
      | enterSubgraph graphPath' nested' t' => cases hx
      | exitSubgraph graphPath' mountPath' t' =>
        cases hx
        obtain ⟨hroot, hparent⟩ := (hmounted itemId child hmem).exit i' graphPath' mountPath' t' hi'
        have hne := GraphPath.ne_root.mp hroot
        refine ⟨GraphPath.ne_root.mpr (GraphPath.prefixed_ne_nil hne _), ?_⟩
        rw [GraphPath.parent_prefixed hne, NodePath.prefixed_graphPath, hparent]
  scope i item hi := by
    cases hf.stands hi with
    | node hmem => exact .inl rfl
    | @enter itemId child hmem => exact .inl (GraphPath.parent_child _ _)
    | exit hmem => exact .inl rfl
    | @inner itemId child hmem i' item hi' =>
      rw [CompiledItem.relocate_path, NodePath.prefixed_graphPath]
      refine .inr ?_
      unfold CompiledGraph.scopeExit
      by_cases hroot : item.path.graphPath = .root
      · rw [hroot, GraphPath.root_prefixed]
        exact ⟨_, hf.scopeExit_mount hmem⟩
      · obtain hroot' | ⟨exit, hexit⟩ := (hmounted itemId child hmem).scope i' item hi'
        · exact absurd hroot' hroot
        · refine ⟨sg.baseOf itemId + exit, ?_⟩
          rw [hf.scopeExit_inner hmem (GraphPath.ne_root.mp hroot)]
          unfold CompiledGraph.scopeExit at hexit
          rw [hexit]
          rfl

end Housed

/-- **Every compiled graph is housed.** -/
theorem housed {g : CompiledGraph ν ρ} (h : Compiled g) : Housed g := by
  induction h with
  | mk sg g hmounted hcompile ih =>
    exact housed_of_mounted (flattened hcompile)
      (fun itemId child hmem => placed (hmounted itemId child hmem)) ih

end GroupAgent.Core
