import GroupAgent.Core.Compile
import GroupAgent.Lib.Blocks
import GroupAgent.Lib.Except

/-!
# What compiling builds

`StateGraph::compile` (`graph.rs:310-436`) fills placeholders one after the other. This file says
what stands in the result: first the entries (and exits) of the declared items in declaration
order, then the items of every mounted graph, relocated, block after block.

* `StateGraph.transition` is an item's outgoing transition with its targets by name. The compiled
  transition is its image under `entryOf`, the index a declared item is entered at.
* A declared node takes one place of the head and a mount two, an entry and an exit (`width`).
  `baseOf` is where the block of a mount begins: behind the head and the blocks of the mounts
  before it, since `append_graph` (905-954) allocates the items of the mounted graph in one go.
* `relocate` is what `append_graph` makes of one item: its paths are prefixed, its transition and
  its scope exits are shifted by the base.

Results:
* `Flattened` collects what later files use, and **`flattened`** proves it of every result of
  `compile`. Nothing after it looks at the builder.
* `Compiled`: the graphs that compiling can come to, with everything they mount compiled before. It
  is the induction along which later files prove what holds at any nesting.
-/

namespace GroupAgent.Core

open GroupAgent.Lib

variable {ν ρ : Type}

/-! ## Transitions by name -/

namespace CompiledTransition

variable {ι κ : Type}

/-- Every target a transition can have. -/
def targets : CompiledTransition ρ ι → List ι
  | .fixed target => target.toList
  | .staticFanOut targets => targets
  | .conditional _ allowed => allowed.filterMap Prod.snd
  | .conditionalFanOut _ allowed => allowed.filterMap Prod.snd

/-- Sort the targets of a static fan-out. -/
def ordered (key : ι → Nat) : CompiledTransition ρ ι → CompiledTransition ρ ι
  | .staticFanOut targets => .staticFanOut (sortByKey key targets)
  | .fixed target => .fixed target
  | .conditional router allowed => .conditional router allowed
  | .conditionalFanOut router allowed => .conditionalFanOut router allowed

theorem targets_map (f : ι → κ) (t : CompiledTransition ρ ι) :
    (t.map f).targets = t.targets.map f := by
  cases t with
  | fixed target => cases target <;> rfl
  | staticFanOut targets => rfl
  | conditional router allowed =>
    simp only [map, targets, List.filterMap_map, List.map_filterMap]
    rfl
  | conditionalFanOut router allowed =>
    simp only [map, targets, List.filterMap_map, List.map_filterMap]
    rfl

@[simp] theorem mem_targets_ordered {key : ι → Nat} {t : CompiledTransition ρ ι} {a : ι} :
    a ∈ (t.ordered key).targets ↔ a ∈ t.targets := by
  cases t <;> simp [ordered, targets]

end CompiledTransition

namespace StateGraph

variable {μ : Type}

/-- A target by name, none for `END`. -/
def namedTarget (target : NodeId) : Option NodeId := if target.isEnd then none else some target

/-- The outgoing transition of an item, targets by name. -/
def transition (sg : StateGraph ν ρ μ) (itemId : NodeId) : Option (CompiledTransition ρ NodeId) :=
  match sg.fixedBySource itemId with
  | some outgoing => some (.fixed (namedTarget outgoing.successor))
  | none =>
    match sg.fanOutEdges.bySource itemId with
    | some e => some (.staticFanOut (e.targets.filterMap namedTarget))
    | none =>
      match sg.conditionalEdges.bySource itemId with
      | some e =>
        some (.conditional e.router (e.targets.map fun nodeId => (nodeId, namedTarget nodeId)))
      | none =>
        match sg.conditionalFanOutEdges.bySource itemId with
        | some e => some (.conditionalFanOut e.router
            (e.targets.map fun nodeId => (nodeId, namedTarget nodeId)))
        | none => none

/-- The item an invocation starts with, none for `END`. -/
def entryItem (sg : StateGraph ν ρ μ) : Option NodeId :=
  (sg.fixedBySource NodeId.START).bind fun outgoing => namedTarget outgoing.successor

/-! ## The layout -/

/-- The placeholders of one item: an entry, and an exit for a mount. -/
def width (item : NodeId × DeclaredItem ν μ) : Nat :=
  match item.2 with
  | .node _ => 1
  | .subgraph _ => 2

/-- The index an item is entered at. -/
def entryOf (sg : StateGraph ν ρ μ) (itemId : NodeId) : Nat := offsetOf width itemId sg.items

/-- The index a mount is left at. -/
def exitOf (sg : StateGraph ν ρ μ) (itemId : NodeId) : Nat := sg.entryOf itemId + 1

theorem width_node (itemId : NodeId) (kind : NodeKind ν) :
    width ((itemId, .node kind) : NodeId × DeclaredItem ν μ) = 1 := rfl

theorem width_subgraph (itemId : NodeId) (graph : μ) :
    width ((itemId, .subgraph graph) : NodeId × DeclaredItem ν μ) = 2 := rfl

/-- The compiled transition of an item. -/
def placedTransition (sg : StateGraph ν ρ μ) (itemId : NodeId) : CompiledTransition ρ Nat :=
  match sg.transition itemId with
  | some t => (t.map sg.entryOf).ordered id
  | none => .fixed none

/-- The items copied for one declared item. -/
def blockLength (item : NodeId × DeclaredItem ν (CompiledGraph ν ρ)) : Nat :=
  match item.2 with
  | .node _ => 0
  | .subgraph child => child.items.length

/-- Where the copy of a mounted graph starts. -/
def baseOf (sg : StateGraph ν ρ (CompiledGraph ν ρ)) (itemId : NodeId) : Nat :=
  totalOf width sg.items + offsetOf blockLength itemId sg.items

/-- Where the entry of a mount leads: to the entry of its graph, or straight to its exit. -/
def mountTarget (sg : StateGraph ν ρ (CompiledGraph ν ρ)) (itemId : NodeId)
    (child : CompiledGraph ν ρ) : Nat :=
  match child.entryIndex with
  | some entry => sg.baseOf itemId + entry
  | none => sg.exitOf itemId

theorem mount_ne_nil (item : NodeId × DeclaredItem ν (CompiledGraph ν ρ)) :
    (GraphPath.root.child item.1).segments ≠ [] := GraphPath.child_ne_nil _ _

/-- The items in an item's own placeholders. -/
def headOf (sg : StateGraph ν ρ (CompiledGraph ν ρ))
    (item : NodeId × DeclaredItem ν (CompiledGraph ν ρ)) : List (CompiledItem ν ρ Nat) :=
  match item.2 with
  | .node kind => [.node ⟨⟨GraphPath.root, item.1⟩, GraphPath.root, kind,
      sg.placedTransition item.1⟩]
  | .subgraph child =>
    [.enterSubgraph (GraphPath.root.child item.1) (mount_ne_nil item)
        (.fixed (some (sg.mountTarget item.1 child))),
      .exitSubgraph (GraphPath.root.child item.1) ⟨GraphPath.root, item.1⟩
        (sg.placedTransition item.1)]

/-- The items copied from a mounted graph. -/
def blockOf (sg : StateGraph ν ρ (CompiledGraph ν ρ))
    (item : NodeId × DeclaredItem ν (CompiledGraph ν ρ)) : List (CompiledItem ν ρ Nat) :=
  match item.2 with
  | .node _ => []
  | .subgraph child =>
    child.items.map (CompiledItem.relocate (GraphPath.root.child item.1) (sg.baseOf item.1))

theorem length_headOf (sg : StateGraph ν ρ (CompiledGraph ν ρ))
    (item : NodeId × DeclaredItem ν (CompiledGraph ν ρ)) :
    (sg.headOf item).length = width item := by
  obtain ⟨itemId, kind | child⟩ := item <;> rfl

theorem length_blockOf (sg : StateGraph ν ρ (CompiledGraph ν ρ))
    (item : NodeId × DeclaredItem ν (CompiledGraph ν ρ)) :
    (sg.blockOf item).length = blockLength item := by
  obtain ⟨itemId, kind | child⟩ := item
  · rfl
  · exact List.length_map _

/-- The exit of a namespace, among the items of a list. -/
def exitIn (sg : StateGraph ν ρ (CompiledGraph ν ρ))
    (items : List (NodeId × DeclaredItem ν (CompiledGraph ν ρ))) (graphPath : GraphPath) :
    Option Nat :=
  match graphPath.segments with
  | [] => none
  | itemId :: inner =>
    match items.lookup itemId with
    | some (.subgraph child) =>
      if inner = [] then some (sg.exitOf itemId)
      else (child.scopeExits.lookup ⟨inner⟩).map (sg.baseOf itemId + ·)
    | _ => none

end StateGraph

/-! ## Allocation -/

namespace StateGraph

variable {μ : Type}

theorem allocateItems_builder : ∀ {items : List (NodeId × DeclaredItem ν μ)}
    {b : FlatBuilder ν ρ}, (allocateItems items b).2 =
      { b with items := b.items ++ List.replicate (totalOf width items) none }
  | [], b => by simp [allocateItems, totalOf]
  | (itemId, .node kind) :: items, b => by
    unfold allocateItems
    simp only [FlatBuilder.allocate]
    rw [allocateItems_builder]
    simp [totalOf, width, List.replicate_add, List.replicate_succ]
  | (itemId, .subgraph graph) :: items, b => by
    unfold allocateItems
    simp only [FlatBuilder.allocate]
    rw [allocateItems_builder]
    simp [totalOf, width, List.replicate_add, List.replicate_succ]

theorem allocateItems_entry : ∀ {items : List (NodeId × DeclaredItem ν μ)} {b : FlatBuilder ν ρ}
    {itemId : NodeId}, (allocateItems items b).1.entries.lookup itemId =
      if itemId ∈ items.map Prod.fst then some (b.items.length + offsetOf width itemId items)
      else none
  | [], b, itemId => rfl
  | (id, .node kind) :: items, b, itemId => by
    unfold allocateItems
    simp only [FlatBuilder.allocate]
    rw [List.lookup_cons, allocateItems_entry, offsetOf]
    by_cases h : itemId = id
    · subst h
      simp
    · have hne : (itemId == id) = false := by simpa using h
      have hne' : ¬ id = itemId := fun he => h he.symm
      have hmem : itemId ∈ id :: items.map Prod.fst ↔ itemId ∈ items.map Prod.fst := by simp [h]
      rw [hne, if_neg hne', List.map_cons, if_congr hmem rfl rfl]
      simp only [List.length_append, List.length_singleton, width_node, Nat.add_assoc]
  | (id, .subgraph graph) :: items, b, itemId => by
    unfold allocateItems
    simp only [FlatBuilder.allocate]
    rw [List.lookup_cons, allocateItems_entry, offsetOf]
    by_cases h : itemId = id
    · subst h
      simp
    · have hne : (itemId == id) = false := by simpa using h
      have hne' : ¬ id = itemId := fun he => h he.symm
      have hmem : itemId ∈ id :: items.map Prod.fst ↔ itemId ∈ items.map Prod.fst := by simp [h]
      rw [hne, if_neg hne', List.map_cons, if_congr hmem rfl rfl]
      simp only [List.length_append, List.length_singleton, width_subgraph, Nat.add_assoc,
        Nat.reduceAdd]

theorem allocateItems_exit : ∀ {items : List (NodeId × DeclaredItem ν μ)} {b : FlatBuilder ν ρ}
    {itemId : NodeId} {exit : Nat}, (items.map Prod.fst).Nodup →
      (allocateItems items b).1.exits.lookup itemId = some exit →
      exit = b.items.length + offsetOf width itemId items + 1
  | [], b, itemId, exit, _, h => by cases h
  | (id, .node kind) :: items, b, itemId, exit, hn, h => by
    unfold allocateItems at h
    simp only [FlatBuilder.allocate] at h
    rw [List.map_cons, List.nodup_cons] at hn
    have ih := allocateItems_exit hn.2 h
    have hne : id ≠ itemId := by
      rintro rfl
      exact hn.1 (exits_mem h)
    rw [offsetOf, if_neg hne, width_node]
    rw [List.length_append, List.length_singleton] at ih
    omega
  | (id, .subgraph graph) :: items, b, itemId, exit, hn, h => by
    unfold allocateItems at h
    simp only [FlatBuilder.allocate] at h
    rw [List.map_cons, List.nodup_cons] at hn
    rw [List.lookup_cons] at h
    by_cases he : itemId = id
    · subst he
      simp only [beq_self_eq_true, Option.some.injEq, List.length_append,
        List.length_singleton] at h
      rw [offsetOf, if_pos rfl]
      omega
    · have hne : (itemId == id) = false := by simpa using he
      have hne' : ¬ id = itemId := fun e => he e.symm
      rw [hne] at h
      have ih := allocateItems_exit hn.2 h
      rw [offsetOf, if_neg hne', width_subgraph]
      simp only [List.length_append, List.length_singleton] at ih
      omega
where
  exits_mem {items : List (NodeId × DeclaredItem ν μ)} {b : FlatBuilder ν ρ} {itemId : NodeId}
      {exit : Nat} (h : (allocateItems items b).1.exits.lookup itemId = some exit) :
      itemId ∈ items.map Prod.fst := by
    induction items generalizing b with
    | nil => cases h
    | cons item items ih =>
      obtain ⟨id, kind | graph⟩ := item
      · exact List.mem_cons_of_mem _ (ih h)
      · unfold allocateItems at h
        simp only [FlatBuilder.allocate] at h
        rw [List.lookup_cons] at h
        by_cases he : itemId = id
        · rw [he]
          exact List.mem_cons_self
        · have hne : (itemId == id) = false := by simpa using he
          rw [hne] at h
          exact List.mem_cons_of_mem _ (ih h)

end StateGraph

/-! ## Compiled transitions -/

namespace StateGraph

variable {μ : Type} {sg : StateGraph ν ρ μ} {entries : List (NodeId × Nat)}

/-- The entries of a graph's own allocation. -/
def EntriesOf (sg : StateGraph ν ρ μ) (entries : List (NodeId × Nat)) : Prop :=
  ∀ itemId, entries.lookup itemId =
    if itemId ∈ sg.itemIds then some (sg.entryOf itemId) else none

theorem target_ok (he : sg.EntriesOf entries) {nodeId : NodeId} {r : Option Nat}
    (h : target entries nodeId = .ok r) :
    r = (namedTarget nodeId).map sg.entryOf ∧ ∀ a ∈ namedTarget nodeId, a ∈ sg.itemIds := by
  unfold target at h
  unfold namedTarget
  by_cases hend : nodeId.isEnd = true
  · rw [if_pos hend] at h ⊢
    cases h
    exact ⟨rfl, fun a ha => absurd ha (by simp)⟩
  · rw [if_neg hend] at h ⊢
    obtain ⟨i, hi, rfl⟩ := map_eq_ok.mp h
    unfold index at hi
    rw [he] at hi
    by_cases hmem : nodeId ∈ sg.itemIds
    · rw [if_pos hmem] at hi
      cases hi
      refine ⟨rfl, fun a ha => ?_⟩
      cases ha
      exact hmem
    · rw [if_neg hmem] at hi
      cases hi

theorem allowedTargets_ok (he : sg.EntriesOf entries) {targets : List NodeId}
    {r : List (NodeId × Option Nat)} (h : allowedTargets entries targets = .ok r) :
    r = (targets.map fun nodeId => (nodeId, namedTarget nodeId)).map
        (fun allowed => (allowed.1, allowed.2.map sg.entryOf)) ∧
      ∀ a ∈ targets.filterMap namedTarget, a ∈ sg.itemIds := by
  unfold allowedTargets at h
  constructor
  · rw [List.map_map]
    refine mapM_eq_map (fun nodeId b hb => ?_) h
    obtain ⟨r, hr, rfl⟩ := map_eq_ok.mp hb
    rw [(target_ok he hr).1]
    rfl
  · intro a ha
    obtain ⟨nodeId, hmem, hnamed⟩ := List.mem_filterMap.mp ha
    obtain ⟨b, -, hb⟩ := mapM_ok_mem h hmem
    obtain ⟨r, hr, -⟩ := map_eq_ok.mp hb
    exact (target_ok he hr).2 a hnamed

/-- A compiled transition is the named one, at the entries of its targets. -/
theorem compileTransition_ok (he : sg.EntriesOf entries) {itemId : NodeId}
    {t : CompiledTransition ρ Nat} (h : sg.compileTransition entries itemId = .ok t) :
    ∃ named, sg.transition itemId = some named ∧ t = sg.placedTransition itemId ∧
      ∀ a ∈ named.targets, a ∈ sg.itemIds := by
  unfold compileTransition at h
  unfold placedTransition transition
  cases hf : sg.fixedBySource itemId with
  | some outgoing =>
    rw [hf] at h
    obtain ⟨r, hr, rfl⟩ := map_eq_ok.mp h
    obtain ⟨rfl, hknown⟩ := target_ok he hr
    refine ⟨_, rfl, rfl, fun a ha => hknown a ?_⟩
    simpa [CompiledTransition.targets] using ha
  | none =>
    rw [hf] at h
    cases hs : sg.fanOutEdges.bySource itemId with
    | some e =>
      simp only [hs] at h
      obtain ⟨r, hr, ht⟩ := bind_eq_ok.mp h
      cases ht
      have hmap : r = e.targets.map fun nodeId => (namedTarget nodeId).map sg.entryOf :=
        mapM_eq_map (fun nodeId b hb => (target_ok he hb).1) hr
      refine ⟨_, rfl, ?_, fun a ha => ?_⟩
      · simp only [CompiledTransition.map, CompiledTransition.ordered, hmap, List.filterMap_map,
          List.map_filterMap]
        rfl
      · obtain ⟨nodeId, hmem, hnamed⟩ := List.mem_filterMap.mp ha
        obtain ⟨b, -, hb⟩ := mapM_ok_mem hr hmem
        exact (target_ok he hb).2 a hnamed
    | none =>
      simp only [hs] at h
      cases hc : sg.conditionalEdges.bySource itemId with
      | some e =>
        simp only [hc] at h
        obtain ⟨r, hr, rfl⟩ := map_eq_ok.mp h
        obtain ⟨rfl, hknown⟩ := allowedTargets_ok he hr
        refine ⟨_, rfl, rfl, fun a ha => hknown a ?_⟩
        simpa [CompiledTransition.targets, List.filterMap_map, Function.comp_def] using ha
      | none =>
        simp only [hc] at h
        cases hcf : sg.conditionalFanOutEdges.bySource itemId with
        | some e =>
          simp only [hcf] at h
          obtain ⟨r, hr, rfl⟩ := map_eq_ok.mp h
          obtain ⟨rfl, hknown⟩ := allowedTargets_ok he hr
          refine ⟨_, rfl, rfl, fun a ha => hknown a ?_⟩
          simpa [CompiledTransition.targets, List.filterMap_map, Function.comp_def] using ha
        | none =>
          simp only [hcf] at h
          cases h

end StateGraph

/-! ## Filling placeholders -/

theorem set_placeholder {α : Type} (before after : List (Option α)) (a : α) :
    (before ++ none :: after).set before.length (some a) = before ++ some a :: after := by
  rw [List.set_append_right _ _ (Nat.le_refl _), Nat.sub_self, List.set_cons_zero]

/-- The path index of a builder lists every real node placed so far, and no path twice. -/
structure PathsIndexed (items : List (Option (CompiledItem ν ρ Nat)))
    (nodePaths : List (NodePath × Nat)) : Prop where
  paths_nodup : (nodePaths.map Prod.fst).Nodup
  mem_iff : ∀ p i, (p, i) ∈ nodePaths ↔ ∃ n, items[i]? = some (some (.node n)) ∧ n.path = p

namespace PathsIndexed

variable {items : List (Option (CompiledItem ν ρ Nat))} {nodePaths : List (NodePath × Nat)}

/-- New placeholders hold no node. -/
theorem allocate (h : PathsIndexed items nodePaths) (count : Nat) :
    PathsIndexed (items ++ List.replicate count none) nodePaths where
  paths_nodup := h.paths_nodup
  mem_iff p i := by
    rw [h.mem_iff]
    refine exists_congr fun n => and_congr_left fun _ => ?_
    rcases Nat.lt_or_ge i items.length with hi | hi
    · rw [List.getElem?_append_left hi]
    · rw [List.getElem?_append_right hi, List.getElem?_eq_none hi]
      constructor
      · intro h
        cases h
      · intro h
        have := List.mem_of_getElem? h
        simp [List.mem_replicate] at this

theorem set_structural (h : PathsIndexed items nodePaths) {index : Nat}
    (hole : items[index]? = some none) {item : CompiledItem ν ρ Nat}
    (hitem : ∀ n, item ≠ .node n) : PathsIndexed (items.set index (some item)) nodePaths where
  paths_nodup := h.paths_nodup
  mem_iff p i := by
    rw [h.mem_iff]
    refine exists_congr fun n => and_congr_left fun _ => ?_
    by_cases hi : index = i
    · subst hi
      rw [hole, List.getElem?_set_self (List.getElem?_eq_some_iff.mp hole).1]
      simp [hitem]
    · rw [List.getElem?_set_ne hi]

theorem set_node (h : PathsIndexed items nodePaths) {index : Nat}
    (hole : items[index]? = some none) {n : CompiledNode ν ρ Nat}
    (hnew : n.path ∉ nodePaths.map Prod.fst) :
    PathsIndexed (items.set index (some (.node n))) (nodePaths ++ [(n.path, index)]) where
  paths_nodup := by
    rw [List.map_append, List.map_singleton]
    refine List.nodup_append.mpr ⟨h.paths_nodup, List.nodup_singleton _, ?_⟩
    intro a ha b hb hab
    rw [hab, List.mem_singleton.mp hb] at ha
    exact hnew ha
  mem_iff p i := by
    rw [List.mem_append, h.mem_iff, List.mem_singleton, Prod.mk.injEq]
    by_cases hi : index = i
    · subst hi
      rw [hole, List.getElem?_set_self (List.getElem?_eq_some_iff.mp hole).1]
      simp [eq_comm]
    · rw [List.getElem?_set_ne hi]
      simp [Ne.symm hi]

end PathsIndexed

namespace FlatBuilder

variable {b b' : FlatBuilder ν ρ} {index : Nat} {item : CompiledItem ν ρ Nat}

/-- Filling one placeholder changes that item and, for a node, the path index. -/
theorem place_ok (h : b.place index item = .ok b') (hole : b.items[index]? = some none)
    (hb : PathsIndexed b.items b.nodePaths) :
    b'.items = b.items.set index (some item) ∧ b'.scopeExits = b.scopeExits ∧
      PathsIndexed b'.items b'.nodePaths := by
  unfold place at h
  cases item with
  | node n =>
    simp only [insertNode] at h
    split at h
    · cases h
    · rename_i hnew
      cases h
      exact ⟨rfl, rfl, hb.set_node hole hnew⟩
  | enterSubgraph graphPath nested t =>
    cases h
    exact ⟨rfl, rfl, hb.set_structural hole (by simp)⟩
  | exitSubgraph graphPath mountPath t =>
    cases h
    exact ⟨rfl, rfl, hb.set_structural hole (by simp)⟩

/-- Filling the two placeholders of a mount. -/
theorem setMount_ok {before after : List (Option (CompiledItem ν ρ Nat))}
    (hitems : b.items = before ++ none :: none :: after)
    (hb : PathsIndexed b.items b.nodePaths) {x y : CompiledItem ν ρ Nat}
    (hx : ∀ n, x ≠ .node n) (hy : ∀ n, y ≠ .node n) :
    ((b.set before.length x).set (before.length + 1) y).items =
        before ++ some x :: some y :: after ∧
      PathsIndexed (before ++ some x :: some y :: after) b.nodePaths := by
  have hlen : before.length + 1 = (before ++ [some x]).length := by simp
  have happ : before ++ some x :: none :: after = (before ++ [some x]) ++ none :: after := by simp
  have hole : b.items[before.length]? = some none := by
    rw [hitems, List.getElem?_append_right (Nat.le_refl _), Nat.sub_self]
    rfl
  have h₁ := hb.set_structural hole hx
  rw [hitems, set_placeholder, happ] at h₁
  have hole' : ((before ++ [some x]) ++ none :: after)[before.length + 1]? = some none := by
    rw [hlen, List.getElem?_append_right (Nat.le_refl _), Nat.sub_self]
    rfl
  have h₂ := h₁.set_structural hole' hy
  rw [hlen, set_placeholder] at h₂
  have hset : ((b.set before.length x).set (before.length + 1) y).items =
      (before ++ [some x]) ++ some y :: after := by
    simp only [set]
    rw [hitems, set_placeholder, happ, hlen, set_placeholder]
  rw [List.append_assoc] at hset h₂
  exact ⟨hset, h₂⟩

/-- Filling the placeholders of a mounted graph, which stand last. -/
theorem placeAll_ok {pre : GraphPath} {base : Nat} :
    ∀ {items : List (CompiledItem ν ρ Nat)} {before : List (Option (CompiledItem ν ρ Nat))}
      {b b' : FlatBuilder ν ρ}, placeAll pre base items before.length b = .ok b' →
      b.items = before ++ List.replicate items.length none → PathsIndexed b.items b.nodePaths →
      b'.items = before ++ (items.map (CompiledItem.relocate pre base)).map some ∧
        b'.scopeExits = b.scopeExits ∧ PathsIndexed b'.items b'.nodePaths
  | [], before, b, b', h, hitems, hb => by
    cases h
    exact ⟨by simpa using hitems, rfl, hb⟩
  | item :: items, before, b, b', h, hitems, hb => by
    obtain ⟨c, hc, hrest⟩ := bind_eq_ok.mp h
    rw [List.length_cons, List.replicate_succ] at hitems
    have hole : b.items[before.length]? = some none := by
      rw [hitems, List.getElem?_append_right (Nat.le_refl _), Nat.sub_self]
      rfl
    obtain ⟨hset, hexits, hindexed⟩ := place_ok hc hole hb
    rw [hitems, set_placeholder] at hset
    have hlen : before.length + 1 = (before ++ [some (item.relocate pre base)]).length := by simp
    rw [hlen] at hrest
    obtain ⟨h₁, h₂, h₃⟩ := placeAll_ok hrest (by rw [hset]; simp) hindexed
    exact ⟨by rw [h₁]; simp, h₂.trans hexits, h₃⟩

end FlatBuilder

/-! ## Scope exits -/

/-- A relocated scope exit is found under a path below its mount. -/
theorem lookup_relocated {itemId : NodeId} {base : Nat} {inner : List NodeId} :
    ∀ {exits : List (GraphPath × Nat)} {first : NodeId},
      (exits.map fun exit => (exit.1.prefixed (GraphPath.root.child itemId), base + exit.2)).lookup
        ⟨first :: inner⟩ =
        if first = itemId then (exits.lookup ⟨inner⟩).map (base + ·) else none
  | [], first => by simp
  | (path, exit) :: exits, first => by
    rw [List.map_cons, List.lookup_cons, lookup_relocated, List.lookup_cons]
    have hpre : path.prefixed (GraphPath.root.child itemId) = ⟨itemId :: path.segments⟩ := rfl
    rw [hpre]
    by_cases hf : first = itemId
    · subst hf
      by_cases hp : (⟨inner⟩ : GraphPath) = path
      · subst hp
        simp
      · have h₁ : ((⟨inner⟩ : GraphPath) == path) = false := by simpa using hp
        have h₂ : ((⟨first :: inner⟩ : GraphPath) == ⟨first :: path.segments⟩) = false := by
          rw [beq_eq_false_iff_ne]
          intro he
          injection he with he
          injection he with _ he
          exact hp (by rw [he])
        rw [h₁, h₂]
    · have h₁ : ((⟨first :: inner⟩ : GraphPath) == ⟨itemId :: path.segments⟩) = false := by
        rw [beq_eq_false_iff_ne]
        intro he
        injection he with he
        injection he with he _
        exact hf he
      rw [h₁, if_neg hf, if_neg hf]

theorem lookup_relocated_root {itemId : NodeId} {base : Nat} :
    ∀ {exits : List (GraphPath × Nat)},
      (exits.map fun exit => (exit.1.prefixed (GraphPath.root.child itemId), base + exit.2)).lookup
        ⟨[]⟩ = none
  | [] => rfl
  | (path, exit) :: exits => by
    rw [List.map_cons, List.lookup_cons, lookup_relocated_root]
    rfl

/-! ## Placing the declared items -/

theorem FlatBuilder.appendGraph_ok {b b' : FlatBuilder ν ρ} {graph : CompiledGraph ν ρ}
    {pre : GraphPath} {entry : Option Nat} (h : b.appendGraph graph pre = .ok (entry, b'))
    (hb : PathsIndexed b.items b.nodePaths) :
    entry = graph.entryIndex.map (b.items.length + ·) ∧
      b'.items = b.items ++ (graph.items.map (CompiledItem.relocate pre b.items.length)).map some ∧
      b'.scopeExits = (graph.scopeExits.map fun exit =>
        (exit.1.prefixed pre, b.items.length + exit.2)) ++ b.scopeExits ∧
      PathsIndexed b'.items b'.nodePaths := by
  obtain ⟨c, hc, hrest⟩ := bind_eq_ok.mp h
  cases hrest
  obtain ⟨h₁, h₂, h₃⟩ := placeAll_ok hc rfl (hb.allocate _)
  exact ⟨rfl, h₁, by rw [h₂], h₃⟩

namespace StateGraph

variable {sg : StateGraph ν ρ (CompiledGraph ν ρ)}

/-- The builder after some of the declared items: their own placeholders are filled, the others
still stand behind them, and the copied graphs follow. -/
structure Built (sg : StateGraph ν ρ (CompiledGraph ν ρ))
    (done : List (NodeId × DeclaredItem ν (CompiledGraph ν ρ))) (b : FlatBuilder ν ρ) : Prop where
  items : b.items = (done.flatMap sg.headOf).map some ++
    List.replicate (totalOf width sg.items - totalOf width done) none ++
    (done.flatMap sg.blockOf).map some
  indexed : PathsIndexed b.items b.nodePaths
  exits : ∀ graphPath, b.scopeExits.lookup graphPath = sg.exitIn done graphPath
  known : ∀ item ∈ done, ∃ named, sg.transition item.1 = some named ∧
    ∀ a ∈ named.targets, a ∈ sg.itemIds

/-- Where the slots of a graph are. -/
structure SlotsOf (sg : StateGraph ν ρ (CompiledGraph ν ρ)) (slots : Slots) : Prop where
  entries : sg.EntriesOf slots.entries
  exits : ∀ itemId exit, slots.exits.lookup itemId = some exit → exit = sg.exitOf itemId

theorem slotsOf_allocateItems (sg : StateGraph ν ρ (CompiledGraph ν ρ)) :
    sg.SlotsOf (allocateItems sg.items (FlatBuilder.new : FlatBuilder ν ρ)).1 where
  entries itemId := by
    rw [allocateItems_entry]
    simp only [FlatBuilder.new, List.length_nil, Nat.zero_add]
    rfl
  exits itemId exit h := by
    have he := allocateItems_exit sg.items_nodup h
    simpa [FlatBuilder.new, exitOf, entryOf] using he

theorem built_nil (sg : StateGraph ν ρ (CompiledGraph ν ρ)) :
    sg.Built [] (allocateItems sg.items FlatBuilder.new).2 := by
  rw [allocateItems_builder]
  refine ⟨by simp [FlatBuilder.new, totalOf], ⟨by simp [FlatBuilder.new], ?_⟩, ?_, by simp⟩
  · intro p i
    simp only [FlatBuilder.new, List.not_mem_nil, List.nil_append, false_iff]
    rintro ⟨n, hn, -⟩
    have := List.mem_of_getElem? hn
    simp [List.mem_replicate] at this
  · intro graphPath
    obtain ⟨segments⟩ := graphPath
    cases segments <;> rfl

theorem lookup_snoc_ne {items : List (NodeId × DeclaredItem ν (CompiledGraph ν ρ))}
    {item : NodeId × DeclaredItem ν (CompiledGraph ν ρ)} {k : NodeId} (h : k ≠ item.1) :
    (items ++ [item]).lookup k = items.lookup k := by
  have hne : (k == item.1) = false := by simpa using h
  rw [List.lookup_append, List.lookup_cons, hne]
  simp

theorem lookup_snoc_self {items : List (NodeId × DeclaredItem ν (CompiledGraph ν ρ))}
    {i : NodeId × DeclaredItem ν (CompiledGraph ν ρ)} (h : i.1 ∉ items.map Prod.fst) :
    (items ++ [i]).lookup i.1 = some i.2 ∧ items.lookup i.1 = none := by
  have hnone : items.lookup i.1 = none := by
    rw [List.lookup_eq_none_iff]
    intro p hp
    rw [bne_iff_ne]
    exact fun he => h (List.mem_map.mpr ⟨p, hp, he.symm⟩)
  refine ⟨?_, hnone⟩
  rw [List.lookup_append, hnone, List.lookup_cons, beq_self_eq_true]
  rfl

/-- The exits of the items done and one mount more. -/
theorem exitIn_snoc (child : CompiledGraph ν ρ)
    {done : List (NodeId × DeclaredItem ν (CompiledGraph ν ρ))} {itemId : NodeId} (hnew : itemId ∉ done.map Prod.fst)
    {exits : List (GraphPath × Nat)} (hexits : ∀ p, exits.lookup p = sg.exitIn done p)
    (graphPath : GraphPath) :
    ((GraphPath.root.child itemId, sg.exitOf itemId) ::
        ((child.scopeExits.map fun exit =>
          (exit.1.prefixed (GraphPath.root.child itemId), sg.baseOf itemId + exit.2)) ++
          exits)).lookup graphPath =
      sg.exitIn (done ++ [(itemId, .subgraph child)]) graphPath := by
  obtain ⟨segments⟩ := graphPath
  rw [List.lookup_cons, List.lookup_append, hexits]
  cases segments with
  | nil => rw [lookup_relocated_root]; rfl
  | cons first inner =>
    rw [lookup_relocated]
    unfold exitIn
    simp only
    by_cases hf : first = itemId
    · subst hf
      obtain ⟨hself, hnone⟩ := lookup_snoc_self (i := (first, .subgraph child)) hnew
      rw [hself, hnone]
      by_cases hi : inner = []
      · subst hi
        simp [GraphPath.child, GraphPath.root]
      · have hne : ((⟨first :: inner⟩ : GraphPath) == GraphPath.root.child first) = false := by
          rw [beq_eq_false_iff_ne]
          simp [GraphPath.child, GraphPath.root, hi]
        simp [hne, hi]
    · have hne : ((⟨first :: inner⟩ : GraphPath) == GraphPath.root.child itemId) = false := by
        rw [beq_eq_false_iff_ne]
        simp [GraphPath.child, GraphPath.root, hf]
      rw [hne, if_neg hf, lookup_snoc_ne hf]
      simp

theorem exitIn_snoc_node {done : List (NodeId × DeclaredItem ν (CompiledGraph ν ρ))}
    {itemId : NodeId} {kind : NodeKind ν} (hnew : itemId ∉ done.map Prod.fst)
    (graphPath : GraphPath) :
    sg.exitIn (done ++ [(itemId, .node kind)]) graphPath = sg.exitIn done graphPath := by
  obtain ⟨segments⟩ := graphPath
  cases segments with
  | nil => rfl
  | cons first inner =>
    unfold exitIn
    simp only
    by_cases hf : first = itemId
    · subst hf
      obtain ⟨hself, hnone⟩ := lookup_snoc_self (i := (first, .node kind)) hnew
      rw [hself, hnone]
    · rw [lookup_snoc_ne hf]

theorem index_ok {slots : List (NodeId × Nat)} {nodeId : NodeId} {i : Nat}
    (h : index slots nodeId = .ok i) : slots.lookup nodeId = some i := by
  unfold index at h
  split at h
  · rename_i hi
    cases h
    exact hi
  · cases h

theorem SlotsOf.entry_eq {slots : Slots} (hs : sg.SlotsOf slots) {itemId : NodeId} {i : Nat}
    (h : index slots.entries itemId = .ok i) : i = sg.entryOf itemId := by
  have hi := index_ok h
  rw [hs.entries] at hi
  split at hi
  · cases hi
    rfl
  · cases hi

section Place

variable {done rest : List (NodeId × DeclaredItem ν (CompiledGraph ν ρ))}
  {item : NodeId × DeclaredItem ν (CompiledGraph ν ρ)} {b b' : FlatBuilder ν ρ} {slots : Slots}

theorem new_of_split (hsplit : sg.items = done ++ item :: rest) :
    item.1 ∉ done.map Prod.fst := by
  intro hmem
  have hn := sg.items_nodup
  rw [hsplit, List.map_append, List.map_cons] at hn
  exact (List.nodup_append.mp hn).2.2 _ hmem _ List.mem_cons_self rfl

theorem entryOf_split (hsplit : sg.items = done ++ item :: rest) :
    sg.entryOf item.1 = (done.flatMap sg.headOf).length := by
  have hn := sg.items_nodup
  rw [hsplit] at hn
  unfold entryOf
  rw [length_flatMap (length_headOf sg), hsplit, offsetOf_split hn]

theorem left_of_split (hsplit : sg.items = done ++ item :: rest) :
    totalOf width sg.items - totalOf width done = width item + totalOf width rest := by
  rw [hsplit, totalOf_append, Nat.add_sub_cancel_left, totalOf]

theorem Built.length_eq (hb : sg.Built done b) (hsplit : sg.items = done ++ item :: rest) :
    b.items.length = sg.baseOf item.1 := by
  have hn := sg.items_nodup
  have hle : totalOf width done ≤ totalOf width sg.items := by
    rw [hsplit, totalOf_append]
    exact Nat.le_add_right _ _
  unfold baseOf
  rw [hsplit] at hn
  rw [hb.items, hsplit, offsetOf_split hn, ← hsplit]
  simp only [List.length_append, List.length_map, List.length_replicate,
    length_flatMap (length_headOf sg), length_flatMap (length_blockOf sg)]
  omega

/-- Placing one declared item fills its own placeholders and appends its copied items. -/
theorem placeItem_built (hs : sg.SlotsOf slots) (hsplit : sg.items = done ++ item :: rest)
    (hb : sg.Built done b) (h : sg.placeItem slots b item = .ok b') :
    sg.Built (done ++ [item]) b' := by
  obtain ⟨t, ht, h⟩ := bind_eq_ok.mp h
  obtain ⟨entry, hentry, h⟩ := bind_eq_ok.mp h
  obtain ⟨named, hnamed, rfl, hknown⟩ := compileTransition_ok hs.entries ht
  have hnew := new_of_split hsplit
  have hbase := hb.length_eq hsplit
  have hheads : entry = ((done.flatMap sg.headOf).map some).length := by
    rw [hs.entry_eq hentry, entryOf_split hsplit, List.length_map]
  have hleft := left_of_split hsplit
  have hleft' : totalOf width sg.items - totalOf width (done ++ [item]) = totalOf width rest := by
    rw [totalOf_append, totalOf, totalOf]
    omega
  have hitems := hb.items
  rw [hleft] at hitems
  have hknown' : ∀ p ∈ done ++ [item], ∃ named, sg.transition p.1 = some named ∧
      ∀ a ∈ named.targets, a ∈ sg.itemIds := by
    intro p hp
    rcases List.mem_append.mp hp with hp | hp
    · exact hb.known p hp
    · rw [List.mem_singleton.mp hp]
      exact ⟨named, hnamed, hknown⟩
  obtain ⟨itemId, kind | child⟩ := item
  · -- a node takes the first placeholder left
    rw [width_node, Nat.add_comm, List.replicate_succ, List.append_assoc, List.cons_append]
      at hitems
    have hole : b.items[entry]? = some none := by
      rw [hitems, hheads, List.getElem?_append_right (Nat.le_refl _), Nat.sub_self]
      rfl
    have hplace : b.place entry (.node ⟨⟨GraphPath.root, itemId⟩, GraphPath.root, kind,
        sg.placedTransition itemId⟩) = .ok b' := h
    obtain ⟨h₁, h₂, h₃⟩ := FlatBuilder.place_ok hplace hole hb.indexed
    refine ⟨?_, h₃, fun graphPath => ?_, hknown'⟩
    · rw [h₁, hitems, hheads, set_placeholder, hleft']
      simp [headOf, blockOf]
    · rw [h₂, hb.exits, exitIn_snoc_node hnew]
  · -- a mount takes the first two, and its graph is appended before they are filled
    simp only at h
    obtain ⟨exit, hexit, h⟩ := bind_eq_ok.mp h
    obtain ⟨⟨childEntry, c⟩, hc, h⟩ := bind_eq_ok.mp h
    cases h
    obtain ⟨hce, hci, hcx, hcp⟩ := FlatBuilder.appendGraph_ok hc hb.indexed
    rw [hbase] at hce hci hcx
    have hexit' : exit = sg.exitOf itemId := hs.exits _ _ (index_ok hexit)
    have hexit'' : exit = entry + 1 := by
      rw [hexit', exitOf, hs.entry_eq hentry]
    rw [width_subgraph, Nat.add_comm, List.replicate_succ, List.replicate_succ, List.append_assoc,
      List.cons_append, List.cons_append] at hitems
    rw [hitems, List.append_assoc, List.cons_append, List.cons_append] at hci
    obtain ⟨hset, hindexed⟩ := FlatBuilder.setMount_ok hci hcp
      (x := .enterSubgraph (GraphPath.root.child itemId) (GraphPath.child_ne_nil _ _)
        (.fixed (childEntry.or (some exit))))
      (y := .exitSubgraph (GraphPath.root.child itemId) ⟨GraphPath.root, itemId⟩
        (sg.placedTransition itemId)) (by simp) (by simp)
    rw [← hheads, ← hexit''] at hset
    have htarget : childEntry.or (some exit) = some (sg.mountTarget itemId child) := by
      rw [hce, hexit']
      unfold mountTarget
      cases child.entryIndex <;> rfl
    refine ⟨?_, ?_, fun graphPath => ?_, hknown'⟩
    · refine hset.trans ?_
      rw [htarget, hleft']
      simp [headOf, blockOf]
    · refine Eq.mpr (congrArg (fun items => PathsIndexed items c.nodePaths) hset) hindexed
    · have hx := exitIn_snoc child hnew hb.exits graphPath
      rw [← hexit', ← hcx] at hx
      exact hx

end Place

end StateGraph

/-! ## The compiled graph -/

/-- What `compile` leaves behind for later: the items in closed form, and what the indexes over them
return. -/
structure Flattened (sg : StateGraph ν ρ (CompiledGraph ν ρ)) (g : CompiledGraph ν ρ) : Prop where
  items : g.items = sg.items.flatMap sg.headOf ++ sg.items.flatMap sg.blockOf
  indexed : PathsIndexed (g.items.map some) g.nodePaths
  exits : ∀ graphPath, g.scopeExits.lookup graphPath = sg.exitIn sg.items graphPath
  known : ∀ itemId ∈ sg.itemIds, ∃ named, sg.transition itemId = some named ∧
    ∀ a ∈ named.targets, a ∈ sg.itemIds
  entry : g.entryIndex = sg.entryItem.map sg.entryOf
  entry_known : ∀ a ∈ sg.entryItem, a ∈ sg.itemIds
  version : g.version = sg.version

theorem FlatBuilder.finish_ok {b : FlatBuilder ν ρ} {items : List (CompiledItem ν ρ Nat)}
    (h : b.finish = .ok items) : b.items = items.map some := by
  unfold finish at h
  have hall := mapM_eq_ok.mp h
  clear h
  generalize b.items = l at hall
  induction hall with
  | nil => rfl
  | @cons a item l r ha _ ih =>
    rw [List.map_cons, ← ih]
    cases a with
    | none => cases ha
    | some x => cases ha; rfl

/-- **Compiling builds the flattened graph.** -/
theorem flattened {sg : StateGraph ν ρ (CompiledGraph ν ρ)} {g : CompiledGraph ν ρ}
    (h : sg.compile = .ok g) : Flattened sg g := by
  obtain ⟨_, -, h⟩ := bind_eq_ok.mp h
  have hs := StateGraph.slotsOf_allocateItems sg
  have hnil := StateGraph.built_nil sg
  obtain ⟨b, hb, h⟩ := bind_eq_ok.mp h
  have hbuilt : sg.Built sg.items b := by
    refine foldlM_invariant (fun done c => sg.Built done c) (fun done item rest c c' hsplit hc hstep =>
      ?_) hnil hb
    exact StateGraph.placeItem_built hs hsplit hc hstep
  cases hout : sg.fixedBySource NodeId.START with
  | none => simp only [hout] at h; cases h
  | some outgoing =>
    simp only [hout] at h
    obtain ⟨entry, hentry, h⟩ := bind_eq_ok.mp h
    obtain ⟨items, hitems, h⟩ := bind_eq_ok.mp h
    cases h
    have hfin := FlatBuilder.finish_ok hitems
    obtain ⟨he, hknown⟩ := StateGraph.target_ok hs.entries hentry
    have hentryItem : sg.entryItem = StateGraph.namedTarget outgoing.successor := by
      unfold StateGraph.entryItem
      rw [hout]
      rfl
    refine ⟨?_, ?_, hbuilt.exits, ?_, ?_, ?_, rfl⟩
    · have hclosed := hbuilt.items
      rw [hfin, Nat.sub_self, List.replicate_zero, List.append_nil, ← List.map_append] at hclosed
      exact List.map_injective_iff.mpr (Option.some_injective _) hclosed
    · have hindexed := hbuilt.indexed
      rw [hfin] at hindexed
      exact hindexed
    · intro itemId hmem
      obtain ⟨item, hitem, rfl⟩ := List.mem_map.mp hmem
      exact hbuilt.known item hitem
    · rw [hentryItem]
      exact he
    · rw [hentryItem]
      exact hknown

/-! ## Reading the compiled graph -/

namespace Flattened

variable {sg : StateGraph ν ρ (CompiledGraph ν ρ)} {g : CompiledGraph ν ρ}

theorem head_at (hf : Flattened sg g) {item : NodeId × DeclaredItem ν (CompiledGraph ν ρ)}
    (hmem : item ∈ sg.items) {j : Nat} (hj : j < StateGraph.width item) :
    g.items[sg.entryOf item.1 + j]? = (sg.headOf item)[j]? := by
  have hlen : sg.entryOf item.1 + j < (sg.items.flatMap sg.headOf).length := by
    by_contra hge
    have hnone := getElem?_flatMap (StateGraph.length_headOf sg) sg.items_nodup hmem hj
    have hge' : (sg.items.flatMap sg.headOf).length ≤ offsetOf StateGraph.width item.1 sg.items + j :=
      Nat.le_of_not_lt hge
    rw [List.getElem?_eq_none hge', eq_comm, List.getElem?_eq_none_iff,
      StateGraph.length_headOf] at hnone
    omega
  rw [hf.items, List.getElem?_append_left hlen]
  exact getElem?_flatMap (StateGraph.length_headOf sg) sg.items_nodup hmem hj

theorem node_at (hf : Flattened sg g) {itemId : NodeId} {kind : NodeKind ν}
    (hmem : (itemId, .node kind) ∈ sg.items) :
    g.items[sg.entryOf itemId]? = some (.node ⟨⟨GraphPath.root, itemId⟩, GraphPath.root, kind,
      sg.placedTransition itemId⟩) :=
  hf.head_at hmem (j := 0) Nat.one_pos

theorem enter_at (hf : Flattened sg g) {itemId : NodeId} {child : CompiledGraph ν ρ}
    (hmem : (itemId, .subgraph child) ∈ sg.items) :
    g.items[sg.entryOf itemId]? = some (.enterSubgraph (GraphPath.root.child itemId)
      (GraphPath.child_ne_nil _ _) (.fixed (some (sg.mountTarget itemId child)))) :=
  hf.head_at hmem (j := 0) Nat.two_pos

theorem exit_at (hf : Flattened sg g) {itemId : NodeId} {child : CompiledGraph ν ρ}
    (hmem : (itemId, .subgraph child) ∈ sg.items) :
    g.items[sg.exitOf itemId]? = some (.exitSubgraph (GraphPath.root.child itemId)
      ⟨GraphPath.root, itemId⟩ (sg.placedTransition itemId)) :=
  hf.head_at hmem (j := 1) Nat.one_lt_two

/-- The items of a mounted graph stand in its block, relocated. -/
theorem block_at (hf : Flattened sg g) {itemId : NodeId} {child : CompiledGraph ν ρ}
    (hmem : (itemId, .subgraph child) ∈ sg.items) {j : Nat} (hj : j < child.items.length) :
    g.items[sg.baseOf itemId + j]? = (child.items[j]?).map
      (CompiledItem.relocate (GraphPath.root.child itemId) (sg.baseOf itemId)) := by
  have hbase : sg.baseOf itemId + j = (sg.items.flatMap sg.headOf).length +
      (offsetOf StateGraph.blockLength itemId sg.items + j) := by
    unfold StateGraph.baseOf
    rw [length_flatMap (StateGraph.length_headOf sg)]
    omega
  rw [hf.items, hbase, List.getElem?_append_right (Nat.le_add_right _ _), Nat.add_sub_cancel_left,
    getElem?_flatMap (StateGraph.length_blockOf sg) sg.items_nodup hmem hj]
  exact List.getElem?_map

/-- Every item of a compiled graph is the own item of a declaration or a copied one. -/
theorem cover (hf : Flattened sg g) {i : Nat} (hi : i < g.items.length) :
    (∃ itemId kind, (itemId, .node kind) ∈ sg.items ∧ i = sg.entryOf itemId) ∨
    ∃ itemId child, (itemId, .subgraph child) ∈ sg.items ∧
      (i = sg.entryOf itemId ∨ i = sg.exitOf itemId ∨
        ∃ j < child.items.length, i = sg.baseOf itemId + j) := by
  rw [hf.items, List.length_append, length_flatMap (StateGraph.length_headOf sg),
    length_flatMap (StateGraph.length_blockOf sg)] at hi
  by_cases hhead : i < totalOf StateGraph.width sg.items
  · obtain ⟨⟨itemId, kind | child⟩, hmem, j, hj, rfl⟩ := exists_offsetOf sg.items_nodup hhead
    · have hj0 : j = 0 := Nat.lt_one_iff.mp hj
      subst hj0
      exact Or.inl ⟨itemId, kind, hmem, rfl⟩
    · rw [StateGraph.width_subgraph] at hj
      refine Or.inr ⟨itemId, child, hmem, ?_⟩
      rcases (by omega : j = 0 ∨ j = 1) with rfl | rfl
      · exact Or.inl rfl
      · exact Or.inr (Or.inl rfl)
  · have hblock : i - totalOf StateGraph.width sg.items <
        totalOf StateGraph.blockLength sg.items := by omega
    obtain ⟨⟨itemId, kind | child⟩, hmem, j, hj, he⟩ := exists_offsetOf sg.items_nodup hblock
    · exact absurd hj (Nat.not_lt_zero j)
    · refine Or.inr ⟨itemId, child, hmem, Or.inr (Or.inr ⟨j, hj, ?_⟩)⟩
      unfold StateGraph.baseOf
      simp only at he
      omega

theorem scopeExit_root (hf : Flattened sg g) : g.scopeExits.lookup GraphPath.root = none :=
  hf.exits _

theorem lookup_of_mem {itemId : NodeId} {item : DeclaredItem ν (CompiledGraph ν ρ)}
    (hmem : (itemId, item) ∈ sg.items) : sg.items.lookup itemId = some item :=
  StateGraph.item?_eq_some.mpr hmem

theorem scopeExit_mount (hf : Flattened sg g) {itemId : NodeId} {child : CompiledGraph ν ρ}
    (hmem : (itemId, .subgraph child) ∈ sg.items) :
    g.scopeExits.lookup (GraphPath.root.child itemId) = some (sg.exitOf itemId) := by
  rw [hf.exits]
  simp [StateGraph.exitIn, GraphPath.root, GraphPath.child, lookup_of_mem hmem]

theorem scopeExit_inner (hf : Flattened sg g) {itemId : NodeId} {child : CompiledGraph ν ρ}
    (hmem : (itemId, .subgraph child) ∈ sg.items) {graphPath : GraphPath}
    (hp : graphPath.segments ≠ []) :
    g.scopeExits.lookup (graphPath.prefixed (GraphPath.root.child itemId)) =
      (child.scopeExits.lookup graphPath).map (sg.baseOf itemId + ·) := by
  rw [hf.exits]
  simp [StateGraph.exitIn, GraphPath.prefixed, GraphPath.root, GraphPath.child, lookup_of_mem hmem,
    hp]

end Flattened

/-! ## Compiled graphs -/

/-- The graphs `compile` can return, from mounted graphs that it returned before. -/
inductive Compiled : CompiledGraph ν ρ → Prop where
  | mk (sg : StateGraph ν ρ (CompiledGraph ν ρ)) (g : CompiledGraph ν ρ)
      (mounted : ∀ itemId child, (itemId, .subgraph child) ∈ sg.items → Compiled child)
      (compiled : sg.compile = .ok g) : Compiled g

end GroupAgent.Core
