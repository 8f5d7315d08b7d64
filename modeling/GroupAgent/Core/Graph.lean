import GroupAgent.Core.Path
import Mathlib.Data.List.Nodup

/-!
# The state graph builder

Model of `StateGraph` and its registration methods (`graph.rs:57-307`), the edge declarations
(`edge.rs:82-125`), `NodeKind` (`node.rs:33-39`) and `GraphBuildError` (`error.rs:15-52`) of
`crates/group-agent-core/src`.

* Node implementations and routers are code the graph only holds by reference (`Arc<dyn Node>`,
  `Arc<dyn Fn>`). They are opaque handles `ν` and `ρ` here; what a handle does is said where the
  runtime calls it.
* A static fan-out, a conditional edge and a conditional fan-out are the same declaration: a
  source, a nonempty duplicate-free target list and a router handle (none for a static fan-out).
  They are one structure `TargetEdge`, and the three registration methods (177-209, 215-257,
  264-307) are `TargetEdges.add` at their own errors.
* What the methods check is a field of what they build: a value of `StateGraph` cannot hold a
  reserved or repeated item identifier, nor two edges of one kind from one source. So no later
  proof has to follow the calls that built a graph.
* The payload of a mount is a parameter `μ` of the builder. It is `CompiledGraph` for the builder
  of the source (`add_subgraph` takes a compiled graph, 127-146), and `Unit` for its skeleton.

Results: the lookup of an item is that of the declarations (`item?_eq_some`, `containsKey_iff`,
`isSubgraph_iff`), and no item is called `END` (`ne_END_of_mem`).

Out of scope: what a node or a router does, and `Default`, which is `new`.
-/

namespace GroupAgent.Core

/-! ## Repetition -/

/-- The first element of a list that occurs in `seen` or earlier in the list: the `insert` into a
`HashSet` that returns `false`. -/
def firstRepeat {α : Type} [DecidableEq α] : List α → List α → Option α
  | _, [] => none
  | seen, a :: as => if a ∈ seen then some a else firstRepeat (a :: seen) as

theorem firstRepeat_eq_none {α : Type} [DecidableEq α] : ∀ {seen l : List α},
    firstRepeat seen l = none ↔ l.Nodup ∧ ∀ a ∈ l, a ∉ seen
  | seen, [] => by simp [firstRepeat]
  | seen, a :: l => by
    unfold firstRepeat
    split
    · rename_i h
      simp only [reduceCtorEq, false_iff, not_and]
      intro _ hall
      exact hall a List.mem_cons_self h
    · rename_i h
      rw [firstRepeat_eq_none, List.nodup_cons]
      constructor
      · rintro ⟨hn, hseen⟩
        refine ⟨⟨fun ha => hseen a ha List.mem_cons_self, hn⟩, fun b hb => ?_⟩
        rcases List.mem_cons.mp hb with rfl | hb
        · exact h
        · exact fun hbs => hseen b hb (List.mem_cons_of_mem a hbs)
      · rintro ⟨⟨ha, hn⟩, hseen⟩
        refine ⟨hn, fun b hb hbs => ?_⟩
        rcases List.mem_cons.mp hbs with rfl | hbs
        · exact ha hb
        · exact hseen b (List.mem_cons_of_mem a hb) hbs

/-! ## Declarations -/

/-- An error raised while modifying a graph builder. -/
inductive GraphBuildError where
  | duplicateNode (nodeId : NodeId)
  | reservedNodeId (nodeId : NodeId)
  | emptyConditionalTargets (sourceNode : NodeId)
  | duplicateConditionalTarget (sourceNode target : NodeId)
  | multipleConditionalRouters (sourceNode : NodeId)
  | emptyConditionalFanOutTargets (sourceNode : NodeId)
  | duplicateConditionalFanOutTarget (sourceNode target : NodeId)
  | multipleConditionalFanOutRouters (sourceNode : NodeId)
  | emptyFanOutTargets (sourceNode : NodeId)
  | duplicateFanOutTarget (sourceNode target : NodeId)
  | multipleFanOutTransitions (sourceNode : NodeId)
  | duplicateSubgraphMount (nodeId : NodeId)
  deriving DecidableEq, Repr

/-- A registered node: update-only, or one that may suspend. -/
inductive NodeKind (ν : Type) where
  | normal (node : ν)
  | interruptible (node : ν)
  deriving DecidableEq, Repr

/-- A graph item: a real node, or a mounted subgraph. -/
inductive DeclaredItem (ν μ : Type) where
  | node (kind : NodeKind ν)
  | subgraph (graph : μ)

def DeclaredItem.isSubgraph {ν μ : Type} : DeclaredItem ν μ → Bool
  | .node _ => false
  | .subgraph _ => true

structure FixedEdge where
  fromId : NodeId
  toId : NodeId
  deriving DecidableEq, Repr

/-- One transition with a target list: static (`ρ = Unit`), conditional or conditional fan-out. -/
structure TargetEdge (ρ : Type) where
  source : NodeId
  targets : List NodeId
  router : ρ
  targets_ne_nil : targets ≠ []
  targets_nodup : targets.Nodup

/-- The transitions of one kind, at most one a source. -/
structure TargetEdges (ρ : Type) where
  edges : List (TargetEdge ρ)
  sources_nodup : (edges.map TargetEdge.source).Nodup

/-- The errors of one registration method. -/
structure TargetEdgeErrors where
  multiple : NodeId → GraphBuildError
  empty : NodeId → GraphBuildError
  duplicate : NodeId → NodeId → GraphBuildError

namespace TargetEdges

variable {ρ : Type}

def empty : TargetEdges ρ := ⟨[], List.nodup_nil⟩

/-- Register one transition: its source must be new, its targets nonempty and distinct. -/
def add (errors : TargetEdgeErrors) (es : TargetEdges ρ) (source : NodeId) (targets : List NodeId)
    (router : ρ) : Except GraphBuildError (TargetEdges ρ) :=
  if hs : source ∈ es.edges.map TargetEdge.source then .error (errors.multiple source)
  else if ht : targets = [] then .error (errors.empty source)
  else
    match hd : firstRepeat [] targets with
    | some target => .error (errors.duplicate source target)
    | none => .ok
      { edges := es.edges ++ [⟨source, targets, router, ht, (firstRepeat_eq_none.mp hd).1⟩]
        sources_nodup := by
          rw [List.map_append, List.map_singleton]
          refine List.nodup_append.mpr ⟨es.sources_nodup, List.nodup_singleton _, ?_⟩
          intro a ha b hb hab
          rw [hab, List.mem_singleton.mp hb] at ha
          exact hs ha }

/-- The transition registered for a source. -/
def bySource (es : TargetEdges ρ) (source : NodeId) : Option (TargetEdge ρ) :=
  es.edges.find? fun e => e.source == source

theorem bySource_some {es : TargetEdges ρ} {source : NodeId} {e : TargetEdge ρ}
    (h : es.bySource source = some e) : e ∈ es.edges ∧ e.source = source := by
  unfold bySource at h
  exact ⟨List.mem_of_find?_eq_some h, by simpa using List.find?_some h⟩

end TargetEdges

/-- A mutable builder for a state graph. -/
structure StateGraph (ν ρ μ : Type) where
  items : List (NodeId × DeclaredItem ν μ)
  fixedEdges : List FixedEdge
  fanOutEdges : TargetEdges Unit
  conditionalEdges : TargetEdges ρ
  conditionalFanOutEdges : TargetEdges ρ
  version : Option GraphVersion
  items_nodup : (items.map Prod.fst).Nodup
  items_unreserved : ∀ id ∈ items.map Prod.fst, id.isReserved = false

namespace StateGraph

variable {ν ρ μ : Type}

def new : StateGraph ν ρ μ where
  items := []
  fixedEdges := []
  fanOutEdges := TargetEdges.empty
  conditionalEdges := TargetEdges.empty
  conditionalFanOutEdges := TargetEdges.empty
  version := none
  items_nodup := List.nodup_nil
  items_unreserved := fun _ h => absurd h List.not_mem_nil

def setVersion (sg : StateGraph ν ρ μ) (version : GraphVersion) : StateGraph ν ρ μ :=
  { sg with version := some version }

/-- The item registered under an identifier. -/
def item? (sg : StateGraph ν ρ μ) (id : NodeId) : Option (DeclaredItem ν μ) := sg.items.lookup id

def containsKey (sg : StateGraph ν ρ μ) (id : NodeId) : Bool := (sg.item? id).isSome

/-- The identifier names a mounted subgraph. -/
def isSubgraph (sg : StateGraph ν ρ μ) (id : NodeId) : Bool :=
  (sg.item? id).any DeclaredItem.isSubgraph

/-- Append an item under an identifier that is neither reserved nor taken. -/
def insert (sg : StateGraph ν ρ μ) (id : NodeId) (item : DeclaredItem ν μ)
    (hr : id.isReserved = false) (hn : id ∉ sg.items.map Prod.fst) : StateGraph ν ρ μ :=
  { sg with
    items := sg.items ++ [(id, item)]
    items_nodup := by
      rw [List.map_append, List.map_singleton]
      refine List.nodup_append.mpr ⟨sg.items_nodup, List.nodup_singleton _, ?_⟩
      intro a ha b hb hab
      rw [hab, List.mem_singleton.mp hb] at ha
      exact hn ha
    items_unreserved := by
      intro a ha
      rw [List.map_append, List.mem_append, List.map_singleton, List.mem_singleton] at ha
      rcases ha with ha | rfl
      · exact sg.items_unreserved a ha
      · exact hr }

def insertNode (sg : StateGraph ν ρ μ) (id : NodeId) (kind : NodeKind ν) :
    Except GraphBuildError (StateGraph ν ρ μ) :=
  if hr : id.isReserved = true then .error (.reservedNodeId id)
  else if hn : id ∈ sg.items.map Prod.fst then .error (.duplicateNode id)
  else .ok (sg.insert id (.node kind) (by simpa using hr) hn)

/-- Register a normal update-only graph node. -/
def addNode (sg : StateGraph ν ρ μ) (id : NodeId) (node : ν) :
    Except GraphBuildError (StateGraph ν ρ μ) :=
  sg.insertNode id (.normal node)

/-- Register a graph node that may return an update or request suspension. -/
def addInterruptibleNode (sg : StateGraph ν ρ μ) (id : NodeId) (node : ν) :
    Except GraphBuildError (StateGraph ν ρ μ) :=
  sg.insertNode id (.interruptible node)

/-- Mount an immutable shared-state subgraph as a structural graph item. -/
def addSubgraph (sg : StateGraph ν ρ μ) (id : NodeId) (subgraph : μ) :
    Except GraphBuildError (StateGraph ν ρ μ) :=
  if hr : id.isReserved = true then .error (.reservedNodeId id)
  else if hn : id ∈ sg.items.map Prod.fst then
    .error (if sg.isSubgraph id then .duplicateSubgraphMount id else .duplicateNode id)
  else .ok (sg.insert id (.subgraph subgraph) (by simpa using hr) hn)

/-- Register a directed fixed edge; endpoints are validated by `compile`. -/
def addEdge (sg : StateGraph ν ρ μ) (fromId toId : NodeId) : StateGraph ν ρ μ :=
  { sg with fixedEdges := sg.fixedEdges ++ [⟨fromId, toId⟩] }

def fanOutErrors : TargetEdgeErrors where
  multiple := .multipleFanOutTransitions
  empty := .emptyFanOutTargets
  duplicate := .duplicateFanOutTarget

def conditionalErrors : TargetEdgeErrors where
  multiple := .multipleConditionalRouters
  empty := .emptyConditionalTargets
  duplicate := .duplicateConditionalTarget

def conditionalFanOutErrors : TargetEdgeErrors where
  multiple := .multipleConditionalFanOutRouters
  empty := .emptyConditionalFanOutTargets
  duplicate := .duplicateConditionalFanOutTarget

/-- Register one static fan-out transition. -/
def addFanOut (sg : StateGraph ν ρ μ) (source : NodeId) (targets : List NodeId) :
    Except GraphBuildError (StateGraph ν ρ μ) := do
  let edges ← sg.fanOutEdges.add fanOutErrors source targets ()
  pure { sg with fanOutEdges := edges }

/-- Register one conditional router and its target whitelist. -/
def addConditionalEdges (sg : StateGraph ν ρ μ) (source : NodeId) (allowedTargets : List NodeId)
    (router : ρ) : Except GraphBuildError (StateGraph ν ρ μ) := do
  let edges ← sg.conditionalEdges.add conditionalErrors source allowedTargets router
  pure { sg with conditionalEdges := edges }

/-- Register one conditional fan-out router and its target whitelist. -/
def addConditionalFanOut (sg : StateGraph ν ρ μ) (source : NodeId) (allowedTargets : List NodeId)
    (router : ρ) : Except GraphBuildError (StateGraph ν ρ μ) := do
  let edges ← sg.conditionalFanOutEdges.add conditionalFanOutErrors source allowedTargets router
  pure { sg with conditionalFanOutEdges := edges }

/-! ## Lookups -/

theorem item?_eq_some {sg : StateGraph ν ρ μ} {id : NodeId} {item : DeclaredItem ν μ} :
    sg.item? id = some item ↔ (id, item) ∈ sg.items := by
  have key : ∀ (l : List (NodeId × DeclaredItem ν μ)), (l.map Prod.fst).Nodup →
      (l.lookup id = some item ↔ (id, item) ∈ l) := by
    intro l
    induction l with
    | nil => intro _; simp
    | cons p l ih =>
      obtain ⟨k, v⟩ := p
      intro hn
      rw [List.map_cons, List.nodup_cons] at hn
      rw [List.lookup_cons]
      by_cases hk : id = k
      · subst hk
        have hnot : (id, item) ∉ l := fun h => hn.1 (List.mem_map.mpr ⟨_, h, rfl⟩)
        simp [hnot, eq_comm]
      · rw [show (id == k) = false by simpa using hk]
        rw [ih hn.2]
        simp [hk]
  exact key sg.items sg.items_nodup

theorem containsKey_iff {sg : StateGraph ν ρ μ} {id : NodeId} :
    sg.containsKey id = true ↔ ∃ item, (id, item) ∈ sg.items := by
  unfold containsKey
  rw [Option.isSome_iff_exists]
  exact exists_congr fun _ => item?_eq_some

theorem isSubgraph_iff {sg : StateGraph ν ρ μ} {id : NodeId} :
    sg.isSubgraph id = true ↔ ∃ graph, (id, .subgraph graph) ∈ sg.items := by
  unfold isSubgraph
  constructor
  · intro h
    obtain ⟨item, hi, hs⟩ := Option.any_eq_true _ _ |>.mp h
    cases item with
    | node kind => exact absurd hs (by simp [DeclaredItem.isSubgraph])
    | subgraph graph => exact ⟨graph, item?_eq_some.mp hi⟩
  · rintro ⟨graph, h⟩
    rw [item?_eq_some.mpr h]
    rfl

theorem ne_END_of_mem {sg : StateGraph ν ρ μ} {id : NodeId} {item : DeclaredItem ν μ}
    (h : (id, item) ∈ sg.items) : id ≠ NodeId.END :=
  (NodeId.isReserved_eq_false_iff.mp
    (sg.items_unreserved id (List.mem_map.mpr ⟨_, h, rfl⟩))).2

end StateGraph

end GroupAgent.Core
