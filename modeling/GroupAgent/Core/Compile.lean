import GroupAgent.Core.Graph
import GroupAgent.Core.Transition
import GroupAgent.Lib.Worklist

/-!
# Compiling a state graph

Model of `StateGraph::compile` (`graph.rs:310-436`), its validation passes, `FlatBuilder`
(`graph.rs:853-963`) and `CompiledGraph` (`graph.rs:967-976`) of `crates/group-agent-core/src`.

* `aggregate_edges` (477-611) and `validate_edge_shapes` (613-650) are loops over the declarations
  that stop at the first error; so are the definitions here. The by-source hash maps they fill are
  lookups in the declarations they index.
* The depth-first search of `validate_reachability` (652-687) and the pair queue of
  `validate_subgraph_frontiers` (689-766) are worklist searches (`Lib.Worklist`) with a bound on
  the keys expanded. There are no more keys than the bound allows, so it is never what stops them.
* `transition_alternatives` (768-815) lists what an item may lead to: one alternative for a fixed
  edge or a static fan-out, one for each target of a router, and all targets of a conditional
  fan-out at once.
* A mounted graph is copied to a block of consecutive placeholders, so `mapping[i]` is `base + i`.
* A `NodeIndex` is its number. Nothing removes a node, so the petgraph graph hands out consecutive
  ones.
* What the source indexes or unwraps after validation ends in `CompileStop.panic` here.

The definitions are followed by `Flatten`, which says what a compiled graph holds, and by
`Validated`, which says which graphs pass.

Out of scope: the kinds of a topology edge (`TopologyEdge`), which no traversal reads.
-/

namespace GroupAgent.Core

open GroupAgent.Lib

/-! ## Compiled graphs -/

structure CompiledNode (ν ρ ι : Type) where
  path : NodePath
  graphPath : GraphPath
  kind : NodeKind ν
  transition : CompiledTransition ρ ι

/-- A real node, or one of the two boundaries of a mounted subgraph. -/
inductive CompiledItem (ν ρ ι : Type) where
  | node (node : CompiledNode ν ρ ι)
  | enterSubgraph (graphPath : GraphPath) (nested : graphPath.segments ≠ [])
      (transition : CompiledTransition ρ ι)
  | exitSubgraph (graphPath : GraphPath) (mountPath : NodePath)
      (transition : CompiledTransition ρ ι)

/-- An immutable graph that can be invoked repeatedly or mounted as a subgraph. -/
structure CompiledGraph (ν ρ : Type) where
  items : List (CompiledItem ν ρ Nat)
  nodePaths : List (NodePath × Nat)
  scopeExits : List (GraphPath × Nat)
  entryIndex : Option Nat
  version : Option GraphVersion

namespace CompiledItem

variable {ν ρ : Type}

/-- The item of a mounted graph as it stands in the graph that mounts it. -/
def relocate (pre : GraphPath) (base : Nat) :
    CompiledItem ν ρ Nat → CompiledItem ν ρ Nat
  | .node n => .node
    { path := n.path.prefixed pre
      graphPath := n.graphPath.prefixed pre
      kind := n.kind
      transition := n.transition.map (base + ·) }
  | .enterSubgraph graphPath nested transition =>
    .enterSubgraph (graphPath.prefixed pre) (GraphPath.prefixed_ne_nil nested pre)
      (transition.map (base + ·))
  | .exitSubgraph graphPath mountPath transition =>
    .exitSubgraph (graphPath.prefixed pre) (mountPath.prefixed pre) (transition.map (base + ·))

end CompiledItem

/-- Why `compile` returns no graph: a validation error, or an index or `expect` that fails. -/
inductive CompileStop where
  | rejected (error : GraphCompileError)
  | panic
  deriving DecidableEq, Repr

/-! ## Edges -/

structure FixedOutgoing where
  count : Nat
  successor : NodeId
  deriving DecidableEq, Repr

/-- The errors of one pass over declarations with target lists. -/
structure TargetEdgeCheck where
  startSource : GraphCompileError
  endSource : GraphCompileError
  unknownSource : NodeId → GraphCompileError

namespace StateGraph

variable {ν ρ ρ' μ : Type}

def itemIds (sg : StateGraph ν ρ μ) : List NodeId := sg.items.map Prod.fst

/-- The fixed edges leaving a source: how many, and where the first one goes. -/
def fixedBySource (sg : StateGraph ν ρ μ) (source : NodeId) : Option FixedOutgoing :=
  match sg.fixedEdges.filter fun e => e.fromId == source with
  | [] => none
  | e :: es => some ⟨es.length + 1, e.toId⟩

def checkFixedEdge (sg : StateGraph ν ρ μ) (e : FixedEdge) : Except GraphCompileError Unit := do
  [e.fromId, e.toId].forM fun endpoint =>
    if !endpoint.isReserved && !sg.containsKey endpoint then
      .error (.unknownNode e.fromId e.toId endpoint)
    else .ok ()
  if e.toId.isStart then .error (.startHasIncoming e.fromId)
  else if e.fromId.isEnd then .error (.endHasOutgoing e.toId)
  else .ok ()

/-- Check a declaration's source, then its targets in order. -/
def checkTargetEdge (sg : StateGraph ν ρ μ) (check : TargetEdgeCheck)
    (checkTarget : NodeId → NodeId → Except GraphCompileError Unit) (e : TargetEdge ρ') :
    Except GraphCompileError Unit :=
  if e.source.isStart then .error check.startSource
  else if e.source.isEnd then .error check.endSource
  else if !sg.containsKey e.source then .error (check.unknownSource e.source)
  else e.targets.forM (checkTarget e.source)

/-- A target is not `START`, and is `END` or registered. -/
def checkTarget (sg : StateGraph ν ρ μ) (unknownTarget : NodeId → NodeId → GraphCompileError)
    (source target : NodeId) : Except GraphCompileError Unit :=
  if target.isStart then .error (.startHasIncoming source)
  else if !target.isEnd && !sg.containsKey target then .error (unknownTarget source target)
  else .ok ()

/-- A conditional fan-out target may not be a subgraph mount either. -/
def checkConditionalFanOutTarget (sg : StateGraph ν ρ μ) (source target : NodeId) :
    Except GraphCompileError Unit :=
  if target.isStart then .error (.startHasIncoming source)
  else if target.isEnd then .ok ()
  else
    match sg.item? target with
    | none => .error (.unknownConditionalFanOutTarget source target)
    | some item =>
      if item.isSubgraph then .error (.conditionalFanOutTargetsSubgraph source target) else .ok ()

def conditionalCheck : TargetEdgeCheck where
  startSource := .startHasConditionalEdge
  endSource := .endHasConditionalEdge
  unknownSource := .unknownConditionalSource

def fanOutCheck : TargetEdgeCheck where
  startSource := .startHasFanOut
  endSource := .endHasFanOut
  unknownSource := .unknownFanOutSource

def conditionalFanOutCheck : TargetEdgeCheck where
  startSource := .startHasConditionalFanOut
  endSource := .endHasConditionalFanOut
  unknownSource := .unknownConditionalFanOutSource

/-- Check every declared edge. -/
def aggregateEdges (sg : StateGraph ν ρ μ) : Except GraphCompileError Unit := do
  sg.fixedEdges.forM sg.checkFixedEdge
  sg.conditionalEdges.edges.forM
    (sg.checkTargetEdge conditionalCheck (sg.checkTarget .unknownConditionalTarget))
  sg.fanOutEdges.edges.forM
    (sg.checkTargetEdge fanOutCheck (sg.checkTarget .unknownFanOutTarget))
  sg.conditionalFanOutEdges.edges.forM
    (sg.checkTargetEdge conditionalFanOutCheck sg.checkConditionalFanOutTarget)

/-- How many kinds of transition an item declares, given the number of its fixed edges. -/
def kindCount (sg : StateGraph ν ρ μ) (fixedCount : Nat) (itemId : NodeId) : Nat :=
  (if fixedCount = 1 then 1 else 0) + (sg.fanOutEdges.bySource itemId).isSome.toNat +
    (sg.conditionalEdges.bySource itemId).isSome.toNat +
    (sg.conditionalFanOutEdges.bySource itemId).isSome.toNat

def fixedCount (sg : StateGraph ν ρ μ) (source : NodeId) : Nat :=
  match sg.fixedBySource source with
  | some outgoing => outgoing.count
  | none => 0

/-- `START` has one fixed edge, and every item has at most one transition. -/
def validateEdgeShapes (sg : StateGraph ν ρ μ) : Except GraphCompileError Unit := do
  match sg.fixedCount NodeId.START with
  | 0 => .error .missingStartEdge
  | 1 => .ok ()
  | count => .error (.multipleStartEdges count)
  sg.itemIds.forM fun itemId =>
    if 1 < sg.fixedCount itemId then
      .error (.multipleOutgoingEdges itemId (sg.fixedCount itemId))
    else if 1 < sg.kindCount (sg.fixedCount itemId) itemId then
      .error (.mixedOutgoingEdgeKinds itemId)
    else .ok ()

/-! ## Reachability -/

/-- The successors of an item in the topology: the targets of every edge from it. -/
def topologySuccessors (sg : StateGraph ν ρ μ) (itemId : NodeId) : List NodeId :=
  ((sg.fixedEdges.filter fun e => e.fromId == itemId).map FixedEdge.toId) ++
    ((sg.fanOutEdges.edges.filter fun e => e.source == itemId).flatMap TargetEdge.targets) ++
    ((sg.conditionalEdges.edges.filter fun e => e.source == itemId).flatMap TargetEdge.targets) ++
    ((sg.conditionalFanOutEdges.edges.filter fun e => e.source == itemId).flatMap
      TargetEdge.targets)

/-- What a search from `START` visits. -/
def reachable (sg : StateGraph ν ρ μ) : List NodeId :=
  let visit : NodeId → Except Empty NodeId := .ok
  match Worklist.drain visit sg.topologySuccessors (sg.items.length + 2)
      ([NodeId.START], [NodeId.START]) with
  | .ok (held, _) => held

def hasTransition (sg : StateGraph ν ρ μ) (itemId : NodeId) : Bool :=
  (sg.fixedBySource itemId).isSome || (sg.fanOutEdges.bySource itemId).isSome ||
    (sg.conditionalEdges.bySource itemId).isSome ||
    (sg.conditionalFanOutEdges.bySource itemId).isSome

def validateReachability (sg : StateGraph ν ρ μ) : Except GraphCompileError Unit := do
  sg.itemIds.forM fun itemId =>
    if itemId ∈ sg.reachable then .ok () else .error (.unreachableNode itemId)
  sg.itemIds.forM fun itemId =>
    if sg.hasTransition itemId then .ok () else .error (.missingOutgoingEdge itemId)
  if NodeId.END ∈ sg.reachable then .ok () else .error .noReachableEnd

/-! ## Subgraphs in parallel frontiers -/

def executableTarget (target : NodeId) : List NodeId := if target.isEnd then [] else [target]

/-- The target sets one execution of an item can lead to. A conditional fan-out counts as
selecting its whole whitelist. -/
def transitionAlternatives (sg : StateGraph ν ρ μ) (source : NodeId) : List (List NodeId) :=
  if source.isEnd then [[]]
  else
    match sg.fixedBySource source with
    | some outgoing => [executableTarget outgoing.successor]
    | none =>
      match sg.fanOutEdges.bySource source with
      | some e => [e.targets.filter fun target => !target.isEnd]
      | none =>
        match sg.conditionalFanOutEdges.bySource source with
        | some e => [e.targets.filter fun target => !target.isEnd]
        | none =>
          match sg.conditionalEdges.bySource source with
          | some e => e.targets.map executableTarget
          | none => [[]]

/-- Every pair of positions of a list, earlier position first. -/
def pairs {α : Type} : List α → List (α × α)
  | [] => []
  | a :: l => (l.map fun b => (a, b)) ++ pairs l

/-- The pairs of distinct items that a frontier runs together. -/
def frontierPairs (frontier : List NodeId) : List (NodeId × NodeId) :=
  pairs (frontier.filter fun nodeId => !nodeId.isEnd).eraseDups

def canonicalPair (pair : NodeId × NodeId) : NodeId × NodeId :=
  if pair.1.value ≤ pair.2.value then pair else (pair.2, pair.1)

/-- A pair that runs together may not hold a subgraph. -/
def checkPair (sg : StateGraph ν ρ μ) (pair : NodeId × NodeId) :
    Except GraphCompileError (NodeId × NodeId) :=
  if sg.isSubgraph pair.1 then .error (.subgraphInParallelFrontier pair.1)
  else if sg.isSubgraph pair.2 then .error (.subgraphInParallelFrontier pair.2)
  else .ok (canonicalPair pair)

/-- The pairs that can run together after a pair that did. -/
def expandPair (sg : StateGraph ν ρ μ) (pair : NodeId × NodeId) : List (NodeId × NodeId) :=
  (sg.transitionAlternatives pair.1).flatMap fun leftTargets =>
    (sg.transitionAlternatives pair.2).flatMap fun rightTargets =>
      frontierPairs (leftTargets ++ rightTargets).eraseDups

/-- The pairs that one fan-out starts together. -/
def fanOutPairs (sg : StateGraph ν ρ μ) : List (NodeId × NodeId) :=
  (sg.fanOutEdges.edges.flatMap fun e => frontierPairs e.targets) ++
    sg.conditionalFanOutEdges.edges.flatMap fun e => frontierPairs e.targets

def validateSubgraphFrontiers (sg : StateGraph ν ρ μ) : Except GraphCompileError Unit :=
  if !(sg.items.any fun item => item.2.isSubgraph) ||
      (sg.fanOutEdges.edges.isEmpty && sg.conditionalFanOutEdges.edges.isEmpty) then .ok ()
  else do
    let queued ← Worklist.pushAll sg.checkPair sg.fanOutPairs ([], [])
    let _ ← Worklist.drain sg.checkPair sg.expandPair (sg.items.length * sg.items.length) queued
    .ok ()

/-- Every check `compile` makes before it builds. -/
def validate (sg : StateGraph ν ρ μ) : Except GraphCompileError Unit := do
  sg.aggregateEdges
  sg.validateEdgeShapes
  sg.validateReachability
  sg.validateSubgraphFrontiers

end StateGraph

/-! ## The flat builder -/

/-- Allocated items, some still placeholders, and the indexes over them. -/
structure FlatBuilder (ν ρ : Type) where
  items : List (Option (CompiledItem ν ρ Nat))
  nodePaths : List (NodePath × Nat)
  scopeExits : List (GraphPath × Nat)

namespace FlatBuilder

variable {ν ρ : Type}

def new : FlatBuilder ν ρ := ⟨[], [], []⟩

def allocate (b : FlatBuilder ν ρ) : Nat × FlatBuilder ν ρ :=
  (b.items.length, { b with items := b.items ++ [none] })

def set (b : FlatBuilder ν ρ) (index : Nat) (item : CompiledItem ν ρ Nat) :
    FlatBuilder ν ρ :=
  { b with items := b.items.set index (some item) }

def insertNode (b : FlatBuilder ν ρ) (index : Nat) (node : CompiledNode ν ρ Nat) :
    Except CompileStop (FlatBuilder ν ρ) :=
  if node.path ∈ b.nodePaths.map Prod.fst then .error (.rejected (.duplicateNodePath node.path))
  else .ok ({ b with nodePaths := b.nodePaths ++ [(node.path, index)] }.set index (.node node))

/-- Fill the placeholder of one relocated item. -/
def place (b : FlatBuilder ν ρ) (index : Nat) (item : CompiledItem ν ρ Nat) :
    Except CompileStop (FlatBuilder ν ρ) :=
  match item with
  | .node node => b.insertNode index node
  | item => .ok (b.set index item)

/-- Fill the placeholders of a mounted graph's items, from the one at `index` on. -/
def placeAll (pre : GraphPath) (base : Nat) : List (CompiledItem ν ρ Nat) → Nat →
    FlatBuilder ν ρ → Except CompileStop (FlatBuilder ν ρ)
  | [], _, b => .ok b
  | item :: items, index, b => do
    let b ← b.place index (item.relocate pre base)
    placeAll pre base items (index + 1) b

/-- Copy a mounted graph behind what is there, and return where its entry went. -/
def appendGraph (b : FlatBuilder ν ρ) (graph : CompiledGraph ν ρ) (pre : GraphPath) :
    Except CompileStop (Option Nat × FlatBuilder ν ρ) := do
  let base := b.items.length
  let b := { b with items := b.items ++ List.replicate graph.items.length none }
  let b ← placeAll pre base graph.items base b
  let exits := graph.scopeExits.map fun (path, exit) => (path.prefixed pre, base + exit)
  pure (graph.entryIndex.map (base + ·), { b with scopeExits := exits ++ b.scopeExits })

/-- Every placeholder was filled. -/
def finish (b : FlatBuilder ν ρ) : Except CompileStop (List (CompiledItem ν ρ Nat)) :=
  b.items.mapM fun item =>
    match item with
    | some item => .ok item
    | none => .error .panic

end FlatBuilder

/-- Where the items of a graph are allocated: entries in declaration order, and mount exits. -/
structure Slots where
  entries : List (NodeId × Nat)
  exits : List (NodeId × Nat)

namespace StateGraph

variable {ν ρ : Type}

/-- One placeholder a node, two a mount. -/
def allocateItems {μ : Type} : List (NodeId × DeclaredItem ν μ) → FlatBuilder ν ρ →
    Slots × FlatBuilder ν ρ
  | [], b => (⟨[], []⟩, b)
  | (itemId, .node _) :: items, b =>
    let (entry, b) := b.allocate
    let (slots, b) := allocateItems items b
    (⟨(itemId, entry) :: slots.entries, slots.exits⟩, b)
  | (itemId, .subgraph _) :: items, b =>
    let (entry, b) := b.allocate
    let (exit, b) := b.allocate
    let (slots, b) := allocateItems items b
    (⟨(itemId, entry) :: slots.entries, (itemId, exit) :: slots.exits⟩, b)

/-- Index a map that is known to hold the key. -/
def index (slots : List (NodeId × Nat)) (nodeId : NodeId) : Except CompileStop Nat :=
  match slots.lookup nodeId with
  | some index => .ok index
  | none => .error .panic

/-- The index of a target, none for `END`. -/
def target (entries : List (NodeId × Nat)) (nodeId : NodeId) :
    Except CompileStop (Option Nat) :=
  if nodeId.isEnd then .ok none else some <$> index entries nodeId

/-- The whitelist of a conditional transition, each identifier with its index. -/
def allowedTargets (entries : List (NodeId × Nat)) (targets : List NodeId) :
    Except CompileStop (List (NodeId × Option Nat)) :=
  targets.mapM fun nodeId => (nodeId, ·) <$> target entries nodeId

def compileTransition {μ : Type} (sg : StateGraph ν ρ μ) (entries : List (NodeId × Nat))
    (itemId : NodeId) : Except CompileStop (CompiledTransition ρ Nat) :=
  match sg.fixedBySource itemId with
  | some outgoing => .fixed <$> target entries outgoing.successor
  | none =>
    match sg.fanOutEdges.bySource itemId with
    | some e => do
      let targets ← e.targets.mapM (target entries)
      pure (.staticFanOut (sortByKey id (targets.filterMap id)))
    | none =>
      match sg.conditionalEdges.bySource itemId with
      | some e => .conditional e.router <$> allowedTargets entries e.targets
      | none =>
        match sg.conditionalFanOutEdges.bySource itemId with
        | some e => .conditionalFanOut e.router <$> allowedTargets entries e.targets
        | none => .error (.rejected (.missingOutgoingEdge itemId))

/-- Fill the placeholders of one declared item. -/
def placeItem (sg : StateGraph ν ρ (CompiledGraph ν ρ)) (slots : Slots) (b : FlatBuilder ν ρ)
    (item : NodeId × DeclaredItem ν (CompiledGraph ν ρ)) :
    Except CompileStop (FlatBuilder ν ρ) := do
  let transition ← sg.compileTransition slots.entries item.1
  let entry ← index slots.entries item.1
  match item.2 with
  | .node kind =>
    b.insertNode entry
      { path := ⟨GraphPath.root, item.1⟩, graphPath := GraphPath.root, kind, transition }
  | .subgraph child => do
    let graphPath := GraphPath.root.child item.1
    let exit ← index slots.exits item.1
    let (childEntry, b) ← b.appendGraph child graphPath
    let b := b.set entry
      (.enterSubgraph graphPath (GraphPath.child_ne_nil _ _) (.fixed (childEntry.or (some exit))))
    let b := b.set exit (.exitSubgraph graphPath ⟨GraphPath.root, item.1⟩ transition)
    pure { b with scopeExits := (graphPath, exit) :: b.scopeExits }

/-- Validate and freeze the graph for repeated execution. -/
def compile (sg : StateGraph ν ρ (CompiledGraph ν ρ)) : Except CompileStop (CompiledGraph ν ρ) := do
  sg.validate.mapError .rejected
  let (slots, b) := allocateItems sg.items FlatBuilder.new
  let b ← sg.items.foldlM (sg.placeItem slots) b
  match sg.fixedBySource NodeId.START with
  | none => .error .panic
  | some outgoing => do
    let entryIndex ← target slots.entries outgoing.successor
    let items ← b.finish
    pure { items, nodePaths := b.nodePaths, scopeExits := b.scopeExits, entryIndex,
           version := sg.version }

end StateGraph

end GroupAgent.Core
