import Mathlib.Data.List.Basic

/-!
# Identifiers and structured paths

Model of `NodeId` (`edge.rs:14`, its predicates 44-54), `GraphPath` (`path.rs:36`) and `NodePath`
(`path.rs:117`), of `ThreadId` and `GraphVersion` (`checkpoint.rs:18-97`) and of the UUID
identifiers of `id.rs`, all in `crates/group-agent-core/src`.

* `START` and `END` are the reserved identifiers (`edge.rs:7-10`). A builder rejects them as items,
  which is what `isReserved` decides.
* A `NodePath` holds at least one segment in the Rust type (`NodePath::root`, `NodePath::new` and
  `GraphPath::mount_path` are its only sources). Here that is built in: it is its namespace and its
  leaf, so `leaf` and `graph_path` are the two fields and cannot fail.
* `GraphPath::mount_path` (85-88) asserts that the path is not the root, which is its argument `h`
  here.
* `prefixed` (74-79) relocates a path into the namespace of a mount. Relocating twice is relocating
  by the joined prefix (`prefixed_prefixed`).

Out of scope: `Display` and `Debug` of both path types, which escape the segments (`Rendering` has
them), and the conversions from strings, which check nothing.
-/

namespace GroupAgent.Core

/-- A stable, public node identifier. -/
structure NodeId where
  value : String
  deriving DecidableEq, Repr

namespace NodeId

/-- The reserved graph entry identifier. -/
def START : NodeId := ⟨"__start__"⟩

/-- The reserved graph exit identifier. -/
def END : NodeId := ⟨"__end__"⟩

def isStart (id : NodeId) : Bool := id.value == "__start__"

def isEnd (id : NodeId) : Bool := id.value == "__end__"

def isReserved (id : NodeId) : Bool := id.isStart || id.isEnd

@[simp] theorem isStart_iff {id : NodeId} : id.isStart = true ↔ id = START := by
  simp only [isStart, START, beq_iff_eq]
  cases id
  simp

@[simp] theorem isEnd_iff {id : NodeId} : id.isEnd = true ↔ id = END := by
  simp only [isEnd, END, beq_iff_eq]
  cases id
  simp

theorem isReserved_iff {id : NodeId} : id.isReserved = true ↔ id = START ∨ id = END := by
  simp [isReserved]

theorem isReserved_eq_false_iff {id : NodeId} : id.isReserved = false ↔ id ≠ START ∧ id ≠ END := by
  rw [← Bool.not_eq_true, isReserved_iff, not_or]

end NodeId

/-- A structured namespace of nested subgraph mount identifiers. -/
structure GraphPath where
  segments : List NodeId
  deriving DecidableEq, Repr

/-- A structured path to one real node or structural subgraph mount: its namespace and its
leaf. -/
structure NodePath where
  graphPath : GraphPath
  leaf : NodeId
  deriving DecidableEq, Repr

namespace GraphPath

/-- The root graph namespace. -/
def root : GraphPath := ⟨[]⟩

def isRoot (p : GraphPath) : Bool := p.segments.isEmpty

/-- The namespace one mount deeper. -/
def child (p : GraphPath) (segment : NodeId) : GraphPath := ⟨p.segments ++ [segment]⟩

def prefixed (p pre : GraphPath) : GraphPath := ⟨pre.segments ++ p.segments⟩

/-- The nonempty prefixes, shortest first. -/
def prefixes (p : GraphPath) : List GraphPath :=
  (List.range p.segments.length).map fun n => ⟨p.segments.take (n + 1)⟩

/-- The path of the mount a namespace belongs to. -/
def mountPath (p : GraphPath) (h : p.segments ≠ []) : NodePath :=
  ⟨⟨p.segments.dropLast⟩, p.segments.getLast h⟩

@[simp] theorem child_segments (p : GraphPath) (id : NodeId) :
    (p.child id).segments = p.segments ++ [id] := rfl

theorem child_ne_nil (p : GraphPath) (id : NodeId) : (p.child id).segments ≠ [] := by simp

theorem prefixed_ne_nil {p : GraphPath} (h : p.segments ≠ []) (pre : GraphPath) :
    (p.prefixed pre).segments ≠ [] := by
  simp [prefixed, h]

@[simp] theorem prefixed_root (p : GraphPath) : p.prefixed root = p := rfl

@[simp] theorem root_prefixed (pre : GraphPath) : root.prefixed pre = pre := by
  simp [prefixed, root]

theorem prefixed_prefixed (p q r : GraphPath) :
    (p.prefixed q).prefixed r = p.prefixed (q.prefixed r) := by
  simp [prefixed]

end GraphPath

namespace NodePath

/-- A root-node path. -/
def root (id : NodeId) : NodePath := ⟨GraphPath.root, id⟩

/-- Every structured segment, including the leaf. -/
def segments (p : NodePath) : List NodeId := p.graphPath.segments ++ [p.leaf]

def prefixed (p : NodePath) (pre : GraphPath) : NodePath := ⟨p.graphPath.prefixed pre, p.leaf⟩

@[simp] theorem prefixed_graphPath (p : NodePath) (pre : GraphPath) :
    (p.prefixed pre).graphPath = p.graphPath.prefixed pre := rfl

@[simp] theorem prefixed_leaf (p : NodePath) (pre : GraphPath) :
    (p.prefixed pre).leaf = p.leaf := rfl

end NodePath

theorem GraphPath.mountPath_child (p : GraphPath) (id : NodeId) :
    (p.child id).mountPath (p.child_ne_nil id) = ⟨p, id⟩ := by
  simp [GraphPath.mountPath, GraphPath.child]

theorem GraphPath.mountPath_prefixed {p : GraphPath} (h : p.segments ≠ []) (pre : GraphPath) :
    (p.prefixed pre).mountPath (GraphPath.prefixed_ne_nil h pre) = (p.mountPath h).prefixed pre := by
  simp [GraphPath.mountPath, GraphPath.prefixed, NodePath.prefixed, List.dropLast_append_of_ne_nil h,
    List.getLast_append_of_ne_nil _ h]

/-! ## Durable identities -/

/-- A 128-bit universally unique identifier. -/
structure Uuid where
  bits : BitVec 128
  deriving DecidableEq, Repr

/-- A cross-process identifier for one checkpoint operation. -/
structure CheckpointId where
  uuid : Uuid
  deriving DecidableEq, Repr

/-- A cross-process identifier for one explicit checkpoint branch. -/
structure BranchId where
  uuid : Uuid
  deriving DecidableEq, Repr

/-- A cross-process identifier for one node suspension request. -/
structure InterruptId where
  uuid : Uuid
  deriving DecidableEq, Repr

/-- A cross-process identifier that distinguishes graph invocations. -/
structure RunId where
  uuid : Uuid
  deriving DecidableEq, Repr

/-- A durable logical execution thread across one or more runs. -/
structure ThreadId where
  value : String
  deriving DecidableEq, Repr

/-- Explicit compatibility version assigned to a compiled graph. -/
structure GraphVersion where
  value : String
  deriving DecidableEq, Repr

end GroupAgent.Core
