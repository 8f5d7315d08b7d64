import GroupAgent.Core.Behaviour
import GroupAgent.Core.Script

/-!
# A race

An environment in which the world decides in what order the futures of a parallel super-step
complete (the `FuturesUnordered` in `runtime.rs:369-890`), and a graph with two nodes side by side.
Every node adds its own path to the state, so that the state shows the order in which updates were
applied.

* The world is the list of choices to come: which of the pending futures is the next to complete.
* A checkpoint is numbered by those in store before it.
* Snapshots are the states themselves, so a restored state is the saved one.

It instantiates the hypotheses of `Deterministic`, `Equivalence` and `Reporting` on a run that has
more than one order.
-/

namespace GroupAgent.Core

variable {ν ρ : Type}

/-- The order in which futures complete, as positions among those left, and the checkpoints in
store. -/
structure Race where
  order : List Nat
  stored : List (Checkpoint (List NodePath) Unit)

namespace Race

/-- A future that is ready at once. -/
def ready {α : Type} (answer : Race → α × Race) : Future Race α where
  await := answer
  select _ s := (.ready (answer s).1, (answer s).2)

/-- A node answers with its path. -/
def answer (path : NodePath) : (kind : NodeKind ν) → kind.Answer NodePath Unit
  | .normal _ => .ok path
  | .interruptible _ => .ok (.update path)

/-- The position that completes next. -/
def next (s : Race) {n : Nat} (h : 0 < n) : Fin n := ⟨s.order.headD 0 % n, Nat.mod_lt _ h⟩

/-- The environment of a race. -/
abbrev env (ν ρ : Type) : Env ν ρ where
  State := List NodePath
  Update := NodePath
  Snapshot := List NodePath
  Value := Unit
  World := Race
  apply state path := .ok (state ++ [path])
  applyBatch state batch := .ok (state ++ batch.map NodeUpdate.update)
  snapshot state := .ok state
  restore state := .ok state
  instantMax := 0
  now s := (0, s)
  isCancelled s := (false, s)
  nextRunId s := (⟨⟨0⟩⟩, s)
  nextCheckpointId s := (⟨⟨s.stored.length⟩⟩, s)
  onEvent _ s := s
  route _ _ s := (.error (.message "no routers"), s)
  fanOutRoute _ _ s := (.error (.message "no routers"), s)
  run a := ready fun s => (answer a.context.nodePath a.kind, s)
  nextReady pending h s :=
    let i := s.next (List.length_pos_iff.mpr h)
    (⟨i, .ready (answer (pending.get i).context.nodePath _)⟩, { s with order := s.order.tail })
  preempted _ s := (none, s)
  save _ request := ready fun s =>
    (.ok request.intoCheckpoint, { s with stored := s.stored ++ [request.intoCheckpoint] })
  latest _ := ready fun s => (.ok s.stored.getLast?, s)
  get _ id := ready fun s => (.ok (s.stored.find? fun c => c.id = id), s)
  branchHead _ _ := ready fun s => (.ok s.stored.getLast?, s)
  createBranch _ _ _ := ready fun s => (.ok (), s)

/-- What nodes and routers do in a race. -/
def behaviour (ν ρ : Type) : Behaviour (env ν ρ) where
  node a := .ok (.update a.context.nodePath)
  route _ _ := .error (.message "no routers")
  fanOut _ _ := .error (.message "no routers")

theorem outcome_answer (path : NodePath) (kind : NodeKind ν) :
    kind.outcome (answer path kind) = .ok (.update path) := by
  cases kind <;> rfl

theorem behaves : (env ν ρ).Behaves (behaviour ν ρ) where
  await a _ := outcome_answer _ a.kind
  select a _ _ ready h := by
    cases h
    exact outcome_answer _ a.kind
  nextReady pending _ _ i ready h := by
    cases h
    exact outcome_answer _ _
  route _ _ _ := rfl
  fanOutRoute _ _ _ := rfl

/-! ## A graph with two nodes side by side -/

/-- A node, two nodes side by side, and a node after them. -/
def declare : Except GraphBuildError (StateGraph Unit Unit (CompiledGraph Unit Unit)) := do
  let sg ← StateGraph.new.addNode ⟨"f"⟩ ()
  let sg ← sg.addNode ⟨"a"⟩ ()
  let sg ← sg.addNode ⟨"b"⟩ ()
  let sg ← sg.addNode ⟨"c"⟩ ()
  let sg ← sg.addFanOut ⟨"f"⟩ [⟨"b"⟩, ⟨"a"⟩]
  let sg := (sg.addEdge NodeId.START ⟨"f"⟩).addEdge ⟨"a"⟩ ⟨"c"⟩
  let sg := (sg.addEdge ⟨"b"⟩ ⟨"c"⟩).addEdge ⟨"c"⟩ NodeId.END
  pure (sg.setVersion ⟨"1"⟩)

def graph : CompiledGraph Unit Unit where
  items :=
    [.node ⟨.root ⟨"f"⟩, .root, .normal (), .staticFanOut [1, 2]⟩,
      .node ⟨.root ⟨"a"⟩, .root, .normal (), .fixed (some 3)⟩,
      .node ⟨.root ⟨"b"⟩, .root, .normal (), .fixed (some 3)⟩,
      .node ⟨.root ⟨"c"⟩, .root, .normal (), .fixed none⟩]
  nodePaths := [(.root ⟨"f"⟩, 0), (.root ⟨"a"⟩, 1), (.root ⟨"b"⟩, 2), (.root ⟨"c"⟩, 3)]
  scopeExits := []
  entryIndex := some 0
  version := some ⟨"1"⟩

theorem compiled : Compiled graph := by
  refine .mk (declare.toOption.get rfl) _ (fun itemId child h => ?_) rfl
  have hitems : (declare.toOption.get rfl).items = [(⟨"f"⟩, .node (.normal ())),
      (⟨"a"⟩, .node (.normal ())), (⟨"b"⟩, .node (.normal ())), (⟨"c"⟩, .node (.normal ()))] := rfl
  rw [hitems] at h
  simp at h

/-- An invocation that saves every boundary. -/
def call : Call (env Unit Unit) :=
  .invoke [] ⟨10, ⟨.none, false⟩, ⟨false, none, none⟩, 10⟩
    (some ⟨⟨"t"⟩, .everySuperstep, none, none⟩)

/-- The machine on which futures complete in the given order. -/
def machine (order : List Nat) : Machine (env Unit Unit) := ⟨⟨order, []⟩, [], []⟩

end Race

end GroupAgent.Core
