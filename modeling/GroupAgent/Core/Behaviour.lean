import GroupAgent.Core.Counters
import GroupAgent.Lib.Outcome

/-!
# What a graph does, apart from the machine it runs on

A `Behaviour` says what the nodes of a graph answer and where its routers lead, as functions: of
the execution, and of the state. From it follows what a super-step comes to, with no world, no
events, no controls and no order in which futures complete.

* `Env.Behaves`: the environment's nodes and routers behave so, whatever the world is like. The
  answer of a node may depend on everything it is given but the deadline of the run.
* `Behaviour.Makes`: the updates of a frontier each of whose nodes makes one.
* `Behaviour.Spoils`: how a node that makes no update ends a super-step of several: an error, a
  panic, or an interrupt that is not allowed there.
* `Behaviour.Ran`: what executing a frontier comes to. `Behaviour.carry`: what the super-step makes
  of that.

`carry` ends in the errors and the panics of `execute_internal` (`runtime.rs:369-890`) and of
`normalize_frontier` (900-974), as far as they come from the graph and its behaviour.

Results:
* **`Ran.of_makes`**: where every node makes an update, executing the frontier comes to these
  applied, in frontier order.

Out of scope: what stops a run from outside (cancellation, a deadline, a refused save).
`Determined` and `Deterministic` compare the loop with this file on runs that are not stopped so.
-/

namespace GroupAgent.Core

open GroupAgent.Lib

variable {ν ρ : Type}

/-! ## Behaviours -/

/-- An execution without the deadline of its run. -/
def NodeAttempt.timeless {S V : Type} (a : NodeAttempt ν S V) : NodeAttempt ν S V :=
  { a with context := { a.context with runDeadline := none } }

/-- What nodes answer and where routers lead. -/
structure Behaviour (E : Env ν ρ) where
  node : NodeAttempt ν E.State E.Value → Except SourceError (NodeOutcome E.Update E.Value)
  route : ρ → E.State → Except SourceError NodeId
  fanOut : ρ → E.State → Except SourceError (List NodeId)

/-- Nodes and routers behave so, whatever the world. -/
structure Env.Behaves (E : Env ν ρ) (b : Behaviour E) : Prop where
  await : ∀ (a : NodeAttempt ν E.State E.Value) w,
    a.kind.outcome ((E.run a).await w).1 = b.node a.timeless
  select : ∀ (a : NodeAttempt ν E.State E.Value) deadline w answer,
    ((E.run a).select deadline w).1 = .ready answer → a.kind.outcome answer = b.node a.timeless
  nextReady : ∀ pending hne w i answer, (E.nextReady pending hne w).1 = ⟨i, .ready answer⟩ →
    (pending.get i).kind.outcome answer = b.node (pending.get i).toNodeAttempt.timeless
  route : ∀ router state w, (E.route router state w).1 = b.route router state
  fanOutRoute : ∀ router state w, (E.fanOutRoute router state w).1 = b.fanOut router state

variable {E : Env ν ρ}

/-! ## Looking at the graph -/

namespace CompiledGraph

/-- The real node at an index, or the panic of looking for it. -/
def realNode (g : CompiledGraph ν ρ) (index : Nat) : Except Stop (CompiledNode ν ρ Nat) :=
  (g.node index).mapError .panic

def itemOr (g : CompiledGraph ν ρ) (index : Nat) : Except Stop (CompiledItem ν ρ Nat) :=
  match g.items[index]? with
  | some item => .ok item
  | none => .error (.panic .indexOutOfBounds)

def pathOr (g : CompiledGraph ν ρ) (index : Nat) : Except Stop NodePath :=
  CompiledItem.path <$> g.itemOr index

theorem itemOr_eq {g : CompiledGraph ν ρ} {index : Nat} {item : CompiledItem ν ρ Nat} :
    g.itemOr index = .ok item ↔ g.items[index]? = some item := by
  unfold itemOr
  split <;> simp_all

/-- Only real nodes run together. -/
def allNodes (g : CompiledGraph ν ρ) : List Nat → Except Stop Unit
  | [] => .ok ()
  | index :: frontier => do
    match ← g.itemOr index with
    | .node _ => g.allNodes frontier
    | .enterSubgraph _ _ _ => throw (.panic .mixedFrontier)
    | .exitSubgraph _ _ _ => throw (.panic .mixedFrontier)

theorem allNodes_eq {g : CompiledGraph ν ρ} : ∀ {frontier : List Nat},
    g.allNodes frontier = .ok () → ∀ i ∈ frontier, ∃ n, g.items[i]? = some (.node n)
  | [], _ => by simp
  | index :: frontier, h => by
    unfold allNodes at h
    obtain ⟨item, hitem, h⟩ := bind_eq_ok.mp h
    cases item with
    | node n =>
      rw [List.forall_mem_cons]
      exact ⟨⟨n, itemOr_eq.mp hitem⟩, allNodes_eq h⟩
    | enterSubgraph graphPath nested t => cases h
    | exitSubgraph graphPath mountPath t => cases h

end CompiledGraph

/-- The execution of a node in a super-step from a loop state. -/
def LoopState.asks (ls : LoopState E Nat) (index : Nat) (node : CompiledNode ν ρ Nat)
    (step : Nat) : NodeAttempt ν E.State E.Value where
  kind := node.kind
  state := ls.state
  context :=
    { step
      nodePath := node.path
      runDeadline := none
      resumeValue := if ls.resumeNode = some index then ls.resumeValue else none }

theorem LoopState.attempt_timeless (ls : LoopState E Nat) (ctx : RunContext) (index : Nat)
    (node : CompiledNode ν ρ Nat) (step : Nat) :
    (ls.attempt ctx index node step).timeless = ls.asks index node step := rfl

namespace Behaviour

variable (b : Behaviour E) (g : CompiledGraph ν ρ)

/-! ## Executing a frontier -/

/-- What executing a node comes to. -/
def execute (a : NodeAttempt ν E.State E.Value) :
    Except Stop (NodeOutcome E.Update E.Value) :=
  (b.node a).mapError fun source => .error (.nodeFailed a.context.nodePath a.context.step source)

/-- The updates of a frontier whose first node has the given step, each node making one. -/
inductive Makes (ls : LoopState E Nat) : Nat → List Nat → List (NodeUpdate E.Update) → Prop where
  | nil {step : Nat} : Makes ls step [] []
  | cons {step index : Nat} {frontier : List Nat} {batch : List (NodeUpdate E.Update)}
      {n : CompiledNode ν ρ Nat} {update : E.Update} (hn : g.items[index]? = some (.node n))
      (h : b.node (ls.asks index n step) = .ok (.update update))
      (hrest : Makes ls (step + 1) frontier batch) :
      Makes ls step (index :: frontier) (⟨n.path, update⟩ :: batch)

/-- How an execution without an update ends the super-step of several. -/
inductive Ruins (ctx : RunContext) (checkpoints : RuntimeCheckpoint)
    (a : NodeAttempt ν E.State E.Value) : Stop → Prop where
  | failed {source : SourceError} (h : b.node a.timeless = .error source) :
      Ruins ctx checkpoints a (.error (.nodeFailed a.context.nodePath a.context.step source))
  | interrupted {request : InterruptRequest E.Value} {error : GraphRunError}
      (h : b.node a.timeless = .ok (.interrupt request))
      (herror : checkpoints.interruptError ctx.runId request.id a.context.nodePath a.context.step
        true = some error) : Ruins ctx checkpoints a (.error error)

/-- One of the nodes of a frontier, whose first has the given step, so ends the super-step. -/
inductive Spoils (ctx : RunContext) (ls : LoopState E Nat) : Nat → List Nat → Stop → Prop where
  | head {step index : Nat} {frontier : List Nat} {n : CompiledNode ν ρ Nat} {e : Stop}
      (hn : g.items[index]? = some (.node n))
      (h : b.Ruins ctx ls.checkpoints (ls.asks index n step) e) :
      Spoils ctx ls step (index :: frontier) e
  | tail {step index : Nat} {frontier : List Nat} {e : Stop}
      (h : Spoils ctx ls (step + 1) frontier e) : Spoils ctx ls step (index :: frontier) e

/-- The error of updates that the state refuses. -/
def refusal (firstStep : Nat) (source : SourceError) :
    List (NodeUpdate E.Update) → GraphRunError
  | [update] => .stateUpdateFailed update.nodePath firstStep source
  | batch => .stateBatchUpdateFailed (batch.map NodeUpdate.nodePath) firstStep source

/-- The state with the updates applied. -/
def apply (state : E.State) (firstStep : Nat) (batch : List (NodeUpdate E.Update)) :
    Except Stop E.State :=
  (applied state batch).mapError fun source => .error (refusal firstStep source batch)

/-- What executing the frontier `first :: rest` comes to: its updates applied, the suspension of its
only node, or what a node without an update makes of it. -/
inductive Ran (ctx : RunContext) (ls : LoopState E Nat) (first : Nat) (rest : List Nat) :
    Except Stop (E.State ⊕ InterruptRequest E.Value) → Prop where
  | applied {batch : List (NodeUpdate E.Update)}
      (hmakes : b.Makes g ls (ls.steps + 1) (first :: rest) batch) :
      Ran ctx ls first rest (Sum.inl <$> apply ls.state (ls.steps + 1) batch)
  | suspended {n : CompiledNode ν ρ Nat} {request : InterruptRequest E.Value}
      (hrest : rest = []) (hn : g.items[first]? = some (.node n))
      (h : b.node (ls.asks first n (ls.steps + 1)) = .ok (.interrupt request)) :
      Ran ctx ls first rest (.ok (.inr request))
  | failed {n : CompiledNode ν ρ Nat} {source : SourceError} (hrest : rest = [])
      (hn : g.items[first]? = some (.node n))
      (h : b.node (ls.asks first n (ls.steps + 1)) = .error source) :
      Ran ctx ls first rest (.error (.error (.nodeFailed n.path (ls.steps + 1) source)))
  | spoiled {e : Stop} (hrest : rest ≠ [])
      (h : b.Spoils g ctx ls (ls.steps + 1) (first :: rest) e) : Ran ctx ls first rest (.error e)

/-! ## Following transitions -/

def routers (state : E.State) : Routers (Except Stop) ρ where
  route router := .ok (b.route router state)
  fanOut router := .ok (b.fanOut router state)

/-- The targets of a transition. -/
def resolve (t : CompiledTransition ρ Nat) (state : E.State) (graphPath : GraphPath)
    (source : NodePath) (step : Nat) : Except Stop (List Nat) := do
  match ← t.resolveInto (b.routers state) id g.pathOr graphPath with
  | .error error => throw (.error (error.runError graphPath source step))
  | .ok (targets, _) => pure targets

/-- The targets of every node of a frontier, in frontier order. -/
def routeAll (state : E.State) : Nat → List Nat → Except Stop (List Nat)
  | _, [] => pure []
  | step, index :: frontier => do
    let node ← g.realNode index
    let targets ← b.resolve g node.transition state node.graphPath node.path step
    let rest ← routeAll state (step + 1) frontier
    pure (targets ++ rest)

/-- Follow structural items until the frontier is empty or holds real nodes. -/
def normalize (state : E.State) (step : Nat) :
    Nat → List Nat → List SubgraphBoundary → Except Stop (List Nat × List SubgraphBoundary)
  | 0, _, _ => throw .outOfFuel
  | _ + 1, [], boundaries => pure ([], boundaries)
  | hops + 1, [index], boundaries => do
    match ← g.itemOr index with
    | .node _ => pure ([index], boundaries)
    | .enterSubgraph graphPath nested transition => do
      let source := graphPath.mountPath nested
      let targets ← b.resolve g transition state source.graphPath source step
      normalize state step hops targets (boundaries ++ [.started graphPath])
    | .exitSubgraph graphPath mountPath transition => do
      let targets ← b.resolve g transition state mountPath.graphPath mountPath step
      let targets := g.orScopeExit mountPath.graphPath (canonical id targets)
      normalize state step hops targets (boundaries ++ [.completed graphPath])
  | _ + 1, index :: second :: rest, boundaries => do
    g.allNodes (index :: second :: rest)
    pure (index :: second :: rest, boundaries)

/-- What a super-step goes on to from what its frontier came to. -/
def carry (hops : Nat) (ls : LoopState E Nat) (frontier : List Nat) (graphPath : GraphPath) :
    E.State ⊕ InterruptRequest E.Value → Except Stop (Advance E Nat)
  | .inr request => pure (.suspended request)
  | .inl state => do
    let steps := ls.steps + frontier.length
    let targets ← b.routeAll g state (ls.steps + 1) frontier
    let (next, boundaries) ←
      b.normalize g state steps hops (g.orScopeExit graphPath (canonical id targets)) []
    pure (.committed state steps (ls.superstep + 1) next boundaries)

/-- What the super-step of `first :: rest` advances to. -/
def Advances (ctx : RunContext) (ls : LoopState E Nat) (first : Nat) (rest : List Nat)
    (r : Except Stop (Advance E Nat)) : Prop :=
  ∃ n v, g.items[first]? = some (.node n) ∧ b.Ran g ctx ls first rest v ∧
    r = v >>= b.carry g ctx.hops ls (first :: rest) n.graphPath

/-! ## One outcome -/

variable {b g}

/-- The nodes of a frontier make one list of updates. -/
theorem Makes.unique {ls : LoopState E Nat} {step : Nat} {frontier : List Nat}
    {batch batch' : List (NodeUpdate E.Update)} (h : b.Makes g ls step frontier batch)
    (h' : b.Makes g ls step frontier batch') : batch = batch' := by
  induction h generalizing batch' with
  | nil =>
    cases h'
    rfl
  | cons hn hu _ ih =>
    cases h' with
    | cons hn' hu' hrest' =>
      rw [hn] at hn'
      cases hn'
      rw [hu] at hu'
      cases hu'
      rw [ih hrest']

theorem Makes.paths {ls : LoopState E Nat} {step : Nat} {frontier : List Nat}
    {batch : List (NodeUpdate E.Update)} (h : b.Makes g ls step frontier batch) :
    PathsOf g frontier (batch.map NodeUpdate.nodePath) := by
  induction h with
  | nil => exact .nil
  | cons hn _ _ ih => exact .cons ⟨_, hn, rfl⟩ ih

/-- Where every node makes an update, none ends the super-step otherwise. -/
theorem Makes.not_spoils {ctx : RunContext} {ls : LoopState E Nat} {step : Nat}
    {frontier : List Nat} {batch : List (NodeUpdate E.Update)}
    (h : b.Makes g ls step frontier batch) {e : Stop} :
    ¬b.Spoils g ctx ls step frontier e := by
  induction h with
  | nil =>
    intro hspoils
    cases hspoils
  | @cons step index frontier batch n update hn hu _ ih =>
    intro hspoils
    cases hspoils with
    | tail hspoils => exact ih hspoils
    | head hn' hruins =>
      rw [hn] at hn'
      cases hn'
      have hu' : b.node (ls.asks index n step).timeless = .ok (.update update) := hu
      cases hruins with
      | failed h =>
        rw [hu'] at h
        cases h
      | interrupted h =>
        rw [hu'] at h
        cases h

/-- **One outcome**: where every node makes an update, executing the frontier comes to these
applied. -/
theorem Ran.of_makes {ctx : RunContext} {ls : LoopState E Nat} {first : Nat} {rest : List Nat}
    {r : Except Stop (E.State ⊕ InterruptRequest E.Value)} (h : b.Ran g ctx ls first rest r)
    {batch : List (NodeUpdate E.Update)}
    (hmakes : b.Makes g ls (ls.steps + 1) (first :: rest) batch) :
    r = Sum.inl <$> apply ls.state (ls.steps + 1) batch := by
  cases h with
  | applied hmakes' => rw [hmakes.unique hmakes']
  | spoiled _ hspoils => exact absurd hspoils hmakes.not_spoils
  | suspended hrest hn hask =>
    cases hmakes with
    | cons hn' hu =>
      rw [hn] at hn'
      cases hn'
      rw [hask] at hu
      cases hu
  | failed hrest hn hask =>
    cases hmakes with
    | cons hn' hu =>
      rw [hn] at hn'
      cases hn'
      rw [hask] at hu
      cases hu

/-- Normalizing ends in real nodes. -/
theorem normalize_nodes {state : E.State} {step : Nat} : ∀ {hops : Nat} {frontier next : List Nat}
    {boundaries boundaries' : List SubgraphBoundary},
    b.normalize g state step hops frontier boundaries = .ok (next, boundaries') →
      ∀ i ∈ next, ∃ n, g.items[i]? = some (.node n)
  | 0, _, _, _, _, h => by cases h
  | _ + 1, [], _, _, _, h => by
    cases h
    simp
  | hops + 1, [index], next, boundaries, boundaries', h => by
    unfold normalize at h
    obtain ⟨item, hitem, h⟩ := bind_eq_ok.mp h
    cases item with
    | node n =>
      cases h
      rintro i hi
      obtain rfl := List.mem_singleton.mp hi
      exact ⟨n, CompiledGraph.itemOr_eq.mp hitem⟩
    | enterSubgraph graphPath nested t =>
      obtain ⟨targets, -, h⟩ := bind_eq_ok.mp h
      exact normalize_nodes h
    | exitSubgraph graphPath mountPath t =>
      obtain ⟨targets, -, h⟩ := bind_eq_ok.mp h
      exact normalize_nodes h
  | _ + 1, index :: second :: rest, _, _, _, h => by
    unfold normalize at h
    obtain ⟨⟨⟩, hnodes, h⟩ := bind_eq_ok.mp h
    cases h
    exact CompiledGraph.allNodes_eq hnodes

theorem Ruins.timeless {ctx : RunContext} {checkpoints : RuntimeCheckpoint}
    {a : NodeAttempt ν E.State E.Value} {e : Stop} (h : b.Ruins ctx checkpoints a e) :
    b.Ruins ctx checkpoints a.timeless e := by
  cases h with
  | failed h => exact .failed h
  | interrupted h herror => exact .interrupted h herror

end Behaviour

end GroupAgent.Core
