import GroupAgent.Core.Program

/-!
# The flow of a program

What a run of a program comes to, without clocks, events, controls and storage. It is the abstract
machine that `Course` shows the calls of `runtime.rs` to refine. A `Position` is a state, a
frontier and the value that was supplied for a suspended node. A `Step` executes the one node of a
frontier, applies its update and follows its transition.

* `Tries`: the attempts at a position. A node may be attempted again after a call was cut off.
* `Program.Comes` and `Program.Fails`: what an attempt can come to.
* `Works`: the jobs that may be worked on at a position.
* `Fault`: why a super-step stops, by the position it started from.

The graphs here are `Flat`: real nodes only, whose transitions lead to one target. So a frontier
has at most one node, and nothing runs in parallel. `comes_normal` and `comes_interruptible` say
what the two kinds of nodes can come to.

Out of scope: graphs with mounts or fan-outs. The prebuilt agents have neither, and `Determined` is
the file for graphs that do.
-/

namespace GroupAgent.Core

open GroupAgent.Lib

variable {ν ρ : Type}

/-! ## Positions -/

/-- Where a run of a program stands between two super-steps. -/
structure Position (P : Program ν ρ) where
  state : P.State
  frontier : List Nat
  resume : Option (Nat × P.Value)

/-- The value a node of the frontier is resumed with. -/
def Position.offered {P : Program ν ρ} (p : Position P) (i : Nat) : Option P.Value :=
  p.resume.bind fun resume => if resume.1 = i then some resume.2 else none

theorem Position.offered_none {P : Program ν ρ} {p : Position P} (h : p.resume = none) (i : Nat) :
    p.offered i = none := by
  unfold Position.offered
  rw [h]
  rfl

section Flow

variable (P : Program ν ρ) (g : CompiledGraph ν ρ)

/-- An execution of node `i` of the frontier. -/
structure Tries (p : Position P) (i : Nat) (a : NodeAttempt ν P.State P.Value) : Prop where
  mem : i ∈ p.frontier
  node : ∃ n, g.items[i]? = some (.node n) ∧ a.kind = n.kind ∧ a.context.nodePath = n.path
  state : a.state = p.state
  resume : a.context.resumeValue = p.offered i

/-- The attempt can come to this outcome. -/
def Program.Comes (a : NodeAttempt ν P.State P.Value) (outcome : NodeOutcome P.Update P.Value) :
    Prop :=
  ∃ answer, (P.plan a).Answers answer ∧ a.kind.outcome answer = .ok outcome

/-- The attempt can fail with this error. -/
def Program.Fails (a : NodeAttempt ν P.State P.Value) (source : SourceError) : Prop :=
  ∃ answer, (P.plan a).Answers answer ∧ a.kind.outcome answer = .error source

/-- What may be worked on at a position: the jobs of its attempts. -/
def Works (p : Position P) (w : Worked P) : Prop :=
  (∃ i, Tries P g p i w.attempt) ∧ (P.plan w.attempt).job? = some w.job

/-- Where a transition leads in a state. -/
inductive Leads : CompiledTransition ρ Nat → P.State → List Nat → Prop where
  | fixed (target : Option Nat) (state : P.State) : Leads (.fixed target) state target.toList
  | conditional {router : ρ} {allowed : List (NodeId × Option Nat)} {state : P.State}
      {targetId : NodeId} {target : Option Nat} (hroute : P.route router state = .ok targetId)
      (hallowed : allowed.lookup targetId = some target) :
      Leads (.conditional router allowed) state target.toList

/-- One super-step: the only node of the frontier is executed, its update applied, and its
transition followed. -/
inductive Step : Position P → P.Update → Position P → Prop where
  | mk {p : Position P} {i : Nat} {a : NodeAttempt ν P.State P.Value} {update : P.Update}
      {state : P.State} {n : CompiledNode ν ρ Nat} {next : List Nat} (hl : p.frontier = [i])
      (ha : Tries P g p i a) (hcomes : P.Comes a (.update update))
      (happly : P.apply p.state update = .ok state) (hn : g.items[i]? = some (.node n))
      (hleads : Leads P n.transition state next) : Step p update ⟨state, next, none⟩

/-- The only node of the frontier asks to suspend. -/
def Suspends (p : Position P) (request : InterruptRequest P.Value) : Prop :=
  ∃ i a, p.frontier = [i] ∧ Tries P g p i a ∧ P.Comes a (.interrupt request)

/-- Real nodes only, each with a transition to one target. -/
structure Flat : Prop where
  node : ∀ (i : Nat) (item : CompiledItem ν ρ Nat), g.items[i]? = some item → ∃ n, item = .node n
  exits : g.scopeExits = []
  single : ∀ (i : Nat) (n : CompiledNode ν ρ Nat), g.items[i]? = some (.node n) →
    n.transition.isFanOut = false

variable {P g}

/-- A normal node comes to updates only. -/
theorem comes_normal {node : ν} {state : P.State} {context : NodeContext P.Value}
    {outcome : NodeOutcome P.Update P.Value} :
    P.Comes ⟨.normal node, state, context⟩ outcome ↔ ∃ update : P.Update,
      outcome = .update update ∧ (P.plan ⟨.normal node, state, context⟩).Answers
        (Except.ok update : Except SourceError P.Update) := by
  constructor
  · rintro ⟨answer, hanswer, houtcome⟩
    obtain ⟨update, hupdate, rfl⟩ := map_eq_ok.mp houtcome
    exact ⟨update, rfl, hupdate ▸ hanswer⟩
  · rintro ⟨update, rfl, hanswer⟩
    exact ⟨_, hanswer, rfl⟩

theorem comes_interruptible {node : ν} {state : P.State} {context : NodeContext P.Value}
    {outcome : NodeOutcome P.Update P.Value} :
    P.Comes ⟨.interruptible node, state, context⟩ outcome ↔
      (P.plan ⟨.interruptible node, state, context⟩).Answers
        (Except.ok outcome : Except SourceError (NodeOutcome P.Update P.Value)) := by
  constructor
  · rintro ⟨answer, hanswer, houtcome⟩
    replace houtcome : answer = Except.ok outcome := houtcome
    exact houtcome ▸ hanswer
  · exact fun h => ⟨_, h, rfl⟩

/-- A router's answer decides where a transition leads. -/
theorem leads_conditional {router : ρ} {allowed : List (NodeId × Option Nat)} {state : P.State}
    {targetId : NodeId} {target : Option Nat} {next : List Nat}
    (hroute : P.route router state = .ok targetId) (hallowed : allowed.lookup targetId = some target) :
    Leads P (.conditional router allowed) state next ↔ next = target.toList := by
  constructor
  · intro h
    cases h with
    | conditional hroute' hallowed' =>
      rw [hroute] at hroute'
      cases hroute'
      rw [hallowed] at hallowed'
      cases hallowed'
      rfl
  · rintro rfl
    exact .conditional hroute hallowed

/-- A graph without mounts is compiled on its own. -/
theorem compiled_of_plain {sg : StateGraph ν ρ (CompiledGraph ν ρ)}
    (hplain : sg.items.all (fun item => !item.2.isSubgraph) = true) (h : sg.compile = .ok g) :
    Compiled g := by
  refine .mk sg g (fun itemId child hmem => ?_) h
  have hitem := List.all_eq_true.mp hplain _ hmem
  cases hitem

/-- A graph of real nodes, each of which leads to one target. -/
theorem flat_of_nodes (hexits : g.scopeExits = [])
    (hnodes : ∀ item ∈ g.items, ∃ n, item = .node n ∧ n.transition.isFanOut = false) : Flat g where
  node i item hi := by
    obtain ⟨n, hn, -⟩ := hnodes item (List.mem_of_getElem? hi)
    exact ⟨n, hn⟩
  exits := hexits
  single i n hi := by
    obtain ⟨n', hn', hsingle⟩ := hnodes _ (List.mem_of_getElem? hi)
    cases hn'
    exact hsingle

/-- There is nothing to hop over. -/
theorem Flat.acyclic (h : Flat g) : Acyclic (Hop g) := by
  have hnone : ∀ {i j : Nat}, ¬Hop g i j := by
    rintro i j (⟨hi, -⟩ | ⟨hi, -, -⟩)
    · obtain ⟨n, hn⟩ := h.node _ _ hi
      cases hn
    · obtain ⟨n, hn⟩ := h.node _ _ hi
      cases hn
  intro i hi
  cases hi with
  | single hhop => exact hnone hhop
  | tail _ hhop => exact hnone hhop

/-- Only real nodes come to run together. -/
theorem Flat.nodesOnly (h : Flat g) (hg : Placed g) {seed : List Nat}
    (hseed : ∀ i ∈ seed, ∃ n, g.items[i]? = some (.node n)) : NodesOnly g seed := by
  have htarget : ∀ {i a : Nat} {n : CompiledNode ν ρ Nat}, g.items[i]? = some (.node n) →
      a ∈ n.transition.targets → ∃ n, g.items[a]? = some (.node n) := by
    intro i a n hi ha
    obtain ⟨item, hitem, -⟩ := hg.target i (.node n) a hi ha
    obtain ⟨n', rfl⟩ := h.node a item hitem
    exact ⟨n', hitem⟩
  intro i j hij
  cases hij with
  | seed ha hb hne => exact hseed i ha
  | @fork k a b item hi hfan ha hb hne =>
    obtain ⟨n, rfl⟩ := h.node k item hi
    exact htarget hi ha
  | step hij hi hj ha hb hne => exact htarget hi ha

end Flow

/-! ## The position of a loop state -/

variable {P : Program ν ρ} {H : Host P} {g : CompiledGraph ν ρ}

/-- The value supplied for a suspended node, with the node. -/
def LoopState.resume (ls : LoopState (P.env H) Nat) : Option (Nat × P.Value) :=
  match ls.resumeNode, ls.resumeValue with
  | some i, some value => some (i, value)
  | _, _ => none

def LoopState.position (ls : LoopState (P.env H) Nat) : Position P :=
  ⟨ls.state, ls.frontier, ls.resume⟩

/-- What a node's context carries is what its position offers. -/
theorem LoopState.offered (ls : LoopState (P.env H) Nat) (i : Nat) :
    (if ls.resumeNode = some i then ls.resumeValue else none) = ls.position.offered i := by
  unfold LoopState.position Position.offered LoopState.resume
  cases ls.resumeNode with
  | none => simp
  | some j =>
    cases ls.resumeValue with
    | none => simp
    | some value => by_cases h : j = i <;> simp [h]

/-! ## Stops -/

/-- Stops that come from outside the graph: cancellation, a timeout, or a timeout that the clock
cannot hold. -/
def Outer : Stop → Prop
  | .error (.cancelled _ _ _) => True
  | .error (.runTimedOut _ _ _ _) => True
  | .error (.nodeTimedOut _ _ _ _) => True
  | .panic .instantOverflow => True
  | _ => False

/-- The errors of a save. -/
def Saves : GraphRunError → Prop
  | .snapshotFailed _ _ _ _ _ => True
  | .checkpointConflict _ _ _ _ _ _ => True
  | .checkpointIdConflict _ _ _ _ _ => True
  | .checkpointEncodeFailed _ _ _ _ _ => True
  | .checkpointSaveFailed _ _ _ _ _ => True
  | .branchCheckpointConflict _ _ _ _ _ _ _ => True
  | _ => False

/-- Why a super-step from `ls` stops. A frontier of several nodes may stop for any reason. -/
inductive Fault (g : CompiledGraph ν ρ) (ctx : RunContext) (ls : LoopState (P.env H) Nat) :
    Stop → Prop where
  | outer {e : Stop} (h : Outer e) : Fault g ctx ls e
  | node {i : Nat} {a : NodeAttempt ν P.State P.Value} {source : SourceError} {path : NodePath}
      {step : Nat} (ha : Tries P g ls.position i a) (h : P.Fails a source) :
      Fault g ctx ls (.error (.nodeFailed path step source))
  | budget {maxSteps : Nat} {path : NodePath} {step : Nat}
      (h : ctx.absoluteStepLimit < ls.steps + ls.frontier.length) :
      Fault g ctx ls (.error (.maxStepsExceeded maxSteps path step))
  | update {i : Nat} {a : NodeAttempt ν P.State P.Value} {update : P.Update} {source : SourceError}
      {path : NodePath} {step : Nat} (hl : ls.frontier = [i]) (ha : Tries P g ls.position i a)
      (hcomes : P.Comes a (.update update)) (h : P.apply ls.state update = .error source) :
      Fault g ctx ls (.error (.stateUpdateFailed path step source))
  | route {i : Nat} {a : NodeAttempt ν P.State P.Value} {update : P.Update} {state : P.State}
      {n : CompiledNode ν ρ Nat} {error : GraphRunError} (hl : ls.frontier = [i])
      (ha : Tries P g ls.position i a) (hcomes : P.Comes a (.update update))
      (happly : P.apply ls.state update = .ok state) (hn : g.items[i]? = some (.node n))
      (h : ∀ next, ¬Leads P n.transition state next) : Fault g ctx ls (.error error)
  | interrupt {request : InterruptRequest P.Value} {path : NodePath} {step : Nat}
      {error : GraphRunError} (h : Suspends P g ls.position request)
      (herror : ls.checkpoints.interruptError ctx.runId request.id path step false = some error) :
      Fault g ctx ls (.error error)
  | save {c : EnabledCheckpoint} {error : GraphRunError} (hc : ls.checkpoints = .enabled c)
      (h : Saves error) : Fault g ctx ls (.error error)
  | batch {e : Stop} (h : 2 ≤ ls.frontier.length) : Fault g ctx ls e
  | counter (h : usizeMax ≤ ls.steps ∨ usizeMax ≤ ls.superstep) :
      Fault g ctx ls (.panic .counterOverflow)
  | hops (h : ctx.hops = 0) : Fault g ctx ls .outOfFuel

end GroupAgent.Core
