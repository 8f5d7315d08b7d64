import GroupAgent.Core.Durable
import Mathlib.Tactic.IntervalCases

/-!
# The frontiers a run executes

What the loop of `execute_internal` (`runtime.rs:369-890`) and `normalize_frontier` (900-974) keep
of a frontier, over every call, and what `validate_and_resolve_checkpoint_frontier` (1736-1822)
lets in from a store.

* `Saved` are the frontiers that some run of a graph saved, with the counters saved beside them.
* `RealFrontier`: real nodes of one namespace, in increasing order.
* `follow`, `Call.followed`: the loop states of a call, turn by turn, computed. They are what the
  concrete runs at the end of the file are evaluated with.

Results:
* **`frontier_sound`**: from an invocation or a saved frontier, a run only executes real nodes of
  one namespace in increasing order, and never stops at a structural item.
* **`load_safe`**: the same of any frontier that can be loaded, as long as only real nodes come to
  run together from it. `Crossroads` is a graph with a loadable frontier from which they do not
  (`resume_panics`): each of its two nodes may stand in a frontier, but no fan-out starts them
  together, so the check of `compile` has not looked at that pair.

Premises of `load_safe`: no structural item hops back to itself (`Hops`), the counters and the
clock hold what is added to them. Without them a call stops for these reasons, which have files of
their own.
-/

namespace GroupAgent.Core

open GroupAgent.Lib

variable {ν ρ : Type} {E : Env ν ρ} {g : CompiledGraph ν ρ}

/-! ## Saved frontiers -/

/-- A frontier with its step and superstep that a run of the graph asked to save: an invocation, or a
run from a frontier saved so before. -/
inductive Saved (g : CompiledGraph ν ρ) : List NodePath → Nat → Nat → Prop where
  | save {E : Env ν ρ} {call : Call E} {m : Machine E} {ws : List (StoreWrite E)}
      {branchId : Option BranchId} {request : CheckpointRequest E.Snapshot E.Value}
      {answer : Option (Except CheckpointWriteError (Checkpoint E.Snapshot E.Value))}
      (hreads : ∀ checkpoint, call.Reads m checkpoint →
        Saved g checkpoint.nextFrontier checkpoint.step checkpoint.superstep)
      (hwrites : call.Writes g m ws) (hsave : .save branchId request answer ∈ ws) :
      Saved g request.nextFrontier request.step request.superstep

/-- What runs together from a frontier of the loop ran together before. -/
theorem Frontier.nodesOnly {seed : Option (List Nat)} {l : List Nat} (h : Frontier g seed l)
    (hn : Watch g .limits seed) : NodesOnly g l := by
  obtain ⟨s, rfl⟩ := hn.known.resolve_left id
  intro i j hij
  refine hn.nodes s rfl i j ?_
  induction hij with
  | seed ha hb hne => exact h.together _ ha _ hb hne s rfl
  | fork hi hfan ha hb hne => exact .fork hi hfan ha hb hne
  | step _ hi hj ha hb hne ih => exact .step ih hi hj ha hb hne

/-- A frontier that is loaded from these paths, at these counters, is sound. -/
structure Loads (g : CompiledGraph ν ρ) (paths : List NodePath) (step superstep : Nat) : Prop where
  nodes : ∀ l, PathsOf g l paths → NodesOnly g l
  steps_le : step ≤ usizeMax
  superstep_le : superstep ≤ usizeMax

theorem sound_of_loads {call : Call E} {m : Machine E} (h : ∀ checkpoint, call.Reads m checkpoint →
    Loads g checkpoint.nextFrontier checkpoint.step checkpoint.superstep) :
    Sound g .limits call m where
  runClock := .inl trivial
  nodeClock := .inl trivial
  hops := .inl trivial
  begins checkpoint hread := ⟨(h checkpoint hread).steps_le, (h checkpoint hread).superstep_le⟩
  loads := .inr fun checkpoint frontier hread hresolved =>
    (h checkpoint hread).nodes frontier hresolved.paths

/-- **A saved frontier is sound to load.** -/
theorem Saved.loads (hg : Compiled g) {paths : List NodePath} {step superstep : Nat}
    (h : Saved g paths step superstep) : Loads g paths step superstep := by
  induction h with
  | save _ hwrites hsave ih =>
    have hs := sound_of_loads ih
    obtain ⟨state, frontier, hrecorded⟩ := durable_of_log (hwrites.log hg hs trivial) hsave
    have hloadable := hrecorded.durable.loadable hg hs
    obtain ⟨seed, hn, hfrontier⟩ := hloadable.nodes
    refine ⟨fun l hl => ?_, hloadable.steps_le, hloadable.superstep_le⟩
    rw [hl.inj hg.indexed hloadable.paths]
    exact hfrontier.nodesOnly hn

/-! ## Soundness -/

/-- What the loop is meant to execute. -/
structure RealFrontier (g : CompiledGraph ν ρ) (l : List Nat) : Prop where
  nodes : ∀ i ∈ l, ∃ n, g.items[i]? = some (.node n)
  increasing : l.Pairwise (· < ·)
  scope : ∃ graphPath, ∀ i ∈ l, ∃ n, g.items[i]? = some (.node n) ∧ n.graphPath = graphPath

theorem Frontier.real {seed : Option (List Nat)} {l : List Nat} (h : Frontier g seed l) : RealFrontier g l :=
  ⟨fun _ hi => h.node hi, h.strict, h.nodes⟩

/-- Two or more different targets are all real nodes. -/
def RealTargets (g : CompiledGraph ν ρ) (targets : List Nat) : Prop :=
  2 ≤ (canonical id targets).length →
    ∀ i ∈ canonical id targets, ∃ n, g.items[i]? = some (.node n)

theorem Targets.real {seed : Option (List Nat)} {ts : List Nat} (h : Targets g seed ts)
    (hn : Watch g .limits seed) : RealTargets g ts := by
  obtain ⟨s, rfl⟩ := hn.known.resolve_left id
  exact fun hlen => h.canonical.node (hn.nodes s rfl) (strict_canonical ts) hlen

/-- What a reached frontier routes to. -/
theorem routeAll_real (hg : Compiled g) {seed : Option (List Nat)} (hn : Watch g .limits seed)
    {frontier : List Nat} (hf : Frontier g seed frontier) {ctx : RunContext} {state : E.State}
    {step : Nat} {m m' : Machine E} {targets : List Nat}
    (h : routeAll g.nav ctx state step frontier m = .ok targets m') : RealTargets g targets := by
  have hquiet : Quiet (routeAll g.nav ctx state step frontier) (Routes g frontier) (Fine .limits) :=
    quiet_routeAll (placed hg) (fun i hi => hf.node hi) hf.strict.nodup
  exact ((hquiet.of_ok h).1.targets (placed hg) hf).real hn

/-- What one item resolves to. -/
theorem resolveTransition_real (hg : Compiled g) {i : Nat} {item : CompiledItem ν ρ Nat}
    (hi : g.items[i]? = some item) {ctx : RunContext} {state : E.State} {graphPath : GraphPath}
    {source : NodePath} {step : Nat} {m m' : Machine E} {targets : List Nat}
    (h : resolveTransition ctx id g.pathAt item.transition state graphPath source step m =
      .ok targets m') : RealTargets g targets := by
  have hexists : ∀ a ∈ item.transition.targets, ∃ item, g.items[a]? = some item := by
    intro a ha
    obtain ⟨item', hitem', -⟩ := (placed hg).target i item a hi ha
    exact ⟨item', hitem'⟩
  have hquiet : Quiet (resolveTransition ctx id g.pathAt item.transition state graphPath source step)
      (item.transition.Resolves id) (Fine .limits) := quiet_resolveTransition hexists
  have hresolves := (hquiet.of_ok h).1
  intro hlen
  cases henter : item.isEnter with
  | false =>
    have htargets : Targets g (some []) targets := targets_of_resolves (placed hg) hi henter hresolves
    refine htargets.real ⟨?_, .inr ⟨_, rfl⟩⟩ hlen
    rintro s ⟨⟩
    exact together_nodes hg
  | true =>
    -- an enter goes to one place
    cases item with
    | node n => cases henter
    | exitSubgraph graphPath mountPath t => cases henter
    | enterSubgraph graphPath nested t =>
      obtain ⟨j, rfl⟩ := (placed hg).enter i graphPath nested t hi
      cases hresolves with
      | fixed =>
        have hone : canonical id (some j).toList = [j] :=
          canonical_of_strict (List.pairwise_singleton _ _)
        rw [hone] at hlen
        exact absurd hlen (by simp)

/-- **Frontier soundness.** -/
theorem frontier_sound (hg : Compiled g) (call : Call E) (m : Machine E)
    (hreads : ∀ checkpoint, call.Reads m checkpoint →
      Saved g checkpoint.nextFrontier checkpoint.step checkpoint.superstep) :
    (∀ ctx p, call.Reaches g m ctx p → RealFrontier g p.1.frontier ∧
      ∀ (state : E.State) step (m₁ m₂ : Machine E) targets,
        routeAll g.nav ctx state step p.1.frontier m₁ = .ok targets m₂ → RealTargets g targets) ∧
    (∀ (i : Nat) (item : CompiledItem ν ρ Nat), g.items[i]? = some item → ∀ ctx (state : E.State) graphPath source step
      (m₁ m₂ : Machine E) targets,
        resolveTransition ctx id g.pathAt item.transition state graphPath source step m₁ =
          .ok targets m₂ → RealTargets g targets) ∧
    ∀ e m', call.run g m = .error e m' → e ≠ .panic .structuralIndex ∧
      e ≠ .panic .mixedFrontier ∧ e ≠ .panic .indexOutOfBounds := by
  have hs : Sound g .limits call m :=
    sound_of_loads fun checkpoint hread => (hreads checkpoint hread).loads hg
  refine ⟨fun ctx p hreach => ?_, fun i item hi _ _ _ _ _ _ _ _ h => ?_, fun e m' hrun => ?_⟩
  · obtain ⟨seed, hn, hvalid⟩ := hreach.valid hg hs
    exact ⟨hvalid.frontier.real, fun _ _ _ _ _ h => routeAll_real hg hn hvalid.frontier h⟩
  · exact resolveTransition_real hg hi h
  · obtain ⟨hfine, -⟩ := wp_of_error (run_spec hg hs (counts_tolerated trivial)) hrun
    refine ⟨?_, ?_, ?_⟩ <;> rintro rfl <;> exact hfine

/-! ## Loading any frontier -/

/-- With nothing tolerated a call stops with errors only. -/
theorem error_of_sound (hg : Compiled g) {call : Call E} {m : Machine E} (hs : Sound g .none call m)
    (hcounts : ∀ ctx p, call.Reaches g m ctx p → p.1.frontier ≠ [] →
      p.1.steps + p.1.frontier.length ≤ usizeMax ∧ p.1.superstep + 1 ≤ usizeMax)
    {e : Stop} {m' : Machine E} (h : call.run g m = .error e m') : ∃ error, e = .error error := by
  obtain ⟨hfine, -⟩ := wp_of_error
    (run_spec hg hs fun ctx p hreach => .inr (hcounts ctx p hreach)) h
  cases e with
  | error error => exact ⟨error, rfl⟩
  | panic p => cases p <;> exact hfine.elim
  | outOfFuel => exact hfine.elim

/-- **Loading is safe**, whatever the store holds, if only real nodes come to run together from the
frontier, the counters of every super-step can be counted, the timeouts fit the clock and no
structural item hops back to itself: the run returns or stops with an error. -/
theorem load_safe (hg : Compiled g) (hr : Acyclic (Hop g)) (call : Call E) (m : Machine E)
    (hloads : ∀ checkpoint, call.Reads m checkpoint → ∀ frontier,
      g.validateAndResolveCheckpointFrontier checkpoint = .ok frontier → NodesOnly g frontier)
    (husize : ∀ checkpoint, call.Reads m checkpoint →
      checkpoint.step ≤ usizeMax ∧ checkpoint.superstep ≤ usizeMax)
    (hcounts : ∀ ctx p, call.Reaches g m ctx p → p.1.frontier ≠ [] →
      p.1.steps + p.1.frontier.length ≤ usizeMax ∧ p.1.superstep + 1 ≤ usizeMax)
    (hclock : ClockFits E call.config.control.runTimeout ∧
      ClockFits E call.config.control.nodeTimeout)
    (hhops : g.items.length < call.config.hops) :
    (∀ ctx p, call.Reaches g m ctx p → RealFrontier g p.1.frontier) ∧
      ∀ e m', call.run g m = .error e m' → ∃ error, e = .error error := by
  have hs : Sound g .none call m := by
    refine ⟨.inr hclock.1, .inr hclock.2, .inr ⟨hr, hhops⟩, ?_, .inr ?_⟩
    · exact fun checkpoint hread => ⟨(husize checkpoint hread).1, (husize checkpoint hread).2⟩
    · intro checkpoint frontier hread hresolved
      exact hloads checkpoint hread frontier ((validate_iff hg.indexed (unreserved hg)).mpr hresolved)
  refine ⟨fun ctx p hreach => ?_, fun e m' hrun => ?_⟩
  · obtain ⟨seed, -, hvalid⟩ := hreach.valid hg hs
    exact hvalid.frontier.real
  · exact error_of_sound hg hs hcounts hrun

/-! ## Following a run -/

/-- The loop states of at most `n` super-steps, and the one they start in. -/
def follow (g : CompiledGraph ν ρ) (ctx : RunContext) :
    Nat → LoopState E Nat × Machine E → List (LoopState E Nat × Machine E)
  | 0, p => [p]
  | n + 1, p =>
    p :: match p.1.frontier with
      | [] => []
      | first :: rest =>
        match superstep g.nav ctx p.1 first rest p.2 with
        | .ok (.inl ls) m => follow g ctx n (ls, m)
        | _ => []

theorem follow_of_turn {ctx : RunContext} {p q : LoopState E Nat × Machine E} (h : Turn g ctx p q)
    (n : Nat) : follow g ctx (n + 1) p = p :: follow g ctx n q := by
  obtain ⟨first, rest, hl, hstep⟩ := h
  simp only [follow, hl, hstep]

/-- What was followed is reached. -/
theorem turns_of_mem_follow {ctx : RunContext} : ∀ {n : Nat} {p q : LoopState E Nat × Machine E},
    q ∈ follow g ctx n p → Relation.ReflTransGen (Turn g ctx) p q
  | 0, p, q, h => by
    obtain rfl := List.mem_singleton.mp h
    exact .refl
  | n + 1, p, q, h => by
    rcases List.mem_cons.mp h with rfl | h
    · exact .refl
    · split at h
      · cases h
      · rename_i first rest hl
        split at h
        · rename_i ls m hstep
          exact .head ⟨first, rest, hl, hstep⟩ (turns_of_mem_follow h)
        · cases h

/-- A run that is over within `n` super-steps was followed to every state it reaches. -/
theorem mem_follow {ctx : RunContext} {p q : LoopState E Nat × Machine E}
    (h : Relation.ReflTransGen (Turn g ctx) p q) {n : Nat} (hn : (follow g ctx n p).length ≤ n) :
    q ∈ follow g ctx n p := by
  induction h using Relation.ReflTransGen.head_induction_on generalizing n with
  | refl =>
    cases n with
    | zero => exact List.mem_singleton_self _
    | succ n => exact List.mem_cons_self
  | head hturn _ ih =>
    cases n with
    | zero => cases hn
    | succ n =>
      rw [follow_of_turn hturn] at hn ⊢
      exact List.mem_cons_of_mem _ (ih (Nat.le_of_succ_le_succ hn))

/-- The loop states of a call, as far as `n` super-steps go. -/
def Call.followed (g : CompiledGraph ν ρ) (call : Call E) (m : Machine E) (n : Nat) :
    List (LoopState E Nat × Machine E) :=
  match call.enter g m with
  | .ok (ctx, ls) m₁ => follow g ctx n (ls, m₁)
  | .error _ _ => []

theorem Call.reaches_of_mem {call : Call E} {m : Machine E} {n : Nat}
    {p : LoopState E Nat × Machine E} (h : p ∈ call.followed g m n) :
    ∃ ctx, call.Reaches g m ctx p := by
  unfold Call.followed at h
  split at h
  · rename_i ctx ls m₁ henter
    exact ⟨ctx, ls, m₁, henter, turns_of_mem_follow h⟩
  · cases h

theorem Call.Reaches.mem_followed {call : Call E} {m : Machine E} {ctx : RunContext}
    {p : LoopState E Nat × Machine E} (h : call.Reaches g m ctx p) {n : Nat}
    (hn : (call.followed g m n).length ≤ n) : p ∈ call.followed g m n := by
  obtain ⟨ls, m₁, henter, hturns⟩ := h
  unfold Call.followed at hn ⊢
  simp only [henter] at hn ⊢
  exact mem_follow hturns hn

/-- The requests to save in a log. -/
def requests (ws : List (StoreWrite E)) : List (CheckpointRequest E.Snapshot E.Value) :=
  ws.filterMap fun
    | .save _ request _ => some request
    | .createBranch _ _ _ _ => none

theorem exists_save {ws : List (StoreWrite E)} {request : CheckpointRequest E.Snapshot E.Value}
    (h : request ∈ requests ws) : ∃ branchId answer, .save branchId request answer ∈ ws := by
  obtain ⟨w, hw, hrequest⟩ := List.mem_filterMap.mp h
  cases w with
  | save branchId request' answer =>
    cases hrequest
    exact ⟨branchId, answer, hw⟩
  | createBranch _ _ _ _ => cases hrequest

/-! ### A frontier that cannot be run together -/

namespace Crossroads

/-- One node. -/
def stop : Except GraphBuildError (StateGraph Unit Unit (CompiledGraph Unit Unit)) := do
  let sg ← StateGraph.new.addNode ⟨"x"⟩ ()
  pure ((sg.addEdge NodeId.START ⟨"x"⟩).addEdge ⟨"x"⟩ NodeId.END)

def stopGraph : CompiledGraph Unit Unit where
  items := [.node ⟨.root ⟨"x"⟩, .root, .normal (), .fixed none⟩]
  nodePaths := [(.root ⟨"x"⟩, 0)]
  scopeExits := []
  entryIndex := some 0
  version := none

/-- A node that chooses between `a`, followed by a mounted graph, and `b`, followed by a node. -/
def declare : Except GraphBuildError (StateGraph Unit Unit (CompiledGraph Unit Unit)) := do
  let sg ← StateGraph.new.addNode ⟨"r"⟩ ()
  let sg ← sg.addNode ⟨"a"⟩ ()
  let sg ← sg.addNode ⟨"b"⟩ ()
  let sg ← sg.addNode ⟨"c"⟩ ()
  let sg ← sg.addSubgraph ⟨"s"⟩ stopGraph
  let sg ← sg.addConditionalEdges ⟨"r"⟩ [⟨"a"⟩, ⟨"b"⟩] ()
  let sg := (sg.addEdge NodeId.START ⟨"r"⟩).addEdge ⟨"a"⟩ ⟨"s"⟩
  let sg := (sg.addEdge ⟨"b"⟩ ⟨"c"⟩).addEdge ⟨"c"⟩ NodeId.END
  pure ((sg.addEdge ⟨"s"⟩ NodeId.END).setVersion ⟨"1"⟩)

def graph : CompiledGraph Unit Unit where
  items :=
    [.node ⟨.root ⟨"r"⟩, .root, .normal (), .conditional () [(⟨"a"⟩, some 1), (⟨"b"⟩, some 2)]⟩,
      .node ⟨.root ⟨"a"⟩, .root, .normal (), .fixed (some 4)⟩,
      .node ⟨.root ⟨"b"⟩, .root, .normal (), .fixed (some 3)⟩,
      .node ⟨.root ⟨"c"⟩, .root, .normal (), .fixed none⟩,
      .enterSubgraph ⟨[⟨"s"⟩]⟩ (List.cons_ne_nil _ _) (.fixed (some 6)),
      .exitSubgraph ⟨[⟨"s"⟩]⟩ (.root ⟨"s"⟩) (.fixed none),
      .node ⟨⟨⟨[⟨"s"⟩]⟩, ⟨"x"⟩⟩, ⟨[⟨"s"⟩]⟩, .normal (), .fixed none⟩]
  nodePaths := [(.root ⟨"r"⟩, 0), (.root ⟨"a"⟩, 1), (.root ⟨"b"⟩, 2), (.root ⟨"c"⟩, 3),
    (⟨⟨[⟨"s"⟩]⟩, ⟨"x"⟩⟩, 6)]
  scopeExits := [(⟨[⟨"s"⟩]⟩, 5)]
  entryIndex := some 0
  version := some ⟨"1"⟩

theorem compiled_stop : Compiled stopGraph := by
  refine .mk (stop.toOption.get rfl) _ (fun itemId child h => ?_) rfl
  have hitems : (stop.toOption.get rfl).items = [(⟨"x"⟩, .node (.normal ()))] := rfl
  rw [hitems] at h
  simp at h

theorem compiled : Compiled graph := by
  refine .mk (declare.toOption.get rfl) _ (fun itemId child h => ?_) rfl
  have hitems : (declare.toOption.get rfl).items = [(⟨"r"⟩, .node (.normal ())),
      (⟨"a"⟩, .node (.normal ())), (⟨"b"⟩, .node (.normal ())), (⟨"c"⟩, .node (.normal ())),
      (⟨"s"⟩, .subgraph stopGraph)] := rfl
  rw [hitems] at h
  simp only [List.mem_cons, Prod.mk.injEq, reduceCtorEq, and_false, DeclaredItem.subgraph.injEq,
    List.not_mem_nil, or_false, false_or] at h
  obtain ⟨-, rfl⟩ := h
  exact compiled_stop

/-- A stored record whose frontier is `a` and `b`. -/
def parts : CheckpointRecordParts where
  formatVersion := CheckpointFormatVersion.CURRENT
  checkpointId := ⟨⟨1⟩⟩
  threadId := ⟨"t"⟩
  runId := ⟨⟨0⟩⟩
  parentId := none
  graphVersion := some ⟨"1"⟩
  superstep := 1
  step := 1
  snapshot := ⟨⟨"unit", 1, "none"⟩, []⟩
  nextFrontier := [.root ⟨"a"⟩, .root ⟨"b"⟩]
  completed := false
  interrupt := none

def codec : CheckpointCodec Unit Unit where
  snapshotDescriptor := ⟨"unit", 1, "none"⟩
  encodeSnapshot _ := .ok []
  decodeSnapshot _ := .ok ()
  encodeInterrupt _ := .ok ⟨⟨"unit", 1, "none"⟩, []⟩
  decodeInterrupt _ := .ok ()

def checkpoint (nextFrontier : List NodePath) : Checkpoint Unit Unit where
  id := ⟨⟨1⟩⟩
  threadId := ⟨"t"⟩
  runId := ⟨⟨0⟩⟩
  parentId := none
  graphVersion := some ⟨"1"⟩
  superstep := 1
  step := 1
  snapshot := ()
  nextFrontier := nextFrontier
  completed := nextFrontier.isEmpty
  interrupt := none

/-- The graph can continue from `a` and `b`. -/
theorem validation_exact_nodes :
    graph.validateAndResolveCheckpointFrontier (checkpoint [.root ⟨"a"⟩, .root ⟨"b"⟩]) = .ok [1, 2] ∧
      Continuable graph (checkpoint [.root ⟨"a"⟩, .root ⟨"b"⟩]) :=
  ⟨rfl, (validation_exact compiled (checkpoint [.root ⟨"a"⟩, .root ⟨"b"⟩])).1.mp ⟨[1, 2], rfl⟩⟩

/-- Resume the latest checkpoint of the thread. -/
def call : Call (Script.env Unit Unit) :=
  .resume ⟨⟨"t"⟩, .latest, .everySuperstep, ⟨10, ⟨.none, false⟩, ⟨false, none, none⟩, 10⟩, none,
    none⟩ .ok

/-- The machine whose store holds the checkpoint. -/
def machine (nextFrontier : List NodePath) : Machine (Script.env Unit Unit) :=
  Script.machine ⟨[], some (checkpoint nextFrontier)⟩

/-- The panic a run stopped with. -/
def panicked {σ α : Type} : EStateM.Result Stop σ α → Option Panic
  | .error (.panic p) _ => some p
  | _ => none

theorem panicked_eq {σ α : Type} {r : EStateM.Result Stop σ α} {p : Panic}
    (h : panicked r = some p) : ∃ s, r = .error (.panic p) s := by
  match r, h with
  | .error (.panic p) s, h =>
    cases h
    exact ⟨s, rfl⟩

/-- The record is accepted and loaded, and the run it is resumed by panics. -/
theorem resume_panics : Compiled graph ∧
    (∃ record, CheckpointRecord.tryFromParts parts = .ok record ∧
      Checkpoint.fromRecord record codec = .ok (checkpoint [.root ⟨"a"⟩, .root ⟨"b"⟩])) ∧
    graph.validateAndResolveCheckpointFrontier (checkpoint [.root ⟨"a"⟩, .root ⟨"b"⟩]) =
      .ok [1, 2] ∧
    ∃ m', call.run graph (machine [.root ⟨"a"⟩, .root ⟨"b"⟩]) =
      .error (.panic .mixedFrontier) m' :=
  ⟨compiled, ⟨⟨parts, rfl⟩, rfl, rfl⟩, rfl, panicked_eq (by decide +kernel)⟩

/-- The only hop is into the mounted graph. -/
theorem hop_eq {i j : Nat} (h : Hop graph i j) : i = 4 ∧ j = 6 := by
  cases h with
  | enter hi ht =>
    have hlt : i < 7 := (List.getElem?_eq_some_iff.mp hi).1
    interval_cases i <;> cases hi
    cases ht
    exact ⟨rfl, rfl⟩
  | exit hi ht hj =>
    have hlt : i < 7 := (List.getElem?_eq_some_iff.mp hi).1
    interval_cases i <;> cases hi
    cases ht
    cases hj

theorem acyclic : Acyclic (Hop graph) := by
  intro i h
  obtain ⟨j, hij, hji⟩ := Relation.TransGen.head'_iff.mp h
  rcases Relation.ReflTransGen.cases_tail hji with rfl | ⟨k, -, hki⟩
  · have := hop_eq hij
    omega
  · have hi := hop_eq hij
    have hk := hop_eq hki
    omega

/-- Entering the mounted graph takes one hop, and every other item is a node or leads to `END`. -/
theorem graph_normalizes : Compiled graph ∧ Hop graph 4 6 ∧ Normalizes graph :=
  ⟨compiled, .enter rfl (.fixed (some 6)), (normalizes_iff compiled).mpr acyclic⟩

/-! ### A frontier that can -/

/-- `b` and `c` at once, which no invocation comes to. -/
abbrev pair : List NodePath := [.root ⟨"b"⟩, .root ⟨"c"⟩]

/-- `b` leads to `c` and `c` to the end, so from the two nothing else comes to run. -/
theorem together_pair {i j : Nat} (h : Together graph [2, 3] i j) :
    i = 2 ∧ j = 3 ∨ i = 3 ∧ j = 2 := by
  induction h with
  | seed ha hb hne => simp at ha hb; omega
  | @fork i _ _ _ hi hfan =>
    have hlt : i < 7 := (List.getElem?_eq_some_iff.mp hi).1
    interval_cases i <;> cases hi <;> cases hfan
  | step _ hi hj ha hb _ ih =>
    rcases ih with ⟨rfl, rfl⟩ | ⟨rfl, rfl⟩
    · cases hj
      cases hb
    · cases hi
      cases ha

theorem pair_nodes : NodesOnly graph [2, 3] := by
  intro i j h
  rcases together_pair h with ⟨rfl, -⟩ | ⟨rfl, -⟩ <;> exact ⟨_, rfl⟩

theorem reads_pair : call.Reads (machine pair) (checkpoint pair) := ⟨_, _, rfl⟩

/-- The frontier, the step and the superstep of a loop state. -/
abbrev place (p : LoopState (Script.env Unit Unit) Nat × Machine (Script.env Unit Unit)) :
    List Nat × Nat × Nat :=
  (p.1.frontier, p.1.steps, p.1.superstep)

/-- The resumed run executes `b` and `c`, then `c` again, and is done. -/
theorem followed_pair : (call.followed graph (machine pair) 4).map place =
    [([2, 3], 1, 1), ([3], 3, 2), ([], 4, 3)] := by decide +kernel

theorem reaches_pair {ctx : RunContext}
    {p : LoopState (Script.env Unit Unit) Nat × Machine (Script.env Unit Unit)}
    (h : call.Reaches graph (machine pair) ctx p) :
    place p ∈ [([2, 3], 1, 1), ([3], 3, 2), ([], 4, 3)] := by
  have hlength : (call.followed graph (machine pair) 4).length = 3 := by
    rw [← List.length_map (f := place), followed_pair]
    rfl
  rw [← followed_pair]
  exact List.mem_map_of_mem (h.mem_followed (by omega))

/-- The run resumed from `b` and `c` executes both at once, and every frontier of it is real. -/
theorem resume_pair : Compiled graph ∧
    graph.validateAndResolveCheckpointFrontier (checkpoint pair) = .ok [2, 3] ∧
    (∃ ctx p, call.Reaches graph (machine pair) ctx p ∧ p.1.frontier = [2, 3]) ∧
    (∀ ctx p, call.Reaches graph (machine pair) ctx p → RealFrontier graph p.1.frontier) ∧
    ∀ e m', call.run graph (machine pair) = .error e m' → ∃ error, e = .error error := by
  refine ⟨compiled, rfl, ?_, load_safe compiled acyclic call (machine pair) ?_ ?_ ?_ ⟨?_, ?_⟩
    (by decide)⟩
  · have hmem : ([2, 3], 1, 1) ∈ (call.followed graph (machine pair) 4).map place := by
      rw [followed_pair]
      exact List.mem_cons_self
    obtain ⟨p, hp, hplace⟩ := List.mem_map.mp hmem
    obtain ⟨ctx, hreach⟩ := call.reaches_of_mem hp
    exact ⟨ctx, p, hreach, congrArg Prod.fst hplace⟩
  · intro c hc frontier hvalidate
    obtain rfl := hc.unique reads_pair
    cases hvalidate
    exact pair_nodes
  · intro c hc
    obtain rfl := hc.unique reads_pair
    exact ⟨by decide, by decide⟩
  · intro ctx p hreach _
    have hplace := reaches_pair hreach
    simp only [place, List.mem_cons, Prod.mk.injEq, List.not_mem_nil, or_false] at hplace
    rcases hplace with ⟨hl, hsteps, hsuper⟩ | ⟨hl, hsteps, hsuper⟩ | ⟨hl, hsteps, hsuper⟩ <;>
      rw [hl, hsteps, hsuper] <;> decide
  · rintro w timeout ⟨⟩
  · rintro w timeout ⟨⟩

/-! ### From a saved boundary -/

/-- An invocation that saves every boundary. -/
def saving : Call (Script.env Unit Unit) :=
  .invoke () ⟨10, ⟨.none, false⟩, ⟨false, none, none⟩, 10⟩ (some ⟨⟨"t"⟩, .everySuperstep, none, none⟩)

/-- The boundary that the invocation saves after `a`: the mount is next, so its node is. -/
def mounted : CheckpointRequest Unit Unit where
  checkpointId := ⟨⟨0⟩⟩
  expectedParent := some ⟨⟨0⟩⟩
  graphVersion := some ⟨"1"⟩
  threadId := ⟨"t"⟩
  runId := ⟨⟨0⟩⟩
  superstep := 2
  step := 2
  snapshot := ()
  nextFrontier := [⟨⟨[⟨"s"⟩]⟩, ⟨"x"⟩⟩]
  completed := false
  interrupt := none

/-- The machine whose store holds it. -/
def mountedMachine : Machine (Script.env Unit Unit) :=
  Script.machine ⟨[], some mounted.intoCheckpoint⟩

theorem reads_mounted : call.Reads mountedMachine mounted.intoCheckpoint := ⟨_, _, rfl⟩

/-- The router chooses `a`, and the boundary is saved. -/
theorem saved_mounted : Saved graph mounted.nextFrontier mounted.step mounted.superstep := by
  have hmem : mounted ∈ requests (saving.logAfter graph (Script.machine ⟨[[⟨"a"⟩]], none⟩)) := by
    decide +kernel
  obtain ⟨branchId, answer, hsave⟩ := exists_save hmem
  have hwrites : saving.Writes graph (Script.machine ⟨[[⟨"a"⟩]], none⟩) _ := .of_empty rfl
  have hreads : ∀ c, saving.Reads (Script.machine ⟨[[⟨"a"⟩]], none⟩) c →
      Saved graph c.nextFrontier c.step c.superstep := fun _ h => h.elim
  exact .save hreads hwrites hsave

/-- Resumed from the boundary, the run is in the mounted graph at once, and never at the structural
items around it. -/
theorem resume_mounted : Compiled graph ∧
    (∃ ctx p, call.Reaches graph mountedMachine ctx p ∧ p.1.frontier = [6]) ∧
    (∀ ctx p, call.Reaches graph mountedMachine ctx p → RealFrontier graph p.1.frontier) ∧
    ∀ e m', call.run graph mountedMachine = .error e m' → e ≠ .panic .structuralIndex := by
  have hsound := frontier_sound compiled call mountedMachine fun c hread => by
    obtain rfl := hread.unique reads_mounted
    exact saved_mounted
  refine ⟨compiled, ?_, fun ctx p h => (hsound.1 ctx p h).1, fun e m' h => (hsound.2.2 e m' h).1⟩
  have hmem : ([6], 2, 2) ∈ (call.followed graph mountedMachine 1).map place := by decide +kernel
  obtain ⟨p, hp, hplace⟩ := List.mem_map.mp hmem
  obtain ⟨ctx, hreach⟩ := call.reaches_of_mem hp
  exact ⟨ctx, p, hreach, congrArg Prod.fst hplace⟩

end Crossroads

end GroupAgent.Core
