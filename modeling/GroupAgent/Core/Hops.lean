import GroupAgent.Core.Quiet
import GroupAgent.Core.Script
import GroupAgent.Lib.Trail

/-!
# Hops over structural items

`normalize_frontier` (`runtime.rs:900-974`) follows structural items one after the other.
`Hop g i j` says that it goes on with `j` after the structural item `i`, on some answer of a
router. A hop is not counted as a step, so `max_steps` does not bound it.

* `Normalizes g`: from whatever targets and whatever the routers answer, normalizing comes to an
  end.
* `quiet_hops`: without a cycle of hops, as many hops as there are items are enough.
* `not_normalizes` is the other direction: a router that repeats the answers of one cycle keeps it
  going forever. `Walk` collects the answers, and `Script` is the environment that gives them.

Results:
* **`normalizes_iff`**: on a compiled graph normalizing always comes to an end exactly when no
  structural item hops back to itself.
* `roundabout_endless`: mounts of a graph that goes straight from `START` to `END` make such a
  cycle, and `compile` accepts it.

A cycle needs every mount on it to be left as soon as it is entered. A graph that executes a node
on each way from its entry to its exit adds no hop from the one to the other.
-/

namespace GroupAgent.Core

open GroupAgent.Lib Relation

variable {ν ρ : Type}

/-- Normalization can go on with `j` after the structural item `i`. -/
inductive Hop (g : CompiledGraph ν ρ) : Nat → Nat → Prop where
  | enter {i j : Nat} {graphPath : GraphPath} {nested : graphPath.segments ≠ []}
      {t : CompiledTransition ρ Nat} (hi : g.items[i]? = some (.enterSubgraph graphPath nested t))
      (ht : t.Resolves id [j]) : Hop g i j
  | exit {i j : Nat} {graphPath : GraphPath} {mountPath : NodePath} {t : CompiledTransition ρ Nat}
      {ts : List Nat} (hi : g.items[i]? = some (.exitSubgraph graphPath mountPath t))
      (ht : t.Resolves id ts) (hj : g.orScopeExit mountPath.graphPath (canonical id ts) = [j]) :
      Hop g i j

/-- Whatever the frontier, the state and the routers are, `normalize_frontier` comes to an end. -/
def Normalizes (g : CompiledGraph ν ρ) : Prop :=
  ∀ (E : Env ν ρ) (ctx : RunContext) (state : E.State) (step : Nat) (frontier : List Nat)
    (m : Machine E), ∃ hops, ∀ m',
      g.normalizeFrontier ctx state step hops frontier [] m ≠ .error .outOfFuel m'

/-! ## Without a cycle -/

section Bounded

variable {E : Env ν ρ} {g : CompiledGraph ν ρ} {ctx : RunContext} {state : E.State} {step : Nat}

/-- Every stop but the hop bound. -/
def Bounded (e : Stop) : Prop := e ≠ .outOfFuel

theorem bounded_of_fine {tol : Tolerance} (htol : ¬ tol.hops) {e : Stop} (h : Fine tol e) :
    Bounded e := by
  rintro rfl
  exact htol h

theorem quiet_panic {α : Type} (p : Panic) {P : α → Prop} : Quiet (panic p : M E α) P Bounded :=
  yields_throw (by simp [Bounded])

theorem quiet_assert : ∀ {frontier : List Nat},
    Quiet (g.assertNodes frontier : M E Unit) (fun _ => True) Bounded
  | [] => yields_pure trivial
  | index :: frontier => by
    unfold CompiledGraph.assertNodes CompiledGraph.itemAt
    cases hi : g.items[index]? with
    | none => exact yields_bind (P := fun _ => False) (quiet_panic _) fun _ h => h.elim
    | some item =>
      refine yields_bind (P := fun x => x = item) (yields_pure rfl) fun x hx => ?_
      subst hx
      cases x with
      | node n => exact quiet_assert
      | enterSubgraph graphPath nested t => exact quiet_panic _
      | exitSubgraph graphPath mountPath t => exact quiet_panic _

/-- A frontier of no or several items is not followed. -/
theorem quiet_notOne {hops : Nat} (hhops : 0 < hops) {targets : List Nat}
    (h : ∀ i, targets ≠ [i]) (boundaries : List SubgraphBoundary) :
    Quiet (g.normalizeFrontier ctx state step hops targets boundaries) (fun _ => True)
      Bounded := by
  obtain ⟨hops, rfl⟩ : ∃ k, hops = k + 1 := ⟨hops - 1, by omega⟩
  match targets, h with
  | [], _ => exact yields_pure trivial
  | [i], h => exact absurd rfl (h i)
  | i :: j :: rest, _ =>
    unfold CompiledGraph.normalizeFrontier
    exact yields_seq quiet_assert (yields_pure trivial)

/-- With what is left behind, the hops to come are at least as many as the items. -/
theorem quiet_trail (hg : Placed g) (hr : Acyclic (Hop g)) : ∀ {hops : Nat} {visited : List Nat}
    {i : Nat} {boundaries : List SubgraphBoundary}, Trail (Hop g) visited i →
      (∀ j ∈ visited, j < g.items.length) → g.items.length < hops + visited.length →
      Quiet (g.normalizeFrontier ctx state step hops [i] boundaries) (fun _ => True) Bounded
  | hops, visited, i, boundaries, htrail, hvisited, hbound => by
    cases hi : g.items[i]? with
    | none =>
      cases hops with
      | zero =>
        have hle : visited.length ≤ (List.range g.items.length).length :=
          htrail.distinct.length_le_of_subset fun j hj => List.mem_range.mpr (hvisited j hj)
        rw [List.length_range] at hle
        omega
      | succ hops =>
        unfold CompiledGraph.normalizeFrontier CompiledGraph.itemAt
        rw [hi]
        exact yields_bind (P := fun _ => False) (quiet_panic _) fun _ h => h.elim
    | some item =>
      obtain ⟨hlt, -⟩ := List.getElem?_eq_some_iff.mp hi
      have hrange : ∀ j ∈ i :: visited, j ∈ List.range g.items.length := by
        intro j hj
        rcases List.mem_cons.mp hj with rfl | hj
        · exact List.mem_range.mpr hlt
        · exact List.mem_range.mpr (hvisited j hj)
      have hshort := htrail.length_lt hr hrange
      rw [List.length_range] at hshort
      obtain ⟨hops, rfl⟩ : ∃ k, hops = k + 1 := ⟨hops - 1, by omega⟩
      unfold CompiledGraph.normalizeFrontier
      refine yields_bind (yields_itemAt hi) fun x hx => ?_
      subst hx
      have hexists : ∀ a ∈ x.transition.targets, ∃ item, g.items[a]? = some item := by
        intro a ha
        obtain ⟨item', hitem', -⟩ := hg.target i x a hi ha
        exact ⟨item', hitem'⟩
      -- whatever a structural item resolves to, one more item is left behind
      have hnext : ∀ (targets : List Nat) (boundaries : List SubgraphBoundary),
          (∀ j, targets = [j] → Hop g i j) →
          Quiet (g.normalizeFrontier ctx state step hops targets boundaries) (fun _ => True)
            Bounded := by
        intro targets boundaries hhop
        by_cases hone : ∃ j, targets = [j]
        · obtain ⟨j, rfl⟩ := hone
          refine quiet_trail hg hr (htrail.step hr (hhop j rfl)) ?_ ?_
          · exact fun k hk => List.mem_range.mp (hrange k hk)
          · rw [List.length_cons]
            omega
        · exact quiet_notOne (by omega) (fun j hj => hone ⟨j, hj⟩) boundaries
      have hresolve : ∀ {t : CompiledTransition ρ Nat} {graphPath : GraphPath} {source : NodePath},
          (∀ a ∈ t.targets, ∃ item, g.items[a]? = some item) →
          Quiet (resolveTransition ctx id g.pathAt t state graphPath source step) (t.Resolves id)
            Bounded := by
        intro t graphPath source h
        have hquiet : Quiet (resolveTransition ctx id g.pathAt t state graphPath source step)
            (t.Resolves id) (Fine ⟨True, False, True⟩) := quiet_resolveTransition h
        exact yields_mono hquiet (fun _ h => h) fun _ he => bounded_of_fine id he
      cases x with
      | node n => exact yields_pure trivial
      | enterSubgraph graphPath nested t =>
        refine yields_bind (hresolve hexists) fun ts hts => hnext ts _ fun j hj => ?_
        subst hj
        exact .enter hi hts
      | exitSubgraph graphPath mountPath t =>
        exact yields_bind (hresolve hexists) fun ts hts => hnext _ _ fun j hj => .exit hi hts hj

/-- **Without a cycle, as many hops as there are items are enough.** -/
theorem quiet_hops (hg : Placed g) (hr : Acyclic (Hop g)) {hops : Nat}
    (hhops : g.items.length < hops) (frontier : List Nat) (boundaries : List SubgraphBoundary) :
    Quiet (g.normalizeFrontier ctx state step hops frontier boundaries) (fun _ => True)
      Bounded := by
  by_cases hone : ∃ i, frontier = [i]
  · obtain ⟨i, rfl⟩ := hone
    exact quiet_trail hg hr (.start i) (by simp) (by simpa using hhops)
  · exact quiet_notOne (by omega) (fun i hi => hone ⟨i, hi⟩) boundaries

end Bounded

/-! ## Around a cycle -/

section Endless

variable {g : CompiledGraph ν ρ}

/-- The context of a run without observers. -/
def silent : RunContext where
  runId := ⟨⟨0⟩⟩
  maxSteps := 0
  absoluteStepLimit := 0
  events := ⟨.none, false⟩
  control := ⟨false, none, none⟩
  hops := 0

/-- The machine with other answers in its script. -/
def Script.answering (m : Machine (Script.env ν ρ)) (answers : List (List NodeId)) :
    Machine (Script.env ν ρ) :=
  { m with world := { m.world with answers } }

theorem Script.wp_route {router : ρ} {targetId : NodeId} {rest : List (List NodeId)} {α : Type}
    {f : Except SourceError NodeId → M (Script.env ν ρ) α} {m : Machine (Script.env ν ρ)}
    {Q : α → Machine (Script.env ν ρ) → Prop} {R : Stop → Machine (Script.env ν ρ) → Prop} :
    wp (ask ((Script.env ν ρ).route router ()) >>= f) Q R (Script.answering m ([targetId] :: rest)) ↔
      wp (f (.ok targetId)) Q R (Script.answering m (rest ++ [[targetId]])) := Iff.rfl

theorem Script.wp_fanOutRoute {router : ρ} {selected : List NodeId} {rest : List (List NodeId)}
    {α : Type} {f : Except SourceError (List NodeId) → M (Script.env ν ρ) α}
    {m : Machine (Script.env ν ρ)} {Q : α → Machine (Script.env ν ρ) → Prop}
    {R : Stop → Machine (Script.env ν ρ) → Prop} :
    wp (ask ((Script.env ν ρ).fanOutRoute router ()) >>= f) Q R
        (Script.answering m (selected :: rest)) ↔
      wp (f (.ok selected)) Q R (Script.answering m (rest ++ [selected])) := Iff.rfl

/-- Whatever a transition can resolve to, some answer of the script makes it. -/
theorem resolve_scripted {t : CompiledTransition ρ Nat} {ts : List Nat}
    (h : t.Resolves id ts) (hexists : ∀ a ∈ t.targets, ∃ item, g.items[a]? = some item)
    (graphPath : GraphPath) (source : NodePath) (step : Nat) : ∃ answers, ∀ m rest,
      wp (resolveTransition (E := Script.env ν ρ) silent id g.pathAt t () graphPath source step)
        (fun r m' => r = ts ∧ m' = Script.answering m (rest ++ answers)) (fun _ _ => False)
        (Script.answering m (answers ++ rest)) := by
  have hpath : ∀ (target : Option Nat) (targetId : NodeId),
      (∀ a ∈ target, ∃ item, g.items[a]? = some item) →
      Yields id (CompiledTransition.targetPath g.pathAt graphPath target targetId :
        M (Script.env ν ρ) NodePath) (fun _ => True) fun _ => False :=
    fun target targetId h => yields_targetPath h
  cases h with
  | fixed target => exact ⟨[], fun m rest => ⟨rfl, by rw [List.append_nil]; rfl⟩⟩
  | staticFanOut targets => exact ⟨[], fun m rest => ⟨rfl, by rw [List.append_nil]; rfl⟩⟩
  | @conditional router allowed targetId target hl =>
    refine ⟨[[targetId]], fun m rest => ?_⟩
    have hmem := CompiledTransition.mem_of_lookup hl
    unfold resolveTransition CompiledTransition.resolveInto routersOn
    rw [wp_bind, List.singleton_append, Script.wp_route]
    simp only [hl]
    rw [wp_bind]
    refine wp_mono (hpath target targetId (fun a ha => hexists a ?_) _) ?_ fun _ _ h => h.1
    · exact List.mem_filterMap.mpr ⟨_, hmem, ha⟩
    · rintro path m' ⟨-, rfl⟩
      exact ⟨rfl, rfl⟩
  | @conditionalFanOut router allowed selected resolved hne hs =>
    refine ⟨[selected], fun m rest => ?_⟩
    obtain ⟨first, others, rfl⟩ := List.exists_cons_of_ne_nil hne
    have hpaths : Yields id ((CompiledTransition.endLast id resolved).mapM fun (target, targetId) =>
        (CompiledTransition.targetPath g.pathAt graphPath target targetId :
          M (Script.env ν ρ) NodePath)) (fun _ => True) fun _ => False := by
      refine yields_mono (yields_mapM (P := fun _ _ => True) fun p hp =>
        hpath p.1 p.2 fun a ha => hexists a ?_) (fun _ _ => trivial) fun _ h => h
      have hl := CompiledTransition.selectAll_mem hs p (CompiledTransition.mem_endLast.mp hp)
      exact List.mem_filterMap.mpr ⟨_, CompiledTransition.mem_of_lookup hl, ha⟩
    unfold resolveTransition CompiledTransition.resolveInto routersOn
    rw [wp_bind, List.singleton_append, Script.wp_fanOutRoute]
    simp only [hs]
    rw [wp_bind]
    refine wp_mono (hpaths _) ?_ fun _ _ h => h.1
    rintro paths m' ⟨-, rfl⟩
    exact ⟨rfl, rfl⟩

/-- Normalization from `i` uses up its hops. -/
def Exhausts (g : CompiledGraph ν ρ) (hops i : Nat) (m : Machine (Script.env ν ρ)) : Prop :=
  ∀ boundaries, wp (g.normalizeFrontier silent () 0 hops [i] boundaries) (fun _ _ => False)
    (fun e _ => e = .outOfFuel) m

theorem wp_itemAt {i : Nat} {item : CompiledItem ν ρ Nat} (h : g.items[i]? = some item)
    {m : Machine (Script.env ν ρ)} {Q : CompiledItem ν ρ Nat → Machine (Script.env ν ρ) → Prop}
    {R : Stop → Machine (Script.env ν ρ) → Prop} : wp (g.itemAt i) Q R m ↔ Q item m := by
  unfold CompiledGraph.itemAt
  rw [h, wp_pure]

/-- With these answers next in the script, normalization goes from `i` on to `j`. -/
def Follows (g : CompiledGraph ν ρ) (i j : Nat) (answers : List (List NodeId)) : Prop :=
  ∀ m rest hops, Exhausts g hops j (Script.answering m (rest ++ answers)) →
    Exhausts g (hops + 1) i (Script.answering m (answers ++ rest))

theorem follows_of_hop (hg : Placed g) {i j : Nat} (h : Hop g i j) :
    ∃ answers, Follows g i j answers := by
  have hexists : ∀ {item : CompiledItem ν ρ Nat}, g.items[i]? = some item →
      ∀ a ∈ item.transition.targets, ∃ item, g.items[a]? = some item := by
    intro item hi a ha
    obtain ⟨item', hitem', -⟩ := hg.target i item a hi ha
    exact ⟨item', hitem'⟩
  cases h with
  | @enter graphPath nested t hi ht =>
    obtain ⟨answers, hanswers⟩ := resolve_scripted ht (hexists hi)
      (graphPath.mountPath nested).graphPath (graphPath.mountPath nested) 0
    refine ⟨answers, fun m rest hops hnext boundaries => ?_⟩
    unfold CompiledGraph.normalizeFrontier
    rw [wp_bind, wp_itemAt hi]
    simp only
    rw [wp_bind]
    refine wp_mono (hanswers m rest) ?_ fun _ _ h => h.elim
    rintro ts m' ⟨rfl, rfl⟩
    exact hnext _
  | @exit graphPath mountPath t ts hi ht hj =>
    obtain ⟨answers, hanswers⟩ := resolve_scripted ht (hexists hi) mountPath.graphPath mountPath 0
    refine ⟨answers, fun m rest hops hnext boundaries => ?_⟩
    unfold CompiledGraph.normalizeFrontier
    rw [wp_bind, wp_itemAt hi]
    simp only
    rw [wp_bind]
    refine wp_mono (hanswers m rest) ?_ fun _ _ h => h.elim
    rintro ts m' ⟨rfl, rfl⟩
    simp only [hj]
    exact hnext _

/-- A walk of some hops over structural items, with the answers that make it. -/
inductive Walk (g : CompiledGraph ν ρ) : Nat → Nat → Nat → List (List NodeId) → Prop where
  | done (i : Nat) : Walk g 0 i i []
  | hop {n i j k : Nat} {answers rest : List (List NodeId)} (h : Follows g i j answers)
      (hrest : Walk g n j k rest) : Walk g (n + 1) i k (answers ++ rest)

theorem Walk.snoc {n i j k : Nat} {answers last : List (List NodeId)} (h : Walk g n i j answers)
    (hlast : Follows g j k last) : Walk g (n + 1) i k (answers ++ last) := by
  induction h with
  | done i =>
    have hwalk := Walk.hop hlast (.done k)
    rwa [List.append_nil] at hwalk
  | hop h _ ih =>
    rw [List.append_assoc]
    exact .hop h (ih hlast)

theorem walk_of_hops (hg : Placed g) {i j : Nat} (h : TransGen (Hop g) i j) :
    ∃ n answers, Walk g (n + 1) i j answers := by
  induction h with
  | single hij =>
    obtain ⟨answers, hfollows⟩ := follows_of_hop hg hij
    exact ⟨0, _, (Walk.done i).snoc hfollows⟩
  | tail _ hjk ih =>
    obtain ⟨n, answers, hwalk⟩ := ih
    obtain ⟨last, hfollows⟩ := follows_of_hop hg hjk
    exact ⟨n + 1, _, hwalk.snoc hfollows⟩

/-- On its way around a cycle normalization uses up its hops. The script holds the answers of the way
ahead, and behind them those of the way done. -/
theorem exhausts_of_walk (m : Machine (Script.env ν ρ)) {i : Nat} : ∀ {hops n k j : Nat}
    {ahead done : List (List NodeId)}, Walk g (n + 1) j i ahead → Walk g k i j done →
      Exhausts g hops j (Script.answering m (ahead ++ done))
  | 0, _, _, _, _, _, _, _ => fun _ => rfl
  | hops + 1, n, k, j, _, past, hahead, hdone => by
    obtain _ | @⟨_, _, _, _, answers, rest, h, hrest⟩ := hahead
    rw [List.append_assoc]
    refine h m (rest ++ past) hops ?_
    rw [List.append_assoc]
    have hpast := hdone.snoc h
    cases hrest with
    | done _ =>
      -- the cycle is closed: what lies behind is ahead again
      rw [List.nil_append, ← List.append_nil (past ++ answers)]
      exact exhausts_of_walk m hpast (.done i)
    | hop h' hrest' => exact exhausts_of_walk m (.hop h' hrest') hpast

/-- A cycle is followed forever. -/
theorem not_normalizes (hg : Placed g) {i : Nat} (h : TransGen (Hop g) i i) : ¬ Normalizes g := by
  intro hnormalizes
  obtain ⟨n, answers, hwalk⟩ := walk_of_hops hg h
  obtain ⟨hops, hends⟩ := hnormalizes (Script.env ν ρ) silent () 0 [i]
    (Script.answering ⟨⟨[], none⟩, [], []⟩ (answers ++ []))
  have hexhausts : Exhausts g hops i _ := exhausts_of_walk ⟨⟨[], none⟩, [], []⟩ hwalk (.done i)
  replace hexhausts := hexhausts []
  rw [wp_iff] at hexhausts
  generalize hr : g.normalizeFrontier silent () 0 hops [i] []
    (Script.answering ⟨⟨[], none⟩, [], []⟩ (answers ++ [])) = r at hends
  cases r with
  | ok a m' => exact hexhausts.1 a m' hr
  | error e m' =>
    have he : e = .outOfFuel := hexhausts.2 e m' hr
    exact hends m' (by rw [he])

end Endless

/-! ## Exactly when -/

/-- **Normalization comes to an end exactly when no structural item hops back to itself.** -/
theorem normalizes_iff {g : CompiledGraph ν ρ} (hg : Compiled g) :
    Normalizes g ↔ Acyclic (Hop g) := by
  constructor
  · intro h i hi
    exact not_normalizes (placed hg) hi h
  · intro hr E ctx state step frontier m
    refine ⟨g.items.length + 1, fun m' hm' => ?_⟩
    exact ((quiet_hops (placed hg) hr (Nat.lt_succ_self _) frontier []).of_error hm').1 rfl

/-! ## Mounts of an empty graph -/

/-- A graph that goes straight from `START` to `END`. -/
def straight : StateGraph Unit Unit (CompiledGraph Unit Unit) :=
  StateGraph.new.addEdge NodeId.START NodeId.END

def straightCompiled : CompiledGraph Unit Unit := ⟨[], [], [], none, none⟩

theorem straight_compile : straight.compile = .ok straightCompiled := rfl

/-- Two mounts of it, each followed by the other. -/
def declareRoundabout : Except GraphBuildError (StateGraph Unit Unit (CompiledGraph Unit Unit)) := do
  let sg ← StateGraph.new.addNode ⟨"n"⟩ ()
  let sg ← sg.addSubgraph ⟨"a"⟩ straightCompiled
  let sg ← sg.addSubgraph ⟨"b"⟩ straightCompiled
  let sg ← sg.addConditionalEdges ⟨"n"⟩ [⟨"a"⟩, NodeId.END] ()
  pure (((sg.addEdge NodeId.START ⟨"n"⟩).addEdge ⟨"a"⟩ ⟨"b"⟩).addEdge ⟨"b"⟩ ⟨"a"⟩)

def roundabout : StateGraph Unit Unit (CompiledGraph Unit Unit) :=
  declareRoundabout.toOption.get rfl

def roundaboutCompiled : CompiledGraph Unit Unit where
  items :=
    [.node ⟨.root ⟨"n"⟩, .root, .normal (), .conditional () [(⟨"a"⟩, some 1), (NodeId.END, none)]⟩,
      .enterSubgraph ⟨[⟨"a"⟩]⟩ (List.cons_ne_nil _ _) (.fixed (some 2)),
      .exitSubgraph ⟨[⟨"a"⟩]⟩ (.root ⟨"a"⟩) (.fixed (some 3)),
      .enterSubgraph ⟨[⟨"b"⟩]⟩ (List.cons_ne_nil _ _) (.fixed (some 4)),
      .exitSubgraph ⟨[⟨"b"⟩]⟩ (.root ⟨"b"⟩) (.fixed (some 1))]
  nodePaths := [(.root ⟨"n"⟩, 0)]
  scopeExits := [(⟨[⟨"b"⟩]⟩, 4), (⟨[⟨"a"⟩]⟩, 2)]
  entryIndex := some 0
  version := none

theorem roundabout_compile : roundabout.compile = .ok roundaboutCompiled := by rfl

theorem compiled_straight : Compiled straightCompiled :=
  .mk straight _ (by intro _ _ h; cases h) straight_compile

theorem compiled_roundabout : Compiled roundaboutCompiled := by
  refine .mk roundabout _ (fun itemId child h => ?_) roundabout_compile
  have hitems : roundabout.items = [(⟨"n"⟩, .node (.normal ())), (⟨"a"⟩, .subgraph straightCompiled),
      (⟨"b"⟩, .subgraph straightCompiled)] := rfl
  rw [hitems] at h
  simp only [List.mem_cons, Prod.mk.injEq, reduceCtorEq, and_false, DeclaredItem.subgraph.injEq,
    List.not_mem_nil, or_false, false_or] at h
  rcases h with ⟨-, rfl⟩ | ⟨-, rfl⟩ <;> exact compiled_straight

/-- From one mount to the other and back. -/
theorem roundabout_cycle : TransGen (Hop roundaboutCompiled) 1 1 := by
  have h12 : Hop roundaboutCompiled 1 2 := .enter rfl (.fixed (some 2))
  have h23 : Hop roundaboutCompiled 2 3 := .exit rfl (.fixed (some 3)) rfl
  have h34 : Hop roundaboutCompiled 3 4 := .enter rfl (.fixed (some 4))
  have h41 : Hop roundaboutCompiled 4 1 := .exit rfl (.fixed (some 1)) rfl
  exact .tail (.tail (.tail (.single h12) h23) h34) h41

/-- The graph compiles, and its normalization can go on forever. -/
theorem roundabout_endless : Compiled roundaboutCompiled ∧ ¬ Normalizes roundaboutCompiled :=
  ⟨compiled_roundabout, not_normalizes (placed compiled_roundabout) roundabout_cycle⟩

end GroupAgent.Core
