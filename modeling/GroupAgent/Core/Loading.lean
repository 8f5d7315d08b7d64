import GroupAgent.Core.Advance

/-!
# Which frontiers can be loaded

`validate_and_resolve_checkpoint_frontier` (`runtime.rs:1736-1822` of
`crates/group-agent-core/src`) turns the paths of a checkpoint into indices. This file says which
checkpoints it accepts and what it returns, in both directions.

* The source compares the versions, the completion flag and the interrupt with the frontier, looks
  every path up in `node_paths`, and then finds repetitions, mixed namespaces and neighbours out of
  order. Each check has its own `CheckpointIncompatibility`.
* `Continuable`: what makes a checkpoint of a graph one to continue from, with no word about
  indices.

Results:
* **`validate_iff`**: it accepts the paths of a strictly increasing list of real nodes of one
  namespace, and nothing else, and returns that list.
* `validate_noPanic`: no index it looks at is out of range or structural.
* **`validation_exact`** says the same of the paths of a checkpoint.

Out of scope: whether the accepted nodes may run together. Validation does not ask, and `Frontiers`
says what follows.
-/

namespace GroupAgent.Core

open GroupAgent.Lib

variable {ν ρ τ π : Type} {g : CompiledGraph ν ρ}

/-! ## Paths and indices -/

/-- A path names the node that stands at its index. -/
theorem lookup_path (hg : PathsIndexed (g.items.map some) g.nodePaths) {path : NodePath} {i : Nat} :
    g.nodePaths.lookup path = some i ↔ ∃ n, g.items[i]? = some (.node n) ∧ n.path = path := by
  have hmem : (path, i) ∈ g.nodePaths ↔ ∃ n, g.items[i]? = some (.node n) ∧ n.path = path := by
    rw [hg.mem_iff]
    simp [List.getElem?_map]
  rw [← hmem]
  constructor
  · exact CompiledTransition.mem_of_lookup
  · intro h
    cases hl : g.nodePaths.lookup path with
    | none =>
      have := List.lookup_eq_none_iff.mp hl _ h
      simp at this
    | some j =>
      have hj := CompiledTransition.mem_of_lookup hl
      have hinj := List.inj_on_of_nodup_map hg.paths_nodup hj h rfl
      cases hinj
      rfl

/-- The leaf of a real node's path is never reserved. -/
def Unreserved (g : CompiledGraph ν ρ) : Prop :=
  ∀ (i : Nat) n, g.items[i]? = some (.node n) → n.path.leaf.isReserved = false

theorem unreserved {g : CompiledGraph ν ρ} (h : Compiled g) : Unreserved g := by
  induction h with
  | mk sg g _ hcompile ih =>
    have hf := flattened hcompile
    intro i n hi
    generalize hx : CompiledItem.node n = x at hi
    cases hf.stands hi with
    | @node itemId kind hmem =>
      cases hx
      exact sg.items_unreserved itemId (List.mem_map.mpr ⟨_, hmem, rfl⟩)
    | enter hmem => cases hx
    | exit hmem => cases hx
    | @inner itemId child hmem j item hj =>
      cases item with
      | node n' =>
        cases hx
        exact ih itemId child hmem j n' hj
      | enterSubgraph graphPath nested t => cases hx
      | exitSubgraph graphPath mountPath t => cases hx

/-- Two lists of indices with the same paths are the same. -/
theorem PathsOf.inj (hg : PathsIndexed (g.items.map some) g.nodePaths) : ∀ {l l' : List Nat}
    {paths : List NodePath}, PathsOf g l paths → PathsOf g l' paths → l = l'
  | _, _, _, .nil, .nil => rfl
  | _, _, _, .cons h hrest, .cons h' hrest' => by
    have hi := (lookup_path hg).mpr h
    rw [(lookup_path hg).mpr h'] at hi
    cases hi
    rw [PathsOf.inj hg hrest hrest']

/-! ## The passes -/

theorem resolvePath_ok (hg : PathsIndexed (g.items.map some) g.nodePaths) {path : NodePath} {i : Nat}
    (h : g.resolvePath path = .ok i) : ∃ n, g.items[i]? = some (.node n) ∧ n.path = path := by
  unfold CompiledGraph.resolvePath at h
  split at h
  · cases h
  split at h
  · cases h
  split at h
  · rename_i hl
    cases h
    exact (lookup_path hg).mp hl
  · cases h

theorem resolvePath_of_node (hg : PathsIndexed (g.items.map some) g.nodePaths)
    (hu : Unreserved g) {path : NodePath} {i : Nat}
    (h : ∃ n, g.items[i]? = some (.node n) ∧ n.path = path) : g.resolvePath path = .ok i := by
  obtain ⟨n, hn, rfl⟩ := h
  have hreserved := hu i n hn
  unfold NodeId.isReserved at hreserved
  rw [Bool.or_eq_false_iff] at hreserved
  unfold CompiledGraph.resolvePath
  rw [if_neg (by simp [hreserved.1]), if_neg (by simp [hreserved.2]),
    (lookup_path hg).mpr ⟨n, hn, rfl⟩]

theorem node'_of_node {i : Nat} {n : CompiledNode ν ρ Nat} (h : g.items[i]? = some (.node n)) :
    g.node' i = .ok n := by
  unfold CompiledGraph.node' CompiledGraph.node
  rw [h]
  rfl

/-- A check on real nodes returns or finds an incompatibility. -/
def NoPanic {α : Type} (r : Except FrontierStop α) : Prop := ∀ p, r ≠ .error (.panic p)

theorem noPanic_ok {α : Type} (a : α) : NoPanic (.ok a : Except FrontierStop α) := by simp [NoPanic]

theorem noPanic_incompatible {α : Type} (reason : CheckpointIncompatibility) :
    NoPanic (.error (.incompatible reason) : Except FrontierStop α) := by simp [NoPanic]

theorem noPanic_mapError {α : Type} (r : Except CheckpointIncompatibility α) :
    NoPanic (r.mapError .incompatible) := by
  cases r with
  | error reason => exact noPanic_incompatible reason
  | ok a => exact noPanic_ok a

theorem noPanic_bind {α β : Type} {r : Except FrontierStop α} {f : α → Except FrontierStop β}
    (hr : NoPanic r) (hf : ∀ a, r = .ok a → NoPanic (f a)) : NoPanic (r >>= f) := by
  cases r with
  | error e =>
    intro p h
    cases h
    exact hr p rfl
  | ok a => exact hf a rfl

theorem checkDistinct_spec : ∀ {frontier : List Nat} (seen : List Nat),
    (∀ i ∈ frontier, ∃ n, g.items[i]? = some (.node n)) →
      NoPanic (g.checkDistinct seen frontier) ∧
        (g.checkDistinct seen frontier = .ok () ↔ frontier.Nodup ∧ ∀ i ∈ frontier, i ∉ seen)
  | [], seen, _ => ⟨noPanic_ok (), by simp [CompiledGraph.checkDistinct]⟩
  | index :: frontier, seen, h => by
    unfold CompiledGraph.checkDistinct
    by_cases hs : index ∈ seen
    · obtain ⟨n, hn⟩ := h index List.mem_cons_self
      rw [if_pos hs, node'_of_node hn]
      refine ⟨noPanic_incompatible _, ?_⟩
      constructor
      · intro he
        cases he
      · rintro ⟨-, hall⟩
        exact absurd hs (hall index List.mem_cons_self)
    · rw [if_neg hs]
      obtain ⟨hp, hok⟩ := checkDistinct_spec (index :: seen) fun i hi => h i (List.mem_cons_of_mem index hi)
      refine ⟨hp, hok.trans ?_⟩
      rw [List.nodup_cons]
      constructor
      · rintro ⟨hn, hall⟩
        refine ⟨⟨fun hi => hall index hi List.mem_cons_self, hn⟩, fun i hi => ?_⟩
        rcases List.mem_cons.mp hi with rfl | hi
        · exact hs
        · exact fun his => hall i hi (List.mem_cons_of_mem index his)
      · rintro ⟨⟨hnew, hn⟩, hall⟩
        refine ⟨hn, fun i hi his => ?_⟩
        rcases List.mem_cons.mp his with rfl | his
        · exact hnew hi
        · exact hall i (List.mem_cons_of_mem index hi) his

theorem checkNamespace_spec (expected : GraphPath) : ∀ {frontier : List Nat},
    (∀ i ∈ frontier, ∃ n, g.items[i]? = some (.node n)) →
      NoPanic (g.checkNamespace expected frontier) ∧
        (g.checkNamespace expected frontier = .ok () ↔
          ∀ i ∈ frontier, ∃ n, g.items[i]? = some (.node n) ∧ n.graphPath = expected)
  | [], _ => ⟨noPanic_ok (), by simp [CompiledGraph.checkNamespace]⟩
  | index :: frontier, h => by
    unfold CompiledGraph.checkNamespace
    obtain ⟨n, hn⟩ := h index List.mem_cons_self
    rw [node'_of_node hn, List.forall_mem_cons]
    obtain ⟨hp, hok⟩ := checkNamespace_spec expected
      fun i hi => h i (List.mem_cons_of_mem index hi)
    by_cases hns : n.graphPath = expected
    · simp only [bind, Except.bind, hns, ne_eq, not_true_eq_false, if_false]
      exact ⟨hp, hok.trans ⟨fun hall => ⟨⟨n, hn, hns⟩, hall⟩, And.right⟩⟩
    · simp only [bind, Except.bind, hns, ne_eq, not_false_eq_true, if_true]
      refine ⟨noPanic_incompatible _, ?_⟩
      constructor
      · intro he
        cases he
      · rintro ⟨⟨n', hn', hns'⟩, -⟩
        rw [hn] at hn'
        cases hn'
        exact absurd hns' hns

theorem checkOrder_spec : ∀ {frontier : List Nat},
    (∀ i ∈ frontier, ∃ n, g.items[i]? = some (.node n)) →
      NoPanic (g.checkOrder frontier) ∧
        (g.checkOrder frontier = .ok () ↔ frontier.Pairwise (· ≤ ·))
  | [], _ => ⟨noPanic_ok (), by simp [CompiledGraph.checkOrder]⟩
  | [index], _ => ⟨noPanic_ok (), by simp [CompiledGraph.checkOrder]⟩
  | previous :: current :: frontier, h => by
    unfold CompiledGraph.checkOrder
    obtain ⟨n, hn⟩ := h previous List.mem_cons_self
    obtain ⟨n', hn'⟩ := h current (List.mem_cons_of_mem previous List.mem_cons_self)
    obtain ⟨hp, hok⟩ := checkOrder_spec
      fun i hi => h i (List.mem_cons_of_mem previous hi)
    by_cases hlt : current < previous
    · rw [if_pos hlt, node'_of_node hn, node'_of_node hn']
      refine ⟨noPanic_incompatible _, ?_⟩
      constructor
      · intro he
        cases he
      · intro hall
        have := (List.pairwise_cons.mp hall).1 current List.mem_cons_self
        omega
    · rw [if_neg hlt]
      refine ⟨hp, hok.trans ?_⟩
      constructor
      · intro hall
        refine List.pairwise_cons.mpr ⟨fun i hi => ?_, hall⟩
        rcases List.mem_cons.mp hi with rfl | hi
        · omega
        · have := (List.pairwise_cons.mp hall).1 i hi
          omega
      · exact fun hall => (List.pairwise_cons.mp hall).2

/-! ## The whole validation -/

/-- The indices a checkpoint's frontier stands for: the nodes its paths name, strictly increasing and
in one namespace, with version and completion in order. -/
structure Resolved (g : CompiledGraph ν ρ) (checkpoint : Checkpoint τ π) (frontier : List Nat) :
    Prop where
  version : g.checkVersion checkpoint = .ok ()
  completion : CompiledGraph.checkCompletion checkpoint = .ok ()
  paths : PathsOf g frontier checkpoint.nextFrontier
  strict : StrictlyBy id frontier
  scope : ∃ graphPath, ∀ i ∈ frontier, ∃ n, g.items[i]? = some (.node n) ∧ n.graphPath = graphPath

theorem PathsOf.node {l : List Nat} {paths : List NodePath} (h : PathsOf g l paths) :
    ∀ i ∈ l, ∃ n, g.items[i]? = some (.node n) := by
  induction h with
  | nil => simp
  | cons hi _ ih =>
    intro i hmem
    rcases List.mem_cons.mp hmem with rfl | hmem
    · obtain ⟨n, hn, -⟩ := hi
      exact ⟨n, hn⟩
    · exact ih i hmem

theorem resolvePaths_iff (hg : PathsIndexed (g.items.map some) g.nodePaths) (hu : Unreserved g)
    {paths : List NodePath} {l : List Nat} : paths.mapM g.resolvePath = .ok l ↔ PathsOf g l paths := by
  rw [mapM_eq_ok]
  constructor
  · intro h
    exact (h.imp fun _ _ hp => resolvePath_ok hg hp).flip
  · intro h
    exact h.flip.imp fun _ _ hp => resolvePath_of_node hg hu hp

theorem checkScope_spec {frontier : List Nat}
    (h : ∀ i ∈ frontier, ∃ n, g.items[i]? = some (.node n)) :
    NoPanic (g.checkScope frontier) ∧ (g.checkScope frontier = .ok () ↔
      ∃ graphPath, ∀ i ∈ frontier, ∃ n, g.items[i]? = some (.node n) ∧ n.graphPath = graphPath) := by
  cases frontier with
  | nil => exact ⟨noPanic_ok (), ⟨fun _ => ⟨GraphPath.root, by simp⟩, fun _ => rfl⟩⟩
  | cons first rest =>
    obtain ⟨n, hn⟩ := h first List.mem_cons_self
    simp only [CompiledGraph.checkScope, node'_of_node hn]
    obtain ⟨hp, hok⟩ := checkNamespace_spec (g := g) n.graphPath
      fun i hi => h i (List.mem_cons_of_mem first hi)
    refine ⟨hp, hok.trans ?_⟩
    constructor
    · intro hall
      refine ⟨n.graphPath, fun i hi => ?_⟩
      rcases List.mem_cons.mp hi with rfl | hi
      · exact ⟨n, hn, rfl⟩
      · exact hall i hi
    · rintro ⟨graphPath, hall⟩ i hi
      obtain ⟨n', hn', rfl⟩ := hall first List.mem_cons_self
      rw [hn] at hn'
      cases hn'
      exact hall i (List.mem_cons_of_mem first hi)

theorem strict_iff {l : List Nat} : StrictlyBy id l ↔ l.Nodup ∧ l.Pairwise (· ≤ ·) := by
  constructor
  · intro h
    exact ⟨h.nodup, h.imp Nat.le_of_lt⟩
  · rintro ⟨hn, hs⟩
    refine (hn.and hs).imp ?_
    rintro a b ⟨hne, hle⟩
    exact Nat.lt_of_le_of_ne hle hne

/-- **Validation accepts exactly the frontiers of real nodes.** -/
theorem validate_iff (hg : PathsIndexed (g.items.map some) g.nodePaths) (hu : Unreserved g)
    {checkpoint : Checkpoint τ π} {frontier : List Nat} :
    g.validateAndResolveCheckpointFrontier checkpoint = .ok frontier ↔
      Resolved g checkpoint frontier := by
  unfold CompiledGraph.validateAndResolveCheckpointFrontier
  constructor
  · intro h
    obtain ⟨_, hversion, h⟩ := bind_eq_ok.mp h
    obtain ⟨_, hcompletion, h⟩ := bind_eq_ok.mp h
    obtain ⟨l, hpaths, h⟩ := bind_eq_ok.mp h
    obtain ⟨_, hdistinct, h⟩ := bind_eq_ok.mp h
    obtain ⟨_, hscope, h⟩ := bind_eq_ok.mp h
    obtain ⟨_, horder, h⟩ := bind_eq_ok.mp h
    cases h
    have hpaths' := (resolvePaths_iff hg hu).mp (mapError_eq_ok.mp hpaths)
    refine ⟨mapError_eq_ok.mp hversion, mapError_eq_ok.mp hcompletion, hpaths', ?_, ?_⟩
    · exact strict_iff.mpr ⟨((checkDistinct_spec [] hpaths'.node).2.mp hdistinct).1,
        (checkOrder_spec hpaths'.node).2.mp horder⟩
    · exact (checkScope_spec hpaths'.node).2.mp hscope
  · intro h
    have hnodes := h.paths.node
    obtain ⟨hn, hs⟩ := strict_iff.mp h.strict
    refine bind_eq_ok.mpr ⟨(), mapError_eq_ok.mpr h.version, ?_⟩
    refine bind_eq_ok.mpr ⟨(), mapError_eq_ok.mpr h.completion, ?_⟩
    refine bind_eq_ok.mpr ⟨frontier, mapError_eq_ok.mpr ((resolvePaths_iff hg hu).mpr h.paths), ?_⟩
    refine bind_eq_ok.mpr ⟨(), (checkDistinct_spec [] hnodes).2.mpr ⟨hn, by simp⟩, ?_⟩
    refine bind_eq_ok.mpr ⟨(), (checkScope_spec hnodes).2.mpr h.scope, ?_⟩
    exact bind_eq_ok.mpr ⟨(), (checkOrder_spec hnodes).2.mpr hs, rfl⟩

/-- Validation never looks at an index that is no real node. -/
theorem validate_noPanic (hg : PathsIndexed (g.items.map some) g.nodePaths) (hu : Unreserved g)
    (checkpoint : Checkpoint τ π) : NoPanic (g.validateAndResolveCheckpointFrontier checkpoint) := by
  unfold CompiledGraph.validateAndResolveCheckpointFrontier
  refine noPanic_bind (noPanic_mapError _) fun _ _ => ?_
  refine noPanic_bind (noPanic_mapError _) fun _ _ => ?_
  refine noPanic_bind (noPanic_mapError _) fun frontier hpaths => ?_
  have hnodes := ((resolvePaths_iff hg hu).mp (mapError_eq_ok.mp hpaths)).node
  refine noPanic_bind (checkDistinct_spec [] hnodes).1 fun _ _ => ?_
  refine noPanic_bind (checkScope_spec hnodes).1 fun _ _ => ?_
  exact noPanic_bind (checkOrder_spec hnodes).1 fun _ _ => noPanic_ok frontier

/-! ## Exactness -/

/-- The real node at an index has the path. -/
def CompiledGraph.Names (g : CompiledGraph ν ρ) (index : Nat) (path : NodePath) : Prop :=
  ∃ n, g.items[index]? = some (.node n) ∧ n.path = path

/-- A graph can continue from a checkpoint: what validation asks, said of the paths themselves. -/
structure Continuable (g : CompiledGraph ν ρ) (checkpoint : Checkpoint τ π) : Prop where
  version : ∃ version, checkpoint.graphVersion = some version ∧ g.version = some version
  completion : checkpoint.completed = true ↔ checkpoint.nextFrontier = []
  interrupt : ∀ interrupt ∈ checkpoint.interrupt, checkpoint.nextFrontier = [interrupt.nodePath]
  real : ∀ path ∈ checkpoint.nextFrontier, ∃ index, g.Names index path
  distinct : checkpoint.nextFrontier.Nodup
  scope : ∃ graphPath, ∀ path ∈ checkpoint.nextFrontier, ∀ (index : Nat) n,
    g.items[index]? = some (.node n) → n.path = path → n.graphPath = graphPath
  canonical : checkpoint.nextFrontier.Pairwise fun path path' =>
    ∀ index index', g.Names index path → g.Names index' path' → index ≤ index'

theorem checkVersion_iff {checkpoint : Checkpoint τ π} : g.checkVersion checkpoint = .ok () ↔
    ∃ version, checkpoint.graphVersion = some version ∧ g.version = some version := by
  unfold CompiledGraph.checkVersion
  cases checkpoint.graphVersion with
  | none => simp
  | some version =>
    cases g.version with
    | none => simp
    | some compiled =>
      by_cases h : version = compiled
      · simp [h]
      · simp [h, Ne.symm h]

theorem checkCompletion_iff {checkpoint : Checkpoint τ π} :
    CompiledGraph.checkCompletion checkpoint = .ok () ↔
      (checkpoint.completed = true ↔ checkpoint.nextFrontier = []) ∧
        ∀ interrupt ∈ checkpoint.interrupt, checkpoint.nextFrontier = [interrupt.nodePath] := by
  unfold CompiledGraph.checkCompletion Checkpoint.interrupted
  cases checkpoint.interrupt with
  | none => cases checkpoint.completed <;> cases checkpoint.nextFrontier <;> simp
  | some interrupt =>
    rcases checkpoint.nextFrontier with _ | ⟨path, _ | ⟨path', rest⟩⟩ <;>
      cases checkpoint.completed <;> simp

/-- The frontier of an interrupted checkpoint is its suspended node. -/
theorem Resolved.suspended {checkpoint : Checkpoint τ π} {frontier : List Nat}
    (h : Resolved g checkpoint frontier) {interrupt : CheckpointInterrupt π}
    (hi : checkpoint.interrupt = some interrupt) :
    ∃ i n, frontier = [i] ∧ g.items[i]? = some (.node n) ∧ n.path = interrupt.nodePath := by
  have hpaths := h.paths
  rw [(checkCompletion_iff.mp h.completion).2 interrupt hi] at hpaths
  cases hpaths with
  | cons hnode hrest =>
    cases hrest
    obtain ⟨n, hn, hpath⟩ := hnode
    exact ⟨_, n, rfl, hn, hpath⟩

theorem CompiledGraph.Names.index_unique (hg : PathsIndexed (g.items.map some) g.nodePaths)
    {index index' : Nat} {path : NodePath} (h : g.Names index path) (h' : g.Names index' path) :
    index = index' := by
  have hlookup := (lookup_path hg).mpr h
  rw [(lookup_path hg).mpr h'] at hlookup
  exact (Option.some.inj hlookup).symm

theorem CompiledGraph.Names.path_unique {index : Nat} {path path' : NodePath}
    (h : g.Names index path) (h' : g.Names index path') : path = path' := by
  obtain ⟨n, hn, rfl⟩ := h
  obtain ⟨n', hn', rfl⟩ := h'
  rw [hn] at hn'
  cases hn'
  rfl

/-- The indices of distinct paths in canonical order are strictly increasing. -/
theorem PathsOf.strict_iff (hg : PathsIndexed (g.items.map some) g.nodePaths) {l : List Nat}
    {paths : List NodePath} (h : PathsOf g l paths) : StrictlyBy id l ↔
      paths.Nodup ∧ paths.Pairwise fun path path' =>
        ∀ index index', g.Names index path → g.Names index' path' → index ≤ index' := by
  rw [GroupAgent.Core.strict_iff]
  refine and_congr (pairwise_iff_of_related h ?_) (pairwise_iff_of_related h ?_)
  · intro i path j path' hi hj
    refine not_congr ⟨?_, ?_⟩
    · rintro rfl
      exact CompiledGraph.Names.path_unique hi hj
    · rintro rfl
      exact CompiledGraph.Names.index_unique hg hi hj
  · intro i path j path' hi hj
    constructor
    · intro hle index index' hindex hindex'
      rwa [hindex.index_unique hg hi, hindex'.index_unique hg hj]
    · exact fun hall => hall i j hi hj

theorem PathsOf.exists_iff {paths : List NodePath} :
    (∃ l, PathsOf g l paths) ↔ ∀ path ∈ paths, ∃ index, g.Names index path := by
  induction paths with
  | nil => exact ⟨fun _ => nofun, fun _ => ⟨[], .nil⟩⟩
  | cons path paths ih =>
    rw [List.forall_mem_cons, ← ih]
    constructor
    · rintro ⟨_, _ | ⟨hindex, hrest⟩⟩
      exact ⟨⟨_, hindex⟩, _, hrest⟩
    · rintro ⟨⟨index, hindex⟩, l, hrest⟩
      exact ⟨index :: l, .cons hindex hrest⟩

/-- One namespace, said of indices and said of paths. -/
theorem PathsOf.scope_iff {l : List Nat} {paths : List NodePath} (h : PathsOf g l paths)
    {graphPath : GraphPath} (hg : PathsIndexed (g.items.map some) g.nodePaths) :
    (∀ i ∈ l, ∃ n, g.items[i]? = some (.node n) ∧ n.graphPath = graphPath) ↔
      ∀ path ∈ paths, ∀ (index : Nat) n, g.items[index]? = some (.node n) → n.path = path →
        n.graphPath = graphPath := by
  refine forall_mem_iff_of_related h fun i path hi => ?_
  constructor
  · rintro ⟨n, hn, hscope⟩ index n' hn' rfl
    have hindex : index = i := CompiledGraph.Names.index_unique hg ⟨n', hn', rfl⟩ hi
    subst hindex
    rw [hn] at hn'
    cases hn'
    exact hscope
  · intro hall
    obtain ⟨n, hn, hpath⟩ := hi
    exact ⟨n, hn, hall i n hn hpath⟩

theorem resolved_iff (hg : PathsIndexed (g.items.map some) g.nodePaths)
    {checkpoint : Checkpoint τ π} {frontier : List Nat} : Resolved g checkpoint frontier ↔
      Continuable g checkpoint ∧ PathsOf g frontier checkpoint.nextFrontier := by
  constructor
  · intro h
    obtain ⟨hcompletion, hinterrupt⟩ := checkCompletion_iff.mp h.completion
    obtain ⟨hdistinct, hcanonical⟩ := (h.paths.strict_iff hg).mp h.strict
    obtain ⟨graphPath, hscope⟩ := h.scope
    exact ⟨⟨checkVersion_iff.mp h.version, hcompletion, hinterrupt,
      PathsOf.exists_iff.mp ⟨frontier, h.paths⟩, hdistinct,
      ⟨graphPath, (h.paths.scope_iff hg).mp hscope⟩, hcanonical⟩, h.paths⟩
  · rintro ⟨h, hpaths⟩
    obtain ⟨graphPath, hscope⟩ := h.scope
    exact ⟨checkVersion_iff.mpr h.version, checkCompletion_iff.mpr ⟨h.completion, h.interrupt⟩,
      hpaths, (hpaths.strict_iff hg).mpr ⟨h.distinct, h.canonical⟩,
      ⟨graphPath, (hpaths.scope_iff hg).mpr hscope⟩⟩

/-- **Validation is exact.** It accepts the checkpoints the graph can continue from and no others,
returns the indices of the paths in order, and never panics. -/
theorem validation_exact (hg : Compiled g) (checkpoint : Checkpoint τ π) :
    ((∃ frontier, g.validateAndResolveCheckpointFrontier checkpoint = .ok frontier) ↔
      Continuable g checkpoint) ∧
    (∀ frontier, g.validateAndResolveCheckpointFrontier checkpoint = .ok frontier →
      List.Forall₂ g.Names frontier checkpoint.nextFrontier) ∧
    ∀ panic, g.validateAndResolveCheckpointFrontier checkpoint ≠ .error (.panic panic) := by
  have hvalidate : ∀ frontier, g.validateAndResolveCheckpointFrontier checkpoint = .ok frontier ↔
      Continuable g checkpoint ∧ PathsOf g frontier checkpoint.nextFrontier := fun frontier =>
    (validate_iff hg.indexed (unreserved hg)).trans (resolved_iff hg.indexed)
  refine ⟨⟨?_, ?_⟩, ?_, validate_noPanic hg.indexed (unreserved hg) checkpoint⟩
  · rintro ⟨frontier, h⟩
    exact ((hvalidate frontier).mp h).1
  · intro h
    obtain ⟨frontier, hpaths⟩ := PathsOf.exists_iff.mpr h.real
    exact ⟨frontier, (hvalidate frontier).mpr ⟨h, hpaths⟩⟩
  · exact fun frontier h => ((hvalidate frontier).mp h).2


end GroupAgent.Core
