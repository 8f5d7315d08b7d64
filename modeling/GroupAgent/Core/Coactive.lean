import GroupAgent.Core.Placement
import Mathlib.Data.List.ProdSigma

/-!
# What may run together

`validate_subgraph_frontiers` (`graph.rs:689-766`) refuses a graph when a subgraph mount could
stand in a frontier with another item. It explores pairs of items, from the pairs a fan-out starts
to the pairs their transitions lead to (`transition_alternatives`, 768-815). This file says what
the accepted graph satisfies.

* `PairsClosed sg R`: a relation between declared items that holds of the pairs every fan-out
  starts, is closed under following two transitions, and relates real nodes only.
  **`exists_pairsClosed`** reads one off the worklist of every graph `compile` accepts.
* `Together g seed`: the pairs of items of the flattened graph that a frontier can hold, starting
  with the pairs of `seed`.

Results:
* **`together_nodes`** carries the first result through mounting: with an empty seed, the pairs
  that run together are pairs of real nodes.

The check is about pairs that a fan-out of this graph starts. A frontier that is loaded from a
store may hold a pair that no fan-out starts, which is what `seed` is for; for such a pair nothing
is claimed here.
-/

namespace GroupAgent.Core

open GroupAgent.Lib

variable {ν ρ : Type}

/-- A transition that can select several targets. -/
def CompiledTransition.isFanOut {ι : Type} : CompiledTransition ρ ι → Bool
  | .fixed _ => false
  | .staticFanOut _ => true
  | .conditional _ _ => false
  | .conditionalFanOut _ _ => true

@[simp] theorem CompiledTransition.isFanOut_map {ι κ : Type} (f : ι → κ)
    (t : CompiledTransition ρ ι) : (t.map f).isFanOut = t.isFanOut := by
  cases t <;> rfl

@[simp] theorem CompiledTransition.isFanOut_ordered {ι : Type} (key : ι → Nat)
    (t : CompiledTransition ρ ι) : (t.ordered key).isFanOut = t.isFanOut := by
  cases t <;> rfl

/-! ## What validation checked -/

theorem validate_of_compile {sg : StateGraph ν ρ (CompiledGraph ν ρ)} {g : CompiledGraph ν ρ}
    (h : sg.compile = .ok g) : sg.validate = .ok () := by
  obtain ⟨_, hv, -⟩ := bind_eq_ok.mp h
  exact mapError_eq_ok.mp hv

namespace StateGraph

variable {μ : Type} {sg : StateGraph ν ρ μ}

theorem mem_itemIds_of_containsKey {id : NodeId} (h : sg.containsKey id = true) :
    id ∈ sg.itemIds := by
  obtain ⟨item, hmem⟩ := containsKey_iff.mp h
  exact List.mem_map.mpr ⟨_, hmem, rfl⟩

theorem not_end_of_mem {id : NodeId} (h : id ∈ sg.itemIds) : id.isEnd = false := by
  obtain ⟨item, hmem, rfl⟩ := List.mem_map.mp h
  rw [← Bool.not_eq_true, NodeId.isEnd_iff]
  exact ne_END_of_mem hmem

theorem namedTarget_eq_some {target id : NodeId} :
    namedTarget target = some id ↔ target = id ∧ target.isEnd = false := by
  unfold namedTarget
  cases h : target.isEnd <;> simp

/-- The four passes of `validate`. -/
structure Validated (sg : StateGraph ν ρ μ) : Prop where
  edges : sg.aggregateEdges = .ok ()
  shapes : sg.validateEdgeShapes = .ok ()
  reachability : sg.validateReachability = .ok ()
  frontiers : sg.validateSubgraphFrontiers = .ok ()

theorem validated (h : sg.validate = .ok ()) : sg.Validated := by
  obtain ⟨_, h₁, h⟩ := bind_eq_ok.mp h
  obtain ⟨_, h₂, h⟩ := bind_eq_ok.mp h
  obtain ⟨_, h₃, h₄⟩ := bind_eq_ok.mp h
  exact ⟨h₁, h₂, h₃, h₄⟩

section Edges

variable {ρ' : Type}

theorem source_of_checkTargetEdge {check : TargetEdgeCheck}
    {checkTarget : NodeId → NodeId → Except GraphCompileError Unit} {e : TargetEdge ρ'}
    (h : sg.checkTargetEdge check checkTarget e = .ok ()) :
    e.source ∈ sg.itemIds ∧ ∀ target ∈ e.targets, checkTarget e.source target = .ok () := by
  unfold checkTargetEdge at h
  split at h
  · cases h
  split at h
  · cases h
  split at h
  · cases h
  rename_i hkey
  refine ⟨mem_itemIds_of_containsKey (by simpa using hkey), fun target ht => ?_⟩
  exact forM_eq_ok.mp h target ht

/-- An accepted target is `END` or registered. -/
theorem known_of_checkTarget {unknown : NodeId → NodeId → GraphCompileError}
    {source target : NodeId} (h : sg.checkTarget unknown source target = .ok ())
    (hend : target.isEnd = false) : target ∈ sg.itemIds := by
  unfold checkTarget at h
  split at h
  · cases h
  split at h
  · cases h
  rename_i hkey
  refine mem_itemIds_of_containsKey ?_
  simpa [hend] using hkey

theorem known_of_checkConditionalFanOutTarget {source target : NodeId}
    (h : sg.checkConditionalFanOutTarget source target = .ok ()) (hend : target.isEnd = false) :
    ∃ kind, (target, .node kind) ∈ sg.items := by
  unfold checkConditionalFanOutTarget at h
  split at h
  · cases h
  split at h
  · rename_i he
    rw [hend] at he
    cases he
  cases hi : sg.item? target with
  | none => rw [hi] at h; cases h
  | some item =>
    rw [hi] at h
    cases item with
    | node kind => exact ⟨kind, item?_eq_some.mp hi⟩
    | subgraph graph => simp [DeclaredItem.isSubgraph] at h

end Edges

/-- What the edge checks leave. -/
structure EdgesKnown (sg : StateGraph ν ρ μ) : Prop where
  fanOut : ∀ e ∈ sg.fanOutEdges.edges, ∀ target ∈ e.targets, target.isEnd = false →
    target ∈ sg.itemIds
  conditional : ∀ e ∈ sg.conditionalEdges.edges, ∀ target ∈ e.targets, target.isEnd = false →
    target ∈ sg.itemIds
  conditionalFanOut : ∀ e ∈ sg.conditionalFanOutEdges.edges, ∀ target ∈ e.targets,
    target.isEnd = false → ∃ kind, (target, .node kind) ∈ sg.items

theorem edgesKnown (h : sg.aggregateEdges = .ok ()) : sg.EdgesKnown := by
  obtain ⟨_, -, h⟩ := bind_eq_ok.mp h
  obtain ⟨_, hc, h⟩ := bind_eq_ok.mp h
  obtain ⟨_, hf, hcf⟩ := bind_eq_ok.mp h
  refine ⟨fun e he target ht => ?_, fun e he target ht => ?_, fun e he target ht => ?_⟩
  · have hedge := (source_of_checkTargetEdge (forM_eq_ok.mp hf e he)).2 target ht
    exact known_of_checkTarget hedge
  · have hedge := (source_of_checkTargetEdge (forM_eq_ok.mp hc e he)).2 target ht
    exact known_of_checkTarget hedge
  · have hedge := (source_of_checkTargetEdge (forM_eq_ok.mp hcf e he)).2 target ht
    exact known_of_checkConditionalFanOutTarget hedge

/-- An item with a conditional transition has no conditional fan-out. -/
theorem one_router_kind (h : sg.validateEdgeShapes = .ok ()) {itemId : NodeId}
    (hmem : itemId ∈ sg.itemIds) {e : TargetEdge ρ}
    (hc : sg.conditionalEdges.bySource itemId = some e) :
    sg.conditionalFanOutEdges.bySource itemId = none := by
  have hitems : ∃ r : Except GraphCompileError Unit, sg.validateEdgeShapes = (r >>= fun _ =>
      sg.itemIds.forM fun itemId =>
        if 1 < sg.fixedCount itemId then
          .error (.multipleOutgoingEdges itemId (sg.fixedCount itemId))
        else if 1 < sg.kindCount (sg.fixedCount itemId) itemId then
          .error (.mixedOutgoingEdgeKinds itemId)
        else .ok ()) := by
    unfold validateEdgeShapes
    split
    · exact ⟨.error .missingStartEdge, rfl⟩
    · exact ⟨.ok (), rfl⟩
    · exact ⟨.error (.multipleStartEdges _), rfl⟩
  obtain ⟨r, hr⟩ := hitems
  rw [hr] at h
  obtain ⟨_, -, h⟩ := bind_eq_ok.mp h
  have hitem := forM_eq_ok.mp h itemId hmem
  split at hitem
  · cases hitem
  split at hitem
  · cases hitem
  rename_i hkinds
  unfold kindCount at hkinds
  rw [hc] at hkinds
  cases hcf : sg.conditionalFanOutEdges.bySource itemId with
  | none => rfl
  | some e' =>
    rw [hcf] at hkinds
    simp only [Option.isSome_some, Bool.toNat_true] at hkinds
    omega

/-! ## Alternatives cover transitions -/

theorem mem_executableTarget {target a : NodeId} :
    a ∈ executableTarget target ↔ namedTarget target = some a := by
  unfold executableTarget namedTarget
  cases target.isEnd <;> simp [eq_comm]

theorem mem_filterMap_namedTarget {targets : List NodeId} {a : NodeId} :
    a ∈ targets.filterMap namedTarget ↔ a ∈ targets ∧ a.isEnd = false := by
  rw [List.mem_filterMap]
  constructor
  · rintro ⟨b, hb, hn⟩
    obtain ⟨rfl, he⟩ := namedTarget_eq_some.mp hn
    exact ⟨hb, he⟩
  · rintro ⟨ha, he⟩
    exact ⟨a, ha, namedTarget_eq_some.mpr ⟨rfl, he⟩⟩

theorem filterMap_whitelist (targets : List NodeId) :
    (targets.map fun nodeId => (nodeId, namedTarget nodeId)).filterMap Prod.snd =
      targets.filterMap namedTarget := by
  rw [List.filterMap_map]
  rfl

/-- The targets of a transition are what the alternatives of its item list. -/
theorem mem_transitionAlternatives (h : sg.validateEdgeShapes = .ok ()) {itemId a : NodeId}
    (hmem : itemId ∈ sg.itemIds) {t : CompiledTransition ρ NodeId}
    (ht : sg.transition itemId = some t) :
    a ∈ t.targets ↔ ∃ alternative ∈ sg.transitionAlternatives itemId, a ∈ alternative := by
  unfold transition at ht
  unfold transitionAlternatives
  rw [if_neg (by rw [not_end_of_mem hmem]; simp)]
  cases hf : sg.fixedBySource itemId with
  | some outgoing =>
    rw [hf] at ht
    cases ht
    simp [CompiledTransition.targets, mem_executableTarget]
  | none =>
    rw [hf] at ht
    cases hs : sg.fanOutEdges.bySource itemId with
    | some e =>
      simp only [hs] at ht
      cases ht
      simp only [CompiledTransition.targets, mem_filterMap_namedTarget]
      simp
    | none =>
      simp only [hs] at ht
      cases hc : sg.conditionalEdges.bySource itemId with
      | some e =>
        simp only [hc] at ht
        cases ht
        rw [one_router_kind h hmem hc]
        simp only [CompiledTransition.targets, filterMap_whitelist, List.mem_filterMap, List.mem_map,
          exists_exists_and_eq_and, mem_executableTarget]
      | none =>
        simp only [hc] at ht
        cases hcf : sg.conditionalFanOutEdges.bySource itemId with
        | some e =>
          simp only [hcf] at ht
          cases ht
          simp only [CompiledTransition.targets, filterMap_whitelist, mem_filterMap_namedTarget]
          simp
        | none =>
          simp only [hcf] at ht
          cases ht

/-! ## Pairs -/

theorem mem_pairs {α : Type} {a b : α} (hne : a ≠ b) : ∀ {l : List α}, a ∈ l → b ∈ l →
    (a, b) ∈ pairs l ∨ (b, a) ∈ pairs l
  | [], ha, _ => absurd ha List.not_mem_nil
  | c :: l, ha, hb => by
    unfold pairs
    simp only [List.mem_append, List.mem_map, Prod.mk.injEq]
    rcases List.mem_cons.mp ha with rfl | hal
    · rcases List.mem_cons.mp hb with rfl | hbl
      · exact absurd rfl hne
      · exact Or.inl (Or.inl ⟨b, hbl, rfl, rfl⟩)
    · rcases List.mem_cons.mp hb with rfl | hbl
      · exact Or.inr (Or.inl ⟨a, hal, rfl, rfl⟩)
      · rcases mem_pairs hne hal hbl with h | h
        · exact Or.inl (Or.inr h)
        · exact Or.inr (Or.inr h)

theorem of_mem_pairs {α : Type} {p : α × α} : ∀ {l : List α}, p ∈ pairs l → p.1 ∈ l ∧ p.2 ∈ l
  | [], h => absurd h List.not_mem_nil
  | c :: l, h => by
    unfold pairs at h
    rcases List.mem_append.mp h with h | h
    · obtain ⟨b, hb, rfl⟩ := List.mem_map.mp h
      exact ⟨List.mem_cons_self, List.mem_cons_of_mem c hb⟩
    · obtain ⟨h₁, h₂⟩ := of_mem_pairs h
      exact ⟨List.mem_cons_of_mem c h₁, List.mem_cons_of_mem c h₂⟩

theorem mem_frontierPairs {frontier : List NodeId} {a b : NodeId} (hne : a ≠ b)
    (ha : a ∈ frontier) (hb : b ∈ frontier) (hae : a.isEnd = false) (hbe : b.isEnd = false) :
    (a, b) ∈ frontierPairs frontier ∨ (b, a) ∈ frontierPairs frontier := by
  unfold frontierPairs
  refine mem_pairs hne ?_ ?_ <;> rw [List.mem_eraseDups, List.mem_filter]
  · exact ⟨ha, by simp [hae]⟩
  · exact ⟨hb, by simp [hbe]⟩

theorem of_mem_frontierPairs {frontier : List NodeId} {p : NodeId × NodeId}
    (h : p ∈ frontierPairs frontier) :
    (p.1 ∈ frontier ∧ p.1.isEnd = false) ∧ p.2 ∈ frontier ∧ p.2.isEnd = false := by
  obtain ⟨h₁, h₂⟩ := of_mem_pairs h
  rw [List.mem_eraseDups, List.mem_filter] at h₁ h₂
  exact ⟨⟨h₁.1, by simpa using h₁.2⟩, h₂.1, by simpa using h₂.2⟩

theorem canonicalPair_eq (p : NodeId × NodeId) :
    canonicalPair p = p ∨ canonicalPair p = (p.2, p.1) := by
  unfold canonicalPair
  split
  · exact Or.inl rfl
  · exact Or.inr rfl

theorem canonicalPair_swap (a b : NodeId) : canonicalPair (b, a) = canonicalPair (a, b) := by
  unfold canonicalPair
  simp only
  split <;> split
  · rename_i h₁ h₂
    have he : a.value = b.value := String.le_antisymm h₂ h₁
    cases a
    cases b
    simp only at he
    rw [he]
  · rfl
  · rfl
  · rename_i h₁ h₂
    rcases String.le_total a.value b.value with h | h
    · exact absurd h h₂
    · exact absurd h h₁

theorem checkPair_eq_ok {pair key : NodeId × NodeId} : sg.checkPair pair = .ok key ↔
    (sg.isSubgraph pair.1 = false ∧ sg.isSubgraph pair.2 = false) ∧ key = canonicalPair pair := by
  unfold checkPair
  cases h₁ : sg.isSubgraph pair.1 <;> cases h₂ : sg.isSubgraph pair.2 <;> simp [eq_comm]

theorem checkPair_swap (a b : NodeId) {key : NodeId × NodeId} :
    sg.checkPair (b, a) = .ok key ↔ sg.checkPair (a, b) = .ok key := by
  rw [checkPair_eq_ok, checkPair_eq_ok, canonicalPair_swap a b]
  simp only
  tauto

theorem mem_expandPair {a b a' b' : NodeId} (hne : a' ≠ b')
    (ha : ∃ alternative ∈ sg.transitionAlternatives a, a' ∈ alternative)
    (hb : ∃ alternative ∈ sg.transitionAlternatives b, b' ∈ alternative)
    (hae : a'.isEnd = false) (hbe : b'.isEnd = false) :
    (a', b') ∈ sg.expandPair (a, b) ∨ (b', a') ∈ sg.expandPair (a, b) := by
  obtain ⟨l, hl, hal⟩ := ha
  obtain ⟨r, hr, hbr⟩ := hb
  unfold expandPair
  simp only [List.mem_flatMap]
  have hal' : a' ∈ (l ++ r).eraseDups := List.mem_eraseDups.mpr (List.mem_append_left r hal)
  have hbr' : b' ∈ (l ++ r).eraseDups := List.mem_eraseDups.mpr (List.mem_append_right l hbr)
  rcases mem_frontierPairs hne hal' hbr' hae hbe with h | h
  · exact Or.inl ⟨l, hl, r, hr, h⟩
  · exact Or.inr ⟨l, hl, r, hr, h⟩

theorem of_mem_expandPair {a b : NodeId} {p : NodeId × NodeId} (h : p ∈ sg.expandPair (a, b)) :
    ∀ x, x = p.1 ∨ x = p.2 →
      (∃ alternative ∈ sg.transitionAlternatives a, x ∈ alternative) ∨
        ∃ alternative ∈ sg.transitionAlternatives b, x ∈ alternative := by
  unfold expandPair at h
  simp only [List.mem_flatMap] at h
  obtain ⟨l, hl, r, hr, hp⟩ := h
  obtain ⟨⟨h₁, -⟩, h₂, -⟩ := of_mem_frontierPairs hp
  rw [List.mem_eraseDups, List.mem_append] at h₁ h₂
  rintro x (rfl | rfl)
  · exact h₁.imp (fun h => ⟨l, hl, h⟩) fun h => ⟨r, hr, h⟩
  · exact h₂.imp (fun h => ⟨l, hl, h⟩) fun h => ⟨r, hr, h⟩

/-! ## The closed relation -/

/-- A relation that holds of every two distinct items a fan-out starts together, is closed under
following the transitions of two related items, and relates real nodes only. -/
structure PairsClosed (sg : StateGraph ν ρ μ) (R : NodeId → NodeId → Prop) : Prop where
  symm : ∀ a b, R a b → R b a
  node : ∀ a b, R a b → ∃ kind, (a, .node kind) ∈ sg.items
  fork : ∀ itemId t a b, itemId ∈ sg.itemIds → sg.transition itemId = some t → t.isFanOut = true →
    a ∈ t.targets → b ∈ t.targets → a ≠ b → R a b
  step : ∀ a b ta tb a' b', R a b → sg.transition a = some ta → sg.transition b = some tb →
    a' ∈ ta.targets → b' ∈ tb.targets → a' ≠ b' → R a' b'

/-- Every item has a transition, whose targets are items. -/
def Known (sg : StateGraph ν ρ μ) : Prop :=
  ∀ itemId ∈ sg.itemIds, ∃ named, sg.transition itemId = some named ∧
    ∀ a ∈ named.targets, a ∈ sg.itemIds

theorem Known.target_mem (h : sg.Known) {itemId a : NodeId} {t : CompiledTransition ρ NodeId}
    (hmem : itemId ∈ sg.itemIds) (ht : sg.transition itemId = some t) (ha : a ∈ t.targets) :
    a ∈ sg.itemIds := by
  obtain ⟨named, hnamed, hknown⟩ := h itemId hmem
  rw [ht] at hnamed
  cases hnamed
  exact hknown a ha

/-- Where a fan-out transition comes from. -/
theorem fanOut_source {itemId : NodeId} {t : CompiledTransition ρ NodeId}
    (ht : sg.transition itemId = some t) (hfan : t.isFanOut = true) :
    (∃ e ∈ sg.fanOutEdges.edges, t.targets = e.targets.filterMap namedTarget) ∨
      ∃ e ∈ sg.conditionalFanOutEdges.edges, t.targets = e.targets.filterMap namedTarget := by
  unfold transition at ht
  cases hf : sg.fixedBySource itemId with
  | some outgoing => rw [hf] at ht; cases ht; cases hfan
  | none =>
    rw [hf] at ht
    cases hs : sg.fanOutEdges.bySource itemId with
    | some e =>
      simp only [hs] at ht
      cases ht
      exact Or.inl ⟨e, (TargetEdges.bySource_some hs).1, rfl⟩
    | none =>
      simp only [hs] at ht
      cases hc : sg.conditionalEdges.bySource itemId with
      | some e => simp only [hc] at ht; cases ht; cases hfan
      | none =>
        simp only [hc] at ht
        cases hcf : sg.conditionalFanOutEdges.bySource itemId with
        | some e =>
          simp only [hcf] at ht
          cases ht
          exact Or.inr ⟨e, (TargetEdges.bySource_some hcf).1, filterMap_whitelist _⟩
        | none => simp only [hcf] at ht; cases ht

/-- Without mounts every pair of items is a pair of real nodes. -/
theorem pairsClosed_of_no_subgraph (hknown : sg.Known)
    (hnone : sg.items.any (fun item => item.2.isSubgraph) = false) :
    sg.PairsClosed fun a b => a ∈ sg.itemIds ∧ b ∈ sg.itemIds where
  symm _ _ h := ⟨h.2, h.1⟩
  node a _ h := by
    obtain ⟨⟨id, item⟩, hmem, rfl⟩ := List.mem_map.mp h.1
    cases item with
    | node kind => exact ⟨kind, hmem⟩
    | subgraph graph =>
      have hall := List.any_eq_false.mp hnone _ hmem
      exact absurd rfl hall
  fork _ _ _ _ hmem ht _ ha hb _ := ⟨hknown.target_mem hmem ht ha, hknown.target_mem hmem ht hb⟩
  step _ _ _ _ _ _ h hta htb ha hb _ :=
    ⟨hknown.target_mem h.1 hta ha, hknown.target_mem h.2 htb hb⟩

/-- Without fan-outs nothing runs together. -/
theorem pairsClosed_of_no_fanOut (hstatic : sg.fanOutEdges.edges = [])
    (hconditional : sg.conditionalFanOutEdges.edges = []) :
    sg.PairsClosed fun _ _ => False where
  symm _ _ h := h
  node _ _ h := h.elim
  fork _ t _ _ _ ht hfan _ _ _ := by
    rcases fanOut_source ht hfan with ⟨e, he, -⟩ | ⟨e, he, -⟩
    · rw [hstatic] at he
      cases he
    · rw [hconditional] at he
      cases he
  step _ _ _ _ _ _ h _ _ _ _ _ := h.elim

/-! ## The search -/

/-- Every pair of items. -/
def itemPairs (sg : StateGraph ν ρ μ) : List (NodeId × NodeId) := sg.itemIds ×ˢ sg.itemIds

theorem mem_itemPairs {p : NodeId × NodeId} :
    p ∈ sg.itemPairs ↔ p.1 ∈ sg.itemIds ∧ p.2 ∈ sg.itemIds := by
  obtain ⟨a, b⟩ := p
  exact List.pair_mem_product

theorem canonicalPair_mem {p : NodeId × NodeId} (h : p ∈ sg.itemPairs) :
    canonicalPair p ∈ sg.itemPairs := by
  rw [mem_itemPairs] at h
  rcases canonicalPair_eq p with he | he
  · rw [he, mem_itemPairs]
    exact h
  · rw [he, mem_itemPairs]
    exact ⟨h.2, h.1⟩

theorem fanOutPairs_known (hedges : sg.EdgesKnown) {p : NodeId × NodeId}
    (h : p ∈ sg.fanOutPairs) : p ∈ sg.itemPairs := by
  rw [mem_itemPairs]
  unfold fanOutPairs at h
  rcases List.mem_append.mp h with h | h
  · obtain ⟨e, he, hp⟩ := List.mem_flatMap.mp h
    obtain ⟨⟨h₁, e₁⟩, h₂, e₂⟩ := of_mem_frontierPairs hp
    exact ⟨hedges.fanOut e he _ h₁ e₁, hedges.fanOut e he _ h₂ e₂⟩
  · obtain ⟨e, he, hp⟩ := List.mem_flatMap.mp h
    obtain ⟨⟨h₁, e₁⟩, h₂, e₂⟩ := of_mem_frontierPairs hp
    obtain ⟨_, hn₁⟩ := hedges.conditionalFanOut e he _ h₁ e₁
    obtain ⟨_, hn₂⟩ := hedges.conditionalFanOut e he _ h₂ e₂
    exact ⟨List.mem_map.mpr ⟨_, hn₁, rfl⟩, List.mem_map.mpr ⟨_, hn₂, rfl⟩⟩

theorem expandPair_known (hknown : sg.Known) (hshapes : sg.validateEdgeShapes = .ok ())
    {q p : NodeId × NodeId} (hq : q ∈ sg.itemPairs) (hp : p ∈ sg.expandPair q) :
    p ∈ sg.itemPairs := by
  obtain ⟨a, b⟩ := q
  obtain ⟨ha, hb⟩ := mem_itemPairs.mp hq
  have hmem : ∀ x, x = p.1 ∨ x = p.2 → x ∈ sg.itemIds := by
    intro x hx
    rcases of_mem_expandPair hp x hx with h | h
    · obtain ⟨t, ht, -⟩ := hknown a ha
      exact hknown.target_mem ha ht ((mem_transitionAlternatives hshapes ha ht).mpr h)
    · obtain ⟨t, ht, -⟩ := hknown b hb
      exact hknown.target_mem hb ht ((mem_transitionAlternatives hshapes hb ht).mpr h)
  exact mem_itemPairs.mpr ⟨hmem _ (Or.inl rfl), hmem _ (Or.inr rfl)⟩

/-- What a search that rejected nothing holds. -/
theorem search_closed (hknown : sg.Known) (hedges : sg.EdgesKnown)
    (hshapes : sg.validateEdgeShapes = .ok ()) {queued st : List (NodeId × NodeId) × List (NodeId × NodeId)}
    (hpush : Worklist.pushAll sg.checkPair sg.fanOutPairs ([], []) = .ok queued)
    (hdrain : Worklist.drain sg.checkPair sg.expandPair (sg.items.length * sg.items.length) queued =
      .ok st) :
    (∀ p ∈ sg.fanOutPairs, Worklist.Held sg.checkPair st.1 p) ∧
      ∀ q ∈ st.1, ∀ p ∈ sg.expandPair q, Worklist.Held sg.checkPair st.1 p := by
  have hlen : sg.itemPairs.length = sg.items.length * sg.items.length := by
    simp [itemPairs, itemIds, List.length_product]
  have hkey : ∀ p ∈ sg.itemPairs, ∀ key, sg.checkPair p = .ok key → key ∈ sg.itemPairs := by
    intro p hp key hk
    rw [(checkPair_eq_ok.mp hk).2]
    exact canonicalPair_mem hp
  obtain ⟨hn, hU, hcount⟩ := Worklist.pushAll_count (U := sg.itemPairs)
    (fun p hp => hkey p (fanOutPairs_known hedges hp)) List.nodup_nil
    (fun p hp => absurd hp List.not_mem_nil) hpush
  have hspec := Worklist.pushAll_spec hpush
  have hW : ∀ p ∈ queued.2, p ∈ sg.itemPairs := by
    intro p hp
    rcases hspec.work_held p hp with h | h
    · exact absurd h List.not_mem_nil
    · exact hU p h
  have hempty : st.2 = [] := by
    refine Worklist.drain_empties (fun q hq p hp => hkey p (expandPair_known hknown hshapes hq hp))
      hn hU hW ?_ hdrain
    simp only [List.length_nil] at hcount
    omega
  have hst : st = (st.1, []) := by rw [← hempty]
  rw [hst] at hdrain
  obtain ⟨hsub, hclosed⟩ := Worklist.drain_closed (Worklist.inv_of_pushed_nil hspec) hdrain
  exact ⟨fun p hp => (hspec.accepted p hp).mono hsub, hclosed⟩

theorem pairsClosed_of_search (hknown : sg.Known) (hshapes : sg.validateEdgeShapes = .ok ())
    {held : List (NodeId × NodeId)}
    (hstart : ∀ p ∈ sg.fanOutPairs, Worklist.Held sg.checkPair held p)
    (hclosed : ∀ q ∈ held, ∀ p ∈ sg.expandPair q, Worklist.Held sg.checkPair held p) :
    sg.PairsClosed fun a b => (a ∈ sg.itemIds ∧ b ∈ sg.itemIds) ∧
      Worklist.Held sg.checkPair held (a, b) := by
  have hswap : ∀ {a b}, Worklist.Held sg.checkPair held (a, b) →
      Worklist.Held sg.checkPair held (b, a) := by
    rintro a b ⟨key, hk, hc⟩
    exact ⟨key, hk, (checkPair_swap a b).mpr hc⟩
  refine ⟨fun a b h => ⟨⟨h.1.2, h.1.1⟩, hswap h.2⟩, ?_, ?_, ?_⟩
  · rintro a b ⟨⟨ha, -⟩, key, -, hc⟩
    obtain ⟨⟨id, item⟩, hmem, rfl⟩ := List.mem_map.mp ha
    cases item with
    | node kind => exact ⟨kind, hmem⟩
    | subgraph graph =>
      have hsub := (checkPair_eq_ok.mp hc).1.1
      rw [isSubgraph_iff.mpr ⟨graph, hmem⟩] at hsub
      cases hsub
  · intro itemId t a b hmem ht hfan ha hb hne
    refine ⟨⟨hknown.target_mem hmem ht ha, hknown.target_mem hmem ht hb⟩, ?_⟩
    have hpair : (a, b) ∈ sg.fanOutPairs ∨ (b, a) ∈ sg.fanOutPairs := by
      unfold fanOutPairs
      simp only [List.mem_append, List.mem_flatMap]
      rcases fanOut_source ht hfan with ⟨e, he, hte⟩ | ⟨e, he, hte⟩
      · rw [hte, mem_filterMap_namedTarget] at ha hb
        rcases mem_frontierPairs hne ha.1 hb.1 ha.2 hb.2 with h | h
        · exact Or.inl (Or.inl ⟨e, he, h⟩)
        · exact Or.inr (Or.inl ⟨e, he, h⟩)
      · rw [hte, mem_filterMap_namedTarget] at ha hb
        rcases mem_frontierPairs hne ha.1 hb.1 ha.2 hb.2 with h | h
        · exact Or.inl (Or.inr ⟨e, he, h⟩)
        · exact Or.inr (Or.inr ⟨e, he, h⟩)
    rcases hpair with h | h
    · exact hstart _ h
    · exact hswap (hstart _ h)
  · rintro a b ta tb a' b' ⟨⟨ha, hb⟩, key, hk, hc⟩ hta htb ha' hb' hne
    have ha'' := hknown.target_mem ha hta ha'
    have hb'' := hknown.target_mem hb htb hb'
    refine ⟨⟨ha'', hb''⟩, ?_⟩
    have halt := (mem_transitionAlternatives hshapes ha hta).mp ha'
    have hblt := (mem_transitionAlternatives hshapes hb htb).mp hb'
    have hkey : key = (a, b) ∨ key = (b, a) := by
      rw [(checkPair_eq_ok.mp hc).2]
      exact canonicalPair_eq (a, b)
    -- the pair is held in one of its two orders, and so is what it expands to
    rcases hkey with rfl | rfl
    · rcases mem_expandPair hne halt hblt (not_end_of_mem ha'') (not_end_of_mem hb'') with h | h
      · exact hclosed _ hk _ h
      · exact hswap (hclosed _ hk _ h)
    · rcases mem_expandPair (Ne.symm hne) hblt halt (not_end_of_mem hb'') (not_end_of_mem ha'')
        with h | h
      · exact hswap (hclosed _ hk _ h)
      · exact hclosed _ hk _ h

/-- **What `compile` accepts has a closed relation of pairs of real nodes.** -/
theorem exists_pairsClosed (hv : sg.Validated) (hknown : sg.Known) : ∃ R, sg.PairsClosed R := by
  have hfrontiers := hv.frontiers
  unfold validateSubgraphFrontiers at hfrontiers
  split at hfrontiers
  · rename_i hskip
    simp only [Bool.or_eq_true, Bool.not_eq_true', Bool.and_eq_true, List.isEmpty_iff] at hskip
    rcases hskip with hnone | ⟨hstatic, hconditional⟩
    · exact ⟨_, pairsClosed_of_no_subgraph hknown hnone⟩
    · exact ⟨_, pairsClosed_of_no_fanOut hstatic hconditional⟩
  · obtain ⟨queued, hpush, hfrontiers⟩ := bind_eq_ok.mp hfrontiers
    obtain ⟨st, hdrain, -⟩ := bind_eq_ok.mp hfrontiers
    obtain ⟨hstart, hclosed⟩ := search_closed hknown (edgesKnown hv.edges) hv.shapes hpush hdrain
    exact ⟨_, pairsClosed_of_search hknown hv.shapes hstart hclosed⟩

end StateGraph

/-! ## Pairs of flattened items -/

/-- The pairs of items a frontier can hold: those of `seed`, those a fan-out starts together, and
those that two nodes of such a pair lead to. -/
inductive Together (g : CompiledGraph ν ρ) (seed : List Nat) : Nat → Nat → Prop where
  | seed {a b : Nat} (ha : a ∈ seed) (hb : b ∈ seed) (hne : a ≠ b) : Together g seed a b
  | fork {i a b : Nat} {item : CompiledItem ν ρ Nat} (hi : g.items[i]? = some item)
      (hfan : item.transition.isFanOut = true) (ha : a ∈ item.transition.targets)
      (hb : b ∈ item.transition.targets) (hne : a ≠ b) : Together g seed a b
  | step {i j a b : Nat} {n m : CompiledNode ν ρ Nat} (hij : Together g seed i j)
      (hi : g.items[i]? = some (.node n)) (hj : g.items[j]? = some (.node m))
      (ha : a ∈ n.transition.targets) (hb : b ∈ m.transition.targets) (hne : a ≠ b) :
      Together g seed a b

/-- No pair a frontier can hold has a structural item in it. -/
def NodesOnly (g : CompiledGraph ν ρ) (seed : List Nat) : Prop :=
  ∀ i j, Together g seed i j → ∃ n, g.items[i]? = some (.node n)

/-- A relation of real nodes that holds of the pairs every fan-out starts and is closed under
following two transitions. -/
structure Safe (g : CompiledGraph ν ρ) (R : Nat → Nat → Prop) : Prop where
  symm : ∀ i j, R i j → R j i
  node : ∀ i j, R i j → ∃ n, g.items[i]? = some (.node n)
  fork : ∀ (i : Nat) item (a b : Nat), g.items[i]? = some item → item.transition.isFanOut = true →
    a ∈ item.transition.targets → b ∈ item.transition.targets → a ≠ b → R a b
  step : ∀ (i j : Nat) n m (a b : Nat), R i j → g.items[i]? = some (.node n) → g.items[j]? = some (.node m) →
    a ∈ n.transition.targets → b ∈ m.transition.targets → a ≠ b → R a b

theorem Safe.of_together {g : CompiledGraph ν ρ} {R : Nat → Nat → Prop} (h : Safe g R) {i j : Nat}
    (hij : Together g [] i j) : R i j := by
  induction hij with
  | seed ha _ _ => exact absurd ha List.not_mem_nil
  | fork hi hfan ha hb hne => exact h.fork _ _ _ _ hi hfan ha hb hne
  | step _ hi hj ha hb hne ih => exact h.step _ _ _ _ _ _ ih hi hj ha hb hne

/-- The related items of a graph: its own, and those of the graphs it mounts. -/
def Mounted (sg : StateGraph ν ρ (CompiledGraph ν ρ)) (R : NodeId → NodeId → Prop) (i j : Nat) :
    Prop :=
  (∃ a b, R a b ∧ i = sg.entryOf a ∧ j = sg.entryOf b) ∨
    ∃ itemId child S i' j', (itemId, .subgraph child) ∈ sg.items ∧ Safe child S ∧ S i' j' ∧
      i = sg.baseOf itemId + i' ∧ j = sg.baseOf itemId + j'

section Mounted

variable {sg : StateGraph ν ρ (CompiledGraph ν ρ)} {g : CompiledGraph ν ρ}
  {R : NodeId → NodeId → Prop}

/-- Two targets of items of the graph's own that are related lead to related items. -/
theorem mounted_of_targets {a b : Nat} {x y : NodeId} {tx ty : CompiledTransition ρ NodeId}
    (hx : sg.transition x = some tx) (hy : sg.transition y = some ty)
    (ha : a ∈ (sg.placedTransition x).targets) (hb : b ∈ (sg.placedTransition y).targets)
    (hne : a ≠ b)
    (hR : ∀ a' b', a' ∈ tx.targets → b' ∈ ty.targets → a' ≠ b' → R a' b') :
    Mounted sg R a b := by
  obtain ⟨a', ha', rfl⟩ := (StateGraph.mem_placedTransition hx).mp ha
  obtain ⟨b', hb', rfl⟩ := (StateGraph.mem_placedTransition hy).mp hb
  refine Or.inl ⟨a', b', hR a' b' ha' hb' ?_, rfl, rfl⟩
  rintro rfl
  exact hne rfl

theorem mounted_of_fork (hf : Flattened sg g) (hR : sg.PairsClosed R) {itemId : NodeId} {a b : Nat}
    (hmem : itemId ∈ sg.itemIds) (hfan : (sg.placedTransition itemId).isFanOut = true)
    (ha : a ∈ (sg.placedTransition itemId).targets) (hb : b ∈ (sg.placedTransition itemId).targets)
    (hne : a ≠ b) : Mounted sg R a b := by
  obtain ⟨t, ht, -⟩ := hf.known itemId hmem
  rw [StateGraph.placedTransition_of_some ht, CompiledTransition.isFanOut_ordered,
    CompiledTransition.isFanOut_map] at hfan
  exact mounted_of_targets ht ht ha hb hne fun a' b' ha' hb' hne' =>
    hR.fork itemId t a' b' hmem ht hfan ha' hb' hne'

theorem safe_mounted (hf : Flattened sg g) (hR : sg.PairsClosed R)
    (hmounted : ∀ itemId child, (itemId, .subgraph child) ∈ sg.items → ∃ S, Safe child S) :
    Safe g (Mounted sg R) where
  symm i j hij := by
    rcases hij with ⟨a, b, hab, rfl, rfl⟩ | ⟨itemId, child, S, i', j', hmem, hS, hij, rfl, rfl⟩
    · exact Or.inl ⟨b, a, hR.symm a b hab, rfl, rfl⟩
    · exact Or.inr ⟨itemId, child, S, j', i', hmem, hS, hS.symm i' j' hij, rfl, rfl⟩
  node i j hij := by
    rcases hij with ⟨a, b, hab, rfl, rfl⟩ | ⟨itemId, child, S, i', j', hmem, hS, hij, rfl, rfl⟩
    · obtain ⟨kind, hkind⟩ := hR.node a b hab
      exact ⟨_, hf.node_at hkind⟩
    · obtain ⟨n, hn⟩ := hS.node i' j' hij
      exact ⟨_, hf.block_some hmem hn⟩
  fork i item a b hi hfan ha hb hne := by
    cases hf.stands hi with
    | @node itemId kind hmem => exact mounted_of_fork hf hR (List.mem_map.mpr ⟨_, hmem, rfl⟩) hfan ha hb hne
    | enter hmem => cases hfan
    | @exit itemId child hmem => exact mounted_of_fork hf hR (List.mem_map.mpr ⟨_, hmem, rfl⟩) hfan ha hb hne
    | @inner itemId child hmem i' item hi' =>
      rw [CompiledItem.relocate_transition] at hfan ha hb
      rw [CompiledTransition.isFanOut_map] at hfan
      rw [CompiledTransition.targets_map] at ha hb
      obtain ⟨a', ha', rfl⟩ := List.mem_map.mp ha
      obtain ⟨b', hb', rfl⟩ := List.mem_map.mp hb
      obtain ⟨S, hS⟩ := hmounted itemId child hmem
      refine Or.inr ⟨itemId, child, S, a', b', hmem, hS, ?_, rfl, rfl⟩
      exact hS.fork i' item a' b' hi' hfan ha' hb' fun he => hne (by rw [he])
  step i j n m a b hij hi hj ha hb hne := by
    rcases hij with ⟨x, y, hxy, rfl, rfl⟩ | ⟨itemId, child, S, i', j', hmem, hS, hij, rfl, rfl⟩
    · obtain ⟨kx, hx⟩ := hR.node x y hxy
      obtain ⟨ky, hy⟩ := hR.node y x (hR.symm x y hxy)
      rw [hf.node_at hx] at hi
      rw [hf.node_at hy] at hj
      cases hi
      cases hj
      obtain ⟨tx, htx, -⟩ := hf.known x (List.mem_map.mpr ⟨_, hx, rfl⟩)
      obtain ⟨ty, hty, -⟩ := hf.known y (List.mem_map.mpr ⟨_, hy, rfl⟩)
      exact mounted_of_targets htx hty ha hb hne fun a' b' ha' hb' hne' =>
        hR.step x y tx ty a' b' hxy htx hty ha' hb' hne'
    · obtain ⟨n', hn'⟩ := hS.node i' j' hij
      obtain ⟨m', hm'⟩ := hS.node j' i' (hS.symm i' j' hij)
      rw [hf.block_some hmem hn'] at hi
      rw [hf.block_some hmem hm'] at hj
      cases hi
      cases hj
      rw [CompiledTransition.targets_map] at ha hb
      obtain ⟨a', ha', rfl⟩ := List.mem_map.mp ha
      obtain ⟨b', hb', rfl⟩ := List.mem_map.mp hb
      refine Or.inr ⟨itemId, child, S, a', b', hmem, hS, ?_, rfl, rfl⟩
      exact hS.step i' j' n' m' a' b' hij hn' hm' ha' hb' fun he => hne (by rw [he])

end Mounted

theorem exists_safe {g : CompiledGraph ν ρ} (h : Compiled g) : ∃ R, Safe g R := by
  induction h with
  | mk sg g _ hcompile ih =>
    have hf := flattened hcompile
    obtain ⟨R, hR⟩ := StateGraph.exists_pairsClosed (StateGraph.validated (validate_of_compile hcompile))
      hf.known
    exact ⟨_, safe_mounted hf hR ih⟩

/-- **No subgraph boundary runs together with another item.** -/
theorem together_nodes {g : CompiledGraph ν ρ} (h : Compiled g) : NodesOnly g [] := by
  intro i j hij
  obtain ⟨R, hR⟩ := exists_safe h
  exact hR.node i j (hR.of_together hij)

end GroupAgent.Core
