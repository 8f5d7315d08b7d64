import GroupAgent.Mcp.ToolSet
import Mathlib.Data.List.Perm.Basic

/-!
# Nested combinations of tool sets

A tool set is made by `from_discovered` (`discovery.rs:63-140`), or by `combine` (146-171) of sets
that were made before: a `Nest` is how. Whatever the nesting, what a set holds is the union of what
its discovered sets hold.

* `Nest.make_holds`, `Nest.exists_make`: the sets that are made.
* The order of the parts does not matter: entries are sorted by their local names.

Results: **`tool_set_integrity`**: the integrity of tool sets, for every nesting: the lists stay
aligned, every tool is there once, and a combination is accepted exactly when no local name occurs
twice.

A set that is combined keeps its sessions. Two sets of one server may be combined as long as their
local names differ.
-/

namespace GroupAgent.Mcp

open GroupAgent.Lib GroupAgent.Model GroupAgent.Tool

/-- What one discovered set is made of. -/
structure Leaf where
  session : McpClientSession
  tools : List ProtocolTool
  config : McpDiscoveryConfig

/-- How a tool set is made. -/
inductive Nest where
  | discovered (leaf : Leaf)
  | combined (parts : List Nest)

namespace Nest

mutual

def make (compile : Compile) : Nest → Except McpAdapterError McpToolSet
  | .discovered leaf => McpToolSet.fromDiscovered compile leaf.session leaf.tools leaf.config
  | .combined parts => makeAll compile parts >>= McpToolSet.combine compile

def makeAll (compile : Compile) : List Nest → Except McpAdapterError (List McpToolSet)
  | [] => .ok []
  | part :: parts => do
    let set ← make compile part
    let sets ← makeAll compile parts
    pure (set :: sets)

end

mutual

/-- The discovered sets, from left to right. -/
def leaves : Nest → List Leaf
  | .discovered leaf => [leaf]
  | .combined parts => leavesAll parts

def leavesAll : List Nest → List Leaf
  | [] => []
  | part :: parts => leaves part ++ leavesAll parts

end

/-- The tools that the servers listed, each with the session it was listed on. -/
def listed (nest : Nest) : List (McpClientSession × String) :=
  nest.leaves.flatMap fun leaf => leaf.tools.map fun tool => (leaf.session, tool.name)

end Nest

/-! ## What is made -/

section Made

variable {compile : Compile}

/-- What the set of a leaf holds. -/
def LeafHolds (compile : Compile) (leaf : Leaf) (content : SortedMap ToolName LocalEntry) : Prop :=
  ∃ set, McpToolSet.fromDiscovered compile leaf.session leaf.tools leaf.config = .ok set ∧
    Holds compile set content

/-- A set holds the union of what its leaves hold, which have no name in common. -/
structure MakesOf (compile : Compile) (leaves : List Leaf) (set : McpToolSet)
    (contents : List (SortedMap ToolName LocalEntry)) : Prop where
  leaves : List.Forall₂ (LeafHolds compile) leaves contents
  nodup : ((held contents).map Prod.fst).Nodup
  holds : Holds compile set (SortedMap.empty.insertAll (held contents))

theorem held_append (cs cs' : List (SortedMap ToolName LocalEntry)) :
    held (cs ++ cs') = held cs ++ held cs' := List.flatMap_append

theorem held_singleton (c : SortedMap ToolName LocalEntry) : held [c] = c.entries := by
  simp [held]

mutual

/-- A set that was made holds what its leaves hold. -/
theorem Nest.make_holds {set : McpToolSet} : ∀ {nest : Nest}, nest.make compile = .ok set →
    ∃ contents, MakesOf compile nest.leaves set contents
  | .discovered leaf, h => by
    obtain ⟨es, -, -, -, hholds, -⟩ := fromDiscovered_eq_ok.mp h
    refine ⟨[SortedMap.empty.insertAll es], .cons ⟨set, h, hholds⟩ .nil, ?_, ?_⟩
    · rw [held_singleton]
      exact SortedMap.nodup_keys _
    · rwa [held_singleton, SortedMap.insertAll_entries]
  | .combined parts, h => by
    obtain ⟨sets, hsets, h⟩ := bind_eq_ok.mp h
    obtain ⟨contents, whole, hleaves, hholds, hperm⟩ := Nest.makeAll_holds hsets
    obtain ⟨hnodup, hheld, -⟩ := (combine_eq_ok hholds).mp h
    rw [SortedMap.insertAll_congr hnodup hperm] at hheld
    exact ⟨contents, hleaves, (hperm.map Prod.fst).nodup_iff.mp hnodup, hheld⟩

theorem Nest.makeAll_holds : ∀ {parts : List Nest} {sets : List McpToolSet},
    Nest.makeAll compile parts = .ok sets → ∃ contents whole,
      List.Forall₂ (LeafHolds compile) (Nest.leavesAll parts) contents ∧
        List.Forall₂ (Holds compile) sets whole ∧ (held whole).Perm (held contents)
  | [], _, h => by
    cases h
    exact ⟨[], [], .nil, .nil, .refl _⟩
  | part :: parts, _, h => by
    obtain ⟨set, hset, h⟩ := bind_eq_ok.mp h
    obtain ⟨sets, hsets, h⟩ := bind_eq_ok.mp h
    cases h
    obtain ⟨contents, hmade⟩ := Nest.make_holds hset
    obtain ⟨rest, whole, hleaves, hholds, hperm⟩ := Nest.makeAll_holds hsets
    refine ⟨contents ++ rest, _ :: whole, List.rel_append hmade.leaves hleaves,
      .cons hmade.holds hholds, ?_⟩
    rw [held_append, ← List.singleton_append, held_append, held_singleton]
    exact (SortedMap.insertAll_empty_perm hmade.nodup).append hperm

end

theorem leafHolds_unique : ∀ {leaves : List Leaf} {cs cs' : List (SortedMap ToolName LocalEntry)},
    List.Forall₂ (LeafHolds compile) leaves cs → List.Forall₂ (LeafHolds compile) leaves cs' →
      cs = cs'
  | [], _, _, .nil, .nil => rfl
  | _ :: _, _ :: _, _ :: _, .cons ⟨set, hset, h⟩ hall, .cons ⟨set', hset', h'⟩ hall' => by
    obtain rfl : set = set' := Except.ok.inj (hset.symm.trans hset')
    rw [h.content_unique h', leafHolds_unique hall hall']

theorem forall₂_append_left {α β : Type} {R : α → β → Prop} : ∀ {l l' : List α} {m : List β},
    List.Forall₂ R (l ++ l') m →
      ∃ n n', m = n ++ n' ∧ List.Forall₂ R l n ∧ List.Forall₂ R l' n'
  | [], _, m, h => ⟨[], m, rfl, .nil, h⟩
  | _ :: _, _, _ :: _, .cons h hall => by
    obtain ⟨n, n', rfl, hn, hn'⟩ := forall₂_append_left hall
    exact ⟨_ :: n, n', rfl, .cons h hn, hn'⟩

mutual

/-- Leaves that have no name in common make a set, whatever the nesting. -/
theorem Nest.exists_make : ∀ {nest : Nest} {contents : List (SortedMap ToolName LocalEntry)},
    List.Forall₂ (LeafHolds compile) nest.leaves contents → ((held contents).map Prod.fst).Nodup →
      ∃ set, nest.make compile = .ok set
  | .discovered leaf, _, .cons h .nil, _ => ⟨h.choose, h.choose_spec.1⟩
  | .combined parts, contents, hleaves, hnodup => by
    obtain ⟨sets, hsets⟩ := Nest.exists_makeAll hleaves hnodup
    obtain ⟨contents', whole, hleaves', hholds, hperm⟩ := Nest.makeAll_holds hsets
    obtain rfl : contents' = contents := leafHolds_unique hleaves' hleaves
    have hwhole : ((held whole).map Prod.fst).Nodup := (hperm.map Prod.fst).nodup_iff.mpr hnodup
    obtain ⟨set, hset⟩ := (exists_combine hholds).mpr hwhole
    exact ⟨set, bind_eq_ok.mpr ⟨sets, hsets, hset⟩⟩

theorem Nest.exists_makeAll : ∀ {parts : List Nest} {contents : List (SortedMap ToolName LocalEntry)},
    List.Forall₂ (LeafHolds compile) (Nest.leavesAll parts) contents →
      ((held contents).map Prod.fst).Nodup → ∃ sets, Nest.makeAll compile parts = .ok sets
  | [], _, .nil, _ => ⟨[], rfl⟩
  | part :: parts, _, hleaves, hnodup => by
    obtain ⟨first, rest, rfl, hfirst, hrest⟩ := forall₂_append_left hleaves
    rw [held_append, List.map_append, List.nodup_append] at hnodup
    obtain ⟨set, hset⟩ := Nest.exists_make hfirst hnodup.1
    obtain ⟨sets, hsets⟩ := Nest.exists_makeAll hrest hnodup.2.1
    exact ⟨set :: sets, bind_eq_ok.mpr ⟨set, hset, bind_eq_ok.mpr ⟨sets, hsets, rfl⟩⟩⟩

end

end Made

/-! ## Integrity -/

section Integrity

variable {compile : Compile}

theorem listed_of_holds {session : McpClientSession} {config : McpDiscoveryConfig} :
    ∀ {tools : List ProtocolTool} {es : List (ToolName × LocalEntry)},
      List.Forall₂ (Maps session config) tools es →
        es.map (fun e => (e.2.1.session, e.2.1.remoteName)) =
          tools.map fun tool => (session, tool.name)
  | [], [], .nil => rfl
  | _ :: _, _ :: _, .cons h hall => by
    rw [List.map_cons, List.map_cons, listed_of_holds hall, h.entry]
    rfl

theorem listed_of_leaf {leaf : Leaf} {content : SortedMap ToolName LocalEntry}
    (h : LeafHolds compile leaf content) :
    (content.entries.map fun e => (e.2.1.session, e.2.1.remoteName)).Perm
      (leaf.tools.map fun tool => (leaf.session, tool.name)) := by
  obtain ⟨set, hset, hholds⟩ := h
  obtain ⟨es, hall, hnames, -, hes, -⟩ := fromDiscovered_eq_ok.mp hset
  rw [hholds.content_unique hes, ← listed_of_holds hall]
  exact (SortedMap.insertAll_empty_perm ((Maps.nodup_iff hall).mpr hnames)).map _

theorem listed_of_leaves : ∀ {leaves : List Leaf} {contents : List (SortedMap ToolName LocalEntry)},
    List.Forall₂ (LeafHolds compile) leaves contents →
      ((held contents).map fun e => (e.2.1.session, e.2.1.remoteName)).Perm
        (leaves.flatMap fun leaf => leaf.tools.map fun tool => (leaf.session, tool.name))
  | [], [], .nil => .refl _
  | leaf :: leaves, content :: contents, .cons h hall => by
    rw [← List.singleton_append, held_append, held_singleton, List.map_append, List.flatMap_cons]
    exact (listed_of_leaf h).append (listed_of_leaves hall)

/-- What every tool set keeps, however it was made. -/
structure Integrity (nest : Nest) (set : McpToolSet) : Prop where
  /-- The local names are sorted, and so all different. -/
  sorted : (set.mappings.map (·.localName)).Pairwise (· < ·)
  /-- A local name resolves to the remote name of the tool that is registered there. -/
  resolves : ∀ name, set.remoteName name = (set.registry.get name).map (·.remoteName)
  /-- That tool calls this remote name, on a session with the server of the mapping. -/
  calls : ∀ name tool, set.registry.get name = some tool → ∃ mapping ∈ set.mappings,
    mapping.localName = name ∧ ∀ view arguments session params,
      tool.call view arguments = .ok (session, params) → session = tool.session ∧
        session.serverId = mapping.serverId ∧ set.remoteName name = some params.name
  /-- The tools are those that the servers listed. -/
  complete : (set.tools.map fun tool => (tool.session, tool.remoteName)).Perm nest.listed
  /-- The registry has the tools, and the mappings are of them. -/
  registered : set.registry.entries.map (·.tool) = set.tools ∧
    set.tools.map (fun tool => (tool.serverId, tool.definition.name, tool.remoteName)) =
      set.mappings.map fun mapping => (mapping.serverId, mapping.localName, mapping.remoteName)

theorem enters_tools : ∀ {tools : List McpRemoteTool} {es : List _},
    List.Forall₂ (Enters compile) tools es → (es.map Prod.snd).map (·.tool) = tools
  | [], _, .nil => rfl
  | _ :: _, _ :: _, .cons h hall => by
    obtain ⟨-, -, -, -, validator, -, hentry⟩ := entryOf_eq_ok.mp h.2
    rw [List.map_cons, List.map_cons, enters_tools hall, hentry]

theorem Holds.calls {set : McpToolSet} {content : SortedMap ToolName LocalEntry}
    (h : Holds compile set content) {name : ToolName} {tool : McpRemoteTool}
    (htool : set.registry.get name = some tool) : ∃ mapping ∈ set.mappings,
      mapping.localName = name ∧ ∀ view arguments session params,
        tool.call view arguments = .ok (session, params) → session = tool.session ∧
          session.serverId = mapping.serverId ∧ set.remoteName name = some params.name := by
  rw [h.get_eq] at htool
  obtain ⟨⟨_, mapping⟩, hread, rfl⟩ := Option.map_eq_some_iff.mp htool
  have hentry := SortedMap.mem_entries.mpr hread
  have hown := h.own _ hentry
  refine ⟨mapping, ?_, hown.mapped, fun view arguments session params hcall => ?_⟩
  · rw [h.mappings]
    exact List.mem_map_of_mem (f := fun e : ToolName × LocalEntry => e.2.2) hentry
  · obtain ⟨sent, hsent, hcall⟩ := bind_eq_ok.mp hcall
    cases hcall
    refine ⟨rfl, hown.session.trans hown.server, ?_⟩
    rw [h.remoteName_eq, hread, McpClientSession.callTool_name hsent]
    exact congrArg some hown.remote.symm

theorem integrity_of_make {nest : Nest} {set : McpToolSet} (h : nest.make compile = .ok set) :
    Integrity nest set := by
  obtain ⟨contents, hleaves, hnodup, hholds⟩ := Nest.make_holds h
  obtain ⟨es, hes, hregistry⟩ := hholds.registry
  refine ⟨List.pairwise_map.mpr hholds.sorted, fun name => ?_, fun name tool htool =>
    hholds.calls htool, ?_, ?_, ?_⟩
  · rw [hholds.remoteName_eq, hholds.get_eq, Option.map_map]
    cases hread : (SortedMap.empty.insertAll (held contents)).get? name with
    | none => rfl
    | some entry => exact congrArg some (hholds.own _ (SortedMap.mem_entries.mpr hread)).remote.symm
  · rw [hholds.tools, List.map_map]
    exact ((SortedMap.insertAll_empty_perm hnodup).map _).trans (listed_of_leaves hleaves)
  · rw [hregistry]
    exact enters_tools hes
  · rw [hholds.tools, hholds.mappings, List.map_map, List.map_map]
    refine List.map_congr_left fun e he => ?_
    have hown := hholds.own e he
    simp [hown.server, hown.defined, hown.mapped, hown.remote]

/-- No local name occurs in two of the sets. -/
def Apart (sets : List McpToolSet) : Prop :=
  sets.Pairwise fun set set' => ∀ mapping ∈ set.mappings, ∀ mapping' ∈ set'.mappings,
    mapping.localName ≠ mapping'.localName

theorem apart_iff : ∀ {sets : List McpToolSet} {contents : List (SortedMap ToolName LocalEntry)},
    List.Forall₂ (Holds compile) sets contents →
      (((held contents).map Prod.fst).Nodup ↔ Apart sets)
  | [], [], .nil => ⟨fun _ => .nil, fun _ => List.nodup_nil⟩
  | set :: sets, content :: contents, .cons h hall => by
    have hnames : content.entries.map Prod.fst = set.mappings.map (·.localName) := by
      rw [h.mappings, List.map_map]
      exact List.map_congr_left fun e he => (h.own e he).mapped.symm
    have hrest : (held contents).map Prod.fst = sets.flatMap fun set =>
        set.mappings.map (·.localName) := by
      clear h hnames
      induction hall with
      | nil => rfl
      | @cons set content _ _ h _ ih =>
        rw [← List.singleton_append, held_append, held_singleton, List.map_append, ih,
          List.flatMap_cons, h.mappings, List.map_map]
        congr 1
        exact List.map_congr_left fun e he => (h.own e he).mapped.symm
    rw [← List.singleton_append, held_append, held_singleton, List.map_append, List.nodup_append,
      apart_iff hall, hnames, hrest]
    unfold Apart
    rw [List.pairwise_cons]
    constructor
    · rintro ⟨-, hapart, hne⟩
      refine ⟨fun set' hset' mapping hmapping mapping' hmapping' => ?_, hapart⟩
      exact hne _ (List.mem_map_of_mem hmapping) _
        (List.mem_flatMap.mpr ⟨set', hset', List.mem_map_of_mem hmapping'⟩)
    · rintro ⟨hne, hapart⟩
      refine ⟨hnames ▸ content.nodup_keys, hapart, fun a ha b hb => ?_⟩
      obtain ⟨mapping, hmapping, rfl⟩ := List.mem_map.mp ha
      obtain ⟨set', hset', hb⟩ := List.mem_flatMap.mp hb
      obtain ⟨mapping', hmapping', rfl⟩ := List.mem_map.mp hb
      exact hne set' hset' mapping hmapping mapping' hmapping'

theorem combine_iff_apart {nests : List Nest} {sets : List McpToolSet}
    (h : List.Forall₂ (fun nest set => nest.make compile = .ok set) nests sets) :
    (∃ set, McpToolSet.combine compile sets = .ok set) ↔ Apart sets := by
  have hholds : ∃ contents, List.Forall₂ (Holds compile) sets contents := by
    induction h with
    | nil => exact ⟨[], .nil⟩
    | cons hmade _ ih =>
      obtain ⟨contents, hmakes⟩ := Nest.make_holds hmade
      obtain ⟨rest, hrest⟩ := ih
      exact ⟨_ :: rest, .cons hmakes.holds hrest⟩
  obtain ⟨contents, hall⟩ := hholds
  rw [exists_combine hall, apart_iff hall]

/-- The order and the grouping of the leaves do not matter. -/
theorem make_regrouped {nest nest' : Nest} {set : McpToolSet} (hleaves : nest.leaves.Perm nest'.leaves)
    (h : nest.make compile = .ok set) : ∃ set', nest'.make compile = .ok set' ∧
      set'.mappings = set.mappings ∧ set'.registry = set.registry := by
  obtain ⟨contents, hall, hnodup, hholds⟩ := Nest.make_holds h
  obtain ⟨contents', hall', hperm⟩ := List.perm_comp_forall₂ hleaves.symm hall
  have hheld : (held contents).Perm (held contents') := (hperm.symm.flatMap_right _)
  have hnodup' := (hheld.map Prod.fst).nodup_iff.mp hnodup
  obtain ⟨set', hset'⟩ := Nest.exists_make hall' hnodup'
  obtain ⟨other, hother, -, hholds'⟩ := Nest.make_holds hset'
  rw [leafHolds_unique hother hall', ← SortedMap.insertAll_congr hnodup hheld] at hholds'
  obtain ⟨-, hmappings, hregistry⟩ := hholds'.unique hholds
  exact ⟨set', hset', hmappings, hregistry⟩

variable (compile) in
/-- **The integrity of tool sets.** Every set that is made keeps its lists aligned and its tools;
sets that were made are combined when no local name occurs in two of them; and what is made does not
depend on the order or the grouping of the discovered sets. -/
theorem tool_set_integrity :
    (∀ nest set, Nest.make compile nest = .ok set → Integrity nest set) ∧
    (∀ nests sets, List.Forall₂ (fun nest set => Nest.make compile nest = .ok set) nests sets →
      ((∃ set, McpToolSet.combine compile sets = .ok set) ↔ Apart sets)) ∧
    ∀ nest nest' set, nest.leaves.Perm nest'.leaves → Nest.make compile nest = .ok set →
      ∃ set', Nest.make compile nest' = .ok set' ∧ set'.mappings = set.mappings ∧
        set'.registry = set.registry :=
  ⟨fun _ _ => integrity_of_make, fun _ _ => combine_iff_apart, fun _ _ _ => make_regrouped⟩

end Integrity

end GroupAgent.Mcp
