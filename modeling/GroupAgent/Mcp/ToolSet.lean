import GroupAgent.Lib.BinarySearch
import GroupAgent.Mcp.Session
import Mathlib.Data.List.Nodup

/-!
# MCP tool sets

Model of `McpToolSet` and `McpToolMapping` (`discovery.rs:20-24`, 48-54, `from_discovered` and
`combine` 63-192, `remote_name` 214-219) and of `McpRemoteTool` (`tool.rs:10-16`) of
`crates/group-agent-mcp/src`.

* A `BTreeMap` is a `SortedMap`; a `BTreeSet` is one to `Unit`.
* A set has three lists: its tools, its mappings and its registry. `Holds` says that they are those
  of one map from local names to tools.
* A remote definition is taken over with its schema. Its behavior is the override of the
  configuration, or that of a write that must not be repeated, whatever the server says of it.

Results:
* **`fromDiscovered_eq_ok`**: the tools that a set is made of.
* **`combine_eq_ok`**: a combination holds the union.
* `Holds.remoteName_eq`: the search in the mappings agrees with the registry.

Out of scope: calling a remote tool, which is a request to the server.
-/

namespace GroupAgent.Mcp

open GroupAgent.Lib GroupAgent.Model GroupAgent.Tool

/-! ## Tools and mappings -/

inductive TaskSupport where
  | forbidden
  | optional
  | required
  deriving DecidableEq, Repr

/-- A tool as the server lists it. -/
structure ProtocolTool where
  name : String
  description : Option String
  inputSchema : List (String × Json)
  taskSupport : Option TaskSupport

/-- A registered tool that calls a server. -/
structure McpRemoteTool where
  session : McpClientSession
  serverId : McpServerId
  remoteName : String
  definition : ToolDefinition
  behavior : ToolBehavior

instance : LocalTool McpRemoteTool where
  name tool := tool.definition.name
  definition tool := tool.definition
  behavior tool := tool.behavior

/-- What the tool sends when it is executed, and on which session. -/
def McpRemoteTool.call (tool : McpRemoteTool) (view : SessionView) (arguments : Json) :
    Except McpAdapterError (McpClientSession × McpClientSession.CallToolRequestParams) := do
  let params ← tool.session.callTool view tool.remoteName arguments
  pure (tool.session, params)

/-- Reversible local-to-remote name mapping. -/
structure McpToolMapping where
  serverId : McpServerId
  localName : ToolName
  remoteName : String
  deriving DecidableEq

/-- Immutable discovery and registry snapshot. -/
structure McpToolSet where
  registry : RegistryInner McpRemoteTool
  tools : List McpRemoteTool
  mappings : List McpToolMapping
  serverIds : List McpServerId
  namePolicyKinds : List McpToolNamePolicyKind

/-- What stands at a local name. -/
abbrev LocalEntry : Type := McpRemoteTool × McpToolMapping

instance : LinearOrder McpServerId :=
  LinearOrder.lift' (fun serverId => serverId.value) fun a b h => by
    obtain ⟨a, _⟩ := a
    obtain ⟨b, _⟩ := b
    cases h
    rfl

/-- The place of a kind in the declaration. -/
def McpToolNamePolicyKind.place : McpToolNamePolicyKind → Nat
  | .preserve => 0
  | .serverNamespace => 1
  | .prefixed => 2

instance : LinearOrder McpToolNamePolicyKind :=
  LinearOrder.lift' McpToolNamePolicyKind.place fun a b h => by
    cases a <;> cases b <;> first | rfl | cases h

/-- A `BTreeSet` of elements, in order. -/
def collectSet {κ : Type} [LinearOrder κ] (l : List κ) : List κ :=
  ((SortedMap.empty : SortedMap κ Unit).insertAll (l.map fun k => (k, ()))).entries.map Prod.fst

/-! ## Making a set -/

def mapRegistry (source : ToolRegistryError) : McpAdapterError :=
  match source with
  | .duplicateTool _ => .withSource .toolNameConflict (.registry source)
  | .invalidDefinition _ _ => .withSource .invalidToolDefinition (.registry source)

namespace McpToolSet

section Make

variable (compile : Compile)

def fromOrderedEntries (entries : List LocalEntry) (serverIds : List McpServerId)
    (namePolicyKinds : List McpToolNamePolicyKind) : Except McpAdapterError McpToolSet := do
  let tools := entries.map Prod.fst
  let mappings := entries.map Prod.snd
  let registry ← (tryFromTools compile tools).mapError mapRegistry
  pure { registry, tools, mappings, serverIds, namePolicyKinds }

/-- The description of a listed tool, or the one it gets. -/
def descriptionOf (tool : ProtocolTool) : String :=
  (tool.description.filter fun description => trim description ≠ "").getD
    ("MCP tool `" ++ tool.name ++ "`")

/-- The local name of a listed tool, past its checks. -/
def localNameOf (session : McpClientSession) (config : McpDiscoveryConfig) (tool : ProtocolTool) :
    Except McpAdapterError ToolName := do
  (validateRemoteName tool.name).mapError fun source =>
    (McpAdapterError.withSource .invalidToolDefinition (.config source)).withServer session.serverId
  if tool.taskSupport = some .required then
    throw ((McpAdapterError.withSource .invalidToolDefinition
      (.definition .taskExecutionRequired)).withServer session.serverId)
  (config.namePolicy.localName session.serverId tool.name).mapError fun source =>
    (McpAdapterError.withSource .invalidToolDefinition (.config source)).withServer session.serverId

/-- The tool and the mapping of a listed tool, at its local name. -/
def entryOf (session : McpClientSession) (config : McpDiscoveryConfig) (tool : ProtocolTool)
    (localName : ToolName) : LocalEntry where
  fst :=
    { session
      serverId := session.serverId
      remoteName := tool.name
      definition := ⟨localName, descriptionOf tool, .object tool.inputSchema⟩
      behavior := config.behaviorFor tool.name }
  snd := ⟨session.serverId, localName, tool.name⟩

/-- The state of the loop over the listed tools. -/
structure Found where
  byLocal : SortedMap ToolName LocalEntry
  discoveredRemote : List String

def discoverTool (session : McpClientSession) (config : McpDiscoveryConfig) (found : Found)
    (tool : ProtocolTool) : Except McpAdapterError Found := do
  let localName ← localNameOf session config tool
  if (found.byLocal.get? localName).isSome then
    throw (((McpAdapterError.new .toolNameConflict).withServer session.serverId).withTool localName)
  pure ⟨found.byLocal.upsert localName fun _ => entryOf session config tool localName,
    tool.name :: found.discoveredRemote⟩

/-- Map a listed page set into one immutable registry snapshot. -/
def fromDiscovered (session : McpClientSession) (tools : List ProtocolTool)
    (config : McpDiscoveryConfig) : Except McpAdapterError McpToolSet := do
  let found ← tools.foldlM (discoverTool session config) ⟨.empty, []⟩
  if config.overrideNames.any fun remoteName => remoteName ∉ found.discoveredRemote then
    throw ((McpAdapterError.ofConfig .unknownBehaviorOverride).withServer session.serverId)
  fromOrderedEntries compile (found.byLocal.entries.map Prod.snd) [session.serverId]
    [config.namePolicy.kind]

def insertLocal (byLocal : SortedMap ToolName LocalEntry) (entry : LocalEntry) :
    Except McpAdapterError (SortedMap ToolName LocalEntry) :=
  let mapping := entry.2
  if (byLocal.get? mapping.localName).isSome then
    .error (((McpAdapterError.new .toolNameConflict).withServer mapping.serverId).withTool
      mapping.localName)
  else .ok (byLocal.upsert mapping.localName fun _ => entry)

/-- Combine immutable server snapshots. -/
def combine (sets : List McpToolSet) : Except McpAdapterError McpToolSet := do
  let byLocal ← sets.foldlM
    (fun byLocal set => (set.tools.zip set.mappings).foldlM insertLocal byLocal) .empty
  fromOrderedEntries compile (byLocal.entries.map Prod.snd)
    (collectSet (sets.flatMap (·.serverIds))) (collectSet (sets.flatMap (·.namePolicyKinds)))

/-- Resolve a local name to the exact remote name. -/
def remoteName (set : McpToolSet) (localName : ToolName) : Option String :=
  (binarySearchBy (fun mapping => compare mapping.localName localName) set.mappings).bind fun index =>
    set.mappings[index]?.map (·.remoteName)

end Make

end McpToolSet

/-! ## What a set holds -/

section Content

variable {compile : Compile}

/-- The tool at a local name is the one its mapping describes. -/
structure Own (e : ToolName × LocalEntry) : Prop where
  defined : e.2.1.definition.name = e.1
  mapped : e.2.2.localName = e.1
  remote : e.2.1.remoteName = e.2.2.remoteName
  server : e.2.1.serverId = e.2.2.serverId
  session : e.2.1.session.serverId = e.2.1.serverId

/-- The lists of a set are those of one map from local names to tools. -/
structure Holds (compile : Compile) (set : McpToolSet) (content : SortedMap ToolName LocalEntry) :
    Prop where
  own : ∀ e ∈ content.entries, Own e
  tools : set.tools = content.entries.map (·.2.1)
  mappings : set.mappings = content.entries.map (·.2.2)
  registry : ∃ es, List.Forall₂ (Enters compile) set.tools es ∧
    set.registry = ⟨es.map Prod.snd, set.tools.length⟩

/-- A tool that has an entry in a registry. -/
def Registrable (compile : Compile) (tool : McpRemoteTool) : Prop :=
  ∃ entry, Tool.entryOf compile tool = .ok entry

theorem exists_enters : ∀ {tools : List McpRemoteTool},
    (∃ es, List.Forall₂ (Enters compile) tools es) ↔ ∀ tool ∈ tools, Registrable compile tool
  | [] => ⟨fun _ _ h => absurd h List.not_mem_nil, fun _ => ⟨[], .nil⟩⟩
  | tool :: tools => by
    rw [List.forall_mem_cons, ← exists_enters]
    constructor
    · rintro ⟨_, hall⟩
      cases hall with
      | cons h hall => exact ⟨⟨_, h.2⟩, _, hall⟩
    · rintro ⟨⟨entry, hentry⟩, es, hall⟩
      exact ⟨(LocalTool.name tool, entry) :: es, .cons ⟨rfl, hentry⟩ hall⟩

theorem enters_unique : ∀ {tools : List McpRemoteTool} {es es' : List _},
    List.Forall₂ (Enters compile) tools es → List.Forall₂ (Enters compile) tools es' → es = es'
  | [], _, _, .nil, .nil => rfl
  | _ :: _, e :: _, e' :: _, .cons h hall, .cons h' hall' => by
    have hentry : e.2 = e'.2 := Except.ok.inj (h.2.symm.trans h'.2)
    rw [enters_unique hall hall', Prod.ext (h.1.trans h'.1.symm) hentry]

variable {content content' : SortedMap ToolName LocalEntry} {set set' : McpToolSet}

/-- A map is the mappings and the registry of the set that holds it. -/
theorem Holds.unique (h : Holds compile set content) (h' : Holds compile set' content) :
    set.tools = set'.tools ∧ set.mappings = set'.mappings ∧ set.registry = set'.registry := by
  have htools : set.tools = set'.tools := h.tools.trans h'.tools.symm
  obtain ⟨es, hall, hregistry⟩ := h.registry
  obtain ⟨es', hall', hregistry'⟩ := h'.registry
  rw [htools] at hall hregistry
  refine ⟨htools, h.mappings.trans h'.mappings.symm, ?_⟩
  rw [hregistry, hregistry', enters_unique hall hall']

theorem Holds.registrable (h : Holds compile set content) :
    ∀ e ∈ content.entries, Registrable compile e.2.1 := by
  obtain ⟨es, hall, -⟩ := h.registry
  intro e he
  refine exists_enters.mp ⟨es, hall⟩ e.2.1 ?_
  rw [h.tools]
  exact List.mem_map_of_mem he

/-- Entries that are registrable make the set that holds them. -/
theorem fromOrderedEntries_eq_ok (hown : ∀ e ∈ content.entries, Own e)
    {serverIds : List McpServerId} {kinds : List McpToolNamePolicyKind} :
    McpToolSet.fromOrderedEntries compile (content.entries.map Prod.snd) serverIds kinds = .ok set ↔
      Holds compile set content ∧ set.serverIds = serverIds ∧ set.namePolicyKinds = kinds := by
  have hnames : ((content.entries.map Prod.snd).map Prod.fst).map LocalTool.name =
      content.entries.map Prod.fst := by
    rw [List.map_map, List.map_map]
    exact List.map_congr_left fun e he => (hown e he).defined
  have hsorted : (((content.entries.map Prod.snd).map Prod.fst).map
      LocalTool.name).Pairwise (· < ·) := by
    rw [hnames]
    exact List.pairwise_map.mpr content.sorted
  unfold McpToolSet.fromOrderedEntries
  constructor
  · intro h
    obtain ⟨registry, hregistry, h⟩ := bind_eq_ok.mp h
    cases h
    have hentered := (tryFromTools_sorted hsorted).mp (mapError_eq_ok.mp hregistry)
    exact ⟨⟨hown, List.map_map, List.map_map, hentered⟩, rfl, rfl⟩
  · rintro ⟨hholds, rfl, rfl⟩
    have htools : set.tools = (content.entries.map Prod.snd).map Prod.fst := by
      rw [hholds.tools, List.map_map]
      rfl
    have hmappings : set.mappings = (content.entries.map Prod.snd).map Prod.snd := by
      rw [hholds.mappings, List.map_map]
      rfl
    have hregistry := hholds.registry
    rw [htools] at hregistry
    refine bind_eq_ok.mpr ⟨set.registry, mapError_eq_ok.mpr ((tryFromTools_sorted hsorted).mpr
      hregistry), ?_⟩
    rw [← htools, ← hmappings]
    rfl

theorem exists_holds : (∃ set, Holds compile set content) ↔
    (∀ e ∈ content.entries, Own e) ∧ ∀ e ∈ content.entries, Registrable compile e.2.1 := by
  constructor
  · rintro ⟨set, h⟩
    exact ⟨h.own, h.registrable⟩
  · rintro ⟨hown, hregistrable⟩
    let tools := content.entries.map (·.2.1)
    have htools : ∀ tool ∈ tools, Registrable compile tool := List.forall_mem_map.mpr hregistrable
    obtain ⟨es, hall⟩ := exists_enters.mpr htools
    exact ⟨⟨⟨es.map Prod.snd, tools.length⟩, tools, content.entries.map (·.2.2), [], []⟩, hown, rfl,
      rfl, es, hall, rfl⟩

end Content

/-! ## The search -/

section Search

variable {compile : Compile} {content : SortedMap ToolName LocalEntry} {set : McpToolSet}

theorem Holds.sorted (h : Holds compile set content) :
    set.mappings.Pairwise fun a b => a.localName < b.localName := by
  rw [h.mappings, List.pairwise_map]
  refine content.sorted.imp_of_mem fun ha hb hlt => ?_
  rwa [(h.own _ ha).mapped, (h.own _ hb).mapped]

/-- The search finds what the map has. -/
theorem Holds.remoteName_eq (h : Holds compile set content) (name : ToolName) :
    set.remoteName name = (content.get? name).map (·.2.remoteName) := by
  have hfind := binarySearchBy_eq_find? h.sorted (p := fun mapping => mapping.localName = name)
    fun mapping => decide_eq_true_iff
  calc set.remoteName name
      = ((binarySearchBy (fun mapping => compare mapping.localName name) set.mappings).bind
          fun i => set.mappings[i]?).map (·.remoteName) := by
        rw [Option.map_bind]
        rfl
    _ = ((content.get? name).map (·.2)).map (·.remoteName) := by
        rw [hfind, h.mappings, SortedMap.find?_map_entries fun e he => ?_]
        rw [(h.own e he).mapped, decide_eq_true_iff]
    _ = (content.get? name).map (·.2.remoteName) := Option.map_map ..

theorem find?_entries {name : ToolName} : ∀ {tools : List McpRemoteTool} {es : List _},
    List.Forall₂ (Enters compile) tools es →
      (((es.map Prod.snd).find? fun entry => entry.definition.name = name).map (·.tool)) =
        tools.find? fun tool => tool.definition.name = name
  | [], _, .nil => rfl
  | tool :: tools, e :: es, .cons h hall => by
    obtain ⟨-, -, -, -, validator, -, hentry⟩ := entryOf_eq_ok.mp h.2
    rw [List.map_cons, List.find?_cons, List.find?_cons, ← find?_entries hall, hentry]
    show Option.map _ (match decide (tool.definition.name = name) with | true => _ | false => _) = _
    cases decide (tool.definition.name = name) <;> rfl

/-- The registry finds what the map has. -/
theorem Holds.get_eq (h : Holds compile set content) (name : ToolName) :
    set.registry.get name = (content.get? name).map (·.1) := by
  obtain ⟨es, hall, hregistry⟩ := h.registry
  unfold RegistryInner.get
  rw [hregistry]
  simp only
  rw [find?_entries hall, h.tools, SortedMap.find?_map_entries fun e he => ?_]
  rw [(h.own e he).defined, decide_eq_true_iff]

end Search

/-! ## Mapping listed tools -/

section Discovered

open McpToolSet

variable {compile : Compile} {session : McpClientSession} {config : McpDiscoveryConfig}
  {set : McpToolSet}

theorem localNameOf_eq_ok {tool : ProtocolTool} {name : ToolName} :
    localNameOf session config tool = .ok name ↔ isCanonical tool.name ∧
      tool.taskSupport ≠ some .required ∧
        config.namePolicy.localText session.serverId tool.name = name.value := by
  unfold localNameOf
  constructor
  · intro h
    obtain ⟨⟨⟩, hvalid, h⟩ := bind_eq_ok.mp h
    obtain ⟨htask, h⟩ := ite_error_eq_ok.mp h
    obtain ⟨-, hvalue⟩ := localName_eq_ok.mp (mapError_eq_ok.mp h)
    exact ⟨validateRemoteName_eq_ok.mp (mapError_eq_ok.mp hvalid), htask, hvalue⟩
  · rintro ⟨hcanonical, htask, hvalue⟩
    exact bind_eq_ok.mpr ⟨(), mapError_eq_ok.mpr (validateRemoteName_eq_ok.mpr hcanonical),
      ite_error_eq_ok.mpr ⟨htask, mapError_eq_ok.mpr (localName_eq_ok.mpr ⟨hcanonical, hvalue⟩)⟩⟩

/-- A listed tool and what stands at its local name. -/
structure Maps (session : McpClientSession) (config : McpDiscoveryConfig) (tool : ProtocolTool)
    (e : ToolName × LocalEntry) : Prop where
  named : localNameOf session config tool = .ok e.1
  entry : e.2 = McpToolSet.entryOf session config tool e.1

theorem Maps.remoteName {tool : ProtocolTool} {e : ToolName × LocalEntry}
    (h : Maps session config tool e) : e.2.2.remoteName = tool.name := by rw [h.entry]; rfl

theorem Maps.own {tool : ProtocolTool} {e : ToolName × LocalEntry} (h : Maps session config tool e) :
    Own e := by
  obtain ⟨name, entry⟩ := e
  obtain ⟨-, hentry⟩ := h
  dsimp only at hentry
  subst hentry
  exact ⟨rfl, rfl, rfl, rfl, rfl⟩

theorem Maps.all_own : ∀ {tools : List ProtocolTool} {es : List (ToolName × LocalEntry)},
    List.Forall₂ (Maps session config) tools es → ∀ e ∈ es, Own e
  | [], [], .nil => fun _ h => absurd h List.not_mem_nil
  | _ :: _, _ :: _, .cons h hall => List.forall_mem_cons.mpr ⟨h.own, Maps.all_own hall⟩

theorem Maps.remoteNames : ∀ {tools : List ProtocolTool} {es : List (ToolName × LocalEntry)},
    List.Forall₂ (Maps session config) tools es →
      es.map (·.2.2.remoteName) = tools.map (·.name)
  | [], [], .nil => rfl
  | _ :: _, _ :: _, .cons h hall => congrArg₂ List.cons h.remoteName (Maps.remoteNames hall)

/-- The local names are different when the remote names are. -/
theorem Maps.nodup_iff : ∀ {tools : List ProtocolTool} {es : List (ToolName × LocalEntry)},
    List.Forall₂ (Maps session config) tools es →
      ((es.map Prod.fst).Nodup ↔ (tools.map (·.name)).Nodup) := by
  intro tools es hall
  have htexts : (es.map Prod.fst).map (·.value) =
      (tools.map (·.name)).map (config.namePolicy.localText session.serverId) := by
    induction hall with
    | nil => rfl
    | cons h hall ih =>
      exact congrArg₂ List.cons (localNameOf_eq_ok.mp h.named).2.2.symm ih
  have hvalue : Function.Injective fun name : ToolName => name.value := by
    rintro ⟨⟨a, _⟩⟩ ⟨⟨b, _⟩⟩ h
    cases h
    rfl
  rw [← List.nodup_map_iff hvalue, htexts, List.nodup_map_iff (localText_injective _ _)]

/-- The state of the loop after one more tool. -/
def McpToolSet.Found.put (found : McpToolSet.Found) (e : ToolName × LocalEntry) : McpToolSet.Found :=
  ⟨found.byLocal.upsert e.1 fun _ => e.2, e.2.2.remoteName :: found.discoveredRemote⟩

theorem discoverTool_eq_ok {found found' : McpToolSet.Found} {tool : ProtocolTool} :
    discoverTool session config found tool = .ok found' ↔
      ∃ e, Maps session config tool e ∧ found.byLocal.get? e.1 = none ∧ found' = found.put e := by
  unfold discoverTool
  constructor
  · intro h
    obtain ⟨name, hname, h⟩ := bind_eq_ok.mp h
    obtain ⟨hnew, h⟩ := ite_error_eq_ok.mp h
    cases h
    exact ⟨(name, _), ⟨hname, rfl⟩, Option.not_isSome_iff_eq_none.mp hnew, rfl⟩
  · rintro ⟨⟨name, entry⟩, ⟨hname, hentry⟩, hnew, rfl⟩
    dsimp only at hname hentry hnew
    subst hentry
    exact bind_eq_ok.mpr ⟨name, hname, ite_error_eq_ok.mpr ⟨by simp [hnew], rfl⟩⟩

theorem foldl_found : ∀ {es : List (ToolName × LocalEntry)} {found : McpToolSet.Found},
    es.foldl McpToolSet.Found.put found = ⟨found.byLocal.insertAll es,
      (es.map (·.2.2.remoteName)).reverse ++ found.discoveredRemote⟩
  | [], _ => rfl
  | e :: es, found => by
    rw [List.foldl_cons, foldl_found, List.map_cons, List.reverse_cons, List.append_assoc]
    rfl

/-- The loop maps every tool, to names that are all different. -/
theorem discoverAll_eq_ok {tools : List ProtocolTool} {found : McpToolSet.Found} :
    tools.foldlM (discoverTool session config) ⟨.empty, []⟩ = .ok found ↔
      ∃ es, List.Forall₂ (Maps session config) tools es ∧ (es.map Prod.fst).Nodup ∧
        found = ⟨SortedMap.empty.insertAll es, (es.map (·.2.2.remoteName)).reverse⟩ := by
  have hput : ∀ (found : McpToolSet.Found) e,
      (found.put e).byLocal = found.byLocal.upsert e.1 fun _ => e.2 := fun _ _ => rfl
  have hstep : ∀ found tool found', discoverTool session config found tool = .ok found' ↔
      ∃ e, Maps session config tool e ∧ found.byLocal.get? e.1 = none ∧ found' = found.put e :=
    fun _ _ _ => discoverTool_eq_ok
  rw [SortedMap.foldlM_insert_eq_ok McpToolSet.Found.byLocal hput hstep]
  refine exists_congr fun es => and_congr_right fun hall => and_congr_right fun hnodup => ?_
  rw [foldl_found, List.append_nil]
  exact and_iff_right fun _ _ => rfl

/-- **Listed tools make a set when each of them maps to a registrable tool, their names are all
different, and every override names one of them.** The set holds them all. -/
theorem fromDiscovered_eq_ok {tools : List ProtocolTool} :
    fromDiscovered compile session tools config = .ok set ↔
      ∃ es, List.Forall₂ (Maps session config) tools es ∧ (tools.map (·.name)).Nodup ∧
        (∀ name ∈ config.overrideNames, name ∈ tools.map (·.name)) ∧
          Holds compile set (SortedMap.empty.insertAll es) ∧ set.serverIds = [session.serverId] ∧
            set.namePolicyKinds = [config.namePolicy.kind] := by
  have hown : ∀ {es : List (ToolName × LocalEntry)}, List.Forall₂ (Maps session config) tools es →
      (es.map Prod.fst).Nodup → ∀ e ∈ (SortedMap.empty.insertAll es).entries, Own e := by
    intro es hall hnodup e he
    have hperm := SortedMap.insertAll_empty_perm hnodup
    have he := hperm.mem_iff.mp he
    exact Maps.all_own hall e he
  unfold fromDiscovered
  constructor
  · intro h
    obtain ⟨found, hfound, h⟩ := bind_eq_ok.mp h
    obtain ⟨es, hall, hnodup, rfl⟩ := discoverAll_eq_ok.mp hfound
    obtain ⟨hnamed, h⟩ := ite_error_eq_ok.mp h
    obtain ⟨hholds, hids, hkinds⟩ := (fromOrderedEntries_eq_ok (hown hall hnodup)).mp h
    refine ⟨es, hall, (Maps.nodup_iff hall).mp hnodup, fun name hname => ?_, hholds, hids, hkinds⟩
    rw [← Maps.remoteNames hall]
    by_contra hnot
    exact hnamed (List.any_eq_true.mpr ⟨name, hname, by simpa using hnot⟩)
  · rintro ⟨es, hall, hnames, hnamed, hholds, hids, hkinds⟩
    have hnodup := (Maps.nodup_iff hall).mpr hnames
    have hfound := discoverAll_eq_ok.mpr ⟨es, hall, hnodup, rfl⟩
    have hmade := (fromOrderedEntries_eq_ok (hown hall hnodup)).mpr ⟨hholds, hids, hkinds⟩
    refine bind_eq_ok.mpr ⟨_, hfound, ite_error_eq_ok.mpr ⟨fun h => ?_, hmade⟩⟩
    obtain ⟨name, hname, hnot⟩ := List.any_eq_true.mp h
    have hmem := hnamed name hname
    rw [← Maps.remoteNames hall] at hmem
    simp only [List.mem_reverse, decide_not, Bool.not_eq_true',
      decide_eq_false_iff_not] at hnot
    exact hnot hmem

end Discovered

/-! ## Combining sets -/

section Combined

open McpToolSet

variable {compile : Compile} {set : McpToolSet}

theorem insertLocal_eq_ok {byLocal byLocal' : SortedMap ToolName LocalEntry} {entry : LocalEntry} :
    insertLocal byLocal entry = .ok byLocal' ↔
      ∃ e : ToolName × LocalEntry, e = (entry.2.localName, entry) ∧ byLocal.get? e.1 = none ∧
        byLocal' = byLocal.upsert e.1 fun _ => e.2 := by
  unfold insertLocal
  simp only
  rw [ite_error_eq_ok]
  constructor
  · rintro ⟨hnew, h⟩
    cases h
    exact ⟨_, rfl, Option.not_isSome_iff_eq_none.mp hnew, rfl⟩
  · rintro ⟨e, rfl, hnew, rfl⟩
    exact ⟨by simp [hnew], rfl⟩

/-- What the sets hold, one after the other. -/
def held (contents : List (SortedMap ToolName LocalEntry)) : List (ToolName × LocalEntry) :=
  contents.flatMap (·.entries)

theorem zip_eq {content : SortedMap ToolName LocalEntry} (h : Holds compile set content) :
    set.tools.zip set.mappings = content.entries.map Prod.snd := by
  rw [h.tools, h.mappings, List.zip_map']

/-- A set holds one map only. -/
theorem Holds.content_unique {content content' : SortedMap ToolName LocalEntry}
    (h : Holds compile set content) (h' : Holds compile set content') : content = content' := by
  have hentries : ∀ {content : SortedMap ToolName LocalEntry}, Holds compile set content →
      content.entries = (set.tools.zip set.mappings).map fun entry => (entry.2.localName, entry) := by
    intro content h
    rw [zip_eq h, List.map_map]
    symm
    calc content.entries.map ((fun entry : LocalEntry => (entry.2.localName, entry)) ∘ Prod.snd)
        = content.entries.map id :=
          List.map_congr_left fun e he => Prod.ext (h.own e he).mapped rfl
      _ = content.entries := List.map_id _
  apply SortedMap.eq_of_perm
  rw [hentries h, hentries h']

theorem flatMap_zip_eq : ∀ {sets : List McpToolSet} {contents : List _},
    List.Forall₂ (Holds compile) sets contents →
      (sets.flatMap fun set => set.tools.zip set.mappings) = (held contents).map Prod.snd
  | [], [], .nil => rfl
  | set :: sets, content :: contents, .cons h hall => by
    rw [List.flatMap_cons, zip_eq h, flatMap_zip_eq hall]
    unfold held
    rw [List.flatMap_cons, List.map_append]

theorem held_own : ∀ {sets : List McpToolSet} {contents : List _},
    List.Forall₂ (Holds compile) sets contents →
      ∀ e ∈ held contents, Own e ∧ Registrable compile e.2.1
  | [], [], .nil => fun _ h => absurd h List.not_mem_nil
  | set :: sets, content :: contents, .cons h hall => by
    intro e he
    unfold held at he
    rw [List.flatMap_cons, List.mem_append] at he
    rcases he with he | he
    · exact ⟨h.own e he, h.registrable e he⟩
    · exact held_own hall e he

theorem eq_of_mapped {es es' : List (ToolName × LocalEntry)} (hown : ∀ e ∈ es, Own e)
    (h : List.Forall₂ (fun (entry : LocalEntry) e => e = (entry.2.localName, entry))
      (es.map Prod.snd) es') : es' = es := by
  induction es generalizing es' with
  | nil =>
    cases h
    rfl
  | cons e es ih =>
    obtain ⟨he, hes⟩ := List.forall_mem_cons.mp hown
    cases h with
    | cons heq hall => rw [ih hes hall, heq, he.mapped]

/-- **Sets are combined when no local name occurs twice.** The combination holds what they hold. -/
theorem combine_eq_ok {sets : List McpToolSet} {contents : List (SortedMap ToolName LocalEntry)}
    (hall : List.Forall₂ (Holds compile) sets contents) : combine compile sets = .ok set ↔
      ((held contents).map Prod.fst).Nodup ∧
        Holds compile set (SortedMap.empty.insertAll (held contents)) ∧
          set.serverIds = collectSet (sets.flatMap (·.serverIds)) ∧
            set.namePolicyKinds = collectSet (sets.flatMap (·.namePolicyKinds)) := by
  have hown : ∀ e ∈ held contents, Own e := fun e he => (held_own hall e he).1
  have hstep : ∀ byLocal entry byLocal', insertLocal byLocal entry = .ok byLocal' ↔
      ∃ e : ToolName × LocalEntry, e = (entry.2.localName, entry) ∧ byLocal.get? e.1 = none ∧
        byLocal' = byLocal.upsert e.1 fun _ => e.2 := fun _ _ _ => insertLocal_eq_ok
  have hloop : ∀ {byLocal}, sets.foldlM
      (fun byLocal set => (set.tools.zip set.mappings).foldlM insertLocal byLocal) .empty =
        .ok byLocal ↔ ((held contents).map Prod.fst).Nodup ∧
          byLocal = SortedMap.empty.insertAll (held contents) := by
    intro byLocal
    rw [← foldlM_flatMap, flatMap_zip_eq hall,
      SortedMap.foldlM_insert_eq_ok id (fun _ _ => rfl) hstep]
    constructor
    · rintro ⟨es, hes, hnodup, -, rfl⟩
      obtain rfl := eq_of_mapped hown hes
      exact ⟨hnodup, rfl⟩
    · rintro ⟨hnodup, rfl⟩
      refine ⟨held contents, ?_, hnodup, fun _ _ => rfl, rfl⟩
      rw [List.forall₂_map_left_iff, List.forall₂_same]
      intro e he
      rw [(hown e he).mapped]
  have hinserted : ((held contents).map Prod.fst).Nodup →
      ∀ e ∈ (SortedMap.empty.insertAll (held contents)).entries, Own e := fun hnodup e he =>
    hown e ((SortedMap.insertAll_empty_perm hnodup).mem_iff.mp he)
  unfold combine
  rw [bind_eq_ok]
  constructor
  · rintro ⟨byLocal, hbyLocal, h⟩
    obtain ⟨hnodup, rfl⟩ := hloop.mp hbyLocal
    exact ⟨hnodup, (fromOrderedEntries_eq_ok (hinserted hnodup)).mp h⟩
  · rintro ⟨hnodup, hmade⟩
    exact ⟨_, hloop.mpr ⟨hnodup, rfl⟩, (fromOrderedEntries_eq_ok (hinserted hnodup)).mpr hmade⟩

/-- Nothing but a name that occurs twice keeps sets from being combined. -/
theorem exists_combine {sets : List McpToolSet} {contents : List (SortedMap ToolName LocalEntry)}
    (hall : List.Forall₂ (Holds compile) sets contents) :
    (∃ set, combine compile sets = .ok set) ↔ ((held contents).map Prod.fst).Nodup := by
  constructor
  · rintro ⟨set, h⟩
    exact ((combine_eq_ok hall).mp h).1
  · intro hnodup
    have hentries : ∀ e ∈ (SortedMap.empty.insertAll (held contents)).entries,
        Own e ∧ Registrable compile e.2.1 := fun e he =>
      held_own hall e ((SortedMap.insertAll_empty_perm hnodup).mem_iff.mp he)
    obtain ⟨set, hown, htools, hmappings, hregistry⟩ := exists_holds.mpr
      ⟨fun e he => (hentries e he).1, fun e he => (hentries e he).2⟩
    let whole : McpToolSet := ⟨set.registry, set.tools, set.mappings,
      collectSet (sets.flatMap (·.serverIds)), collectSet (sets.flatMap (·.namePolicyKinds))⟩
    have hwhole : Holds compile whole (SortedMap.empty.insertAll (held contents)) :=
      ⟨hown, htools, hmappings, hregistry⟩
    exact ⟨whole, (combine_eq_ok hall).mpr ⟨hnodup, hwhole, rfl, rfl⟩⟩

end Combined

end GroupAgent.Mcp
