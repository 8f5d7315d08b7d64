import GroupAgent.Tool.Registry

/-!
# MCP configuration

Model of `McpServerId` (`config.rs:22`), `McpToolPrefix` (61), `McpToolNamePolicy` (95-103,
`local_name` 126-138) and `McpDiscoveryConfig` (147-152, its methods 157-239) of
`crates/group-agent-mcp/src`, and of the errors of `error.rs`. A `usize` has 64 bits.

* Server identifiers and prefixes are texts that passed their checks, which is a field.
* No behavior override requires an idempotency key, which is a field.
* `derive(Default)` makes a configuration with both limits zero; `new` has the documented ones, and
  each method refuses a zero.

Results: **`localName_eq_ok`**: the local names. **`Built.limits_pos`**: limits stay positive, once
they are.

Out of scope: `McpServerConfig` and its environment, which are for spawning a process.
-/

namespace GroupAgent.Mcp

open GroupAgent.Lib GroupAgent.Model GroupAgent.Tool

/-! ## Errors -/

/-- Stable MCP adapter failure classification. -/
inductive McpAdapterErrorKind where
  | invalidConfig
  | initializationFailed
  | capabilityMissing
  | discoveryFailed
  | invalidToolDefinition
  | toolNameConflict
  | unsupportedContent
  | callFailed
  | protocol
  | transport
  | sessionClosed
  | shutdownFailed
  | other
  deriving DecidableEq, Repr

/-- Why local MCP configuration could not be accepted. -/
inductive McpConfigError where
  | emptyServerId
  | invalidServerId
  | emptyToolPrefix
  | invalidToolPrefix
  | invalidRemoteToolName
  | unsupportedIdempotencyKeyRequirement
  | duplicateBehaviorOverride
  | unknownBehaviorOverride
  | zeroDiscoveryPageLimit
  | zeroDiscoveryToolLimit
  deriving DecidableEq, Repr

/-! ## Names -/

def isCanonical (value : String) : Bool :=
  value ≠ "" && trim value == value && !value.toList.any isControl

/-- Stable identity for one configured MCP server. -/
structure McpServerId where
  value : String
  canonical : isCanonical value
  deriving DecidableEq

/-- Validated text used to namespace local tool names. -/
structure McpToolPrefix where
  value : String
  canonical : isCanonical value
  deriving DecidableEq

def McpServerId.new (value : String) : Except McpConfigError McpServerId :=
  if value = "" then .error .emptyServerId
  else if h : isCanonical value then .ok ⟨value, h⟩
  else .error .invalidServerId

def McpToolPrefix.new (value : String) : Except McpConfigError McpToolPrefix :=
  if value = "" then .error .emptyToolPrefix
  else if h : isCanonical value then .ok ⟨value, h⟩
  else .error .invalidToolPrefix

def validateRemoteName (name : String) : Except McpConfigError Unit :=
  if isCanonical name then .ok () else .error .invalidRemoteToolName

/-- Stable local-name policy for discovered tools. -/
inductive McpToolNamePolicy where
  | preserve
  | serverNamespace
  | prefixed (namespaceText : McpToolPrefix)

/-- Payload-safe category for one local naming policy. -/
inductive McpToolNamePolicyKind where
  | preserve
  | serverNamespace
  | prefixed
  deriving DecidableEq, Repr

namespace McpToolNamePolicy

def kind : McpToolNamePolicy → McpToolNamePolicyKind
  | .preserve => .preserve
  | .serverNamespace => .serverNamespace
  | .prefixed _ => .prefixed

/-- The text of a local name. -/
def localText (policy : McpToolNamePolicy) (serverId : McpServerId) (remoteName : String) : String :=
  match policy with
  | .preserve => remoteName
  | .serverNamespace => serverId.value ++ "__" ++ remoteName
  | .prefixed namespaceText => namespaceText.value ++ "__" ++ remoteName

/-- Map one remote name to its deterministic local tool name. -/
def localName (policy : McpToolNamePolicy) (serverId : McpServerId) (remoteName : String) :
    Except McpConfigError ToolName := do
  validateRemoteName remoteName
  (ToolName.new (policy.localText serverId remoteName)).mapError fun _ =>
    McpConfigError.invalidRemoteToolName

end McpToolNamePolicy

/-! ## Discovery configuration -/

def defaultMaxDiscoveryPages : UInt64 := 256

def defaultMaxDiscoveredTools : UInt64 := 4096

/-- Immutable discovery policy for one server snapshot. -/
structure McpDiscoveryConfig where
  namePolicy : McpToolNamePolicy
  behaviorOverrides : SortedMap String ToolBehavior
  maxPages : UInt64
  maxTools : UInt64
  overrides_no_key : ∀ e ∈ behaviorOverrides.entries, e.2.requiresIdempotencyKey = false

namespace McpDiscoveryConfig

def new : McpDiscoveryConfig where
  namePolicy := .preserve
  behaviorOverrides := .empty
  maxPages := defaultMaxDiscoveryPages
  maxTools := defaultMaxDiscoveredTools
  overrides_no_key := fun _ h => absurd h List.not_mem_nil

/-- What `derive(Default)` makes. -/
def default : McpDiscoveryConfig where
  namePolicy := .preserve
  behaviorOverrides := .empty
  maxPages := 0
  maxTools := 0
  overrides_no_key := fun _ h => absurd h List.not_mem_nil

def withNamePolicy (config : McpDiscoveryConfig) (namePolicy : McpToolNamePolicy) :
    McpDiscoveryConfig :=
  { config with namePolicy }

/-- Freeze an explicit behavior override for one remote tool name. -/
def withBehaviorOverride (config : McpDiscoveryConfig) (remoteName : String)
    (behavior : ToolBehavior) : Except McpConfigError McpDiscoveryConfig := do
  validateRemoteName remoteName
  if hkey : behavior.requiresIdempotencyKey then throw .unsupportedIdempotencyKeyRequirement
  else
    if (config.behaviorOverrides.get? remoteName).isSome then throw .duplicateBehaviorOverride
    pure
      { config with
        behaviorOverrides := config.behaviorOverrides.upsert remoteName fun _ => behavior
        overrides_no_key := fun e he => by
          obtain ⟨name, other⟩ := e
          have hread := SortedMap.mem_entries.mp he
          by_cases heq : name = remoteName
          · rw [heq, SortedMap.get?_upsert_self] at hread
            cases hread
            exact eq_false_of_ne_true hkey
          · rw [SortedMap.get?_upsert_of_ne heq] at hread
            exact config.overrides_no_key _ (SortedMap.mem_entries.mpr hread) }

/-- Set a non-zero maximum page count for one discovery traversal. -/
def withMaxPages (config : McpDiscoveryConfig) (maxPages : UInt64) :
    Except McpConfigError McpDiscoveryConfig :=
  if maxPages = 0 then .error .zeroDiscoveryPageLimit else .ok { config with maxPages }

/-- Set a non-zero maximum accumulated tool count. -/
def withMaxTools (config : McpDiscoveryConfig) (maxTools : UInt64) :
    Except McpConfigError McpDiscoveryConfig :=
  if maxTools = 0 then .error .zeroDiscoveryToolLimit else .ok { config with maxTools }

def behaviorFor (config : McpDiscoveryConfig) (remoteName : String) : ToolBehavior :=
  (config.behaviorOverrides.get? remoteName).getD (.new .nonIdempotentWrite)

def overrideNames (config : McpDiscoveryConfig) : List String :=
  config.behaviorOverrides.entries.map Prod.fst

end McpDiscoveryConfig

/-- A configuration that methods make of another one. -/
inductive Built (start : McpDiscoveryConfig) : McpDiscoveryConfig → Prop
  | start : Built start start
  | withNamePolicy {config} (namePolicy) :
      Built start config → Built start (config.withNamePolicy namePolicy)
  | withBehaviorOverride {config config' remoteName behavior} :
      Built start config → config.withBehaviorOverride remoteName behavior = .ok config' →
        Built start config'
  | withMaxPages {config config' maxPages} :
      Built start config → config.withMaxPages maxPages = .ok config' → Built start config'
  | withMaxTools {config config' maxTools} :
      Built start config → config.withMaxTools maxTools = .ok config' → Built start config'

/-- What the public API constructs. -/
def Constructible (config : McpDiscoveryConfig) : Prop :=
  Built .new config ∨ Built .default config

/-! ## What a name and a configuration keep -/

section Names

/-- A text is trimmed when neither its first character nor its last one is white space. -/
theorem trim_eq_self {s : String} : trim s = s ↔
    (∀ c ∈ s.toList.head?, isWhitespace c = false) ∧
      ∀ c ∈ s.toList.getLast?, isWhitespace c = false := by
  rw [← String.toList_inj, trim_toList]
  generalize s.toList = l
  constructor
  · intro h
    have hdrop : l.dropWhile isWhitespace = l := by
      refine (List.dropWhile_suffix isWhitespace).eq_of_length_le ?_
      calc l.length = ((l.dropWhile isWhitespace).rdropWhile isWhitespace).length := by rw [h]
        _ ≤ (l.dropWhile isWhitespace).length :=
          (List.rdropWhile_prefix (l := l.dropWhile isWhitespace) isWhitespace).length_le
    rw [hdrop] at h
    constructor
    · intro c hc
      cases l with
      | nil => cases hc
      | cons d l =>
        cases hc
        have := List.dropWhile_eq_self_iff.mp hdrop (Nat.succ_pos _)
        simpa using this
    · intro c hc
      obtain ⟨hne, rfl⟩ := List.mem_getLast?_eq_getLast hc
      simpa using List.rdropWhile_eq_self_iff.mp h hne
  · rintro ⟨hhead, hlast⟩
    have hdrop : l.dropWhile isWhitespace = l := by
      cases l with
      | nil => rfl
      | cons d l =>
        rw [List.dropWhile_cons_of_neg]
        rw [hhead d rfl]
        exact Bool.false_ne_true
    rw [hdrop, List.rdropWhile_eq_self_iff]
    intro hne
    rw [hlast _ (List.getLast?_eq_getLast_of_ne_nil hne ▸ rfl)]
    exact Bool.false_ne_true

theorem isCanonical_iff {value : String} : isCanonical value ↔
    value ≠ "" ∧ trim value = value ∧ ∀ c ∈ value.toList, isControl c = false := by
  unfold isCanonical
  simp [and_assoc]

/-- A namespace before a name is a name. -/
theorem isCanonical_append {a b : String} (ha : isCanonical a) (hb : isCanonical b) :
    isCanonical (a ++ "__" ++ b) := by
  obtain ⟨hane, hatrim, hacontrol⟩ := isCanonical_iff.mp ha
  obtain ⟨hbne, hbtrim, hbcontrol⟩ := isCanonical_iff.mp hb
  have hatext : a.toList ≠ [] := fun h => hane (String.toList_inj.mp h)
  have hbtext : b.toList ≠ [] := fun h => hbne (String.toList_inj.mp h)
  have htext : (a ++ "__" ++ b).toList = a.toList ++ ('_' :: '_' :: b.toList) := by simp
  rw [isCanonical_iff, trim_eq_self, htext]
  refine ⟨?_, ⟨?_, ?_⟩, ?_⟩
  · intro h
    have := congrArg String.toList h
    rw [htext] at this
    exact hatext (List.append_eq_nil_iff.mp this).1
  · rw [List.head?_append_of_ne_nil _ hatext]
    exact (trim_eq_self.mp hatrim).1
  · have hlast : (a.toList ++ '_' :: '_' :: b.toList).getLast? = b.toList.getLast? := by
      rw [List.getLast?_append_cons, List.getLast?_cons_cons,
        List.getLast?_cons_of_ne_nil hbtext]
    rw [hlast]
    exact (trim_eq_self.mp hbtrim).2
  · intro c hc
    rw [List.mem_append, List.mem_cons, List.mem_cons] at hc
    rcases hc with h | rfl | rfl | h
    · exact hacontrol c h
    · rfl
    · rfl
    · exact hbcontrol c h

theorem isCanonical_localText {policy : McpToolNamePolicy} {serverId : McpServerId}
    {remoteName : String} (h : isCanonical remoteName) :
    isCanonical (policy.localText serverId remoteName) := by
  cases policy with
  | preserve => exact h
  | serverNamespace => exact isCanonical_append serverId.canonical h
  | prefixed namespaceText => exact isCanonical_append namespaceText.canonical h

/-- Under one policy, different remote names have different local names. -/
theorem localText_injective (policy : McpToolNamePolicy) (serverId : McpServerId) :
    Function.Injective (policy.localText serverId) := by
  intro a b h
  cases policy with
  | preserve => exact h
  | serverNamespace => exact (String.append_right_inj _).mp h
  | prefixed namespaceText => exact (String.append_right_inj _).mp h

theorem validateRemoteName_eq_ok {name : String} :
    validateRemoteName name = .ok () ↔ isCanonical name := by
  unfold validateRemoteName
  by_cases h : isCanonical name
  · simp [h]
  · simp [h]

/-- The canonical remote names are those that have a local name. -/
theorem localName_eq_ok {policy : McpToolNamePolicy} {serverId : McpServerId} {remoteName : String}
    {name : ToolName} : policy.localName serverId remoteName = .ok name ↔
      isCanonical remoteName ∧ policy.localText serverId remoteName = name.value := by
  unfold McpToolNamePolicy.localName
  rw [bind_eq_ok]
  constructor
  · rintro ⟨⟨⟩, hvalid, h⟩
    exact ⟨validateRemoteName_eq_ok.mp hvalid, ToolName.new_eq_ok.mp (mapError_eq_ok.mp h)⟩
  · rintro ⟨hcanonical, hvalue⟩
    exact ⟨(), validateRemoteName_eq_ok.mpr hcanonical,
      mapError_eq_ok.mpr (ToolName.new_eq_ok.mpr hvalue)⟩

/-- Every canonical remote name has a local name. -/
theorem exists_localName {policy : McpToolNamePolicy} {serverId : McpServerId} {remoteName : String}
    (h : isCanonical remoteName) : ∃ name, policy.localName serverId remoteName = .ok name := by
  have hlocal : isCanonical (policy.localText serverId remoteName) := isCanonical_localText h
  obtain ⟨hne, htrim, -⟩ := isCanonical_iff.mp hlocal
  have hnonblank : trim (policy.localText serverId remoteName) ≠ "" := by rwa [htrim]
  exact ⟨⟨⟨policy.localText serverId remoteName, hnonblank⟩⟩, localName_eq_ok.mpr ⟨h, rfl⟩⟩

end Names

section Limits

variable {start config : McpDiscoveryConfig}

/-- Positive limits stay positive. -/
theorem Built.limits_pos (hpages : 0 < start.maxPages) (htools : 0 < start.maxTools)
    (h : Built start config) : 0 < config.maxPages ∧ 0 < config.maxTools := by
  induction h with
  | start => exact ⟨hpages, htools⟩
  | withNamePolicy namePolicy _ ih => exact ih
  | withBehaviorOverride _ hmade ih =>
    unfold McpDiscoveryConfig.withBehaviorOverride at hmade
    obtain ⟨⟨⟩, -, hmade⟩ := bind_eq_ok.mp hmade
    split at hmade
    · cases hmade
    · obtain ⟨-, hmade⟩ := ite_error_eq_ok.mp hmade
      cases hmade
      exact ih
  | withMaxPages _ hmade ih =>
    obtain ⟨hne, hmade⟩ := ite_error_eq_ok.mp hmade
    cases hmade
    exact ⟨UInt64.pos_iff_ne_zero.mpr hne, ih.2⟩
  | withMaxTools _ hmade ih =>
    obtain ⟨hne, hmade⟩ := ite_error_eq_ok.mp hmade
    cases hmade
    exact ⟨ih.1, UInt64.pos_iff_ne_zero.mpr hne⟩

/-- What behavior a tool gets, it validates. -/
theorem validate_behaviorFor (config : McpDiscoveryConfig) (remoteName : String) :
    (config.behaviorFor remoteName).validate = .ok () := by
  apply ToolBehavior.validate_of_no_key
  unfold McpDiscoveryConfig.behaviorFor
  cases hread : config.behaviorOverrides.get? remoteName with
  | none => rfl
  | some behavior => exact config.overrides_no_key _ (SortedMap.mem_entries.mpr hread)

end Limits

end GroupAgent.Mcp
