import GroupAgent.Tool.Runtime
import GroupAgent.Lib.SortedMap

/-!
# Building a registry

Model of `ToolRegistryBuilder` (`registry.rs:53-130`) and `ToolRegistry::try_from_tools` (176-185),
and of `Tool` and `ToolBehavior::validate` (`tool.rs:293-305`, 91-101) of
`crates/group-agent-tool/src`.

* The compilation of a schema, of the crate `jsonschema`, is a parameter.
* A builder that refused a tool is dropped by `try_from_tools`, and is not returned.
* The checks of a tool come in the order of the source: a name that is taken, the name of its
  definition, the form of the name, the description, the behavior, the schema.

Results: **`tryFromTools_eq_ok`**: the tools that make a registry, and the registry they make.

Out of scope: the counts of schema compilations, which tests observe.
-/

namespace GroupAgent.Tool

open GroupAgent.Lib GroupAgent.Model

/-- Names are ordered as their texts are. -/
instance : LinearOrder ToolName :=
  LinearOrder.lift' (fun name => name.value) fun a b h => by
    obtain ⟨⟨a, _⟩⟩ := a
    obtain ⟨⟨b, _⟩⟩ := b
    cases h
    rfl

/-- What a tool says of itself. -/
class LocalTool (τ : Type) where
  name : τ → ToolName
  definition : τ → ToolDefinition
  behavior : τ → ToolBehavior

/-- Invalid behavior metadata. -/
inductive ToolBehaviorError where
  | readOnlyRequiresIdempotencyKey
  | nonIdempotentWriteRequiresIdempotencyKey
  deriving DecidableEq, Repr

def ToolBehavior.validate (behavior : ToolBehavior) : Except ToolBehaviorError Unit :=
  if behavior.sideEffect = .readOnly ∧ behavior.requiresIdempotencyKey then
    .error .readOnlyRequiresIdempotencyKey
  else if behavior.sideEffect = .nonIdempotentWrite ∧ behavior.requiresIdempotencyKey then
    .error .nonIdempotentWriteRequiresIdempotencyKey
  else .ok ()

theorem ToolBehavior.validate_of_no_key {behavior : ToolBehavior}
    (h : behavior.requiresIdempotencyKey = false) : behavior.validate = .ok () := by
  unfold ToolBehavior.validate
  simp [h]

/-- Why one tool definition could not be registered. -/
inductive ToolDefinitionError where
  | nameMismatch (advertised defined : ToolName)
  | invalidName
  | emptyDescription
  | invalidSchema (violation : SchemaViolation) (source : String)
  | invalidBehavior (source : ToolBehaviorError)

/-- A deterministic registry construction failure. -/
inductive ToolRegistryError where
  | invalidDefinition (toolName : ToolName) (source : ToolDefinitionError)
  | duplicateTool (toolName : ToolName)

def isCanonicalName (name : String) : Bool := trim name == name && !name.toList.any isControl

/-- A registered tool. -/
structure RegistryEntry (τ : Type) extends RegisteredTool where
  tool : τ

/-- The compilation of a schema to its validator. -/
abbrev Compile : Type :=
  Json → Except (SchemaViolation × String) (Json → Except (SchemaViolation × String) Unit)

/-- The entries by name, and how many schemas were compiled. -/
structure ToolRegistryBuilder (τ : Type) where
  entries : SortedMap ToolName (RegistryEntry τ)
  schemaCompilationCount : Nat

/-- A frozen registry, its entries by name. -/
structure RegistryInner (τ : Type) where
  entries : List (RegistryEntry τ)
  schemaCompilationCount : Nat

def ToolRegistryBuilder.build {τ : Type} (builder : ToolRegistryBuilder τ) : RegistryInner τ :=
  ⟨builder.entries.entries.map Prod.snd, builder.schemaCompilationCount⟩

/-- A shared tool, by name. -/
def RegistryInner.get {τ : Type} (registry : RegistryInner τ) (name : ToolName) : Option τ :=
  (registry.entries.find? fun entry => entry.definition.name = name).map (·.tool)

section Builder

variable {τ : Type} [LocalTool τ] (compile : Compile)

/-- The entry of a tool that may be registered, past the check of its name. -/
def entryOf (tool : τ) : Except ToolRegistryError (RegistryEntry τ) := do
  let advertised := LocalTool.name tool
  let definition := LocalTool.definition tool
  if advertised ≠ definition.name then
    throw (.invalidDefinition advertised (.nameMismatch advertised definition.name))
  if !isCanonicalName advertised.value then
    throw (.invalidDefinition advertised .invalidName)
  if trim definition.description = "" then
    throw (.invalidDefinition advertised .emptyDescription)
  let behavior := LocalTool.behavior tool
  behavior.validate.mapError fun source =>
    ToolRegistryError.invalidDefinition advertised (.invalidBehavior source)
  let validator ← (compile definition.inputSchema).mapError fun error =>
    ToolRegistryError.invalidDefinition advertised (.invalidSchema error.1 error.2)
  pure { definition, behavior, validator, tool }

/-- Register one tool. -/
def registerArc (builder : ToolRegistryBuilder τ) (tool : τ) :
    Except ToolRegistryError (ToolRegistryBuilder τ) := do
  let name := LocalTool.name tool
  if (builder.entries.get? name).isSome then throw (.duplicateTool name)
  let entry ← entryOf compile tool
  pure ⟨builder.entries.upsert name fun _ => entry, builder.schemaCompilationCount + 1⟩

/-- Register tools, and freeze the registry. -/
def tryFromTools (tools : List τ) : Except ToolRegistryError (RegistryInner τ) := do
  let builder ← tools.foldlM (registerArc compile) ⟨.empty, 0⟩
  pure builder.build

variable {compile}

theorem entryOf_eq_ok {tool : τ} {entry : RegistryEntry τ} : entryOf compile tool = .ok entry ↔
    LocalTool.name tool = (LocalTool.definition tool).name ∧
      isCanonicalName (LocalTool.name tool).value ∧
        trim (LocalTool.definition tool).description ≠ "" ∧
          (LocalTool.behavior tool).validate = .ok () ∧
            ∃ validator, compile (LocalTool.definition tool).inputSchema = .ok validator ∧
              entry = { definition := LocalTool.definition tool, behavior := LocalTool.behavior tool,
                        validator, tool } := by
  unfold entryOf
  constructor
  · intro h
    obtain ⟨hname, h⟩ := ite_error_eq_ok.mp h
    obtain ⟨hcanonical, h⟩ := ite_error_eq_ok.mp h
    obtain ⟨hdescription, h⟩ := ite_error_eq_ok.mp h
    obtain ⟨⟨⟩, hbehavior, h⟩ := bind_eq_ok.mp h
    obtain ⟨validator, hvalidator, h⟩ := bind_eq_ok.mp h
    cases h
    exact ⟨not_not.mp hname, by simpa using hcanonical, hdescription, mapError_eq_ok.mp hbehavior,
      validator, mapError_eq_ok.mp hvalidator, rfl⟩
  · rintro ⟨hname, hcanonical, hdescription, hbehavior, validator, hvalidator, rfl⟩
    refine ite_error_eq_ok.mpr ⟨not_not.mpr hname, ite_error_eq_ok.mpr ⟨by simpa using hcanonical,
      ite_error_eq_ok.mpr ⟨hdescription, ?_⟩⟩⟩
    exact bind_eq_ok.mpr ⟨(), mapError_eq_ok.mpr hbehavior,
      bind_eq_ok.mpr ⟨validator, mapError_eq_ok.mpr hvalidator, rfl⟩⟩

/-- The builder with one more entry. -/
def ToolRegistryBuilder.put (builder : ToolRegistryBuilder τ) (e : ToolName × RegistryEntry τ) :
    ToolRegistryBuilder τ :=
  ⟨builder.entries.upsert e.1 fun _ => e.2, builder.schemaCompilationCount + 1⟩

/-- The entry of a tool, at its name. -/
def Enters (compile : Compile) (tool : τ) (e : ToolName × RegistryEntry τ) : Prop :=
  e.1 = LocalTool.name tool ∧ entryOf compile tool = .ok e.2

theorem registerArc_eq_ok {builder builder' : ToolRegistryBuilder τ} {tool : τ} :
    registerArc compile builder tool = .ok builder' ↔
      ∃ e, Enters compile tool e ∧ builder.entries.get? e.1 = none ∧ builder' = builder.put e := by
  unfold registerArc
  constructor
  · intro h
    obtain ⟨hnew, hrest⟩ := ite_error_eq_ok.mp h
    obtain ⟨entry, hentry, hdone⟩ := bind_eq_ok.mp hrest
    cases hdone
    exact ⟨(LocalTool.name tool, entry), ⟨rfl, hentry⟩, Option.not_isSome_iff_eq_none.mp hnew, rfl⟩
  · rintro ⟨⟨name, entry⟩, ⟨rfl, hentry⟩, hnew, rfl⟩
    exact ite_error_eq_ok.mpr ⟨by simp [hnew], bind_eq_ok.mpr ⟨entry, hentry, rfl⟩⟩

omit [LocalTool τ] in
theorem foldl_put : ∀ {es : List (ToolName × RegistryEntry τ)} {builder : ToolRegistryBuilder τ},
    es.foldl ToolRegistryBuilder.put builder =
      ⟨builder.entries.insertAll es, builder.schemaCompilationCount + es.length⟩
  | [], _ => rfl
  | e :: es, builder => by
    rw [List.foldl_cons, foldl_put, List.length_cons, Nat.add_comm es.length, ← Nat.add_assoc]
    rfl

/-- Tools make a registry when each of them has an entry, and their names are all different. -/
theorem tryFromTools_eq_ok {tools : List τ} {registry : RegistryInner τ} :
    tryFromTools compile tools = .ok registry ↔ ∃ es, List.Forall₂ (Enters compile) tools es ∧
      (es.map Prod.fst).Nodup ∧
        registry = ToolRegistryBuilder.build ⟨SortedMap.empty.insertAll es, es.length⟩ := by
  have hloop : ∀ {builder}, tools.foldlM (registerArc compile) ⟨.empty, 0⟩ = .ok builder ↔
      ∃ es, List.Forall₂ (Enters compile) tools es ∧ (es.map Prod.fst).Nodup ∧
        (∀ k ∈ es.map Prod.fst, (SortedMap.empty : SortedMap _ (RegistryEntry τ)).get? k = none) ∧
          builder = es.foldl ToolRegistryBuilder.put ⟨.empty, 0⟩ :=
    SortedMap.foldlM_insert_eq_ok ToolRegistryBuilder.entries (fun _ _ => rfl)
      fun _ _ _ => registerArc_eq_ok
  unfold tryFromTools
  rw [bind_eq_ok]
  constructor
  · rintro ⟨builder, hbuilder, h⟩
    cases h
    obtain ⟨es, hall, hnodup, -, rfl⟩ := hloop.mp hbuilder
    exact ⟨es, hall, hnodup, by rw [foldl_put, Nat.zero_add]⟩
  · rintro ⟨es, hall, hnodup, rfl⟩
    refine ⟨_, hloop.mpr ⟨es, hall, hnodup, fun _ _ => rfl, rfl⟩, ?_⟩
    rw [foldl_put, Nat.zero_add]
    rfl

/-- The names of the entries are those of the tools. -/
theorem Enters.names : ∀ {tools : List τ} {es : List (ToolName × RegistryEntry τ)},
    List.Forall₂ (Enters compile) tools es → es.map Prod.fst = tools.map LocalTool.name
  | [], [], .nil => rfl
  | _ :: _, _ :: _, .cons h hall => congrArg₂ List.cons h.1 (Enters.names hall)

/-- Tools in increasing order of names keep that order. -/
theorem tryFromTools_sorted {tools : List τ} (hsorted : (tools.map LocalTool.name).Pairwise (· < ·))
    {registry : RegistryInner τ} : tryFromTools compile tools = .ok registry ↔
      ∃ es, List.Forall₂ (Enters compile) tools es ∧ registry = ⟨es.map Prod.snd, tools.length⟩ := by
  have hbuild : ∀ {es : List (ToolName × RegistryEntry τ)}, List.Forall₂ (Enters compile) tools es →
      ToolRegistryBuilder.build ⟨SortedMap.empty.insertAll es, es.length⟩ =
        ⟨es.map Prod.snd, tools.length⟩ := by
    intro es hall
    unfold ToolRegistryBuilder.build
    rw [SortedMap.insertAll_sorted (by rwa [Enters.names hall]), hall.length_eq]
  rw [tryFromTools_eq_ok]
  constructor
  · rintro ⟨es, hall, -, rfl⟩
    exact ⟨es, hall, hbuild hall⟩
  · rintro ⟨es, hall, rfl⟩
    exact ⟨es, hall, by rw [Enters.names hall]; exact hsorted.imp ne_of_lt, (hbuild hall).symm⟩

end Builder

end GroupAgent.Tool
