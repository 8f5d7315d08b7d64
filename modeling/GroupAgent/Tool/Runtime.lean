import GroupAgent.Model.Message
import GroupAgent.Lib.Except

/-!
# The tool runtime

Model of `ToolBehavior` and its companions (`tool.rs:15-222`), of the errors and events of the
runtime (`error.rs`, `event.rs`), of the registry as the runtime reads it (`registry.rs:189-202`)
and of the execution of one call (`prepare` and `execute_prepared`, `runtime.rs:563-607`, 623-684)
in `crates/group-agent-tool/src`.

* Tools and observers are foreign code. `Answers` is what they answer while one call is executed;
  every definition that meets them takes it as a parameter.
* An observer that fails returned an error or panicked; `emit` catches both. A start event stops at
  the first failure, any other event reaches every observer; what is kept is the first failure.
* The compiled schema of a tool is its `validator`, of the crate `jsonschema`.
* Foreign errors are kept as their texts.

Results: **`executePrepared_single`**, `prepare_single`: an execution inside a batch is that of a
single call, up to the batch index of its error context.

Out of scope: how long a tool takes. Whether its timeout passes first is one of the answers.
-/

namespace GroupAgent.Tool

open GroupAgent.Lib GroupAgent.Model

/-! ## Behavior -/

/-- Coarse side-effect classification for application execution policy. -/
inductive ToolSideEffect where
  | readOnly
  | idempotentWrite
  | nonIdempotentWrite
  deriving DecidableEq, Repr

/-- Stable behavior metadata cached with a registered tool. -/
structure ToolBehavior where
  sideEffect : ToolSideEffect
  allowsParallel : Bool
  requiresIdempotencyKey : Bool
  deriving DecidableEq, Repr

/-- The conservative default behavior for a side-effect class. -/
def ToolBehavior.new (sideEffect : ToolSideEffect) : ToolBehavior where
  sideEffect
  allowsParallel := sideEffect ≠ .nonIdempotentWrite
  requiresIdempotencyKey := false

/-- `char::is_control`: the Unicode category `Cc`. -/
def isControl (c : Char) : Bool :=
  c.toNat < 0x20 || (0x7F ≤ c.toNat && c.toNat < 0xA0)

def isValidCallIdentifier (value : String) : Bool :=
  trim value == value && !value.toList.any isControl

/-- An opaque application idempotency key. -/
structure IdempotencyKey where
  value : String
  nonempty : value ≠ ""
  canonical : isValidCallIdentifier value

/-- Per-call timeout (in nanoseconds), idempotency, metadata, and side-effect policy. -/
structure ToolExecutionOptions where
  timeout : Option Nat
  idempotencyKey : Option IdempotencyKey
  metadata : Extensions
  allowNonIdempotentWrites : Bool

/-- Default options, with no timeout or key. -/
def ToolExecutionOptions.new : ToolExecutionOptions := ⟨none, none, .empty, true⟩

/-! ## Errors and events -/

/-- Safe identity and input position for one tool execution. -/
structure ToolCallContext where
  callId : ToolCallId
  toolName : ToolName
  batchIndex : Option Nat
  deriving DecidableEq

/-- Stable classification shared by runtime errors and redacted events. -/
inductive ToolRuntimeErrorKind where
  | invalidDefinition
  | duplicateTool
  | toolNotFound
  | invalidToolCall
  | invalidArguments
  | unsupportedExecution
  | missingIdempotencyKey
  | timedOut
  | executionFailed
  | cancelled
  | notStartedDueToFailFast
  | observerFailed
  | other
  deriving DecidableEq, Repr

/-- A redacted JSON Schema validation location. -/
structure SchemaViolation where
  instancePath : String
  schemaPath : String
  keyword : String

/-- An observer returned an error or panicked. -/
inductive ToolObserverFailure where
  | returned (source : String)
  | panicked

inductive ToolErrorKind where
  | cancelled
  | other
  deriving DecidableEq, Repr

/-- An error returned by a tool. -/
structure ToolError where
  kind : ToolErrorKind
  message : String

/-- What a runtime error stems from. -/
inductive ToolErrorSource where
  | schema (text : String)
  | observer (source : ToolObserverFailure)
  | elapsed
  | tool (source : ToolError)

/-- A source-preserving tool runtime failure. -/
structure ToolRuntimeError where
  kind : ToolRuntimeErrorKind
  context : ToolCallContext
  violation : Option SchemaViolation
  timeout : Option Nat
  source : Option ToolErrorSource

namespace ToolRuntimeError

def new (kind : ToolRuntimeErrorKind) (context : ToolCallContext) : ToolRuntimeError :=
  ⟨kind, context, none, none, none⟩

def withSource (kind : ToolRuntimeErrorKind) (context : ToolCallContext) (source : ToolErrorSource) :
    ToolRuntimeError :=
  { new kind context with source := some source }

def invalidArguments (context : ToolCallContext) (violation : SchemaViolation) (source : String) :
    ToolRuntimeError :=
  { new .invalidArguments context with violation := some violation, source := some (.schema source) }

def observerFailed (context : ToolCallContext) (source : ToolObserverFailure) : ToolRuntimeError :=
  withSource .observerFailed context (.observer source)

def timedOut (context : ToolCallContext) (timeout : Nat) : ToolRuntimeError :=
  { withSource .timedOut context .elapsed with timeout := some timeout }

end ToolRuntimeError

/-- Payload-free lifecycle event for one tool execution. -/
inductive ToolEvent where
  | executionStarted (context : ToolCallContext)
  | executionCompleted (context : ToolCallContext) (isError : Bool)
  | executionFailed (context : ToolCallContext) (kind : ToolRuntimeErrorKind)
  | executionTimedOut (context : ToolCallContext) (timeout : Nat)
  deriving DecidableEq

/-! ## The registry and the runtime -/

/-- A registered tool, without the tool itself. -/
structure RegisteredTool where
  definition : ToolDefinition
  behavior : ToolBehavior
  validator : Json → Except (SchemaViolation × String) Unit

/-- An immutable registry: its entries have different names. -/
structure ToolRegistry where
  entries : List RegisteredTool
  names_nodup : (entries.map fun entry => entry.definition.name).Nodup

def ToolRegistry.definitions (registry : ToolRegistry) : List ToolDefinition :=
  registry.entries.map RegisteredTool.definition

theorem ToolRegistry.definitions_nodup (registry : ToolRegistry) :
    (registry.definitions.map ToolDefinition.name).Nodup := by
  unfold definitions
  rw [List.map_map]
  exact registry.names_nodup

def ToolRegistry.entry (registry : ToolRegistry) (name : ToolName) : Option RegisteredTool :=
  registry.entries.find? fun entry => entry.definition.name = name

/-- Validating, immutable local tool execution facade. The observers are counted. -/
structure ToolRuntime where
  registry : ToolRegistry
  eventSinks : Nat

/-- Tool-produced content and optional execution metadata. -/
structure ToolOutput where
  result : ToolResult
  metadata : Extensions

/-- One primary execution outcome plus an optional terminal-observer diagnostic. -/
structure ToolExecutionReport (α : Type) where
  primary : Except ToolRuntimeError α
  terminalObserverFailure : Option ToolObserverFailure

def ToolExecutionReport.map {α β : Type} (f : α → β) (report : ToolExecutionReport α) :
    ToolExecutionReport β :=
  ⟨report.primary.map f, report.terminalObserverFailure⟩

/-- What foreign code answers in the execution of one call: each observer to the event of the start
and to the last event, and the tool, unless a timeout elapses first. -/
structure Answers where
  started : List (Option ToolObserverFailure)
  elapsed : Bool
  output : Except ToolError ToolOutput
  terminal : List (Option ToolObserverFailure)

def callContext (call : ToolCall) (batchIndex : Option Nat) : ToolCallContext :=
  ⟨call.id, call.name, batchIndex⟩

namespace ToolRuntime

variable (runtime : ToolRuntime)

/-- Tell the observers: the first failure among what they answer. -/
def emit (answers : List (Option ToolObserverFailure)) : Except ToolObserverFailure Unit :=
  match (answers.take runtime.eventSinks).findSome? id with
  | some failure => .error failure
  | none => .ok ()

/-- `.err()` of `emit`. -/
def emitErr (answers : List (Option ToolObserverFailure)) : Option ToolObserverFailure :=
  match runtime.emit answers with
  | .error failure => some failure
  | .ok () => none

/-- The entry of a call that may be executed. -/
def prepare (call : ToolCall) (options : ToolExecutionOptions) (context : ToolCallContext) :
    Except ToolRuntimeError RegisteredTool := do
  if !isValidCallIdentifier call.id.value || !isValidCallIdentifier call.name.value then
    throw (.new .invalidToolCall context)
  let some entry := runtime.registry.entry call.name | throw (.new .toolNotFound context)
  (entry.validator call.arguments).mapError fun error =>
    ToolRuntimeError.invalidArguments context error.1 error.2
  if entry.behavior.requiresIdempotencyKey && options.idempotencyKey.isNone then
    throw (.new .missingIdempotencyKey context)
  if entry.behavior.sideEffect = .nonIdempotentWrite && !options.allowNonIdempotentWrites then
    throw (.new .unsupportedExecution context)
  pure entry

/-- Execute a prepared call. -/
def executePrepared (answers : Answers) (options : ToolExecutionOptions) (context : ToolCallContext) :
    ToolExecutionReport ToolOutput :=
  match runtime.emit answers.started with
  | .error source => ⟨.error (.observerFailed context source), none⟩
  | .ok () =>
    match options.timeout, answers.elapsed with
    -- `ExecutionTimedOut`
    | some timeout, true => ⟨.error (.timedOut context timeout), runtime.emitErr answers.terminal⟩
    | _, _ =>
      match answers.output with
      -- `ExecutionCompleted`
      | .ok output => ⟨.ok output, runtime.emitErr answers.terminal⟩
      -- `ExecutionFailed`
      | .error source =>
        let kind := match source.kind with
          | .cancelled => ToolRuntimeErrorKind.cancelled
          | .other => .executionFailed
        ⟨.error (.withSource kind context (.tool source)), runtime.emitErr answers.terminal⟩

/-- Execute one call while retaining output metadata and observer diagnostics. -/
def executeOutputReportWithOptions (answers : Answers) (call : ToolCall)
    (options : ToolExecutionOptions) : ToolExecutionReport ToolOutput :=
  let context := callContext call none
  match runtime.prepare call options context with
  | .error error => ⟨.error error, runtime.emitErr answers.terminal⟩
  | .ok _ => runtime.executePrepared answers options context

/-- Execute one call with explicit policy and retain observer diagnostics. -/
def executeReportWithOptions (answers : Answers) (call : ToolCall) (options : ToolExecutionOptions) :
    ToolExecutionReport ToolResult :=
  (runtime.executeOutputReportWithOptions answers call options).map ToolOutput.result

end ToolRuntime

/-! ## A call in a batch and a single call -/

/-- The error of a single call. -/
def ToolRuntimeError.single (error : ToolRuntimeError) : ToolRuntimeError :=
  { error with context := { error.context with batchIndex := none } }

section Single

variable {runtime : ToolRuntime} {call : ToolCall} {options : ToolExecutionOptions}

/-- Errors of a preparation are about its context. -/
theorem prepare_context {context : ToolCallContext} {error : ToolRuntimeError}
    (h : runtime.prepare call options context = .error error) : error.context = context := by
  unfold ToolRuntime.prepare at h
  by_cases hid : (!isValidCallIdentifier call.id.value || !isValidCallIdentifier call.name.value) = true
  · simp only [hid, if_true, throw_eq_error, error_bind] at h
    cases h
    rfl
  · simp only [hid, Bool.false_eq_true, if_false] at h
    cases hentry : runtime.registry.entry call.name with
    | none =>
      simp only [hentry, throw_eq_error] at h
      cases h
      rfl
    | some entry =>
      simp only [hentry] at h
      cases hvalid : entry.validator call.arguments with
      | error e =>
        simp only [hvalid, mapError_error, error_bind] at h
        cases h
        rfl
      | ok u =>
        simp only [hvalid, mapError_ok, ok_bind, throw_eq_error, error_bind, pure_eq_ok] at h
        split at h
        · cases h
          rfl
        · split at h
          · cases h
            rfl
          · cases h

/-- A preparation looks at its context only to say where it failed. -/
theorem prepare_single (index : Nat) :
    (runtime.prepare call options (callContext call (some index))).mapError ToolRuntimeError.single =
      runtime.prepare call options (callContext call none) := by
  unfold ToolRuntime.prepare
  by_cases hid : (!isValidCallIdentifier call.id.value || !isValidCallIdentifier call.name.value) = true
  · simp only [hid, if_true, throw_eq_error, error_bind, mapError_error]
    rfl
  · simp only [hid, Bool.false_eq_true, if_false]
    cases hentry : runtime.registry.entry call.name with
    | none =>
      simp only [throw_eq_error, mapError_error]
      rfl
    | some entry =>
      simp only
      cases hvalid : entry.validator call.arguments with
      | error e =>
        simp only [mapError_error, error_bind]
        rfl
      | ok u =>
        simp only [mapError_ok, ok_bind, throw_eq_error, error_bind, pure_eq_ok]
        split
        · rfl
        · split <;> rfl

/-- The outcome of an execution is that of a single call, and its errors are about its context. -/
theorem executePrepared_single (answers : Answers) (index : Nat) :
    (runtime.executePrepared answers options (callContext call (some index))).primary.mapError
        ToolRuntimeError.single =
      (runtime.executePrepared answers options (callContext call none)).primary := by
  unfold ToolRuntime.executePrepared
  split
  · rfl
  · split
    · rfl
    · split <;> rfl

theorem executePrepared_context {answers : Answers} {context : ToolCallContext}
    {error : ToolRuntimeError}
    (h : (runtime.executePrepared answers options context).primary = .error error) :
    error.context = context := by
  unfold ToolRuntime.executePrepared at h
  split at h
  · cases h
    rfl
  · split at h
    · cases h
      rfl
    · split at h
      · cases h
      · cases h
        rfl

end Single

end GroupAgent.Tool
