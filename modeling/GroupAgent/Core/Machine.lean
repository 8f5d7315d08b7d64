import GroupAgent.Core.Checkpoint
import GroupAgent.Core.Event
import GroupAgent.Core.Compile
import GroupAgent.Lib.Effect

/-!
# The machine a run executes on

The runtime calls code it does not define: the state's methods, nodes, routers, the checkpointer,
the event sink, the clock, the cancellation token and the identifier generators. `Env` bundles
their types and behaviours (`GraphState`, `state.rs:47-79`; `CheckpointState` and `Checkpointer`,
`checkpoint.rs:99-110`, 589-680; `EventSink`, `event.rs:26-29`).

* Everything with an effect passes a `World` through. The world is arbitrary, so a node or a router
  may answer differently every time, a deadline may pass or a cancellation arrive between any two
  steps, and the futures of a parallel super-step may complete in any order.
* What the runtime awaits is a `Future`: it can be awaited alone, or raced against cancellation and
  a deadline by a biased `select!`. Which of them wins is the answer of the world; that a race is
  decided poll by poll, and in which order, is in `Deadlines`.
* A run is a computation in `M E`. It returns, or it stops with an error, a panic, or a hop bound
  reached (`Stop`). The machine state holds the world, the retained events, and the calls that
  write to the checkpointer with their answers; only statements read the latter.
* `RunControl` and `NodeContext` (`context.rs:10-16`, 151-155), `NodeUpdate` (`state.rs:8-11`),
  `InterruptRequest` and `NodeOutcome` (`interrupt.rs:120-123`, 162-167) have the fields of the
  source.
* `ActiveControl` (`runtime.rs:2230-2354`) computes the deadlines with the panicking addition of
  `Instant` (`instantAdd`), checks the token before the deadline, and blames a passed deadline on
  the timeout that set it.
* `EventEmitter` (2183-2223) is `emitWith`, `emit` and `fail`. `await_run_boundary` (2366-2391)
  waits for a future of the runtime's own, a `Task`: it may work before and after the call it
  makes, and it may be dropped in between.

Out of scope: cloning and dropping of shared values, logging, and `CancellationToken` itself, of
which only the two questions the runtime asks are left.
-/

namespace GroupAgent.Core

open GroupAgent.Lib

/-- A point in time, in nanoseconds. -/
abbrev Instant := Nat

/-! ## Stops -/

/-- The panics the runtime's own code contains. -/
inductive Panic where
  | structuralIndex
  | mixedFrontier
  | indexOutOfBounds
  | counterOverflow
  | instantOverflow
  | missing (what : String)
  deriving DecidableEq, Repr

/-- Why a run returns no value. -/
inductive Stop where
  | error (error : GraphRunError)
  | panic (panic : Panic)
  | outOfFuel

/-! ## What nodes see and answer -/

/-- Execution metadata supplied to a node. -/
structure NodeContext (V : Type) where
  step : Nat
  nodePath : NodePath
  runDeadline : Option Instant
  resumeValue : Option V

structure InterruptRequest (V : Type) where
  id : InterruptId
  payload : V

def InterruptRequest.intoCheckpoint {V : Type} (r : InterruptRequest V) (nodePath : NodePath) :
    CheckpointInterrupt V := ⟨r.id, nodePath, r.payload⟩

/-- An update, or a request to suspend. -/
inductive NodeOutcome (U V : Type) where
  | update (update : U)
  | interrupt (request : InterruptRequest V)

/-- One node's update in a parallel state-update batch. -/
structure NodeUpdate (U : Type) where
  nodePath : NodePath
  update : U
  deriving DecidableEq, Repr

/-- What running a node returns: a normal node has no way to suspend. -/
def NodeKind.Answer (U V : Type) {ν : Type} : NodeKind ν → Type
  | .normal _ => Except SourceError U
  | .interruptible _ => Except SourceError (NodeOutcome U V)

def NodeKind.outcome {U V ν : Type} :
    (kind : NodeKind ν) → kind.Answer U V → Except SourceError (NodeOutcome U V)
  | .normal _, answer => NodeOutcome.update <$> answer
  | .interruptible _, answer => answer

/-- One execution of a node on a state. -/
structure NodeAttempt (ν S V : Type) where
  kind : NodeKind ν
  state : S
  context : NodeContext V

/-! ## Deadlines and races -/

/-- The deadline in force, with the timeout that set it. -/
inductive ActiveDeadline where
  | run (timeout : Duration) (deadline : Instant)
  | node (timeout : Duration) (deadline : Instant)
  deriving DecidableEq, Repr

def ActiveDeadline.instant : ActiveDeadline → Instant
  | .run _ deadline => deadline
  | .node _ deadline => deadline

/-- The outcome of a race of a future against cancellation and a deadline. Only a deadline that is
in force can pass. -/
inductive Raced (deadline : Option ActiveDeadline) (α : Type) where
  | cancelled
  | elapsed (passed : ActiveDeadline) (inForce : deadline = some passed)
  | ready (value : α)

def Raced.map {deadline : Option ActiveDeadline} {α β : Type} (f : α → β) :
    Raced deadline α → Raced deadline β
  | .cancelled => .cancelled
  | .elapsed passed h => .elapsed passed h
  | .ready value => .ready (f value)

/-- Something to wait for: alone, or raced. -/
structure Future (W α : Type) where
  await : W → α × W
  select : (deadline : Option ActiveDeadline) → W → Raced deadline α × W

/-- A node execution of a parallel super-step, at its place in the batch. -/
structure ParallelAttempt (ν S V : Type) extends NodeAttempt ν S V where
  offset : Nat
  deadline : Option ActiveDeadline

/-! ## The environment -/

/-- What the runtime calls but does not define. -/
structure Env (ν ρ : Type) where
  State : Type
  Update : Type
  Snapshot : Type
  /-- Interrupt payloads and resume values, which the source erases. -/
  Value : Type
  World : Type
  apply : State → Update → Except SourceError State
  applyBatch : State → List (NodeUpdate Update) → Except SourceError State
  snapshot : State → Except SourceError Snapshot
  restore : Snapshot → Except SourceError State
  /-- The latest instant the clock type can hold. -/
  instantMax : Instant
  now : World → Instant × World
  isCancelled : World → Bool × World
  nextRunId : World → RunId × World
  nextCheckpointId : World → CheckpointId × World
  onEvent : GraphEvent → World → World
  route : ρ → State → World → Except SourceError NodeId × World
  fanOutRoute : ρ → State → World → Except SourceError (List NodeId) × World
  run : (a : NodeAttempt ν State Value) → Future World (a.kind.Answer Update Value)
  /-- Which pending execution of a parallel super-step completes next, and how. -/
  nextReady : (pending : List (ParallelAttempt ν State Value)) → pending ≠ [] → World →
    ((i : Fin pending.length) ×
      Raced (pending.get i).deadline ((pending.get i).kind.Answer Update Value)) × World
  /-- Whether cancellation or the deadline is found before a raced future is first polled. -/
  preempted : (deadline : Option ActiveDeadline) → World → Option (Raced deadline Empty) × World
  save : Option BranchId → CheckpointRequest Snapshot Value →
    Future World (Except CheckpointWriteError (Checkpoint Snapshot Value))
  latest : ThreadId → Future World (Except SourceError (Option (Checkpoint Snapshot Value)))
  get : ThreadId → CheckpointId →
    Future World (Except SourceError (Option (Checkpoint Snapshot Value)))
  branchHead : ThreadId → BranchId →
    Future World (Except SourceError (Option (Checkpoint Snapshot Value)))
  createBranch : ThreadId → BranchId → CheckpointId →
    Future World (Except CheckpointWriteError Unit)

variable {ν ρ : Type}

/-- A call that writes to the checkpointer, with its answer if it was waited for. -/
inductive StoreWrite (E : Env ν ρ) where
  | save (branchId : Option BranchId) (request : CheckpointRequest E.Snapshot E.Value)
      (answer : Option (Except CheckpointWriteError (Checkpoint E.Snapshot E.Value)))
  | createBranch (threadId : ThreadId) (branchId : BranchId) (source : CheckpointId)
      (answer : Option (Except CheckpointWriteError Unit))

structure Machine (E : Env ν ρ) where
  world : E.World
  events : List GraphEvent
  writes : List (StoreWrite E)

/-- A computation of a run. -/
abbrev M (E : Env ν ρ) (α : Type) : Type := EStateM Stop (Machine E) α

section Primitives

variable {E : Env ν ρ} {α β : Type}

/-- Call out. -/
def ask (f : E.World → α × E.World) : M E α := fun m =>
  let r := f m.world
  .ok r.1 { m with world := r.2 }

def panic (p : Panic) : M E α := throw (.panic p)

def orPanic : Except Panic α → M E α
  | .ok a => pure a
  | .error p => panic p

/-- Record a call that writes to the checkpointer. -/
def record (write : StoreWrite E) : M E Unit :=
  modify fun m => { m with writes := m.writes ++ [write] }

/-- Add to a counter. -/
def usizeAdd (a b : Nat) : M E Nat :=
  if a + b ≤ usizeMax then pure (a + b) else panic .counterOverflow

/-- Add a timeout to an instant. -/
def instantAdd (start : Instant) (timeout : Duration) : M E Instant :=
  if start + timeout ≤ E.instantMax then pure (start + timeout) else panic .instantOverflow

/-- Emit an event that is only built when somebody listens. -/
def emitWith (config : EventConfig) (event : M E GraphEvent) : M E Unit :=
  if config.isEnabled then do
    let event ← event
    modify fun m =>
      { m with
        world := if config.hasSink then E.onEvent event m.world else m.world
        events := if config.retention = .all then m.events ++ [event] else m.events }
  else pure ()

def emit (config : EventConfig) (event : GraphEvent) : M E Unit := emitWith config (pure event)

/-- Emit an event under a condition. -/
def emitIf (condition : Bool) (config : EventConfig) (event : M E GraphEvent) : M E Unit :=
  if condition then emitWith config event else pure ()

end Primitives

/-! ## Controls -/

/-- Whether a cancellation token is given, and the timeouts. -/
structure RunControl where
  cancellable : Bool
  runTimeout : Option Duration
  nodeTimeout : Option Duration
  deriving DecidableEq, Repr

/-- The controls of a started run. The run deadline stands with the timeout it comes from. -/
structure ActiveControl where
  cancellationEnabled : Bool
  run : Option (Duration × Instant)
  nodeTimeout : Option Duration
  deriving DecidableEq, Repr

namespace ActiveControl

variable {E : Env ν ρ}

/-- A timeout with the deadline it sets when counted from an instant. -/
def deadlineFrom (started : Instant) : Option Duration → M E (Option (Duration × Instant))
  | none => pure none
  | some timeout => do
    let deadline ← instantAdd started timeout
    pure (some (timeout, deadline))

def new (control : RunControl) (invocationStarted : Instant) : M E ActiveControl := do
  let run ← deadlineFrom invocationStarted control.runTimeout
  pure { cancellationEnabled := control.cancellable, run, nodeTimeout := control.nodeTimeout }

def isDisabled (c : ActiveControl) : Bool :=
  !c.cancellationEnabled && c.run.isNone && c.nodeTimeout.isNone

/-- The deadline of a node that starts now. -/
def nodeDeadline (c : ActiveControl) (nodeStarted : Instant) :
    M E (Option (Duration × Instant)) :=
  deadlineFrom nodeStarted c.nodeTimeout

/-- The earlier of the run and node deadlines, the run's on a tie. -/
def deadline (c : ActiveControl) (nodeDeadline : Option (Duration × Instant)) :
    Option ActiveDeadline :=
  match c.run, nodeDeadline with
  | some (runTimeout, run), some (nodeTimeout, node) =>
    if run ≤ node then some (.run runTimeout run) else some (.node nodeTimeout node)
  | some (runTimeout, run), none => some (.run runTimeout run)
  | none, some (nodeTimeout, node) => some (.node nodeTimeout node)
  | none, none => none

def deadlineError (runId : RunId) (nodeId : Option NodePath) (step : Nat) :
    ActiveDeadline → M E GraphRunError
  | .run timeout _ => pure (.runTimedOut runId timeout nodeId step)
  | .node timeout _ =>
    match nodeId with
    | some nodeId => pure (.nodeTimedOut runId timeout nodeId step)
    | none => panic (.missing "node deadline always has node context")

/-- Cancellation first, then the deadline in force. -/
def check (runId : RunId) (nodeId : Option NodePath) (step : Nat)
    (deadline : Option ActiveDeadline) : M E (Option GraphRunError) := do
  if ← ask E.isCancelled then pure (some (.cancelled runId nodeId step))
  else
    match deadline with
    | none => pure none
    | some deadline => do
      let now ← ask E.now
      if deadline.instant ≤ now then some <$> deadlineError runId nodeId step deadline
      else pure none

end ActiveControl

/-! ## Runs -/

/-- What stays fixed during one run. `hops` bounds the structural items passed between two
super-steps. -/
structure RunContext where
  runId : RunId
  maxSteps : Nat
  absoluteStepLimit : Nat
  events : EventConfig
  control : ActiveControl
  hops : Nat

section Run

variable {E : Env ν ρ} {α β γ : Type}

/-- Emit the failure event and stop with the error. -/
def fail (ctx : RunContext) (error : GraphRunError) : M E α := do
  emit ctx.events (.runFailed ctx.runId (RunFailure.ofError error))
  throw (.error error)

/-- Continue with the value of a result, or fail. -/
def orFail (ctx : RunContext) : Except GraphRunError α → M E α
  | .ok a => pure a
  | .error error => fail ctx error

/-- A control point: fail when the run is cancelled or the deadline has passed. -/
def control (ctx : RunContext) (nodeId : Option NodePath) (step : Nat)
    (deadline : Option ActiveDeadline) : M E Unit := do
  match ← ActiveControl.check ctx.runId nodeId step deadline with
  | some error => fail ctx error
  | none => pure ()

/-- A control point under the run deadline. -/
def controlRun (ctx : RunContext) (nodeId : Option NodePath) (step : Nat) : M E Unit :=
  control ctx nodeId step (ctx.control.deadline none)

/-- A future of the runtime's own: it may work before and after what it waits for. -/
structure Task (E : Env ν ρ) (α : Type) where
  await : M E α
  select : (deadline : Option ActiveDeadline) → M E (Raced deadline α)

/-- Call out and use the answer. `start` runs when the future is first polled, `finish` when it
is done; `log` notes the call. -/
def Task.call (start : M E (Except GraphRunError γ)) (future : γ → Future E.World β)
    (log : γ → Option β → M E Unit) (finish : γ → β → Except GraphRunError α) :
    Task E (Except GraphRunError α) where
  await := do
    match ← start with
    | .error error => pure (.error error)
    | .ok c => do
      let answer ← ask (future c).await
      log c (some answer)
      pure (finish c answer)
  select deadline := do
    match ← ask (E.preempted deadline) with
    | some .cancelled => pure .cancelled
    | some (.elapsed passed h) => pure (.elapsed passed h)
    | none => do
      match ← start with
      | .error error => pure (.ready (.error error))
      | .ok c => do
        let answer ← ask ((future c).select deadline)
        match answer with
        | .cancelled => do
          log c none
          pure .cancelled
        | .elapsed passed h => do
          log c none
          pure (.elapsed passed h)
        | .ready answer => do
          log c (some answer)
          pure (.ready (finish c answer))

/-- Wait for a task, raced against cancellation and the run deadline unless controls are off. -/
def awaitRunBoundary (ctx : RunContext) (step : Nat) (task : Task E (Except GraphRunError α)) :
    M E (Except GraphRunError α) :=
  if ctx.control.isDisabled then task.await
  else do
    match ← task.select (ctx.control.deadline none) with
    | .cancelled => pure (.error (.cancelled ctx.runId none step))
    | .elapsed passed _ => do
      let error ← ActiveControl.deadlineError ctx.runId none step passed
      pure (.error error)
    | .ready result => pure result

end Run

end GroupAgent.Core
