import GroupAgent.Lib.Fairness
import GroupAgent.Mcp.Session
import Mathlib.Logic.Function.Basic

/-!
# MCP shutdown

Model of `McpClientSession::shutdown` (`session.rs:392-417`), `spawn_shutdown_cleanup` (459-479),
`child_cleanup_future` (481-504) and `ShutdownCompletion` (59-112) of `crates/group-agent-mcp/src`,
as a transition system. The parties are the callers of `shutdown`, any number of them, the task
that closes the service, the one that cleans up the child, and the one that joins both and
publishes the result.

* A call is one caller: repeated calls are other callers. A caller can be cancelled where it
  awaits: in the queue of the lock, when the lock is its own but it has not run yet, and while it
  waits.
* The lock of the lifecycle is fair: it goes to the first in the queue.
* What a waiting caller is woken by is the number of `notify_waiters` calls there were when its
  `Notified` future was created; the next one wakes it. The slot is locked for several steps by its
  publisher, and for one by a caller.
* The three `spawn` calls are one step: what a task does before the next one is spawned, it may as
  well do after. `spawned` counts them.
* What the service and the child come to is any outcome. The child's is `terminate`, and after a
  panic of it `kill_and_wait`. Either task may also end in a `JoinError` of its own (`closePanic`,
  `childPanic`), at any point of it, which `map_cleanup_task_result` (506-516) takes for a failed
  shutdown.

The runtime of tokio is not modelled beyond this: a task that was spawned is run until it ends,
which the fairness of `Awaiting` says.
-/

namespace GroupAgent.Mcp.Shutdown

open GroupAgent.Lib GroupAgent.Model GroupAgent.Tool

/-! ## Results -/

abbrev Result : Type := Except McpAdapterError Unit

/-- What a task returned, or how it ended. -/
abbrev TaskResult : Type := Except JoinError Result

/-- `rmcp::service::QuitReason`. -/
inductive QuitReason where
  | cancelled
  | closed
  | joinError (source : JoinError)
  | other (text : String)

def shutdownFailed (serverId : McpServerId) (source : McpErrorSource) : McpAdapterError :=
  (McpAdapterError.withSource .shutdownFailed source).withServer serverId

def mapQuitReason (serverId : McpServerId) : Except JoinError QuitReason → Result
  | .ok .cancelled => .ok ()
  | .ok .closed => .ok ()
  | .ok (.joinError source) => .error (shutdownFailed serverId (.join source))
  | .error source => .error (shutdownFailed serverId (.join source))
  | .ok (.other _) => .error ((McpAdapterError.new .shutdownFailed).withServer serverId)

/-- What `child_cleanup_future` makes of what the blocking thread returned. -/
def childResult (serverId : McpServerId) : Except JoinError (Except String Unit) → Result
  | .ok (.ok ()) => .ok ()
  | .ok (.error text) => .error (shutdownFailed serverId (.process text))
  | .error source => .error (shutdownFailed serverId (.join source))

def mapCleanupTaskResult (serverId : McpServerId) : TaskResult → Result
  | .ok result => result
  | .error source => .error (shutdownFailed serverId (.join source))

def combineShutdownResults (serviceResult childResult : Result) : Result :=
  match serviceResult with
  | .error serviceError => .error serviceError
  | .ok () => childResult

/-! ## The cleanup -/

/-- The task that closes the service, if there is one. -/
inductive ServiceTask where
  | running (service : Bool)
  | finished (result : TaskResult)

/-- The task that cleans up the child, if there is one. -/
inductive ChildTask where
  | running (child : Bool)
  | terminating
  | killing (panic : JoinError)
  | finished (result : TaskResult)

/-- The task has the child, and is not over. -/
def ChildTask.Cleaning : ChildTask → Prop
  | .running there => there = true
  | .terminating => True
  | .killing _ => True
  | .finished _ => False

/-- The task that joins both, up to the end of `complete_after_closed`. -/
inductive JoinTask where
  | joining
  | completing (result : Result)
  | locked (result : Result)
  | resultSet
  | closedStored
  | published
  | unlocked
  | done

structure ShutdownCompletionSlot where
  result : Option Result
  published : Bool

/-- What `spawn_shutdown_cleanup` made: its tasks and its completion. -/
structure Cleanup where
  service : ServiceTask
  child : ChildTask
  attempted : Bool
  join : JoinTask
  slot : ShutdownCompletionSlot
  slotHeld : Bool
  notified : Nat

def spawnShutdownCleanup (service child : Bool) : Cleanup where
  service := .running service
  child := .running child
  attempted := false
  join := .joining
  slot := ⟨none, false⟩
  slotHeld := false
  notified := 0

inductive Task where
  | service
  | child
  | join
  deriving DecidableEq

def Cleanup.complete (c : Cleanup) (result : Result) : Cleanup := { c with join := .completing result }

/-- A step of a task of the cleanup, with the state of the session. -/
inductive CleanupStep (serverId : McpServerId) :
    Task → SessionState × Cleanup → SessionState × Cleanup → Prop
  | close {state c} (outcome : Except JoinError QuitReason) : c.service = .running true →
      CleanupStep serverId .service (state, c)
        (state, { c with service := .finished (.ok (mapQuitReason serverId outcome)) })
  | closePanic {state c} (source : JoinError) : c.service = .running true →
      CleanupStep serverId .service (state, c)
        (state, { c with service := .finished (.error source) })
  | noService {state c} : c.service = .running false →
      CleanupStep serverId .service (state, c)
        (state, { c with service := .finished (.ok (mapQuitReason serverId (.ok .closed))) })
  | noChild {state c} : c.child = .running false →
      CleanupStep serverId .child (state, c) (state, { c with child := .finished (.ok (.ok ())) })
  | terminate {state c} : c.child = .running true →
      CleanupStep serverId .child (state, c)
        (state, { c with child := .terminating, attempted := true })
  | terminated {state c} (result : Except String Unit) : c.child = .terminating →
      CleanupStep serverId .child (state, c)
        (state, { c with child := .finished (.ok (childResult serverId (.ok result))) })
  | panicked {state c} (panic : JoinError) : c.child = .terminating →
      CleanupStep serverId .child (state, c) (state, { c with child := .killing panic })
  | killed {state c panic} : c.child = .killing panic →
      CleanupStep serverId .child (state, c)
        (state, { c with child := .finished (.ok (childResult serverId (.error panic))) })
  /-- The future of the task panics. The guard that it drops kills the child, unless the blocking
  thread has it, which goes on. -/
  | childPanic {state c} (source : JoinError) : c.child.Cleaning →
      CleanupStep serverId .child (state, c)
        (state, { c with child := .finished (.error source), attempted := true })
  | joined {state c serviceResult childResult} : c.join = .joining →
      c.service = .finished serviceResult → c.child = .finished childResult →
        CleanupStep serverId .join (state, c) (state, c.complete (combineShutdownResults
          (mapCleanupTaskResult serverId serviceResult) (mapCleanupTaskResult serverId childResult)))
  | lockSlot {state c result} : c.join = .completing result → c.slotHeld = false →
      CleanupStep serverId .join (state, c)
        (state, { c with join := .locked result, slotHeld := true })
  | setResult {state c result} : c.join = .locked result → c.slot.result = none →
      CleanupStep serverId .join (state, c)
        (state, { c with join := .resultSet, slot := { c.slot with result := some result } })
  | alreadySet {state c result} : c.join = .locked result → c.slot.result ≠ none →
      CleanupStep serverId .join (state, c) (state, { c with join := .done, slotHeld := false })
  | storeClosed {state c} : c.join = .resultSet →
      CleanupStep serverId .join (state, c) (.closed, { c with join := .closedStored })
  | publish {state c} : c.join = .closedStored →
      CleanupStep serverId .join (state, c)
        (state, { c with join := .published, slot := { c.slot with published := true } })
  | unlockSlot {state c} : c.join = .published →
      CleanupStep serverId .join (state, c) (state, { c with join := .unlocked, slotHeld := false })
  | notifyWaiters {state c} : c.join = .unlocked →
      CleanupStep serverId .join (state, c)
        (state, { c with join := .done, notified := c.notified + 1 })

/-! ## The session -/

/-- Where a caller of `shutdown` is. -/
inductive Caller where
  | idle
  | queued
  | granted
  | locked
  | closing
  | spawned
  | leaving
  | entering
  | checking (notified : Nat)
  | waiting (notified : Nat)
  | returned (result : Result)
  | cancelled

/-- The callers that have the lock of the lifecycle. -/
def Caller.Holding : Caller → Prop
  | .granted | .locked | .closing | .spawned | .leaving => True
  | _ => False

structure State (ι : Type) where
  holder : Option ι
  queue : List ι
  running : Bool
  child : Bool
  completion : Bool
  state : SessionState
  transportClosed : Bool
  peerInfo : Option ServerInfo
  cleanup : Option Cleanup
  spawned : Nat
  caller : ι → Caller

inductive Label (ι : Type) where
  | call (i : ι)
  | cancel (i : ι)
  | grant
  | run (i : ι)
  | task (task : Task)
  | disconnect

variable {ι : Type} [DecidableEq ι]

def State.put (s : State ι) (i : ι) (caller : Caller) : State ι :=
  { s with caller := Function.update s.caller i caller }

/-- A step of the session. -/
inductive Step (serverId : McpServerId) : Label ι → State ι → State ι → Prop
  | call {s i} : s.caller i = .idle →
      Step serverId (.call i) s { s.put i .queued with queue := s.queue ++ [i] }
  | grant {s i queue} : s.holder = none → s.queue = i :: queue →
      Step serverId .grant s { s.put i .granted with holder := some i, queue }
  | leaveQueue {s i} : s.caller i = .queued →
      Step serverId (.cancel i) s { s.put i .cancelled with queue := s.queue.erase i }
  | dropLock {s i} : s.caller i = .granted →
      Step serverId (.cancel i) s { s.put i .cancelled with holder := none }
  | dropWait {s i notified} : s.caller i = .waiting notified →
      Step serverId (.cancel i) s (s.put i .cancelled)
  | resume {s i} : s.caller i = .granted → Step serverId (.run i) s (s.put i .locked)
  | join {s i} : s.caller i = .locked → s.completion = true →
      Step serverId (.run i) s (s.put i .leaving)
  | begin {s i} : s.caller i = .locked → s.completion = false →
      Step serverId (.run i) s { s.put i .closing with state := .closing }
  | spawn {s i} : s.caller i = .closing →
      Step serverId (.run i) s
        { s.put i .spawned with
          running := false
          child := false
          cleanup := some (spawnShutdownCleanup s.running s.child)
          spawned := s.spawned + 1 }
  | complete {s i} : s.caller i = .spawned →
      Step serverId (.run i) s { s.put i .leaving with completion := true }
  | unlock {s i} : s.caller i = .leaving →
      Step serverId (.run i) s { s.put i .entering with holder := none }
  | notified {s i c} : s.caller i = .entering → s.cleanup = some c →
      Step serverId (.run i) s (s.put i (.checking c.notified))
  | found {s i notified c result} : s.caller i = .checking notified → s.cleanup = some c →
      c.slotHeld = false → c.slot.published = true → c.slot.result = some result →
        Step serverId (.run i) s (s.put i (.returned result))
  | missed {s i notified c} : s.caller i = .checking notified → s.cleanup = some c →
      c.slotHeld = false → c.slot.published = false →
        Step serverId (.run i) s (s.put i (.waiting notified))
  | wake {s i notified c} : s.caller i = .waiting notified → s.cleanup = some c →
      c.notified ≠ notified → Step serverId (.run i) s (s.put i .entering)
  | task {s c state c' task} : s.cleanup = some c →
      CleanupStep serverId task (s.state, c) (state, c') →
        Step serverId (.task task) s { s with state, cleanup := some c' }
  | disconnect {s} : Step serverId .disconnect s { s with transportClosed := true }

/-- A session before the first call, with or without a child. -/
def State.new (child : Bool) (peerInfo : Option ServerInfo) : State ι where
  holder := none
  queue := []
  running := true
  child
  completion := false
  state := .active
  transportClosed := false
  peerInfo
  cleanup := none
  spawned := 0
  caller := fun _ => .idle

/-- What the session reads. -/
def State.view (s : State ι) : SessionView := ⟨s.state, s.transportClosed, s.peerInfo⟩

/-- The system of a session and the callers of its shutdown. -/
def system (ι : Type) [DecidableEq ι] (serverId : McpServerId) (child : Bool)
    (peerInfo : Option ServerInfo) : System (State ι) (Label ι) where
  init s := s = .new child peerInfo
  step := Step serverId

end GroupAgent.Mcp.Shutdown
