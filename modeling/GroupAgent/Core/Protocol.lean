import GroupAgent.Core.Runtime
import GroupAgent.Lib.Follow
import Mathlib.Data.List.Induction

/-!
# The protocol of the event stream

What somebody who listens to a run may rely on (`GraphEvent`, `event.rs:277-394` of
`crates/group-agent-core/src`), as a reader of the events behind `RunStarted`.

* `StreamReader`: where a listener is. It knows the subgraph the run is in, the counters, and what
  is due.
* `StreamReader.Next`: the events that may come next, and where the listener is then. It is a
  grammar of the stream, one rule for each variant of `GraphEvent`.
* What is due is a `StreamBoundary`: the routing events of a super-step, then its save, then the
  subgraphs it leaves and enters.

Results, of every stream that can be read:
* **`ended_once`**: a stream that has been read to its end has one terminal event, its last.
* **`balanced`**: every subgraph that was entered and is not left lies on the path.
* **`updated_completed`**: an update is reported of nodes only that were reported to be completed.

Nothing here is about the runtime. That it keeps to the grammar is proved piece by piece in
`Telling`, `Crossing` and `Reporting`, and of every call in `Stream`.
-/

namespace GroupAgent.Core

open GroupAgent.Lib

def GraphEvent.runId : GraphEvent → RunId
  | .runStarted runId _ => runId
  | .runResumed runId _ _ _ _ => runId
  | .branchResumed runId _ _ _ _ _ => runId
  | .replayStarted runId _ _ _ _ => runId
  | .forkStarted runId _ _ _ _ _ => runId
  | .superstepStarted runId _ _ => runId
  | .nodeStarted runId _ _ => runId
  | .nodeInterrupted runId _ _ _ => runId
  | .nodeCompleted runId _ _ => runId
  | .stateUpdated runId _ _ => runId
  | .routeSelected runId _ _ _ => runId
  | .routesSelected runId _ _ _ => runId
  | .superstepCompleted runId _ => runId
  | .subgraphStarted runId _ => runId
  | .subgraphCompleted runId _ => runId
  | .checkpointSaved runId _ _ _ _ _ => runId
  | .runInterrupted runId _ _ _ _ _ _ => runId
  | .runCompleted runId _ => runId
  | .runFailed runId _ => runId

/-- The namespace a namespace is mounted in. -/
def GraphPath.parent (p : GraphPath) : GraphPath := ⟨p.segments.dropLast⟩

/-! ## The reader -/

/-- How a run is started. -/
inductive StreamEntry where
  | invoke
  | resume (branchId : Option BranchId)
  | replay
  | fork (branchId : BranchId)
  deriving DecidableEq

/-- What a listener knows of a run beforehand: how it is started, and the policy it saves by. -/
structure StreamMode where
  entry : StreamEntry
  policy : Option CheckpointPolicy
  deriving DecidableEq

/-- How a stream ends. -/
inductive StreamEnd where
  | completed (steps : Nat)
  | interrupted (interruptId : InterruptId) (checkpointId : CheckpointId)
  | failed (failure : RunFailure)
  deriving DecidableEq

/-- What has become of the boundary a run stands at: the entry of a graph, a checkpoint, or a
super-step that is not saved yet, is left without being saved, or is saved. -/
inductive StreamBoundary where
  | entering
  | entered
  | loaded
  | pending
  | unsaved
  | saved (completed : Bool)
  deriving DecidableEq

/-- What a listener waits for. A super-step of several nodes has its number. -/
inductive StreamPhase where
  | loading
  | branching (branchId : BranchId)
  | standing (superstep : Option Nat) (boundary : StreamBoundary)
  | starting (superstep : Nat) (waiting : List NodePath) (batch : List (NodePath × Nat))
  | executing (superstep : Option Nat) (batch pending : List (NodePath × Nat))
  | updating (superstep : Option Nat) (waiting : List (NodePath × Nat))
  | suspending (interruptId : InterruptId) (nodeId : NodePath)
  | suspended (interruptId : InterruptId) (nodeId : NodePath) (checkpointId : CheckpointId)
      (threadId : ThreadId)
  | refusing
  | ended (how : StreamEnd)
  deriving DecidableEq

structure StreamReader where
  runId : RunId
  path : GraphPath
  superstep : Nat
  steps : Nat
  phase : StreamPhase
  deriving DecidableEq

/-- Whether a boundary is saved. -/
def StreamMode.saves (mode : StreamMode) (completed : Bool) : Bool :=
  match mode.policy with
  | none => false
  | some policy => policy == .everySuperstep || completed

namespace StreamBoundary

/-- Nothing has to be saved before the boundary is left. -/
def settled (mode : StreamMode) (boundary : StreamBoundary) : Bool :=
  !(boundary == .pending && mode.policy == some .everySuperstep)

/-- The boundary once an event behind it has come. -/
def passed : StreamBoundary → StreamBoundary
  | .entering => .entered
  | .pending => .unsaved
  | boundary => boundary

/-- Transitions are being resolved. -/
def resolving : StreamBoundary → Bool
  | .entering => true
  | .pending => true
  | _ => false

/-- The boundary may be saved, and as what. -/
def savable (mode : StreamMode) (completed : Bool) : StreamBoundary → Bool
  | .entering => mode.policy.isSome && completed
  | .entered => mode.policy.isSome && completed
  | .pending => mode.saves completed
  | _ => false

/-- A run may be complete at the boundary. -/
def final (mode : StreamMode) (boundary : StreamBoundary) : Bool :=
  mode.policy.isNone || boundary == .saved true || boundary == .loaded

end StreamBoundary

/-- The phase of a batch of which these are still to be started. -/
def StreamPhase.started (superstep : Nat) (waiting : List NodePath)
    (batch : List (NodePath × Nat)) : StreamPhase :=
  if waiting.isEmpty then .executing (some superstep) batch batch
  else .starting superstep waiting batch

/-- The phase of a batch of which these are still to be completed. -/
def StreamPhase.completed (superstep : Option Nat) (batch pending : List (NodePath × Nat)) :
    StreamPhase :=
  if pending.isEmpty then .updating superstep batch else .executing superstep batch pending

/-- The reader of a run that has started. -/
def StreamReader.start (mode : StreamMode) (runId : RunId) : StreamReader where
  runId := runId
  path := .root
  superstep := 0
  steps := 0
  phase := if mode.entry = .invoke then .standing none .entering else .loading

/-- How the stream has ended, if it has. -/
def StreamPhase.ends? : StreamPhase → Option StreamEnd
  | .ended how => some how
  | _ => none

/-- The next event of a run. -/
inductive StreamReader.Next (mode : StreamMode) :
    StreamReader → GraphEvent → StreamReader → Prop where
  | runResumed {r : StreamReader} {threadId : ThreadId} {checkpointId : CheckpointId}
      {step superstep : Nat} {branchId : Option BranchId} (hphase : r.phase = .loading)
      (hentry : mode.entry = .resume branchId) :
      Next mode r (.runResumed r.runId threadId checkpointId step superstep)
        { r with
          steps := step
          superstep := superstep
          phase := branchId.elim (.standing none .loaded) .branching }
  | branchResumed {r : StreamReader} {threadId : ThreadId} {branchId : BranchId}
      {checkpointId : CheckpointId} (hphase : r.phase = .branching branchId) :
      Next mode r (.branchResumed r.runId threadId branchId checkpointId r.steps r.superstep)
        { r with phase := .standing none .loaded }
  | replayStarted {r : StreamReader} {threadId : ThreadId} {checkpointId : CheckpointId}
      {step superstep : Nat} (hphase : r.phase = .loading) (hentry : mode.entry = .replay) :
      Next mode r (.replayStarted r.runId threadId checkpointId step superstep)
        { r with steps := step, superstep := superstep, phase := .standing none .loaded }
  | forkStarted {r : StreamReader} {threadId : ThreadId} {checkpointId : CheckpointId}
      {branchId : BranchId} {step superstep : Nat} (hphase : r.phase = .loading)
      (hentry : mode.entry = .fork branchId) :
      Next mode r (.forkStarted r.runId threadId checkpointId branchId step superstep)
        { r with steps := step, superstep := superstep, phase := .standing none .loaded }
  | routeSelected {r : StreamReader} {superstep : Option Nat} {boundary : StreamBoundary}
      {source target : NodePath} {step : Nat} (hphase : r.phase = .standing superstep boundary)
      (hresolving : boundary.resolving) :
      Next mode r (.routeSelected r.runId source target step) r
  | routesSelected {r : StreamReader} {superstep : Option Nat} {boundary : StreamBoundary}
      {source : NodePath} {targets : List NodePath} {step : Nat}
      (hphase : r.phase = .standing superstep boundary) (hresolving : boundary.resolving) :
      Next mode r (.routesSelected r.runId source targets step) r
  | boundarySaved {r : StreamReader} {superstep : Option Nat} {boundary : StreamBoundary}
      {checkpointId : CheckpointId} {threadId : ThreadId} {completed : Bool}
      (hphase : r.phase = .standing superstep boundary)
      (hsavable : boundary.savable mode completed) :
      Next mode r (.checkpointSaved r.runId checkpointId threadId r.superstep r.steps completed)
        { r with phase := .standing superstep (.saved completed) }
  | subgraphStarted {r : StreamReader} {superstep : Option Nat} {boundary : StreamBoundary}
      {graphPath : GraphPath} (hphase : r.phase = .standing superstep boundary)
      (hsettled : boundary.settled mode) (hroot : graphPath ≠ .root)
      (hpath : graphPath.parent = r.path) :
      Next mode r (.subgraphStarted r.runId graphPath)
        { r with path := graphPath, phase := .standing superstep boundary.passed }
  | subgraphCompleted {r : StreamReader} {superstep : Option Nat} {boundary : StreamBoundary}
      (hphase : r.phase = .standing superstep boundary) (hsettled : boundary.settled mode)
      (hroot : r.path ≠ .root) :
      Next mode r (.subgraphCompleted r.runId r.path)
        { r with path := r.path.parent, phase := .standing superstep boundary.passed }
  | superstepCompleted {r : StreamReader} {superstep : Nat} {boundary : StreamBoundary}
      (hphase : r.phase = .standing (some superstep) boundary) (hsettled : boundary.settled mode) :
      Next mode r (.superstepCompleted r.runId superstep)
        { r with phase := .standing none boundary.passed }
  | superstepStarted {r : StreamReader} {boundary : StreamBoundary} {nodeIds : List NodePath}
      (hphase : r.phase = .standing none boundary) (hsettled : boundary.settled mode)
      (hopen : boundary ≠ .saved true) (hseveral : 2 ≤ nodeIds.length)
      (hpath : ∀ nodeId ∈ nodeIds, nodeId.graphPath = r.path) :
      Next mode r (.superstepStarted r.runId (r.superstep + 1) nodeIds)
        { r with phase := .starting (r.superstep + 1) nodeIds [] }
  | singleStarted {r : StreamReader} {boundary : StreamBoundary} {nodeId : NodePath}
      (hphase : r.phase = .standing none boundary) (hsettled : boundary.settled mode)
      (hopen : boundary ≠ .saved true) (hpath : nodeId.graphPath = r.path) :
      Next mode r (.nodeStarted r.runId nodeId (r.steps + 1))
        { r with phase := .executing none [(nodeId, r.steps + 1)] [(nodeId, r.steps + 1)] }
  | nodeStarted {r : StreamReader} {superstep : Nat} {nodeId : NodePath} {waiting : List NodePath}
      {batch : List (NodePath × Nat)}
      (hphase : r.phase = .starting superstep (nodeId :: waiting) batch) :
      Next mode r (.nodeStarted r.runId nodeId (r.steps + batch.length + 1))
        { r with
          phase := .started superstep waiting (batch ++ [(nodeId, r.steps + batch.length + 1)]) }
  | nodeCompleted {r : StreamReader} {superstep : Option Nat}
      {batch pending : List (NodePath × Nat)} {nodeId : NodePath} {step : Nat}
      (hphase : r.phase = .executing superstep batch pending)
      (hpending : (nodeId, step) ∈ pending) :
      Next mode r (.nodeCompleted r.runId nodeId step)
        { r with phase := .completed superstep batch (pending.erase (nodeId, step)) }
  | stateUpdated {r : StreamReader} {superstep : Option Nat} {nodeId : NodePath} {step : Nat}
      {first : NodePath × Nat} {waiting : List (NodePath × Nat)}
      (hphase : r.phase = .updating superstep ((nodeId, step) :: first :: waiting)) :
      Next mode r (.stateUpdated r.runId nodeId step)
        { r with phase := .updating superstep (first :: waiting) }
  | lastUpdated {r : StreamReader} {superstep : Option Nat} {nodeId : NodePath} {step : Nat}
      (hphase : r.phase = .updating superstep [(nodeId, step)]) :
      Next mode r (.stateUpdated r.runId nodeId step)
        { r with
          steps := step
          superstep := r.superstep + 1
          phase := .standing superstep .pending }
  | singleInterrupted {r : StreamReader} {batch pending : List (NodePath × Nat)}
      {interruptId : InterruptId} {nodeId : NodePath} {step : Nat}
      (hphase : r.phase = .executing none batch pending) (hpending : (nodeId, step) ∈ pending) :
      Next mode r (.nodeInterrupted r.runId interruptId nodeId step)
        { r with phase := .suspending interruptId nodeId }
  | batchInterrupted {r : StreamReader} {superstep : Nat} {batch pending : List (NodePath × Nat)}
      {interruptId : InterruptId} {nodeId : NodePath} {step : Nat}
      (hphase : r.phase = .executing (some superstep) batch pending)
      (hpending : (nodeId, step) ∈ pending) :
      Next mode r (.nodeInterrupted r.runId interruptId nodeId step) { r with phase := .refusing }
  | suspensionSaved {r : StreamReader} {interruptId : InterruptId} {nodeId : NodePath}
      {checkpointId : CheckpointId} {threadId : ThreadId}
      (hphase : r.phase = .suspending interruptId nodeId) (hpolicy : mode.policy ≠ none) :
      Next mode r (.checkpointSaved r.runId checkpointId threadId r.superstep r.steps false)
        { r with phase := .suspended interruptId nodeId checkpointId threadId }
  | runInterrupted {r : StreamReader} {interruptId : InterruptId} {nodeId : NodePath}
      {checkpointId : CheckpointId} {threadId : ThreadId}
      (hphase : r.phase = .suspended interruptId nodeId checkpointId threadId) :
      Next mode r (.runInterrupted r.runId interruptId checkpointId threadId nodeId r.superstep
        r.steps) { r with phase := .ended (.interrupted interruptId checkpointId) }
  | runCompleted {r : StreamReader} {boundary : StreamBoundary}
      (hphase : r.phase = .standing none boundary) (hsettled : boundary.settled mode)
      (hfinal : boundary.final mode) (hpath : r.path = .root) :
      Next mode r (.runCompleted r.runId r.steps) { r with phase := .ended (.completed r.steps) }
  | runFailed {r : StreamReader} {failure : RunFailure} (hgoes : r.phase.ends? = none) :
      Next mode r (.runFailed r.runId failure) { r with phase := .ended (.failed failure) }

/-! ## What every stream keeps -/

/-- How an event ends a run, if it does. -/
def GraphEvent.ends? : GraphEvent → Option StreamEnd
  | .runInterrupted _ interruptId checkpointId _ _ _ _ =>
    some (.interrupted interruptId checkpointId)
  | .runCompleted _ steps => some (.completed steps)
  | .runFailed _ failure => some (.failed failure)
  | _ => none

/-- The subgraph that is entered. -/
def GraphEvent.enters? : GraphEvent → Option GraphPath
  | .subgraphStarted _ graphPath => some graphPath
  | _ => none

/-- The subgraph that is left. -/
def GraphEvent.leaves? : GraphEvent → Option GraphPath
  | .subgraphCompleted _ graphPath => some graphPath
  | _ => none

@[simp] theorem StreamPhase.ends_started {superstep : Nat} {waiting : List NodePath}
    {batch : List (NodePath × Nat)} :
    (StreamPhase.started superstep waiting batch).ends? = none := by
  unfold StreamPhase.started
  cases waiting <;> rfl

@[simp] theorem StreamPhase.ends_completed {superstep : Option Nat}
    {batch pending : List (NodePath × Nat)} :
    (StreamPhase.completed superstep batch pending).ends? = none := by
  unfold StreamPhase.completed
  cases pending <;> rfl

theorem GraphEvent.enters?_eq_some {event : GraphEvent} {p : GraphPath}
    (h : event.enters? = some p) : event.leaves? = none := by
  cases event <;> first | cases h; done | rfl

namespace StreamReader

variable {mode : StreamMode} {r r' : StreamReader} {event : GraphEvent}

/-- A stream goes on until a terminal event, and is over then. -/
theorem Next.over (h : Next mode r event r') :
    r.phase.ends? = none ∧ r'.phase.ends? = event.ends? := by
  have hgoes : ∀ {phase : StreamPhase}, r.phase = phase → r.phase.ends? = phase.ends? :=
    congrArg StreamPhase.ends?
  cases h with
  | @runResumed threadId checkpointId step superstep branchId hphase =>
    refine ⟨hgoes hphase, ?_⟩
    cases branchId <;> rfl
  | nodeStarted hphase => exact ⟨hgoes hphase, StreamPhase.ends_started⟩
  | nodeCompleted hphase => exact ⟨hgoes hphase, StreamPhase.ends_completed⟩
  | routeSelected hphase => exact ⟨hgoes hphase, hgoes hphase⟩
  | routesSelected hphase => exact ⟨hgoes hphase, hgoes hphase⟩
  | runFailed hgoes => exact ⟨hgoes, rfl⟩
  | branchResumed hphase => exact ⟨hgoes hphase, rfl⟩
  | replayStarted hphase => exact ⟨hgoes hphase, rfl⟩
  | forkStarted hphase => exact ⟨hgoes hphase, rfl⟩
  | boundarySaved hphase => exact ⟨hgoes hphase, rfl⟩
  | subgraphStarted hphase => exact ⟨hgoes hphase, rfl⟩
  | subgraphCompleted hphase => exact ⟨hgoes hphase, rfl⟩
  | superstepCompleted hphase => exact ⟨hgoes hphase, rfl⟩
  | superstepStarted hphase => exact ⟨hgoes hphase, rfl⟩
  | singleStarted hphase => exact ⟨hgoes hphase, rfl⟩
  | stateUpdated hphase => exact ⟨hgoes hphase, rfl⟩
  | lastUpdated hphase => exact ⟨hgoes hphase, rfl⟩
  | singleInterrupted hphase => exact ⟨hgoes hphase, rfl⟩
  | batchInterrupted hphase => exact ⟨hgoes hphase, rfl⟩
  | suspensionSaved hphase => exact ⟨hgoes hphase, rfl⟩
  | runInterrupted hphase => exact ⟨hgoes hphase, rfl⟩
  | runCompleted hphase => exact ⟨hgoes hphase, rfl⟩

/-- Every event is one of the run. -/
theorem Next.run (h : Next mode r event r') : event.runId = r.runId ∧ r'.runId = r.runId := by
  cases h <;> exact ⟨rfl, rfl⟩

/-- The path follows the subgraphs. -/
theorem Next.path (h : Next mode r event r') :
    (∀ p ∈ event.enters?, p ≠ .root ∧ p.parent = r.path ∧ r'.path = p) ∧
    (∀ p ∈ event.leaves?, p ≠ .root ∧ p = r.path ∧ r'.path = p.parent) ∧
    (event.enters? = none → event.leaves? = none → r'.path = r.path) := by
  cases h with
  | @subgraphStarted superstep boundary graphPath hphase hsettled hroot hpath =>
    refine ⟨?_, nofun, nofun⟩
    rintro p ⟨⟩
    exact ⟨hroot, hpath, rfl⟩
  | @subgraphCompleted superstep boundary hphase hsettled hroot =>
    refine ⟨nofun, ?_, nofun⟩
    rintro p ⟨⟩
    exact ⟨hroot, rfl, rfl⟩
  | _ => exact ⟨nofun, nofun, fun _ _ => rfl⟩

end StreamReader

section Streams

variable {mode : StreamMode} {r r' : StreamReader} {event : GraphEvent} {events : List GraphEvent}

/-- **A stream ends once.** The last event of one that is over ends it, and no other does. -/
theorem ended_once (h : Follow (StreamReader.Next mode) r events r') (hr : r.phase.ends? = none)
    {how : StreamEnd} (hover : r'.phase.ends? = some how) : ∃ body last, events = body ++ [last] ∧
      last.ends? = some how ∧ ∀ event ∈ body, event.ends? = none := by
  have hends := h.invariant (P := fun before u =>
    (u.phase.ends? = none ∧ ∀ event ∈ before, event.ends? = none) ∨
      ∃ body last, before = body ++ [last] ∧ last.ends? = u.phase.ends? ∧ u.phase.ends? ≠ none ∧
        ∀ event ∈ body, event.ends? = none) (.inl ⟨hr, nofun⟩) ?_
  · rcases hends with ⟨hgoes, -⟩ | ⟨body, last, hsplit, hlast, -, hbody⟩
    · rw [hover] at hgoes
      cases hgoes
    · exact ⟨body, last, hsplit, hlast.trans hover, hbody⟩
  · rintro before u event u' hbefore hnext
    obtain ⟨hgoes, hover'⟩ := hnext.over
    rcases hbefore with ⟨-, hbody⟩ | ⟨body, last, -, -, hover, -⟩
    · by_cases hevent : event.ends? = none
      · refine .inl ⟨hover'.trans hevent, fun e he => ?_⟩
        rcases List.mem_append.mp he with he | he
        · exact hbody e he
        · rw [List.mem_singleton.mp he]
          exact hevent
      · refine .inr ⟨before, event, rfl, hover'.symm, ?_, hbody⟩
        rw [hover']
        exact hevent
    · exact absurd hgoes hover

/-- Every event is one of the run. -/
theorem own_events (h : Follow (StreamReader.Next mode) r events r') :
    r'.runId = r.runId ∧ ∀ event ∈ events, event.runId = r.runId := by
  refine h.invariant (P := fun before u => u.runId = r.runId ∧
    ∀ event ∈ before, event.runId = r.runId) ⟨rfl, nofun⟩ ?_
  rintro before u event u' ⟨hu, hbefore⟩ hnext
  obtain ⟨hevent, hu'⟩ := hnext.run
  refine ⟨hu'.trans hu, fun e he => ?_⟩
  rcases List.mem_append.mp he with he | he
  · exact hbefore e he
  · rw [List.mem_singleton.mp he]
    exact hevent.trans hu

/-- The namespaces that a mounted one lies in are those of its parent, and itself. -/
theorem within_child {p q : GraphPath} (hroot : q ≠ .root) :
    (if p.segments <+: q.segments then 1 else 0) =
      (if p.segments <+: q.parent.segments then 1 else 0) + if q = p then 1 else 0 := by
  have hne : q.segments ≠ [] := fun hnil => hroot (by cases q; exact congrArg GraphPath.mk hnil)
  have hsplit : q.segments = q.parent.segments ++ [q.segments.getLast hne] :=
    (List.dropLast_append_getLast hne).symm
  by_cases hq : q = p
  · subst hq
    have hnot : ¬q.segments <+: q.parent.segments := by
      intro hprefix
      have hlength := hprefix.length_le
      rw [hsplit, List.length_append] at hlength
      exact Nat.not_succ_le_self _ hlength
    simp [hnot]
  · have hsame : p.segments <+: q.segments ↔ p.segments <+: q.parent.segments := by
      rw [hsplit, List.prefix_concat_iff, ← hsplit]
      refine or_iff_right fun hp => hq ?_
      cases p
      cases q
      exact congrArg GraphPath.mk hp.symm
    simp [hq, hsame]

/-- **Subgraphs are balanced.** Of a subgraph that the path of a listener lies in, one entry more
has come than exits, and of any other one as many. -/
theorem balanced (h : Follow (StreamReader.Next mode) r events r') (hr : r.path = .root)
    {p : GraphPath} (hp : p ≠ .root) : (events.filterMap GraphEvent.enters?).count p =
      (events.filterMap GraphEvent.leaves?).count p +
        if p.segments <+: r'.path.segments then 1 else 0 := by
  refine h.invariant (P := fun before u => (before.filterMap GraphEvent.enters?).count p =
    (before.filterMap GraphEvent.leaves?).count p + if p.segments <+: u.path.segments then 1 else 0)
    ?_ ?_
  · have hnot : ¬p.segments <+: r.path.segments := by
      rw [hr]
      intro hprefix
      exact hp (by cases p; exact congrArg GraphPath.mk (List.prefix_nil.mp hprefix))
    simp [hnot]
  · intro before u event u' hbefore hnext
    obtain ⟨henters, hleaves, hstays⟩ := hnext.path
    rw [List.filterMap_append, List.filterMap_append, List.count_append, List.count_append, hbefore]
    cases hin : event.enters? with
    | some q =>
      obtain ⟨hroot, hparent, hpath⟩ := henters q hin
      rw [List.filterMap_cons_some hin, List.filterMap_cons_none (GraphEvent.enters?_eq_some hin),
        hpath, within_child hroot, hparent, List.filterMap_nil, List.filterMap_nil,
        List.count_singleton, List.count_nil]
      simp only [beq_iff_eq]
      omega
    | none =>
      cases hout : event.leaves? with
      | some q =>
        obtain ⟨hroot, rfl, hpath⟩ := hleaves q hout
        rw [List.filterMap_cons_none hin, List.filterMap_cons_some hout, hpath, within_child hroot,
          List.filterMap_nil, List.filterMap_nil, List.count_singleton, List.count_nil]
        simp only [beq_iff_eq]
        omega
      | none =>
        rw [List.filterMap_cons_none hin, List.filterMap_cons_none hout, hstays hin hout]
        simp

/-- What has been reported of the nodes of a listener's batch. -/
def StreamPhase.Reported (completed : List (NodePath × Nat)) : StreamPhase → Prop
  | .executing _ batch pending => ∀ node ∈ batch, node ∉ pending → node ∈ completed
  | .updating _ waiting => ∀ node ∈ waiting, node ∈ completed
  | _ => True

/-- The node that is reported to be completed. -/
def GraphEvent.completes? : GraphEvent → Option (NodePath × Nat)
  | .nodeCompleted _ nodeId step => some (nodeId, step)
  | _ => none

/-- The node whose update is reported. -/
def GraphEvent.updates? : GraphEvent → Option (NodePath × Nat)
  | .stateUpdated _ nodeId step => some (nodeId, step)
  | _ => none

theorem StreamReader.Next.reported (h : StreamReader.Next mode r event r')
    {completed : List (NodePath × Nat)} (hr : r.phase.Reported completed) :
    (∀ node ∈ event.updates?, node ∈ completed) ∧
      r'.phase.Reported (completed ++ event.completes?.toList) := by
  cases h with
  | @runResumed threadId checkpointId step superstep branchId hphase =>
    refine ⟨nofun, ?_⟩
    cases branchId <;> trivial
  | @nodeStarted superstep nodeId waiting batch hphase =>
    refine ⟨nofun, ?_⟩
    cases waiting with
    | nil => exact fun node hnode hnot => absurd hnode hnot
    | cons first waiting => trivial
  | singleStarted hphase => exact ⟨nofun, fun node hnode hnot => absurd hnode hnot⟩
  | @nodeCompleted superstep batch pending nodeId step hphase hpending =>
    rw [hphase] at hr
    have hrest : ∀ node ∈ batch, node ∉ pending.erase (nodeId, step) →
        node ∈ completed ++ [(nodeId, step)] := by
      intro node hnode hnot
      rw [List.mem_append, List.mem_singleton]
      by_cases hsame : node = (nodeId, step)
      · exact .inr hsame
      · exact .inl (hr node hnode fun hin => hnot ((List.mem_erase_of_ne hsame).mpr hin))
    refine ⟨nofun, ?_⟩
    show (StreamPhase.completed superstep batch (pending.erase (nodeId, step))).Reported _
    unfold StreamPhase.completed
    cases hleft : pending.erase (nodeId, step) with
    | nil => exact fun node hnode => hrest node hnode (by rw [hleft]; exact List.not_mem_nil)
    | cons first left =>
      rw [hleft] at hrest
      exact hrest
  | stateUpdated hphase =>
    rw [hphase] at hr
    refine ⟨?_, fun node hnode => ?_⟩
    · rintro node ⟨⟩
      exact hr _ List.mem_cons_self
    · exact List.mem_append_left _ (hr node (List.mem_cons_of_mem _ hnode))
  | lastUpdated hphase =>
    rw [hphase] at hr
    refine ⟨?_, trivial⟩
    rintro node ⟨⟩
    exact hr _ List.mem_cons_self
  | routeSelected hphase =>
    refine ⟨nofun, ?_⟩
    rw [hphase]
    trivial
  | routesSelected hphase =>
    refine ⟨nofun, ?_⟩
    rw [hphase]
    trivial
  | _ => exact ⟨nofun, trivial⟩

/-- **Updates follow completions.** -/
theorem updated_completed (h : Follow (StreamReader.Next mode) r events r')
    (hr : r.phase.Reported []) : ∀ before event after node, events = before ++ event :: after →
      event.updates? = some node → node ∈ before.filterMap GraphEvent.completes? := by
  refine (h.invariant (P := fun read u =>
    u.phase.Reported (read.filterMap GraphEvent.completes?) ∧
    ∀ before event after node, read = before ++ event :: after → event.updates? = some node →
      node ∈ before.filterMap GraphEvent.completes?) ⟨hr, ?_⟩ ?_).2
  · intro before event after node hnil
    exact absurd hnil.symm (by simp)
  · rintro read u event u' ⟨hreported, hread⟩ hnext
    obtain ⟨hupdates, hreported'⟩ := hnext.reported hreported
    refine ⟨?_, fun before e after node hsplit he => ?_⟩
    · rw [List.filterMap_append]
      cases hcompletes : event.completes? with
      | none =>
        rw [hcompletes] at hreported'
        rw [List.filterMap_cons_none hcompletes]
        exact hreported'
      | some node =>
        rw [hcompletes] at hreported'
        rw [List.filterMap_cons_some hcompletes]
        exact hreported'
    · cases after using List.reverseRecOn with
      | nil =>
        obtain ⟨rfl, hlast⟩ := List.append_inj' hsplit rfl
        obtain rfl := List.singleton_inj.mp hlast
        exact hupdates node he
      | append_singleton after last =>
        rw [← List.cons_append, ← List.append_assoc] at hsplit
        exact hread before e after node (List.append_inj' hsplit rfl).1 he

end Streams

end GroupAgent.Core
