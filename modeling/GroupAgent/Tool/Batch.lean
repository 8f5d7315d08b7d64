import GroupAgent.Tool.Runtime
import Mathlib.Logic.Relation
import Mathlib.Order.WellFounded

/-!
# Tool batches

Model of `execute_batch_items` (`runtime.rs:470-561`, with `mark_not_started` 686-699,
`validate_unique_call_ids` 747-759 and `finish_report` 761-774), of `ToolBatchConfig` and
`ToolBatchReport` (179-182, 258-262) of `crates/group-agent-tool/src`: the scheduler of a batch.

* `fill` is the inner loop, which hands calls to the running set. `Turn` is one turn of the outer
  loop: it fills, and then ends or waits for one of the running calls, any of them.
* A call is started when it is handed to the running set; from then on its future is polled. So the
  tests of the crate count it (`fail_fast_preserves_each_started_failure_and_input_order`).
* An `expect` that fails is `Phase.panicked`.
* `ToolBatchConfig.default` is the configuration the prebuilt agents execute their batches with.
* The log of the calls that were started and that finished is read by statements only.

Out of scope: dropping the future of a batch, which drops the calls that are running.
-/

namespace GroupAgent.Tool

open GroupAgent.Lib GroupAgent.Model

/-! ## Batches -/

/-- Failure policy for a batch after all calls have been prevalidated. -/
inductive ToolBatchFailurePolicy where
  | collectAll
  | failFast
  deriving DecidableEq, Repr

/-- Batch scheduling configuration. -/
structure ToolBatchConfig where
  maxConcurrency : Nat
  failurePolicy : ToolBatchFailurePolicy

/-- Up to eight calls at a time, all of them collected. -/
def ToolBatchConfig.default : ToolBatchConfig := ⟨8, .collectAll⟩

/-- One batch call and its independent execution options. -/
structure ToolBatchItem where
  call : ToolCall
  options : ToolExecutionOptions

def ToolBatchItem.new (call : ToolCall) : ToolBatchItem := ⟨call, .new⟩

/-- What is reported for a call that is never started. -/
def ToolBatchItem.notStarted (item : ToolBatchItem) (index : Nat) :
    Except ToolRuntimeError ToolResult :=
  .error (.new .notStartedDueToFailFast (callContext item.call (some index)))

/-- A batch-level failure, before any call is started. -/
inductive ToolBatchError where
  | zeroConcurrency
  | duplicateToolCallId (callId : ToolCallId) (firstIndex duplicateIndex : Nat)

/-- The identifiers past those seen so far must be new. -/
def uniqueCallIds : List ToolCallId → List ToolCallId → Except ToolBatchError Unit
  | _, [] => .ok ()
  | seen, id :: ids =>
    match seen.idxOf? id with
    | some firstIndex => .error (.duplicateToolCallId id firstIndex seen.length)
    | none => uniqueCallIds (seen ++ [id]) ids

def validateUniqueCallIds (items : List ToolBatchItem) : Except ToolBatchError Unit :=
  uniqueCallIds [] (items.map fun item => item.call.id)

theorem uniqueCallIds_eq_ok : ∀ {ids seen : List ToolCallId},
    uniqueCallIds seen ids = .ok () ↔ ids.Nodup ∧ ∀ id ∈ ids, id ∉ seen
  | [], seen => by simp [uniqueCallIds]
  | id :: ids, seen => by
    unfold uniqueCallIds
    cases h : seen.idxOf? id with
    | some i =>
      have hmem : id ∈ seen := by
        by_contra hn
        rw [List.idxOf?_eq_none_iff.mpr hn] at h
        cases h
      simp [hmem]
    | none =>
      have hid : id ∉ seen := List.idxOf?_eq_none_iff.mp h
      simp only
      rw [uniqueCallIds_eq_ok, List.nodup_cons]
      constructor
      · rintro ⟨hn, hnew⟩
        refine ⟨⟨fun hmem => ?_, hn⟩, fun i hi => ?_⟩
        · exact hnew id hmem (List.mem_append_right seen List.mem_cons_self)
        · rcases List.mem_cons.mp hi with rfl | hi
          · exact hid
          · exact fun hs => hnew i hi (List.mem_append_left _ hs)
      · rintro ⟨⟨hmem, hn⟩, hnew⟩
        refine ⟨hn, fun i hi hs => ?_⟩
        rcases List.mem_append.mp hs with hs | hs
        · exact hnew i (List.mem_cons_of_mem id hi) hs
        · rw [List.mem_singleton.mp hs] at hi
          exact hmem hi

/-- The batch is checked for identifiers that are all different. -/
theorem validateUniqueCallIds_eq_ok {items : List ToolBatchItem} :
    validateUniqueCallIds items = .ok () ↔ (items.map fun item => item.call.id).Nodup := by
  unfold validateUniqueCallIds
  rw [uniqueCallIds_eq_ok]
  simp

/-- The result of one call. -/
abbrev ItemResult : Type := Except ToolRuntimeError ToolResult

/-- Ordered per-call results from one batch. -/
structure ToolBatchReport where
  callIds : List ToolCallId
  results : List ItemResult
  terminalObserverFailures : List (Option ToolObserverFailure)

/-- A batch: the runtime it is executed by, and what foreign code answers for each of its calls. -/
structure Batch where
  runtime : ToolRuntime
  items : List ToolBatchItem
  config : ToolBatchConfig
  answers : Nat → Answers

/-- A call is started, or it has finished. -/
inductive Moment where
  | started (index : Nat)
  | finished (index : Nat)
  deriving DecidableEq, Repr

/-- The state of the scheduler. -/
structure Scheduler where
  results : List (Option ItemResult)
  observerFailures : List (Option ToolObserverFailure)
  next : Nat
  running : List Nat
  exclusiveRunning : Bool
  stopScheduling : Bool
  log : List Moment

/-- Where the execution of a batch is. -/
inductive Phase where
  | scheduling (s : Scheduler)
  | returned (log : List Moment) (report : ToolBatchReport)
  | panicked (expectation : String)

namespace Batch

variable (b : Batch)

/-- What becomes of one call before any is started. -/
def prepareItem (index : Nat) (item : ToolBatchItem) : Except ToolRuntimeError RegisteredTool :=
  b.runtime.prepare item.call item.options (callContext item.call (some index))

def prepared : List (Option RegisteredTool) :=
  b.items.mapIdx fun index item => (b.prepareItem index item).toOption

/-- The results of the calls that cannot be prepared. -/
def rejected : List (Option ItemResult) :=
  b.items.mapIdx fun index item =>
    match b.prepareItem index item with
    | .ok _ => none
    | .error error => some (.error error)

def rejectedObserved : List (Option ToolObserverFailure) :=
  b.items.mapIdx fun index item =>
    match b.prepareItem index item with
    | .ok _ => none
    | .error _ => b.runtime.emitErr (b.answers index).terminal

def failFast : Bool := b.config.failurePolicy = .failFast

/-- The outcome of one call in the batch. -/
def executeBatchItem (index : Nat) (item : ToolBatchItem) : ToolExecutionReport ToolResult :=
  (b.runtime.executePrepared (b.answers index) item.options
    (callContext item.call (some index))).map ToolOutput.result

def markNotStarted (results : List (Option ItemResult)) : List (Option ItemResult) :=
  (b.items.zip results).mapIdx fun index entry => entry.2.or (some (entry.1.notStarted index))

/-- Every result must be there. -/
def finishReport (results : List (Option ItemResult))
    (observerFailures : List (Option ToolObserverFailure)) (log : List Moment) : Phase :=
  match results.mapM id with
  | some results => .returned log ⟨b.items.map fun item => item.call.id, results, observerFailures⟩
  | none => .panicked "every batch result is finalized"

/-- The scheduler before its first turn. -/
def start : Scheduler where
  results := b.rejected
  observerFailures := b.rejectedObserved
  next := 0
  running := []
  exclusiveRunning := false
  stopScheduling := false
  log := []

/-- Check the batch, and prepare its calls. -/
def enter : Except ToolBatchError Phase :=
  if b.config.maxConcurrency = 0 then .error .zeroConcurrency
  else do
    validateUniqueCallIds b.items
    if b.failFast && b.rejected.any Option.isSome then
      pure (b.finishReport (b.markNotStarted b.rejected) b.rejectedObserved [])
    else pure (.scheduling b.start)

/-- Hand the next call to the running set. -/
def push (s : Scheduler) (exclusive : Bool) : Scheduler :=
  { s with
    next := s.next + 1
    running := s.running ++ [s.next]
    exclusiveRunning := exclusive
    log := s.log ++ [.started s.next] }

/-- The condition of the inner loop. -/
def mayFill (s : Scheduler) : Prop :=
  s.stopScheduling = false ∧ s.next < b.items.length ∧
    s.running.length < b.config.maxConcurrency ∧ s.exclusiveRunning = false

instance (s : Scheduler) : Decidable (b.mayFill s) := by
  unfold mayFill
  infer_instance

/-- Hand calls to the running set, as long as there is room. -/
def fill (s : Scheduler) : Except String Scheduler :=
  if _ : b.mayFill s then
    if (s.results[s.next]?.join).isSome then fill { s with next := s.next + 1 }
    else
      match b.prepared[s.next]?.join with
      | none => .error "prepared entry exists for pending result"
      | some entry =>
        if !entry.behavior.allowsParallel then
          if s.running = [] then .ok (push s true) else .ok s
        else fill (push s false)
  else .ok s
termination_by b.items.length - s.next
decreasing_by
  · have hnext := (‹b.mayFill s› : b.mayFill s).2.1
    omega
  · have hnext := (‹b.mayFill s› : b.mayFill s).2.1
    simp only [push]
    omega

/-- A running call has finished. -/
def complete (s : Scheduler) (index : Nat) (item : ToolBatchItem) : Scheduler :=
  let report := b.executeBatchItem index item
  let failed := match report.primary with
    | .error _ => true
    | .ok _ => false
  { s with
    results := s.results.set index (some report.primary)
    observerFailures := s.observerFailures.set index report.terminalObserverFailure
    running := s.running.erase index
    exclusiveRunning := false
    stopScheduling := s.stopScheduling || (failed && b.failFast)
    log := s.log ++ [.finished index] }

/-- One turn of the outer loop. -/
inductive Turn : Phase → Phase → Prop
  | panics {s : Scheduler} {expectation : String} (hfill : b.fill s = .error expectation) :
      Turn (.scheduling s) (.panicked expectation)
  | stops {s t : Scheduler} (hfill : b.fill s = .ok t) (hidle : t.running = [])
      (hstop : t.stopScheduling = true) :
      Turn (.scheduling s) (b.finishReport (b.markNotStarted t.results) t.observerFailures t.log)
  | ends {s t : Scheduler} (hfill : b.fill s = .ok t) (hidle : t.running = [])
      (hstop : t.stopScheduling = false) (hnext : b.items.length ≤ t.next) :
      Turn (.scheduling s) (b.finishReport t.results t.observerFailures t.log)
  /-- `continue`. -/
  | idles {s t : Scheduler} (hfill : b.fill s = .ok t) (hidle : t.running = [])
      (hstop : t.stopScheduling = false) (hnext : t.next < b.items.length) :
      Turn (.scheduling s) (.scheduling t)
  /-- Any of the running calls may be the next to finish. -/
  | completes {s t : Scheduler} {index : Nat} {item : ToolBatchItem} (hfill : b.fill s = .ok t)
      (hrunning : index ∈ t.running) (hitem : b.items[index]? = some item) :
      Turn (.scheduling s) (.scheduling (b.complete t index item))

end Batch

end GroupAgent.Tool
