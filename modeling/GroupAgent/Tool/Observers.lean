import GroupAgent.Tool.Schedule
import Mathlib.Data.List.Count
import Mathlib.Data.Nat.Find

/-!
# What observers see

The events of the tool runtime (`emit`, `runtime.rs:709-723`, `execute_prepared` 623-684 and
`emit_failure` 701-707 of `crates/group-agent-tool/src`), for one call and for the calls of a
batch, whose events may come in any order that their futures are polled in.

* `tell` is `emit` with what it delivers, `watchPrepared` is `execute_prepared` with what is seen
  of it. Their answers are those of the runtime (`tell_snd`, `watchPrepared_snd`).
* `Observes` is the law of one call: what is seen of it, what comes of it and which failure of an
  observer is kept.
* `Watch` is a turn of a batch with what is seen of it. A running call is polled before it
  finishes.

Results: **`observer_law`**: the law of every call that is executed by itself, and of the calls of
a batch.

Observers may answer anything, at any event. What an observer does to the world is its own; the
runtime only reads whether it failed.
-/

namespace GroupAgent.Tool

open GroupAgent.Lib GroupAgent.Model

/-! ## Events -/

/-- What is seen of the execution of calls: an observer is told, or a tool is called. -/
inductive Sighting where
  | told (observer : Nat) (event : ToolEvent)
  | executed (context : ToolCallContext)

def ToolEvent.context : ToolEvent → ToolCallContext
  | .executionStarted context => context
  | .executionCompleted context _ => context
  | .executionFailed context _ => context
  | .executionTimedOut context _ => context

def ToolEvent.isStart : ToolEvent → Bool
  | .executionStarted _ => true
  | _ => false

def Sighting.context : Sighting → ToolCallContext
  | .told _ event => event.context
  | .executed context => context

/-- The first observers are told, in order. -/
def toldTo (event : ToolEvent) (observers : Nat) : List Sighting :=
  (List.range observers).map fun observer => .told observer event

/-- The loop of `emit`, from an observer on, with the first failure so far. -/
def tellFrom (event : ToolEvent) (answers : List (Option ToolObserverFailure)) :
    (left observer : Nat) → (firstFailure : Option ToolObserverFailure) →
      List Sighting × Except ToolObserverFailure Unit
  | 0, _, firstFailure =>
    ([], match firstFailure with
      | some failure => .error failure
      | none => .ok ())
  | left + 1, observer, firstFailure =>
    match answers[observer]?.join with
    | none =>
      let rest := tellFrom event answers left (observer + 1) firstFailure
      (.told observer event :: rest.1, rest.2)
    | some failure =>
      if event.isStart then ([.told observer event], .error failure)
      else
        let rest := tellFrom event answers left (observer + 1) (some (firstFailure.getD failure))
        (.told observer event :: rest.1, rest.2)

/-- `.err()` of what `emit` returns. -/
def err {ε : Type} : Except ε Unit → Option ε
  | .error e => some e
  | .ok () => none

namespace ToolRuntime

variable (runtime : ToolRuntime)

/-- `emit`. -/
def tell (event : ToolEvent) (answers : List (Option ToolObserverFailure)) :
    List Sighting × Except ToolObserverFailure Unit :=
  tellFrom event answers runtime.eventSinks 0 none

/-- `execute_prepared` up to the call of the tool. -/
def enterCall (answers : Answers) (context : ToolCallContext) :
    List Sighting × Except ToolObserverFailure Unit :=
  let told := runtime.tell (.executionStarted context) answers.started
  match told.2 with
  | .error source => (told.1, .error source)
  | .ok () => (told.1 ++ [.executed context], .ok ())

/-- `execute_prepared` from the end of the tool, or of the time for it. -/
def leaveCall (answers : Answers) (options : ToolExecutionOptions) (context : ToolCallContext) :
    List Sighting × ToolExecutionReport ToolOutput :=
  match options.timeout, answers.elapsed with
  | some timeout, true =>
    let told := runtime.tell (.executionTimedOut context timeout) answers.terminal
    (told.1, ⟨.error (.timedOut context timeout), err told.2⟩)
  | _, _ =>
    match answers.output with
    | .ok output =>
      let told := runtime.tell (.executionCompleted context output.result.isError) answers.terminal
      (told.1, ⟨.ok output, err told.2⟩)
    | .error source =>
      let kind := match source.kind with
        | .cancelled => ToolRuntimeErrorKind.cancelled
        | .other => .executionFailed
      let told := runtime.tell (.executionFailed context kind) answers.terminal
      (told.1, ⟨.error (.withSource kind context (.tool source)), err told.2⟩)

/-- `execute_prepared`. -/
def watchPrepared (answers : Answers) (options : ToolExecutionOptions) (context : ToolCallContext) :
    List Sighting × ToolExecutionReport ToolOutput :=
  let entered := runtime.enterCall answers context
  match entered.2 with
  | .error source => (entered.1, ⟨.error (.observerFailed context source), none⟩)
  | .ok () =>
    let left := runtime.leaveCall answers options context
    (entered.1 ++ left.1, left.2)

/-- `emit_failure`. -/
def tellFailure (error : ToolRuntimeError) (answers : Answers) :
    List Sighting × Except ToolObserverFailure Unit :=
  runtime.tell (.executionFailed error.context error.kind) answers.terminal

/-- `execute_output_report_with_options`. -/
def watchCall (answers : Answers) (call : ToolCall) (options : ToolExecutionOptions) :
    List Sighting × ToolExecutionReport ToolOutput :=
  let context := callContext call none
  match runtime.prepare call options context with
  | .error error =>
    let told := runtime.tellFailure error answers
    (told.1, ⟨.error error, err told.2⟩)
  | .ok _ => runtime.watchPrepared answers options context

end ToolRuntime

/-! ## The law of one call -/

/-- The first failure of an observer, in installation order. -/
def firstFailure (observers : Nat) (answers : List (Option ToolObserverFailure)) :
    Option ToolObserverFailure := (answers.take observers).findSome? id

/-- How the execution of a tool ends, and the event that says so. -/
inductive Ends (answers : Answers) (timeout : Option Nat) (context : ToolCallContext) :
    Except ToolRuntimeError ToolOutput → ToolEvent → Prop
  | timedOut {limit : Nat} : timeout = some limit → answers.elapsed = true →
      Ends answers timeout context (.error (.timedOut context limit))
        (.executionTimedOut context limit)
  | completed {output : ToolOutput} : (timeout = none ∨ answers.elapsed = false) →
      answers.output = .ok output →
      Ends answers timeout context (.ok output) (.executionCompleted context output.result.isError)
  | failed {source : ToolError} {kind : ToolRuntimeErrorKind} :
      (timeout = none ∨ answers.elapsed = false) → answers.output = .error source →
      kind = (if source.kind = .cancelled then .cancelled else .executionFailed) →
      Ends answers timeout context (.error (.withSource kind context (.tool source)))
        (.executionFailed context kind)

/-- The law of one call that was looked at: what comes of it, which failure of an observer is kept
beside that, and what is seen of it. -/
inductive Observes (observers : Nat) (answers : Answers)
    (prepared : Except ToolRuntimeError RegisteredTool) (timeout : Option Nat)
    (context : ToolCallContext) : ToolExecutionReport ToolOutput → List Sighting → Prop
  /-- Every observer is told that a call that cannot be prepared failed. -/
  | rejected {error : ToolRuntimeError} : prepared = .error error →
      Observes observers answers prepared timeout context
        ⟨.error error, firstFailure observers answers.terminal⟩
        (toldTo (.executionFailed context error.kind) observers)
  /-- An observer fails on the start: no observer after it is told, and the tool is not called. -/
  | refused {entry : RegisteredTool} {observer : Nat} {failure : ToolObserverFailure} :
      prepared = .ok entry → observer < observers →
      answers.started[observer]? = some (some failure) →
      (∀ earlier < observer, answers.started[earlier]?.join = none) →
      Observes observers answers prepared timeout context
        ⟨.error (.observerFailed context failure), none⟩
        (toldTo (.executionStarted context) (observer + 1))
  /-- Every observer is told of the start, the tool is called, and every observer is told of the
  end. -/
  | executed {entry : RegisteredTool} {primary : Except ToolRuntimeError ToolOutput}
      {event : ToolEvent} : prepared = .ok entry →
      (∀ observer < observers, answers.started[observer]?.join = none) →
      Ends answers timeout context primary event →
      Observes observers answers prepared timeout context
        ⟨primary, firstFailure observers answers.terminal⟩
        (toldTo (.executionStarted context) observers ++ .executed context ::
          toldTo event observers)

section Telling

variable {event : ToolEvent} {answers : List (Option ToolObserverFailure)}

theorem findSome_drop {left observer : Nat} :
    ((answers.drop observer).take (left + 1)).findSome? id =
      (answers[observer]?.join).or (((answers.drop (observer + 1)).take left).findSome? id) := by
  by_cases hlt : observer < answers.length
  · rw [List.drop_eq_getElem_cons hlt, List.take_succ_cons, List.getElem?_eq_getElem hlt]
    cases answers[observer] <;> simp
  · have hle := not_lt.mp hlt
    rw [List.drop_eq_nil_of_le hle, List.getElem?_eq_none hle,
      List.drop_eq_nil_of_le (Nat.le_succ_of_le hle)]
    simp

/-- What the loop returns, while no start has failed. -/
theorem tellFrom_snd : ∀ {left observer : Nat} {first : Option ToolObserverFailure},
    (event.isStart = true → first = none) →
    err (tellFrom event answers left observer first).2 =
      first.or (((answers.drop observer).take left).findSome? id)
  | 0, observer, first, _ => by cases first <;> simp [tellFrom, err]
  | left + 1, observer, first, hstart => by
    rw [findSome_drop, tellFrom]
    cases answers[observer]?.join with
    | none => exact tellFrom_snd hstart
    | some failure =>
      by_cases hevent : event.isStart = true
      · rw [hstart hevent]
        simp [hevent, err]
      · simp only [hevent]
        refine (tellFrom_snd fun h => absurd h hevent).trans ?_
        cases first <;> simp

/-- The loop tells every observer, when none of them fails on a start. -/
theorem tellFrom_all : ∀ {left observer : Nat} {first : Option ToolObserverFailure},
    (event.isStart = true → ∀ j, observer ≤ j → j < observer + left → answers[j]?.join = none) →
    (tellFrom event answers left observer first).1 =
      (List.range' observer left).map fun observer => .told observer event
  | 0, _, _, _ => rfl
  | left + 1, observer, first, hquiet => by
    have hrest : event.isStart = true → ∀ j, observer + 1 ≤ j → j < observer + 1 + left →
        answers[j]?.join = none :=
      fun hevent j hle hlt => hquiet hevent j (by omega) (by omega)
    rw [tellFrom, List.range'_succ, List.map_cons]
    cases hanswer : answers[observer]?.join with
    | none => exact congrArg (_ :: ·) (tellFrom_all hrest)
    | some failure =>
      by_cases hevent : event.isStart = true
      · rw [hquiet hevent observer le_rfl (by omega)] at hanswer
        cases hanswer
      · simp only [hevent]
        exact congrArg (_ :: ·) (tellFrom_all hrest)

/-- The loop stops at the first observer that fails on a start. -/
theorem tellFrom_refused {failure : ToolObserverFailure} (hevent : event.isStart = true) :
    ∀ {count left observer : Nat} {first : Option ToolObserverFailure}, count < left →
      answers[observer + count]?.join = some failure →
      (∀ j, observer ≤ j → j < observer + count → answers[j]?.join = none) →
      tellFrom event answers left observer first =
        ((List.range' observer (count + 1)).map fun observer => .told observer event,
          .error failure)
  | count, 0, _, _, hlt, _, _ => absurd hlt (Nat.not_lt_zero _)
  | 0, left + 1, observer, first, _, hanswer, _ => by
    rw [Nat.add_zero] at hanswer
    rw [tellFrom, hanswer]
    simp [hevent]
  | count + 1, left + 1, observer, first, hlt, hanswer, hquiet => by
    have hnone := hquiet observer le_rfl (by omega)
    have hshift : observer + (count + 1) = observer + 1 + count := by omega
    rw [hshift] at hanswer
    have hrest : tellFrom event answers left (observer + 1) first = _ :=
      tellFrom_refused hevent (Nat.lt_of_succ_lt_succ hlt) hanswer
        fun j hle hj => hquiet j (by omega) (by omega)
    rw [tellFrom, hnone, List.range'_succ, List.map_cons]
    simp only
    rw [hrest]

section Runtime

variable {runtime : ToolRuntime}

theorem err_injective {x y : Except ToolObserverFailure Unit} (h : err x = err y) : x = y := by
  cases x <;> cases y <;> simp_all [err]

theorem err_emit : err (runtime.emit answers) = firstFailure runtime.eventSinks answers := by
  unfold ToolRuntime.emit firstFailure
  cases (answers.take runtime.eventSinks).findSome? id <;> rfl

theorem emitErr_eq : runtime.emitErr answers = err (runtime.emit answers) := by
  unfold ToolRuntime.emitErr
  cases runtime.emit answers <;> rfl

/-- `tell` returns what `emit` does. -/
theorem tell_snd : (runtime.tell event answers).2 = runtime.emit answers := by
  refine err_injective ?_
  rw [err_emit, ToolRuntime.tell, tellFrom_snd fun _ => rfl]
  simp [firstFailure]

theorem err_tell :
    err (runtime.tell event answers).2 = firstFailure runtime.eventSinks answers := by
  rw [tell_snd, err_emit]

theorem firstFailure_eq_none {observers : Nat}
    (h : ∀ observer < observers, answers[observer]?.join = none) :
    firstFailure observers answers = none := by
  refine List.findSome?_eq_none_iff.mpr fun answer hmem => ?_
  obtain ⟨observer, hobserver⟩ := List.mem_iff_getElem?.mp hmem
  rw [List.getElem?_take] at hobserver
  split at hobserver
  · have hnone := h observer ‹_›
    rw [hobserver] at hnone
    exact hnone
  · cases hobserver

theorem toldTo_eq {observers : Nat} : toldTo event observers =
    (List.range' 0 observers).map fun observer => .told observer event := by
  rw [toldTo, List.range_eq_range']

/-- Every observer is told of an event that is not a start. -/
theorem tell_end (hevent : event.isStart = false) :
    (runtime.tell event answers).1 = toldTo event runtime.eventSinks := by
  rw [toldTo_eq]
  exact tellFrom_all fun h => absurd (h.symm.trans hevent) Bool.true_eq_false.mp

/-- What is seen and what is kept of an event that is not a start. -/
theorem tell_report {α : Type} {primary : Except ToolRuntimeError α}
    (hevent : event.isStart = false) :
    ((runtime.tell event answers).1,
        (⟨primary, err (runtime.tell event answers).2⟩ : ToolExecutionReport α)) =
      (toldTo event runtime.eventSinks, ⟨primary, firstFailure runtime.eventSinks answers⟩) := by
  rw [tell_end hevent, err_tell]

variable (runtime answers) in
/-- A start is told to every observer, or to those up to the first that fails. -/
theorem tell_start (hevent : event.isStart = true) :
    ((∀ observer < runtime.eventSinks, answers[observer]?.join = none) ∧
        runtime.tell event answers = (toldTo event runtime.eventSinks, .ok ())) ∨
      ∃ observer failure, observer < runtime.eventSinks ∧
        answers[observer]? = some (some failure) ∧
        (∀ earlier < observer, answers[earlier]?.join = none) ∧
        runtime.tell event answers = (toldTo event (observer + 1), .error failure) := by
  by_cases hquiet : ∀ observer < runtime.eventSinks, answers[observer]?.join = none
  · refine .inl ⟨hquiet, Prod.ext ?_ (err_injective ?_)⟩
    · rw [toldTo_eq]
      exact tellFrom_all fun _ j _ hlt => hquiet j (by omega)
    · rw [err_tell, firstFailure_eq_none hquiet]
      rfl
  · have hsome : ∃ observer, observer < runtime.eventSinks ∧ answers[observer]?.join ≠ none := by
      by_contra hnone
      exact hquiet fun observer hlt => by_contra fun h => hnone ⟨observer, hlt, h⟩
    obtain ⟨hlt, hfailed⟩ := Nat.find_spec hsome
    have hearlier : ∀ earlier < Nat.find hsome, answers[earlier]?.join = none := fun earlier h =>
      by_contra fun hne => Nat.find_min hsome h ⟨h.trans hlt, hne⟩
    obtain ⟨failure, hfailure⟩ := Option.ne_none_iff_exists'.mp hfailed
    refine .inr ⟨Nat.find hsome, failure, hlt, Option.join_eq_some_iff.mp hfailure, hearlier, ?_⟩
    rw [toldTo_eq]
    refine tellFrom_refused hevent hlt ?_ fun j _ hj => hearlier j (by omega)
    rw [Nat.zero_add]
    exact hfailure

end Runtime

end Telling

section Law

variable {runtime : ToolRuntime} {answers : Answers} {options : ToolExecutionOptions}
  {context : ToolCallContext}

variable (runtime answers options context) in
/-- A tool that was called ends, and every observer is told. -/
theorem leaveCall_ends : ∃ primary event, Ends answers options.timeout context primary event ∧
    runtime.leaveCall answers options context = (toldTo event runtime.eventSinks,
      ⟨primary, firstFailure runtime.eventSinks answers.terminal⟩) := by
  unfold ToolRuntime.leaveCall
  split
  · rename_i limit htimeout helapsed
    exact ⟨_, _, .timedOut htimeout helapsed, tell_report rfl⟩
  · rename_i hcase
    have hintime : options.timeout = none ∨ answers.elapsed = false := by
      cases htimeout : options.timeout with
      | none => exact .inl rfl
      | some limit =>
        refine .inr (Bool.eq_false_iff.mpr fun helapsed => ?_)
        exact hcase limit htimeout helapsed
    split
    · rename_i output houtput
      exact ⟨_, _, .completed hintime houtput, tell_report rfl⟩
    · rename_i source houtput
      refine ⟨_, _, .failed hintime houtput rfl, ?_⟩
      cases hkind : source.kind <;> exact tell_report rfl

/-- What is seen of a prepared call follows the law. -/
theorem watchPrepared_observes {prepared : Except ToolRuntimeError RegisteredTool}
    {entry : RegisteredTool} (hprepared : prepared = .ok entry) :
    Observes runtime.eventSinks answers prepared options.timeout context
      (runtime.watchPrepared answers options context).2
      (runtime.watchPrepared answers options context).1 := by
  unfold ToolRuntime.watchPrepared ToolRuntime.enterCall
  have hstart : (ToolEvent.executionStarted context).isStart = true := rfl
  rcases tell_start answers.started runtime hstart with
    ⟨hquiet, htell⟩ | ⟨observer, failure, hlt, hfailure, hearlier, htell⟩
  · obtain ⟨primary, event, hends, hleave⟩ := leaveCall_ends runtime answers options context
    rw [htell, hleave]
    simp only [List.append_assoc, List.singleton_append]
    exact .executed hprepared hquiet hends
  · rw [htell]
    exact .refused hprepared hlt hfailure hearlier

/-- `watchPrepared` returns what `executePrepared` does. -/
theorem watchPrepared_snd : (runtime.watchPrepared answers options context).2 =
    runtime.executePrepared answers options context := by
  unfold ToolRuntime.watchPrepared ToolRuntime.enterCall ToolRuntime.executePrepared
  simp only [tell_snd]
  cases runtime.emit answers.started with
  | error source => rfl
  | ok u =>
    unfold ToolRuntime.leaveCall
    simp only [tell_snd, emitErr_eq]
    cases options.timeout <;> cases answers.elapsed <;> cases answers.output <;> rfl

/-- `watchCall` returns what `executeOutputReportWithOptions` does. -/
theorem watchCall_snd {call : ToolCall} : (runtime.watchCall answers call options).2 =
    runtime.executeOutputReportWithOptions answers call options := by
  unfold ToolRuntime.watchCall ToolRuntime.executeOutputReportWithOptions ToolRuntime.tellFailure
  simp only [tell_snd, emitErr_eq]
  cases runtime.prepare call options (callContext call none) with
  | error error => rfl
  | ok entry => exact watchPrepared_snd

/-- What is seen of a call that is rejected follows the law. -/
theorem tellFailure_observes {prepared : Except ToolRuntimeError RegisteredTool}
    {error : ToolRuntimeError} (hprepared : prepared = .error error)
    (hcontext : error.context = context) :
    Observes runtime.eventSinks answers prepared options.timeout context
      ⟨.error error, err (runtime.tellFailure error answers).2⟩
      (runtime.tellFailure error answers).1 := by
  unfold ToolRuntime.tellFailure
  rw [tell_end rfl, err_tell, hcontext]
  exact .rejected hprepared

/-- **A call that is executed by itself follows the law.** -/
theorem watchCall_observes {call : ToolCall} :
    Observes runtime.eventSinks answers (runtime.prepare call options (callContext call none))
      options.timeout (callContext call none)
      (runtime.executeOutputReportWithOptions answers call options)
      (runtime.watchCall answers call options).1 := by
  rw [← watchCall_snd]
  unfold ToolRuntime.watchCall
  simp only
  cases hprepare : runtime.prepare call options (callContext call none) with
  | error error => exact tellFailure_observes rfl (prepare_context hprepare)
  | ok entry => exact watchPrepared_observes rfl

end Law

/-! ## Batches -/

namespace Batch

variable (b : Batch)

/-- What is seen of a call when its future is polled for the first time, and whether it goes on. -/
def enterItem (index : Nat) (item : ToolBatchItem) :
    List Sighting × Except ToolObserverFailure Unit :=
  b.runtime.enterCall (b.answers index) (callContext item.call (some index))

/-- What is seen of a call when its tool is done. -/
def leaveItem (index : Nat) (item : ToolBatchItem) :
    List Sighting × ToolExecutionReport ToolOutput :=
  b.runtime.leaveCall (b.answers index) item.options (callContext item.call (some index))

def watchItem (index : Nat) (item : ToolBatchItem) :
    List Sighting × ToolExecutionReport ToolOutput :=
  b.runtime.watchPrepared (b.answers index) item.options (callContext item.call (some index))

/-- What is seen of the preparation of a call. -/
def watchPreparation (index : Nat) (item : ToolBatchItem) : List Sighting :=
  match b.prepareItem index item with
  | .ok _ => []
  | .error error => (b.runtime.tellFailure error (b.answers index)).1

/-- What is seen of the preparation of the batch. -/
def watchPreparations : List Sighting := (b.items.mapIdx b.watchPreparation).flatten

end Batch

/-- The execution of a batch, with the calls whose tool is waited for and what was seen so far. -/
structure Watched where
  phase : Phase
  entered : List Nat
  seen : List Sighting

/-- A step of a batch with what is seen of it. The inner loop comes to the same every time that it
is computed, so a call that is polled leaves the scheduler where it was. -/
inductive Watch (b : Batch) : Watched → Watched → Prop
  /-- A running call is polled for the first time, and waits for its tool. -/
  | enters {s t : Scheduler} {index : Nat} {item : ToolBatchItem} {entered : List Nat}
      {seen : List Sighting} (hfill : b.fill s = .ok t) (hrunning : index ∈ t.running)
      (hitem : b.items[index]? = some item) (hnew : index ∉ entered)
      (hstart : (b.enterItem index item).2 = .ok ()) :
      Watch b ⟨.scheduling s, entered, seen⟩
        ⟨.scheduling s, index :: entered, seen ++ (b.enterItem index item).1⟩
  /-- A running call is done. It may have waited for its tool, or not. -/
  | completes {s t : Scheduler} {index : Nat} {item : ToolBatchItem} {entered : List Nat}
      {seen : List Sighting} (hfill : b.fill s = .ok t) (hrunning : index ∈ t.running)
      (hitem : b.items[index]? = some item) :
      Watch b ⟨.scheduling s, entered, seen⟩ ⟨.scheduling (b.complete t index item), entered,
        seen ++ if index ∈ entered then (b.leaveItem index item).1 else (b.watchItem index item).1⟩
  /-- The loop goes on or ends without a running call. -/
  | idles {s t : Scheduler} {p : Phase} {entered : List Nat} {seen : List Sighting}
      (hfill : b.fill s = .ok t) (hidle : t.running = []) (hturn : b.Turn (.scheduling s) p) :
      Watch b ⟨.scheduling s, entered, seen⟩ ⟨p, entered, seen⟩
  | panics {s : Scheduler} {expectation : String} {entered : List Nat} {seen : List Sighting}
      (hfill : b.fill s = .error expectation) :
      Watch b ⟨.scheduling s, entered, seen⟩ ⟨.panicked expectation, entered, seen⟩

/-! ## What is seen of one call of a batch -/

/-- What is seen of one call. -/
def own (index : Nat) (seen : List Sighting) : List Sighting :=
  seen.filter fun sighting => sighting.context.batchIndex = some index

section Own

variable {event : ToolEvent} {context : ToolCallContext} {runtime : ToolRuntime}

theorem mem_toldTo {observers : Nat} {sighting : Sighting} (h : sighting ∈ toldTo event observers) :
    sighting.context = event.context := by
  obtain ⟨observer, -, rfl⟩ := List.mem_map.mp h
  rfl

theorem mem_tell {answers : List (Option ToolObserverFailure)} {sighting : Sighting}
    (h : sighting ∈ (runtime.tell event answers).1) : sighting.context = event.context := by
  cases hevent : event.isStart with
  | false =>
    rw [tell_end hevent] at h
    exact mem_toldTo h
  | true =>
    rcases tell_start answers runtime hevent with ⟨-, htell⟩ | ⟨_, _, -, -, -, htell⟩
    · rw [htell] at h
      exact mem_toldTo h
    · rw [htell] at h
      exact mem_toldTo h

theorem mem_enterCall {answers : Answers} {sighting : Sighting}
    (h : sighting ∈ (runtime.enterCall answers context).1) : sighting.context = context := by
  unfold ToolRuntime.enterCall at h
  simp only at h
  split at h
  · exact mem_tell h
  · rcases List.mem_append.mp h with h | h
    · exact mem_tell h
    · rw [List.mem_singleton.mp h]
      rfl

theorem mem_leaveCall {answers : Answers} {options : ToolExecutionOptions} {sighting : Sighting}
    (h : sighting ∈ (runtime.leaveCall answers options context).1) :
    sighting.context = context := by
  obtain ⟨primary, event, hends, hleave⟩ := leaveCall_ends runtime answers options context
  rw [hleave] at h
  rw [mem_toldTo h]
  cases hends <;> rfl

theorem mem_watchPrepared {answers : Answers} {options : ToolExecutionOptions} {sighting : Sighting}
    (h : sighting ∈ (runtime.watchPrepared answers options context).1) :
    sighting.context = context := by
  unfold ToolRuntime.watchPrepared at h
  simp only at h
  split at h
  · exact mem_enterCall h
  · exact (List.mem_append.mp h).elim mem_enterCall mem_leaveCall

theorem own_append (index : Nat) (seen more : List Sighting) :
    own index (seen ++ more) = own index seen ++ own index more := List.filter_append ..

/-- What is seen of another call is not seen of this one. -/
theorem own_context {index i : Nat} {call : ToolCall} {seen : List Sighting}
    (h : ∀ sighting ∈ seen, sighting.context = callContext call (some index)) :
    own i seen = if i = index then seen else [] := by
  by_cases hi : i = index
  · rw [if_pos hi, hi]
    refine List.filter_eq_self.mpr fun sighting hmem => ?_
    rw [h sighting hmem]
    exact decide_eq_true rfl
  · rw [if_neg hi]
    refine List.filter_eq_nil_iff.mpr fun sighting hmem => ?_
    rw [h sighting hmem]
    simpa [callContext] using fun heq => hi heq.symm

end Own

section Seeing

variable (b : Batch)

/-- What has been seen of a call, by the log and the calls that were entered. -/
def itemSeen (log : List Moment) (entered : List Nat) (index : Nat) (item : ToolBatchItem) :
    List Sighting :=
  match b.prepareItem index item with
  | .error error => (b.runtime.tellFailure error (b.answers index)).1
  | .ok _ =>
    if .finished index ∈ log then (b.watchItem index item).1
    else if index ∈ entered then (b.enterItem index item).1
    else []

/-- The failure of an observer that is kept beside a call, by the log. -/
def observedSlot (log : List Moment) (index : Nat) (item : ToolBatchItem) :
    Option ToolObserverFailure :=
  match b.prepareItem index item with
  | .error _ => b.runtime.emitErr (b.answers index).terminal
  | .ok _ =>
    if .finished index ∈ log then (b.executeBatchItem index item).terminalObserverFailure else none

/-- How what was seen follows from the log of the scheduler, once it has filled its running set. -/
structure Seen (s : Scheduler) (entered : List Nat) (seen : List Sighting) : Prop where
  observed : ∀ i item, b.items[i]? = some item →
    s.observerFailures[i]? = some (observedSlot b s.log i item)
  began : ∀ i ∈ entered, i ∈ starts s.log
  goes : ∀ i ∈ entered, ∀ item, b.items[i]? = some item → (b.enterItem i item).2 = .ok ()
  sightings : ∀ i item, b.items[i]? = some item → own i seen = itemSeen b s.log entered i item

variable {b} {s t : Scheduler} {entered : List Nat} {seen : List Sighting}

/-- A fill starts calls, and nothing else. -/
theorem fill_keeps : ∀ {s t : Scheduler}, b.fill s = .ok t →
    t.observerFailures = s.observerFailures ∧
      ∃ more : List Nat, t.log = s.log ++ more.map .started := by
  intro s
  induction s using Batch.fill.induct (b := b) with
  | case1 s hmay hfull ih =>
    intro t h
    rw [Batch.fill, dif_pos hmay, if_pos hfull] at h
    exact ih h
  | case2 s hmay hempty hnone =>
    intro t h
    rw [Batch.fill, dif_pos hmay, if_neg hempty] at h
    simp only [hnone] at h
    cases h
  | case3 s hmay hempty entry hentry hexclusive hidle =>
    intro t h
    rw [Batch.fill, dif_pos hmay, if_neg hempty] at h
    simp only [hentry, hexclusive, hidle, if_true] at h
    cases h
    exact ⟨rfl, [s.next], rfl⟩
  | case4 s hmay hempty entry hentry hexclusive hbusy =>
    intro t h
    rw [Batch.fill, dif_pos hmay, if_neg hempty] at h
    simp only [hentry, hexclusive, hbusy, if_true, if_false] at h
    cases h
    exact ⟨rfl, [], (List.append_nil _).symm⟩
  | case5 s hmay hempty entry hentry hparallel ih =>
    intro t h
    rw [Batch.fill, dif_pos hmay, if_neg hempty] at h
    simp only [hentry, hparallel] at h
    obtain ⟨hobserved, more, hlog⟩ := ih h
    refine ⟨hobserved, s.next :: more, ?_⟩
    rw [hlog]
    simp [Batch.push]
  | case6 s hmay =>
    intro t h
    rw [Batch.fill, dif_neg hmay] at h
    cases h
    exact ⟨rfl, [], (List.append_nil _).symm⟩

theorem fill_finished (hfill : b.fill s = .ok t) (i : Nat) :
    .finished i ∈ t.log ↔ .finished i ∈ s.log := by
  obtain ⟨-, more, hlog⟩ := fill_keeps hfill
  rw [hlog, List.mem_append, or_iff_left_iff_imp]
  intro h
  obtain ⟨_, -, heq⟩ := List.mem_map.mp h
  cases heq

theorem Seen.fill (h : Seen b s entered seen) (hfill : b.fill s = .ok t) :
    Seen b t entered seen := by
  obtain ⟨hobserved, more, hlog⟩ := fill_keeps hfill
  refine ⟨fun i item hitem => ?_, fun i hi => ?_, h.goes, fun i item hitem => ?_⟩
  · rw [hobserved, h.observed i item hitem]
    simp only [observedSlot, fill_finished hfill]
  · rw [mem_starts, hlog]
    exact List.mem_append_left _ (mem_starts.mp (h.began i hi))
  · rw [h.sightings i item hitem]
    simp only [itemSeen, fill_finished hfill]

theorem own_enterItem {index i : Nat} {item : ToolBatchItem} :
    own i (b.enterItem index item).1 = if i = index then (b.enterItem index item).1 else [] :=
  own_context fun _ => mem_enterCall

theorem own_leaveItem {index i : Nat} {item : ToolBatchItem} :
    own i (b.leaveItem index item).1 = if i = index then (b.leaveItem index item).1 else [] :=
  own_context fun _ => mem_leaveCall

theorem own_watchItem {index i : Nat} {item : ToolBatchItem} :
    own i (b.watchItem index item).1 = if i = index then (b.watchItem index item).1 else [] :=
  own_context fun _ => mem_watchPrepared

/-- A call that is not refused is entered, and then left. -/
theorem watchItem_goes {index : Nat} {item : ToolBatchItem}
    (h : (b.enterItem index item).2 = .ok ()) :
    (b.watchItem index item).1 = (b.enterItem index item).1 ++ (b.leaveItem index item).1 := by
  unfold Batch.watchItem ToolRuntime.watchPrepared
  unfold Batch.enterItem at h
  simp only [h]
  rfl

/-- A running call was prepared, and has not finished. -/
theorem Inv.running_item (h : Inv b t) {index : Nat} {item : ToolBatchItem}
    (hrunning : index ∈ t.running) (hitem : b.items[index]? = some item) :
    .finished index ∉ t.log ∧ ∃ entry, b.prepareItem index item = .ok entry := by
  obtain ⟨found, entry, hfound, hprepare⟩ := ((h.began index).mp (h.flying index hrunning)).2
  obtain rfl : item = found := Option.some.inj (hitem.symm.trans hfound)
  exact ⟨fun hmem => ((h.finished index).mp hmem).2 hrunning, entry, hprepare⟩

/-- A running call is polled for the first time. -/
theorem Seen.enters (h : Seen b t entered seen) (hinv : Inv b t) {index : Nat}
    {item : ToolBatchItem} (hrunning : index ∈ t.running) (hitem : b.items[index]? = some item)
    (hnew : index ∉ entered) (hstart : (b.enterItem index item).2 = .ok ()) :
    Seen b t (index :: entered) (seen ++ (b.enterItem index item).1) := by
  obtain ⟨hunfinished, entry, hprepare⟩ := hinv.running_item hrunning hitem
  refine ⟨h.observed, fun i hi => ?_, fun i hi item' hitem' => ?_, fun i item' hitem' => ?_⟩
  · rcases List.mem_cons.mp hi with rfl | hi
    · exact hinv.flying i hrunning
    · exact h.began i hi
  · rcases List.mem_cons.mp hi with rfl | hi
    · obtain rfl : item = item' := Option.some.inj (hitem.symm.trans hitem')
      exact hstart
    · exact h.goes i hi item' hitem'
  · rw [own_append, h.sightings i item' hitem', own_enterItem]
    by_cases hi : i = index
    · subst hi
      obtain rfl : item = item' := Option.some.inj (hitem.symm.trans hitem')
      simp [itemSeen, hprepare, hunfinished, hnew]
    · simp [itemSeen, hi]

/-- A running call is done. -/
theorem Seen.complete (h : Seen b t entered seen) (hinv : Inv b t) {index : Nat}
    {item : ToolBatchItem} (hrunning : index ∈ t.running) (hitem : b.items[index]? = some item) :
    Seen b (b.complete t index item) entered (seen ++
      if index ∈ entered then (b.leaveItem index item).1 else (b.watchItem index item).1) := by
  obtain ⟨hunfinished, entry, hprepare⟩ := hinv.running_item hrunning hitem
  have hfinished : ∀ i, .finished i ∈ (b.complete t index item).log ↔
      .finished i ∈ t.log ∨ i = index := fun i => by simp [Batch.complete]
  refine ⟨fun i item' hitem' => ?_, fun i hi => ?_, h.goes, fun i item' hitem' => ?_⟩
  · by_cases hi : i = index
    · subst hi
      obtain rfl : item = item' := Option.some.inj (hitem.symm.trans hitem')
      have hlt : i < t.observerFailures.length := by
        rw [hinv.observedLength]
        exact (List.getElem?_eq_some_iff.mp hitem).1
      have hslot : observedSlot b (b.complete t i item).log i item =
          (b.executeBatchItem i item).terminalObserverFailure := by
        unfold observedSlot
        rw [hprepare]
        exact if_pos ((hfinished i).mpr (.inr rfl))
      rw [hslot]
      exact List.getElem?_set_self hlt
    · have hsame : observedSlot b (b.complete t index item).log i item' =
          observedSlot b t.log i item' := by
        simp only [observedSlot, hfinished, hi, or_false]
      rw [hsame, ← h.observed i item' hitem']
      exact List.getElem?_set_ne (Ne.symm hi)
  · rw [mem_starts]
    exact List.mem_append_left _ (mem_starts.mp (h.began i hi))
  · rw [own_append, h.sightings i item' hitem']
    by_cases hi : i = index
    · subst hi
      obtain rfl : item = item' := Option.some.inj (hitem.symm.trans hitem')
      by_cases hentered : i ∈ entered
      · have hgoes := watchItem_goes (h.goes i hentered item hitem)
        simp [itemSeen, hprepare, hunfinished, hentered, hfinished, own_leaveItem, hgoes]
      · simp [itemSeen, hprepare, hunfinished, hentered, hfinished, own_watchItem]
    · have hother : own i (if index ∈ entered then (b.leaveItem index item).1
          else (b.watchItem index item).1) = [] := by
        split
        · rw [own_leaveItem, if_neg hi]
        · rw [own_watchItem, if_neg hi]
      rw [hother, List.append_nil]
      simp only [itemSeen, hfinished, hi, or_false]

/-- What is seen of the preparation of one call. -/
theorem own_watchPreparation {index i : Nat} {item : ToolBatchItem} :
    own i (b.watchPreparation index item) =
      if i = index then b.watchPreparation index item else [] := by
  have hcontext : ∀ sighting ∈ b.watchPreparation index item,
      sighting.context = callContext item.call (some index) := by
    intro sighting hmem
    unfold Batch.watchPreparation at hmem
    split at hmem
    · cases hmem
    · rename_i error hprepare
      rw [mem_tell hmem]
      exact prepare_context hprepare
  exact own_context hcontext

theorem own_flatten {α : Type} {g : Nat → α → List Sighting} {i : Nat}
    (hg : ∀ index a, own i (g index a) = if i = index then g index a else []) (l : List α) :
    own i (l.mapIdx g).flatten = (l[i]?).elim [] (g i) := by
  induction l using List.reverseRecOn with
  | nil => rfl
  | append_singleton l a ih =>
    rw [List.mapIdx_concat, List.flatten_append, own_append, ih, List.flatten_singleton, hg]
    by_cases hi : i = l.length
    · simp [hi]
    · rw [if_neg hi, List.append_nil]
      rcases Nat.lt_or_gt_of_ne hi with hlt | hgt
      · rw [List.getElem?_append_left hlt]
      · rw [List.getElem?_eq_none (by omega), List.getElem?_eq_none (by simp; omega)]

/-- The batch is prepared as it is seen to be. -/
theorem seen_start : Seen b b.start [] b.watchPreparations := by
  refine ⟨fun i item hitem => ?_, fun i hi => absurd hi List.not_mem_nil,
    fun i hi => absurd hi List.not_mem_nil, fun i item hitem => ?_⟩
  · show b.rejectedObserved[i]? = _
    unfold Batch.rejectedObserved observedSlot
    rw [List.getElem?_mapIdx, hitem]
    cases hprepare : b.prepareItem i item <;> simp [hprepare, Batch.start]
  · unfold Batch.watchPreparations itemSeen
    rw [own_flatten (fun _ _ => own_watchPreparation), hitem]
    show b.watchPreparation i item = _
    unfold Batch.watchPreparation
    cases b.prepareItem i item with
    | ok entry => simp [Batch.start]
    | error error => rfl

end Seeing

/-! ## Whole batches -/

section Whole

variable (b : Batch)

/-- The law of one call of a batch. -/
inductive ItemLaw (log : List Moment) (report : ToolBatchReport) (seen : List Sighting)
    (index : Nat) (item : ToolBatchItem) : Prop
  /-- A call that was rejected, or started. -/
  | observed (whole : ToolExecutionReport ToolOutput)
      (hlooked : .started index ∈ log ∨ ¬Prepared b index)
      (hresult : report.results[index]? = some (whole.primary.map ToolOutput.result))
      (hfailure : report.terminalObserverFailures[index]? = some whole.terminalObserverFailure)
      (hobserves : Observes b.runtime.eventSinks (b.answers index) (b.prepareItem index item)
        item.options.timeout (callContext item.call (some index)) whole (own index seen)) :
      ItemLaw log report seen index item
  /-- Nothing is seen of a call that is not started. -/
  | notStarted (hprepared : Prepared b index) (hstart : .started index ∉ log)
      (hresult : report.results[index]? = some (item.notStarted index))
      (hfailure : report.terminalObserverFailures[index]? = some none)
      (hnothing : own index seen = []) : ItemLaw log report seen index item

/-- The observer law wherever a batch is: it goes on, or every call follows the law. -/
def Lawful (w : Watched) : Prop :=
  match w.phase with
  | .scheduling _ => ∃ w', Watch b w w'
  | .returned log report =>
    ∀ index item, b.items[index]? = some item → ItemLaw b log report w.seen index item
  | .panicked _ => False

variable {b} {s t : Scheduler} {entered : List Nat} {seen : List Sighting}

theorem finishReport_returned {results : List (Option ItemResult)}
    {observed : List (Option ToolObserverFailure)} {log log' : List Moment}
    {report : ToolBatchReport} (h : b.finishReport results observed log = .returned log' report) :
    report.terminalObserverFailures = observed := by
  unfold Batch.finishReport at h
  split at h
  · cases h
    rfl
  · cases h

/-- When no call is running any more, every call that is reported follows the law. -/
theorem Seen.law (h : Seen b s entered seen) (hinv : Inv b s) (hidle : s.running = [])
    {report : ToolBatchReport} (hreport : Reported b s.log report)
    (hfailures : report.terminalObserverFailures = s.observerFailures) {index : Nat}
    {item : ToolBatchItem} (hitem : b.items[index]? = some item) :
    ItemLaw b s.log report seen index item := by
  obtain ⟨result, hresult, houtcome⟩ := hreport.outcome index item hitem
  have hslot := h.observed index item hitem
  have hown := h.sightings index item hitem
  rw [← hfailures] at hslot
  unfold observedSlot at hslot
  unfold itemSeen at hown
  cases houtcome with
  | @rejected error hprepare hstart =>
    rw [hprepare] at hslot hown
    simp only at hslot hown
    have hlaw : Observes b.runtime.eventSinks (b.answers index) (.error error) item.options.timeout
        (callContext item.call (some index)) _ _ :=
      tellFailure_observes rfl (prepare_context hprepare)
    refine .observed ⟨.error error, err (b.runtime.tellFailure error (b.answers index)).2⟩ (.inr ?_)
      hresult ?_ (by rw [hown, hprepare]; exact hlaw)
    · rintro ⟨found, entry, hfound, hentry⟩
      obtain rfl : item = found := Option.some.inj (hitem.symm.trans hfound)
      rw [hprepare] at hentry
      cases hentry
    · rw [hslot, emitErr_eq, ← tell_snd]
      rfl
  | executed hprepare hstart hfinish =>
    rw [hprepare] at hslot hown
    simp only [hfinish, if_true] at hslot hown
    have hlaw : Observes b.runtime.eventSinks (b.answers index) (b.prepareItem index item)
        item.options.timeout (callContext item.call (some index)) (b.watchItem index item).2
        (b.watchItem index item).1 := watchPrepared_observes hprepare
    refine .observed (b.watchItem index item).2 (.inl hstart) ?_ ?_ (by rw [hown]; exact hlaw)
    · rw [hresult, Batch.watchItem, watchPrepared_snd]
      rfl
    · rw [hslot, Batch.watchItem, watchPrepared_snd]
      rfl
  | notStarted hprepare hstart hfast hcause =>
    have hunfinished : .finished index ∉ s.log := fun hmem =>
      hstart ((hinv.finished_of_idle hidle).mp hmem)
    have hnew : index ∉ entered := fun hmem => hstart (mem_starts.mp (h.began index hmem))
    rw [hprepare] at hslot hown
    simp only [hunfinished, hnew, if_false] at hslot hown
    exact .notStarted ⟨item, _, hitem, hprepare⟩ hstart hresult hslot hown

/-- What was seen wherever a batch is. -/
def Follows (b : Batch) (w : Watched) : Prop :=
  match w.phase with
  | .scheduling s => ∀ t, b.fill s = .ok t → Seen b t w.entered w.seen
  | .returned log report =>
    ∀ index item, b.items[index]? = some item → ItemLaw b log report w.seen index item
  | .panicked _ => False

/-- What holds wherever a batch is. -/
def Kept (b : Batch) (w : Watched) : Prop := Good b w.phase ∧ Follows b w

/-- A batch that ends without a running call has followed the law. -/
theorem Seen.ends (h : Seen b t entered seen) (hinv : Inv b t) (hidle : t.running = [])
    {results : List (Option ItemResult)} {report : ToolBatchReport}
    (hfinish : b.finishReport results t.observerFailures t.log = .returned t.log report)
    (hreport : Reported b t.log report) {index : Nat} {item : ToolBatchItem}
    (hitem : b.items[index]? = some item) : ItemLaw b t.log report seen index item :=
  h.law hinv hidle hreport (finishReport_returned hfinish) hitem

/-- A step of a batch keeps what holds. -/
theorem Kept.watch (hmax : 1 ≤ b.config.maxConcurrency) {w w' : Watched} (h : Kept b w)
    (hwatch : Watch b w w') : Kept b w' := by
  obtain ⟨hgood, hkept⟩ := h
  cases hwatch with
  | @enters s t index item entered seen hfill hrunning hitem hnew hstart =>
    refine ⟨hgood, fun t' ht' => ?_⟩
    obtain ⟨_, ht, hinv, -, -⟩ := hgood.1.fill hmax
    rw [hfill] at ht ht'
    cases ht
    cases ht'
    exact (hkept t hfill).enters hinv hrunning hitem hnew hstart
  | @completes s t index item entered seen hfill hrunning hitem =>
    refine ⟨hgood.turn hmax (.completes hfill hrunning hitem), fun t' ht' => ?_⟩
    obtain ⟨_, ht, hinv, -, -⟩ := hgood.1.fill hmax
    rw [hfill] at ht
    cases ht
    exact ((hkept t hfill).complete hinv hrunning hitem).fill ht'
  | @idles s t p entered seen hfill hidle hturn =>
    have hnext := hgood.turn hmax hturn
    obtain ⟨_, ht, hinv, -, -⟩ := hgood.1.fill hmax
    rw [hfill] at ht
    cases ht
    refine ⟨hnext, ?_⟩
    cases hturn with
    | panics hpanic =>
      rw [hfill] at hpanic
      cases hpanic
    | @stops _ t' hfill' _ hstop =>
      rw [hfill] at hfill'
      cases hfill'
      obtain ⟨hfast, hcause⟩ := hinv.stop.mp hstop
      obtain ⟨report, heq, hreport⟩ := hinv.report_stopped hidle hfast (.inr hcause)
      rw [heq]
      exact fun index item hitem => (hkept t hfill).ends hinv hidle heq hreport hitem
    | @ends _ t' hfill' _ _ hlast =>
      rw [hfill] at hfill'
      cases hfill'
      obtain ⟨report, heq, hreport⟩ := hinv.report hidle hlast
      rw [heq]
      exact fun index item hitem => (hkept t hfill).ends hinv hidle heq hreport hitem
    | @idles _ t' hfill' _ _ _ =>
      rw [hfill] at hfill'
      cases hfill'
      exact fun t' ht' => (hkept t hfill).fill ht'
    | @completes _ t' index item hfill' hrunning hitem =>
      rw [hfill] at hfill'
      cases hfill'
      rw [hidle] at hrunning
      cases hrunning
  | panics hfill =>
    obtain ⟨_, ht, -⟩ := hgood.1.fill hmax
    rw [hfill] at ht
    cases ht

theorem Kept.run (hmax : 1 ≤ b.config.maxConcurrency) {w w' : Watched} (h : Kept b w)
    (hrun : Relation.ReflTransGen (Watch b) w w') : Kept b w' := by
  induction hrun with
  | refl => exact h
  | tail _ hwatch ih => exact ih.watch hmax hwatch

/-- A turn of the scheduler can be watched. -/
theorem watch_of_turn {p : Phase} (h : b.Turn (.scheduling s) p) (entered : List Nat)
    (seen : List Sighting) : ∃ w', Watch b ⟨.scheduling s, entered, seen⟩ w' := by
  cases h with
  | panics hfill => exact ⟨_, .panics hfill⟩
  | stops hfill hidle hstop => exact ⟨_, .idles hfill hidle (.stops hfill hidle hstop)⟩
  | ends hfill hidle hstop hnext => exact ⟨_, .idles hfill hidle (.ends hfill hidle hstop hnext)⟩
  | idles hfill hidle hstop hnext => exact ⟨_, .idles hfill hidle (.idles hfill hidle hstop hnext)⟩
  | completes hfill hrunning hitem => exact ⟨_, .completes hfill hrunning hitem⟩

theorem Kept.lawful (hmax : 1 ≤ b.config.maxConcurrency) {w : Watched} (h : Kept b w) :
    Lawful b w := by
  obtain ⟨phase, entered, seen⟩ := w
  cases phase with
  | scheduling s =>
    obtain ⟨p, hturn⟩ := h.1.1.turns hmax
    exact watch_of_turn hturn entered seen
  | returned log report => exact h.2
  | panicked expectation => exact h.2

theorem countP_enters {running : List Nat} {index : Nat} (hrunning : index ∈ running)
    (hnew : index ∉ entered) :
    running.countP (· ∉ index :: entered) < running.countP (· ∉ entered) := by
  have hmem : index ∈ running.filter (· ∉ entered) :=
    List.mem_filter.mpr ⟨hrunning, decide_eq_true hnew⟩
  have hsplit : running.countP (· ∉ index :: entered) =
      (running.filter (· ∉ entered)).countP (· ≠ index) := by
    rw [List.countP_filter]
    refine List.countP_congr fun i _ => ?_
    simp
  rw [hsplit, List.countP_eq_length_filter (l := running)]
  exact List.countP_lt_length_iff.mpr ⟨index, hmem, by simp⟩

/-- Every run of a batch ends, with what is seen of it: a call is entered once. -/
theorem watch_ends {p : Phase} (hacc : Acc (fun p' p => b.Turn p p') p) :
    ∀ (entered : List Nat) (seen : List Sighting),
      Acc (fun w' w => Watch b w w') ⟨p, entered, seen⟩ := by
  induction hacc with
  | intro p _ ih =>
    intro entered
    -- how many running calls were not entered
    induction hn : (match p with
      | .scheduling s => match b.fill s with
        | .ok t => t.running.countP (· ∉ entered)
        | .error _ => 0
      | _ => 0) using Nat.strong_induction_on generalizing entered with
    | _ n inner =>
      intro seen
      refine Acc.intro _ fun w' hwatch => ?_
      cases hwatch with
      | @enters s t index item _ _ hfill hrunning hitem hnew hstart =>
        refine inner _ ?_ (index :: entered) rfl _
        rw [← hn]
        simp only [hfill]
        exact countP_enters hrunning hnew
      | completes hfill hrunning hitem => exact ih _ (.completes hfill hrunning hitem) _ _
      | idles hfill hidle hturn => exact ih _ hturn _ _
      | panics hfill => exact ih _ (.panics hfill) _ _

/-- A batch that is entered passed its checks. -/
theorem enter_checks {p : Phase} (h : b.enter = .ok p) :
    1 ≤ b.config.maxConcurrency ∧ (b.items.map fun item => item.call.id).Nodup := by
  unfold Batch.enter at h
  obtain ⟨hmax, hrest⟩ := ite_error_eq_ok.mp h
  obtain ⟨u, hvalid, -⟩ := bind_eq_ok.mp hrest
  exact ⟨Nat.one_le_iff_ne_zero.mpr hmax, validateUniqueCallIds_eq_ok.mp hvalid⟩

/-- The preparation of a batch is seen as it is entered. -/
theorem follows_enter {p : Phase} (henter : b.enter = .ok p) :
    Follows b ⟨p, [], b.watchPreparations⟩ := by
  unfold Batch.enter at henter
  obtain ⟨-, hrest⟩ := ite_error_eq_ok.mp henter
  obtain ⟨u, hvalid, hphase⟩ := bind_eq_ok.mp hrest
  split at hphase
  · rename_i hrejects
    obtain ⟨hfast, hany⟩ := Bool.and_eq_true_iff.mp hrejects
    obtain ⟨report, heq, hreport⟩ := (inv_start b).report_stopped rfl hfast
      (.inl ((rejected_any b).mp hany))
    have hreturned : b.finishReport (b.markNotStarted b.rejected) b.rejectedObserved [] =
        .returned [] report := heq
    rw [hreturned] at hphase
    cases hphase
    exact fun index item hitem => seen_start.ends (inv_start b) rfl heq hreport hitem
  · cases hphase
    exact fun t hfill => seen_start.fill hfill

/-- **The observer law.** A batch goes through finitely many steps, in any order that its calls are
polled in and finish in. At its end every call follows the law, and so does a call that is executed
by itself. -/
theorem observer_law (b : Batch) :
    (∀ p, b.enter = .ok p → Acc (fun w' w => Watch b w w') ⟨p, [], b.watchPreparations⟩ ∧
      ∀ w, Relation.ReflTransGen (Watch b) ⟨p, [], b.watchPreparations⟩ w → Lawful b w) ∧
    ∀ (runtime : ToolRuntime) (answers : Answers) (call : ToolCall)
      (options : ToolExecutionOptions),
      Observes runtime.eventSinks answers (runtime.prepare call options (callContext call none))
        options.timeout (callContext call none)
        (runtime.executeOutputReportWithOptions answers call options)
        (runtime.watchCall answers call options).1 := by
  refine ⟨fun p henter => ?_, fun _ _ _ _ => watchCall_observes⟩
  obtain ⟨hmax, hids⟩ := enter_checks henter
  obtain ⟨_, hp, hgood, hacc⟩ := enter_good hmax hids
  rw [henter] at hp
  cases hp
  have hkept : Kept b ⟨p, [], b.watchPreparations⟩ := ⟨hgood, follows_enter henter⟩
  exact ⟨watch_ends hacc _ _, fun w hrun => (hkept.run hmax hrun).lawful hmax⟩

/-- A call with two observers, of which the first fails on the start. -/
def refusedEcho : Batch where
  runtime := ⟨⟨[echo], nodup_echo⟩, 2⟩
  items := [.new ⟨⟨"a", nonblank_a⟩, echo.definition.name, .null, .empty⟩]
  config := ⟨1, .collectAll⟩
  answers := fun _ => ⟨[some .panicked, none], false, .ok ⟨⟨[], false⟩, .empty⟩, []⟩

theorem observer_law_echo : ∃ p, refusedEcho.enter = .ok p ∧
    ∀ w, Relation.ReflTransGen (Watch refusedEcho) ⟨p, [], refusedEcho.watchPreparations⟩ w →
      Lawful refusedEcho w := by
  obtain ⟨p, henter, -, -⟩ := enter_good (b := refusedEcho) (by decide) (by decide +kernel)
  exact ⟨p, henter, ((observer_law refusedEcho).1 p henter).2⟩

end Whole

end GroupAgent.Tool
