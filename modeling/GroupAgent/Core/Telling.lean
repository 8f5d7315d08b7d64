import GroupAgent.Core.Housing
import GroupAgent.Core.Saving

/-!
# What the parts of a run tell

The parts of the runtime by where they leave a listener (`EventEmitter`, `runtime.rs:2183-2223`;
the places of `execute_internal`, 369-890, that emit), over a run whose events are all retained.

* `Told`: what has been emitted since the run started is read by the protocol, and every save that
  was accepted has been reported, but for the one that is due.
* `Failed`: a part that stops with an error has told it.
* `Tells`: what a part tells a listener that is at `t`. Most parts tell nothing, unless they fail.

Results: **`tells_runSingle`**, **`tells_runParallel`**: executing a frontier leaves its updates to
be reported, or a single node to be suspended.

A run that retains fewer events tells the same: `EventRetention` only decides which of them the
report keeps. A panic tells nothing, and no statement here is about one.
-/

namespace GroupAgent.Core

open GroupAgent.Lib

variable {ν ρ : Type} {E : Env ν ρ}

/-- The event that reports an accepted save. -/
def StoreWrite.report : StoreWrite E → Option GraphEvent
  | .save _ request (some (.ok checkpoint)) =>
    some (.checkpointSaved request.runId checkpoint.id request.threadId request.superstep
      request.step request.completed)
  | _ => none

def GraphEvent.isSave : GraphEvent → Bool
  | .checkpointSaved _ _ _ _ _ _ => true
  | _ => false

/-- Where a listener is, and the save it has yet to hear of. -/
structure Telling where
  reader : StreamReader
  due : Option GraphEvent

/-- What has been told since `m₀`. -/
def Told (mode : StreamMode) (maxSteps : Nat) (m₀ : Machine E) (t : Telling) (m : Machine E) :
    Prop :=
  ∃ events writes, m.events = m₀.events ++ .runStarted t.reader.runId maxSteps :: events ∧
    m.writes = m₀.writes ++ writes ∧
    Follow (StreamReader.Next mode) (.start mode t.reader.runId) events t.reader ∧
    writes.filterMap StoreWrite.report = events.filter GraphEvent.isSave ++ t.due.toList

/-- A stop with an error has been told. -/
def Failed (e : Stop) (t : Telling) : Prop :=
  ∀ error, e = .error error →
    t.reader.phase = .ended (.failed (RunFailure.ofError error)) ∧ t.due = none

/-- A listener of a run that goes on. -/
structure Live (ctx : RunContext) (t : Telling) : Prop where
  retained : ctx.events.retention = .all
  run : t.reader.runId = ctx.runId
  goes : t.reader.phase.ends? = none
  due : t.due = none

/-- What a part of a run tells. -/
abbrev Tells {α : Type} (mode : StreamMode) (maxSteps : Nat) (m₀ : Machine E) (t : Telling)
    (x : M E α) (P : α → Telling → Prop) : Prop :=
  Moves (Told mode maxSteps m₀) t x P Failed

section Parts

variable {mode : StreamMode} {maxSteps : Nat} {m₀ : Machine E} {t : Telling} {ctx : RunContext}
  {α β : Type}

/-! ## Emitting -/

theorem Told.emitted {m : Machine E} (h : Told mode maxSteps m₀ t m) {event : GraphEvent}
    {r : StreamReader} (hnext : StreamReader.Next mode t.reader event r) {due : Option GraphEvent}
    (hdue : t.due.toList = (if event.isSave then [event] else []) ++ due.toList) (w : E.World) :
    Told mode maxSteps m₀ ⟨r, due⟩ { m with world := w, events := m.events ++ [event] } := by
  obtain ⟨events, writes, hevents, hwrites, hread, hreport⟩ := h
  have hrun := hnext.run.2
  refine ⟨events ++ [event], writes, ?_, hwrites, ?_, ?_⟩
  · show m.events ++ [event] = _
    rw [hevents, hrun, List.append_assoc]
    rfl
  · show Follow _ (StreamReader.start mode r.runId) _ r
    rw [hrun]
    exact hread.snoc hnext
  · show _ = _ ++ due.toList
    rw [hreport, hdue, List.filter_append, List.append_assoc, List.append_cancel_left_eq]
    cases hsave : event.isSave with
    | true => simp [hsave]
    | false => simp [hsave]

theorem moves_emitWith {config : EventConfig} (hall : config.retention = .all) {event : GraphEvent}
    {r : StreamReader} (hnext : StreamReader.Next mode t.reader event r) {due : Option GraphEvent}
    (hdue : t.due.toList = (if event.isSave then [event] else []) ++ due.toList)
    {S : Stop → Telling → Prop} : Moves (Told mode maxSteps m₀) t (emit config event : M E Unit)
      (fun _ t' => t' = ⟨r, due⟩) S := by
  intro m hm
  have henabled : config.isEnabled = true := by
    unfold EventConfig.isEnabled
    simp [hall]
  unfold emit emitWith
  rw [if_pos henabled, wp_bind, wp_pure, wp_modify]
  simp only [hall, if_true]
  exact ⟨⟨r, due⟩, hm.emitted hnext hdue _, rfl⟩

/-- An event that reports no save. -/
theorem moves_emit {config : EventConfig} (hall : config.retention = .all) {event : GraphEvent}
    {r : StreamReader} (hnext : StreamReader.Next mode t.reader event r) (hdue : t.due = none)
    (hsave : event.isSave = false) {S : Stop → Telling → Prop} :
    Moves (Told mode maxSteps m₀) t (emit config event : M E Unit) (fun _ t' => t' = ⟨r, none⟩) S :=
  moves_emitWith hall hnext (by rw [hdue, hsave]; rfl)

/-- The report of the save that is due. -/
theorem moves_report {config : EventConfig} (hall : config.retention = .all) {event : GraphEvent}
    {r : StreamReader} (hnext : StreamReader.Next mode t.reader event r) (hdue : t.due = some event)
    (hsave : event.isSave = true) {S : Stop → Telling → Prop} :
    Moves (Told mode maxSteps m₀) t (emit config event : M E Unit) (fun _ t' => t' = ⟨r, none⟩) S :=
  moves_emitWith hall hnext (by rw [hdue, hsave]; rfl)

theorem tells_fail (h : Live ctx t) {error : GraphRunError} {P : α → Telling → Prop} :
    Tells mode maxSteps m₀ t (fail ctx error : M E α) P := by
  unfold fail
  have hnext : StreamReader.Next mode t.reader
      (.runFailed t.reader.runId (RunFailure.ofError error)) _ := .runFailed h.goes
  rw [h.run] at hnext
  refine moves_bind (moves_emit h.retained hnext h.due rfl) ?_
  rintro _ _ rfl
  refine moves_throw ?_
  rintro _ ⟨⟩
  exact ⟨rfl, rfl⟩

theorem tells_orFail (h : Live ctx t) {r : Except GraphRunError α} {P : α → Telling → Prop}
    (hP : ∀ a, r = .ok a → P a t) : Tells mode maxSteps m₀ t (orFail ctx r : M E α) P := by
  unfold orFail
  cases r with
  | ok a => exact moves_pure (hP a rfl)
  | error error => exact tells_fail h

/-! ## Parts that tell nothing -/

theorem failed_panic (p : Panic) : Failed (.panic p) t := by
  rintro error ⟨⟩

theorem tells_outOfFuel {P : α → Telling → Prop} :
    Tells mode maxSteps m₀ t (throw .outOfFuel : M E α) P := by
  refine moves_throw ?_
  rintro error ⟨⟩

theorem tells_panic {p : Panic} {P : α → Telling → Prop} :
    Tells mode maxSteps m₀ t (panic p : M E α) P := moves_throw (failed_panic p)

theorem tells_ask (f : E.World → α × E.World) :
    Tells mode maxSteps m₀ t (ask f : M E α) fun _ t' => t' = t := by
  intro m hm
  rw [wp_ask]
  exact ⟨t, hm, rfl⟩

theorem tells_usizeAdd {a b : Nat} :
    Tells mode maxSteps m₀ t (usizeAdd a b : M E Nat) fun c t' => t' = t ∧ c = a + b := by
  unfold usizeAdd
  split
  · exact moves_pure ⟨rfl, rfl⟩
  · exact tells_panic

theorem tells_instantAdd {start : Instant} {timeout : Duration} :
    Tells mode maxSteps m₀ t (instantAdd start timeout : M E Instant) fun _ t' => t' = t := by
  unfold instantAdd
  split
  · exact moves_pure rfl
  · exact tells_panic

theorem tells_deadlineFrom {started : Instant} {timeout : Option Duration} :
    Tells mode maxSteps m₀ t (ActiveControl.deadlineFrom started timeout : M E _)
      fun _ t' => t' = t := by
  unfold ActiveControl.deadlineFrom
  cases timeout with
  | none => exact moves_pure rfl
  | some timeout =>
    refine moves_bind tells_instantAdd ?_
    rintro _ _ rfl
    exact moves_pure rfl

theorem tells_deadlineError {runId : RunId} {nodeId : Option NodePath} {step : Nat}
    {deadline : ActiveDeadline} :
    Tells mode maxSteps m₀ t (ActiveControl.deadlineError runId nodeId step deadline : M E _)
      fun _ t' => t' = t := by
  unfold ActiveControl.deadlineError
  cases deadline with
  | run timeout instant => exact moves_pure rfl
  | node timeout instant =>
    cases nodeId with
    | none => exact tells_panic
    | some nodeId => exact moves_pure rfl

theorem tells_check {runId : RunId} {nodeId : Option NodePath} {step : Nat}
    {deadline : Option ActiveDeadline} :
    Tells mode maxSteps m₀ t (ActiveControl.check runId nodeId step deadline : M E _)
      fun _ t' => t' = t := by
  unfold ActiveControl.check
  refine moves_bind (tells_ask _) ?_
  rintro cancelled _ rfl
  split
  · exact moves_pure rfl
  · cases deadline with
    | none => exact moves_pure rfl
    | some deadline =>
      refine moves_bind (tells_ask _) ?_
      rintro now _ rfl
      split
      · exact moves_map tells_deadlineError fun _ _ h => h
      · exact moves_pure rfl

theorem tells_control (h : Live ctx t) {nodeId : Option NodePath} {step : Nat}
    {deadline : Option ActiveDeadline} :
    Tells mode maxSteps m₀ t (control ctx nodeId step deadline : M E Unit) fun _ t' => t' = t := by
  unfold control
  refine moves_bind tells_check ?_
  rintro error _ rfl
  cases error with
  | none => exact moves_pure rfl
  | some error => exact tells_fail h

theorem tells_controlRun (h : Live ctx t) {nodeId : Option NodePath} {step : Nat} :
    Tells mode maxSteps m₀ t (controlRun ctx nodeId step : M E Unit) fun _ t' => t' = t :=
  tells_control h

/-! ## Going on -/

theorem Live.next (h : Live ctx t) {event : GraphEvent} {r : StreamReader}
    (hnext : StreamReader.Next mode t.reader event r) (hgoes : event.ends? = none) :
    Live ctx ⟨r, none⟩ where
  retained := h.retained
  run := hnext.run.2.trans h.run
  goes := hnext.over.2.trans hgoes
  due := rfl

/-- An event, which may be the last. -/
theorem tells_last (h : Live ctx t) {event event' : GraphEvent} {r : StreamReader}
    (hnext : StreamReader.Next mode t.reader event' r) (hevent : event' = event)
    (hsave : event'.isSave = false) :
    Tells mode maxSteps m₀ t (emit ctx.events event : M E Unit) fun _ t' => t' = ⟨r, none⟩ := by
  subst hevent
  exact moves_emit h.retained hnext h.due hsave

theorem tells_emit (h : Live ctx t) {event event' : GraphEvent} {r : StreamReader}
    (hnext : StreamReader.Next mode t.reader event' r) (hevent : event' = event)
    (hsave : event'.isSave = false) (hgoes : event'.ends? = none) :
    Tells mode maxSteps m₀ t (emit ctx.events event : M E Unit)
      fun _ t' => t' = ⟨r, none⟩ ∧ Live ctx t' := by
  refine moves_mono (tells_last h hnext hevent hsave) ?_ fun _ _ he => he
  rintro _ _ rfl
  exact ⟨rfl, h.next hnext hgoes⟩

/-! ## Nodes -/

variable {g : CompiledGraph ν ρ} {ls : LoopState E Nat}

theorem tells_nodeAt {index : Nat} {node : CompiledNode ν ρ Nat}
    (hnode : g.items[index]? = some (.node node)) :
    Tells mode maxSteps m₀ t (g.nav.nodeAt index : M E (CompiledNode ν ρ Nat))
      fun n t' => t' = t ∧ n = node := by
  rw [nodeAt_eq hnode]
  exact moves_pure ⟨rfl, rfl⟩

theorem tells_finishNode (h : Live ctx t) {nodeId : NodePath} {step : Nat} {kind : NodeKind ν}
    {active : Option ActiveDeadline} (answer : Raced active (kind.Answer E.Update E.Value)) :
    Tells mode maxSteps m₀ t (executeNode.finishNode ctx nodeId step kind answer)
      fun _ t' => t' = t := by
  unfold executeNode.finishNode
  cases answer with
  | cancelled => exact tells_fail h
  | elapsed passed hforce =>
    refine moves_bind tells_deadlineError ?_
    rintro error _ rfl
    exact tells_fail h
  | ready answer =>
    refine moves_bind (tells_controlRun h) ?_
    rintro _ _ rfl
    cases kind.outcome answer with
    | error source => exact tells_fail h
    | ok outcome => exact moves_pure rfl

theorem tells_executeNode (h : Live ctx t) {attempt : NodeAttempt ν E.State E.Value}
    {nodeDeadline : Option (Duration × Instant)} :
    Tells mode maxSteps m₀ t (executeNode ctx attempt nodeDeadline) fun _ t' => t' = t := by
  unfold executeNode
  refine moves_bind (tells_control h) ?_
  rintro _ t rfl
  refine moves_bind (P := fun _ t' => t' = t) ?_ ?_
  · unfold executeNode.awaitNode
    split
    · exact moves_map (tells_ask _) fun _ _ ht => ht
    · exact tells_ask _
  · rintro answer _ rfl
    exact tells_finishNode h answer

/-- The execution of a node, as events report it. -/
def NodeAttempt.key {σ υ : Type} (attempt : NodeAttempt ν σ υ) : NodePath × Nat :=
  (attempt.context.nodePath, attempt.context.step)

theorem tells_startNode (h : Live ctx t) {index : Nat} {node : CompiledNode ν ρ Nat} {step : Nat}
    {event : GraphEvent} {r : StreamReader} (hnext : StreamReader.Next mode t.reader event r)
    (hevent : event = .nodeStarted ctx.runId node.path step) :
    Tells mode maxSteps m₀ t (startNode ctx ls index node step)
      fun started t' => t' = ⟨r, none⟩ ∧ Live ctx t' ∧ started.1.key = (node.path, step) := by
  unfold startNode
  refine moves_bind (tells_controlRun h) ?_
  rintro _ _ rfl
  refine moves_bind (tells_ask _) ?_
  rintro now _ rfl
  refine moves_bind tells_deadlineFrom ?_
  rintro nodeDeadline _ rfl
  subst hevent
  refine moves_bind (tells_emit h hnext rfl rfl rfl) ?_
  rintro _ _ ⟨rfl, hlive⟩
  refine moves_bind (tells_control hlive) ?_
  rintro _ _ rfl
  exact moves_pure ⟨rfl, hlive, rfl⟩

/-! ## One node alone -/

/-- What the execution of a frontier leaves a listener: updates to hear of, or a node to suspend. -/
def ExecutionHeard (r : StreamReader) (superstep : Option Nat) (batch : List (NodePath × Nat)) :
    E.State ⊕ InterruptRequest E.Value → Telling → Prop
  | .inl _, t => t = ⟨{ r with phase := .updating superstep batch }, none⟩
  | .inr _, t => superstep = none ∧ t = ⟨{ r with phase := .executing none batch batch }, none⟩

theorem tells_runSingle (h : Live ctx t) {first : Nat} {node : CompiledNode ν ρ Nat}
    (hnode : g.items[first]? = some (.node node)) {boundary : StreamBoundary}
    (hphase : t.reader.phase = .standing none boundary) (hsettled : boundary.settled mode)
    (hopen : boundary ≠ .saved true) (hpath : node.path.graphPath = t.reader.path)
    (hsteps : t.reader.steps = ls.steps) {firstNode : NodePath} {firstStep : Nat}
    (hstep : firstStep = ls.steps + 1) :
    Tells mode maxSteps m₀ t (runSingle g.nav ctx ls first firstNode firstStep) fun outcome t' =>
      ExecutionHeard t.reader none [(node.path, firstStep)] outcome t' ∧ Live ctx t' := by
  rw [← hsteps] at hstep
  subst hstep
  unfold runSingle
  refine moves_bind (tells_nodeAt hnode) ?_
  rintro _ t ⟨rfl, rfl⟩
  have hstarted : StreamReader.Next mode t.reader _ _ :=
    .singleStarted hphase hsettled hopen hpath
  refine moves_bind (tells_startNode h hstarted (by rw [h.run, hsteps])) ?_
  rintro ⟨attempt, nodeDeadline⟩ _ ⟨rfl, hlive, -⟩
  refine moves_bind (tells_executeNode hlive) ?_
  rintro outcome _ rfl
  cases outcome with
  | interrupt request => exact moves_pure ⟨⟨rfl, rfl⟩, hlive⟩
  | update update =>
    refine moves_bind (tells_emit hlive (.nodeCompleted rfl List.mem_cons_self)
      (by rw [hlive.run, hsteps]) rfl rfl) ?_
    rintro _ _ ⟨rfl, hlive⟩
    refine moves_bind (tells_controlRun hlive) ?_
    rintro _ _ rfl
    refine moves_bind (tells_controlRun hlive) ?_
    rintro _ _ rfl
    cases E.apply ls.state update with
    | error source => exact tells_fail hlive
    | ok state =>
      refine moves_pure ⟨?_, hlive⟩
      simp [ExecutionHeard, StreamPhase.completed]

/-! ## Several nodes at once -/

theorem Live.eq (h : Live ctx t) {phase : StreamPhase} (hphase : t.reader.phase = phase) :
    t = ⟨{ t.reader with phase := phase }, none⟩ := by
  subst hphase
  obtain ⟨reader, due⟩ := t
  have hdue : due = none := h.due
  subst hdue
  rfl

theorem pathsOf_eq {frontier : List Nat} {paths : List NodePath} (h : PathsOf g frontier paths) :
    (pathsOf g.nav frontier : M E (List NodePath)) = pure paths := by
  induction h with
  | nil => rfl
  | cons hnode _ ih =>
    obtain ⟨node, hnode, rfl⟩ := hnode
    unfold pathsOf at ih ⊢
    rw [List.mapM_cons, nodeAt_eq hnode, ih]
    rfl

theorem tells_pathsOf {frontier : List Nat} {paths : List NodePath}
    (h : PathsOf g frontier paths) : Tells mode maxSteps m₀ t
      (pathsOf g.nav frontier : M E (List NodePath))
      fun nodeIds t' => t' = t ∧ nodeIds = paths := by
  rw [pathsOf_eq h]
  exact moves_pure ⟨rfl, rfl⟩

theorem tells_startAll {superstep : Nat} {frontier : List Nat} {paths : List NodePath}
    (hpaths : PathsOf g frontier paths) {batch : List (NodePath × Nat)} (h : Live ctx t)
    (hphase : t.reader.phase = .started superstep paths batch)
    (hsteps : t.reader.steps = ls.steps) :
    Tells mode maxSteps m₀ t (startAll g.nav ctx ls batch.length frontier) fun attempts t' =>
      Live ctx t' ∧ (attempts.map fun a => a.key) = paths.zipIdx (ls.steps + batch.length + 1) ∧
      t' = ⟨{ t.reader with
        phase := .executing (some superstep)
          (batch ++ paths.zipIdx (ls.steps + batch.length + 1))
          (batch ++ paths.zipIdx (ls.steps + batch.length + 1)) }, none⟩ := by
  induction hpaths generalizing batch t with
  | nil =>
    refine moves_pure ⟨h, rfl, ?_⟩
    rw [List.zipIdx_nil, List.append_nil]
    exact h.eq hphase
  | @cons index path frontier paths hnode hpaths ih =>
    obtain ⟨node, hnode, rfl⟩ := hnode
    unfold startAll
    refine moves_bind (tells_nodeAt hnode) ?_
    rintro node t ⟨rfl, rfl⟩
    refine moves_bind (tells_startNode h (.nodeStarted hphase) (by rw [h.run, hsteps])) ?_
    rintro ⟨attempt, nodeDeadline⟩ _ ⟨rfl, hlive, hkey⟩
    have hlength : (batch ++ [(node.path, t.reader.steps + batch.length + 1)]).length =
        batch.length + 1 := by simp
    have hrest := ih hlive rfl hsteps
    rw [hlength] at hrest
    refine moves_bind hrest ?_
    rintro rest _ ⟨hlive, hkeys, rfl⟩
    refine moves_pure ⟨hlive, ?_, ?_⟩
    · rw [List.map_cons, List.zipIdx_cons, hkeys]
      exact congrArg (· :: _) hkey
    · rw [← hsteps, List.append_assoc]
      rfl

/-- Removing one execution from those that are pending. -/
theorem erase_perm {keys : List (NodePath × Nat)}
    {pending : List (ParallelAttempt ν E.State E.Value)} (i : Fin pending.length)
    (h : keys.Perm (pending.map fun a => a.key)) :
    (keys.erase (pending.get i).key).Perm ((pending.eraseIdx i).map fun a => a.key) := by
  have hmem : (pending.get i).key ∈ keys := h.mem_iff.mpr (List.mem_map_of_mem (List.get_mem _ _))
  have hpending : (pending.get i :: pending.eraseIdx i).Perm pending :=
    List.getElem_cons_eraseIdx_perm i.isLt
  exact ((List.perm_cons_erase hmem).symm.trans (h.trans (hpending.symm.map _))).cons_inv

theorem tells_awaitAll {checkpoints : RuntimeCheckpoint} {superstep : Nat}
    {batch : List (NodePath × Nat)} : ∀ {count : Nat}
    {pending : List (ParallelAttempt ν E.State E.Value)} {keys : List (NodePath × Nat)}
    {slots : List (Option E.Update)} {t : Telling}, Live ctx t → pending.length = count →
      keys.Perm (pending.map fun a => a.key) →
      t.reader.phase = .completed (some superstep) batch keys →
      Tells mode maxSteps m₀ t (awaitAll ctx checkpoints count pending slots) fun _ t' =>
        Live ctx t' ∧ t' = ⟨{ t.reader with phase := .updating (some superstep) batch }, none⟩
  | 0, pending, keys, slots, t, h, hcount, hkeys, hphase => by
    obtain rfl := List.length_eq_zero_iff.mp hcount
    obtain rfl := List.perm_nil.mp hkeys
    exact moves_pure ⟨h, h.eq hphase⟩
  | count + 1, pending, keys, slots, t, h, hcount, hkeys, hphase => by
    have hne : pending ≠ [] := by
      rintro rfl
      cases hcount
    unfold awaitAll
    rw [dif_pos hne]
    refine moves_bind (tells_ask _) ?_
    rintro ⟨i, answer⟩ t rfl
    refine moves_bind (tells_finishNode h answer) ?_
    rintro outcome t rfl
    have hmem : (pending.get i).key ∈ keys :=
      hkeys.mem_iff.mpr (List.mem_map_of_mem (List.get_mem _ _))
    have hexecuting : t.reader.phase = .executing (some superstep) batch keys := by
      cases keys with
      | nil => cases hmem
      | cons key keys => exact hphase
    cases outcome with
    | interrupt request =>
      refine moves_bind (tells_emit h (.batchInterrupted hexecuting hmem) (by rw [h.run]) rfl rfl)
        ?_
      rintro _ _ ⟨-, hlive⟩
      cases checkpoints with
      | disabled => exact tells_fail hlive
      | readOnlyReplay _ _ => exact tells_fail hlive
      | enabled c => exact tells_fail hlive
    | update update =>
      refine moves_bind (tells_emit h (.nodeCompleted hexecuting hmem) (by rw [h.run]) rfl rfl) ?_
      rintro _ _ ⟨rfl, hlive⟩
      refine moves_bind (tells_controlRun hlive) ?_
      rintro _ _ rfl
      have hcount' : (pending.eraseIdx i).length = count := by
        rw [List.length_eraseIdx_of_lt i.isLt, hcount]
        rfl
      exact tells_awaitAll hlive hcount' (erase_perm i hkeys) rfl

theorem tells_zipUpdates : ∀ {nodeIds : List NodePath} {slots : List (Option E.Update)}
    {t : Telling}, Tells mode maxSteps m₀ t (zipUpdates nodeIds slots) fun _ t' => t' = t
  | [], slots, t => by
    unfold zipUpdates
    exact moves_pure rfl
  | nodeId :: nodeIds, [], t => by
    unfold zipUpdates
    exact moves_pure rfl
  | nodeId :: nodeIds, slot :: slots, t => by
    unfold zipUpdates
    cases slot with
    | none => exact tells_panic
    | some update =>
      refine moves_bind tells_zipUpdates ?_
      rintro batch t rfl
      exact moves_pure rfl

theorem tells_runParallel (h : Live ctx t) {frontier : List Nat} {paths : List NodePath}
    (hpaths : PathsOf g frontier paths) (hne : paths ≠ []) {superstep : Nat}
    (hphase : t.reader.phase = .starting superstep paths []) (hsteps : t.reader.steps = ls.steps)
    {firstNode : NodePath} {firstStep : Nat} (hstep : firstStep = ls.steps + 1) :
    Tells mode maxSteps m₀ t (runParallel g.nav ctx ls frontier firstNode firstStep) fun _ t' =>
      Live ctx t' ∧ t' = ⟨{ t.reader with
        phase := .updating (some superstep) (paths.zipIdx firstStep) }, none⟩ := by
  subst hstep
  have hstarted : t.reader.phase = .started superstep paths [] := by
    cases paths with
    | nil => exact absurd rfl hne
    | cons path paths => exact hphase
  unfold runParallel
  refine moves_bind (tells_startAll hpaths h hstarted hsteps) ?_
  rintro attempts _ ⟨hlive, hkeys, rfl⟩
  have hlength : attempts.length = frontier.length := by
    have hlen := congrArg List.length hkeys
    rw [List.length_map, List.length_zipIdx] at hlen
    rw [hlen, hpaths.length_eq]
  have hexecuting : ∀ batch : List (NodePath × Nat), batch = paths.zipIdx (ls.steps + 1) →
      StreamPhase.executing (some superstep) batch batch =
        .completed (some superstep) batch batch := by
    rintro batch rfl
    cases paths with
    | nil => exact absurd rfl hne
    | cons path paths => rfl
  refine moves_bind (tells_awaitAll hlive hlength (.of_eq hkeys.symm) (hexecuting _ rfl)) ?_
  rintro slots _ ⟨hlive, rfl⟩
  refine moves_bind (tells_controlRun hlive) ?_
  rintro _ _ rfl
  refine moves_bind (tells_pathsOf hpaths) ?_
  rintro nodeIds _ ⟨rfl, -⟩
  refine moves_bind tells_zipUpdates ?_
  rintro batch _ rfl
  cases E.applyBatch ls.state batch with
  | error source => exact tells_fail hlive
  | ok state => exact moves_pure ⟨hlive, rfl⟩

/-! ## Reporting updates -/

theorem tells_reportUpdates {superstep : Option Nat} : ∀ {first : Nat} {rest : List Nat}
    {paths : List NodePath} {step : Nat} {t : Telling}, Live ctx t →
      PathsOf g (first :: rest) paths → t.reader.phase = .updating superstep (paths.zipIdx step) →
      Tells mode maxSteps m₀ t (reportUpdates g.nav ctx step (first :: rest)) fun _ t' =>
        Live ctx t' ∧
        t' = ⟨{ t.reader with
          steps := step + rest.length
          superstep := t.reader.superstep + 1
          phase := .standing superstep .pending }, none⟩
  | first, [], _, step, t, h, .cons ⟨node, hnode, hpath⟩ .nil, hphase => by
    subst hpath
    unfold reportUpdates
    refine moves_bind (tells_nodeAt hnode) ?_
    rintro node t ⟨rfl, rfl⟩
    refine moves_bind (tells_emit h (.lastUpdated hphase) (by rw [h.run]) rfl rfl) ?_
    rintro _ _ ⟨rfl, hlive⟩
    refine moves_bind (tells_controlRun hlive) ?_
    rintro _ _ rfl
    exact moves_pure ⟨hlive, rfl⟩
  | first, second :: rest, _, step, t, h, .cons ⟨node, hnode, hpath⟩ (.cons hsecond hpaths),
      hphase => by
    subst hpath
    unfold reportUpdates
    refine moves_bind (tells_nodeAt hnode) ?_
    rintro node t ⟨rfl, rfl⟩
    refine moves_bind (tells_emit h (.stateUpdated hphase) (by rw [h.run]) rfl rfl) ?_
    rintro _ _ ⟨rfl, hlive⟩
    refine moves_bind (tells_controlRun hlive) ?_
    rintro _ _ rfl
    refine moves_mono (tells_reportUpdates hlive (.cons hsecond hpaths) rfl) ?_ fun _ _ he => he
    rintro _ _ ⟨hlive, rfl⟩
    have hcount : step + 1 + rest.length = step + (second :: rest).length := by
      rw [List.length_cons, Nat.add_assoc, Nat.add_comm 1]
    rw [← hcount]
    exact ⟨hlive, rfl⟩

end Parts

end GroupAgent.Core
