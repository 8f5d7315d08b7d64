import GroupAgent.Core.Calls
import GroupAgent.Core.Steady

/-!
# What every call keeps

Continues `Steady` with the parts of a call that use the checkpointer (`RuntimeCheckpoint`,
`runtime.rs:1857-2126`; the loading in 1069-1715), up to whole calls.

* `Steady.Saves R K`: the relation allows what a run that checkpoints as `K` saves.
* `Steady.Creates`: it allows the creation of a branch.

Results:
* **`Steady.superstep`** and **`Steady.runLoop`**: a super-step and the loop keep the relation.
* **`Steady.proceed`**: so does everything a call does after its opening.

A call that stops keeps the relation as well: both parts of every lemma, what is returned and what
is stopped for, are about the machine left behind.
-/

namespace GroupAgent.Core

open GroupAgent.Lib

variable {ν ρ : Type} {E : Env ν ρ}

/-- The relation allows what a run that checkpoints as `K` saves, and `K` goes on to the next
save. -/
structure Steady.Saves (R : Machine E → Machine E → Prop) (K : RuntimeCheckpoint → Prop) :
    Prop where
  await : ∀ c request m, K (.enabled c) → request.threadId = c.threadId →
    R m { m with world := ((E.save c.branchId request).await m.world).2 }
  select : ∀ c request deadline m, K (.enabled c) → request.threadId = c.threadId →
    R m { m with world := ((E.save c.branchId request).select deadline m.world).2 }
  record : ∀ c request answer m, K (.enabled c) → request.threadId = c.threadId →
    R m { m with writes := m.writes ++ [.save c.branchId request answer] }
  after : ∀ c id, K (.enabled c) → K (.enabled (c.after id))

/-- What a checkpoint resolves to: its frontier, and the node that the value is for. -/
structure Answered (g : CompiledGraph ν ρ) (checkpoint : Checkpoint E.Snapshot E.Value)
    (value : Option E.Value) (r : List Nat × Option Nat) : Prop where
  resolved : g.validateAndResolveCheckpointFrontier checkpoint = .ok r.1
  node : (checkpoint.interrupt = none ∧ value = none ∧ r.2 = none) ∨ ∃ interrupt v,
    checkpoint.interrupt = some interrupt ∧ value = some v ∧ r.2 = r.1.head?

/-- Everything a call does after its opening. -/
def Call.proceed (g : CompiledGraph ν ρ) (call : Call E) (p : RunContext × LoopState E Nat) :
    M E (ExecutionOutcome E) := do
  let (ctx, ls) ← enterLoop p.1 call.savesEmpty p.2
  let ended ← runLoop g.nav ctx (ctx.maxSteps + 1) ls
  let outcome ← leaveLoop ctx ended
  call.conclude outcome

theorem Call.run_proceed (g : CompiledGraph ν ρ) (call : Call E) :
    call.run g = call.prepare g >>= call.proceed g := by
  rw [Call.run_eq]
  unfold Call.enter
  rw [bind_assoc]
  rfl

namespace Steady

variable {R : Machine E → Machine E → Prop} [Std.Refl R] [IsTrans (Machine E) R] {S : Stop → Prop}
  {α : Type}

/-! ## Calls of the checkpointer -/

section Storage

variable (hR : Steady R) (hS : ∀ e, Plain e → S e) {ctx : RunContext} {K : RuntimeCheckpoint → Prop}

include hR

/-- A call of the checkpointer is cut short from outside, its start fails, or it is answered. -/
theorem awaitCall {α β γ : Type} (step : Nat) {start : M E (Except GraphRunError γ)}
    {future : γ → Future E.World β} {log : γ → Option β → M E Unit}
    {finish : γ → β → Except GraphRunError α} {C : γ → Prop}
    (hstart : Within R start (fun r => (∀ error, r = .error error → Plain (.error error)) ∧
      ∀ c, r = .ok c → C c) S)
    (hawait : ∀ c, C c → ∀ m, R m { m with world := ((future c).await m.world).2 })
    (hselect : ∀ c, C c → ∀ deadline m,
      R m { m with world := ((future c).select deadline m.world).2 })
    (hlog : ∀ c answer, C c → Within R (log c answer) (fun _ => True) S)
    (hfinish : ∀ c answer error, finish c answer = .error error → Plain (.error error)) :
    Within R (awaitRunBoundary ctx step (Task.call start future log finish))
      (fun r => (∀ error, r = .error error → Plain (.error error)) ∧
        ∀ a, r = .ok a → ∃ c answer, C c ∧ finish c answer = .ok a) S := by
  unfold awaitRunBoundary
  split
  · refine within_bind hstart fun r hr => ?_
    cases r with
    | error error =>
      refine within_pure ⟨?_, nofun⟩
      rintro _ ⟨⟩
      exact hr.1 error rfl
    | ok c =>
      have hc := hr.2 c rfl
      refine within_bind (P := fun _ => True) (fun m => ⟨trivial, hawait c hc m⟩) fun answer _ => ?_
      refine within_seq (hlog c _ hc) (within_pure ⟨hfinish c answer, fun a ha => ?_⟩)
      exact ⟨c, answer, hc, ha⟩
  · refine within_bind (P := fun r => ∀ result, r = .ready result →
      (∀ error, result = .error error → Plain (.error error)) ∧
        ∀ a, result = .ok a → ∃ c answer, C c ∧ finish c answer = .ok a) ?_ ?_
    · refine within_bind (hR.ask (.preempted _)) fun r _ => ?_
      match r with
      | some .cancelled => exact within_pure nofun
      | some (.elapsed passed h) => exact within_pure nofun
      | none =>
        refine within_bind hstart fun r hr => ?_
        cases r with
        | error error =>
          refine within_pure ?_
          rintro _ ⟨⟩
          refine ⟨?_, nofun⟩
          rintro _ ⟨⟩
          exact hr.1 error rfl
        | ok c =>
          have hc := hr.2 c rfl
          refine within_bind (P := fun _ => True) (fun m => ⟨trivial, hselect c hc _ m⟩)
            fun answer _ => ?_
          cases answer with
          | cancelled => exact within_seq (hlog c _ hc) (within_pure nofun)
          | elapsed passed h => exact within_seq (hlog c _ hc) (within_pure nofun)
          | ready answer =>
            refine within_seq (hlog c _ hc) (within_pure ?_)
            rintro _ ⟨⟩
            exact ⟨hfinish c answer, fun a ha => ⟨c, answer, hc, ha⟩⟩
    · intro r hr
      cases r with
      | cancelled =>
        refine within_pure ⟨?_, nofun⟩
        rintro _ ⟨⟩
        trivial
      | elapsed passed h =>
        refine within_bind (deadlineError (h ▸ blames_run ctx.control none)) fun error he => ?_
        refine within_pure ⟨?_, nofun⟩
        rintro _ ⟨⟩
        exact he
      | ready result => exact within_pure (hr result rfl)

omit hR [Std.Refl R] [IsTrans (Machine E) R] in
theorem plain_writeError (c : EnabledCheckpoint) (runId : RunId) (superstep step : Nat)
    (error : CheckpointWriteError) : Plain (.error (c.writeError runId superstep step error)) := by
  unfold EnabledCheckpoint.writeError
  cases error with
  | conflict expectedParent actualParent => cases hb : c.branchId <;> simp [Plain]
  | _ => simp [Plain]

include hS

theorem saveBoundary (hsaves : Saves R K) {c : RuntimeCheckpoint} (hc : K c) {state : E.State}
    {boundary : CheckpointBoundary E.Value} :
    Within R (Core.saveBoundary ctx c state boundary) (fun r => K r.2) S := by
  unfold Core.saveBoundary
  cases c with
  | disabled => exact within_throw (hS _ trivial)
  | readOnlyReplay _ _ => exact within_throw (hS _ trivial)
  | enabled c =>
    refine within_bind (hR.awaitCall boundary.step
      (C := fun request => request.threadId = c.threadId) ?_ ?_ ?_ ?_ ?_) fun r hr => ?_
    · unfold EnabledCheckpoint.request
      split
      · refine within_pure ⟨?_, nofun⟩
        rintro _ ⟨⟩
        trivial
      · refine within_bind (hR.calm.ask .nextCheckpointId) fun id _ => within_pure ⟨nofun, ?_⟩
        rintro _ ⟨⟩
        rfl
    · exact fun request hrequest m => hsaves.await c request m hc hrequest
    · exact fun request hrequest deadline m => hsaves.select c request deadline m hc hrequest
    · exact fun request answer hrequest => within_modify fun m =>
        hsaves.record c request answer m hc hrequest
    · rintro request (error | checkpoint) _ ⟨⟩
      exact plain_writeError c _ _ _ error
    · refine within_bind (P := fun r => K (.enabled r.2)) (hR.calm.orFail ctx ?_ ?_) fun saved hsaved => ?_
      · intro a ha
        obtain ⟨request, answer, -, hfinish⟩ := hr.2 a ha
        cases answer with
        | error error => cases hfinish
        | ok checkpoint =>
          cases hfinish
          exact hsaves.after c checkpoint.id hc
      · exact fun error he => hS _ (hr.1 error he)
      · exact within_seq (hR.calm.emit _ _) (within_pure hsaved)

end Storage

/-! ## A super-step -/

/-- What a super-step carries over to the next. -/
structure Carried (K : RuntimeCheckpoint → Prop) (ls : LoopState E Nat) (executed : Nat)
    (ls' : LoopState E Nat) : Prop where
  checkpoints : K ls'.checkpoints
  resumeNode : ls'.resumeNode = none
  steps : ls'.steps = ls.steps + executed
  superstep : ls'.superstep = ls.superstep + 1

section Superstep

variable (hR : Steady R) (hS : ∀ e, Plain e → S e) {g : CompiledGraph ν ρ} {ctx : RunContext}
  {ls : LoopState E Nat} {K : RuntimeCheckpoint → Prop} {A : NodeAttempt ν E.State E.Value → Prop}

include hR hS

theorem interruptRun (hsaves : Saves R K) (hK : K ls.checkpoints) {nodePath : NodePath}
    {request : InterruptRequest E.Value} {step superstep : Nat} :
    Within R (Core.interruptRun ctx ls nodePath request step superstep)
      (fun report => report.steps = ls.steps ∧ report.superstep = superstep) S := by
  unfold Core.interruptRun
  refine within_seq (hR.calm.emit _ _) ?_
  cases herror : ls.checkpoints.interruptError ctx.runId (request.intoCheckpoint nodePath).id
      nodePath step false with
  | some error =>
    refine hR.calm.fail ctx (hS _ ?_)
    cases hc : ls.checkpoints <;> rw [hc] at herror <;> cases herror <;> trivial
  | none =>
    refine within_bind (hR.saveBoundary hS hsaves hK) fun saved _ => ?_
    refine within_seq (hR.controlRun hS _ _ _) ?_
    refine within_seq (hR.calm.emit _ _) ?_
    exact within_bind within_get fun _ _ => within_pure ⟨rfl, rfl⟩

theorem saveCommitted (hsaves : Saves R K) (hK : K ls.checkpoints) {state : E.State}
    {superstep steps : Nat} {next : List Nat} :
    Within R (Core.saveCommitted g.nav ctx ls.checkpoints state superstep steps next) K S := by
  unfold Core.saveCommitted
  split
  · refine within_bind (pathsOf hS g next) fun paths _ => ?_
    refine within_bind (hR.saveBoundary hS hsaves hK) fun saved hsaved => ?_
    exact within_seq (hR.controlRun hS _ _ _) (within_pure hsaved)
  · exact within_pure hK

theorem commit (hsaves : Saves R K) (hK : K ls.checkpoints) {firstNode : NodePath}
    {state : E.State} {steps superstep : Nat} {next : List Nat}
    {boundaries : List SubgraphBoundary} :
    Within R (Core.commit g.nav ctx ls firstNode state steps superstep next boundaries)
      (fun ls' => K ls'.checkpoints ∧ ls'.resumeNode = none ∧ ls'.steps = steps ∧
        ls'.superstep = superstep) S := by
  unfold Core.commit
  refine within_bind (hR.saveCommitted hS hsaves hK) fun checkpoints hcheckpoints => ?_
  unfold moveOn
  refine within_seq (within_forM fun _ _ => hR.calm.emit _ _) ?_
  refine within_seq (hR.calm.emitIf (within_pure trivial)) ?_
  refine within_seq (hR.controlRun hS _ _ _) ?_
  refine within_bind (pathsOf hS g _) fun nodeIds _ => ?_
  exact within_pure ⟨hcheckpoints, rfl, rfl, rfl⟩

/-- **A super-step** keeps the relation if executing its frontier does. -/
theorem superstep (hsaves : Saves R K) (hK : K ls.checkpoints)
    (hcounter : S (.panic .counterOverflow))
    (hbudget : ∀ node step, S (.error (.maxStepsExceeded ctx.maxSteps node step))) {first : Nat}
    {rest : List Nat} (hrun : ∀ firstNode firstStep,
      Within R (Core.runFrontier g.nav ctx ls first rest firstNode firstStep) (fun _ => True) S) :
    Within R (Core.superstep g.nav ctx ls first rest)
      (fun r => (∀ ls', r = .inl ls' → Carried K ls (first :: rest).length ls') ∧
        ∀ report, r = .inr report → report.steps = ls.steps ∧
          report.superstep = ls.superstep) S := by
  unfold Core.superstep
  refine within_bind (nodeAt hS g first) fun firstNode _ => ?_
  rw [advance_eq, bind_assoc]
  refine within_bind (hR.accept hS hcounter hbudget) fun admitted hadmitted => ?_
  obtain ⟨node, firstStep, superstep⟩ := admitted
  simp only at hadmitted
  rw [bind_assoc]
  refine within_bind (hrun _ _) fun outcome _ => ?_
  refine within_bind (hR.follow hS outcome) fun r hr => ?_
  cases r with
  | suspended request =>
    refine within_map (hR.interruptRun hS hsaves hK) fun report hreport => ⟨nofun, ?_⟩
    rintro _ ⟨⟩
    exact hreport
  | committed state steps number next boundaries =>
    obtain ⟨hsteps, hnumber⟩ := hr state steps number next boundaries rfl
    refine within_map (hR.commit hS hsaves hK) fun ls' hls' => ⟨?_, nofun⟩
    rintro _ ⟨⟩
    exact ⟨hls'.1, hls'.2.1, hls'.2.2.1.trans hsteps,
      hls'.2.2.2.trans (hnumber.trans hadmitted.2.2.1)⟩

/-- **The loop** keeps the relation. -/
theorem runLoop (hsaves : Saves R K) (hruns : Runs R A) (hcounter : S (.panic .counterOverflow))
    (hclock : S (.panic .instantOverflow))
    (hbudget : ∀ node step, S (.error (.maxStepsExceeded ctx.maxSteps node step)))
    (hA : ∀ ls : LoopState E Nat, ls.resumeNode = none → ∀ index a, Attempts g ctx ls index a → A a) :
    ∀ {turns : Nat} {ls : LoopState E Nat}, K ls.checkpoints →
      (∀ index a, Attempts g ctx ls index a → A a) →
      Within R (Core.runLoop g.nav ctx turns ls) (fun _ => True) S
  | 0, _, _, _ => within_throw (hS _ trivial)
  | turns + 1, ls, hK, hls => by
    unfold Core.runLoop
    cases ls.frontier with
    | nil => exact within_pure trivial
    | cons first rest =>
      refine within_bind (hR.superstep hS hsaves hK hcounter hbudget fun _ _ =>
        hR.runFrontier hS hruns hclock fun index _ => hls index) fun r hr => ?_
      cases r with
      | inr report => exact within_pure trivial
      | inl ls' =>
        have hcarried := hr.1 ls' rfl
        exact runLoop hsaves hruns hcounter hclock hbudget hA hcarried.checkpoints
          (hA ls' hcarried.resumeNode)

theorem leaveLoop (ended : LoopState E Nat ⊕ InterruptReport E) :
    Within R (Core.leaveLoop ctx ended) (fun _ => True) S := by
  cases ended with
  | inr report => exact within_pure trivial
  | inl ls =>
    refine within_seq (hR.controlRun hS _ _ _) ?_
    refine within_seq (hR.calm.emit _ _) ?_
    exact within_bind within_get fun _ _ => within_pure trivial

end Superstep

end Steady

/-! ## Opening a call -/

/-- The clock cannot hold the deadline of a run that begins now. -/
def BeginsLate (m : Machine E) (config : RunConfig) : Prop :=
  E.Beyond (E.now m.world).1 config.control.runTimeout

namespace Calm

section Opening

variable {R : Machine E → Machine E → Prop} [Std.Refl R] [IsTrans (Machine E) R] {S : Stop → Prop}
  (hR : Calm R) (hS : ∀ e, Plain e → S e) {g : CompiledGraph ν ρ} {ctx : RunContext}

include hR hS

theorem checkIdentity {threadId : ThreadId} {requested : Option CheckpointId}
    {checkpoint : Checkpoint E.Snapshot E.Value} :
    Within R (Core.checkIdentity ctx threadId requested checkpoint) (fun _ => True) S := by
  unfold Core.checkIdentity
  refine within_seq (within_forM fun _ _ => ?_) ?_
  · split
    · exact hR.fail ctx (hS _ trivial)
    · exact within_pure trivial
  · split
    · exact hR.fail ctx (hS _ trivial)
    · exact within_pure trivial

theorem restored {threadId : ThreadId} {checkpoint : Checkpoint E.Snapshot E.Value}
    {result : Except SourceError E.State} :
    Within R (Core.restored ctx threadId checkpoint result) (fun _ => True) S := by
  refine hR.orFail ctx (fun _ _ => trivial) fun error he => hS _ ?_
  cases result with
  | error source =>
    cases he
    trivial
  | ok state => cases he

theorem reportNamespaces {frontier : List Nat} :
    Within R (Core.reportNamespaces g ctx frontier : M E Unit) (fun _ => True) S := by
  unfold Core.reportNamespaces
  cases frontier with
  | nil => exact within_pure trivial
  | cons first rest =>
    refine within_bind (Steady.nodeAt hS g first) fun node _ => ?_
    exact within_forM fun _ _ => hR.emit _ _

/-- A value is asked for when the checkpoint is interrupted, and refused when it is not. -/
theorem resolveCheckpoint {threadId : ThreadId} {checkpoint : Checkpoint E.Snapshot E.Value}
    {value : Option E.Value}
    (hpanic : ∀ p, g.validateAndResolveCheckpointFrontier checkpoint = .error (.panic p) →
      S (.panic p))
    (hmissing : ∀ frontier interrupt, g.validateAndResolveCheckpointFrontier checkpoint =
      .ok frontier → checkpoint.interrupt = some interrupt → value = none → S (.error
        (.missingResumeValue ctx.runId threadId checkpoint.id interrupt.id interrupt.nodePath
          checkpoint.step)))
    (hunexpected : ∀ frontier, g.validateAndResolveCheckpointFrontier checkpoint = .ok frontier →
      checkpoint.interrupt = none → value ≠ none → S (.error
        (.unexpectedResumeValue ctx.runId threadId checkpoint.id checkpoint.step))) :
    Within R (Core.resolveCheckpoint g ctx threadId checkpoint value)
      (Answered g checkpoint value) S := by
  unfold Core.resolveCheckpoint
  refine within_bind (P := fun frontier =>
    g.validateAndResolveCheckpointFrontier checkpoint = .ok frontier) ?_ fun frontier hfrontier => ?_
  · unfold compatibleFrontier
    split
    · rename_i frontier h
      exact within_pure h
    · exact hR.fail ctx (hS _ trivial)
    · rename_i p hp
      exact within_throw (hpanic p hp)
  · cases hi : checkpoint.interrupt with
    | none =>
      cases hv : value with
      | none => exact within_pure ⟨hfrontier, .inl ⟨hi, rfl, rfl⟩⟩
      | some v => exact hR.fail ctx (hunexpected frontier hfrontier hi (by simp [hv]))
    | some interrupt =>
      cases hv : value with
      | none => exact hR.fail ctx (hmissing frontier interrupt hfrontier hi hv)
      | some v => exact within_pure ⟨hfrontier, .inr ⟨interrupt, v, hi, rfl, rfl⟩⟩

theorem historicalStart {h : Historical E} {event : GraphEvent} {value : Option E.Value}
    {checkpoints : RuntimeCheckpoint} : Within R (h.start g event value checkpoints)
      (fun p => p = (h.ctx, restoredLoop h.checkpoint h.state h.frontier h.resumeNode value
        checkpoints)) S := by
  unfold Historical.start
  refine within_seq (hR.emit _ _) ?_
  exact within_seq (hR.reportNamespaces hS) (within_pure rfl)

end Opening

end Calm

namespace Steady

variable {R : Machine E → Machine E → Prop} [Std.Refl R] [IsTrans (Machine E) R] {S : Stop → Prop}
  {α : Type}

section Opening

variable (hR : Steady R) (hS : ∀ e, Plain e → S e) {g : CompiledGraph ν ρ} {ctx : RunContext}

/-- The futures that read the checkpointer. -/
inductive Reading (E : Env ν ρ) :
    Future E.World (Except SourceError (Option (Checkpoint E.Snapshot E.Value))) → Prop where
  | latest (threadId : ThreadId) : Reading E (E.latest threadId)
  | get (threadId : ThreadId) (id : CheckpointId) : Reading E (E.get threadId id)
  | branchHead (threadId : ThreadId) (branchId : BranchId) :
      Reading E (E.branchHead threadId branchId)

omit [Std.Refl R] [IsTrans (Machine E) R] in
theorem Reading.idle
    {read : Future E.World (Except SourceError (Option (Checkpoint E.Snapshot E.Value)))}
    (h : Reading E read) :
    (∀ w, E.Idle w (read.await w).2) ∧ ∀ deadline w, E.Idle w (read.select deadline w).2 := by
  cases h with
  | latest threadId => exact ⟨.latest threadId, .latestRaced threadId⟩
  | get threadId id => exact ⟨.get threadId id, .getRaced threadId id⟩
  | branchHead threadId branchId =>
    exact ⟨.branchHead threadId branchId, .branchHeadRaced threadId branchId⟩

omit [Std.Refl R] [IsTrans (Machine E) R] in
theorem reading_head (threadId : ThreadId) (branchId : Option BranchId) :
    Reading E (readHead threadId branchId) := by
  cases branchId with
  | none => exact .latest threadId
  | some branchId => exact .branchHead threadId branchId

include hR hS

theorem load {step : Nat}
    {read : Future E.World (Except SourceError (Option (Checkpoint E.Snapshot E.Value)))}
    {finish : Except SourceError (Option (Checkpoint E.Snapshot E.Value)) →
      Except GraphRunError α} (hread : Reading E read)
    (hfinish : ∀ answer error, finish answer = .error error → Plain (.error error)) :
    Within R (Core.load ctx step read finish : M E α) (fun _ => True) S := by
  unfold Core.load
  obtain ⟨hawait, hselect⟩ := hread.idle
  refine within_bind (hR.awaitCall step (C := fun _ => True) ?_ ?_ ?_ ?_ ?_) fun r hr => ?_
  · exact within_pure ⟨nofun, fun _ _ => trivial⟩
  · exact fun _ _ m => hR.idle m _ (hawait m.world)
  · exact fun _ _ deadline m => hR.idle m _ (hselect deadline m.world)
  · exact fun _ _ _ => within_pure trivial
  · exact fun _ => hfinish
  · exact hR.calm.orFail ctx (fun _ _ => trivial) fun error he => hS _ (hr.1 error he)

theorem loadExact {threadId : ThreadId} {checkpointId : CheckpointId} :
    Within R (Core.loadExact ctx threadId checkpointId : M E (Checkpoint E.Snapshot E.Value))
      (fun _ => True) S := by
  refine hR.load hS (.get _ _) ?_
  rintro (source | _ | checkpoint) _ ⟨⟩ <;> trivial

theorem loadTarget {config : ResumeConfig E.Value} :
    Within R (Core.loadTarget ctx config) (fun _ => True) S := by
  unfold Core.loadTarget
  cases config.target with
  | checkpoint checkpointId => exact hR.loadExact hS
  | latest =>
    refine hR.load hS (reading_head _ _) ?_
    rintro (source | _ | checkpoint) error herror
    · cases herror
      trivial
    · cases hb : config.branchId <;> simp only [hb] at herror <;> cases herror <;> trivial
    · cases herror

theorem checkLatest {config : ResumeConfig E.Value} {checkpoint : Checkpoint E.Snapshot E.Value} :
    Within R (Core.checkLatest ctx config checkpoint) (fun _ => True) S := by
  unfold Core.checkLatest
  cases config.target with
  | latest => exact within_pure trivial
  | checkpoint checkpointId =>
    refine within_bind (hR.load hS (reading_head _ _) ?_) fun latest _ => ?_
    · rintro (source | latest) _ ⟨⟩
      trivial
    · split
      · exact hR.calm.fail ctx (hS _ trivial)
      · simp only
        split
        · exact hR.calm.fail ctx (hS _ trivial)
        · exact within_pure trivial

theorem restoreState {threadId : ThreadId} {checkpoint : Checkpoint E.Snapshot E.Value} :
    Within R (Core.restoreState ctx threadId checkpoint) (fun _ => True) S := by
  unfold Core.restoreState
  refine within_seq (hR.controlRun hS _ _ _) ?_
  refine within_bind (hR.calm.restored hS) fun state _ => ?_
  exact within_seq (hR.controlRun hS _ _ _) (within_pure trivial)

omit hS in
/-- Beginning a run stops only for its deadline. -/
theorem beginRun {config : RunConfig} {m : Machine E} :
    wp (Core.beginRun config) (fun ctx m' =>
        (Begun config ctx ∧ ctx.maxSteps = config.maxSteps ∧ ¬BeginsLate m config) ∧ R m m')
      (fun e m' => (e = .panic .instantOverflow ∧ BeginsLate m config) ∧ R m m') m := by
  unfold Core.beginRun
  rw [wp_bind]
  have hnow : R m { m with world := (E.now m.world).2 } := hR.idle m _ (.now m.world)
  have hclock : Within R (ActiveControl.new config.control (E.now m.world).1 : M E ActiveControl)
      (fun control => control.nodeTimeout = config.control.nodeTimeout ∧ ¬BeginsLate m config)
      fun e => e = .panic .instantOverflow ∧ BeginsLate m config :=
    within_bind (deadlineFrom fun h => ⟨rfl, h⟩) fun _ h => within_pure ⟨rfl, h.2⟩
  have hrest : Within R (do
      let runId ← Core.ask E.nextRunId
      let control ← ActiveControl.new config.control (E.now m.world).1
      emit config.events (.runStarted runId config.maxSteps)
      pure
        { runId
          maxSteps := config.maxSteps
          absoluteStepLimit := 0
          events := config.events
          control
          hops := config.hops })
      (fun ctx => Begun config ctx ∧ ctx.maxSteps = config.maxSteps ∧ ¬BeginsLate m config)
      fun e => e = .panic .instantOverflow ∧ BeginsLate m config := by
    refine within_bind (hR.calm.ask .nextRunId) fun runId _ => ?_
    refine within_bind hclock fun control hcontrol => ?_
    exact within_seq (hR.calm.emit _ _) (within_pure ⟨⟨hcontrol.1, rfl⟩, rfl, hcontrol.2⟩)
  exact hrest.after hnow

section Begin

variable {config : RunConfig} {m : Machine E} (hclock : BeginsLate m config → S (.panic .instantOverflow))

include hclock

omit hS in
theorem after_beginRun {f : RunContext → M E α} {P : α → Prop}
    (h : ∀ ctx, Begun config ctx → ctx.maxSteps = config.maxSteps → Within R (f ctx) P S) :
    wp (Core.beginRun config >>= f) (fun a m' => P a ∧ R m m') (fun e m' => S e ∧ R m m') m := by
  rw [wp_bind]
  refine wp_mono hR.beginRun (fun ctx m₁ hctx => ?_) ?_
  · exact (h ctx hctx.1.1 hctx.1.2.1).after hctx.2
  · rintro _ m₁ ⟨⟨rfl, hlate⟩, hm₁⟩
    exact ⟨hclock hlate, hm₁⟩

theorem openInvocation {initialState : E.State} {checkpoints : RuntimeCheckpoint} :
    wp (Core.openInvocation g.nav initialState config checkpoints)
      (fun p m' => ((Begun config p.1 ∧ p.1.maxSteps = config.maxSteps) ∧
        p.2.checkpoints = checkpoints ∧ p.2.resumeNode = none ∧ p.2.steps = 0 ∧
        p.2.superstep = 0) ∧ R m m')
      (fun e m' => S e ∧ R m m') m := by
  unfold Core.openInvocation
  refine hR.after_beginRun hclock fun ctx hctx hmax => ?_
  refine within_bind (hR.calm.normalizeFrontier hS) fun start _ => ?_
  refine within_seq (within_forM fun _ _ => hR.calm.emit _ _) ?_
  refine within_bind (P := fun _ => True) ?_ fun initial _ => ?_
  · unfold initialPath
    split
    · exact within_pure trivial
    · exact within_map (nodeAt hS g _) fun _ _ => trivial
  · exact within_seq (hR.controlRun hS _ _ _) (within_pure ⟨⟨hctx, hmax⟩, rfl, rfl, rfl, rfl⟩)

theorem fetchHistorical {threadId : ThreadId} {checkpointId : CheckpointId} :
    wp (Core.fetchHistorical config threadId checkpointId : M E _)
      (fun p m' => (Begun config p.1 ∧ p.1.maxSteps = config.maxSteps) ∧ R m m')
      (fun e m' => S e ∧ R m m') m := by
  unfold Core.fetchHistorical
  refine hR.after_beginRun hclock fun ctx hctx hmax => ?_
  refine within_seq (hR.controlRun hS _ _ _) ?_
  refine within_bind (hR.loadExact hS) fun checkpoint _ => ?_
  exact within_seq (hR.calm.checkIdentity hS) (within_pure ⟨hctx, hmax⟩)

end Begin

theorem fetchResume {config : ResumeConfig E.Value} {m : Machine E}
    (hclock : BeginsLate m config.run → S (.panic .instantOverflow)) :
    wp (Core.fetchResume config)
      (fun p m' => (Begun config.run p.1 ∧ p.1.maxSteps = config.run.maxSteps) ∧ R m m')
      (fun e m' => S e ∧ R m m') m := by
  unfold Core.fetchResume
  refine hR.after_beginRun hclock fun ctx hctx hmax => ?_
  refine within_seq (hR.controlRun hS _ _ _) ?_
  refine within_bind (hR.loadTarget hS) fun checkpoint _ => ?_
  refine within_seq (hR.calm.checkIdentity hS) ?_
  exact within_seq (hR.checkLatest hS) (within_pure ⟨hctx, hmax⟩)

end Opening

/-! ## Whole calls -/

section Call

variable (hR : Steady R) (hS : ∀ e, Plain e → S e) {g : CompiledGraph ν ρ}
  {K : RuntimeCheckpoint → Prop} {A : NodeAttempt ν E.State E.Value → Prop}

include hR hS

theorem enterLoop (hsaves : Saves R K) {ctx : RunContext} {flag : Bool} {ls : LoopState E Nat}
    (hK : K ls.checkpoints) : Within R (Core.enterLoop ctx flag ls)
      (fun p => K p.2.checkpoints ∧
        p.1 = { ctx with absoluteStepLimit := min (ls.steps + ctx.maxSteps) usizeMax } ∧
        p.2 = { ls with checkpoints := p.2.checkpoints }) S := by
  unfold Core.enterLoop saveEmpty
  refine within_bind (P := K) ?_ fun checkpoints hcheckpoints =>
    within_pure ⟨hcheckpoints, rfl, rfl⟩
  split
  · exact within_bind (hR.saveBoundary hS hsaves hK) fun saved hsaved => within_pure hsaved
  · exact within_pure hK

/-- **What a call does after its opening** keeps the relation. -/
theorem proceed (hsaves : Saves R K) (hruns : Runs R A) (hcounter : S (.panic .counterOverflow))
    (hclock : S (.panic .instantOverflow))
    (hbudget : ∀ maxSteps node step, S (.error (.maxStepsExceeded maxSteps node step)))
    (hA : ∀ a, A a) (call : Call E) {p : RunContext × LoopState E Nat} (hK : K p.2.checkpoints) :
    Within R (call.proceed g p) (fun _ => True) S := by
  refine within_bind (hR.enterLoop hS hsaves hK) fun entered hentered => ?_
  refine within_bind (hR.runLoop hS hsaves hruns hcounter hclock (hbudget _)
    (fun _ _ _ a _ => hA a) hentered.1 fun _ a _ => hA a) fun ended _ => ?_
  refine within_bind (hR.leaveLoop hS ended) fun outcome _ => ?_
  unfold Call.conclude
  split
  · exact within_throw (hS _ trivial)
  · exact within_throw (hS _ trivial)
  · exact within_pure trivial

end Call

end Steady

end GroupAgent.Core
