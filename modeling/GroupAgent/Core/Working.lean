import GroupAgent.Core.Flow

/-!
# Runs of a program follow its flow

The pieces of the run loop (`runtime.rs:369-890`, `execute_node` 2129-2181), on a flat graph, by
what they do to the log of jobs.

* `Does G x Q S`: the computation returns a `Q` or stops with an `S`, and logs jobs of `G` only.
* A node is executed at its `Attempt`; its plan says which job it may work on and what it answers
  by the reply. An execution that is abandoned for a cancellation or a deadline may have worked on
  its job all the same.
* `Outer`: the stops that come from outside the program: controls, storage, counters.

Results: **`does_superstep`**: a super-step takes a `Step` of the program or is suspended, logs
jobs of its position only, and stops for a `Fault`.

Premise: the graph is `Flat`, so a super-step has one node and goes by the part of the loop that
runs it in the task of the call.
-/

namespace GroupAgent.Core

open GroupAgent.Lib

variable {ν ρ : Type} {P : Program ν ρ} {H : Host P}

/-- The log grows by jobs of `G` only. -/
def Logs (G : Worked P → Prop) (m m' : ProgramMachine P H) : Prop :=
  ∃ ws, jobs m' = jobs m ++ ws ∧ ∀ w ∈ ws, G w

theorem Logs.same {G : Worked P → Prop} {m m' : ProgramMachine P H} (h : jobs m' = jobs m) :
    Logs G m m' := ⟨[], by rw [h, List.append_nil], by simp⟩

/-- A log that grows by nothing stays as it is. -/
theorem Logs.eq {m m' : ProgramMachine P H} (h : Logs (fun _ => False) m m') : jobs m' = jobs m := by
  obtain ⟨ws, hws, hall⟩ := h
  rw [hws, List.eq_nil_iff_forall_not_mem.mpr hall, List.append_nil]

instance (G : Worked P → Prop) : Std.Refl (Logs (H := H) G) := ⟨fun _ => .same rfl⟩

instance (G : Worked P → Prop) : IsTrans (ProgramMachine P H) (Logs G) := ⟨by
  rintro m m' m'' ⟨ws, hws, hall⟩ ⟨ws', hws', hall'⟩
  refine ⟨ws ++ ws', by rw [hws', hws, List.append_assoc], fun w hw => ?_⟩
  rcases List.mem_append.mp hw with hw | hw
  · exact hall w hw
  · exact hall' w hw⟩

/-- The computation returns a `Q` or stops with an `S`, and logs jobs of `G` only. -/
abbrev Does {α : Type} (G : Worked P → Prop) (x : M (P.env H) α) (Q : α → Prop) (S : Stop → Prop) :
    Prop := Within (Logs G) x Q S

section Primitives

variable {α : Type} {G : Worked P → Prop} {S : Stop → Prop}

/-- What keeps the log as it is logs nothing. -/
theorem does_of_yields {x : M (P.env H) α} {Q : α → Prop}
    (h : Yields (jobs (P := P) (H := H)) x Q S) : Does G x Q S := by
  intro m
  exact wp_mono (h m) (fun a m' ha => ⟨ha.1, .same ha.2⟩) fun e m' he => ⟨he.1, .same he.2⟩

theorem does_ask {f : (P.env H).World → α × (P.env H).World} (h : ∀ w, (f w).2.2 = w.2) :
    Does G (ask f) (fun a => ∃ w, (f w).1 = a) S :=
  fun m => ⟨⟨m.world, rfl⟩, .same (h m.world)⟩

theorem does_emitWith {config : EventConfig} {event : M (P.env H) GraphEvent}
    (h : Does G event (fun _ => True) S) : Does G (emitWith config event) (fun _ => True) S := by
  unfold emitWith
  split
  · refine within_bind h fun _ _ => within_modify fun m => .same ?_
    unfold jobs
    simp only
    split <;> rfl
  · exact within_pure trivial

theorem does_emit (config : EventConfig) (event : GraphEvent) :
    Does G (emit config event : M (P.env H) Unit) (fun _ => True) S :=
  does_emitWith (within_pure trivial)

theorem does_emitIf {condition : Bool} {config : EventConfig} {event : M (P.env H) GraphEvent}
    (h : Does G event (fun _ => True) S) :
    Does G (emitIf condition config event) (fun _ => True) S := by
  unfold emitIf
  split
  · exact does_emitWith h
  · exact within_pure trivial

theorem does_fail (ctx : RunContext) {error : GraphRunError} {Q : α → Prop} (h : S (.error error)) :
    Does G (fail ctx error : M (P.env H) α) Q S := by
  unfold fail
  exact within_seq (does_emit _ _) (within_throw h)

theorem does_orFail (ctx : RunContext) {r : Except GraphRunError α} {Q : α → Prop}
    (hok : ∀ a, r = .ok a → Q a) (herror : ∀ error, r = .error error → S (.error error)) :
    Does G (orFail ctx r : M (P.env H) α) Q S := by
  unfold orFail
  cases r with
  | ok a => exact within_pure (hok a rfl)
  | error error => exact does_fail ctx (herror error rfl)

end Primitives

/-! ## Control points -/

section Controls

variable {α : Type} {G : Worked P → Prop} {S : Stop → Prop} (hS : ∀ e, Outer e → S e)

theorem does_usizeAdd {a b : Nat} (h : usizeMax < a + b → S (.panic .counterOverflow)) :
    Does G (usizeAdd a b : M (P.env H) Nat) (fun c => c = a + b) S := by
  unfold usizeAdd
  split
  · exact within_pure rfl
  · rename_i hgt
    exact within_throw (h (Nat.lt_of_not_le hgt))

theorem does_deadlineError {runId : RunId} {nodeId : Option NodePath} {step : Nat}
    {deadline : ActiveDeadline} (h : Blames nodeId (some deadline)) :
    Does G (ActiveControl.deadlineError runId nodeId step deadline : M (P.env H) GraphRunError)
      (fun error => Outer (.error error)) S := by
  unfold ActiveControl.deadlineError
  cases deadline with
  | run timeout instant => exact within_pure trivial
  | node timeout instant =>
    cases nodeId with
    | none => exact absurd rfl (h timeout instant rfl)
    | some path => exact within_pure trivial

include hS

theorem does_control {ctx : RunContext} {nodeId : Option NodePath} {step : Nat}
    {deadline : Option ActiveDeadline} (h : Blames nodeId deadline) :
    Does G (control ctx nodeId step deadline : M (P.env H) Unit) (fun _ => True) S := by
  unfold control ActiveControl.check
  refine within_bind (P := fun error => ∀ e ∈ error, Outer (.error e)) ?_ fun error herror => ?_
  · refine within_bind (does_ask fun _ => rfl) fun cancelled _ => ?_
    split
    · refine within_pure ?_
      rintro _ ⟨⟩
      trivial
    · cases deadline with
      | none => exact within_pure (by simp)
      | some deadline =>
        refine within_bind (does_ask fun _ => rfl) fun now _ => ?_
        split
        · refine within_map (does_deadlineError h) fun error herror => ?_
          rintro _ ⟨⟩
          exact herror
        · exact within_pure (by simp)
  · cases error with
    | none => exact within_pure trivial
    | some error => exact does_fail ctx (hS _ (herror error rfl))

theorem does_controlRun (ctx : RunContext) (nodeId : Option NodePath) (step : Nat) :
    Does G (controlRun ctx nodeId step : M (P.env H) Unit) (fun _ => True) S :=
  does_control hS (blames_run ctx.control nodeId)

theorem does_deadlineFrom (started : Instant) (timeout : Option Duration) :
    Does G (ActiveControl.deadlineFrom started timeout : M (P.env H) (Option (Duration × Instant)))
      (fun _ => True) S := by
  unfold ActiveControl.deadlineFrom
  cases timeout with
  | none => exact within_pure trivial
  | some timeout =>
    refine within_bind (P := fun _ => True) ?_ fun _ _ => within_pure trivial
    unfold instantAdd
    split
    · exact within_pure trivial
    · exact within_throw (hS _ trivial)

end Controls

/-! ## Nodes -/

section Nodes

variable {g : CompiledGraph ν ρ} {ctx : RunContext} {ls : LoopState (P.env H) Nat}
  {G : Worked P → Prop} {S : Stop → Prop}

/-- A started node is tried. -/
theorem does_startNode (hS : ∀ e, Outer e → S e) {i : Nat} {n : CompiledNode ν ρ Nat}
    (hi : i ∈ ls.frontier) (hn : g.items[i]? = some (.node n)) (step : Nat) :
    Does G (startNode ctx ls i n step) (fun r => Tries P g ls.position i r.1) S := by
  unfold startNode
  refine within_seq (does_controlRun hS _ _ _) ?_
  refine within_bind (does_ask fun _ => rfl) fun now _ => ?_
  refine within_bind (does_deadlineFrom hS _ _) fun deadline _ => ?_
  refine within_seq (does_emit _ _) ?_
  refine within_seq (does_control hS (blames_some _ _)) ?_
  exact within_pure ⟨hi, ⟨n, hn, rfl, rfl⟩, rfl, ls.offered i⟩

/-- Waiting for a node polls it. -/
theorem does_awaitNode {a : NodeAttempt ν P.State P.Value} (hG : ∀ w ∈ P.polled a, G w)
    (active : Option ActiveDeadline) :
    Does G (executeNode.awaitNode (E := P.env H) ctx a active)
      (fun r => ∀ answer, r = .ready answer → (P.plan a).Answers answer) S := by
  have hlog : ∀ {w w' : (P.env H).World} {job : P.Job} {m : ProgramMachine P H}
      {next : P.Reply job → a.kind.Answer P.Update P.Value}, P.plan a = .call job next →
      m.world = w → w'.2 = w.2 ++ [⟨a, job⟩] → Logs G m { m with world := w' } := by
    rintro w w' job m next hp rfl hw
    refine ⟨[⟨a, job⟩], hw, fun w hw => ?_⟩
    rw [List.mem_singleton.mp hw]
    exact hG _ (P.mem_polled.mpr ⟨rfl, by rw [hp]; rfl⟩)
  unfold executeNode.awaitNode
  split
  · refine within_map (P := fun answer => (P.plan a).Answers answer) (fun m => ?_) ?_
    · rw [wp_ask]
      simp only [Program.execution]
      cases hp : P.plan a with
      | done answer => exact ⟨⟨(), rfl⟩, .same rfl⟩
      | call job next => exact ⟨⟨_, rfl⟩, hlog hp rfl rfl⟩
    · rintro answer h answer' ⟨⟩
      exact h
  · intro m
    rw [wp_ask]
    simp only [Program.execution]
    split
    · exact ⟨by simp, .same rfl⟩
    · exact ⟨by simp, .same rfl⟩
    · cases hp : P.plan a with
      | done answer =>
        refine ⟨?_, .same rfl⟩
        rintro answer' ⟨⟩
        exact ⟨(), rfl⟩
      | call job next =>
        refine ⟨fun answer h => ?_, hlog hp rfl rfl⟩
        obtain ⟨reply, -, hnext⟩ := Raced.map_eq_ready.mp h
        exact ⟨reply, hnext⟩

/-- A node that was waited for has come to an outcome, or the run stops. -/
theorem does_finishNode (hS : ∀ e, Outer e → S e) {a : NodeAttempt ν P.State P.Value}
    {nodeId : NodePath} {step : Nat} {active : Option ActiveDeadline}
    {answer : Raced active (a.kind.Answer P.Update P.Value)}
    (h : ∀ b, answer = .ready b → (P.plan a).Answers b)
    (hfail : ∀ source, P.Fails a source → S (.error (.nodeFailed nodeId step source))) :
    Does G (executeNode.finishNode (E := P.env H) ctx nodeId step a.kind answer) (P.Comes a) S := by
  unfold executeNode.finishNode
  cases answer with
  | cancelled => exact does_fail ctx (hS _ trivial)
  | elapsed passed hforce =>
    refine within_bind (does_deadlineError (blames_some nodeId _)) fun error herror => ?_
    exact does_fail ctx (hS _ herror)
  | ready b =>
    refine within_seq (does_controlRun hS _ _ _) ?_
    cases ho : a.kind.outcome b with
    | error source => exact does_fail ctx (hfail source ⟨b, h b rfl, ho⟩)
    | ok outcome => exact within_pure ⟨b, h b rfl, ho⟩

theorem does_executeNode (hS : ∀ e, Outer e → S e) {a : NodeAttempt ν P.State P.Value}
    (hG : ∀ w ∈ P.polled a, G w)
    (hfail : ∀ path step source, P.Fails a source → S (.error (.nodeFailed path step source)))
    (nodeDeadline : Option (Duration × Instant)) :
    Does G (executeNode (E := P.env H) ctx a nodeDeadline) (P.Comes a) S := by
  unfold executeNode
  refine within_seq (does_control hS (blames_some _ _)) ?_
  refine within_bind (does_awaitNode hG _) fun answer hanswer => ?_
  exact does_finishNode hS hanswer (hfail _ _)

end Nodes

/-! ## One node -/

section Single

variable {g : CompiledGraph ν ρ} {ctx : RunContext} {ls : LoopState (P.env H) Nat}

/-- What executing node `i` at a position comes to. -/
inductive Ran (P : Program ν ρ) (g : CompiledGraph ν ρ) (p : Position P) (i : Nat) :
    P.State ⊕ InterruptRequest P.Value → Prop where
  | updated {a : NodeAttempt ν P.State P.Value} {update : P.Update} {state : P.State}
      (ha : Tries P g p i a) (hcomes : P.Comes a (.update update))
      (happly : P.apply p.state update = .ok state) : Ran P g p i (.inl state)
  | suspended {a : NodeAttempt ν P.State P.Value} {request : InterruptRequest P.Value}
      (ha : Tries P g p i a) (hcomes : P.Comes a (.interrupt request)) : Ran P g p i (.inr request)

theorem Tries.works {p : Position P} {i : Nat} {a : NodeAttempt ν P.State P.Value}
    (h : Tries P g p i a) {w : Worked P} (hw : w ∈ P.polled a) : Works P g p w := by
  obtain ⟨rfl, hjob⟩ := P.mem_polled.mp hw
  exact ⟨⟨i, h⟩, hjob⟩

theorem does_runSingle {i : Nat} {n : CompiledNode ν ρ Nat} (hl : ls.frontier = [i])
    (hn : g.items[i]? = some (.node n)) {firstNode : NodePath} {firstStep : Nat} :
    Does (Works P g ls.position) (runSingle g.nav ctx ls i firstNode firstStep)
      (Ran P g ls.position i) (Fault g ctx ls) := by
  have houter : ∀ e, Outer e → Fault g ctx ls e := fun e h => .outer h
  have hi : i ∈ ls.frontier := by
    rw [hl]
    exact List.mem_singleton_self i
  unfold runSingle
  rw [nodeAt_eq hn, pure_bind]
  refine within_bind (does_startNode houter hi hn _) fun started ha => ?_
  obtain ⟨a, nodeDeadline⟩ := started
  refine within_bind (does_executeNode houter (fun w => ha.works)
    (fun _ _ _ hfail => .node ha hfail) nodeDeadline) fun outcome hcomes => ?_
  cases outcome with
  | interrupt request => exact within_pure (.suspended ha hcomes)
  | update update =>
    refine within_seq (does_emit _ _) ?_
    refine within_seq (does_controlRun houter _ _ _) ?_
    refine within_seq (does_controlRun houter _ _ _) ?_
    cases happly : P.apply ls.state update with
    | error source =>
      simp only [happly]
      exact does_fail ctx (.update hl ha hcomes happly)
    | ok state =>
      simp only [happly]
      exact within_pure (.updated ha hcomes happly)

end Single

/-! ## Several nodes -/

section Several

variable {g : CompiledGraph ν ρ} {ctx : RunContext} {ls : LoopState (P.env H) Nat}
  {S : Stop → Prop} (hS : ∀ e, S e)

include hS

theorem does_startAll : ∀ {offset : Nat} {frontier : List Nat}, (∀ i ∈ frontier, i ∈ ls.frontier) →
    (∀ i ∈ frontier, ∃ n, g.items[i]? = some (.node n)) →
    Does (Works P g ls.position) (startAll g.nav ctx ls offset frontier)
      (fun attempts => ∀ a ∈ attempts, ∃ i, Tries P g ls.position i a.toNodeAttempt) S
  | offset, [], _, _ => within_pure (by simp)
  | offset, i :: frontier, hl, hnodes => by
    unfold startAll
    obtain ⟨n, hn⟩ := hnodes i List.mem_cons_self
    rw [nodeAt_eq hn, pure_bind]
    refine within_bind (does_startNode (fun e _ => hS e) (hl i List.mem_cons_self) hn _)
      fun started ha => ?_
    refine within_bind (does_startAll (fun j hj => hl j (List.mem_cons_of_mem i hj))
      fun j hj => hnodes j (List.mem_cons_of_mem i hj)) fun rest hrest => ?_
    refine within_pure fun a hmem => ?_
    rcases List.mem_cons.mp hmem with rfl | hmem
    · exact ⟨i, ha⟩
    · exact hrest a hmem

theorem does_awaitAll {checkpoints : RuntimeCheckpoint} : ∀ {count : Nat}
    {pending : List (ParallelAttempt ν P.State P.Value)} {slots : List (Option P.Update)},
    (∀ a ∈ pending, ∃ i, Tries P g ls.position i a.toNodeAttempt) →
    Does (Works P g ls.position) (awaitAll (E := P.env H) ctx checkpoints count pending slots)
      (fun _ => True) S
  | 0, _, _, _ => within_pure trivial
  | count + 1, pending, slots, h => by
    unfold awaitAll
    split
    · rename_i hne
      refine within_bind (P := fun r : (i : Fin pending.length) × Raced (pending.get i).deadline
        ((pending.get i).kind.Answer P.Update P.Value) => ∀ b, r.2 = .ready b →
          (P.plan (pending.get r.1).toNodeAttempt).Answers b) (fun m => ?_) ?_
      · rw [wp_ask]
        refine ⟨fun b hb => ?_, ⟨_, rfl, fun w hw => ?_⟩⟩
        · obtain ⟨reply, -, hreply⟩ := Raced.map_eq_ready.mp hb
          exact ⟨reply, hreply⟩
        · obtain ⟨a, ha, hw⟩ := List.mem_flatMap.mp hw
          obtain ⟨i, ha⟩ := h a ha
          exact ha.works hw
      · rintro ⟨i, answer⟩ hanswer
        refine within_bind (does_finishNode (fun e _ => hS e) hanswer fun _ _ => hS _)
          fun outcome _ => ?_
        cases outcome with
        | interrupt request =>
          refine within_seq (does_emit _ _) ?_
          cases checkpoints <;> exact does_fail ctx (hS _)
        | update update =>
          refine within_seq (does_emit _ _) ?_
          refine within_seq (does_controlRun (fun e _ => hS e) _ _ _) ?_
          exact does_awaitAll fun a ha => h a (List.mem_of_mem_eraseIdx ha)
    · exact within_pure trivial

theorem does_zipUpdates : ∀ {nodeIds : List NodePath} {slots : List (Option P.Update)},
    Does (Works P g ls.position) (zipUpdates (E := P.env H) nodeIds slots) (fun _ => True) S
  | [], _ => by
    unfold zipUpdates
    exact within_pure trivial
  | _ :: _, [] => by
    unfold zipUpdates
    exact within_pure trivial
  | _ :: _, none :: _ => by
    unfold zipUpdates
    exact within_throw (hS _)
  | _ :: _, some _ :: _ => by
    unfold zipUpdates
    exact within_bind does_zipUpdates fun _ _ => within_pure trivial

omit hS in
theorem does_pathsOf {frontier : List Nat} {G : Worked P → Prop}
    (h : ∀ i ∈ frontier, ∃ n, g.items[i]? = some (.node n)) :
    Does G (pathsOf g.nav frontier : M (P.env H) (List NodePath)) (fun _ => True) S := by
  refine within_mono (within_mapM (P := fun _ _ => True) fun i hi => ?_) (fun _ _ => trivial)
    fun _ h => h
  obtain ⟨n, hn⟩ := h i hi
  rw [nodeAt_eq hn]
  exact within_map (P := fun _ => True) (within_pure trivial) fun _ _ => trivial

/-- Several nodes never come to a state: their updates are rejected. -/
theorem does_runParallel {first second : Nat} {rest : List Nat}
    (hl : ls.frontier = first :: second :: rest)
    (hnodes : ∀ i ∈ ls.frontier, ∃ n, g.items[i]? = some (.node n)) {firstNode : NodePath}
    {firstStep : Nat} :
    Does (Works P g ls.position) (runParallel g.nav ctx ls (first :: second :: rest) firstNode
      firstStep) (fun _ => False) S := by
  rw [hl] at hnodes
  have hruns : Does (Works P g ls.position) (runParallel g.nav ctx ls (first :: second :: rest)
      firstNode firstStep) (fun _ => True) S := by
    unfold runParallel
    refine within_bind (does_startAll hS (fun i hi => by rw [hl]; exact hi) hnodes)
      fun attempts hattempts => ?_
    refine within_bind (does_awaitAll hS hattempts) fun slots _ => ?_
    refine within_seq (does_controlRun (fun e _ => hS e) _ _ _) ?_
    refine within_bind (does_pathsOf hnodes) fun nodeIds _ => ?_
    refine within_bind (does_zipUpdates hS) fun batch _ => ?_
    split
    · exact does_fail ctx (hS _)
    · exact within_pure trivial
  have hquiet : Quiet (runParallel g.nav ctx ls (first :: second :: rest) firstNode firstStep)
      (fun state => ∃ batch, Applies g (first :: second :: rest) ls.state batch state)
      (Fine .all) := quiet_runParallel (.inl trivial) hnodes
  refine within_mono (hruns.and hquiet) ?_ fun e he => he.1
  rintro state ⟨-, batch, hpaths, happly⟩
  match batch, hpaths.length_eq with
  | _ :: _ :: _, _ => cases happly

end Several

/-! ## Routing -/

section Routing

variable {g : CompiledGraph ν ρ} {ctx : RunContext} {G : Worked P → Prop} {S : Stop → Prop}

/-- A conditional transition only leads somewhere if its router answers an allowed target. -/
theorem Leads.route {router : ρ} {allowed : List (NodeId × Option Nat)} {state : P.State}
    {next : List Nat} (h : Leads P (.conditional router allowed) state next) :
    ∃ targetId target, P.route router state = .ok targetId ∧
      allowed.lookup targetId = some target ∧ next = target.toList := by
  cases h with
  | conditional hroute hallowed => exact ⟨_, _, hroute, hallowed, rfl⟩

/-- A transition to one target is followed, or it leads nowhere. -/
theorem does_resolveTransition {t : CompiledTransition ρ Nat} {state : P.State}
    {graphPath : GraphPath} {source : NodePath} {step : Nat} (ht : t.isFanOut = false)
    (hitems : ∀ a ∈ t.targets, ∃ item, g.items[a]? = some item)
    (hS : ∀ error, (∀ next, ¬Leads P t state next) → S (.error error)) :
    Does G (resolveTransition (E := P.env H) ctx id g.pathAt t state graphPath source step)
      (Leads P t state) S := by
  unfold resolveTransition CompiledTransition.resolveInto
  cases t with
  | staticFanOut targets => cases ht
  | conditionalFanOut router allowed => cases ht
  | fixed target =>
    rw [pure_bind]
    exact within_pure (.fixed target state)
  | conditional router allowed =>
    rw [bind_assoc]
    refine within_bind (P := fun r => r = P.route router state)
      (fun m => ⟨rfl, .same rfl⟩) ?_
    rintro _ rfl
    cases hr : P.route router state with
    | error error =>
      simp only [pure_bind]
      refine does_fail ctx (hS _ fun next h => ?_)
      obtain ⟨_, _, hroute, -, -⟩ := h.route
      rw [hr] at hroute
      cases hroute
    | ok targetId =>
      cases hl : allowed.lookup targetId with
      | none =>
        simp only [hl, pure_bind]
        refine does_fail ctx (hS _ fun next h => ?_)
        obtain ⟨_, _, hroute, hallowed, -⟩ := h.route
        rw [hr] at hroute
        cases hroute
        rw [hl] at hallowed
        cases hallowed
      | some target =>
        simp only [hl, bind_assoc]
        refine within_bind (does_of_yields (yields_targetPath fun a ha => hitems a ?_))
          fun path _ => ?_
        · exact List.mem_filterMap.mpr ⟨_, CompiledTransition.mem_of_lookup hl, ha⟩
        · rw [pure_bind]
          refine within_seq (does_emit _ _) ?_
          exact within_pure (.conditional hr hl)

theorem Leads.toList {t : CompiledTransition ρ Nat} {state : P.State} {next : List Nat}
    (h : Leads P t state next) : ∃ target : Option Nat, next = target.toList ∧
      ∀ a ∈ target, a ∈ t.targets := by
  cases h with
  | fixed target => exact ⟨target, rfl, fun a ha => Option.mem_toList.mpr ha⟩
  | @conditional router allowed _ targetId target hroute hallowed =>
    refine ⟨target, rfl, fun a ha => ?_⟩
    exact List.mem_filterMap.mpr ⟨_, CompiledTransition.mem_of_lookup hallowed, ha⟩

/-- A step leads to real nodes. -/
theorem Step.nodes (hg : Placed g) (hflat : Flat g) {p q : Position P} {update : P.Update}
    (h : Step P g p update q) :
    ∀ i ∈ q.frontier, ∃ n, g.items[i]? = some (.node n) := by
  cases h with
  | @mk j a update state n next hl ha hcomes happly hn hleads =>
    obtain ⟨target, rfl, htarget⟩ := hleads.toList
    intro i hi
    obtain ⟨item, hitem, -⟩ := hg.target j (.node n) i hn (htarget i (Option.mem_toList.mp hi))
    obtain ⟨n', rfl⟩ := hflat.node i item hitem
    exact ⟨n', hitem⟩

theorem canonical_toList (target : Option Nat) : canonical id target.toList = target.toList := by
  cases target with
  | none => decide
  | some i => simp [canonical, sortByKey, dedupAdjacent]

/-- A flat frontier of at most one node is settled as it is. -/
theorem does_normalizeFrontier (hflat : Flat g) {target : Option Nat} {state : P.State}
    (hitem : ∀ a ∈ target, ∃ item, g.items[a]? = some item) (hS : ctx.hops = 0 → S .outOfFuel)
    {step : Nat} :
    Does G (g.normalizeFrontier ctx state step ctx.hops target.toList [] : M (P.env H) _)
      (fun r => r.1 = target.toList) S := by
  cases hhops : ctx.hops with
  | zero => exact within_throw (hS hhops)
  | succ hops =>
    cases target with
    | none => exact within_pure rfl
    | some i =>
      obtain ⟨item, hi⟩ := hitem i rfl
      obtain ⟨n, rfl⟩ := hflat.node i item hi
      show Does G (g.normalizeFrontier ctx state step (hops + 1) [i] []) _ S
      unfold CompiledGraph.normalizeFrontier
      refine within_bind (does_of_yields (yields_itemAt hi)) ?_
      rintro _ rfl
      exact within_pure rfl

theorem does_settle (hflat : Flat g) {target : Option Nat} {state : P.State}
    (hitem : ∀ a ∈ target, ∃ item, g.items[a]? = some item) (hS : ctx.hops = 0 → S .outOfFuel)
    {step : Nat} {graphPath : GraphPath} :
    Does G (g.nav.settle ctx state step graphPath (canonical id target.toList) : M (P.env H) _)
      (fun r => r.1 = target.toList) S := by
  show Does G (g.normalizeFrontier ctx state step ctx.hops (g.orScopeExit graphPath _) []) _ S
  have hexit : g.orScopeExit graphPath (canonical id target.toList) = target.toList := by
    rw [canonical_toList]
    unfold CompiledGraph.orScopeExit CompiledGraph.scopeExit
    rw [hflat.exits]
    cases target <;> rfl
  rw [hexit]
  exact does_normalizeFrontier hflat hitem hS

end Routing

/-! ## Up to the next boundary -/

section Advance

variable {g : CompiledGraph ν ρ} {ctx : RunContext} {ls : LoopState (P.env H) Nat}

theorem does_enforceBudget {G : Worked P → Prop}
    (hnodes : ∀ i ∈ ls.frontier, ∃ n, g.items[i]? = some (.node n)) :
    Does G (enforceBudget g.nav ctx ls.steps ls.frontier : M (P.env H) Unit) (fun _ => True)
      (Fault g ctx ls) := by
  unfold enforceBudget
  simp only
  split
  · exact within_pure trivial
  · rename_i blocked hblocked
    obtain ⟨n, hn⟩ := hnodes blocked (List.mem_of_getElem? hblocked)
    obtain ⟨hlt, -⟩ := List.getElem?_eq_some_iff.mp hblocked
    rw [nodeAt_eq hn, pure_bind]
    refine within_bind (does_usizeAdd fun hoverflow => ?_) fun step _ => ?_
    · by_cases hone : 2 ≤ ls.frontier.length
      · exact .batch hone
      · exact .counter (.inl (by omega))
    · exact does_fail ctx (.budget (by omega))

theorem does_reportUpdates {G : Worked P → Prop} {S : Stop → Prop} (hS : ∀ e, Outer e → S e) :
    ∀ {step : Nat} {frontier : List Nat}, (∀ i ∈ frontier, ∃ n, g.items[i]? = some (.node n)) →
      Does G (reportUpdates g.nav ctx step frontier : M (P.env H) Unit) (fun _ => True) S
  | _, [], _ => within_pure trivial
  | step, i :: frontier, hnodes => by
    unfold reportUpdates
    obtain ⟨n, hn⟩ := hnodes i List.mem_cons_self
    rw [nodeAt_eq hn, pure_bind]
    refine within_seq (does_emit _ _) ?_
    refine within_seq (does_controlRun hS _ _ _) ?_
    exact does_reportUpdates hS fun j hj => hnodes j (List.mem_cons_of_mem i hj)

/-- What a super-step comes to before it is saved: a step of the program, or a suspension. -/
inductive Flows (g : CompiledGraph ν ρ) (ls : LoopState (P.env H) Nat) :
    Advance (P.env H) Nat → Prop where
  | committed {update : P.Update} {state : P.State} {next : List Nat}
      {boundaries : List SubgraphBoundary} (h : Step P g ls.position update ⟨state, next, none⟩) :
      Flows g ls (.committed state (ls.steps + 1) (ls.superstep + 1) next boundaries)
  | suspended {request : InterruptRequest P.Value} (h : Suspends P g ls.position request) :
      Flows g ls (.suspended request)

theorem does_advance (hg : Placed g) (hflat : Flat g) {first : Nat} {rest : List Nat}
    (hl : ls.frontier = first :: rest)
    (hnodes : ∀ i ∈ ls.frontier, ∃ n, g.items[i]? = some (.node n)) :
    Does (Works P g ls.position) (advance g.nav ctx ls first rest) (Flows g ls)
      (Fault g ctx ls) := by
  have houter : ∀ e, Outer e → Fault g ctx ls e := fun e h => .outer h
  obtain ⟨n, hn⟩ := hnodes first (by rw [hl]; exact List.mem_cons_self)
  unfold advance
  rw [nodeAt_eq hn, pure_bind]
  refine within_bind (does_usizeAdd fun h => .counter (.inl (by omega))) fun firstStep _ => ?_
  refine within_seq (does_controlRun houter _ _ _) ?_
  rw [← hl]
  refine within_seq (does_enforceBudget hnodes) ?_
  refine within_bind (does_usizeAdd fun h => .counter (.inr (by omega))) fun superstep hsuper => ?_
  refine within_seq (does_emitIf (within_map (does_pathsOf hnodes) fun _ _ => trivial)) ?_
  cases rest with
  | cons second rest =>
    have hlen : 2 ≤ ls.frontier.length := by
      rw [hl]
      simp
    refine within_bind (P := fun _ => False) ?_ fun _ h => h.elim
    exact within_map (within_mono (does_runParallel (S := Fault g ctx ls) (fun e => .batch hlen) hl
      hnodes) (fun _ h => h) fun _ h => h) fun _ h => h
  | nil =>
    refine within_bind (does_runSingle hl hn) fun outcome hran => ?_
    cases hran with
    | suspended ha hcomes => exact within_pure (.suspended ⟨first, _, hl, ha, hcomes⟩)
    | @updated a update state ha hcomes happly =>
      refine within_seq (does_reportUpdates houter hnodes) ?_
      have hroute : Does (Works P g ls.position)
          (routeAll g.nav ctx state firstStep ls.frontier : M (P.env H) (List Nat))
          (Leads P n.transition state) (Fault g ctx ls) := by
        rw [hl]
        unfold routeAll
        rw [nodeAt_eq hn, pure_bind]
        refine within_bind (does_resolveTransition (hflat.single first n hn) (fun i hi => ?_)
          fun error h => .route hl ha hcomes happly hn h) fun targets htargets => ?_
        · obtain ⟨item, hitem, -⟩ := hg.target first (.node n) i hn hi
          exact ⟨item, hitem⟩
        · refine within_seq (does_controlRun houter _ _ _) ?_
          unfold routeAll
          rw [pure_bind, List.append_nil]
          exact within_pure htargets
      refine within_bind hroute fun targets hleads => ?_
      obtain ⟨target, rfl, htarget⟩ := hleads.toList
      refine within_bind (does_settle hflat (fun i hi => ?_) fun h => .hops h) fun next hnext => ?_
      · obtain ⟨item, hitem, -⟩ := hg.target first (.node n) i hn (htarget i hi)
        exact ⟨item, hitem⟩
      · obtain ⟨next, boundaries⟩ := next
        cases hnext
        subst hsuper
        rw [hl]
        exact within_pure (.committed (.mk hl ha hcomes happly hn hleads))

end Advance

/-! ## Calls of the checkpointer -/

section Storage

variable {ctx : RunContext} {G : Worked P → Prop} {S : Stop → Prop}

/-- A call of the checkpointer logs nothing: it is cut short from outside, its start fails, or it is
answered. -/
theorem does_awaitCall {α β γ : Type} (step : Nat) {start : M (P.env H) (Except GraphRunError γ)}
    {future : γ → Future (P.env H).World β} {log : γ → Option β → M (P.env H) Unit}
    {finish : γ → β → Except GraphRunError α} {V : Except GraphRunError α → Prop}
    (hlate : ∀ error, Outer (.error error) → V (.error error))
    (hstart : Does G start (fun r => ∀ error, r = .error error → V (.error error)) S)
    (hawait : ∀ c w, ((future c).await w).2.2 = w.2)
    (hselect : ∀ c deadline w, ((future c).select deadline w).2.2 = w.2)
    (hlog : ∀ c answer, Does G (log c answer) (fun _ => True) S)
    (hfinish : ∀ c answer, V (finish c answer)) :
    Does G (awaitRunBoundary ctx step (Task.call start future log finish)) V S := by
  unfold awaitRunBoundary
  split
  · refine within_bind hstart fun r hr => ?_
    cases r with
    | error error => exact within_pure (hr error rfl)
    | ok c =>
      refine within_bind (does_ask fun w => hawait c w) fun answer _ => ?_
      exact within_seq (hlog c _) (within_pure (hfinish c answer))
  · refine within_bind (P := fun r => ∀ result, r = .ready result → V result) ?_ ?_
    · refine within_bind (does_ask fun _ => rfl) fun r _ => ?_
      match r with
      | some .cancelled => exact within_pure (by simp)
      | some (.elapsed passed h) => exact within_pure (by simp)
      | none =>
        refine within_bind hstart fun r hr => ?_
        cases r with
        | error error => exact within_pure (by rintro _ ⟨⟩; exact hr error rfl)
        | ok c =>
          refine within_bind (does_ask fun w => hselect c _ w) fun answer _ => ?_
          cases answer with
          | cancelled => exact within_seq (hlog c _) (within_pure (by simp))
          | elapsed passed h => exact within_seq (hlog c _) (within_pure (by simp))
          | ready answer =>
            exact within_seq (hlog c _) (within_pure (by rintro _ ⟨⟩; exact hfinish c answer))
    · intro r hr
      cases r with
      | cancelled => exact within_pure (hlate _ trivial)
      | elapsed passed h =>
        refine within_bind (does_deadlineError (h ▸ blames_run ctx.control none)) fun error he => ?_
        exact within_pure (hlate error he)
      | ready result => exact within_pure (hr result rfl)

theorem does_record (write : StoreWrite (P.env H)) : Does G (record write) (fun _ => True) S :=
  within_modify fun _ => .same rfl

theorem saves_writeError (c : EnabledCheckpoint) (runId : RunId) (superstep step : Nat)
    (error : CheckpointWriteError) : Saves (c.writeError runId superstep step error) := by
  unfold EnabledCheckpoint.writeError
  cases error with
  | conflict expectedParent actualParent => cases hb : c.branchId <;> simp [Saves]
  | _ => simp [Saves]

theorem does_saveBoundary {c : EnabledCheckpoint} {state : P.State}
    {boundary : CheckpointBoundary P.Value} (houter : ∀ e, Outer e → S e)
    (hsave : ∀ error, Saves error → S (.error error)) :
    Does G (saveBoundary (E := P.env H) ctx (.enabled c) state boundary)
      (fun r => ∃ c, r.2 = .enabled c) S := by
  unfold saveBoundary
  refine within_bind (P := fun r => ∀ error, r = .error error →
    Outer (.error error) ∨ Saves error) ?_ fun r hr => ?_
  · unfold EnabledCheckpoint.save
    refine does_awaitCall boundary.step ?_ ?_ (fun _ _ => rfl) (fun _ _ _ => rfl)
      (fun _ _ => does_record _) fun _ answer => ?_
    · rintro error h _ ⟨⟩
      exact .inl h
    · unfold EnabledCheckpoint.request
      cases hs : (P.env H).snapshot state with
      | error source =>
        refine within_pure ?_
        rintro _ ⟨⟩ _ ⟨⟩
        exact .inr trivial
      | ok snapshot =>
        refine within_bind (does_ask fun _ => rfl) fun id _ => ?_
        exact within_pure (by simp)
    · cases answer with
      | error error =>
        rintro _ ⟨⟩
        exact .inr (saves_writeError c _ _ _ error)
      | ok checkpoint => simp
  · refine within_bind (P := fun _ => True) (does_orFail ctx (fun _ _ => trivial) ?_) fun saved _ => ?_
    · intro error he
      rcases hr error he with h | h
      · exact houter _ h
      · exact hsave error h
    · refine within_seq (does_emit _ _) ?_
      exact within_pure ⟨_, rfl⟩

end Storage

/-! ## A super-step -/

section Superstep

variable {g : CompiledGraph ν ρ} {ctx : RunContext} {ls : LoopState (P.env H) Nat}

theorem does_saveCommitted {G : Worked P → Prop} {state : P.State} {superstep steps : Nat}
    {next : List Nat} (hnodes : ∀ i ∈ next, ∃ n, g.items[i]? = some (.node n)) :
    Does G (saveCommitted g.nav ctx ls.checkpoints state superstep steps next :
      M (P.env H) RuntimeCheckpoint) (fun _ => True) (Fault g ctx ls) := by
  have houter : ∀ e, Outer e → Fault g ctx ls e := fun e h => .outer h
  unfold saveCommitted
  split
  · rename_i hsave
    cases hc : ls.checkpoints with
    | disabled => rw [hc] at hsave; cases hsave
    | readOnlyReplay _ _ => rw [hc] at hsave; cases hsave
    | enabled c =>
      refine within_bind (does_pathsOf hnodes) fun paths _ => ?_
      refine within_bind (does_saveBoundary houter fun error h => .save hc h) fun saved _ => ?_
      refine within_seq (does_controlRun houter _ _ _) ?_
      exact within_pure trivial
  · exact within_pure trivial

/-- A committed boundary is what the loop goes on from. -/
theorem does_commit {G : Worked P → Prop} {firstNode : NodePath} {state : P.State}
    {steps superstep : Nat} {next : List Nat} {boundaries : List SubgraphBoundary}
    (hcur : ∀ i ∈ ls.frontier, ∃ n, g.items[i]? = some (.node n))
    (hnext : ∀ i ∈ next, ∃ n, g.items[i]? = some (.node n)) :
    Does G (commit g.nav ctx ls firstNode state steps superstep next boundaries)
      (fun ls' => ls'.position = ⟨state, next, none⟩ ∧ ls'.steps = steps ∧
        ls'.superstep = superstep) (Fault g ctx ls) := by
  have houter : ∀ e, Outer e → Fault g ctx ls e := fun e h => .outer h
  unfold commit
  refine within_bind (does_saveCommitted hnext) fun checkpoints _ => ?_
  unfold moveOn
  refine within_seq (within_forM fun _ _ => does_emit _ _) ?_
  refine within_seq (does_emitIf (within_pure trivial)) ?_
  refine within_seq (does_controlRun houter _ _ _) ?_
  refine within_bind (does_pathsOf hcur) fun paths _ => ?_
  exact within_pure ⟨rfl, rfl, rfl⟩

/-- A suspension reports the state it found. -/
theorem does_interruptRun {G : Worked P → Prop} {request : InterruptRequest P.Value}
    {nodePath : NodePath} {step : Nat} (h : Suspends P g ls.position request) :
    Does G (interruptRun ctx ls nodePath request step ls.superstep)
      (fun report => report.state = ls.state ∧ report.interrupt = request.intoCheckpoint nodePath)
      (Fault g ctx ls) := by
  have houter : ∀ e, Outer e → Fault g ctx ls e := fun e h => .outer h
  unfold interruptRun
  refine within_seq (does_emit _ _) ?_
  cases herror : ls.checkpoints.interruptError ctx.runId (request.intoCheckpoint nodePath).id nodePath
      step false with
  | some error => exact does_fail ctx (.interrupt h herror)
  | none =>
    cases hc : ls.checkpoints with
    | disabled => rw [hc] at herror; cases herror
    | readOnlyReplay _ _ => rw [hc] at herror; cases herror
    | enabled c =>
      refine within_bind (does_saveBoundary houter fun error h => .save hc h) fun saved _ => ?_
      refine within_seq (does_controlRun houter _ _ _) ?_
      refine within_seq (does_emit _ _) ?_
      exact within_bind within_get fun _ _ => within_pure ⟨rfl, rfl⟩

/-- What a super-step leaves: the next loop state, or the report of a suspension. -/
inductive Turned (g : CompiledGraph ν ρ) (ls : LoopState (P.env H) Nat) :
    LoopState (P.env H) Nat ⊕ InterruptReport (P.env H) → Prop where
  | committed {update : P.Update} {ls' : LoopState (P.env H) Nat}
      (h : Step P g ls.position update ls'.position)
      (steps : ls'.steps = ls.steps + 1) (superstep : ls'.superstep = ls.superstep + 1) :
      Turned g ls (.inl ls')
  | suspended {request : InterruptRequest P.Value} {report : InterruptReport (P.env H)}
      {nodePath : NodePath} (h : Suspends P g ls.position request)
      (state : report.state = ls.state)
      (interrupt : report.interrupt = request.intoCheckpoint nodePath) :
      Turned g ls (.inr report)

/-- **A super-step follows the flow of the program.** -/
theorem does_superstep (hg : Placed g) (hflat : Flat g) {first : Nat} {rest : List Nat}
    (hl : ls.frontier = first :: rest)
    (hnodes : ∀ i ∈ ls.frontier, ∃ n, g.items[i]? = some (.node n)) :
    Does (Works P g ls.position) (superstep g.nav ctx ls first rest) (Turned g ls)
      (Fault g ctx ls) := by
  obtain ⟨n, hn⟩ := hnodes first (by rw [hl]; exact List.mem_cons_self)
  unfold superstep
  rw [nodeAt_eq hn, pure_bind]
  refine within_bind (does_advance hg hflat hl hnodes) fun outcome hflows => ?_
  cases hflows with
  | suspended h =>
    refine within_map (does_interruptRun h) fun report hreport => ?_
    exact .suspended h hreport.1 hreport.2
  | @committed update state next boundaries h =>
    refine within_map (does_commit hnodes (h.nodes hg hflat)) fun ls' hls' => ?_
    obtain ⟨hposition, hsteps, hsuper⟩ := hls'
    exact .committed (by rw [hposition]; exact h) hsteps hsuper

end Superstep

end GroupAgent.Core
