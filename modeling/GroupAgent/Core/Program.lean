import GroupAgent.Core.Calls

/-!
# Programs of a graph

A node of the prebuilt agents reads its attempt, may call out once (a model, a batch of tools, a
mapper) and answers by what comes back. Its state, its routers and the codec of its snapshots are
pure code. `Program` is that code; `Host` is everything else a run meets, and `Program.env` puts
the two together.

* `Plan` is what an attempt comes to: an answer, or a job with the answers its replies lead to.
* The world of the environment keeps, beside the host's, a log of the jobs that were worked on: one
  entry whenever a future that has a job is polled. Only statements read it.
* Before the futures of a parallel super-step are waited for, any of them may have been polled, so
  every wait logs the jobs of all that are pending.
* The states of these programs keep the default `apply_batch` (`GraphState`, `state.rs:47-79` of
  `crates/group-agent-core/src`), and their graphs have no fan-out.

Premise: a plan has at most one job. A node that calls out twice, and uses the first reply for the
second call, is none; the nodes under `crates/group-agent-prebuilt/src` call out once.
-/

namespace GroupAgent.Core

open GroupAgent.Lib

/-! ## Plans -/

/-- What an execution comes to: an answer, or a job whose reply decides it. -/
inductive Plan (J : Type) (R : J → Type) (A : Type) where
  | done (answer : A)
  | call (job : J) (next : R job → A)

namespace Plan

variable {J : Type} {R : J → Type} {A B : Type}

def map (f : A → B) : Plan J R A → Plan J R B
  | done answer => done (f answer)
  | call job next => call job fun reply => f (next reply)

/-- The same plan under other names for its jobs. -/
def lift {J' : Type} {R' : J' → Type} (f : J → J') (reply : (job : J) → R' (f job) → R job) :
    Plan J R A → Plan J' R' A
  | done answer => done answer
  | call job next => call (f job) fun r => next (reply job r)

/-- What a plan waits for. -/
def Reply : Plan J R A → Type
  | done _ => Unit
  | call job _ => R job

def answer : (plan : Plan J R A) → plan.Reply → A
  | done answer, _ => answer
  | call _ next, reply => next reply

/-- The job of a plan, if it has one. -/
def job? : Plan J R A → Option J
  | done _ => none
  | call job _ => some job

/-- The plan can come to this answer. -/
def Answers (plan : Plan J R A) (a : A) : Prop := ∃ reply, plan.answer reply = a

@[simp] theorem answers_done {a b : A} : (done a : Plan J R A).Answers b ↔ a = b := by
  constructor
  · rintro ⟨_, h⟩
    exact h
  · intro h
    exact ⟨(), h⟩

@[simp] theorem answers_call {job : J} {next : R job → A} {b : A} :
    (call job next : Plan J R A).Answers b ↔ ∃ reply, next reply = b := Iff.rfl

@[simp] theorem answers_map {plan : Plan J R A} {f : A → B} {b : B} :
    (plan.map f).Answers b ↔ ∃ a, plan.Answers a ∧ f a = b := by
  cases plan with
  | done answer => simp [map]
  | call job next => simp [map]

@[simp] theorem job?_done (a : A) : (done a : Plan J R A).job? = none := rfl

@[simp] theorem job?_call (job : J) (next : R job → A) :
    (call job next : Plan J R A).job? = some job := rfl

@[simp] theorem job?_map (plan : Plan J R A) (f : A → B) : (plan.map f).job? = plan.job? := by
  cases plan <;> rfl

theorem answers_lift {J' : Type} {R' : J' → Type} {f : J → J'}
    {reply : (job : J) → R' (f job) → R job} {plan : Plan J R A} {a : A}
    (h : (plan.lift f reply : Plan J' R' A).Answers a) : plan.Answers a := by
  cases plan with
  | done answer => exact h
  | call job next =>
    obtain ⟨r, hr⟩ := h
    exact ⟨reply job r, hr⟩

@[simp] theorem job?_lift {J' : Type} {R' : J' → Type} (f : J → J')
    (reply : (job : J) → R' (f job) → R job) (plan : Plan J R A) :
    (plan.lift f reply : Plan J' R' A).job? = plan.job?.map f := by
  cases plan <;> rfl

end Plan

/-! ## Programs -/

/-- The code of a graph: its state, its nodes and its routers. -/
structure Program (ν ρ : Type) where
  State : Type
  Update : Type
  Snapshot : Type
  Value : Type
  Job : Type
  Reply : Job → Type
  apply : State → Update → Except SourceError State
  snapshot : State → Except SourceError Snapshot
  restore : Snapshot → Except SourceError State
  plan : (a : NodeAttempt ν State Value) → Plan Job Reply (a.kind.Answer Update Value)
  route : ρ → State → Except SourceError NodeId

variable {ν ρ : Type}

/-- A job that was worked on, with the attempt it was for. -/
structure Worked (P : Program ν ρ) where
  attempt : NodeAttempt ν P.State P.Value
  job : P.Job

namespace Program

variable (P : Program ν ρ)

/-- The default `apply_batch`: one update is applied, several are rejected. -/
def applyBatch (state : P.State) (updates : List (NodeUpdate P.Update)) :
    Except SourceError P.State :=
  match updates with
  | [update] => P.apply state update.update
  | updates => .error (.message (s!"parallel super-step produced {updates.length} updates, but " ++
    "this state does not define apply_batch"))

/-- What an attempt adds to the log when it is polled. -/
def polled (a : NodeAttempt ν P.State P.Value) : List (Worked P) :=
  (P.plan a).job?.toList.map fun job => ⟨a, job⟩

theorem mem_polled {a : NodeAttempt ν P.State P.Value} {w : Worked P} :
    w ∈ P.polled a ↔ w.attempt = a ∧ (P.plan a).job? = some w.job := by
  unfold polled
  rw [List.mem_map]
  constructor
  · rintro ⟨job, hjob, rfl⟩
    exact ⟨rfl, Option.mem_toList.mp hjob⟩
  · rintro ⟨rfl, hjob⟩
    exact ⟨w.job, Option.mem_toList.mpr hjob, rfl⟩

end Program

theorem Raced.map_eq_ready {deadline : Option ActiveDeadline} {α β : Type} {f : α → β}
    {r : Raced deadline α} {b : β} : r.map f = .ready b ↔ ∃ a, r = .ready a ∧ f a = b := by
  cases r <;> simp [Raced.map]

/-! ## Hosts -/

/-- What a program runs on: whoever does its jobs, the checkpointer, the clock, the cancellation
token, the event sink and the identifier generators. -/
structure Host (P : Program ν ρ) where
  World : Type
  instantMax : Instant
  now : World → Instant × World
  isCancelled : World → Bool × World
  nextRunId : World → RunId × World
  nextCheckpointId : World → CheckpointId × World
  onEvent : GraphEvent → World → World
  perform : (job : P.Job) → Future World (P.Reply job)
  /-- Which pending execution of a parallel super-step completes next, and by which reply. -/
  nextReady : (pending : List (ParallelAttempt ν P.State P.Value)) → pending ≠ [] → World →
    ((i : Fin pending.length) × Raced (pending.get i).deadline
      (P.plan (pending.get i).toNodeAttempt).Reply) × World
  preempted : (deadline : Option ActiveDeadline) → World → Option (Raced deadline Empty) × World
  save : Option BranchId → CheckpointRequest P.Snapshot P.Value →
    Future World (Except CheckpointWriteError (Checkpoint P.Snapshot P.Value))
  latest : ThreadId → Future World (Except SourceError (Option (Checkpoint P.Snapshot P.Value)))
  get : ThreadId → CheckpointId →
    Future World (Except SourceError (Option (Checkpoint P.Snapshot P.Value)))
  branchHead : ThreadId → BranchId →
    Future World (Except SourceError (Option (Checkpoint P.Snapshot P.Value)))
  createBranch : ThreadId → BranchId → CheckpointId →
    Future World (Except CheckpointWriteError Unit)

/-- An effect on the host's part of the world. -/
def hosted {W L α : Type} (f : W → α × W) (w : W × L) : α × (W × L) :=
  ((f w.1).1, ((f w.1).2, w.2))

/-- A future of the host. -/
def Future.hosted {W L α : Type} (future : Future W α) : Future (W × L) α where
  await := Core.hosted future.await
  select deadline := Core.hosted (future.select deadline)

namespace Program

variable (P : Program ν ρ) (H : Host P)

/-- An execution of a node. A race polls it only if neither cancellation nor the deadline comes
first. -/
def execution (a : NodeAttempt ν P.State P.Value) :
    Future (H.World × List (Worked P)) (a.kind.Answer P.Update P.Value) where
  await w :=
    match P.plan a with
    | .done answer => (answer, w)
    | .call job next =>
      let r := (H.perform job).await w.1
      (next r.1, (r.2, w.2 ++ [⟨a, job⟩]))
  select deadline w :=
    match H.preempted deadline w.1 with
    | (some .cancelled, world) => (.cancelled, (world, w.2))
    | (some (.elapsed passed h), world) => (.elapsed passed h, (world, w.2))
    | (none, world) =>
      match P.plan a with
      | .done answer => (.ready answer, (world, w.2))
      | .call job next =>
        let r := (H.perform job).select deadline world
        (r.1.map next, (r.2, w.2 ++ [⟨a, job⟩]))

/-- The environment of a program on a host. -/
abbrev env : Env ν ρ where
  State := P.State
  Update := P.Update
  Snapshot := P.Snapshot
  Value := P.Value
  World := H.World × List (Worked P)
  apply := P.apply
  applyBatch := P.applyBatch
  snapshot := P.snapshot
  restore := P.restore
  instantMax := H.instantMax
  now := hosted H.now
  isCancelled := hosted H.isCancelled
  nextRunId := hosted H.nextRunId
  nextCheckpointId := hosted H.nextCheckpointId
  onEvent event w := (H.onEvent event w.1, w.2)
  route router state w := (P.route router state, w)
  fanOutRoute _ _ w := (.error (.message "no fan-out router"), w)
  run a := P.execution H a
  nextReady pending h w :=
    let r := H.nextReady pending h w.1
    (⟨r.1.1, r.1.2.map (P.plan (pending.get r.1.1).toNodeAttempt).answer⟩,
      (r.2, w.2 ++ pending.flatMap fun a => P.polled a.toNodeAttempt))
  preempted deadline := hosted (H.preempted deadline)
  save branchId request := (H.save branchId request).hosted
  latest threadId := (H.latest threadId).hosted
  get threadId checkpointId := (H.get threadId checkpointId).hosted
  branchHead threadId branchId := (H.branchHead threadId branchId).hosted
  createBranch threadId branchId source := (H.createBranch threadId branchId source).hosted

end Program

/-- A machine of a program on a host. -/
abbrev ProgramMachine (P : Program ν ρ) (H : Host P) : Type := Machine (P.env H)

/-- The jobs worked on so far. -/
def jobs {P : Program ν ρ} {H : Host P} (m : ProgramMachine P H) : List (Worked P) := m.world.2

end GroupAgent.Core
