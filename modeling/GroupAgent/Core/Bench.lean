import GroupAgent.Core.Program

/-!
# A bench for programs

A host on which a `Program` can be evaluated: its jobs are done by a function at once, its futures
are ready when they are first polled, and its store keeps the last checkpoint it was sent and
answers every reading with it.

* Nothing is cancelled and no time passes, so `now` is constant and no deadline is ever due.
* Of several futures that are ready the first is taken.
* Identifiers are not distinguished: what is evaluated on the bench does not read them.

It is the host of small runs beside the theorems. What holds on every host is proved with a host as
a parameter.
-/

namespace GroupAgent.Core

variable {ν ρ : Type}

/-- The reply a plan gets from whoever performs its job. -/
def Plan.performed {J : Type} {R : J → Type} {A : Type} (perform : (job : J) → R job) :
    (plan : Plan J R A) → plan.Reply
  | .done _ => ()
  | .call job _ => perform job

namespace Bench

variable {P : Program ν ρ}

/-- What a bench keeps: the last checkpoint. -/
abbrev Kept (P : Program ν ρ) : Type := Option (Checkpoint P.Snapshot P.Value)

/-- A future that is ready at once. -/
def ready {α : Type} (answer : Kept P → α × Kept P) : Future (Kept P) α where
  await := answer
  select _ s := (.ready (answer s).1, (answer s).2)

/-- The bench on which jobs are performed so. -/
abbrev host (P : Program ν ρ) (perform : (job : P.Job) → P.Reply job) : Host P where
  World := Kept P
  instantMax := 0
  now s := (0, s)
  isCancelled s := (false, s)
  nextRunId s := (⟨⟨0⟩⟩, s)
  nextCheckpointId s := (⟨⟨0⟩⟩, s)
  onEvent _ s := s
  perform job := ready fun s => (perform job, s)
  nextReady _ h s :=
    (⟨⟨0, List.length_pos_iff.mpr h⟩, .ready (Plan.performed perform (P.plan _))⟩, s)
  preempted _ s := (none, s)
  save _ request := ready fun _ => (.ok request.intoCheckpoint, some request.intoCheckpoint)
  latest _ := ready fun s => (.ok s, s)
  get _ _ := ready fun s => (.ok s, s)
  branchHead _ _ := ready fun s => (.ok s, s)
  createBranch _ _ _ := ready fun s => (.ok (), s)

end Bench

end GroupAgent.Core
