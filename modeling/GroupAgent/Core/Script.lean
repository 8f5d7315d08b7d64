import GroupAgent.Core.Machine

/-!
# A scripted environment

An environment whose world is a script: the answers of the routers to come, in a circle, and the
checkpoint in store.

* Nodes succeed at once, nothing is cancelled and no time passes.
* A router takes the first list of the script as its answer and puts it at the end, so a script of
  one cycle repeats it forever.
* The store answers every reading with the checkpoint it keeps, which is the last one that was
  saved.

It is the environment of the small graphs in `Hops`, `Frontiers` and `Counters`, on which their
theorems are applied and the limits of the source are shown.
-/

namespace GroupAgent.Core

variable {ν ρ : Type}

/-- What a scripted environment goes by. -/
structure Script where
  answers : List (List NodeId)
  stored : Option (Checkpoint Unit Unit)

namespace Script

/-- The next answer. It moves to the end of the script, which so repeats itself. -/
def next (s : Script) : List NodeId × Script :=
  match s.answers with
  | [] => ([], s)
  | answer :: answers => (answer, { s with answers := answers ++ [answer] })

/-- A router that selects one target answers with a script entry of one. -/
def route : List NodeId → Except SourceError NodeId
  | [targetId] => .ok targetId
  | _ => .error (.message "no single target")

/-- A future that is ready at once. -/
def ready {α : Type} (answer : Script → α × Script) : Future Script α where
  await := answer
  select _ s := (.ready (answer s).1, (answer s).2)

/-- A node that succeeds. -/
def finished : (kind : NodeKind ν) → kind.Answer Unit Unit
  | .normal _ => .ok ()
  | .interruptible _ => .ok (.update ())

/-- The environment that goes by a script. -/
abbrev env (ν ρ : Type) : Env ν ρ where
  State := Unit
  Update := Unit
  Snapshot := Unit
  Value := Unit
  World := Script
  apply _ _ := .ok ()
  applyBatch _ _ := .ok ()
  snapshot _ := .ok ()
  restore _ := .ok ()
  instantMax := 0
  now s := (0, s)
  isCancelled s := (false, s)
  nextRunId s := (⟨⟨0⟩⟩, s)
  nextCheckpointId s := (⟨⟨0⟩⟩, s)
  onEvent _ s := s
  route _ _ s := (route s.next.1, s.next.2)
  fanOutRoute _ _ s := (.ok s.next.1, s.next.2)
  run a := ready fun s => (finished a.kind, s)
  nextReady _ h s := (⟨⟨0, List.length_pos_iff.mpr h⟩, .ready (finished _)⟩, s)
  preempted _ s := (none, s)
  save _ request := ready fun s =>
    (.ok request.intoCheckpoint, { s with stored := some request.intoCheckpoint })
  latest _ := ready fun s => (.ok s.stored, s)
  get _ _ := ready fun s => (.ok s.stored, s)
  branchHead _ _ := ready fun s => (.ok s.stored, s)
  createBranch _ _ _ := ready fun s => (.ok (), s)

/-- A machine at the start of a script. -/
def machine (s : Script) : Machine (env ν ρ) := ⟨s, [], []⟩

end Script

end GroupAgent.Core
