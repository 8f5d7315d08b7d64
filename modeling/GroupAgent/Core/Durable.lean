import GroupAgent.Core.Calls

/-!
# What a run makes durable

A save in the log of a call is at one of three places: the empty boundary of an invocation, a
boundary that a super-step advanced to, or the boundary before a suspended node
(`EnabledCheckpoint::save`, `runtime.rs:2016-2126`, called from `invoke_internal` and
`execute_internal`). `Durable` says where, with the loop state reached there.

* `Recorded`: what the request names: the thread, the graph version, the run, and the boundary.
* `Call.Writes`: what a call has written when it ends or stops; `Call.logAfter` computes it.
* `Loadable`: a boundary of real nodes of one namespace, under counters in range.

Results:
* **`durable_of_log`**: every save of a call is durable.
* **`Durable.loadable`**: what is saved is a frontier of real nodes under counters in range.

These are about requests, whatever the store answers to them. `RoundTrip` and `Loading` take a
request through a record and back to a frontier.
-/

namespace GroupAgent.Core

open GroupAgent.Lib

variable {ν ρ : Type} {E : Env ν ρ} {g : CompiledGraph ν ρ} {call : Call E} {m : Machine E}

/-- A boundary that a call from `m` can save, with the state it is saved with and the indices of
its frontier. -/
inductive Durable (g : CompiledGraph ν ρ) (call : Call E) (m : Machine E) :
    E.State → CheckpointBoundary E.Value → List Nat → Prop where
  | empty {ls : LoopState E Nat} (hflag : call.savesEmpty = true) (hstarts : call.Starts g m ls)
      (hl : ls.frontier = []) :
      Durable g call m ls.state ⟨ls.superstep, ls.steps, [], true, none⟩ []
  | committed {ctx : RunContext} {ls : LoopState E Nat} {m₁ m₂ : Machine E} {first : Nat}
      {rest : List Nat} {state : E.State} {steps superstep : Nat} {next : List Nat}
      {boundaries : List SubgraphBoundary} {paths : List NodePath}
      (hreach : call.Reaches g m ctx (ls, m₁)) (hl : ls.frontier = first :: rest)
      (hadv : advance g.nav ctx ls first rest m₁ =
        .ok (.committed state steps superstep next boundaries) m₂)
      (hpaths : PathsOf g next paths) :
      Durable g call m state ⟨superstep, steps, paths, next.isEmpty, none⟩ next
  | suspended {ctx : RunContext} {ls : LoopState E Nat} {m₁ m₂ : Machine E} {first : Nat}
      {request : InterruptRequest E.Value} {n : CompiledNode ν ρ Nat}
      (hreach : call.Reaches g m ctx (ls, m₁)) (hl : ls.frontier = [first])
      (hadv : advance g.nav ctx ls first [] m₁ = .ok (.suspended request) m₂)
      (hn : g.items[first]? = some (.node n)) :
      Durable g call m ls.state
        ⟨ls.superstep, ls.steps, [n.path], false, some (request.intoCheckpoint n.path)⟩ [first]

/-- A request for a durable boundary. -/
structure Recorded (g : CompiledGraph ν ρ) (call : Call E) (m : Machine E)
    (request : CheckpointRequest E.Snapshot E.Value) (state : E.State) (frontier : List Nat) :
    Prop where
  snapshot : E.snapshot state = .ok request.snapshot
  version : request.graphVersion = g.version
  durable : Durable g call m state
    ⟨request.superstep, request.step, request.nextFrontier, request.completed, request.interrupt⟩
    frontier

/-! ## The saves in a log -/

/-- An attempt to save makes one request. -/
theorem SaveLog.request {c : EnabledCheckpoint} {runId : RunId} {state : E.State}
    {boundary : CheckpointBoundary E.Value} {out : Option (Checkpoint E.Snapshot E.Value)}
    {ws : List (StoreWrite E)} (h : SaveLog c runId state boundary out ws)
    {branchId : Option BranchId} {request : CheckpointRequest E.Snapshot E.Value}
    {answer : Option (Except CheckpointWriteError (Checkpoint E.Snapshot E.Value))}
    (hw : .save branchId request answer ∈ ws) : ∃ snapshot checkpointId,
      E.snapshot state = .ok snapshot ∧ request = c.build runId snapshot checkpointId boundary := by
  cases h with
  | unsent => cases hw
  | refused hsnapshot _ =>
    cases List.mem_singleton.mp hw
    exact ⟨_, _, hsnapshot, rfl⟩
  | accepted hsnapshot =>
    cases List.mem_singleton.mp hw
    exact ⟨_, _, hsnapshot, rfl⟩

theorem SaveLog.recorded {c : EnabledCheckpoint} {runId : RunId} {state : E.State}
    {boundary : CheckpointBoundary E.Value} {out : Option (Checkpoint E.Snapshot E.Value)}
    {ws : List (StoreWrite E)} (h : SaveLog c runId state boundary out ws)
    {branchId : Option BranchId} {request : CheckpointRequest E.Snapshot E.Value}
    {answer : Option (Except CheckpointWriteError (Checkpoint E.Snapshot E.Value))}
    (hw : .save branchId request answer ∈ ws) (hc : c.graphVersion = g.version)
    {frontier : List Nat} (hd : Durable g call m state boundary frontier) :
    Recorded g call m request state frontier := by
  obtain ⟨snapshot, checkpointId, hsnapshot, rfl⟩ := h.request hw
  exact ⟨hsnapshot, hc, hd⟩

/-- Checkpointing of a run is for the version of its graph. -/
def Versioned (g : CompiledGraph ν ρ) (k : RuntimeCheckpoint) : Prop :=
  ∀ c, k = .enabled c → c.graphVersion = g.version

theorem Call.Starts.versioned {ls : LoopState E Nat} (h : call.Starts g m ls) :
    Versioned g ls.checkpoints := by
  intro c hc
  cases call with
  | invoke initialState config checkpoints =>
    obtain ⟨-, -, -, hk⟩ := h
    cases checkpoints with
    | none => rw [hk] at hc; cases hc
    | some checkpoints => rw [hk] at hc; cases hc; rfl
  | resume config initializer =>
    obtain ⟨checkpoint, -, -, hk⟩ := h
    rw [hk] at hc
    cases hc
    rfl
  | replay config =>
    obtain ⟨checkpoint, -, -, hk⟩ := h
    rw [hk] at hc
    cases hc
  | fork config =>
    obtain ⟨checkpoint, -, -, -, hk⟩ := h
    rw [hk] at hc
    cases hc
    rfl

theorem Versioned.after {c : EnabledCheckpoint} (h : Versioned g (.enabled c)) (id : CheckpointId) :
    Versioned g (.enabled (c.after id)) := by
  rintro c' ⟨⟩
  exact h c rfl

theorem EnterLog.versioned {flag : Bool} {runId : RunId} {ls : LoopState E Nat}
    {k : RuntimeCheckpoint} {ws : List (StoreWrite E)} (h : EnterLog flag runId ls (some k) ws)
    (hv : Versioned g ls.checkpoints) : Versioned g k := by
  generalize hk : some k = k' at h
  cases h with
  | nothing =>
    cases hk
    exact hv
  | @empty c out ws hflag hc hl hlog =>
    cases out with
    | none => cases hk
    | some chk =>
      cases hk
      rw [hc] at hv
      exact hv.after chk.id

theorem Adds.versioned {ctx : RunContext} {ls : LoopState E Nat} {k : RuntimeCheckpoint}
    {ws : List (StoreWrite E)} (h : Adds g ctx ls m (some k) ws)
    (hv : Versioned g ls.checkpoints) : Versioned g k := by
  generalize hk : some k = k' at h
  have hafter : ∀ {c : EnabledCheckpoint} {out : Option (Checkpoint E.Snapshot E.Value)},
      ls.checkpoints = .enabled c →
      some k = out.map (fun chk => RuntimeCheckpoint.enabled (c.after chk.id)) → Versioned g k := by
    intro c out hc hk
    cases out with
    | none => cases hk
    | some chk =>
      cases hk
      rw [hc] at hv
      exact hv.after chk.id
  cases h with
  | nothing =>
    cases hk
    exact hv
  | boundary hc => exact hafter hc hk
  | interrupt hc => exact hafter hc hk

section Log

variable {branchId : Option BranchId} {request : CheckpointRequest E.Snapshot E.Value}
  {answer : Option (Except CheckpointWriteError (Checkpoint E.Snapshot E.Value))}

theorem BranchLog.noSave {ws : List (StoreWrite E)} (h : BranchLog call ws) :
    StoreWrite.save branchId request answer ∉ ws := by
  cases h with
  | none => simp
  | branch => simp

theorem EnterLog.recorded {runId : RunId} {ls : LoopState E Nat} {k : Option RuntimeCheckpoint}
    {ws : List (StoreWrite E)} (h : EnterLog call.savesEmpty runId ls k ws)
    (hstarts : call.Starts g m ls) (hw : .save branchId request answer ∈ ws) :
    ∃ state frontier, Recorded g call m request state frontier := by
  cases h with
  | nothing => cases hw
  | empty hflag hc hl hlog =>
    exact ⟨_, _, hlog.recorded hw (hstarts.versioned _ hc) (.empty hflag hstarts hl)⟩

theorem Adds.recorded {ctx : RunContext} {ls : LoopState E Nat} {m₁ : Machine E}
    {k : Option RuntimeCheckpoint} {ws : List (StoreWrite E)} (h : Adds g ctx ls m₁ k ws)
    (hreach : call.Reaches g m ctx (ls, m₁)) (hv : Versioned g ls.checkpoints)
    (hw : .save branchId request answer ∈ ws) :
    ∃ state frontier, Recorded g call m request state frontier := by
  cases h with
  | nothing => cases hw
  | boundary hc hl hadv hpaths hlog =>
    exact ⟨_, _, hlog.recorded hw (hv _ hc) (.committed hreach hl hadv hpaths)⟩
  | interrupt hc hl hadv hn hlog =>
    exact ⟨_, _, hlog.recorded hw (hv _ hc) (.suspended hreach hl hadv hn)⟩

theorem LoopAdds.recorded {ctx : RunContext} {ls : LoopState E Nat} {m₁ : Machine E}
    {ws : List (StoreWrite E)} (h : LoopAdds g ctx ls m₁ ws)
    (hreach : call.Reaches g m ctx (ls, m₁)) (hv : Versioned g ls.checkpoints)
    (hw : .save branchId request answer ∈ ws) :
    ∃ state frontier, Recorded g call m request state frontier := by
  induction h with
  | done => cases hw
  | last h => exact h.recorded hreach hv hw
  | @step ls ls' m₁ m₂ ws ws' hturn h hrest ih =>
    rcases List.mem_append.mp hw with hw | hw
    · exact h.recorded hreach hv hw
    · obtain ⟨ls₀, m₀, henter, hturns⟩ := hreach
      exact ih ⟨ls₀, m₀, henter, hturns.tail hturn⟩ (h.versioned hv) hw

/-- **Every save of a call is of a durable boundary.** -/
theorem durable_of_log {ws : List (StoreWrite E)} (h : CallLog g call m ws)
    (hw : .save branchId request answer ∈ ws) :
    ∃ state frontier, Recorded g call m request state frontier := by
  cases h with
  | opening h =>
    cases h with
    | opening hbranch => exact absurd hw hbranch.noSave
    | entering hstarts hbranch henter =>
      rcases List.mem_append.mp hw with hw | hw
      · exact absurd hw hbranch.noSave
      · exact henter.recorded hstarts hw
  | looping hstarts henter hls hbranch hsave hloop =>
    rcases List.mem_append.mp hw with hw | hw
    · rcases List.mem_append.mp hw with hw | hw
      · exact absurd hw hbranch.noSave
      · exact hsave.recorded hstarts hw
    · exact hloop.recorded ⟨_, _, henter, .refl⟩ (hsave.versioned hstarts.versioned) hw

end Log

/-! ## The log of a call -/

section Writes

variable {tol : Tolerance}

/-- A call from `m` adds `ws` to the log, however it ends. -/
def Call.Writes (g : CompiledGraph ν ρ) (call : Call E) (m : Machine E) (ws : List (StoreWrite E)) :
    Prop :=
  (∃ outcome m', call.run g m = .ok outcome m' ∧ m'.writes = m.writes ++ ws) ∨
    ∃ e m', call.run g m = .error e m' ∧ m'.writes = m.writes ++ ws

/-- The log after a call. -/
def Call.logAfter (g : CompiledGraph ν ρ) (call : Call E) (m : Machine E) : List (StoreWrite E) :=
  match call.run g m with
  | .ok _ m' => m'.writes
  | .error _ m' => m'.writes

theorem Call.Writes.of_empty (hm : m.writes = []) : call.Writes g m (call.logAfter g m) := by
  unfold Call.Writes Call.logAfter
  rw [hm]
  cases hrun : call.run g m with
  | ok outcome m' => exact .inl ⟨outcome, m', rfl, rfl⟩
  | error e m' => exact .inr ⟨e, m', rfl, rfl⟩

/-- Every loop state counts when overflows are tolerated. -/
theorem counts_tolerated (htol : tol.overflow) :
    ∀ ctx p, call.Reaches g m ctx p → Counts tol p.1 := fun _ _ _ => .inl htol

theorem Call.Writes.log (hg : Compiled g) (hs : Sound g tol call m) (htol : tol.overflow)
    {ws : List (StoreWrite E)} (h : call.Writes g m ws) : CallLog g call m ws := by
  rcases h with ⟨outcome, m', hrun, hw⟩ | ⟨e, m', hrun, hw⟩
  · obtain ⟨ws', hlog, hw'⟩ := wp_of_ok (run_spec hg hs (counts_tolerated htol)) hrun
    rwa [List.append_cancel_left (hw.symm.trans hw')]
  · obtain ⟨-, ws', hlog, hw'⟩ := wp_of_error (run_spec hg hs (counts_tolerated htol)) hrun
    rwa [List.append_cancel_left (hw.symm.trans hw')]

end Writes

/-! ## What is saved -/

/-- A saved boundary: its paths are those of the frontier, its counters are in range, and it is
complete when nothing is left to execute. -/
structure Loadable (g : CompiledGraph ν ρ) (tol : Tolerance) {V : Type} (boundary : CheckpointBoundary V)
    (frontier : List Nat) : Prop where
  nodes : ∃ seed, Watch g tol seed ∧ Frontier g seed frontier
  paths : PathsOf g frontier boundary.nextFrontier
  steps_le : boundary.step ≤ usizeMax
  superstep_le : boundary.superstep ≤ usizeMax
  completed : boundary.completed = frontier.isEmpty
  interrupt : ∀ interrupt ∈ boundary.interrupt, boundary.nextFrontier = [interrupt.nodePath]

/-- **What is saved is loadable.** -/
theorem Durable.loadable {tol : Tolerance} (hg : Compiled g) (hs : Sound g tol call m)
    {state : E.State} {boundary : CheckpointBoundary E.Value}
    {frontier : List Nat} (h : Durable g call m state boundary frontier) :
    Loadable g tol boundary frontier := by
  have hempty : Watch g tol (some []) := by
    refine ⟨?_, .inr ⟨_, rfl⟩⟩
    rintro s ⟨⟩
    exact together_nodes hg
  cases h with
  | @empty ls hflag hstarts hl =>
    cases call with
    | invoke initialState config checkpoints =>
      obtain ⟨-, hsteps, hsuper, -⟩ := hstarts
      refine ⟨⟨some [], hempty, Frontier.nil⟩, .nil, ?_, ?_, rfl, by simp⟩
      · simp only [hsteps]
        exact Nat.zero_le _
      · simp only [hsuper]
        exact Nat.zero_le _
    | resume config initializer => cases hflag
    | replay config => cases hflag
    | fork config => cases hflag
  | @committed ctx ls m₁ m₂ first rest state steps superstep next boundaries paths hreach hl hadv hpaths =>
    obtain ⟨seed, hnodes, hvalid⟩ := hreach.valid hg hs
    have hfit : Fits E g .all ctx := ⟨.inl trivial, .inl trivial⟩
    have hadvanced := ((quiet_advance (placed hg) hnodes.relax hfit hl hvalid.frontier hvalid.room
      (.inl trivial)).of_ok hadv).1
    cases hadvanced with
    | committed hsteps hsuper happlies hroom hnext =>
      exact ⟨⟨seed, hnodes, hnext⟩, hpaths, hroom.steps_le.trans hroom.limit_le, hroom.superstep_le, rfl, by simp⟩
  | @suspended ctx ls m₁ m₂ first request n hreach hl hadv hn =>
    obtain ⟨seed, hnodes, hvalid⟩ := hreach.valid hg hs
    have hfrontier := hvalid.frontier
    simp only at hfrontier
    rw [hl] at hfrontier
    refine ⟨⟨seed, hnodes, hfrontier⟩, .cons ⟨n, hn, rfl⟩ .nil, ?_, hvalid.room.superstep_le, rfl, ?_⟩
    · exact hvalid.room.steps_le.trans hvalid.room.limit_le
    · rintro interrupt ⟨⟩
      rfl

end GroupAgent.Core
