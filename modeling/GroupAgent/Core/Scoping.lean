import GroupAgent.Core.Counters
import GroupAgent.Core.Watched

/-!
# Who sees a resume value

A call may supply a value for the node that an interrupted checkpoint was saved at. The loop
(`runtime.rs:369-890`) keeps it with the index of that node until the first super-step is
committed, and hands it to the `NodeContext` of that node only.

* `Rounds.scoped`: after the first wait of a run nobody sees a value, and in the first it is seen
  by at most the one node of the frontier.
* `run_demands_iff`, `run_refuses_iff`: when a call stops for want of a value, or for one too many
  (1069-1327).

Results: **`resume_value_scoped`** puts them together: a value is seen in the first wait at most,
by the node recorded as interrupted and alone there.

The log of who is waited for, and with what context, is `Watched`. Out of scope: what a node does
with its value; it may keep a copy, of which the runtime knows nothing.
-/

namespace GroupAgent.Core

open GroupAgent.Lib

variable {ν ρ : Type} {E : Env ν ρ} {g : CompiledGraph ν ρ} {ctx : RunContext}

/-! ## Executions that see no value -/

theorem Waits.mem {α : Type} {pending left : List α} {log : List (List α)}
    (h : Waits pending log left) {wait : List α} (hw : wait ∈ log) {a : α} (ha : a ∈ wait) :
    a ∈ pending := by
  induction h with
  | none => cases hw
  | wait i hi _ ih =>
    rcases List.mem_cons.mp hw with rfl | hw
    · exact ha
    · exact List.mem_of_mem_eraseIdx (ih hw)

/-- One execution is waited for once, if at all. -/
theorem Waits.single {α : Type} {a : α} {log : List (List α)} {left : List α}
    (h : Waits [a] log left) : log = [] ∧ left = [a] ∨ log = [[a]] ∧ left = [] := by
  cases h with
  | none => exact .inl ⟨rfl, rfl⟩
  | wait i hi h =>
    obtain rfl : i = 0 := Nat.lt_one_iff.mp hi
    cases h with
    | none => exact .inr ⟨rfl, rfl⟩
    | wait i hi _ => cases hi

/-- Nobody in the log sees a value. -/
def Unseen (log : List (List (NodeAttempt ν E.State E.Value))) : Prop :=
  ∀ wait ∈ log, ∀ a ∈ wait, a.context.resumeValue = none

theorem Attempts.unseen {ls : LoopState E Nat} {index : Nat} {a : NodeAttempt ν E.State E.Value}
    (h : Attempts g ctx ls index a) (hnode : ls.resumeNode = none) : a.context.resumeValue = none := by
  obtain ⟨node, step, -, rfl⟩ := h
  show (if ls.resumeNode = some index then ls.resumeValue else none) = none
  rw [hnode, if_neg (by simp)]

theorem Front.unseen {ls : LoopState E Nat} {front : List (NodeAttempt ν E.State E.Value)}
    (h : Front g ctx ls front) (hnode : ls.resumeNode = none)
    {log : List (List (NodeAttempt ν E.State E.Value))}
    {left : List (NodeAttempt ν E.State E.Value)} (hwaits : Waits front log left) :
    Unseen (E := E) log := by
  intro wait hw a ha
  obtain ⟨k, hk, rfl⟩ := List.getElem_of_mem (hwaits.mem hw ha)
  have hlen := List.Forall₂.length_eq h
  exact (List.Forall₂.get h (i := k) (by omega) hk).unseen hnode

theorem Unseen.append {log log' : List (List (NodeAttempt ν E.State E.Value))}
    (h : Unseen (E := E) log) (h' : Unseen (E := E) log') : Unseen (E := E) (log ++ log') :=
  fun wait hw => (List.mem_append.mp hw).elim (h wait) (h' wait)

/-- A run without a node to resume shows no value to anybody. -/
theorem Rounds.unseen {ls : LoopState E.watched Nat}
    {fronts log : List (List (NodeAttempt ν E.State E.Value))} (h : Rounds g ctx ls fronts log)
    (hnode : ls.resumeNode = none) : Unseen (E := E) log := by
  induction h with
  | stop => exact nofun
  | last _ hfront hwaits => exact hfront.unseen hnode hwaits
  | next _ hfront hwaits hcarried _ ih =>
    exact (hfront.unseen hnode hwaits).append (ih hcarried.resumeNode)

/-- A run that resumes its only node shows its value there, in its first wait. -/
theorem Rounds.scoped {ls : LoopState E.watched Nat}
    {fronts log : List (List (NodeAttempt ν E.State E.Value))} (h : Rounds g ctx ls fronts log)
    {index : Nat} (hl : ls.frontier = [index]) (hnode : ls.resumeNode = some index) :
    log = [] ∨ ∃ a rest, log = [a] :: rest ∧ Attempts g ctx ls index a ∧
      a.context.resumeValue = ls.resumeValue ∧ Unseen (E := E) rest := by
  have hsingle : ∀ front : List (NodeAttempt ν E.State E.Value), Front g ctx ls front →
      ∃ a, front = [a] ∧ Attempts g ctx ls index a ∧ a.context.resumeValue = ls.resumeValue := by
    intro front hfront
    unfold Front at hfront
    rw [hl] at hfront
    cases hfront with
    | cons ha hrest =>
      cases hrest
      refine ⟨_, rfl, ha, ?_⟩
      obtain ⟨node, step, -, rfl⟩ := ha
      exact if_pos hnode
  cases h with
  | stop => exact .inl rfl
  | last _ hfront hwaits =>
    obtain ⟨a, rfl, ha, hvalue⟩ := hsingle _ hfront
    rcases hwaits.single with ⟨rfl, -⟩ | ⟨rfl, -⟩
    · exact .inl rfl
    · exact .inr ⟨a, [], rfl, ha, hvalue, nofun⟩
  | next _ hfront hwaits hcarried hrest =>
    obtain ⟨a, rfl, ha, hvalue⟩ := hsingle _ hfront
    rcases hwaits.single with ⟨-, hleft⟩ | ⟨rfl, -⟩
    · cases hleft
    · exact .inr ⟨a, _, rfl, ha, hvalue, hrest.unseen hcarried.resumeNode⟩

/-! ## Asking for a value -/

section Asking

variable {call : Call E} {m : Machine E}

/-- The stops of a call whose value is missing, or not asked for. -/
def Asked : Stop → Prop
  | .error (.missingResumeValue _ _ _ _ _ _) => True
  | .error (.unexpectedResumeValue _ _ _ _) => True
  | _ => False

theorem Plain.not_asked : ∀ {e : Stop}, Plain e → ¬Asked e
  | .panic _, _ => id
  | .outOfFuel, _ => id
  | .error error, h => by
    cases error <;> first | exact h.elim | exact id

theorem fail_stops (ctx : RunContext) (error : GraphRunError) {α : Type} (m : Machine E) :
    ∃ m', (fail ctx error : M E α) m = .error (.error error) m' := by
  have h : wp (fail ctx error : M E α) (fun _ _ => False) (fun e _ => e = .error error) m := loose_fail
  cases hf : (fail ctx error : M E α) m with
  | ok a m' => exact (wp_of_ok h hf).elim
  | error e m' =>
    cases wp_of_error h hf
    exact ⟨m', rfl⟩

/-- The value is missing, or not asked for, once the frontier is found valid. -/
theorem resolveCheckpoint_asks {ctx : RunContext} {threadId : ThreadId}
    {checkpoint : Checkpoint E.Snapshot E.Value} {frontier : List Nat} (value : Option E.Value)
    (hvalid : g.validateAndResolveCheckpointFrontier checkpoint = .ok frontier) (m : Machine E) :
    (∀ interrupt, checkpoint.interrupt = some interrupt → value = none → ∃ m',
      resolveCheckpoint g ctx threadId checkpoint value m = .error (.error
        (.missingResumeValue ctx.runId threadId checkpoint.id interrupt.id interrupt.nodePath
          checkpoint.step)) m') ∧
    (checkpoint.interrupt = none → value ≠ none → ∃ m',
      resolveCheckpoint g ctx threadId checkpoint value m = .error (.error
        (.unexpectedResumeValue ctx.runId threadId checkpoint.id checkpoint.step)) m') := by
  unfold resolveCheckpoint compatibleFrontier
  rw [hvalid]
  constructor
  · rintro interrupt hi rfl
    rw [hi]
    exact fail_stops _ _ _
  · intro hi hv
    obtain ⟨v, rfl⟩ := Option.ne_none_iff_exists'.mp hv
    rw [hi]
    exact fail_stops _ _ _

/-- A call that fetched its checkpoint resolves it next. -/
theorem Call.Reads.resolves {checkpoint : Checkpoint E.Snapshot E.Value} (h : call.Reads m checkpoint) :
    ∃ ctx threadId m₁, ∀ e m',
      resolveCheckpoint g ctx threadId checkpoint call.supplied m₁ = .error e m' →
        call.run g m = .error e m' := by
  have hload : ∀ (run : RunConfig) (threadId : ThreadId) (checkpointId : CheckpointId)
      (value : Option E.Value) (ctx : RunContext) (m₁ m' : Machine E) (e : Stop),
      fetchHistorical run threadId checkpointId m = .ok (ctx, checkpoint) m₁ →
      resolveCheckpoint g ctx threadId checkpoint value m₁ = .error e m' →
      loadHistorical g run threadId checkpointId value m = .error e m' := by
    intro run threadId checkpointId value ctx m₁ m' e hfetch he
    unfold loadHistorical
    rw [bind_of_ok hfetch]
    exact bind_of_error he
  cases call with
  | invoke initialState config checkpoints => exact h.elim
  | resume config initializer =>
    obtain ⟨ctx, m₁, hfetch⟩ := h
    refine ⟨ctx, config.threadId, m₁, fun e m' he => ?_⟩
    rw [Call.run_proceed]
    refine bind_of_error ?_
    show openResume g config initializer m = _
    unfold openResume
    rw [bind_of_ok hfetch]
    exact bind_of_error he
  | replay config =>
    obtain ⟨ctx, m₁, hfetch⟩ := h
    refine ⟨ctx, config.threadId, m₁, fun e m' he => ?_⟩
    rw [Call.run_proceed]
    exact bind_of_error (bind_of_error (hload _ _ _ _ ctx m₁ m' e hfetch he))
  | fork config =>
    obtain ⟨ctx, m₁, hfetch⟩ := h
    refine ⟨ctx, config.threadId, m₁, fun e m' he => ?_⟩
    rw [Call.run_proceed]
    exact bind_of_error (bind_of_error (hload _ _ _ _ ctx m₁ m' e hfetch he))

/-- Only the opening of a call asks for a value, or refuses one. -/
theorem Call.quits_of_asked {e : Stop} (he : Asked e) {m' : Machine E}
    (h : call.run g m = .error e m') : call.Quits g m e := by
  have hS : ∀ e, Plain e → ¬Asked e := fun _ h => h.not_asked
  rw [Call.run_proceed] at h
  rcases bind_error_iff.mp h with h | ⟨p, m₁, -, h⟩
  · exact (wp_of_error (loose_steady.prepare loose_creates call) h).1
  · have hproceed := loose_steady.proceed hS (g := g) loose_saves loose_runs id id (fun _ _ _ => id)
      (fun _ => trivial) call (p := p) trivial
    exact absurd he (hproceed.of_error h).1

/-- **A value is asked for** exactly when the checkpoint is interrupted and none is supplied. -/
theorem run_demands_iff : (∃ runId threadId id interruptId node step m', call.run g m =
      .error (.error (.missingResumeValue runId threadId id interruptId node step)) m') ↔
    ∃ checkpoint frontier, call.Reads m checkpoint ∧
      g.validateAndResolveCheckpointFrontier checkpoint = .ok frontier ∧
      checkpoint.interrupt ≠ none ∧ call.supplied = none := by
  constructor
  · rintro ⟨runId, threadId, id, interruptId, node, step, m', h⟩
    cases Call.quits_of_asked (by exact trivial) h with
    | plain hplain => exact hplain.elim
    | missing hread hvalid hi hv => exact ⟨_, _, hread, hvalid, by rw [hi]; simp, hv⟩
  · rintro ⟨checkpoint, frontier, hread, hvalid, hi, hv⟩
    obtain ⟨interrupt, hi⟩ := Option.ne_none_iff_exists'.mp hi
    obtain ⟨ctx, threadId, m₁, hresolves⟩ := hread.resolves (g := g)
    obtain ⟨m', hasks⟩ := (resolveCheckpoint_asks call.supplied hvalid m₁).1 interrupt hi hv
    exact ⟨_, _, _, _, _, _, m', hresolves _ m' hasks⟩

/-- **A value is refused** exactly when the checkpoint is not interrupted. -/
theorem run_refuses_iff : (∃ runId threadId id step m', call.run g m =
      .error (.error (.unexpectedResumeValue runId threadId id step)) m') ↔
    ∃ checkpoint frontier, call.Reads m checkpoint ∧
      g.validateAndResolveCheckpointFrontier checkpoint = .ok frontier ∧
      checkpoint.interrupt = none ∧ call.supplied ≠ none := by
  constructor
  · rintro ⟨runId, threadId, id, step, m', h⟩
    cases Call.quits_of_asked (by exact trivial) h with
    | plain hplain => exact hplain.elim
    | unexpected hread hvalid hi hv => exact ⟨_, _, hread, hvalid, hi, hv⟩
  · rintro ⟨checkpoint, frontier, hread, hvalid, hi, hv⟩
    obtain ⟨ctx, threadId, m₁, hresolves⟩ := hread.resolves (g := g)
    obtain ⟨m', hasks⟩ := (resolveCheckpoint_asks call.supplied hvalid m₁).2 hi hv
    exact ⟨_, _, _, _, m', hresolves _ m' hasks⟩

end Asking

/-! ## Scoping -/

/-- The call, made from `m`, resumes the node at the path with the value. -/
def Call.Resumes (m : Machine E) (call : Call E) (path : NodePath) (value : E.Value) : Prop :=
  ∃ checkpoint interrupt, call.Reads m checkpoint ∧ checkpoint.interrupt = some interrupt ∧
    interrupt.nodePath = path ∧ call.supplied = some value

/-- What the first wait of a call may show: its value to the one node it resumes, or nothing. -/
inductive FirstWait (m : Machine E) (call : Call E) : List (NodeAttempt ν E.State E.Value) → Prop where
  | resumed {path : NodePath} {value : E.Value} {a : NodeAttempt ν E.State E.Value}
      (h : call.Resumes m path value) (hpath : a.context.nodePath = path)
      (hvalue : a.context.resumeValue = some value) : FirstWait m call [a]
  | fresh {wait : List (NodeAttempt ν E.State E.Value)} (h : ∀ path value, ¬call.Resumes m path value)
      (hvalue : ∀ a ∈ wait, a.context.resumeValue = none) : FirstWait m call wait

/-- What a call that enters its loop shows. -/
theorem Entering.scoped (hg : Compiled g) {call : Call E.watched} {m : Machine E.watched}
    {ls : LoopState E.watched Nat} (h : Entering g m call ctx ls)
    {fronts log : List (List (NodeAttempt ν E.State E.Value))} (hrounds : Rounds g ctx ls fronts log) :
    (∀ wait ∈ log.head?, FirstWait (E := E.watched) m call wait) ∧ Unseen (E := E) log.tail := by
  have hfresh : (∀ path value, ¬call.Resumes m path value) → ls.resumeNode = none →
      (∀ wait ∈ log.head?, FirstWait (E := E.watched) m call wait) ∧ Unseen (E := E) log.tail := by
    intro hresumes hnode
    have hunseen := hrounds.unseen hnode
    refine ⟨fun wait hw => .fresh hresumes (hunseen wait (List.mem_of_mem_head? hw)), ?_⟩
    exact fun wait hw => hunseen wait (List.mem_of_mem_tail hw)
  cases h.landed.lands with
  | invoke hnode _ _ =>
    refine hfresh ?_ hnode
    rintro path value ⟨checkpoint, interrupt, hread, -⟩
    exact hread.elim
  | @load _ checkpoint _ hread hcontinued =>
    rcases hcontinued.answered.node with ⟨hi, -, hnode⟩ | ⟨interrupt, v, hi, hv, hnode⟩
    · refine hfresh ?_ hnode
      rintro path value ⟨checkpoint', interrupt, hread', hi', -⟩
      rw [hread'.unique hread, hi] at hi'
      cases hi'
    · have hresolved := (validate_iff hg.indexed (unreserved hg)).mp hcontinued.answered.resolved
      obtain ⟨index, n, hl, hn, hpath⟩ := hresolved.suspended hi
      simp only at hl hnode
      rw [hl] at hnode
      rcases hrounds.scoped hl hnode with rfl | ⟨a, rest, rfl, ha, hvalue, hunseen⟩
      · exact ⟨nofun, nofun⟩
      · refine ⟨?_, hunseen⟩
        rintro _ ⟨⟩
        refine .resumed ⟨checkpoint, interrupt, hread, hi, rfl, hv⟩ ?_ ?_
        · obtain ⟨node, step, hnode', rfl⟩ := ha
          rw [hn] at hnode'
          cases hnode'
          exact hpath
        · rw [hvalue, hcontinued.value, hv]

/-- **A resume value is scoped** to the node recorded as interrupted, in its first execution: a call
shows it in its first wait at most, alone there, and nobody sees a value in any later wait. It is
asked for exactly when the checkpoint that was loaded and found valid is interrupted, and refused
exactly when it is not. -/
theorem resume_value_scoped (hg : Compiled g) (E : Env ν ρ) :
    (∀ (call : Call E.watched) (m : Machine E.watched), ∃ log,
      waits (final (call.run g) m) = waits m ++ log ∧
      (∀ wait ∈ log.head?, FirstWait (E := E.watched) m call wait) ∧
      ∀ wait ∈ log.tail, ∀ a ∈ wait, a.context.resumeValue = none) ∧
    ∀ (call : Call E) (m : Machine E),
      ((∃ runId threadId id interruptId node step m', call.run g m =
          .error (.error (.missingResumeValue runId threadId id interruptId node step)) m') ↔
        ∃ checkpoint frontier, call.Reads m checkpoint ∧
          g.validateAndResolveCheckpointFrontier checkpoint = .ok frontier ∧
          checkpoint.interrupt ≠ none ∧ call.supplied = none) ∧
      ((∃ runId threadId id step m', call.run g m =
          .error (.error (.unexpectedResumeValue runId threadId id step)) m') ↔
        ∃ checkpoint frontier, call.Reads m checkpoint ∧
          g.validateAndResolveCheckpointFrontier checkpoint = .ok frontier ∧
          checkpoint.interrupt = none ∧ call.supplied ≠ none) := by
  refine ⟨fun call m => ?_, fun call m => ⟨run_demands_iff, run_refuses_iff⟩⟩
  obtain ⟨log, hlog, rfl | ⟨ctx, ls, fronts, hentering, hrounds⟩⟩ := run_rounds g call m
  · exact ⟨[], hlog, nofun, nofun⟩
  · obtain ⟨hhead, htail⟩ := hentering.scoped hg hrounds
    exact ⟨log, hlog, hhead, htail⟩

namespace Crossroads

/-- A checkpoint that was interrupted at `a`. -/
def suspendedAtA : Checkpoint Unit Unit :=
  { checkpoint [.root ⟨"a"⟩] with interrupt := some ⟨⟨⟨5⟩⟩, .root ⟨"a"⟩, ()⟩ }

/-- A resume with a value. -/
def supplying : Call (Script.env Unit Unit).watched :=
  .resume ⟨⟨"t"⟩, .latest, .everySuperstep, ⟨10, ⟨.none, false⟩, ⟨false, none, none⟩, 10⟩, some (),
    none⟩ .ok

/-- The machine whose store holds the checkpoint, with a log of its waits. -/
def suspendedMachine : Machine (Script.env Unit Unit).watched :=
  ⟨(⟨[], some suspendedAtA⟩, []), [], []⟩

/-- The nodes of a wait, each with what it sees. -/
def seen (wait : List (NodeAttempt Unit Unit Unit)) : List (NodePath × Option Unit) :=
  wait.map fun a => (a.context.nodePath, a.context.resumeValue)

/-- Without a value the resume is stopped. With one, `a` sees it, alone, and the mounted node that is
next does not. -/
theorem resume_value_scoped_at_a : Compiled graph ∧
    (∃ runId threadId id interruptId node step m',
      call.run graph (Script.machine ⟨[], some suspendedAtA⟩) =
        .error (.error (.missingResumeValue runId threadId id interruptId node step)) m') ∧
    (waits (final (supplying.run graph) suspendedMachine)).map seen =
      [[(.root ⟨"a"⟩, some ())], [(⟨⟨[⟨"s"⟩]⟩, ⟨"x"⟩⟩, none)]] ∧
    ∀ wait ∈ (waits (final (supplying.run graph) suspendedMachine)).head?,
      FirstWait (E := (Script.env Unit Unit).watched) suspendedMachine supplying wait := by
  obtain ⟨hscoped, hasked⟩ := resume_value_scoped compiled (Script.env Unit Unit)
  obtain ⟨log, hlog, hfirst, -⟩ := hscoped supplying suspendedMachine
  refine ⟨compiled, ?_, by decide +kernel, ?_⟩
  · exact (hasked call (Script.machine ⟨[], some suspendedAtA⟩)).1.mpr
      ⟨suspendedAtA, [1], ⟨_, _, rfl⟩, rfl, nofun, rfl⟩
  · rw [hlog]
    exact hfirst

end Crossroads

end GroupAgent.Core
