import Mathlib.Algebra.GroupWithZero.Nat
import Mathlib.Order.Monotone.Basic

/-!
# The child of a stdio session

Model of `StdioChildGuard` (`session.rs:115-120`, `terminate` 160-198, `kill_and_wait` 200-215 and
its `Drop` 219-236) of `crates/group-agent-mcp/src`. Times are in nanoseconds.

* `Env` is what the clock and the operating system answer: the readings of the clock, in order, the
  answer of each `try_wait`, and those of `kill` and `wait`. `maxInstant` is the last time that an
  `Instant` can represent, which bounds the readings.
* A run is what was asked, in order, with the answers.
* The loop has no bound of its own: `fuel` is how many polls it may take.

Results: **`termination_iff`**: when termination respects the grace period.
`longest_grace_kills_at_once` is a period that no `Instant` ends, which the source takes for none
at all.

Out of scope: the panic that tests arm, and how long a `sleep` really takes: the next reading of
the clock is any later one.
-/

namespace GroupAgent.Mcp.Child

/-! ## The guard -/

/-- `Duration::MAX`. -/
def maxDuration : Nat := 2 ^ 64 * 10 ^ 9 - 1

/-- A `Duration`. -/
structure Grace where
  nanos : Nat
  le_max : nanos ≤ maxDuration

/-- The guard of a child, armed as long as it has the child. -/
structure StdioChildGuard where
  armed : Bool
  shutdownGrace : Grace

/-- An answer of `try_wait`, with the error that it returns. -/
inductive Poll where
  | exited
  | running
  | failed (source : String)
  deriving DecidableEq

/-- What the clock and the operating system answer. -/
structure Env where
  start : Nat
  now : Nat → Nat
  tryWait : Nat → Poll
  kill : Except String Unit
  wait : Except String Unit
  maxInstant : Nat
  start_le : start ≤ now 0
  now_mono : Monotone now
  now_le : ∀ i, now i ≤ maxInstant

/-- What a guard does. -/
inductive Event where
  | read (time : Nat)
  | polled (answer : Poll)
  | slept (time : Nat)
  | killed (answer : Except String Unit)
  | waited (answer : Except String Unit)

/-- What a guard did, what it returned, and what is left of it. -/
structure Run where
  events : List Event
  result : Except String Unit
  guard : StdioChildGuard

def Run.after (events : List Event) (run : Run) : Run := { run with events := events ++ run.events }

/-- `first_error.map_or(Ok(()), Err)`. -/
def resultOf : Option String → Except String Unit
  | none => .ok ()
  | some source => .error source

namespace StdioChildGuard

/-- The guard without its child. -/
def disarm (guard : StdioChildGuard) : StdioChildGuard := { guard with armed := false }

/-- `kill_and_wait`: the first of the errors is returned. -/
def killAndWait (env : Env) (guard : StdioChildGuard) (firstError : Option String) : Run :=
  if guard.armed then
    let killError : Option String :=
      match env.kill with
      | .ok () => firstError
      | .error source => firstError.or (some source)
    let events := [.killed env.kill, .waited env.wait]
    match env.wait with
    | .ok () => ⟨events, resultOf killError, guard.disarm⟩
    | .error source => ⟨events, resultOf (killError.or (some source)), guard⟩
  else ⟨[], resultOf firstError, guard⟩

/-- `Instant::checked_add`. -/
def checkedAdd (env : Env) (time duration : Nat) : Option Nat :=
  if time + duration ≤ env.maxInstant then some (time + duration) else none

/-- The loop of `terminate`, from poll `i` on. -/
def terminateLoop (env : Env) (guard : StdioChildGuard) (deadline : Option Nat) :
    Nat → Nat → Option Run
  | 0, _ => none
  | fuel + 1, i =>
    if guard.armed then
      let poll : Event := .polled (env.tryWait i)
      match env.tryWait i with
      | .exited => some ⟨[poll], .ok (), guard.disarm⟩
      | .failed source => some ((killAndWait env guard (some source)).after [poll])
      | .running =>
        match deadline with
        | none => some ((killAndWait env guard none).after [poll])
        | some deadline =>
          let now := env.now i
          if deadline ≤ now then some ((killAndWait env guard none).after [poll, .read now])
          else
            (terminateLoop env guard (some deadline) fuel (i + 1)).map
              (Run.after [poll, .read now, .slept (min (deadline - now) (10 * 10 ^ 6))])
    else some ⟨[], .ok (), guard⟩

/-- `terminate`, if it returns after at most `fuel` polls. -/
def terminate (env : Env) (guard : StdioChildGuard) (fuel : Nat) : Option Run :=
  (terminateLoop env guard (checkedAdd env env.start guard.shutdownGrace.nanos) fuel 0).map
    (Run.after [.read env.start])

/-- `Drop`: a child that is left is killed, and a thread, where one can be spawned, waits for it. -/
def drop (guard : StdioChildGuard) (kill : Except String Unit)
    (reaped : Option (Except String Unit)) : List Event :=
  if guard.armed then
    .killed kill :: match reaped with
      | none => []
      | some answer => [.waited answer]
  else []

end StdioChildGuard

/-! ## What termination says it does -/

section Law

variable (env : Env) (guard : StdioChildGuard)

/-- The time from which a running child may be killed, as an exact time. -/
def deadlineOf : Nat := env.start + guard.shutdownGrace.nanos

/-- An answer that confirms the exit of the child. -/
def Confirms : Event → Prop
  | .polled .exited => True
  | .waited (.ok ()) => True
  | _ => False

/-- A run that respects the grace period. -/
structure Respects (run : Run) : Prop where
  /-- A child is killed after an error, or after it was found running and the time had come. -/
  kills : ∀ pre answer post, run.events = pre ++ .killed answer :: post →
    (∃ pre' source, pre = pre' ++ [.polled (.failed source)]) ∨
      ∃ pre' time, pre = pre' ++ [.polled .running, .read time] ∧ deadlineOf env guard ≤ time
  /-- No child is killed whose exit was confirmed. -/
  spares : ∀ pre answer post, run.events = pre ++ .killed answer :: post → ∀ e ∈ pre, ¬Confirms e
  /-- An exit that is observed is the end. -/
  stops : ∀ pre post, run.events = pre ++ .polled .exited :: post → post = [] ∧ run.result = .ok ()
  /-- When the time has come, the child is killed once, and waited for. -/
  ends : ∀ pre time post, run.events = pre ++ .polled .running :: .read time :: post →
    deadlineOf env guard ≤ time → post = [.killed env.kill, .waited env.wait]
  /-- The guard is disarmed when an exit was confirmed. -/
  disarms : guard.armed = true → (run.guard.armed = false ↔ ∃ e ∈ run.events, Confirms e)
  /-- Dropping what is left kills a child whose exit was not confirmed, and no other. -/
  drops : guard.armed = true → ∀ kill reaped,
    ((∃ answer, .killed answer ∈ run.guard.drop kill reaped) ↔ ∀ e ∈ run.events, ¬Confirms e)

/-- Termination respects the grace period, and returns when there is an end to wait for. -/
structure Terminates : Prop where
  respects : ∀ fuel run, guard.terminate env fuel = some run → Respects env guard run
  returns : (∃ i, env.tryWait i ≠ .running ∨ deadlineOf env guard ≤ env.now i) →
    ∃ fuel run, guard.terminate env fuel = some run

end Law

/-! ## The runs -/

section Runs

variable {env : Env} {guard : StdioChildGuard}

/-- The runs of the loop, from poll `i` on, when the time to kill is representable. -/
inductive Loops (env : Env) (guard : StdioChildGuard) : Nat → Run → Prop
  | exited {i} : env.tryWait i = .exited →
      Loops env guard i ⟨[.polled .exited], .ok (), guard.disarm⟩
  | failed {i source} : env.tryWait i = .failed source →
      Loops env guard i ((guard.killAndWait env (some source)).after [.polled (.failed source)])
  | late {i} : env.tryWait i = .running → deadlineOf env guard ≤ env.now i →
      Loops env guard i
        ((guard.killAndWait env none).after [.polled .running, .read (env.now i)])
  | early {i run} (nap) : env.tryWait i = .running → env.now i < deadlineOf env guard →
      Loops env guard (i + 1) run →
        Loops env guard i (run.after [.polled .running, .read (env.now i), .slept nap])

theorem loops_of_some (harmed : guard.armed = true) : ∀ {fuel i : Nat} {run : Run},
    guard.terminateLoop env (some (deadlineOf env guard)) fuel i = some run →
      Loops env guard i run := by
  intro fuel
  induction fuel with
  | zero =>
    intro i run h
    cases h
  | succ fuel ih =>
    intro i run h
    unfold StdioChildGuard.terminateLoop at h
    rw [if_pos harmed] at h
    cases hpoll : env.tryWait i with
    | exited =>
      simp only [hpoll] at h
      cases h
      exact .exited hpoll
    | failed source =>
      simp only [hpoll] at h
      cases h
      exact .failed hpoll
    | running =>
      simp only [hpoll] at h
      by_cases hlate : deadlineOf env guard ≤ env.now i
      · rw [if_pos hlate] at h
        cases h
        exact .late hpoll hlate
      · rw [if_neg hlate] at h
        obtain ⟨rest, hrest, rfl⟩ := Option.map_eq_some_iff.mp h
        exact .early _ hpoll (Nat.lt_of_not_le hlate) (ih hrest)

/-- A loop that has something to wait for returns. -/
theorem exists_loop (harmed : guard.armed = true) : ∀ {n i : Nat},
    (env.tryWait (i + n) ≠ .running ∨ deadlineOf env guard ≤ env.now (i + n)) →
      ∃ run, guard.terminateLoop env (some (deadlineOf env guard)) (n + 1) i = some run := by
  intro n
  induction n with
  | zero =>
    intro i h
    unfold StdioChildGuard.terminateLoop
    rw [if_pos harmed]
    rw [Nat.add_zero] at h
    cases hpoll : env.tryWait i with
    | exited => exact ⟨_, rfl⟩
    | failed source => exact ⟨_, rfl⟩
    | running =>
      simp only
      rw [if_pos (h.resolve_left fun hne => hne hpoll)]
      exact ⟨_, rfl⟩
  | succ n ih =>
    intro i h
    unfold StdioChildGuard.terminateLoop
    rw [if_pos harmed]
    cases hpoll : env.tryWait i with
    | exited => exact ⟨_, rfl⟩
    | failed source => exact ⟨_, rfl⟩
    | running =>
      simp only
      by_cases hlate : deadlineOf env guard ≤ env.now i
      · rw [if_pos hlate]
        exact ⟨_, rfl⟩
      · rw [if_neg hlate]
        rw [← Nat.add_assoc, Nat.add_right_comm] at h
        obtain ⟨run, hrun⟩ := ih h
        exact ⟨_, by rw [hrun]; rfl⟩

/-- Where an event is that is not among the first ones. -/
theorem split_after {es l pre post : List Event} {x : Event} (h : es ++ l = pre ++ x :: post)
    (hx : x ∉ es) : ∃ pre', pre = es ++ pre' ∧ l = pre' ++ x :: post := by
  rcases List.append_eq_append_iff.mp h with ⟨pre', hpre, hl⟩ | ⟨rest, hes, hrest⟩
  · exact ⟨pre', hpre, hl⟩
  · cases rest with
    | nil => exact ⟨[], by simpa using hes.symm, by simpa using hrest.symm⟩
    | cons y rest =>
      obtain rfl : x = y := (List.cons.inj hrest).1
      exact absurd (hes ▸ List.mem_append_right pre List.mem_cons_self) hx

theorem drop_kills {guard : StdioChildGuard} {kill : Except String Unit}
    {reaped : Option (Except String Unit)} :
    (∃ answer, .killed answer ∈ guard.drop kill reaped) ↔ guard.armed = true := by
  unfold StdioChildGuard.drop
  by_cases harmed : guard.armed = true
  · simp [harmed]
  · simp [harmed]

section Killed

variable (harmed : guard.armed = true) (firstError : Option String)
include harmed

theorem killAndWait_events : (guard.killAndWait env firstError).events =
    [.killed env.kill, .waited env.wait] := by
  unfold StdioChildGuard.killAndWait
  rw [if_pos harmed]
  dsimp only
  split <;> rfl

theorem killAndWait_armed :
    (guard.killAndWait env firstError).guard.armed = false ↔ Confirms (.waited env.wait) := by
  unfold StdioChildGuard.killAndWait
  rw [if_pos harmed]
  dsimp only
  cases env.wait with
  | ok _ => exact ⟨fun _ => trivial, fun _ => rfl⟩
  | error source => exact ⟨fun h => absurd harmed (ne_true_of_eq_false h), False.elim⟩

/-- A child that is killed after an error, or when the time has come. -/
theorem respects_killed {es : List Event} (hes : (∃ source, es = [.polled (.failed source)]) ∨
    ∃ time, es = [.polled .running, .read time] ∧ deadlineOf env guard ≤ time) :
    Respects env guard ((guard.killAndWait env firstError).after es) := by
  have hevents : ((guard.killAndWait env firstError).after es).events =
      es ++ [.killed env.kill, .waited env.wait] := by
    rw [← killAndWait_events harmed firstError]
    rfl
  have hcalm : ∀ e ∈ es, ¬Confirms e ∧ e ≠ .polled .exited ∧ ∀ answer, e ≠ .killed answer := by
    rcases hes with ⟨source, rfl⟩ | ⟨time, rfl, -⟩ <;> simp [Confirms]
  have hpre : ∀ {pre answer post}, es ++ [.killed env.kill, .waited env.wait] =
      pre ++ .killed answer :: post → pre = es := by
    intro pre answer post h
    obtain ⟨pre', rfl, hrest⟩ := split_after h fun hmem => (hcalm _ hmem).2.2 answer rfl
    rcases pre' with _ | ⟨a, _ | ⟨b, pre'⟩⟩
    · exact List.append_nil es
    · simp at hrest
    · simp at hrest
  have hconfirms : (∃ e ∈ es ++ [.killed env.kill, .waited env.wait], Confirms e) ↔
      Confirms (.waited env.wait) := by
    constructor
    · rintro ⟨e, he, hconfirms⟩
      rcases List.mem_append.mp he with he | he
      · exact absurd hconfirms (hcalm e he).1
      · rcases List.mem_cons.mp he with rfl | he
        · exact hconfirms.elim
        · rwa [List.mem_singleton.mp he] at hconfirms
    · exact fun h => ⟨_, by simp, h⟩
  have hdisarmed : ((guard.killAndWait env firstError).after es).guard.armed = false ↔
      Confirms (.waited env.wait) := killAndWait_armed harmed firstError
  refine ⟨?_, ?_, ?_, ?_, fun _ => ?_, fun _ kill reaped => ?_⟩ <;> rw [hevents]
  · rintro pre answer post h
    rw [hpre h]
    rcases hes with ⟨source, rfl⟩ | ⟨time, rfl, hlate⟩
    · exact .inl ⟨[], source, rfl⟩
    · exact .inr ⟨[], time, rfl, hlate⟩
  · rintro pre answer post h e he
    rw [hpre h] at he
    exact (hcalm e he).1
  · intro pre post h
    have hmem : Event.polled .exited ∈ es ++ [.killed env.kill, .waited env.wait] := by
      rw [h]
      simp
    rcases List.mem_append.mp hmem with hmem | hmem
    · exact absurd rfl (hcalm _ hmem).2.1
    · simp at hmem
  · intro pre time post h hlate
    rcases hes with ⟨source, rfl⟩ | ⟨time', rfl, hlate'⟩
    · rcases pre with _ | ⟨a, _ | ⟨b, _ | ⟨c, pre⟩⟩⟩ <;> simp at h
    · rcases pre with _ | ⟨a, _ | ⟨b, _ | ⟨c, _ | ⟨d, pre⟩⟩⟩⟩ <;> simp at h
      exact h.2.symm
  · rw [hdisarmed, hconfirms]
  · rw [drop_kills, ← Bool.not_eq_false, hdisarmed, ← hconfirms, not_exists]
    exact forall_congr' fun e => not_and

end Killed

/-- An exit that is observed at a poll. -/
theorem respects_exited : Respects env guard ⟨[.polled .exited], .ok (), guard.disarm⟩ := by
  refine ⟨?_, ?_, ?_, ?_, fun _ => ?_, fun _ kill reaped => ?_⟩
  · rintro (_ | ⟨a, _ | ⟨b, pre⟩⟩) answer post h <;> simp at h
  · rintro (_ | ⟨a, _ | ⟨b, pre⟩⟩) answer post h <;> simp at h
  · rintro (_ | ⟨a, _ | ⟨b, pre⟩⟩) post h
    · exact ⟨by simpa using h, rfl⟩
    · simp at h
    · simp at h
  · rintro (_ | ⟨a, _ | ⟨b, pre⟩⟩) time post h <;> simp at h
  · exact ⟨fun _ => ⟨_, List.mem_singleton_self _, trivial⟩, fun _ => rfl⟩
  · rw [drop_kills]
    exact ⟨fun h => absurd h Bool.false_ne_true, fun h => absurd trivial (h _ (List.mem_singleton_self _))⟩

/-- What is done before a run that respects the grace period, and is neither a kill nor an exit. -/
theorem Respects.after {run : Run} (h : Respects env guard run) {es : List Event}
    (hcalm : ∀ e ∈ es, ¬Confirms e ∧ e ≠ .polled .exited ∧ ∀ answer, e ≠ .killed answer)
    (hends : ∀ {pre time post}, es ++ run.events = pre ++ .polled .running :: .read time :: post →
      deadlineOf env guard ≤ time →
        ∃ pre', run.events = pre' ++ .polled .running :: .read time :: post) :
    Respects env guard (run.after es) := by
  have hconfirms : (∃ e ∈ es ++ run.events, Confirms e) ↔ ∃ e ∈ run.events, Confirms e := by
    constructor
    · rintro ⟨e, he, hconfirms⟩
      rcases List.mem_append.mp he with he | he
      · exact absurd hconfirms (hcalm e he).1
      · exact ⟨e, he, hconfirms⟩
    · exact fun ⟨e, he, hconfirms⟩ => ⟨e, List.mem_append_right es he, hconfirms⟩
  refine ⟨?_, ?_, ?_, ?_, fun harmed => ?_, fun harmed kill reaped => ?_⟩
  · intro pre answer post heq
    obtain ⟨pre', rfl, hrest⟩ := split_after heq fun hmem => (hcalm _ hmem).2.2 answer rfl
    rcases h.kills pre' answer post hrest with ⟨pre'', source, rfl⟩ | ⟨pre'', time, rfl, hlate⟩
    · exact .inl ⟨es ++ pre'', source, (List.append_assoc ..).symm⟩
    · exact .inr ⟨es ++ pre'', time, (List.append_assoc ..).symm, hlate⟩
  · intro pre answer post heq e he
    obtain ⟨pre', rfl, hrest⟩ := split_after heq fun hmem => (hcalm _ hmem).2.2 answer rfl
    rcases List.mem_append.mp he with he | he
    · exact (hcalm e he).1
    · exact h.spares pre' answer post hrest e he
  · intro pre post heq
    obtain ⟨pre', rfl, hrest⟩ := split_after heq fun hmem => (hcalm _ hmem).2.1 rfl
    exact h.stops pre' post hrest
  · intro pre time post heq hlate
    obtain ⟨pre', hrest⟩ := hends heq hlate
    exact h.ends pre' time post hrest hlate
  · exact (h.disarms harmed).trans hconfirms.symm
  · refine (h.drops harmed kill reaped).trans ?_
    show (∀ e ∈ run.events, ¬Confirms e) ↔ ∀ e ∈ es ++ run.events, ¬Confirms e
    have hnot := not_congr hconfirms
    simpa only [not_exists, not_and] using hnot.symm

/-- Every run of the loop respects the grace period. -/
theorem Loops.respects (harmed : guard.armed = true) {i : Nat} {run : Run}
    (h : Loops env guard i run) : Respects env guard run := by
  induction h with
  | exited _ => exact respects_exited
  | failed _ => exact respects_killed harmed _ (.inl ⟨_, rfl⟩)
  | late _ hlate => exact respects_killed harmed _ (.inr ⟨_, rfl, hlate⟩)
  | early nap hpoll hearly _ ih =>
    refine ih.after (by simp [Confirms]) fun {pre time post} heq hlate => ?_
    -- the reading before the time is not the one that ends the wait
    rcases pre with _ | ⟨a, _ | ⟨b, _ | ⟨c, pre⟩⟩⟩
    · simp only [List.nil_append, List.cons_append, List.cons.injEq, Event.read.injEq,
        true_and] at heq
      exact absurd hlate (Nat.not_le.mpr (heq.1 ▸ hearly))
    · simp at heq
    · simp at heq
    · exact ⟨pre, (List.cons.inj (List.cons.inj (List.cons.inj heq).2).2).2⟩

/-- The first reading of the clock changes nothing. -/
theorem Respects.after_read {run : Run} (h : Respects env guard run) (time : Nat) :
    Respects env guard (run.after [.read time]) := by
  refine h.after (by simp [Confirms]) fun {pre later post} heq _ => ?_
  cases pre with
  | nil => simp at heq
  | cons a pre => exact ⟨pre, (List.cons.inj heq).2⟩

/-- A first poll that finds no running child decides, whatever the time. -/
theorem loops_of_first (harmed : guard.armed = true) (hfirst : env.tryWait 0 ≠ .running)
    (deadline : Option Nat) (fuel : Nat) :
    ∃ run, guard.terminateLoop env deadline (fuel + 1) 0 = some run ∧ Loops env guard 0 run := by
  unfold StdioChildGuard.terminateLoop
  rw [if_pos harmed]
  cases hpoll : env.tryWait 0 with
  | exited => exact ⟨_, rfl, .exited hpoll⟩
  | failed source => exact ⟨_, rfl, .failed hpoll⟩
  | running => exact absurd hpoll hfirst

/-- A guard without a child has nothing to do. -/
theorem terminates_of_disarmed (hdisarmed : guard.armed = false) : Terminates env guard := by
  have hloop : ∀ deadline fuel i,
      guard.terminateLoop env deadline (fuel + 1) i = some ⟨[], .ok (), guard⟩ := by
    intro deadline fuel i
    unfold StdioChildGuard.terminateLoop
    rw [if_neg (by simp [hdisarmed])]
  constructor
  · intro fuel run h
    obtain ⟨rest, hrest, rfl⟩ := Option.map_eq_some_iff.mp h
    cases fuel with
    | zero => cases hrest
    | succ fuel =>
      rw [hloop] at hrest
      cases hrest
      have hnothing : Respects env guard ⟨[], .ok (), guard⟩ := by
        refine ⟨?_, ?_, ?_, ?_, fun h => ?_, fun h => ?_⟩
        · intro pre answer post heq
          simp at heq
        · intro pre answer post heq
          simp at heq
        · intro pre post heq
          simp at heq
        · intro pre time post heq
          simp at heq
        · rw [hdisarmed] at h
          cases h
        · rw [hdisarmed] at h
          cases h
      exact hnothing.after_read _
  · exact fun _ => ⟨1, _, by unfold StdioChildGuard.terminate; rw [hloop]; rfl⟩

theorem terminates_of_representable (hlimit : deadlineOf env guard ≤ env.maxInstant) :
    Terminates env guard := by
  by_cases harmed : guard.armed = true
  · have hdeadline : StdioChildGuard.checkedAdd env env.start guard.shutdownGrace.nanos =
        some (deadlineOf env guard) := if_pos hlimit
    unfold deadlineOf at hdeadline
    constructor
    · intro fuel run h
      unfold StdioChildGuard.terminate at h
      rw [hdeadline] at h
      obtain ⟨rest, hrest, rfl⟩ := Option.map_eq_some_iff.mp h
      exact ((loops_of_some harmed hrest).respects harmed).after_read _
    · rintro ⟨i, hi⟩
      rw [← Nat.zero_add i] at hi
      obtain ⟨run, hrun⟩ := exists_loop harmed hi
      refine ⟨i + 1, run.after [.read env.start], ?_⟩
      unfold StdioChildGuard.terminate
      rw [hdeadline]
      unfold deadlineOf at hrun
      rw [hrun]
      rfl
  · exact terminates_of_disarmed (eq_false_of_ne_true harmed)

theorem terminates_of_first (hfirst : env.tryWait 0 ≠ .running) : Terminates env guard := by
  by_cases harmed : guard.armed = true
  · constructor
    · intro fuel run h
      obtain ⟨rest, hrest, rfl⟩ := Option.map_eq_some_iff.mp h
      cases fuel with
      | zero => cases hrest
      | succ fuel =>
        obtain ⟨run, hrun, hloops⟩ := loops_of_first harmed hfirst _ fuel
        rw [hrun] at hrest
        cases hrest
        exact (hloops.respects harmed).after_read _
    · intro _
      obtain ⟨run, hrun, -⟩ := loops_of_first harmed hfirst
        (StdioChildGuard.checkedAdd env env.start guard.shutdownGrace.nanos) 0
      refine ⟨1, run.after [.read env.start], ?_⟩
      unfold StdioChildGuard.terminate
      rw [hrun]
      rfl
  · exact terminates_of_disarmed (eq_false_of_ne_true harmed)

/-- A time that no `Instant` represents is treated as if it had come. -/
theorem killed_at_once (harmed : guard.armed = true) (hlimit : env.maxInstant < deadlineOf env guard)
    (hrunning : env.tryWait 0 = .running) : ∃ run, guard.terminate env 1 = some run ∧
      run.events = [.read env.start, .polled .running, .killed env.kill, .waited env.wait] := by
  have hdeadline : StdioChildGuard.checkedAdd env env.start guard.shutdownGrace.nanos = none :=
    if_neg (Nat.not_le.mpr hlimit)
  have hloop : guard.terminateLoop env none 1 0 =
      some ((guard.killAndWait env none).after [.polled .running]) := by
    unfold StdioChildGuard.terminateLoop
    rw [if_pos harmed]
    simp only [hrunning]
  refine ⟨((guard.killAndWait env none).after [.polled .running]).after [.read env.start], ?_, ?_⟩
  · unfold StdioChildGuard.terminate
    rw [hdeadline, hloop]
    rfl
  · show [.read env.start] ++ ([.polled .running] ++ (guard.killAndWait env none).events) = _
    rw [killAndWait_events harmed]
    rfl

theorem not_terminates (harmed : guard.armed = true) (hlimit : env.maxInstant < deadlineOf env guard)
    (hrunning : env.tryWait 0 = .running) : ¬Terminates env guard := by
  intro h
  obtain ⟨run, hrun, hevents⟩ := killed_at_once harmed hlimit hrunning
  have hkill : run.events = [.read env.start, .polled .running] ++ .killed env.kill ::
      [.waited env.wait] := hevents
  rcases (h.respects 1 run hrun).kills _ _ _ hkill with ⟨pre, source, hpre⟩ | ⟨pre, time, hpre, -⟩
  · rcases pre with _ | ⟨a, _ | ⟨b, pre⟩⟩ <;> simp at hpre
  · rcases pre with _ | ⟨a, _ | ⟨b, pre⟩⟩ <;> simp at hpre

end Runs

/-! ## When termination respects the grace period -/

variable (env : Env) (guard : StdioChildGuard)

/-- **Termination respects the grace period exactly when the guard has no child, the end of the
period is a time that an `Instant` represents, or the first poll finds no running child.** -/
theorem termination_iff : Terminates env guard ↔ guard.armed = false ∨
    deadlineOf env guard ≤ env.maxInstant ∨ env.tryWait 0 ≠ .running := by
  constructor
  · intro h
    by_contra hnot
    obtain ⟨harmed, hlimit, hrunning⟩ : guard.armed = true ∧ env.maxInstant < deadlineOf env guard ∧
        env.tryWait 0 = .running := by
      simpa [not_or] using hnot
    exact not_terminates harmed hlimit hrunning h
  · rintro (hdisarmed | hlimit | hfirst)
    · exact terminates_of_disarmed hdisarmed
    · exact terminates_of_representable hlimit
    · exact terminates_of_first hfirst

/-- A child that runs on under `Duration::MAX`, with instants of 63 bits of seconds. -/
theorem longest_grace_kills_at_once : ∃ env guard, guard.shutdownGrace.nanos = maxDuration ∧
    env.maxInstant = 2 ^ 63 * 10 ^ 9 - 1 ∧ (∀ i, env.tryWait i = .running) ∧
      ¬Terminates env guard := by
  let env : Env := ⟨0, fun _ => 0, fun _ => .running, .ok (), .ok (), 2 ^ 63 * 10 ^ 9 - 1, le_rfl,
    monotone_const, fun _ => Nat.zero_le _⟩
  let guard : StdioChildGuard := ⟨true, ⟨maxDuration, le_rfl⟩⟩
  have hlimit : env.maxInstant < deadlineOf env guard := by
    show 2 ^ 63 * 10 ^ 9 - 1 < 0 + (2 ^ 64 * 10 ^ 9 - 1)
    omega
  exact ⟨env, guard, rfl, rfl, fun _ => rfl, not_terminates rfl hlimit rfl⟩

end GroupAgent.Mcp.Child
