import GroupAgent.Mcp.Shutdown

/-!
# What a shutdown keeps

The invariant of the system of `Shutdown` (`session.rs:392-417`, 459-479 of
`crates/group-agent-mcp/src`), and what follows from it: one cleanup is spawned, a caller returns
what was published, and the peer is gone once the shutdown has begun.

* `CleanupStep.sound`: what one step of a task keeps of the cleanup, with the states its slot, its
  flag and its notifications can be in together.
* **`Step.inv`**: what one step of the system keeps, of a caller or of a task.
* `Inv.safe`: what holds in every state.

The step relation has one constructor for each step of a party, and the proofs here follow it. That
the parties come to an end is not an invariant; it is in `Awaiting`.
-/

namespace GroupAgent.Mcp.Shutdown

open GroupAgent.Lib GroupAgent.Model GroupAgent.Tool

variable {ι : Type} {serverId : McpServerId} {child : Bool}

/-! ## The cleanup -/

/-- Both tasks have finished, with this result. -/
def Cleanup.Results (serverId : McpServerId) (c : Cleanup) (result : Result) : Prop :=
  ∃ serviceResult childResult, c.service = .finished serviceResult ∧
    c.child = .finished childResult ∧ result = combineShutdownResults
      (mapCleanupTaskResult serverId serviceResult) (mapCleanupTaskResult serverId childResult)

/-- The child that there is, is terminated. -/
def ChildTask.Sound (child attempted : Bool) : ChildTask → Prop
  | .running there => there = child
  | .terminating => attempted = true
  | .killing _ => attempted = true
  | .finished _ => child = true → attempted = true

/-- What is in the slot, who has it, how many notifications there were, and the state. -/
def Cleanup.Has (c : Cleanup) (state : SessionState) (slot : ShutdownCompletionSlot) (held : Bool)
    (notified : Nat) (now : SessionState) : Prop :=
  c.slot = slot ∧ c.slotHeld = held ∧ c.notified = notified ∧ state = now

/-- A cleanup, at each stage of its publication. -/
def Cleanup.Published (serverId : McpServerId) (state : SessionState) (c : Cleanup) : Prop :=
  match c.join with
  | .joining => c.Has state ⟨none, false⟩ false 0 .closing
  | .completing result => c.Results serverId result ∧ c.Has state ⟨none, false⟩ false 0 .closing
  | .locked result => c.Results serverId result ∧ c.Has state ⟨none, false⟩ true 0 .closing
  | .resultSet =>
    ∃ result, c.Results serverId result ∧ c.Has state ⟨some result, false⟩ true 0 .closing
  | .closedStored =>
    ∃ result, c.Results serverId result ∧ c.Has state ⟨some result, false⟩ true 0 .closed
  | .published =>
    ∃ result, c.Results serverId result ∧ c.Has state ⟨some result, true⟩ true 0 .closed
  | .unlocked =>
    ∃ result, c.Results serverId result ∧ c.Has state ⟨some result, true⟩ false 0 .closed
  | .done =>
    ∃ result, c.Results serverId result ∧ c.Has state ⟨some result, true⟩ false 1 .closed

structure Cleanup.Sound (serverId : McpServerId) (child : Bool) (state : SessionState)
    (c : Cleanup) : Prop where
  child : c.child.Sound child c.attempted
  published : c.Published serverId state

theorem Cleanup.not_results_of_service {c : Cleanup} {service : Bool}
    (h : c.service = .running service) (result : Result) : ¬c.Results serverId result := by
  rintro ⟨_, _, hservice, -⟩
  rw [h] at hservice
  cases hservice

theorem Cleanup.not_results_of_child {c : Cleanup} (h : ∀ childResult, c.child ≠ .finished childResult)
    (result : Result) : ¬c.Results serverId result := by
  rintro ⟨_, childResult, -, hchild, -⟩
  exact h childResult hchild

/-- While a task runs nothing is published, and its step publishes nothing. -/
theorem Cleanup.Published.of_running {c c' : Cleanup} {state : SessionState}
    (h : c.Published serverId state) (hnot : ∀ result, ¬c.Results serverId result)
    (hsame : c'.join = c.join ∧ c'.slot = c.slot ∧ c'.slotHeld = c.slotHeld ∧
      c'.notified = c.notified) : c'.Published serverId state := by
  obtain ⟨hjoin', hslot, hheld, hnotified⟩ := hsame
  unfold Cleanup.Published at h ⊢
  rw [hjoin']
  cases hjoin : c.join with
  | joining =>
    rw [hjoin] at h
    unfold Cleanup.Has
    rw [hslot, hheld, hnotified]
    exact h
  | completing result =>
    rw [hjoin] at h
    exact absurd h.1 (hnot result)
  | locked result =>
    rw [hjoin] at h
    exact absurd h.1 (hnot result)
  | resultSet | closedStored | published | unlocked | done =>
    rw [hjoin] at h
    obtain ⟨result, hresults, -⟩ := h
    exact absurd hresults (hnot result)

/-- What one step of a task keeps. -/
theorem CleanupStep.sound {task : Task} {state state' : SessionState} {c c' : Cleanup}
    (h : CleanupStep serverId task (state, c) (state', c')) (hs : c.Sound serverId child state) :
    c'.Sound serverId child state' := by
  obtain ⟨hchild, hpub⟩ := hs
  have hsame : c.join = c.join ∧ c.slot = c.slot ∧ c.slotHeld = c.slotHeld ∧
    c.notified = c.notified := ⟨rfl, rfl, rfl, rfl⟩
  cases h with
  | close _ hservice =>
    exact ⟨hchild, hpub.of_running (Cleanup.not_results_of_service hservice) hsame⟩
  | closePanic _ hservice =>
    exact ⟨hchild, hpub.of_running (Cleanup.not_results_of_service hservice) hsame⟩
  | noService hservice =>
    exact ⟨hchild, hpub.of_running (Cleanup.not_results_of_service hservice) hsame⟩
  | noChild hrunning =>
    rw [hrunning] at hchild
    refine ⟨fun h => ?_, hpub.of_running (Cleanup.not_results_of_child (by simp [hrunning])) hsame⟩
    rw [← (hchild : false = child)] at h
    cases h
  | terminate hrunning =>
    exact ⟨rfl, hpub.of_running (Cleanup.not_results_of_child (by simp [hrunning])) hsame⟩
  | terminated _ hrunning =>
    rw [hrunning] at hchild
    exact ⟨fun _ => hchild,
      hpub.of_running (Cleanup.not_results_of_child (by simp [hrunning])) hsame⟩
  | panicked _ hrunning =>
    rw [hrunning] at hchild
    exact ⟨hchild, hpub.of_running (Cleanup.not_results_of_child (by simp [hrunning])) hsame⟩
  | killed hrunning =>
    rw [hrunning] at hchild
    exact ⟨fun _ => hchild,
      hpub.of_running (Cleanup.not_results_of_child (by simp [hrunning])) hsame⟩
  | childPanic _ hcleaning =>
    refine ⟨fun _ => rfl, hpub.of_running (Cleanup.not_results_of_child fun childResult h => ?_) hsame⟩
    rw [h] at hcleaning
    exact hcleaning
  | joined hjoin hservice hfinished =>
    unfold Cleanup.Published at hpub
    rw [hjoin] at hpub
    exact ⟨hchild, ⟨_, _, hservice, hfinished, rfl⟩, hpub⟩
  | lockSlot hjoin hheld =>
    unfold Cleanup.Published at hpub
    rw [hjoin] at hpub
    obtain ⟨hresults, hslot, -, hnotified, hstate⟩ := hpub
    exact ⟨hchild, hresults, hslot, rfl, hnotified, hstate⟩
  | setResult hjoin hnone =>
    unfold Cleanup.Published at hpub
    rw [hjoin] at hpub
    obtain ⟨hresults, hslot, hheld, hnotified, hstate⟩ := hpub
    exact ⟨hchild, _, hresults, by simp only [hslot], hheld, hnotified, hstate⟩
  | alreadySet hjoin hsome =>
    unfold Cleanup.Published at hpub
    rw [hjoin] at hpub
    obtain ⟨-, hslot, -⟩ := hpub
    exact absurd (congrArg ShutdownCompletionSlot.result hslot) hsome
  | storeClosed hjoin =>
    unfold Cleanup.Published at hpub
    rw [hjoin] at hpub
    obtain ⟨result, hresults, hslot, hheld, hnotified, -⟩ := hpub
    exact ⟨hchild, result, hresults, hslot, hheld, hnotified, rfl⟩
  | publish hjoin =>
    unfold Cleanup.Published at hpub
    rw [hjoin] at hpub
    obtain ⟨result, hresults, hslot, hheld, hnotified, hstate⟩ := hpub
    exact ⟨hchild, result, hresults, by simp only [hslot], hheld, hnotified, hstate⟩
  | unlockSlot hjoin =>
    unfold Cleanup.Published at hpub
    rw [hjoin] at hpub
    obtain ⟨result, hresults, hslot, -, hnotified, hstate⟩ := hpub
    exact ⟨hchild, result, hresults, hslot, rfl, hnotified, hstate⟩
  | notifyWaiters hjoin =>
    unfold Cleanup.Published at hpub
    rw [hjoin] at hpub
    obtain ⟨result, hresults, hslot, hheld, hnotified, hstate⟩ := hpub
    exact ⟨hchild, result, hresults, hslot, hheld, by simp only [hnotified], hstate⟩

/-- What a published slot says. -/
theorem Cleanup.Sound.of_published {c : Cleanup} {state : SessionState}
    (h : c.Sound serverId child state) (hpub : c.slot.published = true) :
    state = .closed ∧ (child = true → c.attempted = true) ∧
      ∃ result, c.slot.result = some result ∧ c.Results serverId result := by
  obtain ⟨hchild, hp⟩ := h
  have hresult : ∃ result, c.slot.result = some result ∧ c.Results serverId result ∧
      state = .closed := by
    unfold Cleanup.Published at hp
    cases hjoin : c.join with
    | joining =>
      rw [hjoin] at hp
      rw [hp.1] at hpub
      cases hpub
    | completing result | locked result =>
      rw [hjoin] at hp
      rw [hp.2.1] at hpub
      cases hpub
    | resultSet | closedStored =>
      rw [hjoin] at hp
      obtain ⟨result, -, hslot, -⟩ := hp
      rw [hslot] at hpub
      cases hpub
    | published | unlocked | done =>
      rw [hjoin] at hp
      obtain ⟨result, hresults, hslot, -, -, hstate⟩ := hp
      exact ⟨result, by rw [hslot], hresults, hstate⟩
  obtain ⟨result, hslot, hresults, hstate⟩ := hresult
  refine ⟨hstate, ?_, result, hslot, hresults⟩
  obtain ⟨-, childResult, -, hfinished, -⟩ := hresults
  rw [hfinished] at hchild
  exact hchild

/-- Before the slot is published, no one is notified. -/
theorem Cleanup.Sound.notified_eq_zero {c : Cleanup} {state : SessionState}
    (h : c.Sound serverId child state) (hpub : c.slot.published = false) : c.notified = 0 := by
  obtain ⟨-, hp⟩ := h
  unfold Cleanup.Published at hp
  cases hjoin : c.join with
  | joining =>
    rw [hjoin] at hp
    exact hp.2.2.1
  | completing result | locked result =>
    rw [hjoin] at hp
    exact hp.2.2.2.1
  | resultSet | closedStored | published | unlocked =>
    rw [hjoin] at hp
    obtain ⟨result, -, -, -, hnotified, -⟩ := hp
    exact hnotified
  | done =>
    rw [hjoin] at hp
    obtain ⟨result, -, hslot, -⟩ := hp
    rw [hslot] at hpub
    cases hpub

/-- What is published stays, and notifications are not taken back. -/
theorem CleanupStep.stays {task : Task} {state state' : SessionState} {c c' : Cleanup}
    (h : CleanupStep serverId task (state, c) (state', c')) (hs : c.Sound serverId child state) :
    (c.slot.published = true → c'.slot = c.slot) ∧ c.notified ≤ c'.notified := by
  obtain ⟨-, hp⟩ := hs
  unfold Cleanup.Published at hp
  cases h with
  | setResult hjoin _ =>
    rw [hjoin] at hp
    exact ⟨fun hpub => absurd hpub (by simp [hp.2.1]), le_rfl⟩
  | publish hjoin =>
    rw [hjoin] at hp
    obtain ⟨result, -, hslot, -⟩ := hp
    exact ⟨fun hpub => absurd hpub (by simp [hslot]), le_rfl⟩
  | notifyWaiters _ => exact ⟨fun _ => rfl, Nat.le_succ _⟩
  | _ => exact ⟨fun _ => rfl, le_rfl⟩

/-! ## The session -/

/-- What a caller knows of the cleanup. -/
def Caller.Ok (completion : Bool) (state : SessionState) (cleanup : Option Cleanup) : Caller → Prop
  | .closing => state = .closing ∧ cleanup = none
  | .spawned => cleanup ≠ none
  | .leaving => completion = true
  | .entering => completion = true
  | .checking notified => completion = true ∧ ∀ c ∈ cleanup, notified ≤ c.notified
  | .waiting notified => completion = true ∧ notified = 0
  | .returned result => completion = true ∧ ∃ c ∈ cleanup, c.slot = ⟨some result, true⟩
  | _ => True

/-- What a caller knows stays true while the cleanup goes on. -/
theorem Caller.Ok.mono {completion completion' : Bool} {state state' : SessionState}
    {cleanup cleanup' : Option Cleanup} {q : Caller} (h : q.Ok completion state cleanup)
    (hclosing : q = .closing → state' = .closing ∧ cleanup' = none)
    (hspawned : cleanup ≠ none → cleanup' ≠ none)
    (hcompletion : completion = true → completion' = true)
    (hback : completion = true → ∀ c' ∈ cleanup', ∃ c ∈ cleanup, c.notified ≤ c'.notified)
    (hforth : completion = true → ∀ c ∈ cleanup, c.slot.published = true →
      ∃ c' ∈ cleanup', c'.slot = c.slot) : q.Ok completion' state' cleanup' := by
  cases q with
  | closing => exact hclosing rfl
  | spawned => exact hspawned h
  | leaving => exact hcompletion h
  | entering => exact hcompletion h
  | checking notified =>
    refine ⟨hcompletion h.1, fun c' hc' => ?_⟩
    obtain ⟨c, hc, hle⟩ := hback h.1 c' hc'
    exact (h.2 c hc).trans hle
  | waiting notified => exact ⟨hcompletion h.1, h.2⟩
  | returned result =>
    obtain ⟨hdone, c, hc, hslot⟩ := h
    obtain ⟨c', hc', hsame⟩ := hforth hdone c hc (by rw [hslot])
    exact ⟨hcompletion hdone, c', hc', hsame.trans hslot⟩
  | _ => trivial

/-- One cleanup is spawned, by the caller that begins. -/
def State.Shared (serverId : McpServerId) (child : Bool) (s : State ι) : Prop :=
  match s.cleanup with
  | none => s.completion = false ∧ s.spawned = 0 ∧ s.child = child ∧
    (s.state = .active ∨ s.state = .closing ∧ ∃ i, s.caller i = .closing)
  | some c => c.Sound serverId child s.state ∧ s.spawned = 1 ∧
    (s.completion = true ∨ ∃ i, s.caller i = .spawned)

/-- What every state of the system keeps. -/
structure Inv (serverId : McpServerId) (child : Bool) (s : State ι) : Prop where
  queue : ∀ i, i ∈ s.queue ↔ s.caller i = .queued
  nodup : s.queue.Nodup
  holder : ∀ i, s.holder = some i ↔ (s.caller i).Holding
  shared : s.Shared serverId child
  callers : ∀ i, (s.caller i).Ok s.completion s.state s.cleanup

theorem Inv.new (peerInfo : Option ServerInfo) :
    Inv serverId child (State.new child peerInfo : State ι) where
  queue i := by simp [State.new]
  nodup := List.nodup_nil
  holder i := by simp [State.new, Caller.Holding]
  shared := ⟨rfl, rfl, rfl, .inl rfl⟩
  callers i := trivial

section Steps

variable [DecidableEq ι] {s s' : State ι} {i : ι} {p : Caller}

theorem forall_update {P : ι → Caller → Prop} (h : ∀ j, j ≠ i → P j (s.caller j)) (hi : P i p) :
    ∀ j, P j ((s.put i p).caller j) := by
  intro j
  unfold State.put
  simp only
  by_cases hj : j = i
  · rw [hj, Function.update_self]
    exact hi
  · rw [Function.update_of_ne hj]
    exact h j hj

theorem caller_put_of_ne {j : ι} (hj : j ≠ i) : (s.put i p).caller j = s.caller j :=
  Function.update_of_ne hj _ _

/-- A state of the shared fields that another caller leaves is still there. -/
theorem exists_put {q : Caller} (h : ∃ j, s.caller j = q) (hi : s.caller i ≠ q) :
    ∃ j, (s.put i p).caller j = q := by
  obtain ⟨j, hj⟩ := h
  have hne : j ≠ i := fun heq => hi (heq ▸ hj)
  exact ⟨j, (caller_put_of_ne hne).trans hj⟩

theorem State.Shared.put (h : s.Shared serverId child) (hclosing : s.caller i ≠ .closing)
    (hspawned : s.caller i ≠ .spawned) : (s.put i p).Shared serverId child := by
  unfold State.Shared at h ⊢
  show match s.cleanup with | none => _ | some c => _
  cases hcleanup : s.cleanup with
  | none =>
    rw [hcleanup] at h
    obtain ⟨hcompletion, hcount, hchild, hstate⟩ := h
    exact ⟨hcompletion, hcount, hchild, hstate.imp_right fun ⟨hstate, hsome⟩ =>
      ⟨hstate, exists_put hsome hclosing⟩⟩
  | some c =>
    rw [hcleanup] at h
    obtain ⟨hsound, hcount, hcompletion⟩ := h
    exact ⟨hsound, hcount, hcompletion.imp_right fun hsome => exists_put hsome hspawned⟩

omit [DecidableEq ι] in
/-- No two callers have the lock. -/
theorem Inv.unique (h : Inv serverId child s) {j : ι} (hi : (s.caller i).Holding)
    (hj : (s.caller j).Holding) : i = j := by
  have hi := (h.holder i).mpr hi
  rw [(h.holder j).mpr hj] at hi
  exact (Option.some.inj hi).symm

theorem Inv.queue_put (h : Inv serverId child s) (hqueue : s.caller i ≠ .queued ∧ p ≠ .queued) :
    ∀ j, j ∈ s.queue ↔ (s.put i p).caller j = .queued :=
  forall_update (P := fun j q => j ∈ s.queue ↔ q = .queued) (fun j _ => h.queue j)
    ⟨fun hmem => absurd ((h.queue i).mp hmem) hqueue.1, fun heq => absurd heq hqueue.2⟩

theorem Inv.holder_put (h : Inv serverId child s) (hholding : (s.caller i).Holding ↔ p.Holding) :
    ∀ j, s.holder = some j ↔ ((s.put i p).caller j).Holding :=
  forall_update (P := fun j q => s.holder = some j ↔ q.Holding) (fun j _ => h.holder j)
    ((h.holder i).trans hholding)

/-- A caller that moves on its own, outside the queue. -/
theorem Inv.put (h : Inv serverId child s) (hqueue : s.caller i ≠ .queued ∧ p ≠ .queued)
    (hholding : (s.caller i).Holding ↔ p.Holding)
    (hshared : s.caller i ≠ .closing ∧ s.caller i ≠ .spawned)
    (hok : p.Ok s.completion s.state s.cleanup) : Inv serverId child (s.put i p) where
  queue := h.queue_put hqueue
  nodup := h.nodup
  holder := h.holder_put hholding
  shared := h.shared.put hshared.1 hshared.2
  callers := forall_update (P := fun _ q => q.Ok s.completion s.state s.cleanup)
    (fun j _ => h.callers j) hok

omit [DecidableEq ι] in
/-- Where nothing was spawned, no caller is past the lock. -/
theorem Inv.completion_of_none (h : Inv serverId child s) (hnone : s.cleanup = none) :
    s.completion = false := by
  have hshared := h.shared
  unfold State.Shared at hshared
  rw [hnone] at hshared
  exact hshared.1

omit [DecidableEq ι] in
/-- The caller that has the lock and finds no completion is the first. -/
theorem Inv.cleanup_of_locked (h : Inv serverId child s) (hlocked : s.caller i = .locked)
    (hcompletion : s.completion = false) : s.cleanup = none := by
  have hshared := h.shared
  unfold State.Shared at hshared
  cases hcleanup : s.cleanup with
  | none => rfl
  | some c =>
    rw [hcleanup] at hshared
    rcases hshared.2.2 with hdone | ⟨j, hj⟩
    · rw [hcompletion] at hdone
      cases hdone
    · have hij : i = j := h.unique (by rw [hlocked]; trivial) (by rw [hj]; trivial)
      rw [← hij, hlocked] at hj
      cases hj

omit [DecidableEq ι] in
theorem Step.inv_task {task : Task} {c c' : Cleanup} {state : SessionState}
    (h : Inv serverId child s) (hcleanup : s.cleanup = some c)
    (hstep : CleanupStep serverId task (s.state, c) (state, c')) :
    Inv serverId child { s with state, cleanup := some c' } := by
  have hshared := h.shared
  unfold State.Shared at hshared
  rw [hcleanup] at hshared
  obtain ⟨hsound, hcount, hcompletion⟩ := hshared
  obtain ⟨hslot, hnotified⟩ := hstep.stays hsound
  refine ⟨h.queue, h.nodup, h.holder, ⟨hstep.sound hsound, hcount, hcompletion⟩, fun j => ?_⟩
  refine (h.callers j).mono (fun hq => ?_) (fun _ => Option.some_ne_none c') id ?_ ?_
  · have hok := h.callers j
    rw [hq, hcleanup] at hok
    cases hok.2
  · rintro _ d hd
    cases hd
    exact ⟨c, hcleanup, hnotified⟩
  · rintro _ d hd hpub
    rw [hcleanup] at hd
    cases hd
    exact ⟨c', rfl, hslot hpub⟩

/-- The lock passes to a caller, or away from one. -/
theorem Inv.pass (h : Inv serverId child s) {holder : Option ι} {queue : List ι}
    (hqueue : ∀ j, j ≠ i → (j ∈ queue ↔ j ∈ s.queue)) (hnodup : queue.Nodup)
    (hi : i ∈ queue ↔ p = .queued) (hholder : ∀ j, j ≠ i → (holder = some j ↔ s.holder = some j))
    (hi' : holder = some i ↔ p.Holding)
    (hshared : s.caller i ≠ .closing ∧ s.caller i ≠ .spawned)
    (hok : p.Ok s.completion s.state s.cleanup) :
    Inv serverId child { s.put i p with holder, queue } where
  queue := forall_update (P := fun j q => j ∈ queue ↔ q = .queued)
    (fun j hj => (hqueue j hj).trans (h.queue j)) hi
  nodup := hnodup
  holder := forall_update (P := fun j q => holder = some j ↔ q.Holding)
    (fun j hj => (hholder j hj).trans (h.holder j)) hi'
  shared := h.shared.put hshared.1 hshared.2
  callers := forall_update (P := fun _ q => q.Ok s.completion s.state s.cleanup)
    (fun j _ => h.callers j) hok

omit [DecidableEq ι] in
/-- A caller that has the lock is the only one. -/
theorem Inv.holder_ne (h : Inv serverId child s) (hi : (s.caller i).Holding) {j : ι} (hj : j ≠ i) :
    ((none : Option ι) = some j ↔ s.holder = some j) := by
  rw [(h.holder i).mpr hi]
  constructor
  · intro h
    cases h
  · intro h
    exact absurd (Option.some.inj h).symm hj

/-- **What one step keeps.** -/
theorem Step.inv {l : Label ι} (hstep : Step serverId l s s') (h : Inv serverId child s) :
    Inv serverId child s' := by
  cases hstep with
  | @call _ i hi =>
    have hnot : i ∉ s.queue := fun hmem => by
      rw [h.queue, hi] at hmem
      cases hmem
    refine h.pass (fun j hj => ?_) ?_ ?_ (fun _ _ => Iff.rfl) ?_ (by simp [hi]) trivial
    · simp [hj]
    · exact List.nodup_append.mpr ⟨h.nodup, List.pairwise_singleton _ _, by
        rintro a ha b hb rfl
        exact hnot (List.mem_singleton.mp hb ▸ ha)⟩
    · simp
    · exact (h.holder i).trans (by simp [hi, Caller.Holding])
  | @grant _ i queue hfree hqueue =>
    have hi : s.caller i = .queued := (h.queue i).mp (hqueue ▸ List.mem_cons_self)
    obtain ⟨hnot, hnodup⟩ := List.nodup_cons.mp (hqueue ▸ h.nodup)
    refine h.pass (fun j hj => ?_) hnodup ?_ (fun j hj => ?_) ?_ (by simp [hi]) trivial
    · rw [hqueue, List.mem_cons]
      exact (or_iff_right hj).symm
    · simp [hnot]
    · rw [hfree]
      simp [Ne.symm hj]
    · simp [Caller.Holding]
  | @leaveQueue _ i hi =>
    refine h.pass (fun j hj => ?_) (h.nodup.erase i) ?_ (fun _ _ => Iff.rfl) ?_ (by simp [hi]) trivial
    · exact List.mem_erase_of_ne hj
    · simp [h.nodup.mem_erase_iff]
    · exact (h.holder i).trans (by simp [hi, Caller.Holding])
  | @dropLock _ i hi =>
    have hholding : (s.caller i).Holding := by rw [hi]; trivial
    refine h.pass (fun _ _ => Iff.rfl) h.nodup ?_ (fun j hj => h.holder_ne hholding hj) ?_
      (by simp [hi]) trivial
    · exact (h.queue i).trans (by simp [hi])
    · simp [Caller.Holding]
  | @dropWait _ i notified hi =>
    exact h.put (by simp [hi]) (by simp [hi, Caller.Holding]) (by simp [hi]) trivial
  | @resume _ i hi =>
    exact h.put (by simp [hi]) (by simp [hi, Caller.Holding]) (by simp [hi]) trivial
  | @join _ i hi hcompletion =>
    exact h.put (by simp [hi]) (by simp [hi, Caller.Holding]) (by simp [hi]) hcompletion
  | @begin _ i hi hcompletion =>
    have hnone := h.cleanup_of_locked hi hcompletion
    have hshared := h.shared
    unfold State.Shared at hshared
    rw [hnone] at hshared
    obtain ⟨-, hcount, hchild, -⟩ := hshared
    refine ⟨h.queue_put (by simp [hi]), h.nodup, h.holder_put (by simp [hi, Caller.Holding]), ?_, ?_⟩
    · unfold State.Shared
      show match s.cleanup with | none => _ | some c => _
      rw [hnone]
      exact ⟨hcompletion, hcount, hchild, .inr ⟨rfl, i, Function.update_self ..⟩⟩
    · refine forall_update (P := fun _ q => q.Ok s.completion .closing s.cleanup)
        (fun j _ => (h.callers j).mono (fun _ => ⟨rfl, hnone⟩) id id ?_ ?_) ⟨rfl, hnone⟩
      · exact fun _ c hc => ⟨c, hc, le_rfl⟩
      · exact fun _ c hc _ => ⟨c, hc, rfl⟩
  | @spawn _ i hi =>
    have hok := h.callers i
    rw [hi] at hok
    have hcompletion := h.completion_of_none hok.2
    have hshared := h.shared
    unfold State.Shared at hshared
    rw [hok.2] at hshared
    obtain ⟨-, hcount, hchild, -⟩ := hshared
    refine ⟨h.queue_put (by simp [hi]), h.nodup, h.holder_put (by simp [hi, Caller.Holding]), ?_, ?_⟩
    · exact ⟨⟨hchild, rfl, rfl, rfl, hok.1⟩, congrArg (· + 1) hcount,
        .inr ⟨i, Function.update_self ..⟩⟩
    · have hnot : s.completion ≠ true := by simp [hcompletion]
      refine forall_update (P := fun _ q => q.Ok s.completion s.state
        (some (spawnShutdownCleanup s.running s.child))) (fun j hj => (h.callers j).mono (fun hq => ?_)
          (fun _ => Option.some_ne_none _) id (fun hdone => absurd hdone hnot)
          (fun hdone => absurd hdone hnot)) (Option.some_ne_none _)
      exact absurd (h.unique (by rw [hq]; trivial) (by rw [hi]; trivial)) hj
  | @complete _ i hi =>
    have hok := h.callers i
    rw [hi] at hok
    have hshared := h.shared
    unfold State.Shared at hshared
    refine ⟨h.queue_put (by simp [hi]), h.nodup, h.holder_put (by simp [hi, Caller.Holding]), ?_, ?_⟩
    · unfold State.Shared
      show match s.cleanup with | none => _ | some c => _
      cases hcleanup : s.cleanup with
      | none => exact absurd hcleanup hok
      | some c =>
        rw [hcleanup] at hshared
        exact ⟨hshared.1, hshared.2.1, .inl rfl⟩
    · refine forall_update (P := fun _ q => q.Ok true s.state s.cleanup)
        (fun j _ => (h.callers j).mono (fun hq => ?_) id (fun _ => rfl) ?_ ?_) rfl
      · have hclosing := h.callers j
        rw [hq] at hclosing
        exact hclosing
      · exact fun _ c hc => ⟨c, hc, le_rfl⟩
      · exact fun _ c hc _ => ⟨c, hc, rfl⟩
  | @unlock _ i hi =>
    have hholding : (s.caller i).Holding := by rw [hi]; trivial
    have hok := h.callers i
    rw [hi] at hok
    refine h.pass (fun _ _ => Iff.rfl) h.nodup ?_ (fun j hj => h.holder_ne hholding hj) ?_
      (by simp [hi]) hok
    · exact (h.queue i).trans (by simp [hi])
    · simp [Caller.Holding]
  | @notified _ i c hi hc =>
    have hok := h.callers i
    rw [hi] at hok
    refine h.put (by simp [hi]) (by simp [hi, Caller.Holding]) (by simp [hi]) ⟨hok, fun d hd => ?_⟩
    rw [hc] at hd
    cases hd
    exact le_rfl
  | @found _ i notified c result hi hc _ hpub hresult =>
    have hok := h.callers i
    rw [hi] at hok
    refine h.put (by simp [hi]) (by simp [hi, Caller.Holding]) (by simp [hi]) ⟨hok.1, c, hc, ?_⟩
    rw [← hresult, ← hpub]
  | @missed _ i notified c hi hc _ hpub =>
    have hok := h.callers i
    rw [hi] at hok
    have hshared := h.shared
    unfold State.Shared at hshared
    rw [hc] at hshared
    have hle := hok.2 c hc
    rw [hshared.1.notified_eq_zero hpub] at hle
    exact h.put (by simp [hi]) (by simp [hi, Caller.Holding]) (by simp [hi])
      ⟨hok.1, Nat.le_zero.mp hle⟩
  | @wake _ i notified c hi hc hne =>
    have hok := h.callers i
    rw [hi] at hok
    exact h.put (by simp [hi]) (by simp [hi, Caller.Holding]) (by simp [hi]) hok.1
  | task hcleanup hstep => exact Step.inv_task h hcleanup hstep
  | disconnect => exact ⟨h.queue, h.nodup, h.holder, h.shared, h.callers⟩

end Steps

/-! ## Safety -/

/-- What holds in every state, as a caller sees it. -/
structure Safe (serverId : McpServerId) (child : Bool) (s : State ι) : Prop where
  /-- The cleanup is spawned once at most. -/
  once : s.spawned ≤ 1
  /-- A caller returns, with the state closed, what both tasks came to, and the child that there
  was has been terminated. -/
  returned : ∀ i result, s.caller i = .returned result → s.spawned = 1 ∧ s.state = .closed ∧
    ∃ c, s.cleanup = some c ∧ c.slot.result = some result ∧ c.Results serverId result ∧
      (child = true → c.attempted = true)

/-- Two callers return the same. -/
theorem Safe.same {s : State ι} (h : Safe serverId child s) {i j : ι} {result result' : Result}
    (hi : s.caller i = .returned result) (hj : s.caller j = .returned result') :
    result = result' := by
  obtain ⟨-, -, c, hc, hslot, -⟩ := h.returned i result hi
  obtain ⟨-, -, d, hd, hslot', -⟩ := h.returned j result' hj
  rw [hc] at hd
  cases hd
  rw [hslot] at hslot'
  exact Option.some.inj hslot'

end GroupAgent.Mcp.Shutdown
