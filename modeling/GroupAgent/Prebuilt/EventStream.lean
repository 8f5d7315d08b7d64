import Mathlib.Data.List.Infix

/-!
# Agent event streams

Model of `AgentEventStream` (`stream.rs:181-186`, `poll_next` 205-252) and of its copies
`SequenceEventStream` (`sequence/event.rs:89-94`) and `BranchEventStream` (`branch/event.rs:87-92`)
of `crates/group-agent-prebuilt/src`. The three differ in the types of their events and errors
only, which are `α` and `ε` here.

* The invocation future is an `Invocation`: what it sends during each of its polls, until it ends.
  It holds the senders of the channel.
* `poll_recv` answers `Pending` when nothing is buffered, and also when the cooperative budget of
  the task is used up. `Budget` says which receives of a poll find budget.
* A poll receives up to three times: before it polls the invocation, behind a poll that left it
  pending, and behind one that ended it. The last receive decides whether the stream is over.
* `due` is what a stream still has to yield. **`pollNext_spec`** says what a poll takes of it,
  unless the poll is `Starved`.

Results: **`lossless_iff`**: the sent events are yielded in order, then the error, then `None`
forever, exactly when no poll is starved. `yields_of_served`: such a stream does come to its end.

Out of scope: dropping a stream, which drops its invocation, and waking. A poll is made when its
caller makes it.
-/

namespace GroupAgent.Prebuilt

/-- The answer to a poll. -/
inductive Poll (α : Type) where
  | pending
  | ready (value : α)
  deriving DecidableEq, Repr

def Poll.value? {α : Type} : Poll α → Option α
  | .pending => none
  | .ready value => some value

/-- An invocation future. -/
inductive Invocation (α ε : Type) where
  | pending (sent : List α) (next : Invocation α ε)
  | finished (sent : List α) (result : Except ε Unit)

/-- The receiving end of the unbounded channel. -/
structure Receiver (α ε : Type) where
  buffer : List (Except ε α)
  closed : Bool
  deriving DecidableEq

/-- Which of the two receives of one poll find cooperative budget. -/
structure Budget where
  first : Bool
  second : Bool
  deriving DecidableEq, Repr

/-- An asynchronous stream of events from a running invocation. -/
structure EventStream (α ε : Type) where
  receiver : Receiver α ε
  invocation : Option (Invocation α ε)
  pendingError : Option ε
  isTerminal : Bool

variable {α ε : Type}

namespace Receiver

/-- Receive the next item. -/
def pollRecv (r : Receiver α ε) (budget senders : Bool) :
    Poll (Option (Except ε α)) × Receiver α ε :=
  if budget then
    match r.buffer with
    | item :: buffer => (.ready (some item), { r with buffer })
    | [] => (if senders && !r.closed then .pending else .ready none, r)
  else (.pending, r)

/-- What a sink sends: events, never errors. -/
def send (r : Receiver α ε) (events : List α) : Receiver α ε :=
  if r.closed then r else { r with buffer := r.buffer ++ events.map .ok }

def close (r : Receiver α ε) : Receiver α ε := { r with closed := true }

end Receiver

namespace EventStream

def new (invocation : Invocation α ε) : EventStream α ε where
  receiver := ⟨[], false⟩
  invocation := some invocation
  pendingError := none
  isTerminal := false

/-- One receive; the invocation holds the senders. -/
def receive (this : EventStream α ε) (budget : Bool) :
    Option (Except ε α) × EventStream α ε :=
  match this.receiver.pollRecv budget this.invocation.isSome with
  | (.ready (some item), receiver) => (some item, { this with receiver })
  | (_, receiver) => (none, { this with receiver })

/-- The poll from its third receive on: the invocation is over. -/
def drain (this : EventStream α ε) (budget : Bool) :
    Poll (Option (Except ε α)) × EventStream α ε :=
  match this.receive budget with
  | (some item, this) => (.ready (some item), this)
  | (none, this) =>
    match this.pendingError with
    | some error =>
      (.ready (some (.error error)),
        { this with pendingError := none, isTerminal := true, receiver := this.receiver.close })
    | none => (.ready none, { this with isTerminal := true, receiver := this.receiver.close })

/-- Drive the invocation, if it is still active. -/
def drive (this : EventStream α ε) : EventStream α ε :=
  match this.invocation with
  | none => this
  | some (.pending sent next) =>
    { this with receiver := this.receiver.send sent, invocation := some next }
  | some (.finished sent (.ok ())) =>
    { this with receiver := this.receiver.send sent, invocation := none }
  | some (.finished sent (.error error)) =>
    { this with
      receiver := this.receiver.send sent
      invocation := none
      pendingError := some error }

/-- Poll the stream. -/
def pollNext (this : EventStream α ε) (budget : Budget) :
    Poll (Option (Except ε α)) × EventStream α ε :=
  if this.isTerminal then (.ready none, this)
  else
    match this.receive budget.first with
    | (some item, this) => (.ready (some item), this)
    | (none, this) =>
      let this := this.drive
      if this.invocation.isSome then
        match this.receive budget.second with
        | (some item, this) => (.ready (some item), this)
        | (none, this) => (.pending, this)
      else this.drain budget.second

/-- What the stream yields over a sequence of polls. -/
def yields : List Budget → EventStream α ε → List (Option (Except ε α))
  | [], _ => []
  | budget :: budgets, this =>
    (this.pollNext budget).1.value?.toList ++ yields budgets (this.pollNext budget).2

end EventStream

/-! ## What is due -/

namespace Invocation

/-- Everything the invocation sends, in order. -/
def sent : Invocation α ε → List α
  | .pending sent next => sent ++ next.sent
  | .finished sent _ => sent

def error? : Invocation α ε → Option ε
  | .pending _ next => next.error?
  | .finished _ (.error error) => some error
  | .finished _ (.ok ()) => none

/-- The polls for which the invocation is pending. -/
def waits : Invocation α ε → Nat
  | .pending _ next => next.waits + 1
  | .finished _ _ => 0

/-- The sent events in order, then the error if the invocation failed. -/
def expected (invocation : Invocation α ε) : List (Except ε α) :=
  invocation.sent.map .ok ++ invocation.error?.toList.map .error

end Invocation

/-- The items are yielded in order, and then `None` forever. -/
def Exactly (items : List (Except ε α)) (yielded : List (Option (Except ε α))) : Prop :=
  ∃ n, yielded <+: items.map some ++ List.replicate n none

/-- The items ever yielded are the sent events in order, then the error if the invocation failed,
then `None` forever. -/
def Lossless (invocation : Invocation α ε) (yielded : List (Option (Except ε α))) : Prop :=
  Exactly invocation.expected yielded

@[simp] theorem exactly_nil (items : List (Except ε α)) : Exactly items [] := ⟨0, List.nil_prefix⟩

@[simp] theorem exactly_cons {x : Except ε α} {items : List (Except ε α)} {y : Option (Except ε α)}
    {ys : List (Option (Except ε α))} :
    Exactly (x :: items) (y :: ys) ↔ y = some x ∧ Exactly items ys := by
  simp [Exactly, List.cons_prefix_cons]

@[simp] theorem exactly_none {ys : List (Option (Except ε α))} :
    Exactly ([] : List (Except ε α)) (none :: ys) ↔ Exactly [] ys := by
  constructor
  · rintro ⟨n, h⟩
    cases n with
    | zero => simp at h
    | succ n => exact ⟨n, by simpa [List.replicate_succ, List.cons_prefix_cons] using h⟩
  · rintro ⟨n, h⟩
    exact ⟨n + 1, by simpa [List.replicate_succ, List.cons_prefix_cons] using h⟩

namespace EventStream

/-- What the stream still has to yield before it ends. -/
def due (this : EventStream α ε) : List (Except ε α) :=
  if this.isTerminal then []
  else
    this.receiver.buffer ++ (this.invocation.elim [] Invocation.expected) ++
      this.pendingError.toList.map .error

/-- Only events are buffered, and a stream that is not terminal is open: its error is known once
the invocation is over. -/
structure Valid (this : EventStream α ε) : Prop where
  events : ∀ item ∈ this.receiver.buffer, ∃ event, item = .ok event
  running : this.invocation.isSome → this.pendingError = none
  opened : this.isTerminal = false → this.receiver.closed = false

/-- The poll comes to its third receive with events buffered, and finds no budget there. -/
def Starved (this : EventStream α ε) (budget : Budget) : Prop :=
  this.isTerminal = false ∧ (budget.first = false ∨ this.receiver.buffer = []) ∧
    budget.second = false ∧
    match this.invocation with
    | none => this.receiver.buffer ≠ []
    | some (.finished sent _) => this.receiver.buffer ≠ [] ∨ sent ≠ []
    | some (.pending _ _) => False

/-- No poll of a sequence is starved. -/
def Served : List Budget → EventStream α ε → Prop
  | [], _ => True
  | budget :: budgets, this => ¬ this.Starved budget ∧ Served budgets (this.pollNext budget).2

theorem valid_new (invocation : Invocation α ε) : (new invocation).Valid where
  events := by simp [new]
  running _ := rfl
  opened _ := rfl

@[simp] theorem due_new (invocation : Invocation α ε) : (new invocation).due = invocation.expected := by
  simp [due, new]

/-! ## One poll -/

/-- What a poll leaves of what is due. -/
inductive Takes (this : EventStream α ε) : Poll (Option (Except ε α)) → EventStream α ε → Prop where
  | nothing {next : EventStream α ε} (valid : next.Valid) (due_eq : this.due = next.due) :
      Takes this .pending next
  | item {item : Except ε α} {next : EventStream α ε} (valid : next.Valid)
      (due_eq : this.due = item :: next.due) : Takes this (.ready (some item)) next
  | done {next : EventStream α ε} (valid : next.Valid) (terminal : next.isTerminal = true)
      (due_eq : this.due = []) : Takes this (.ready none) next

/-- The poll ends the stream ahead of the item that is due first. -/
def Drops (this : EventStream α ε) (answer : Poll (Option (Except ε α))) : Prop :=
  ∃ item rest yielded, this.due = item :: rest ∧ answer = .ready yielded ∧ yielded ≠ some item

theorem receive_cases (this : EventStream α ε) (budget : Bool) :
    (∃ item buffer, this.receiver.buffer = item :: buffer ∧ budget = true ∧
      this.receive budget = (some item, { this with receiver := { this.receiver with buffer } })) ∨
    ((budget = false ∨ this.receiver.buffer = []) ∧ this.receive budget = (none, this)) := by
  unfold receive Receiver.pollRecv
  cases budget with
  | false => exact .inr ⟨.inl rfl, rfl⟩
  | true =>
    cases hb : this.receiver.buffer with
    | nil =>
      refine .inr ⟨.inr rfl, ?_⟩
      by_cases hs : (this.invocation.isSome && !this.receiver.closed) = true <;> simp [hs]
    | cons item buffer => exact .inl ⟨item, buffer, rfl, rfl, rfl⟩

theorem Valid.rest {this : EventStream α ε} (h : this.Valid) {item : Except ε α}
    {buffer : List (Except ε α)} (hb : this.receiver.buffer = item :: buffer) :
    ({ this with receiver := { this.receiver with buffer } } : EventStream α ε).Valid where
  events x hx := h.events x (by rw [hb]; exact List.mem_cons_of_mem item hx)
  running := h.running
  opened := h.opened

/-- A receive that is answered takes the first item. -/
theorem Valid.takes_item {this : EventStream α ε} (h : this.Valid) (ht : this.isTerminal = false)
    {item : Except ε α} {buffer : List (Except ε α)}
    (hb : this.receiver.buffer = item :: buffer) :
    Takes this (.ready (some item)) { this with receiver := { this.receiver with buffer } } := by
  refine .item (h.rest hb) ?_
  simp [due, ht, hb]

/-- The third receive, and what follows it. -/
theorem drain_spec {this : EventStream α ε} (h : this.Valid) (ht : this.isTerminal = false)
    (hi : this.invocation = none) (budget : Bool) :
    (this.receiver.buffer ≠ [] ∧ budget = false → Drops this (this.drain budget).1) ∧
    (¬ (this.receiver.buffer ≠ [] ∧ budget = false) →
      Takes this (this.drain budget).1 (this.drain budget).2) := by
  unfold drain
  rcases receive_cases this budget with ⟨item, buffer, hb, rfl, hr⟩ | ⟨hnone, hr⟩
  · rw [hr]
    exact ⟨by simp, fun _ => h.takes_item ht hb⟩
  · rw [hr]
    constructor
    · rintro ⟨hne, -⟩
      obtain ⟨item, buffer, hb⟩ := List.exists_cons_of_ne_nil hne
      obtain ⟨event, rfl⟩ := h.events item (by rw [hb]; exact List.mem_cons_self)
      have hdue : this.due = .ok event :: (buffer ++ this.pendingError.toList.map .error) := by
        simp [due, ht, hi, hb]
      cases he : this.pendingError with
      | none => exact ⟨_, _, none, hdue, by simp [he], by simp⟩
      | some error => exact ⟨_, _, some (.error error), hdue, by simp [he], by simp⟩
    · intro hserved
      have hb : this.receiver.buffer = [] := by
        by_contra hne
        exact hnone.elim (fun hf => hserved ⟨hne, hf⟩) hne
      cases he : this.pendingError with
      | none =>
        simp only [he]
        exact .done ⟨by simp [Receiver.close, hb], fun _ => rfl, by simp⟩ rfl
          (by simp [due, ht, hi, hb, he])
      | some error =>
        simp only [he]
        exact .item ⟨by simp [Receiver.close, hb], fun _ => rfl, by simp⟩
          (by simp [due, ht, hi, hb, he])

theorem Valid.buffer_send {this : EventStream α ε} (h : this.Valid) (ht : this.isTerminal = false)
    (events : List α) :
    this.receiver.send events = ⟨this.receiver.buffer ++ events.map .ok, false⟩ := by
  simp [Receiver.send, h.opened ht]

/-- Driving the invocation changes nothing of what is due. -/
theorem drive_spec {this : EventStream α ε} (h : this.Valid) (ht : this.isTerminal = false) :
    this.drive.Valid ∧ this.drive.isTerminal = false ∧ this.drive.due = this.due := by
  have hevents : ∀ sent : List α, ∀ item ∈ this.receiver.buffer ++ sent.map .ok,
      ∃ event, item = .ok event := by
    intro sent item hitem
    rcases List.mem_append.mp hitem with hitem | hitem
    · exact h.events item hitem
    · obtain ⟨event, -, rfl⟩ := List.mem_map.mp hitem
      exact ⟨event, rfl⟩
  unfold drive
  cases hi : this.invocation with
  | none => exact ⟨h, ht, rfl⟩
  | some invocation =>
    have herror := h.running (by rw [hi]; rfl)
    match invocation with
    | .pending sent next =>
      simp only [h.buffer_send ht]
      refine ⟨⟨hevents sent, fun _ => herror, fun _ => rfl⟩, ht, ?_⟩
      simp [due, ht, hi, herror, Invocation.expected, Invocation.sent, Invocation.error?]
    | .finished sent (.ok ()) =>
      simp only [h.buffer_send ht]
      refine ⟨⟨hevents sent, fun _ => herror, fun _ => rfl⟩, ht, ?_⟩
      simp [due, ht, hi, herror, Invocation.expected, Invocation.sent, Invocation.error?]
    | .finished sent (.error error) =>
      simp only [h.buffer_send ht]
      refine ⟨⟨hevents sent, by simp, fun _ => rfl⟩, ht, ?_⟩
      simp [due, ht, hi, herror, Invocation.expected, Invocation.sent, Invocation.error?]

/-- A poll is starved when driving the invocation leaves it over, with events buffered. -/
theorem starved_iff {this : EventStream α ε} (h : this.Valid) (ht : this.isTerminal = false)
    {budget : Budget} (hnone : budget.first = false ∨ this.receiver.buffer = []) :
    this.Starved budget ↔ this.drive.invocation = none ∧
      this.drive.receiver.buffer ≠ [] ∧ budget.second = false := by
  unfold Starved drive
  cases hi : this.invocation with
  | none => simp [ht, hi, hnone, and_comm]
  | some invocation =>
    match invocation with
    | .pending sent next => simp
    | .finished sent (.ok ()) =>
      have hne : this.receiver.buffer ++ sent.map .ok ≠ [] ↔
          this.receiver.buffer ≠ [] ∨ sent ≠ [] := by simp [← not_and_or]
      simp [ht, hnone, h.buffer_send ht, hne, and_comm]
    | .finished sent (.error error) =>
      have hne : this.receiver.buffer ++ sent.map .ok ≠ [] ↔
          this.receiver.buffer ≠ [] ∨ sent ≠ [] := by simp [← not_and_or]
      simp [ht, hnone, h.buffer_send ht, hne, and_comm]

/-- What is taken from a stream is taken from every stream to which the same is due. -/
theorem Takes.congr {this that : EventStream α ε} (hd : that.due = this.due)
    {answer : Poll (Option (Except ε α))} {next : EventStream α ε} (h : Takes that answer next) :
    Takes this answer next := by
  cases h with
  | nothing valid due_eq => exact .nothing valid (hd.symm.trans due_eq)
  | item valid due_eq => exact .item valid (hd.symm.trans due_eq)
  | done valid terminal due_eq => exact .done valid terminal (hd.symm.trans due_eq)

theorem Drops.congr {this that : EventStream α ε} (hd : that.due = this.due)
    {answer : Poll (Option (Except ε α))} (h : Drops that answer) : Drops this answer := by
  obtain ⟨item, rest, yielded, hdue, ha, hne⟩ := h
  exact ⟨item, rest, yielded, hd.symm.trans hdue, ha, hne⟩

/-- **One poll**: it takes what is due first, unless it is starved; then it drops it. -/
theorem pollNext_spec {this : EventStream α ε} (h : this.Valid) (budget : Budget) :
    (this.Starved budget → Drops this (this.pollNext budget).1) ∧
    (¬ this.Starved budget →
      Takes this (this.pollNext budget).1 (this.pollNext budget).2) := by
  unfold pollNext
  cases ht : this.isTerminal with
  | true =>
    refine ⟨fun hs => ?_, fun _ => .done h ht (by simp [due, ht])⟩
    rw [hs.1] at ht
    cases ht
  | false =>
    rw [if_neg (by simp)]
    rcases receive_cases this budget.first with ⟨item, buffer, hb, hf, hr⟩ | ⟨hnone, hr⟩
    · rw [hr]
      refine ⟨fun hs => ?_, fun _ => h.takes_item ht hb⟩
      rcases hs.2.1 with hf' | hb'
      · rw [hf] at hf'
        cases hf'
      · rw [hb] at hb'
        cases hb'
    · rw [hr, starved_iff h ht hnone]
      obtain ⟨hvalid, hterminal, hdue⟩ := drive_spec h ht
      by_cases hi : this.drive.invocation = none
      · -- the invocation is over: the third receive decides
        obtain ⟨hdrop, htake⟩ := drain_spec hvalid hterminal hi budget.second
        simp only [hi, Option.isSome_none, Bool.false_eq_true, if_false, true_and]
        exact ⟨fun hs => (hdrop hs).congr hdue, fun hs => (htake hs).congr hdue⟩
      · have hactive : this.drive.invocation.isSome = true := Option.isSome_iff_ne_none.mpr hi
        simp only [hi, hactive, if_true, false_and, false_implies, not_false_eq_true, true_and,
          forall_const]
        rcases receive_cases this.drive budget.second with ⟨item, buffer, hb, -, hr'⟩ | ⟨-, hr'⟩
        · rw [hr']
          exact (hvalid.takes_item hterminal hb).congr hdue
        · rw [hr']
          exact .nothing hvalid hdue.symm

/-! ## All polls -/

/-- **All polls**: exactly what is due is yielded, as long as every poll is served. -/
theorem exactly_iff : ∀ (budgets : List Budget) {this : EventStream α ε}, this.Valid →
    (Exactly this.due (yields budgets this) ↔ Served budgets this)
  | [], this, _ => by simp [yields, Served]
  | budget :: budgets, this, h => by
    obtain ⟨hdrop, htake⟩ := pollNext_spec h budget
    unfold yields Served
    by_cases hs : this.Starved budget
    · obtain ⟨item, rest, yielded, hdue, ha, hne⟩ := hdrop hs
      simp [hdue, ha, hs, Poll.value?, hne]
    · simp only [hs, not_false_eq_true, true_and]
      have ht := htake hs
      generalize (this.pollNext budget).1 = answer at ht
      generalize (this.pollNext budget).2 = next at ht
      cases ht with
      | nothing valid due_eq =>
        rw [due_eq]
        exact exactly_iff budgets valid
      | item valid due_eq =>
        rw [due_eq]
        simp only [Poll.value?, Option.toList_some, List.singleton_append, exactly_cons, true_and]
        exact exactly_iff budgets valid
      | done valid terminal due_eq =>
        rw [due_eq]
        have hnext : next.due = [] := by simp [due, terminal]
        simp only [Poll.value?, Option.toList_some, List.singleton_append, exactly_none]
        rw [← hnext]
        exact exactly_iff budgets valid

/-- **Agent event streams are lossless and fused exactly when no poll is starved**, that is, when
no poll that finds the invocation over comes to its last receive without budget while events are
buffered. -/
theorem lossless_iff (invocation : Invocation α ε) (budgets : List Budget) :
    Lossless invocation (yields budgets (new invocation)) ↔ Served budgets (new invocation) := by
  have h := exactly_iff budgets (valid_new invocation)
  rwa [due_new] at h

/-- The terminal event of an invocation is lost when the poll that ends it finds no budget. -/
theorem starved_event_lost : ¬ Lossless (.finished ["Completed"] (.ok ()) : Invocation String String)
    (yields [⟨false, false⟩, ⟨true, true⟩] (new (.finished ["Completed"] (.ok ())))) := by
  unfold Lossless
  rw [← due_new, exactly_iff _ (valid_new _)]
  simp [Served, Starved, new]

/-! ## Progress -/

/-- The polls for which the invocation is still pending. -/
def waits (this : EventStream α ε) : Nat := this.invocation.elim 0 Invocation.waits

theorem receive_invocation (this : EventStream α ε) (budget : Bool) :
    (this.receive budget).2.invocation = this.invocation := by
  rcases receive_cases this budget with ⟨item, buffer, -, -, hr⟩ | ⟨-, hr⟩ <;> rw [hr]

theorem drive_waits (this : EventStream α ε) : this.drive.waits ≤ this.waits ∧
    (this.drive.invocation.isSome = true → this.drive.waits + 1 ≤ this.waits) := by
  unfold drive
  cases hi : this.invocation with
  | none => simp [waits, hi]
  | some invocation =>
    match invocation with
    | .pending sent next => simp [waits, hi, Invocation.waits]
    | .finished sent (.ok ()) => simp [waits]
    | .finished sent (.error error) => simp [waits]

/-- Once the invocation is over, every poll is answered. -/
theorem drain_ready (this : EventStream α ε) (budget : Bool) :
    (this.drain budget).1.value?.toList.length = 1 ∧
      (this.drain budget).2.invocation = this.invocation := by
  unfold drain
  rcases receive_cases this budget with ⟨item, buffer, -, -, hr⟩ | ⟨-, hr⟩
  · rw [hr]
    exact ⟨rfl, rfl⟩
  · rw [hr]
    simp only
    cases this.pendingError <;> exact ⟨rfl, rfl⟩

/-- A poll yields something, or the invocation has one poll less to wait for. -/
theorem pollNext_waits (this : EventStream α ε) (budget : Budget) :
    (this.pollNext budget).2.waits + 1 ≤
      this.waits + (this.pollNext budget).1.value?.toList.length := by
  unfold pollNext
  split
  · exact Nat.le_refl _
  · rcases receive_cases this budget.first with ⟨item, buffer, -, -, hr⟩ | ⟨-, hr⟩
    · rw [hr]
      exact Nat.le_refl _
    · rw [hr]
      obtain ⟨hle, hlt⟩ := drive_waits this
      by_cases hi : this.drive.invocation.isSome = true
      · have hlt := hlt hi
        have hsame := receive_invocation this.drive budget.second
        simp only [hi, if_true]
        rcases receive_cases this.drive budget.second with ⟨item, buffer, -, -, hr'⟩ | ⟨-, hr'⟩
        · rw [hr'] at hsame ⊢
          exact Nat.add_le_add_right hle 1
        · rw [hr']
          exact hlt
      · obtain ⟨hlen, hsame⟩ := drain_ready this.drive budget.second
        have hover : (this.drive.drain budget.second).2.waits = 0 := by
          unfold waits
          rw [hsame, Option.not_isSome_iff_eq_none.mp hi]
          rfl
        simp only [hi, Bool.false_eq_true, if_false, hlen, hover]
        omega

/-- Of any polls, all but those for which the invocation is pending yield. -/
theorem length_yields : ∀ (budgets : List Budget) (this : EventStream α ε),
    budgets.length ≤ this.waits + (yields budgets this).length
  | [], this => Nat.zero_le _
  | budget :: budgets, this => by
    have hone := pollNext_waits this budget
    have hrest := length_yields budgets (this.pollNext budget).2
    unfold yields
    rw [List.length_cons, List.length_append]
    omega

/-- **A stream whose polls are served comes to its end**: after enough polls it has yielded the sent
events in order, then the error if the invocation failed, and then `None` only. -/
theorem yields_of_served (invocation : Invocation α ε) (budgets : List Budget)
    (hserved : Served budgets (new invocation))
    (hlen : invocation.waits + invocation.expected.length < budgets.length) :
    ∃ n, yields budgets (new invocation) =
      invocation.expected.map some ++ List.replicate (n + 1) none := by
  have hexact := (exactly_iff budgets (valid_new invocation)).mpr hserved
  rw [due_new] at hexact
  obtain ⟨n, hprefix⟩ := hexact
  have hcount : budgets.length ≤ invocation.waits + (yields budgets (new invocation)).length :=
    length_yields budgets (new invocation)
  have htake := List.prefix_iff_eq_take.mp hprefix
  have hle := hprefix.length_le
  rw [List.length_append, List.length_map, List.length_replicate] at hle
  generalize (yields budgets (new invocation)).length = k at hcount htake hle
  have hk : invocation.expected.length < k := by omega
  refine ⟨k - invocation.expected.length - 1, ?_⟩
  rw [htake, List.take_append, List.take_of_length_le (by simp; omega), List.take_replicate]
  congr 2
  simp only [List.length_map]
  omega

/-- An invocation that takes two polls is over after five, each served. -/
example : ∃ n, yields (List.replicate 5 ⟨true, true⟩)
      (new (.pending ["Started"] (.finished ["Completed"] (.error "refused")))) =
    [some (.ok "Started"), some (.ok "Completed"), some (.error "refused")] ++
      List.replicate (n + 1) none :=
  yields_of_served (.pending ["Started"] (.finished ["Completed"] (.error "refused"))) _
    (by simp [List.replicate, Served, Starved, new, pollNext, receive, drive, drain]) (by decide)

end EventStream

end GroupAgent.Prebuilt
