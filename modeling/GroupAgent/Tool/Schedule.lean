import GroupAgent.Tool.Batch

/-!
# What a schedule keeps

The invariant of the batch scheduler (`runtime.rs:470-561` of `crates/group-agent-tool/src`) and
what it gives: every run of a batch ends, in a report with one result a call, without a failed
`expect`.

* `Scheduled`: what holds of a log of starts and finishes, at each of its moments.
* `Inv`: how the slots, the cursor, the running set and the flags of a scheduler follow from its
  log. `Inv.fill`, `Inv.complete`: a turn keeps it. `Inv.ends`: every run ends.
* `Reported`: what a report says of each call, by the log.

Results:
* **`batch_scheduling`**: the whole of it: termination, one result in each slot, the bound on
  concurrency, exclusive calls alone, and both failure policies.
* `Good.returns`: a batch that is accepted comes to a report, which is what a caller takes from it.

A batch that fails fast before its first call has an answer for every call as well: those that were
not prepared have their errors, the others are marked as not started.
-/

namespace GroupAgent.Tool

open GroupAgent.Lib GroupAgent.Model

/-! ## Logs -/

def started? : Moment → Option Nat
  | .started index => some index
  | .finished _ => none

/-- The calls that were started, in order. -/
def starts (log : List Moment) : List Nat := log.filterMap started?

def inFlightAfter (flying : List Nat) : Moment → List Nat
  | .started index => flying ++ [index]
  | .finished index => flying.erase index

/-- The calls in flight after a log. -/
def inFlight (log : List Moment) : List Nat := log.foldl inFlightAfter []

@[simp] theorem inFlight_started (log : List Moment) (index : Nat) :
    inFlight (log ++ [.started index]) = inFlight log ++ [index] := List.foldl_concat ..

@[simp] theorem inFlight_finished (log : List Moment) (index : Nat) :
    inFlight (log ++ [.finished index]) = (inFlight log).erase index := List.foldl_concat ..

@[simp] theorem starts_started (log : List Moment) (index : Nat) :
    starts (log ++ [.started index]) = starts log ++ [index] := List.filterMap_append

@[simp] theorem starts_finished (log : List Moment) (index : Nat) :
    starts (log ++ [.finished index]) = starts log := by
  unfold starts
  rw [List.filterMap_append]
  exact List.append_nil _

theorem mem_starts {log : List Moment} {index : Nat} : index ∈ starts log ↔ .started index ∈ log := by
  unfold starts
  rw [List.mem_filterMap]
  constructor
  · rintro ⟨moment, hmem, h⟩
    cases moment with
    | started i =>
      cases h
      exact hmem
    | finished i => cases h
  · intro h
    exact ⟨_, h, rfl⟩

/-- A split of a log with one moment more is the whole, or a split of the log. -/
theorem split_concat {log p q : List Moment} {moment : Moment} (h : log ++ [moment] = p ++ q) :
    (q = [] ∧ p = log ++ [moment]) ∨ ∃ q', q = q' ++ [moment] ∧ log = p ++ q' := by
  rcases List.eq_nil_or_concat q with rfl | ⟨q', last, rfl⟩
  · exact .inl ⟨rfl, (List.append_nil p).symm.trans h.symm⟩
  · rw [List.concat_eq_append, ← List.append_assoc] at h
    obtain ⟨hlog, hlast⟩ := List.append_inj' h rfl
    refine .inr ⟨q', ?_, hlog⟩
    rw [List.concat_eq_append, ← hlast]

section Schedules

variable (b : Batch)

/-- The call passes preparation. -/
def Prepared (index : Nat) : Prop :=
  ∃ item entry, b.items[index]? = some item ∧ b.prepareItem index item = .ok entry

/-- The call must not overlap another. -/
def Exclusive (index : Nat) : Prop :=
  ∃ item entry, b.items[index]? = some item ∧ b.prepareItem index item = .ok entry ∧
    entry.behavior.allowsParallel = false

variable {b} in
theorem Exclusive.prepared {index : Nat} (h : Exclusive b index) : Prepared b index := by
  obtain ⟨item, entry, hitem, hentry, -⟩ := h
  exact ⟨item, entry, hitem, hentry⟩

/-- The call is executed and fails. -/
def Failed (index : Nat) : Prop :=
  ∃ item error, b.items[index]? = some item ∧
    (b.executeBatchItem index item).primary = .error error

/-- The starts and finishes of a batch, at each of their moments. -/
structure Scheduled (log : List Moment) : Prop where
  order : (starts log).Pairwise (· < ·)
  prepared : ∀ i ∈ starts log, Prepared b i
  bounded : ∀ p q, log = p ++ q → (inFlight p).length ≤ b.config.maxConcurrency
  alone : ∀ p q, log = p ++ q → ∀ i ∈ inFlight p, Exclusive b i → inFlight p = [i]
  overtaken : ∀ p j q, log = p ++ .started j :: q → ∀ i < j, Exclusive b i → .finished i ∈ p
  stopped : b.failFast = true → ∀ p j q, log = p ++ .started j :: q →
    ∀ i, .finished i ∈ p → ¬Failed b i

variable {b} {log : List Moment}

theorem scheduled_nil : Scheduled b [] := by
  have hnil : ∀ {p q : List Moment}, [] = p ++ q → p = [] := fun h =>
    (List.append_eq_nil_iff.mp h.symm).1
  refine ⟨List.Pairwise.nil, fun i h => (by cases h), fun p q h => ?_, fun p q h i hi => ?_,
    fun p j q h => ?_, fun _ p j q h => ?_⟩
  · rw [hnil h]
    exact Nat.zero_le _
  · rw [hnil h] at hi
    cases hi
  · exact absurd h.symm (by simp)
  · exact absurd h.symm (by simp)

/-- One start more. -/
theorem Scheduled.started (h : Scheduled b log) {j : Nat} (hj : Prepared b j)
    (horder : ∀ i ∈ starts log, i < j) (hroom : (inFlight log).length < b.config.maxConcurrency)
    (halone : ∀ i ∈ inFlight log ++ [j], Exclusive b i → inFlight log ++ [j] = [i])
    (hovertaken : ∀ i < j, Exclusive b i → .finished i ∈ log)
    (hstopped : b.failFast = true → ∀ i, .finished i ∈ log → ¬Failed b i) :
    Scheduled b (log ++ [.started j]) := by
  have hlast : ∀ {p q : List Moment} {k : Nat}, log ++ [.started j] = p ++ .started k :: q →
      (p = log ∧ k = j) ∨ ∃ q', log = p ++ .started k :: q' := by
    intro p q k hsplit
    rcases split_concat hsplit with ⟨hq, -⟩ | ⟨q', hq, hlog⟩
    · cases hq
    · cases q' with
      | nil =>
        cases hq
        exact .inl ⟨(hlog.trans (List.append_nil p)).symm, rfl⟩
      | cons moment q' =>
        cases hq
        exact .inr ⟨q', hlog⟩
  refine ⟨?_, ?_, ?_, ?_, ?_, ?_⟩
  · rw [starts_started, List.pairwise_append]
    refine ⟨h.order, List.pairwise_singleton _ _, fun i hi k hk => ?_⟩
    rw [List.mem_singleton.mp hk]
    exact horder i hi
  · intro i hi
    rw [starts_started] at hi
    rcases List.mem_append.mp hi with hi | hi
    · exact h.prepared i hi
    · rw [List.mem_singleton.mp hi]
      exact hj
  · intro p q hsplit
    rcases split_concat hsplit with ⟨-, rfl⟩ | ⟨q', -, hlog⟩
    · rw [inFlight_started, List.length_append, List.length_singleton]
      exact hroom
    · exact h.bounded p q' hlog
  · intro p q hsplit
    rcases split_concat hsplit with ⟨-, rfl⟩ | ⟨q', -, hlog⟩
    · rw [inFlight_started]
      exact halone
    · exact h.alone p q' hlog
  · intro p k q hsplit
    rcases hlast hsplit with ⟨rfl, rfl⟩ | ⟨q', hlog⟩
    · exact hovertaken
    · exact h.overtaken p k q' hlog
  · intro hfast p k q hsplit
    rcases hlast hsplit with ⟨rfl, rfl⟩ | ⟨q', hlog⟩
    · exact hstopped hfast
    · exact h.stopped hfast p k q' hlog

/-- One finish more. -/
theorem Scheduled.finished (h : Scheduled b log) (index : Nat) :
    Scheduled b (log ++ [.finished index]) := by
  have hbefore : ∀ {p q : List Moment} {k : Nat}, log ++ [.finished index] = p ++ .started k :: q →
      ∃ q', log = p ++ .started k :: q' := by
    intro p q k hsplit
    rcases split_concat hsplit with ⟨hq, -⟩ | ⟨q', hq, hlog⟩
    · cases hq
    · cases q' with
      | nil => cases hq
      | cons moment q' =>
        cases hq
        exact ⟨q', hlog⟩
  have hwhole : log = log ++ [] := (List.append_nil log).symm
  refine ⟨?_, ?_, ?_, ?_, ?_, ?_⟩
  · rw [starts_finished]
    exact h.order
  · rw [starts_finished]
    exact h.prepared
  · intro p q hsplit
    rcases split_concat hsplit with ⟨-, rfl⟩ | ⟨q', -, hlog⟩
    · rw [inFlight_finished]
      exact List.length_erase_le.trans (h.bounded log [] hwhole)
    · exact h.bounded p q' hlog
  · intro p q hsplit i hi hexclusive
    rcases split_concat hsplit with ⟨-, rfl⟩ | ⟨q', -, hlog⟩
    · rw [inFlight_finished] at hi ⊢
      have hone := h.alone log [] hwhole i (List.mem_of_mem_erase hi) hexclusive
      rw [hone] at hi ⊢
      by_cases hindex : i = index
      · simp [hindex] at hi
      · simp [hindex]
    · exact h.alone p q' hlog i hi hexclusive
  · intro p k q hsplit
    obtain ⟨q', hlog⟩ := hbefore hsplit
    exact h.overtaken p k q' hlog
  · intro hfast p k q hsplit
    obtain ⟨q', hlog⟩ := hbefore hsplit
    exact h.stopped hfast p k q' hlog

end Schedules

/-! ## The invariant -/

section Invariant

variable (b : Batch)

/-- The slot of a call, by what has finished. -/
def slot (log : List Moment) (index : Nat) (item : ToolBatchItem) : Option ItemResult :=
  match b.prepareItem index item with
  | .error error => some (.error error)
  | .ok _ => if .finished index ∈ log then some (b.executeBatchItem index item).primary else none

/-- How the state of the scheduler follows from its log. -/
structure Inv (s : Scheduler) : Prop where
  resultsLength : s.results.length = b.items.length
  observedLength : s.observerFailures.length = b.items.length
  slots : ∀ i item, b.items[i]? = some item → s.results[i]? = some (slot b s.log i item)
  nextLe : s.next ≤ b.items.length
  running : s.running = inFlight s.log
  nodup : s.running.Nodup
  began : ∀ i, i ∈ starts s.log ↔ i < s.next ∧ Prepared b i
  finished : ∀ i, .finished i ∈ s.log ↔ i ∈ starts s.log ∧ i ∉ s.running
  flying : ∀ i ∈ s.running, i ∈ starts s.log
  alone : s.exclusiveRunning = true → ∃ i, s.running = [i]
  exclusive : ∀ i ∈ s.running, Exclusive b i → s.exclusiveRunning = true
  stop : s.stopScheduling = true ↔ b.failFast = true ∧ ∃ i, .finished i ∈ s.log ∧ Failed b i
  scheduled : Scheduled b s.log

variable {b} {s t : Scheduler}

theorem Inv.next_notin (h : Inv b s) : s.next ∉ starts s.log := fun hmem =>
  absurd ((h.began _).mp hmem).1 (lt_irrefl _)

theorem slot_eq_none {log : List Moment} {index : Nat} {item : ToolBatchItem}
    (hitem : b.items[index]? = some item) :
    slot b log index item = none ↔ Prepared b index ∧ .finished index ∉ log := by
  unfold slot Prepared
  cases hprepare : b.prepareItem index item with
  | error error =>
    constructor
    · intro h
      cases h
    · rintro ⟨⟨item', entry, hitem', hentry⟩, -⟩
      rw [hitem] at hitem'
      cases hitem'
      rw [hprepare] at hentry
      cases hentry
  | ok entry =>
    have hprepared : ∃ item' entry', b.items[index]? = some item' ∧
        b.prepareItem index item' = .ok entry' := ⟨item, entry, hitem, hprepare⟩
    by_cases hfinished : Moment.finished index ∈ log
    · simp [hfinished]
    · simp only [if_neg hfinished, true_iff]
      exact ⟨hprepared, hfinished⟩

/-- A call that is over is skipped. -/
theorem Inv.skip (h : Inv b s) (hnext : s.next < b.items.length) (hnot : ¬Prepared b s.next) :
    Inv b { s with next := s.next + 1 } := by
  refine { h with nextLe := hnext, began := fun i => ?_ }
  rw [h.began i]
  constructor
  · rintro ⟨hlt, hprepared⟩
    exact ⟨Nat.lt_succ_of_lt hlt, hprepared⟩
  · rintro ⟨hlt, hprepared⟩
    refine ⟨lt_of_le_of_ne (Nat.le_of_lt_succ hlt) ?_, hprepared⟩
    rintro rfl
    exact hnot hprepared

/-- A call is handed to the running set. -/
theorem Inv.push (h : Inv b s) (hmay : b.mayFill s) (hprepared : Prepared b s.next)
    {exclusive : Bool} (hexclusive : exclusive = true → s.running = [])
    (honly : Exclusive b s.next → exclusive = true) : Inv b (Batch.push s exclusive) := by
  obtain ⟨hstop, hnext, hroom, hflag⟩ := hmay
  have hnotin : s.next ∉ s.running := fun hmem => h.next_notin (h.flying _ hmem)
  -- no exclusive call is running
  have hrunning : ∀ i ∈ s.running, ¬Exclusive b i := by
    intro i hi hex
    rw [h.exclusive i hi hex] at hflag
    cases hflag
  have hlog : ∀ moment, moment ∈ s.log ++ [Moment.started s.next] ↔
      moment ∈ s.log ∨ moment = .started s.next := fun moment => by simp
  have hfinished : ∀ i, .finished i ∈ s.log ++ [Moment.started s.next] ↔ .finished i ∈ s.log :=
    fun i => by simp
  have hscheduled : Scheduled b (s.log ++ [.started s.next]) := by
    refine h.scheduled.started hprepared (fun i hi => ((h.began i).mp hi).1) ?_ ?_ ?_ ?_
    · rw [← h.running]
      exact hroom
    · rw [← h.running]
      intro i hi hex
      rcases List.mem_append.mp hi with hi | hi
      · exact absurd hex (hrunning i hi)
      · have heq := List.mem_singleton.mp hi
        rw [hexclusive (honly (heq ▸ hex)), heq]
        rfl
    · intro i hi hex
      rw [h.finished]
      exact ⟨(h.began i).mpr ⟨hi, hex.prepared⟩, fun hmem => hrunning i hmem hex⟩
    · intro hfast i hi hfailed
      rw [h.stop.mpr ⟨hfast, i, hi, hfailed⟩] at hstop
      cases hstop
  unfold Batch.push
  refine ⟨h.resultsLength, h.observedLength, fun i item hitem => ?_, hnext, ?_, ?_, fun i => ?_,
    fun i => ?_, fun i hi => ?_, fun hex => ?_, fun i hi hex => ?_, ?_, hscheduled⟩
  · have hslot : slot b (s.log ++ [.started s.next]) i item = slot b s.log i item := by
      unfold slot
      simp only [hfinished]
    exact (h.slots i item hitem).trans (congrArg some hslot.symm)
  · rw [inFlight_started, ← h.running]
  · exact List.nodup_append.mpr ⟨h.nodup, List.pairwise_singleton _ _, fun a ha c hc heq => by
      rw [heq, List.mem_singleton.mp hc] at ha
      exact hnotin ha⟩
  · rw [starts_started, List.mem_append, List.mem_singleton, h.began i]
    constructor
    · rintro (⟨hlt, hi⟩ | rfl)
      · exact ⟨Nat.lt_succ_of_lt hlt, hi⟩
      · exact ⟨Nat.lt_succ_self _, hprepared⟩
    · rintro ⟨hlt, hi⟩
      rcases Nat.lt_succ_iff_lt_or_eq.mp hlt with hlt | heq
      · exact .inl ⟨hlt, hi⟩
      · exact .inr heq
  · rw [hfinished, h.finished i, starts_started, List.mem_append, List.mem_append,
      List.mem_singleton]
    constructor
    · rintro ⟨hstarted, hnot⟩
      refine ⟨.inl hstarted, not_or.mpr ⟨hnot, ?_⟩⟩
      rintro rfl
      exact h.next_notin hstarted
    · rintro ⟨hstarted, hnot⟩
      obtain ⟨hnot, hne⟩ := not_or.mp hnot
      exact ⟨hstarted.resolve_right hne, hnot⟩
  · rw [starts_started, List.mem_append, List.mem_singleton]
    rcases List.mem_append.mp hi with hi | hi
    · exact .inl (h.flying i hi)
    · exact .inr (List.mem_singleton.mp hi)
  · refine ⟨s.next, ?_⟩
    show s.running ++ [s.next] = [s.next]
    rw [hexclusive hex]
    rfl
  · rcases List.mem_append.mp hi with hi | hi
    · exact absurd hex (hrunning i hi)
    · rw [List.mem_singleton.mp hi] at hex
      exact honly hex
  · simp only [hfinished]
    exact h.stop

/-- What the cursor points at, while there is something to point at. -/
theorem Inv.at_next (h : Inv b s) (hnext : s.next < b.items.length) :
    ∃ item, b.items[s.next]? = some item ∧
      s.results[s.next]?.join = slot b s.log s.next item ∧
      b.prepared[s.next]?.join = (b.prepareItem s.next item).toOption := by
  obtain ⟨item, hitem⟩ : ∃ item, b.items[s.next]? = some item :=
    ⟨_, List.getElem?_eq_getElem hnext⟩
  refine ⟨item, hitem, ?_, ?_⟩
  · rw [h.slots _ _ hitem]
    rfl
  · unfold Batch.prepared
    rw [List.getElem?_mapIdx, hitem]
    rfl

/-- A slot that is empty belongs to a call that can be started. -/
theorem Inv.pending (h : Inv b s) (hnext : s.next < b.items.length)
    (hempty : ¬(s.results[s.next]?.join).isSome = true) :
    ∃ item entry, b.items[s.next]? = some item ∧ b.prepareItem s.next item = .ok entry ∧
      b.prepared[s.next]?.join = some entry := by
  obtain ⟨item, hitem, hslot, hprepared⟩ := h.at_next hnext
  rw [hslot, Option.not_isSome_iff_eq_none, slot_eq_none hitem] at hempty
  obtain ⟨⟨item', entry, hitem', hentry⟩, -⟩ := hempty
  rw [hitem] at hitem'
  cases hitem'
  refine ⟨item, entry, hitem, hentry, ?_⟩
  rw [hprepared, hentry]
  rfl

/-- A slot that is filled before its call is started belongs to a call that cannot be. -/
theorem Inv.over (h : Inv b s) (hnext : s.next < b.items.length)
    (hfull : (s.results[s.next]?.join).isSome = true) : ¬Prepared b s.next := by
  intro hprepared
  obtain ⟨item, hitem, hslot, -⟩ := h.at_next hnext
  have hunfinished : Moment.finished s.next ∉ s.log := fun hmem =>
    h.next_notin ((h.finished _).mp hmem).1
  rw [hslot, (slot_eq_none hitem).mpr ⟨hprepared, hunfinished⟩] at hfull
  cases hfull

/-- What a fill leads to. -/
structure Filled (b : Batch) (s t : Scheduler) : Prop where
  inv : Inv b t
  results : t.results = s.results
  busy : t.running = [] → t.stopScheduling = false → b.items.length ≤ t.next

/-- **A fill keeps the invariant**, without a failed `expect`, and stops at the end or with a call
that is running. -/
theorem Inv.fill (hmax : 1 ≤ b.config.maxConcurrency) (h : Inv b s) :
    ∃ t, b.fill s = .ok t ∧ Filled b s t := by
  induction s using Batch.fill.induct (b := b) with
  | case1 s hmay hfull ih =>
    obtain ⟨t, hfill, hinv, hresults, hbusy⟩ := ih (h.skip hmay.2.1 (h.over hmay.2.1 hfull))
    refine ⟨t, ?_, hinv, hresults, hbusy⟩
    rw [Batch.fill, dif_pos hmay, if_pos hfull]
    exact hfill
  | case2 s hmay hempty hnone =>
    obtain ⟨item, entry, -, -, hentry⟩ := h.pending hmay.2.1 hempty
    rw [hnone] at hentry
    cases hentry
  | case3 s hmay hempty entry hentry hexclusive hidle =>
    obtain ⟨item, entry', hitem, hprepare, hentry'⟩ := h.pending hmay.2.1 hempty
    refine ⟨Batch.push s true, ?_, h.push hmay ⟨item, entry', hitem, hprepare⟩ (fun _ => hidle)
      (fun _ => rfl), rfl, fun hnil => ?_⟩
    · rw [Batch.fill, dif_pos hmay, if_neg hempty]
      simp only [hentry, hexclusive, hidle, if_true]
    · exact absurd hnil (by simp [Batch.push])
  | case4 s hmay hempty entry hentry hexclusive hbusy =>
    refine ⟨s, ?_, h, rfl, fun hnil => absurd hnil hbusy⟩
    rw [Batch.fill, dif_pos hmay, if_neg hempty]
    simp only [hentry, hexclusive, hbusy, if_true, if_false]
  | case5 s hmay hempty entry hentry hparallel ih =>
    obtain ⟨item, entry', hitem, hprepare, hentry'⟩ := h.pending hmay.2.1 hempty
    obtain rfl : entry = entry' := Option.some.inj (hentry.symm.trans hentry')
    have honly : Exclusive b s.next → false = true := by
      rintro ⟨item', entry', hitem', hprepare', hnot⟩
      rw [hitem] at hitem'
      cases hitem'
      rw [hprepare] at hprepare'
      cases hprepare'
      rw [hnot] at hparallel
      exact absurd rfl hparallel
    obtain ⟨t, hfill, hinv, hresults, hbusy⟩ := ih (h.push hmay ⟨item, entry, hitem, hprepare⟩
      (fun hfalse => by cases hfalse) honly)
    refine ⟨t, ?_, hinv, hresults, hbusy⟩
    rw [Batch.fill, dif_pos hmay, if_neg hempty]
    simp only [hentry, hparallel]
    exact hfill
  | case6 s hmay =>
    refine ⟨s, by rw [Batch.fill, dif_neg hmay], h, rfl, fun hnil hstop => ?_⟩
    by_contra hlt
    have hflag : s.exclusiveRunning = true := by
      by_contra hflag
      refine hmay ⟨hstop, not_le.mp hlt, ?_, Bool.not_eq_true _ ▸ hflag⟩
      rw [hnil]
      exact hmax
    obtain ⟨i, hi⟩ := h.alone hflag
    rw [hnil] at hi
    cases hi

theorem failed_iff {index : Nat} {item : ToolBatchItem} (hitem : b.items[index]? = some item) :
    Failed b index ↔ ∃ error, (b.executeBatchItem index item).primary = .error error := by
  constructor
  · rintro ⟨item', error, hitem', h⟩
    rw [hitem] at hitem'
    cases hitem'
    exact ⟨error, h⟩
  · rintro ⟨error, h⟩
    exact ⟨item, error, hitem, h⟩

/-- **A call that finishes keeps the invariant.** -/
theorem Inv.complete (h : Inv b s) {index : Nat} {item : ToolBatchItem} (hrunning : index ∈ s.running)
    (hitem : b.items[index]? = some item) : Inv b (b.complete s index item) := by
  have hfinished : ∀ i, .finished i ∈ s.log ++ [Moment.finished index] ↔
      .finished i ∈ s.log ∨ i = index := fun i => by simp
  have herase : ∀ i, i ∈ s.running.erase index ↔ i ≠ index ∧ i ∈ s.running :=
    fun i => h.nodup.mem_erase_iff
  unfold Batch.complete
  refine ⟨?_, ?_, fun i item' hitem' => ?_, h.nextLe, ?_, h.nodup.erase _, fun i => ?_, fun i => ?_,
    fun i hi => ?_, fun hex => (by cases hex), fun i hi hex => ?_, ?_, h.scheduled.finished index⟩
  · exact List.length_set.trans h.resultsLength
  · exact List.length_set.trans h.observedLength
  · by_cases hi : i = index
    · subst hi
      obtain rfl : item = item' := Option.some.inj (hitem.symm.trans hitem')
      obtain ⟨item', entry, hitem', hprepare⟩ := ((h.began i).mp (h.flying i hrunning)).2
      obtain rfl : item = item' := Option.some.inj (hitem.symm.trans hitem')
      have hlt : i < s.results.length := by
        rw [h.resultsLength]
        exact (List.getElem?_eq_some_iff.mp hitem).1
      have hslot : slot b (s.log ++ [.finished i]) i item =
          some (b.executeBatchItem i item).primary := by
        unfold slot
        rw [hprepare]
        exact if_pos ((hfinished i).mpr (.inr rfl))
      rw [hslot]
      exact List.getElem?_set_self hlt
    · have hslot : slot b (s.log ++ [.finished index]) i item' = slot b s.log i item' := by
        unfold slot
        simp only [hfinished, hi, or_false]
      rw [hslot]
      exact (List.getElem?_set_ne (Ne.symm hi)).trans (h.slots i item' hitem')
  · rw [inFlight_finished, ← h.running]
  · rw [starts_finished]
    exact h.began i
  · rw [hfinished, h.finished i, starts_finished, herase]
    constructor
    · rintro (⟨hstarted, hnot⟩ | rfl)
      · exact ⟨hstarted, fun hmem => hnot hmem.2⟩
      · exact ⟨h.flying i hrunning, fun hmem => hmem.1 rfl⟩
    · rintro ⟨hstarted, hnot⟩
      by_cases hi : i = index
      · exact .inr hi
      · exact .inl ⟨hstarted, fun hmem => hnot ⟨hi, hmem⟩⟩
  · rw [starts_finished]
    exact h.flying i ((herase i).mp hi).2
  · -- nothing ran beside an exclusive call
    obtain ⟨hne, hmem⟩ := (herase i).mp hi
    obtain ⟨j, hj⟩ := h.alone (h.exclusive i hmem hex)
    rw [hj, List.mem_singleton] at hmem hrunning
    exact absurd (hmem.trans hrunning.symm) hne
  · have hfailed := failed_iff hitem
    have hmoments : (∃ i, .finished i ∈ s.log ++ [Moment.finished index] ∧ Failed b i) ↔
        (∃ i, .finished i ∈ s.log ∧ Failed b i) ∨ Failed b index := by
      simp only [hfinished]
      constructor
      · rintro ⟨i, hi | rfl, hf⟩
        · exact .inl ⟨i, hi, hf⟩
        · exact .inr hf
      · rintro (⟨i, hi, hf⟩ | hf)
        · exact ⟨i, .inl hi, hf⟩
        · exact ⟨index, .inr rfl, hf⟩
    simp only [hmoments, Bool.or_eq_true, Bool.and_eq_true, h.stop]
    rw [hfailed]
    cases hprimary : (b.executeBatchItem index item).primary with
    | ok result =>
      simp
    | error error =>
      simp only [Except.error.injEq, exists_eq', or_true, and_true, true_and]
      exact ⟨fun h => h.elim And.left id, .inr⟩

/-! ## The end of a batch -/

/-- What is reported of one call, by the log. -/
inductive Outcome (b : Batch) (log : List Moment) (index : Nat) (item : ToolBatchItem) :
    ItemResult → Prop
  | rejected {error : ToolRuntimeError} (hprepare : b.prepareItem index item = .error error)
      (hstart : .started index ∉ log) : Outcome b log index item (.error error)
  | executed {entry : RegisteredTool} (hprepare : b.prepareItem index item = .ok entry)
      (hstart : .started index ∈ log) (hfinish : .finished index ∈ log) :
      Outcome b log index item (b.executeBatchItem index item).primary
  | notStarted {entry : RegisteredTool} (hprepare : b.prepareItem index item = .ok entry)
      (hstart : .started index ∉ log) (hfast : b.failFast = true)
      (hcause : (∃ i < b.items.length, ¬Prepared b i) ∨ ∃ i, .finished i ∈ log ∧ Failed b i) :
      Outcome b log index item (item.notStarted index)

/-- What a report says of the calls. -/
structure Reported (b : Batch) (log : List Moment) (report : ToolBatchReport) : Prop where
  callIds : report.callIds = b.items.map fun item => item.call.id
  length : report.results.length = b.items.length
  observed : report.terminalObserverFailures.length = b.items.length
  outcome : ∀ i item, b.items[i]? = some item →
    ∃ result, report.results[i]? = some result ∧ Outcome b log i item result

theorem mapM_id_eq_some {α : Type} : ∀ {l : List (Option α)}, (∀ o ∈ l, o ≠ none) →
    ∃ r, l.mapM id = some r ∧ l = r.map some
  | [], _ => ⟨[], rfl, rfl⟩
  | o :: l, h => by
    obtain ⟨ho, hl⟩ := List.forall_mem_cons.mp h
    obtain ⟨a, rfl⟩ := Option.ne_none_iff_exists'.mp ho
    obtain ⟨r, hr, hmap⟩ := mapM_id_eq_some hl
    refine ⟨a :: r, ?_, congrArg (some a :: ·) hmap⟩
    rw [List.mapM_cons, hr]
    rfl

/-- A report comes out when every slot is filled, and is what the slots hold. -/
theorem finishReport_eq {results : List (Option ItemResult)}
    {observed : List (Option ToolObserverFailure)} {log : List Moment}
    (hlength : results.length = b.items.length) (hobserved : observed.length = b.items.length)
    (houtcome : ∀ i item, b.items[i]? = some item →
      ∃ result, results[i]? = some (some result) ∧ Outcome b log i item result) :
    ∃ report, b.finishReport results observed log = .returned log report ∧ Reported b log report := by
  have hsome : ∀ o ∈ results, o ≠ none := by
    intro o ho
    obtain ⟨i, hi, rfl⟩ := List.mem_iff_getElem.mp ho
    have hitem : i < b.items.length := hlength ▸ hi
    obtain ⟨result, hresult, -⟩ := houtcome i _ (List.getElem?_eq_getElem hitem)
    rw [List.getElem?_eq_getElem hi] at hresult
    rw [Option.some.inj hresult]
    exact Option.some_ne_none _
  obtain ⟨rs, hrs, hmap⟩ := mapM_id_eq_some hsome
  refine ⟨⟨b.items.map fun item => item.call.id, rs, observed⟩, ?_, rfl, ?_, hobserved,
    fun i item hitem => ?_⟩
  · unfold Batch.finishReport
    rw [hrs]
  · rw [← hlength, hmap, List.length_map]
  · obtain ⟨result, hresult, h⟩ := houtcome i item hitem
    refine ⟨result, ?_, h⟩
    rw [hmap, List.getElem?_map] at hresult
    cases hget : rs[i]? with
    | none =>
      rw [hget] at hresult
      cases hresult
    | some r =>
      rw [hget] at hresult
      exact congrArg some (Option.some.inj (Option.some.inj hresult))

/-- Without a running call, a call that was started has finished. -/
theorem Inv.finished_of_idle (h : Inv b s) (hidle : s.running = []) {i : Nat} :
    .finished i ∈ s.log ↔ .started i ∈ s.log := by
  rw [h.finished i, mem_starts, hidle]
  exact and_iff_left List.not_mem_nil

/-- The slot of a call that is over holds its outcome. -/
theorem Inv.outcome (h : Inv b s) {i : Nat} {item : ToolBatchItem} (hitem : b.items[i]? = some item)
    {result : ItemResult} (hslot : slot b s.log i item = some result) :
    Outcome b s.log i item result := by
  unfold slot at hslot
  split at hslot
  · rename_i error hprepare
    cases hslot
    refine .rejected hprepare fun hmem => ?_
    obtain ⟨item', entry, hitem', hentry⟩ := ((h.began i).mp (mem_starts.mpr hmem)).2
    obtain rfl : item = item' := Option.some.inj (hitem.symm.trans hitem')
    rw [hprepare] at hentry
    cases hentry
  · rename_i entry hprepare
    split at hslot
    · rename_i hfinish
      cases hslot
      exact .executed hprepare (mem_starts.mp ((h.finished i).mp hfinish).1) hfinish
    · cases hslot

/-- The report of a batch whose calls were all looked at. -/
theorem Inv.report (h : Inv b s) (hidle : s.running = []) (hnext : b.items.length ≤ s.next) :
    ∃ report, b.finishReport s.results s.observerFailures s.log = .returned s.log report ∧
      Reported b s.log report := by
  refine finishReport_eq h.resultsLength h.observedLength fun i item hitem => ?_
  have hfull : slot b s.log i item ≠ none := by
    intro hnone
    obtain ⟨hprepared, hunfinished⟩ := (slot_eq_none hitem).mp hnone
    have hlt : i < s.next := (List.getElem?_eq_some_iff.mp hitem).1.trans_le hnext
    exact hunfinished ((h.finished_of_idle hidle).mpr
      (mem_starts.mp ((h.began i).mpr ⟨hlt, hprepared⟩)))
  obtain ⟨result, hresult⟩ := Option.ne_none_iff_exists'.mp hfull
  exact ⟨result, (h.slots i item hitem).trans (congrArg some hresult), h.outcome hitem hresult⟩

/-- The report of a batch that stops early. -/
theorem Inv.report_stopped (h : Inv b s) (hidle : s.running = []) (hfast : b.failFast = true)
    (hcause : (∃ i < b.items.length, ¬Prepared b i) ∨ ∃ i, .finished i ∈ s.log ∧ Failed b i) :
    ∃ report, b.finishReport (b.markNotStarted s.results) s.observerFailures s.log =
      .returned s.log report ∧ Reported b s.log report := by
  refine finishReport_eq ?_ h.observedLength fun i item hitem => ?_
  · unfold Batch.markNotStarted
    rw [List.length_mapIdx, List.length_zip, h.resultsLength, Nat.min_self]
  have hmarked : (b.markNotStarted s.results)[i]? =
      some ((slot b s.log i item).or (some (item.notStarted i))) := by
    have hzip : (b.items.zip s.results)[i]? = some (item, slot b s.log i item) :=
      List.getElem?_zip_eq_some.mpr ⟨hitem, h.slots i item hitem⟩
    unfold Batch.markNotStarted
    rw [List.getElem?_mapIdx, hzip]
    rfl
  cases hslot : slot b s.log i item with
  | some result =>
    rw [hslot] at hmarked
    exact ⟨result, hmarked, h.outcome hitem hslot⟩
  | none =>
    rw [hslot] at hmarked
    obtain ⟨⟨item', entry, hitem', hprepare⟩, hunfinished⟩ := (slot_eq_none hitem).mp hslot
    obtain rfl : item = item' := Option.some.inj (hitem.symm.trans hitem')
    refine ⟨item.notStarted i, hmarked, .notStarted hprepare (fun hmem => ?_) hfast hcause⟩
    exact hunfinished ((h.finished_of_idle hidle).mpr hmem)

/-- The scheduler starts with the invariant. -/
theorem inv_start (b : Batch) : Inv b b.start := by
  refine ⟨List.length_mapIdx, List.length_mapIdx, fun i item hitem => ?_, Nat.zero_le _, rfl,
    List.nodup_nil, fun i => ?_, fun i => ?_, fun i hi => (by cases hi), fun h => (by cases h),
    fun i hi => (by cases hi), ?_, scheduled_nil⟩
  · show b.rejected[i]? = _
    unfold Batch.rejected slot
    rw [List.getElem?_mapIdx, hitem]
    simp only [Option.map_some, Option.some.injEq]
    cases b.prepareItem i item with
    | ok entry => exact (if_neg List.not_mem_nil).symm
    | error error => rfl
  · exact ⟨fun h => (by cases h), fun h => absurd h.1 (Nat.not_lt_zero i)⟩
  · exact ⟨fun h => (by cases h), fun h => (by cases h.1)⟩
  · constructor
    · intro h
      cases h
    · rintro ⟨-, i, hi, -⟩
      cases hi

/-- A call is rejected before any is started exactly when one cannot be prepared. -/
theorem rejected_any (b : Batch) :
    b.rejected.any Option.isSome = true ↔ ∃ i < b.items.length, ¬Prepared b i := by
  have hlength : b.rejected.length = b.items.length := List.length_mapIdx
  rw [List.any_eq_true]
  constructor
  · rintro ⟨o, ho, hsome⟩
    obtain ⟨i, hi, rfl⟩ := List.mem_iff_getElem.mp ho
    have hlt : i < b.items.length := hlength ▸ hi
    have hitem := List.getElem?_eq_getElem hlt
    have hget : b.rejected[i]? = some (slot b [] i b.items[i]) := (inv_start b).slots i _ hitem
    refine ⟨i, hlt, fun hprepared => ?_⟩
    rw [(slot_eq_none hitem).mpr ⟨hprepared, List.not_mem_nil⟩, List.getElem?_eq_getElem hi] at hget
    rw [Option.some.inj hget] at hsome
    cases hsome
  · rintro ⟨i, hlt, hnot⟩
    have hitem := List.getElem?_eq_getElem hlt
    have hslot : b.rejected[i]? = _ := (inv_start b).slots i _ hitem
    cases hempty : slot b b.start.log i b.items[i] with
    | none => exact absurd ((slot_eq_none hitem).mp hempty).1 hnot
    | some result =>
      rw [hempty] at hslot
      exact ⟨some result, List.mem_of_getElem? hslot, rfl⟩

end Invariant

/-! ## Whole runs -/

section Runs

variable (b : Batch)

/-- In a batch that fails fast, every call can be prepared once the scheduler runs. -/
def Cleared : Prop := b.failFast = true → ∀ i < b.items.length, Prepared b i

/-- What holds of every phase that is reached. -/
def Good : Phase → Prop
  | .scheduling s => Inv b s ∧ Cleared b
  | .returned log report => Scheduled b log ∧ Reported b log report ∧
      (b.failFast = true → (∃ i < b.items.length, ¬Prepared b i) → log = []) ∧
      ∀ i, .started i ∈ log → .finished i ∈ log
  | .panicked _ => False

variable {b}

theorem good_of_report {s : Scheduler} (h : Inv b s) (hidle : s.running = []) (hcleared : Cleared b)
    {report : ToolBatchReport} (hreport : Reported b s.log report) :
    Good b (.returned s.log report) := by
  refine ⟨h.scheduled, hreport, ?_, fun i hi => (h.finished_of_idle hidle).mpr hi⟩
  rintro hfast ⟨i, hlt, hnot⟩
  exact absurd (hcleared hfast i hlt) hnot

/-- A turn leads from good phases to good phases. -/
theorem Good.turn (hmax : 1 ≤ b.config.maxConcurrency) {p p' : Phase} (h : Good b p)
    (hturn : b.Turn p p') : Good b p' := by
  cases hturn with
  | panics hfill =>
    obtain ⟨t, ht, -⟩ := h.1.fill hmax
    rw [hfill] at ht
    cases ht
  | stops hfill hidle hstop =>
    obtain ⟨t, ht, hinv, -, -⟩ := h.1.fill hmax
    rw [hfill] at ht
    cases ht
    obtain ⟨hfast, hcause⟩ := hinv.stop.mp hstop
    obtain ⟨report, heq, hreport⟩ := hinv.report_stopped hidle hfast (.inr hcause)
    rw [heq]
    exact good_of_report hinv hidle h.2 hreport
  | ends hfill hidle hstop hnext =>
    obtain ⟨t, ht, hinv, -, -⟩ := h.1.fill hmax
    rw [hfill] at ht
    cases ht
    obtain ⟨report, heq, hreport⟩ := hinv.report hidle hnext
    rw [heq]
    exact good_of_report hinv hidle h.2 hreport
  | idles hfill hidle hstop hnext =>
    obtain ⟨t, ht, -, -, hbusy⟩ := h.1.fill hmax
    rw [hfill] at ht
    cases ht
    exact absurd (hbusy hidle hstop) (not_le.mpr hnext)
  | completes hfill hrunning hitem =>
    obtain ⟨t, ht, hinv, -, -⟩ := h.1.fill hmax
    rw [hfill] at ht
    cases ht
    exact ⟨hinv.complete hrunning hitem, h.2⟩

theorem Good.run (hmax : 1 ≤ b.config.maxConcurrency) {p p' : Phase} (h : Good b p)
    (hrun : Relation.ReflTransGen b.Turn p p') : Good b p' := by
  induction hrun with
  | refl => exact h
  | tail _ hturn ih => exact ih.turn hmax hturn

/-- The scheduler goes on. -/
theorem Inv.turns (hmax : 1 ≤ b.config.maxConcurrency) {s : Scheduler} (h : Inv b s) :
    ∃ p, b.Turn (.scheduling s) p := by
  obtain ⟨t, hfill, hinv, -, hbusy⟩ := h.fill hmax
  by_cases hidle : t.running = []
  · cases hstop : t.stopScheduling with
    | true => exact ⟨_, .stops hfill hidle hstop⟩
    | false => exact ⟨_, .ends hfill hidle hstop (hbusy hidle hstop)⟩
  · obtain ⟨index, hindex⟩ := List.exists_mem_of_ne_nil _ hidle
    obtain ⟨item, -, hitem, -⟩ := ((hinv.began index).mp (hinv.flying index hindex)).2
    exact ⟨_, .completes hfill hindex hitem⟩

/-- How many slots are empty. -/
def pendingSlots (s : Scheduler) : Nat := s.results.countP Option.isNone

theorem pendingSlots_complete {s : Scheduler} (h : Inv b s) {index : Nat} {item : ToolBatchItem}
    (hrunning : index ∈ s.running) (hitem : b.items[index]? = some item) :
    pendingSlots (b.complete s index item) < pendingSlots s := by
  have hslot : s.results[index]? = some none := by
    rw [h.slots index item hitem, (slot_eq_none hitem).mpr]
    refine ⟨((h.began index).mp (h.flying index hrunning)).2, fun hmem => ?_⟩
    exact ((h.finished index).mp hmem).2 hrunning
  obtain ⟨hlt, hget⟩ := List.getElem?_eq_some_iff.mp hslot
  unfold pendingSlots Batch.complete
  simp only
  rw [List.countP_set hlt, hget]
  have hpos : 0 < s.results.countP Option.isNone :=
    List.countP_pos_iff.mpr ⟨none, List.mem_of_getElem? hslot, rfl⟩
  simp only [Option.isNone_none, Option.isNone_some, if_true, Bool.false_eq_true, if_false]
  omega

/-- A batch that has ended has ended. -/
theorem acc_finishReport (results : List (Option ItemResult))
    (observed : List (Option ToolObserverFailure)) (log : List Moment) :
    Acc (fun p' p => b.Turn p p') (b.finishReport results observed log) := by
  refine Acc.intro _ fun p hturn => ?_
  unfold Batch.finishReport at hturn
  split at hturn
  · cases hturn
  · cases hturn

/-- **Every run ends.** -/
theorem Inv.ends (hmax : 1 ≤ b.config.maxConcurrency) {s : Scheduler} (h : Inv b s) :
    Acc (fun p' p => b.Turn p p') (.scheduling s) := by
  -- each turn that does not end the batch fills a slot
  induction hn : pendingSlots s using Nat.strong_induction_on generalizing s with
  | _ n ih =>
    refine Acc.intro _ fun p hturn => ?_
    obtain ⟨t, ht, hinv, hresults, hbusy⟩ := h.fill hmax
    cases hturn with
    | panics hfill =>
      rw [hfill] at ht
      cases ht
    | stops hfill hidle hstop => exact acc_finishReport _ _ _
    | ends hfill hidle hstop hnext => exact acc_finishReport _ _ _
    | idles hfill hidle hstop hnext =>
      rw [hfill] at ht
      cases ht
      exact absurd (hbusy hidle hstop) (not_le.mpr hnext)
    | completes hfill hrunning hitem =>
      rw [hfill] at ht
      cases ht
      refine ih _ ?_ (hinv.complete hrunning hitem) rfl
      have hlt := pendingSlots_complete hinv hrunning hitem
      have hsame : pendingSlots t = pendingSlots s := by
        unfold pendingSlots
        rw [hresults]
      omega

end Runs

/-- A batch that is well comes to a report. -/
theorem Good.returns (hmax : 1 ≤ b.config.maxConcurrency) {p : Phase} (h : Good b p)
    (hacc : Acc (fun p' p => b.Turn p p') p) :
    ∃ log report, Relation.ReflTransGen b.Turn p (.returned log report) := by
  induction hacc with
  | intro p _ ih =>
    cases p with
    | scheduling s =>
      obtain ⟨p', hturn⟩ := h.1.turns hmax
      obtain ⟨log, report, hrun⟩ := ih p' hturn (h.turn hmax hturn)
      exact ⟨log, report, .head hturn hrun⟩
    | returned log report => exact ⟨log, report, .refl⟩
    | panicked expectation => exact h.elim

/-! ## What a batch delivers -/

section Delivering

variable (b : Batch)

/-- What the same call comes to when it is executed by itself. -/
def single (index : Nat) (item : ToolBatchItem) : ItemResult :=
  (b.runtime.executeReportWithOptions (b.answers index) item.call item.options).primary

/-- What a batch delivers. -/
structure Delivered (log : List Moment) (report : ToolBatchReport) : Prop where
  scheduled : Scheduled b log
  callIds : report.callIds = b.items.map fun item => item.call.id
  length : report.results.length = b.items.length
  drained : ∀ i, .started i ∈ log → .finished i ∈ log
  results : ∀ i item, b.items[i]? = some item → ∃ result, report.results[i]? = some result ∧
    (∀ error, result = .error error → error.context = callContext item.call (some i)) ∧
    ((.started i ∈ log ∨ ¬Prepared b i) → result.mapError ToolRuntimeError.single = single b i item) ∧
    (Prepared b i → .started i ∉ log → result = item.notStarted i)
  collectAll : b.failFast = false → ∀ i, Prepared b i → .started i ∈ log
  failFast : b.failFast = true → (∃ i < b.items.length, ¬Prepared b i) → log = []
  caused : (∃ i, Prepared b i ∧ .started i ∉ log) →
    (∃ i < b.items.length, ¬Prepared b i) ∨ ∃ i, .finished i ∈ log ∧ Failed b i

/-- What holds wherever a run of a batch is: it goes on, or it has delivered. -/
def Sound : Phase → Prop
  | .scheduling s => Scheduled b s.log ∧ ∃ p, b.Turn (.scheduling s) p
  | .returned log report => Delivered b log report
  | .panicked _ => False

variable {b} {log : List Moment} {index : Nat} {item : ToolBatchItem} {result : ItemResult}

theorem mapError_map {ε ε' α β : Type} (x : Except ε α) (f : α → β) (g : ε → ε') :
    (x.map f).mapError g = (x.mapError g).map f := by
  cases x <;> rfl

/-- A call that cannot be prepared fails by itself as well. -/
theorem single_rejected {error : ToolRuntimeError}
    (h : b.prepareItem index item = .error error) : .error error.single = single b index item := by
  have hsingle : (b.runtime.prepare item.call item.options
    (callContext item.call (some index))).mapError _ = _ := prepare_single index
  unfold Batch.prepareItem at h
  rw [h, mapError_error] at hsingle
  unfold single ToolRuntime.executeReportWithOptions ToolRuntime.executeOutputReportWithOptions
  simp only [← hsingle]
  rfl

/-- An execution in the batch is that of the call by itself. -/
theorem single_executed {entry : RegisteredTool} (h : b.prepareItem index item = .ok entry) :
    (b.executeBatchItem index item).primary.mapError ToolRuntimeError.single = single b index item := by
  have hsingle : (b.runtime.prepare item.call item.options
    (callContext item.call (some index))).mapError _ = _ := prepare_single index
  unfold Batch.prepareItem at h
  rw [h, mapError_ok] at hsingle
  unfold single ToolRuntime.executeReportWithOptions ToolRuntime.executeOutputReportWithOptions
  simp only [← hsingle]
  show ((b.runtime.executePrepared _ _ _).primary.map ToolOutput.result).mapError _ = _
  rw [mapError_map, executePrepared_single]
  rfl

theorem Outcome.own (h : Outcome b log index item result) {error : ToolRuntimeError}
    (herror : result = .error error) : error.context = callContext item.call (some index) := by
  cases h with
  | rejected hprepare hstart =>
    cases herror
    exact prepare_context hprepare
  | executed hprepare hstart hfinish =>
    replace herror : (b.runtime.executePrepared _ _ _).primary.map ToolOutput.result = .error error :=
      herror
    cases hprimary : (b.runtime.executePrepared (b.answers index) item.options
        (callContext item.call (some index))).primary with
    | ok output =>
      rw [hprimary] at herror
      cases herror
    | error e =>
      rw [hprimary] at herror
      cases herror
      exact executePrepared_context hprimary
  | notStarted hprepare hstart hfast hcause =>
    cases herror
    rfl

/-- **What is reported is what is delivered.** -/
theorem delivered_of_good {report : ToolBatchReport} (h : Good b (.returned log report)) :
    Delivered b log report := by
  obtain ⟨hscheduled, hreport, hrejects, hdrained⟩ := h
  have hitem : ∀ {i}, Prepared b i → ∃ item entry, b.items[i]? = some item ∧
      b.prepareItem i item = .ok entry := id
  refine ⟨hscheduled, hreport.callIds, hreport.length, hdrained, fun i item hi => ?_,
    fun hall i hprepared => ?_, hrejects, ?_⟩
  · obtain ⟨result, hresult, houtcome⟩ := hreport.outcome i item hi
    refine ⟨result, hresult, fun error => houtcome.own, fun hover => ?_, fun hprepared hnot => ?_⟩
    · cases houtcome with
      | rejected hprepare hstart => exact single_rejected hprepare
      | executed hprepare hstart hfinish => exact single_executed hprepare
      | notStarted hprepare hstart hfast hcause =>
        exact absurd hover (not_or.mpr ⟨hstart, not_not.mpr ⟨item, _, hi, hprepare⟩⟩)
    · cases houtcome with
      | rejected hprepare hstart =>
        obtain ⟨item', entry, hitem', hentry⟩ := hprepared
        obtain rfl : item = item' := Option.some.inj (hi.symm.trans hitem')
        rw [hprepare] at hentry
        cases hentry
      | executed hprepare hstart hfinish => exact absurd hstart hnot
      | notStarted hprepare hstart hfast hcause => rfl
  · obtain ⟨item, entry, hi, hprepare⟩ := hprepared
    obtain ⟨result, -, houtcome⟩ := hreport.outcome i item hi
    cases houtcome with
    | rejected hprepare' hstart =>
      rw [hprepare] at hprepare'
      cases hprepare'
    | executed hprepare hstart hfinish => exact hstart
    | notStarted hprepare hstart hfast hcause =>
      rw [hall] at hfast
      cases hfast
  · rintro ⟨i, ⟨item, entry, hi, hprepare⟩, hnot⟩
    obtain ⟨result, -, houtcome⟩ := hreport.outcome i item hi
    cases houtcome with
    | rejected hprepare' hstart =>
      rw [hprepare] at hprepare'
      cases hprepare'
    | executed hprepare hstart hfinish => exact absurd hstart hnot
    | notStarted hprepare hstart hfast hcause => exact hcause

theorem sound_of_good (hmax : 1 ≤ b.config.maxConcurrency) {p : Phase} (h : Good b p) : Sound b p := by
  cases p with
  | scheduling s => exact ⟨h.1.scheduled, h.1.turns hmax⟩
  | returned log report => exact delivered_of_good h
  | panicked expectation => exact h

/-- Every batch that passes its checks starts well. -/
theorem enter_good (hmax : 1 ≤ b.config.maxConcurrency)
    (hids : (b.items.map fun item => item.call.id).Nodup) :
    ∃ p, b.enter = .ok p ∧ Good b p ∧ Acc (fun p' p => b.Turn p p') p := by
  have hvalid := validateUniqueCallIds_eq_ok.mpr hids
  unfold Batch.enter
  rw [if_neg (Nat.one_le_iff_ne_zero.mp hmax), hvalid, ok_bind]
  by_cases hrejects : (b.failFast && b.rejected.any Option.isSome) = true
  · rw [if_pos hrejects]
    obtain ⟨hfast, hany⟩ := Bool.and_eq_true_iff.mp hrejects
    obtain ⟨report, hreport, hreported⟩ := (inv_start b).report_stopped rfl hfast
      (.inl ((rejected_any b).mp hany))
    refine ⟨_, rfl, ?_, acc_finishReport _ _ _⟩
    have heq : b.finishReport (b.markNotStarted b.rejected) b.rejectedObserved [] =
        .returned [] report := hreport
    rw [heq]
    exact ⟨scheduled_nil, hreported, fun _ _ => rfl, fun i hi => by cases hi⟩
  · rw [if_neg hrejects]
    refine ⟨_, rfl, ⟨inv_start b, fun hfast i hlt => ?_⟩, (inv_start b).ends hmax⟩
    by_contra hnot
    exact hrejects (Bool.and_eq_true_iff.mpr ⟨hfast, (rejected_any b).mpr ⟨i, hlt, hnot⟩⟩)

/-- **Batch scheduling.** A batch of calls with different identifiers is executed in finitely many
turns, whatever the order in which its running calls finish. On the way the schedule is kept, and at
the end every call has its result. -/
theorem batch_scheduling (hmax : 1 ≤ b.config.maxConcurrency)
    (hids : (b.items.map fun item => item.call.id).Nodup) :
    ∃ p, b.enter = .ok p ∧ Acc (fun p' p => b.Turn p p') p ∧
      ∀ p', Relation.ReflTransGen b.Turn p p' → Sound b p' := by
  obtain ⟨p, henter, hgood, hacc⟩ := enter_good hmax hids
  exact ⟨p, henter, hacc, fun p' hrun => sound_of_good hmax (hgood.run hmax hrun)⟩

/-! ### Two calls that fail fast -/

section Example

/-- A tool that may run beside others. -/
def echo : RegisteredTool where
  definition := ⟨⟨"echo", nonblank_echo⟩, "repeats its input", .object []⟩
  behavior := .new .readOnly
  validator := fun _ => .ok ()

theorem nodup_echo : ([echo].map fun entry => entry.definition.name).Nodup :=
  List.pairwise_singleton _ _

/-- Two calls of it, one at a time. The first fails. -/
def echoes : Batch where
  runtime := ⟨⟨[echo], nodup_echo⟩, 0⟩
  items := [.new ⟨⟨"a", nonblank_a⟩, echo.definition.name, .null, .empty⟩,
    .new ⟨⟨"b", nonblank_b⟩, echo.definition.name, .null, .empty⟩]
  config := ⟨1, .failFast⟩
  answers := fun index => ⟨[], false, if index = 0 then .error ⟨.other, "broken"⟩
    else .ok ⟨⟨[], false⟩, .empty⟩, []⟩

theorem batch_scheduling_echoes : ∃ p, echoes.enter = .ok p ∧
    Acc (fun p' p => echoes.Turn p p') p ∧
      ∀ p', Relation.ReflTransGen echoes.Turn p p' → Sound echoes p' :=
  batch_scheduling (by decide) (by decide +kernel)

end Example

end Delivering

end GroupAgent.Tool
