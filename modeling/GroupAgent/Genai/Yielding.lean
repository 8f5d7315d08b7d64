import GroupAgent.Genai.Retained

/-!
# What a text stream yields

What `GenaiEventStream` (`stream.rs:21-36`, `poll_next` 397-483 of `crates/group-agent-genai/src`)
yields, whatever the provider sends and however often it is polled:

* `pollOnce_polled`: what one answer of the provider comes to. `pollNext_takes`: what a poll takes
  of the items that are due.
* `yields_due`: the items come out one after the other, and then nothing is polled.
* `items_ordered`, `items_past`: the items of what the provider sends, up to the first answer that
  does not pass.

Results: the items of a stream are a function of the provider's answers alone. Polls that find the
provider pending add nothing to them.

A provider that ends without an `End` gives one error, as do its own errors and an answer the
wrapper refuses.
-/

namespace GroupAgent.Genai

open GroupAgent.Lib GroupAgent.Model GroupAgent.Model.ChatStreamCollector
open GroupAgent.Prebuilt (Poll)

/-! ## What the provider sends -/

def chunk? : Answer → Option String
  | .ready (some (.ok (.chunk content))) => some content
  | _ => none

def reasoningChunk? : Answer → Option String
  | .ready (some (.ok (.reasoningChunk content))) => some content
  | _ => none

def isStart : Answer → Bool
  | .ready (some (.ok .start)) => true
  | _ => false

/-- The stream goes on after the answer. -/
def Proceeds : Answer → Prop
  | .pending | .ready (some (.ok .start)) | .ready (some (.ok (.chunk _)))
  | .ready (some (.ok (.reasoningChunk _))) => True
  | _ => False

/-- The items for the text. -/
def texts (answers : List Answer) : List Item :=
  (answers.filterMap chunk?).map fun content => .ok (.textDelta content)

/-- The reasoning that is streamed, where it is retained. -/
def streamed (config : GenaiAdapterConfig) (answers : List Answer) : String :=
  config.kept (concat (answers.filterMap reasoningChunk?))

/-- Answers that come before an `End`: with one start at most, and reasoning up to the limit. -/
structure Passes (config : GenaiAdapterConfig) (started : Bool) (reasoning : String)
    (answers : List Answer) : Prop where
  proceeds : ∀ answer ∈ answers, Proceeds answer
  starts : answers.countP isStart + started.toNat ≤ 1
  fits : config.Fits (reasoning ++ streamed config answers)

/-- One error. -/
def OneError (tail : List Item) : Prop := ∃ error, tail = [.error error]

/-- The text of the answers up to the first that does not pass comes out in order, and then one
error, or the events of the end, if it is an `End`. -/
def Ordered (config : GenaiAdapterConfig) (started : Bool) (reasoning : String)
    (inner : List Answer) (items : List Item) : Prop :=
  ∃ before after tail, inner = before ++ after ∧ Passes config started reasoning before ∧
    (∀ answer ∈ after.head?, ¬Passes config started reasoning (before ++ [answer])) ∧
    items = texts before ++ tail ∧
    (OneError tail ∨ ∃ last reasoning, after.head? = some (.ready (some (.ok (.streamEnd last)))) ∧
      Completes config reasoning last.signatures tail)

section Passing

variable {config : GenaiAdapterConfig} {started : Bool} {reasoning : String} {answer : Answer}
  {answers : List Answer}

theorem texts_cons_none (h : chunk? answer = none) : texts (answer :: answers) = texts answers := by
  unfold texts
  rw [List.filterMap_cons_none h]

theorem streamed_nil : streamed config [] = "" := by
  unfold streamed GenaiAdapterConfig.kept
  split <;> rfl

theorem streamed_cons_none (h : reasoningChunk? answer = none) :
    streamed config (answer :: answers) = streamed config answers := by
  unfold streamed
  rw [List.filterMap_cons_none h]

theorem streamed_cons (content : String) :
    streamed config (.ready (some (.ok (.reasoningChunk content))) :: answers) =
      config.kept content ++ streamed config answers :=
  GenaiAdapterConfig.kept_append

theorem passes_nil (hfits : config.Fits reasoning) : Passes config started reasoning [] where
  proceeds := by simp
  starts := by cases started <;> decide
  fits := by rwa [streamed_nil, String.append_empty]

/-- An answer that is neither a start nor reasoning. -/
theorem passes_cons_iff (hproceeds : Proceeds answer) (hstart : isStart answer = false)
    (hreasoning : reasoningChunk? answer = none) :
    Passes config started reasoning (answer :: answers) ↔
      Passes config started reasoning answers := by
  constructor
  · intro h
    have hfits := h.fits
    rw [streamed_cons_none hreasoning] at hfits
    exact ⟨(List.forall_mem_cons.mp h.proceeds).2, by simpa [hstart] using h.starts, hfits⟩
  · intro h
    refine ⟨List.forall_mem_cons.mpr ⟨hproceeds, h.proceeds⟩,
      by simpa [hstart] using h.starts, ?_⟩
    rw [streamed_cons_none hreasoning]
    exact h.fits

theorem passes_start_iff : Passes config started reasoning (.ready (some (.ok .start)) :: answers) ↔
    started = false ∧ Passes config true reasoning answers := by
  have hcount : List.countP isStart (.ready (some (.ok .start)) :: answers) =
      answers.countP isStart + 1 := List.countP_cons_of_pos rfl
  constructor
  · intro h
    have hfits := h.fits
    have hstarts := h.starts
    rw [streamed_cons_none rfl] at hfits
    rw [hcount] at hstarts
    cases started with
    | false => exact ⟨rfl, (List.forall_mem_cons.mp h.proceeds).2, hstarts, hfits⟩
    | true => simp at hstarts
  · rintro ⟨rfl, h⟩
    refine ⟨List.forall_mem_cons.mpr ⟨trivial, h.proceeds⟩, ?_, ?_⟩
    · rw [hcount]
      exact h.starts
    · rw [streamed_cons_none rfl]
      exact h.fits

theorem passes_reasoningChunk_iff (content : String) :
    Passes config started reasoning (.ready (some (.ok (.reasoningChunk content))) :: answers) ↔
      Passes config started (reasoning ++ config.kept content) answers := by
  have hstreamed : reasoning ++
      streamed config (.ready (some (.ok (.reasoningChunk content))) :: answers) =
        reasoning ++ config.kept content ++ streamed config answers := by
    rw [streamed_cons, String.append_assoc]
  constructor
  · intro h
    exact ⟨(List.forall_mem_cons.mp h.proceeds).2, by simpa [isStart] using h.starts,
      hstreamed ▸ h.fits⟩
  · intro h
    exact ⟨List.forall_mem_cons.mpr ⟨trivial, h.proceeds⟩, by simpa [isStart] using h.starts,
      hstreamed ▸ h.fits⟩

theorem not_passes (h : ¬Proceeds answer) :
    ¬Passes config started reasoning (answer :: answers) :=
  fun hpasses => h (List.forall_mem_cons.mp hpasses.proceeds).1

end Passing

namespace GenaiEventStream

/-! ## One answer -/

/-- What is retained is within the limits. -/
structure Within (this : GenaiEventStream) : Prop where
  reasoning : this.config.Fits this.reasoning
  signatures : this.config.Bounds this.thoughtSignatures
  bytes : this.thoughtSignatureBytes ≤ this.config.streamingLimits.maxThoughtSignatureBytes

/-- A stream that has ended, with all else as it was. -/
structure Ended (this next : GenaiEventStream) : Prop where
  terminal : next.terminal = true
  inner : next.inner = this.inner
  config : next.config = this.config
  reasoning : next.reasoning = this.reasoning
  thoughtSignatures : next.thoughtSignatures = this.thoughtSignatures
  thoughtSignatureBytes : next.thoughtSignatureBytes = this.thoughtSignatureBytes

/-- What an answer comes to. -/
inductive Polled (this : GenaiEventStream) :
    Answer → Option (Poll (Option Item)) → GenaiEventStream → Prop where
  | waits : Polled this .pending (some .pending) this
  | starts (hnew : this.sawStart = false) :
      Polled this (.ready (some (.ok .start))) none { this with sawStart := true }
  | reasons (content : String) (hfits : this.config.Fits (this.adding content).reasoning) :
      Polled this (.ready (some (.ok (.reasoningChunk content)))) none (this.adding content)
  | text (content : String) : Polled this (.ready (some (.ok (.chunk content))))
      (some (.ready (some (.ok (.textDelta content))))) this
  | finishes (last : StreamEnd) (next : GenaiEventStream) (item : Item) (pending : List Item)
      (hend : this.handleEnd last = .ok next) (hpending : next.pending = item :: pending) :
      Polled this (.ready (some (.ok (.streamEnd last)))) (some (.ready (some item)))
        { next with pending, terminal := pending.isEmpty }
  | fails (answer : Answer) (error : ModelError) (next : GenaiEventStream)
      (hstop : ¬Passes this.config this.sawStart this.reasoning [answer])
      (hended : Ended this next) :
      Polled this answer (some (.ready (some (.error error)))) next

section Answers

variable {this next : GenaiEventStream}

theorem Opened.within (h : this.Opened) : this.Within := by
  refine ⟨h.keeps.fits, ?_, ?_⟩
  · unfold GenaiAdapterConfig.Bounds
    rw [h.thoughtSignatures]
    exact Nat.zero_le _
  · rw [h.thoughtSignatureBytes]
    exact Nat.zero_le _

theorem Opened.not_terminal (h : this.Opened) : ¬this.terminal = true :=
  Bool.eq_false_iff.mp h.terminal

theorem Opened.not_ended (h : this.Opened) : ¬this.sawEnd = true := Bool.eq_false_iff.mp h.sawEnd

theorem Ended.within (h : Ended this next) (hwithin : this.Within) : next.Within := by
  refine ⟨?_, ?_, ?_⟩
  · rw [h.config, h.reasoning]
    exact hwithin.reasoning
  · rw [h.config, h.thoughtSignatures]
    exact hwithin.signatures
  · rw [h.config, h.thoughtSignatureBytes]
    exact hwithin.bytes

theorem ended_fail (error : GenaiMappingError) : Ended this (this.fail error).2 :=
  ⟨rfl, rfl, rfl, rfl, rfl, rfl⟩

theorem polled_fail {answer : Answer}
    (hstop : ¬Passes this.config this.sawStart this.reasoning [answer])
    (error : GenaiMappingError) :
    Polled this answer ((this.fail error).map some id).1 ((this.fail error).map some id).2 :=
  .fails answer _ _ hstop (ended_fail error)

/-- What an open stream does with an answer. -/
theorem pollOnce_polled (h : this.Opened) (answer : Answer) :
    Polled this answer (this.pollOnce answer).1 (this.pollOnce answer).2 := by
  cases answer with
  | pending => exact .waits
  | ready value =>
    cases value with
    | none =>
      have hended : this.ended = this.fail .missingStreamEnd := by
        unfold GenaiEventStream.ended
        rw [h.sawEnd]
        rfl
      simp only [pollOnce]
      rw [hended]
      exact polled_fail (not_passes (by exact not_false)) _
    | some item =>
      cases item with
      | error error =>
        exact .fails _ _ _ (not_passes (by exact not_false)) ⟨rfl, rfl, rfl, rfl, rfl, rfl⟩
      | ok event =>
        cases event with
        | start =>
          simp only [pollOnce]
          split
          · next hstart =>
            refine polled_fail (fun hpasses => ?_) _
            rw [hstart] at hpasses
            cases (passes_start_iff.mp hpasses).1
          · next hstart => exact .starts (Bool.eq_false_iff.mpr hstart)
        | chunk content => exact .text content
        | reasoningChunk content =>
          simp only [pollOnce]
          cases hpush : this.pushReasoning content with
          | ok next =>
            obtain ⟨hfits, rfl⟩ := (pushReasoning_eq_ok h.keeps.fits).mp hpush
            exact .reasons content hfits
          | error error =>
            refine polled_fail (fun hpasses => ?_) _
            have hfits := ((passes_reasoningChunk_iff content).mp hpasses).fits.left
            cases hpush.symm.trans ((pushReasoning_eq_ok h.keeps.fits).mpr ⟨hfits, rfl⟩)
        | thoughtSignatureChunk content => exact polled_fail (not_passes (by exact not_false)) _
        | toolCallChunk call => exact polled_fail (not_passes (by exact not_false)) _
        | streamEnd last =>
          simp only [pollOnce]
          rw [if_neg h.not_ended]
          cases hend : this.handleEnd last with
          | error error => exact polled_fail (not_passes (by exact not_false)) _
          | ok next =>
            obtain ⟨-, reasoning, -, hqueues⟩ := handleEnd_ok h hend
            obtain ⟨_, _, _, _, _, hpending, -⟩ := hqueues.completes.events
            simp only [hpending]
            exact .finishes last next _ _ hend hpending
        | future => exact polled_fail (not_passes (by exact not_false)) _

end Answers

/-! ## What is due -/

/-- The items that come of answers, to an open stream. -/
def items (this : GenaiEventStream) : List Answer → List Item
  | [] => [.error (GenaiMappingError.missingStreamEnd.intoModelError this.provider this.model)]
  | answer :: inner =>
    match { this with inner }.pollOnce answer with
    | (none, this) => items this inner
    | (some (.ready (some item)), this) =>
      item :: if this.terminal then [] else if this.sawEnd then this.pending else items this inner
    | (some _, this) => items this inner

/-- What a stream still has to yield. -/
def due (this : GenaiEventStream) : List Item :=
  if this.terminal then [] else if this.sawEnd then this.pending else this.items this.inner

/-- A stream is open, or past an `End` with events queued, or has ended. -/
structure Valid (this : GenaiEventStream) : Prop where
  within : this.Within
  phase : this.terminal = true ∨ this.Opened ∨
    (this.terminal = false ∧ this.sawEnd = true ∧ this.pending ≠ [])

/-- What a poll takes of the items that are due. -/
inductive Takes (config : GenaiAdapterConfig) (inner : Nat) (expected : List Item) :
    Poll (Option Item) → GenaiEventStream → Prop where
  | nothing {next : GenaiEventStream} (valid : next.Valid) (same : next.config = config)
      (due_eq : expected = next.due) (fewer : next.inner.length < inner) :
      Takes config inner expected .pending next
  | item {item : Item} {next : GenaiEventStream} (valid : next.Valid) (same : next.config = config)
      (due_eq : expected = item :: next.due) (fewer : next.inner.length ≤ inner) :
      Takes config inner expected (.ready (some item)) next

section Polling

variable {this next : GenaiEventStream}

theorem Opened.valid (h : this.Opened) : this.Valid := ⟨h.within, .inr (.inl h)⟩

theorem Opened.with_inner (h : this.Opened) (inner : List Answer) : { this with inner }.Opened :=
  ⟨h.terminal, h.sawEnd, h.pending, h.thoughtSignatures, h.thoughtSignatureBytes,
    ⟨h.keeps.fits, h.keeps.retain⟩⟩

theorem Opened.started (h : this.Opened) : { this with sawStart := true }.Opened :=
  ⟨h.terminal, h.sawEnd, h.pending, h.thoughtSignatures, h.thoughtSignatureBytes,
    ⟨h.keeps.fits, h.keeps.retain⟩⟩

theorem Opened.adding (h : this.Opened) {content : String}
    (hfits : this.config.Fits (this.adding content).reasoning) : (this.adding content).Opened :=
  ⟨h.terminal, h.sawEnd, h.pending, h.thoughtSignatures, h.thoughtSignatureBytes,
    h.keeps.adding hfits⟩

theorem Opened.due_eq (h : this.Opened) : this.due = this.items this.inner := by
  unfold due
  rw [h.terminal, h.sawEnd]
  rfl

theorem due_of_terminal (h : this.terminal = true) : this.due = [] := if_pos h

/-- Past an `End`, what is queued comes out item by item. -/
theorem due_of_queued {pending : List Item} (hend : this.sawEnd = true) :
    { this with pending, terminal := pending.isEmpty }.due = pending := by
  unfold due
  cases pending with
  | nil => rfl
  | cons item pending =>
    simp only [List.isEmpty_cons, Bool.false_eq_true, if_false]
    exact if_pos hend

theorem valid_of_queued {pending : List Item} (hwithin : this.Within) (hend : this.sawEnd = true) :
    { this with pending, terminal := pending.isEmpty }.Valid := by
  refine ⟨⟨hwithin.reasoning, hwithin.signatures, hwithin.bytes⟩, ?_⟩
  cases pending with
  | nil => exact .inl rfl
  | cons item pending => exact .inr (.inr ⟨rfl, hend, List.cons_ne_nil _ _⟩)

theorem Takes.mono {config : GenaiAdapterConfig} {inner inner' : Nat} {expected : List Item}
    {poll : Poll (Option Item)} (h : Takes config inner expected poll next) (hle : inner ≤ inner') :
    Takes config inner' expected poll next := by
  cases h with
  | nothing valid same due_eq fewer => exact .nothing valid same due_eq (fewer.trans_le hle)
  | item valid same due_eq fewer => exact .item valid same due_eq (fewer.trans hle)

/-- A failure takes the error, and nothing is due after it. -/
theorem Ended.takes {inner : Nat} {error : ModelError} (h : Ended this next) (hwithin : this.Within)
    (hinner : this.inner.length ≤ inner) :
    Takes this.config inner [.error error] (.ready (some (.error error))) next := by
  refine .item ⟨h.within hwithin, .inl h.terminal⟩ h.config ?_ (h.inner ▸ hinner)
  rw [due_of_terminal h.terminal]

theorem Queues.within {last : StreamEnd} {reasoning : String}
    (h : Queues this last reasoning next) : next.Within := by
  refine ⟨h.config ▸ h.fits, ?_, h.config ▸ h.bytes⟩
  unfold GenaiAdapterConfig.Bounds
  rw [h.thoughtSignatures]
  exact Nat.zero_le _

/-- The loop of a poll takes what is due first. -/
theorem pollInner_takes {inner : List Answer} (h : this.Opened) (hinner : this.inner = inner) :
    Takes this.config inner.length (this.items inner) (this.pollInner inner).1
      (this.pollInner inner).2 := by
  induction inner generalizing this with
  | nil =>
    have hended : this.pollInner [] = this.fail .missingStreamEnd := by
      unfold pollInner GenaiEventStream.ended
      rw [h.sawEnd]
      rfl
    rw [hended]
    exact (ended_fail _).takes h.within (congrArg List.length hinner).le
  | cons answer inner ih =>
    have hopened := h.with_inner inner
    have hpolled := pollOnce_polled hopened answer
    unfold pollInner items
    generalize { this with inner }.pollOnce answer = polled at hpolled
    obtain ⟨poll, next⟩ := polled
    cases hpolled with
    | waits => exact .nothing hopened.valid rfl hopened.due_eq.symm (Nat.lt_succ_self _)
    | starts hnew => exact (ih hopened.started rfl).mono (Nat.le_succ _)
    | reasons content hfits => exact (ih (hopened.adding hfits) rfl).mono (Nat.le_succ _)
    | text content =>
      exact .item hopened.valid rfl rfl (Nat.le_succ _)
    | finishes last next item pending hend hpending =>
      obtain ⟨-, reasoning, -, hqueues⟩ := handleEnd_ok hopened hend
      have hinner : next.inner = inner := hqueues.inner
      refine .item (valid_of_queued hqueues.within hqueues.sawEnd) hqueues.config ?_ ?_
      · rw [← hinner]
        rfl
      · exact (congrArg List.length hinner).trans_le (Nat.le_succ _)
    | fails _ error _ hstop hended =>
      show Takes _ _ (.error error :: if next.terminal then [] else _) _ next
      rw [if_pos hended.terminal]
      exact hended.takes hopened.within (Nat.le_succ _)

/-- A poll of a stream that has not ended takes what is due first. -/
theorem pollNext_takes (h : this.Valid) :
    (this.terminal = true ∧ this.pollNext = (.ready none, this)) ∨
      Takes this.config this.inner.length this.due this.pollNext.1 this.pollNext.2 := by
  rcases h.phase with hterminal | hopened | ⟨hterminal, hend, hpending⟩
  · exact .inl ⟨hterminal, if_pos hterminal⟩
  · right
    have hpoll : this.pollNext = this.pollInner this.inner := by
      unfold pollNext
      rw [hopened.terminal, hopened.pending]
      rfl
    rw [hpoll, hopened.due_eq]
    exact pollInner_takes hopened rfl
  · right
    obtain ⟨item, pending, hcons⟩ := List.exists_cons_of_ne_nil hpending
    have hpoll : this.pollNext =
        (.ready (some item), { this with pending, terminal := pending.isEmpty }) := by
      unfold pollNext
      rw [hterminal, hend, hcons]
      rfl
    have hdue : this.due = item :: pending := by
      unfold due
      rw [hterminal, hend, hcons]
      rfl
    rw [hpoll, hdue]
    refine .item (valid_of_queued h.within hend) rfl ?_ le_rfl
    rw [due_of_queued hend]

/-! ## Runs -/

/-- After a number of polls the items have come out one after the other. A poll that is pending uses
up an answer of the provider. After the last item, a poll changes nothing. -/
structure YieldsIn (this : GenaiEventStream) (items : List Item) (n : Nat) (taken left : List Item)
    (ends : Nat) : Prop where
  items_eq : items = taken ++ left
  yields : this.yields n = taken.map some ++ List.replicate ends none
  progress : n ≤ taken.length + ends + this.inner.length
  complete : ends ≠ 0 → left = []
  fused : left = [] → (this.after n).pollNext = (.ready none, this.after n)

/-- The items come out over any number of polls. -/
def Yields (this : GenaiEventStream) (items : List Item) : Prop :=
  ∀ n, ∃ taken left ends, this.YieldsIn items n taken left ends

theorem items_ne_nil (h : this.Opened) {inner : List Answer} : this.items inner ≠ [] := by
  induction inner generalizing this with
  | nil => exact List.cons_ne_nil _ _
  | cons answer inner ih =>
    have hopened := h.with_inner inner
    have hpolled := pollOnce_polled hopened answer
    unfold items
    generalize { this with inner }.pollOnce answer = polled at hpolled
    obtain ⟨poll, next⟩ := polled
    cases hpolled with
    | waits => exact ih hopened
    | starts hnew => exact ih hopened.started
    | reasons content hfits => exact ih (hopened.adding hfits)
    | text content => exact List.cons_ne_nil _ _
    | finishes last next item pending hend hpending => exact List.cons_ne_nil _ _
    | fails _ error _ hstop hended => exact List.cons_ne_nil _ _

theorem terminal_of_due (h : this.Valid) (hdue : this.due = []) : this.terminal = true := by
  rcases h.phase with hterminal | hopened | ⟨hterminal, hend, hpending⟩
  · exact hterminal
  · exact absurd (hopened.due_eq ▸ hdue) (items_ne_nil hopened)
  · unfold due at hdue
    rw [hterminal, hend] at hdue
    exact absurd hdue hpending

theorem after_of_terminal (h : this.terminal = true) (n : Nat) :
    this.after n = this ∧ this.yields n = List.replicate n none := by
  have hpoll : this.pollNext = (.ready none, this) := if_pos h
  induction n with
  | zero => exact ⟨rfl, rfl⟩
  | succ n ih =>
    unfold after yields
    rw [hpoll]
    exact ⟨ih.1, by rw [ih.2]; rfl⟩

theorem after_succ (n : Nat) : this.after (n + 1) = this.pollNext.2.after n := rfl

theorem yields_succ (n : Nat) :
    this.yields (n + 1) = this.pollNext.1.value?.toList ++ this.pollNext.2.yields n := rfl

/-- What is due comes out. -/
theorem yields_due (h : this.Valid) : this.Yields this.due := by
  intro n
  induction n generalizing this with
  | zero =>
    refine ⟨[], this.due, 0, rfl, rfl, Nat.zero_le _, fun hne => absurd rfl hne, fun hdue => ?_⟩
    exact if_pos (terminal_of_due h hdue)
  | succ n ih =>
    rcases pollNext_takes h with ⟨hterminal, -⟩ | htakes
    · obtain ⟨hafter, hyields⟩ := after_of_terminal hterminal (n + 1)
      refine ⟨[], [], n + 1, due_of_terminal hterminal, hyields, by simp, fun _ => rfl, fun _ => ?_⟩
      rw [hafter]
      exact if_pos hterminal
    · cases hpoll : this.pollNext with
      | mk poll next =>
        rw [hpoll] at htakes
        have hafter : this.after (n + 1) = next.after n := by rw [after_succ, hpoll]
        have hyields : this.yields (n + 1) = poll.value?.toList ++ next.yields n := by
          rw [yields_succ, hpoll]
        cases htakes with
        | nothing valid same due_eq fewer =>
          obtain ⟨taken, left, ends, h'⟩ := ih valid
          refine ⟨taken, left, ends, due_eq.trans h'.items_eq, hyields.trans h'.yields, ?_,
            h'.complete, fun hleft => hafter ▸ h'.fused hleft⟩
          have := h'.progress
          omega
        | @item item _ valid same due_eq fewer =>
          obtain ⟨taken, left, ends, h'⟩ := ih valid
          refine ⟨item :: taken, left, ends, ?_, ?_, ?_, h'.complete,
            fun hleft => hafter ▸ h'.fused hleft⟩
          · rw [due_eq, h'.items_eq, List.cons_append]
          · rw [hyields, h'.yields]
            rfl
          · have := h'.progress
            rw [List.length_cons]
            omega

/-- A stream yields one list of items only. -/
theorem Yields.unique {items items' : List Item} (h : this.Yields items) (h' : this.Yields items') :
    items = items' := by
  have hall : ∀ {items : List Item}, this.Yields items → ∀ n,
      items.length + this.inner.length < n → (this.yields n).filterMap id = items := by
    intro items h n hn
    obtain ⟨taken, left, ends, hrun⟩ := h n
    have hends : ends ≠ 0 := by
      have hlength := congrArg List.length hrun.items_eq
      have hprogress := hrun.progress
      rw [List.length_append] at hlength
      omega
    rw [hrun.yields, hrun.items_eq, hrun.complete hends, List.filterMap_append, List.append_nil]
    simp
  have hn := hall h (items.length + items'.length + this.inner.length + 1) (by omega)
  rw [← hn]
  exact hall h' _ (by omega)

/-- What is retained stays within the limits. -/
theorem after_within (h : this.Valid) (n : Nat) :
    (this.after n).config = this.config ∧ (this.after n).Within := by
  induction n generalizing this with
  | zero => exact ⟨rfl, h.within⟩
  | succ n ih =>
    rcases pollNext_takes h with ⟨hterminal, -⟩ | htakes
    · rw [(after_of_terminal hterminal (n + 1)).1]
      exact ⟨rfl, h.within⟩
    · rw [after_succ]
      generalize this.pollNext = polled at htakes
      obtain ⟨poll, next⟩ := polled
      cases htakes with
      | nothing valid same due_eq fewer => exact ⟨(ih valid).1.trans same, (ih valid).2⟩
      | item valid same due_eq fewer => exact ⟨(ih valid).1.trans same, (ih valid).2⟩

end Polling

/-! ## The items of what the provider sends -/

section Items

variable {this next : GenaiEventStream} {last : StreamEnd} {answer : Answer}
  {before inner : List Answer}

/-- An `End` that is accepted. -/
theorem items_of_end (h : this.Opened) (hend : { this with inner }.handleEnd last = .ok next) :
    this.items (.ready (some (.ok (.streamEnd last))) :: inner) = next.pending := by
  obtain ⟨-, reasoning, -, hqueues⟩ := handleEnd_ok (h.with_inner inner) hend
  obtain ⟨_, _, _, _, _, hpending, -⟩ := hqueues.completes.events
  have hopen := (h.with_inner inner).not_ended
  simp only [items, pollOnce, if_neg hopen, hend, hpending]
  simp [hqueues.sawEnd]

theorem items_of_refused (h : this.Opened) {error : GenaiMappingError}
    (hend : { this with inner }.handleEnd last = .error error) :
    OneError (this.items (.ready (some (.ok (.streamEnd last))) :: inner)) := by
  have hopen := (h.with_inner inner).not_ended
  simp only [items, pollOnce, if_neg hopen, hend]
  exact ⟨_, rfl⟩

section Ordered

variable {config : GenaiAdapterConfig} {started started' : Bool} {reasoning reasoning' : String}
  {items tail : List Item}

theorem ordered_cons (hiff : ∀ answers, Passes config started reasoning (answer :: answers) ↔
      Passes config started' reasoning' answers) (hchunk : chunk? answer = none)
    (h : Ordered config started' reasoning' inner items) :
    Ordered config started reasoning (answer :: inner) items := by
  obtain ⟨before, after, tail, rfl, hbefore, hafter, hitems, htail⟩ := h
  refine ⟨answer :: before, after, tail, rfl, (hiff before).mpr hbefore, ?_, ?_, htail⟩
  · intro first hfirst hpasses
    exact hafter first hfirst ((hiff _).mp hpasses)
  · rw [texts_cons_none hchunk]
    exact hitems

theorem ordered_text (content : String) (h : Ordered config started reasoning inner items) :
    Ordered config started reasoning (.ready (some (.ok (.chunk content))) :: inner)
      (.ok (.textDelta content) :: items) := by
  obtain ⟨before, after, tail, rfl, hbefore, hafter, rfl, htail⟩ := h
  have hiff (answers : List Answer) :
      Passes config started reasoning (.ready (some (.ok (.chunk content))) :: answers) ↔
        Passes config started reasoning answers := passes_cons_iff trivial rfl rfl
  refine ⟨_ :: before, after, tail, rfl, (hiff before).mpr hbefore, ?_, rfl, htail⟩
  intro first hfirst hpasses
  exact hafter first hfirst ((hiff _).mp hpasses)

/-- An answer that does not pass stops the stream. -/
theorem ordered_of_tail (hfits : config.Fits reasoning)
    (hstop : ¬Passes config started reasoning [answer])
    (h : OneError tail ∨ ∃ last reasoning,
      (answer :: inner).head? = some (.ready (some (.ok (.streamEnd last)))) ∧
        Completes config reasoning last.signatures tail) :
    Ordered config started reasoning (answer :: inner) tail := by
  refine ⟨[], answer :: inner, tail, rfl, passes_nil hfits, ?_, rfl, h⟩
  intro first hfirst
  obtain rfl := Option.some.inj hfirst
  exact hstop

end Ordered

theorem items_ordered (h : this.Opened) :
    Ordered this.config this.sawStart this.reasoning inner (this.items inner) := by
  induction inner generalizing this with
  | nil => exact ⟨[], [], _, rfl, passes_nil h.keeps.fits, by simp, rfl, .inl ⟨_, rfl⟩⟩
  | cons answer inner ih =>
    have hopened := h.with_inner inner
    have hpolled := pollOnce_polled hopened answer
    unfold items
    generalize hpoll : { this with inner }.pollOnce answer = polled at hpolled
    obtain ⟨poll, next⟩ := polled
    cases hpolled with
    | waits => exact ordered_cons (fun _ => passes_cons_iff trivial rfl rfl) rfl (ih hopened)
    | starts hnew =>
      refine ordered_cons (fun _ => ?_) rfl (ih hopened.started)
      exact passes_start_iff.trans (and_iff_right hnew)
    | reasons content hfits =>
      exact ordered_cons (fun _ => passes_reasoningChunk_iff content) rfl
        (ih (hopened.adding hfits))
    | text content =>
      show Ordered _ _ _ _
        (_ :: if this.terminal then [] else if this.sawEnd then this.pending else _)
      rw [if_neg h.not_terminal, if_neg h.not_ended]
      exact ordered_text content (ih hopened)
    | finishes last next item pending hend hpending =>
      obtain ⟨-, reasoning, -, hqueues⟩ := handleEnd_ok hopened hend
      have hitems := items_of_end h hend
      unfold items at hitems
      rw [hpoll] at hitems
      refine ordered_of_tail h.keeps.fits (not_passes (by exact not_false))
        (.inr ⟨last, reasoning, rfl, ?_⟩)
      rw [hitems]
      exact hqueues.completes
    | fails _ error _ hstop hended =>
      show Ordered _ _ _ _ (.error error :: if next.terminal then [] else _)
      rw [if_pos hended.terminal]
      exact ordered_of_tail h.keeps.fits hstop (.inl ⟨error, rfl⟩)

theorem items_start (hnew : this.sawStart = false) :
    this.items (.ready (some (.ok .start)) :: inner) =
      { this with inner, sawStart := true }.items inner := by
  simp only [items, pollOnce, hnew, Bool.false_eq_true, if_false]

theorem items_chunk (h : this.Opened) (content : String) :
    this.items (.ready (some (.ok (.chunk content))) :: inner) =
      .ok (.textDelta content) :: { this with inner }.items inner := by
  simp only [items, pollOnce, if_neg h.not_terminal, if_neg h.not_ended]

theorem items_reasoningChunk (h : this.Opened) {content : String}
    (hfits : this.config.Fits (this.adding content).reasoning) :
    this.items (.ready (some (.ok (.reasoningChunk content))) :: inner) =
      ({ this with inner }.adding content).items inner := by
  have hpush : { this with inner }.pushReasoning content =
      .ok ({ this with inner }.adding content) :=
    (pushReasoning_eq_ok (h.with_inner inner).keeps.fits).mpr ⟨hfits, rfl⟩
  simp only [items, pollOnce, hpush]

/-- The text before an `End` comes out, whatever comes of the end. -/
theorem items_past (inner : List Answer) (h : this.Opened)
    (hpasses : Passes this.config this.sawStart this.reasoning before) :
    ∃ next : GenaiEventStream, next.Opened ∧ next.config = this.config ∧
      next.resolvedModel = this.resolvedModel ∧
      next.reasoning = this.reasoning ++ streamed this.config before ∧
      this.items (before ++ inner) = texts before ++ next.items inner := by
  induction before generalizing this with
  | nil => exact ⟨this, h, rfl, rfl, by rw [streamed_nil, String.append_empty], rfl⟩
  | cons answer before ih =>
    have hproceeds := (List.forall_mem_cons.mp hpasses.proceeds).1
    have hopened := h.with_inner (before ++ inner)
    cases answer with
    | pending =>
      rw [streamed_cons_none rfl, texts_cons_none rfl]
      exact ih hopened ((passes_cons_iff (by exact trivial) rfl rfl).mp hpasses)
    | ready value =>
      cases value with
      | none => exact hproceeds.elim
      | some item =>
        cases item with
        | error error => exact hproceeds.elim
        | ok event =>
          cases event with
          | start =>
            obtain ⟨hnew, hpasses⟩ := passes_start_iff.mp hpasses
            rw [streamed_cons_none rfl, texts_cons_none rfl, List.cons_append, items_start hnew]
            exact ih hopened.started hpasses
          | chunk content =>
            rw [streamed_cons_none rfl]
            obtain ⟨next, hnext, hconfig, hmodel, hreasoning, hitems⟩ :=
              ih hopened ((passes_cons_iff (by exact trivial) rfl rfl).mp hpasses)
            refine ⟨next, hnext, hconfig, hmodel, hreasoning, ?_⟩
            rw [List.cons_append, items_chunk h, hitems]
            rfl
          | reasoningChunk content =>
            have hpasses := (passes_reasoningChunk_iff content).mp hpasses
            have hfits : this.config.Fits (this.adding content).reasoning := hpasses.fits.left
            rw [streamed_cons, ← String.append_assoc, texts_cons_none rfl, List.cons_append,
              items_reasoningChunk h hfits]
            exact ih (hopened.adding hfits) hpasses
          | thoughtSignatureChunk _ | toolCallChunk _ | streamEnd _ | future =>
            exact hproceeds.elim

end Items

end GenaiEventStream

end GroupAgent.Genai
