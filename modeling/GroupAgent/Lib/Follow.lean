import GroupAgent.Lib.Effect

/-!
# Computations that are followed

A reader follows a log entry by entry: `next t a t'` says that it can read `a` at `t`, and is at
`t'` then. A computation is reasoned about by where the reader is before and after it.

* `Follow next t l t'`: a reader at `t` is at `t'` once it has read `l`.
* `Moves T t x P S`: from any state that the reader at `t` stands for, `x` returns or stops in a
  state that the reader stands for, where `P` or `S` holds of the reader. `T` is any relation, so
  that it can stand for more than one log.
-/

namespace GroupAgent.Lib

variable {ε σ τ ω α β γ φ : Type}

/-! ## Reading -/

/-- A reader that is at `t` is at `t'` once it has read the entries. -/
inductive Follow (next : τ → ω → τ → Prop) : τ → List ω → τ → Prop where
  | nil {t : τ} : Follow next t [] t
  | cons {t t' t'' : τ} {a : ω} {l : List ω} (hnext : next t a t') (hrest : Follow next t' l t'') :
      Follow next t (a :: l) t''

section Follow

variable {next : τ → ω → τ → Prop} {t t' t'' : τ} {l l' : List ω} {a : ω}

theorem Follow.append (h : Follow next t l t') (h' : Follow next t' l' t'') :
    Follow next t (l ++ l') t'' := by
  induction h with
  | nil => exact h'
  | cons hnext _ ih => exact .cons hnext (ih h')

theorem Follow.snoc (h : Follow next t l t') (hnext : next t' a t'') :
    Follow next t (l ++ [a]) t'' := h.append (.cons hnext .nil)

/-- What holds with nothing read, and is kept by every entry, holds of all that is read. -/
theorem Follow.invariant {P : List ω → τ → Prop} (h : Follow next t l t') (hnil : P [] t)
    (hkeep : ∀ before u a u', P before u → next u a u' → P (before ++ [a]) u') : P l t' := by
  have hfrom : ∀ before, P before t → P (before ++ l) t' := by
    clear hnil
    induction h with
    | nil =>
      intro before hbefore
      rw [List.append_nil]
      exact hbefore
    | @cons t u t' a l hnext _ ih =>
      intro before hbefore
      have hrest := ih (before ++ [a]) (hkeep before t a u hbefore hnext)
      rwa [List.append_assoc] at hrest
  exact hfrom [] hnil

end Follow

/-! ## Computations -/

/-- From a state that stands for `t`, the computation returns or stops in one that stands for some
`t'`, of which `P` or `S` holds. -/
def Moves (T : τ → σ → Prop) (t : τ) (x : EStateM ε σ α) (P : α → τ → Prop) (S : ε → τ → Prop) :
    Prop :=
  ∀ s, T t s → wp x (fun a s' => ∃ t', T t' s' ∧ P a t') (fun e s' => ∃ t', T t' s' ∧ S e t') s

section Moves

variable {T : τ → σ → Prop} {t : τ} {x : EStateM ε σ α} {P P' : α → τ → Prop} {S S' : ε → τ → Prop}

theorem Moves.of_ok (h : Moves T t x P S) {s s' : σ} {a : α} (hs : T t s) (hx : x s = .ok a s') :
    ∃ t', T t' s' ∧ P a t' := wp_of_ok (h s hs) hx

theorem Moves.of_error (h : Moves T t x P S) {s s' : σ} {e : ε} (hs : T t s)
    (hx : x s = .error e s') : ∃ t', T t' s' ∧ S e t' := wp_of_error (h s hs) hx

theorem moves_pure {a : α} (h : P a t) : Moves T t (pure a : EStateM ε σ α) P S :=
  fun _ hs => ⟨t, hs, h⟩

theorem moves_throw {e : ε} (h : S e t) : Moves T t (throw e : EStateM ε σ α) P S :=
  fun _ hs => ⟨t, hs, h⟩

theorem moves_get : Moves T t (get : EStateM ε σ σ) (fun s t' => t' = t ∧ T t s) S :=
  fun _ hs => ⟨t, hs, rfl, hs⟩

theorem moves_mono (h : Moves T t x P S) (hP : ∀ a t', P a t' → P' a t')
    (hS : ∀ e t', S e t' → S' e t') : Moves T t x P' S' := by
  intro s hs
  refine wp_mono (h s hs) ?_ ?_
  · rintro a s' ⟨t', hs', ha⟩
    exact ⟨t', hs', hP a t' ha⟩
  · rintro e s' ⟨t', hs', he⟩
    exact ⟨t', hs', hS e t' he⟩

theorem moves_bind {f : α → EStateM ε σ β} {Q : β → τ → Prop} (hx : Moves T t x P S)
    (hf : ∀ a t', P a t' → Moves T t' (f a) Q S) : Moves T t (x >>= f) Q S := by
  intro s hs
  rw [wp_bind]
  refine wp_mono (hx s hs) ?_ fun _ _ he => he
  rintro a s₁ ⟨t₁, hs₁, ha⟩
  exact hf a t₁ ha s₁ hs₁

theorem moves_map {f : α → β} {Q : β → τ → Prop} (hx : Moves T t x P S)
    (hf : ∀ a t', P a t' → Q (f a) t') : Moves T t (f <$> x) Q S := by
  intro s hs
  rw [wp_map]
  refine wp_mono (hx s hs) ?_ fun _ _ he => he
  rintro a s' ⟨t', hs', ha⟩
  exact ⟨t', hs', hf a t' ha⟩

/-- A loop over a list that leaves the reader where it is. -/
theorem moves_mapM {f : γ → EStateM ε σ α} : ∀ {l : List γ} {t : τ},
    (∀ c ∈ l, Moves T t (f c) (fun _ t' => t' = t) S) →
      Moves T t (l.mapM f) (fun _ t' => t' = t) S
  | [], _, _ => moves_pure rfl
  | c :: l, _, h => by
    rw [List.mapM_cons]
    refine moves_bind (h c List.mem_cons_self) ?_
    rintro _ t rfl
    refine moves_bind (moves_mapM fun c hc => h c (List.mem_cons_of_mem _ hc)) ?_
    rintro _ t rfl
    exact moves_pure rfl

/-- What is known of a result by other means. -/
theorem Moves.and {R : σ → σ → Prop} {P' : α → Prop} {S' : ε → Prop} (h : Moves T t x P S)
    (h' : Within R x P' S') : Moves T t x (fun a t' => P a t' ∧ P' a) S := by
  intro s hs
  rw [wp_iff]
  refine ⟨fun a s' hx => ?_, fun e s' hx => h.of_error hs hx⟩
  obtain ⟨t', hs', ha⟩ := h.of_ok hs hx
  exact ⟨t', hs', ha, (h'.of_ok hx).1⟩

/-- What leaves everything as it is that the reader stands for. -/
theorem Within.moves {view : σ → φ} {P : α → Prop} {S : ε → Prop} {S' : ε → τ → Prop}
    (h : Within (SameView view) x P S) (hT : ∀ s s', view s' = view s → T t s → T t s')
    (hS : ∀ e, S e → S' e t) : Moves T t x (fun a t' => t' = t ∧ P a) S' := by
  intro s hs
  refine wp_mono (h s) (fun a s' ha => ?_) fun e s' he => ?_
  · exact ⟨t, hT s s' ha.2 hs, rfl, ha.1⟩
  · exact ⟨t, hT s s' he.2 hs, hS e he.1⟩

end Moves

end GroupAgent.Lib
