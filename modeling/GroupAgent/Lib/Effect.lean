import Mathlib.Data.List.Forall2

/-!
# Reasoning about computations that may stop

A computation over a state `σ` that either returns a value or stops with an `ε` is an
`EStateM ε σ α`: it maps a state to `.ok a s'` or to `.error e s'`, the state surviving in both.
This file gives such computations four calculi, over arbitrary types. Their rules follow the
constructors of a `do` block.

* `wp x Q R s`: run from `s`, the computation `x` ends in a value satisfying `Q` or stops with
  `R`.
* `Within R x P S`: whatever the state, `x` returns a value satisfying `P` or stops with an `S`, and
  `R`, a preorder, relates the state it found to the state it leaves.
* `Yields view x P S`: whatever the state, `x` returns a value satisfying `P` or stops with an `S`,
  and leaves the part `view` of the state as it was.
* `Appends log x P S`: whatever the state, `x` returns or stops, and what it adds to the `log` kept
  in the state satisfies `P` with the value, or `S` with the reason.
-/

namespace GroupAgent.Lib

variable {ε σ φ ω α β γ : Type}

theorem bind_of_ok {x : EStateM ε σ α} {f : α → EStateM ε σ β} {s s' : σ} {a : α}
    (h : x s = .ok a s') : (x >>= f) s = f a s' := by
  show EStateM.bind x f s = _
  unfold EStateM.bind
  rw [h]

theorem bind_of_error {x : EStateM ε σ α} {f : α → EStateM ε σ β} {s s' : σ} {e : ε}
    (h : x s = .error e s') : (x >>= f) s = .error e s' := by
  show EStateM.bind x f s = _
  unfold EStateM.bind
  rw [h]

/-- A sequence returns when both of its parts do. -/
theorem bind_ok_iff {x : EStateM ε σ α} {f : α → EStateM ε σ β} {s s' : σ} {b : β} :
    (x >>= f) s = .ok b s' ↔ ∃ a s₁, x s = .ok a s₁ ∧ f a s₁ = .ok b s' := by
  cases hx : x s with
  | ok a s₁ =>
    rw [bind_of_ok hx]
    constructor
    · intro h
      exact ⟨a, s₁, rfl, h⟩
    · rintro ⟨a', s₂, h, hf⟩
      cases h
      exact hf
  | error e s₁ =>
    rw [bind_of_error hx]
    constructor
    · intro h
      cases h
    · rintro ⟨a', s₂, h, -⟩
      cases h

/-- A sequence stops when its first part does, or its second after it. -/
theorem bind_error_iff {x : EStateM ε σ α} {f : α → EStateM ε σ β} {s s' : σ} {e : ε} :
    (x >>= f) s = .error e s' ↔
      x s = .error e s' ∨ ∃ a s₁, x s = .ok a s₁ ∧ f a s₁ = .error e s' := by
  cases hx : x s with
  | ok a s₁ =>
    rw [bind_of_ok hx]
    constructor
    · intro h
      exact .inr ⟨a, s₁, rfl, h⟩
    · rintro (h | ⟨a', s₂, h, hf⟩)
      · cases h
      · cases h
        exact hf
  | error e' s₁ =>
    rw [bind_of_error hx]
    constructor
    · intro h
      cases h
      exact .inl rfl
    · rintro (h | ⟨a', s₂, h, -⟩)
      · cases h
        rfl
      · cases h

/-- The state a computation leaves, however it ends. -/
def final (x : EStateM ε σ α) (s : σ) : σ :=
  match x s with
  | .ok _ s' => s'
  | .error _ s' => s'

@[simp] theorem final_map (f : α → β) (x : EStateM ε σ α) (s : σ) :
    final (f <$> x) s = final x s := by
  have hm : (f <$> x) s = match x s with
      | .ok a s' => .ok (f a) s'
      | .error e s' => .error e s' := rfl
  unfold final
  rw [hm]
  cases x s <;> rfl

/-! ## Weakest preconditions -/

/-- From `s`, the computation returns with `Q` or stops with `R`. -/
def wp (x : EStateM ε σ α) (Q : α → σ → Prop) (R : ε → σ → Prop) (s : σ) : Prop :=
  match x s with
  | .ok a s' => Q a s'
  | .error e s' => R e s'

variable {x : EStateM ε σ α} {Q Q' : α → σ → Prop} {R R' : ε → σ → Prop} {s : σ}

theorem wp_of_ok (h : wp x Q R s) {a : α} {s' : σ} (hx : x s = .ok a s') : Q a s' := by
  unfold wp at h
  rw [hx] at h
  exact h

theorem wp_of_error (h : wp x Q R s) {e : ε} {s' : σ} (hx : x s = .error e s') : R e s' := by
  unfold wp at h
  rw [hx] at h
  exact h

theorem wp_iff : wp x Q R s ↔
    (∀ a s', x s = .ok a s' → Q a s') ∧ ∀ e s', x s = .error e s' → R e s' := by
  constructor
  · intro h
    exact ⟨fun a s' hx => wp_of_ok h hx, fun e s' hx => wp_of_error h hx⟩
  · rintro ⟨hQ, hR⟩
    unfold wp
    cases hx : x s with
    | ok a s' => exact hQ a s' hx
    | error e s' => exact hR e s' hx

/-- What holds of the state left, however the computation ends. -/
theorem wp_final {P : σ → Prop} : wp x (fun _ s' => P s') (fun _ s' => P s') s ↔ P (final x s) := by
  unfold wp final
  cases x s <;> rfl

theorem wp_mono (h : wp x Q R s) (hQ : ∀ a s', Q a s' → Q' a s')
    (hR : ∀ e s', R e s' → R' e s') : wp x Q' R' s := by
  rw [wp_iff] at h ⊢
  exact ⟨fun a s' hx => hQ a s' (h.1 a s' hx), fun e s' hx => hR e s' (h.2 e s' hx)⟩

@[simp] theorem wp_pure (a : α) : wp (pure a : EStateM ε σ α) Q R s ↔ Q a s := Iff.rfl

@[simp] theorem wp_throw (e : ε) : wp (throw e : EStateM ε σ α) Q R s ↔ R e s := Iff.rfl

@[simp] theorem wp_get {Q : σ → σ → Prop} : wp (get : EStateM ε σ σ) Q R s ↔ Q s s := Iff.rfl

@[simp] theorem wp_modify (f : σ → σ) {Q : PUnit → σ → Prop} :
    wp (modify f : EStateM ε σ PUnit) Q R s ↔ Q ⟨⟩ (f s) := Iff.rfl

@[simp] theorem wp_bind (f : α → EStateM ε σ β) {Q : β → σ → Prop} :
    wp (x >>= f) Q R s ↔ wp x (fun a s' => wp (f a) Q R s') R s := by
  have hb : (x >>= f) s = match x s with
      | .ok a s' => f a s'
      | .error e s' => .error e s' := rfl
  unfold wp
  rw [hb]
  cases x s <;> rfl

@[simp] theorem wp_map (f : α → β) {Q : β → σ → Prop} :
    wp (f <$> x) Q R s ↔ wp x (fun a s' => Q (f a) s') R s := by
  have hm : (f <$> x) s = match x s with
      | .ok a s' => .ok (f a) s'
      | .error e s' => .error e s' := rfl
  unfold wp
  rw [hm]
  cases x s <;> rfl

/-! ## Growth -/

/-- The computation returns a `P` or stops with an `S`, and `R` relates the state it found to the
state it leaves. -/
def Within (R : σ → σ → Prop) (x : EStateM ε σ α) (P : α → Prop) (S : ε → Prop) : Prop :=
  ∀ s, wp x (fun a s' => P a ∧ R s s') (fun e s' => S e ∧ R s s') s

section Within

variable {R : σ → σ → Prop} {P P' : α → Prop} {S S' : ε → Prop}

theorem Within.of_ok (h : Within R x P S) {s s' : σ} {a : α} (hx : x s = .ok a s') :
    P a ∧ R s s' := wp_of_ok (h s) hx

theorem Within.of_error (h : Within R x P S) {s s' : σ} {e : ε} (hx : x s = .error e s') :
    S e ∧ R s s' := wp_of_error (h s) hx

/-- Two accounts of one computation. -/
theorem Within.and {R' : σ → σ → Prop} (h : Within R x P S) (h' : Within R' x P' S') :
    Within R x (fun a => P a ∧ P' a) fun e => S e ∧ S' e := by
  intro s
  rw [wp_iff]
  refine ⟨fun a s' hx => ?_, fun e s' hx => ?_⟩
  · exact ⟨⟨(h.of_ok hx).1, (h'.of_ok hx).1⟩, (h.of_ok hx).2⟩
  · exact ⟨⟨(h.of_error hx).1, (h'.of_error hx).1⟩, (h.of_error hx).2⟩

theorem within_mono (h : Within R x P S) (hP : ∀ a, P a → P' a) (hS : ∀ e, S e → S' e) :
    Within R x P' S' := by
  intro s
  exact wp_mono (h s) (fun a _ ha => ⟨hP a ha.1, ha.2⟩) fun e _ he => ⟨hS e he.1, he.2⟩

theorem within_map {f : α → β} {Q : β → Prop} (hx : Within R x P S) (hf : ∀ a, P a → Q (f a)) :
    Within R (f <$> x) Q S := by
  intro s
  rw [wp_map]
  exact wp_mono (hx s) (fun a _ ha => ⟨hf a ha.1, ha.2⟩) fun _ _ he => he

theorem within_modify {f : σ → σ} (h : ∀ s, R s (f s)) :
    Within R (modify f : EStateM ε σ PUnit) (fun _ => True) S :=
  fun s => ⟨trivial, h s⟩

section Trans

variable [IsTrans σ R]

theorem within_bind {f : α → EStateM ε σ β} {Q : β → Prop} (hx : Within R x P S)
    (hf : ∀ a, P a → Within R (f a) Q S) : Within R (x >>= f) Q S := by
  intro s
  rw [wp_bind]
  refine wp_mono (hx s) (fun a s' ha => ?_) fun _ _ he => he
  refine wp_mono (hf a ha.1 s') (fun b s'' hb => ⟨hb.1, ?_⟩) fun e s'' he => ⟨he.1, ?_⟩
  · exact trans_of R ha.2 hb.2
  · exact trans_of R ha.2 he.2

/-- From a state that another one led to. -/
theorem Within.after (h : Within R x P S) {s s₁ : σ} (hs : R s s₁) :
    wp x (fun a s' => P a ∧ R s s') (fun e s' => S e ∧ R s s') s₁ :=
  wp_mono (h s₁) (fun _ _ ha => ⟨ha.1, trans_of R hs ha.2⟩) fun _ _ he =>
    ⟨he.1, trans_of R hs he.2⟩

/-- A step whose value is not needed. -/
theorem within_seq {y : EStateM ε σ β} {Q : β → Prop} (hx : Within R x (fun _ => True) S)
    (hy : Within R y Q S) : Within R (x >>= fun _ => y) Q S :=
  within_bind hx fun _ _ => hy

end Trans

variable [Std.Refl R]

theorem within_pure {a : α} (h : P a) : Within R (pure a : EStateM ε σ α) P S :=
  fun s => ⟨h, refl_of R s⟩

theorem within_throw {e : ε} (h : S e) : Within R (throw e : EStateM ε σ α) P S :=
  fun s => ⟨h, refl_of R s⟩

theorem within_get : Within R (get : EStateM ε σ σ) (fun _ => True) S :=
  fun s => ⟨trivial, refl_of R s⟩

section Loops

variable [IsTrans σ R]

theorem within_forM {f : γ → EStateM ε σ PUnit} : ∀ {l : List γ},
    (∀ c ∈ l, Within R (f c) (fun _ => True) S) → Within R (l.forM f) (fun _ => True) S
  | [], _ => within_pure trivial
  | c :: _, h => within_seq (h c List.mem_cons_self)
      (within_forM fun d hd => h d (List.mem_cons_of_mem c hd))

theorem within_mapM {f : γ → EStateM ε σ α} {P : γ → α → Prop} : ∀ {l : List γ},
    (∀ c ∈ l, Within R (f c) (P c) S) → Within R (l.mapM f) (List.Forall₂ P l) S
  | [], _ => by
    rw [List.mapM_nil]
    exact within_pure .nil
  | c :: l, h => by
    rw [List.mapM_cons]
    refine within_bind (h c List.mem_cons_self) fun a ha => ?_
    refine within_bind (within_mapM fun d hd => h d (List.mem_cons_of_mem c hd)) fun as has => ?_
    exact within_pure (.cons ha has)

end Loops

end Within

/-! ## Frames -/

/-- The computation returns a `P` or stops with an `S`, and `view` of the state stays as it was. -/
def Yields (view : σ → φ) (x : EStateM ε σ α) (P : α → Prop) (S : ε → Prop) : Prop :=
  ∀ s, wp x (fun a s' => P a ∧ view s' = view s) (fun e s' => S e ∧ view s' = view s) s

/-- The states that a view does not tell apart from `s`. -/
def SameView (view : σ → φ) (s s' : σ) : Prop := view s' = view s

instance (view : σ → φ) : Std.Refl (SameView view) := ⟨fun _ => rfl⟩

instance (view : σ → φ) : IsTrans σ (SameView view) := ⟨fun _ _ _ h h' => h'.trans h⟩

section Yields

variable {view : σ → φ} {P P' : α → Prop} {S S' : ε → Prop}

/-- Frames are growth within one view. -/
theorem yields_iff : Yields view x P S ↔ Within (SameView view) x P S := Iff.rfl

theorem Yields.of_ok (h : Yields view x P S) {s s' : σ} {a : α} (hx : x s = .ok a s') :
    P a ∧ view s' = view s := wp_of_ok (h s) hx

theorem Yields.of_error (h : Yields view x P S) {s s' : σ} {e : ε} (hx : x s = .error e s') :
    S e ∧ view s' = view s := wp_of_error (h s) hx

theorem Yields.and (h : Yields view x P S) (h' : Yields view x P' S') :
    Yields view x (fun a => P a ∧ P' a) fun e => S e ∧ S' e :=
  yields_iff.mpr (Within.and (yields_iff.mp h) (yields_iff.mp h'))

theorem yields_pure {a : α} (h : P a) : Yields view (pure a : EStateM ε σ α) P S :=
  yields_iff.mpr (within_pure h)

theorem yields_throw {e : ε} (h : S e) : Yields view (throw e : EStateM ε σ α) P S :=
  yields_iff.mpr (within_throw h)

theorem yields_modify {f : σ → σ} {S : ε → Prop} (h : ∀ s, view (f s) = view s) :
    Yields view (modify f : EStateM ε σ PUnit) (fun _ => True) S :=
  yields_iff.mpr (within_modify h)

theorem yields_mono (h : Yields view x P S) (hP : ∀ a, P a → P' a) (hS : ∀ e, S e → S' e) :
    Yields view x P' S' := yields_iff.mpr (within_mono (yields_iff.mp h) hP hS)

theorem yields_bind {f : α → EStateM ε σ β} {Q : β → Prop} (hx : Yields view x P S)
    (hf : ∀ a, P a → Yields view (f a) Q S) : Yields view (x >>= f) Q S :=
  yields_iff.mpr (within_bind (yields_iff.mp hx) fun a ha => yields_iff.mp (hf a ha))

theorem yields_map {f : α → β} {Q : β → Prop} (hx : Yields view x P S) (hf : ∀ a, P a → Q (f a)) :
    Yields view (f <$> x) Q S := yields_iff.mpr (within_map (yields_iff.mp hx) hf)

/-- A step whose value is not needed. -/
theorem yields_seq {y : EStateM ε σ β} {Q : β → Prop} (hx : Yields view x (fun _ => True) S)
    (hy : Yields view y Q S) : Yields view (x >>= fun _ => y) Q S :=
  yields_bind hx fun _ _ => hy

theorem yields_forM {f : γ → EStateM ε σ PUnit} {l : List γ}
    (h : ∀ c ∈ l, Yields view (f c) (fun _ => True) S) : Yields view (l.forM f) (fun _ => True) S :=
  yields_iff.mpr (within_forM fun c hc => yields_iff.mp (h c hc))

theorem yields_mapM {f : γ → EStateM ε σ α} {P : γ → α → Prop} {l : List γ}
    (h : ∀ c ∈ l, Yields view (f c) (P c) S) : Yields view (l.mapM f) (List.Forall₂ P l) S :=
  yields_iff.mpr (within_mapM fun c hc => yields_iff.mp (h c hc))

end Yields

/-! ## Logs -/

/-- The computation returns a `P` or stops with an `S`, both told what it adds to the log. -/
def Appends (log : σ → List ω) (x : EStateM ε σ α) (P : α → List ω → Prop)
    (S : ε → List ω → Prop) : Prop :=
  ∀ s, wp x (fun a s' => ∃ added, log s' = log s ++ added ∧ P a added)
    (fun e s' => ∃ added, log s' = log s ++ added ∧ S e added) s

section Appends

variable {log : σ → List ω} {P P' : α → List ω → Prop} {S S' : ε → List ω → Prop}

/-- What leaves the log as it is adds nothing. -/
theorem Within.appends {P : α → Prop} {S : ε → Prop} (h : Within (SameView log) x P S) :
    Appends log x (fun a added => added = [] ∧ P a) fun e added => added = [] ∧ S e := by
  intro s
  refine wp_mono (h s) (fun a s' ha => ?_) fun e s' he => ?_
  · exact ⟨[], by rw [List.append_nil]; exact ha.2, rfl, ha.1⟩
  · exact ⟨[], by rw [List.append_nil]; exact he.2, rfl, he.1⟩

theorem appends_pure {a : α} (h : P a []) : Appends log (pure a : EStateM ε σ α) P S :=
  fun _ => ⟨[], (List.append_nil _).symm, h⟩

theorem appends_mono (h : Appends log x P S) (hP : ∀ a added, P a added → P' a added)
    (hS : ∀ e added, S e added → S' e added) : Appends log x P' S' := by
  intro s
  refine wp_mono (h s) ?_ ?_
  · rintro a s' ⟨added, hlog, ha⟩
    exact ⟨added, hlog, hP a added ha⟩
  · rintro e s' ⟨added, hlog, he⟩
    exact ⟨added, hlog, hS e added he⟩

theorem appends_bind {f : α → EStateM ε σ β} {Q : β → List ω → Prop} (hx : Appends log x P S)
    (hf : ∀ a added, P a added → Appends log (f a) (fun b more => Q b (added ++ more))
      fun e more => S e (added ++ more)) : Appends log (x >>= f) Q S := by
  intro s
  rw [wp_bind]
  refine wp_mono (hx s) ?_ fun _ _ he => he
  rintro a s₁ ⟨added, hlog, ha⟩
  refine wp_mono (hf a added ha s₁) ?_ ?_
  · rintro b s₂ ⟨more, hmore, hb⟩
    exact ⟨added ++ more, by rw [hmore, hlog, List.append_assoc], hb⟩
  · rintro e s₂ ⟨more, hmore, he⟩
    exact ⟨added ++ more, by rw [hmore, hlog, List.append_assoc], he⟩

/-- First something that leaves the log as it is. -/
theorem appends_after {P : α → Prop} {S' : ε → Prop} {f : α → EStateM ε σ β}
    {Q : β → List ω → Prop} (hx : Within (SameView log) x P S') (hS : ∀ e, S' e → S e [])
    (hf : ∀ a, P a → Appends log (f a) Q S) : Appends log (x >>= f) Q S := by
  refine appends_bind (appends_mono hx.appends (fun _ _ h => h) ?_) ?_
  · rintro e _ ⟨rfl, he⟩
    exact hS e he
  · rintro a _ ⟨rfl, ha⟩
    exact hf a ha

/-- Last something that leaves the log as it is. -/
theorem appends_before {f : α → EStateM ε σ β}
    {Q : β → List ω → Prop} (hx : Appends log x P S)
    (hf : ∀ a added, P a added → Within (SameView log) (f a) (fun b => Q b added)
      fun e => S e added) : Appends log (x >>= f) Q S := by
  refine appends_bind hx fun a added ha => appends_mono (hf a added ha).appends ?_ ?_
  · rintro b _ ⟨rfl, hb⟩
    rwa [List.append_nil]
  · rintro e _ ⟨rfl, he⟩
    rwa [List.append_nil]

theorem appends_map {f : α → β} {Q : β → List ω → Prop} (hx : Appends log x P S)
    (hf : ∀ a added, P a added → Q (f a) added) : Appends log (f <$> x) Q S := by
  intro s
  rw [wp_map]
  refine wp_mono (hx s) ?_ fun _ _ he => he
  rintro a s' ⟨added, hlog, ha⟩
  exact ⟨added, hlog, hf a added ha⟩

end Appends

end GroupAgent.Lib
