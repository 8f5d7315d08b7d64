import Mathlib.Data.List.Forall2

/-!
# Success of checked computations

What it means that a computation in `Except` returned: every step of it did. One rule a combinator,
over arbitrary types.

* `bind_eq_ok`, `map_eq_ok_iff`, `mapError_eq_ok`, `ite_error_eq_ok`: the constructors of a `do`
  block with checks in it.
* `forM_eq_ok`, `mapM_eq_ok`, `mapM_eq_ok_iff`: loops whose turns do not depend on each other.
* `foldlM_invariant`: a loop with an accumulator keeps what each turn keeps. `foldlM_read_eq_ok`:
  one whose turns read first, and only then look at the accumulator.

Each `_eq_ok` rule is an equivalence, so that a computation of many checks is taken apart by
rewriting with them.
-/

namespace GroupAgent.Lib

variable {ε ε' α β γ : Type}

@[simp] theorem ok_bind (a : α) (f : α → Except ε β) :
    (Except.ok a >>= f : Except ε β) = f a := rfl

@[simp] theorem error_bind (e : ε) (f : α → Except ε β) :
    (Except.error e >>= f : Except ε β) = .error e := rfl

@[simp] theorem pure_eq_ok (a : α) : (pure a : Except ε α) = .ok a := rfl

@[simp] theorem throw_eq_error (e : ε) : (throw e : Except ε α) = .error e := rfl

@[simp] theorem mapError_ok (f : ε → ε') (a : α) : (Except.ok a).mapError f = .ok a := rfl

@[simp] theorem mapError_error (f : ε → ε') (e : ε) :
    (Except.error e : Except ε α).mapError f = .error (f e) := rfl

theorem bind_eq_ok {x : Except ε α} {f : α → Except ε β} {b : β} :
    (x >>= f) = .ok b ↔ ∃ a, x = .ok a ∧ f a = .ok b := by
  cases x with
  | error e => exact ⟨fun h => absurd h (by simp [bind, Except.bind]), fun ⟨_, h, _⟩ => by cases h⟩
  | ok a => simp [bind, Except.bind]

/-- A check that succeeds is one that was passed. -/
theorem ite_error_eq_ok {p : Prop} [Decidable p] {e : ε} {x : Except ε α} {a : α} :
    (if p then .error e else x) = .ok a ↔ ¬p ∧ x = .ok a := by
  by_cases hp : p
  · simp [hp]
  · simp [hp]

theorem map_eq_ok {x : Except ε α} {f : α → β} {b : β} :
    (f <$> x) = .ok b ↔ ∃ a, x = .ok a ∧ f a = b := by
  cases x with
  | error e => simp [Functor.map, Except.map]
  | ok a => simp [Functor.map, Except.map]

/-- A map of what succeeds under a condition, with one value. -/
theorem map_eq_ok_iff {x : Except ε α} {f : α → β} {p : Prop} {a : α} {b : β}
    (h : ∀ a', x = .ok a' ↔ p ∧ a' = a) : (f <$> x) = .ok b ↔ p ∧ b = f a := by
  simp only [map_eq_ok, h]
  constructor
  · rintro ⟨_, ⟨hp, rfl⟩, rfl⟩
    exact ⟨hp, rfl⟩
  · rintro ⟨hp, rfl⟩
    exact ⟨a, ⟨hp, rfl⟩, rfl⟩

theorem mapError_eq_ok {x : Except ε α} {f : ε → ε'} {a : α} :
    x.mapError f = .ok a ↔ x = .ok a := by
  cases x with
  | error e => simp [Except.mapError]
  | ok a => simp [Except.mapError]

theorem mapError_eq_error {x : Except ε α} {f : ε → ε'} {e' : ε'} :
    x.mapError f = .error e' ↔ ∃ e, x = .error e ∧ f e = e' := by
  cases x with
  | error e => simp [Except.mapError]
  | ok a => simp [Except.mapError]

/-- A loop of checks succeeds when every check does. -/
theorem forM_eq_ok {f : α → Except ε Unit} : ∀ {l : List α},
    l.forM f = .ok () ↔ ∀ a ∈ l, f a = .ok ()
  | [] => by simp [List.forM, pure, Except.pure]
  | a :: l => by
    have hcons : (a :: l).forM f = f a >>= fun _ => l.forM f := rfl
    rw [hcons, bind_eq_ok, List.forall_mem_cons]
    constructor
    · rintro ⟨_, ha, hl⟩
      exact ⟨ha, forM_eq_ok.mp hl⟩
    · rintro ⟨ha, hl⟩
      exact ⟨(), ha, forM_eq_ok.mpr hl⟩

/-- A checked map returns the results of its function, element by element. -/
theorem mapM_eq_ok {f : α → Except ε β} : ∀ {l : List α} {r : List β},
    l.mapM f = .ok r ↔ List.Forall₂ (fun a b => f a = .ok b) l r
  | [], r => by
    rw [List.mapM_nil, List.forall₂_nil_left_iff]
    constructor
    · intro h
      cases h
      rfl
    · rintro rfl
      rfl
  | a :: l, r => by
    rw [List.mapM_cons, bind_eq_ok, List.forall₂_cons_left_iff]
    constructor
    · rintro ⟨b, hb, h⟩
      obtain ⟨bs, hbs, hr⟩ := bind_eq_ok.mp h
      cases hr
      exact ⟨b, bs, hb, mapM_eq_ok.mp hbs, rfl⟩
    · rintro ⟨b, bs, hb, hbs, rfl⟩
      exact ⟨b, hb, bind_eq_ok.mpr ⟨bs, mapM_eq_ok.mpr hbs, rfl⟩⟩

/-- A checked map succeeds when its function does on every element. -/
theorem mapM_ok_of_forall {f : α → Except ε β} : ∀ {l : List α}, (∀ a ∈ l, ∃ b, f a = .ok b) →
    ∃ r, l.mapM f = .ok r
  | [], _ => ⟨[], rfl⟩
  | a :: l, h => by
    obtain ⟨b, hb⟩ := h a List.mem_cons_self
    obtain ⟨bs, hbs⟩ := mapM_ok_of_forall fun c hc => h c (List.mem_cons_of_mem a hc)
    exact ⟨b :: bs, mapM_eq_ok.mpr (.cons hb (mapM_eq_ok.mp hbs))⟩

/-- A checked map succeeded on every element. -/
theorem mapM_ok_mem {f : α → Except ε β} : ∀ {l : List α} {r : List β} {a : α},
    l.mapM f = .ok r → a ∈ l → ∃ b ∈ r, f a = .ok b
  | [], _, _, _, ha => absurd ha List.not_mem_nil
  | c :: l, r, a, h, ha => by
    obtain ⟨b, bs, hb, hbs, rfl⟩ := List.forall₂_cons_left_iff.mp (mapM_eq_ok.mp h)
    rcases List.mem_cons.mp ha with rfl | ha
    · exact ⟨b, List.mem_cons_self, hb⟩
    · obtain ⟨d, hd, hf⟩ := mapM_ok_mem (mapM_eq_ok.mpr hbs) ha
      exact ⟨d, List.mem_cons_of_mem b hd, hf⟩

/-- What every success of a function has, every result of a checked map has. -/
theorem mapM_ok_forall {f : α → Except ε β} {p : β → Prop} (h : ∀ a b, f a = .ok b → p b)
    {l : List α} {r : List β} (hr : l.mapM f = .ok r) : ∀ b ∈ r, p b := by
  have hall := mapM_eq_ok.mp hr
  induction hall with
  | nil => simp
  | cons hab hrest ih => exact List.forall_mem_cons.mpr ⟨h _ _ hab, ih (mapM_eq_ok.mpr hrest)⟩

/-- A checked map that can only return the values of `g` returns `map g`. -/
theorem mapM_eq_map {f : α → Except ε β} {g : α → β} (h : ∀ a b, f a = .ok b → b = g a)
    {l : List α} {r : List β} (hr : l.mapM f = .ok r) : r = l.map g := by
  have hall := mapM_eq_ok.mp hr
  induction hall with
  | nil => rfl
  | cons hab hrest ih => rw [List.map_cons, ← h _ _ hab, ih (mapM_eq_ok.mpr hrest)]

/-- A map that is checked value by value. -/
theorem mapM_eq_ok_iff {f : α → Except ε β} {g : α → β} {p : α → Prop}
    (h : ∀ a b, f a = .ok b ↔ p a ∧ b = g a) {l : List α} {r : List β} :
    l.mapM f = .ok r ↔ (∀ a ∈ l, p a) ∧ r = l.map g := by
  rw [mapM_eq_ok]
  constructor
  · intro hall
    induction hall with
    | nil => simp
    | cons hab _ ih =>
      obtain ⟨hp, rfl⟩ := (h _ _).mp hab
      obtain ⟨hall, rfl⟩ := ih
      exact ⟨List.forall_mem_cons.mpr ⟨hp, hall⟩, rfl⟩
  · rintro ⟨hall, rfl⟩
    induction l with
    | nil => exact .nil
    | cons a l ih =>
      obtain ⟨ha, hall⟩ := List.forall_mem_cons.mp hall
      exact .cons ((h _ _).mpr ⟨ha, rfl⟩) (ih hall)

/-- A checked map that undoes `g`, on values that are allowed. -/
theorem mapM_eq_ok_map {f : α → Except ε β} {g : β → α} {p : β → Prop}
    (h : ∀ a b, f a = .ok b ↔ a = g b ∧ p b) {l : List α} {r : List β} :
    l.mapM f = .ok r ↔ l = r.map g ∧ ∀ b ∈ r, p b := by
  rw [mapM_eq_ok]
  constructor
  · intro hall
    induction hall with
    | nil => exact ⟨rfl, fun _ hb => absurd hb List.not_mem_nil⟩
    | cons hab hrest ih =>
      obtain ⟨ha, hb⟩ := (h _ _).mp hab
      exact ⟨by rw [List.map_cons, ha, ih.1], List.forall_mem_cons.mpr ⟨hb, ih.2⟩⟩
  · rintro ⟨rfl, hr⟩
    induction r with
    | nil => exact .nil
    | cons b r ih =>
      obtain ⟨hb, hr⟩ := List.forall_mem_cons.mp hr
      exact .cons ((h _ _).mpr ⟨rfl, hb⟩) (ih hr)

/-- A loop keeps an invariant, indexed by the elements done, that every successful turn keeps. -/
theorem foldlM_invariant {f : β → α → Except ε β} (I : List α → β → Prop) :
    ∀ {todo done : List α} {b b' : β},
      (∀ done' a rest c c', done ++ todo = done' ++ a :: rest → I done' c → f c a = .ok c' →
        I (done' ++ [a]) c') →
      I done b → todo.foldlM f b = .ok b' → I (done ++ todo) b'
  | [], done, b, b', _, hb, h => by
    cases h
    rw [List.append_nil]
    exact hb
  | a :: todo, done, b, b', hstep, hb, h => by
    rw [List.foldlM_cons, bind_eq_ok] at h
    obtain ⟨c, hc, hrest⟩ := h
    have hI : I (done ++ [a]) c := hstep done a todo b c rfl hb hc
    have he : done ++ a :: todo = (done ++ [a]) ++ todo := by simp
    rw [he]
    refine foldlM_invariant I (fun done' d rest c c' hsplit => ?_) hI hrest
    exact hstep done' d rest c c' (by rw [he, hsplit])

/-- A loop that reads an element and then steps is a checked map of the reading, then a loop of
the steps. `P` is what the reading relies on. -/
theorem foldlM_read_eq_ok {f : β → α → Except ε β} {read : α → Except ε γ}
    {step : β → γ → Except ε β} (P : β → Prop) (hf : ∀ b a, P b → f b a = read a >>= step b)
    (hP : ∀ b c b', P b → step b c = .ok b' → P b') : ∀ {l : List α} {b b' : β}, P b →
      (l.foldlM f b = .ok b' ↔ ∃ r, l.mapM read = .ok r ∧ r.foldlM step b = .ok b')
  | [], b, b', _ => by
    constructor
    · intro h
      exact ⟨[], rfl, h⟩
    · rintro ⟨r, hr, h⟩
      cases hr
      exact h
  | a :: l, b, b', hb => by
    rw [List.foldlM_cons, List.mapM_cons, hf b a hb, bind_eq_ok]
    constructor
    · rintro ⟨b₁, hstep, h⟩
      obtain ⟨c, hc, hstep⟩ := bind_eq_ok.mp hstep
      obtain ⟨r, hr, h⟩ := (foldlM_read_eq_ok P hf hP (hP b c b₁ hb hstep)).mp h
      exact ⟨c :: r, by simp [hc, hr], bind_eq_ok.mpr ⟨b₁, hstep, h⟩⟩
    · rintro ⟨r, hr, h⟩
      obtain ⟨c, hc, hr⟩ := bind_eq_ok.mp hr
      obtain ⟨cs, hcs, hr⟩ := bind_eq_ok.mp hr
      obtain rfl := Except.ok.inj hr
      obtain ⟨b₁, hstep, h⟩ := bind_eq_ok.mp h
      refine ⟨b₁, bind_eq_ok.mpr ⟨c, hc, hstep⟩, ?_⟩
      exact (foldlM_read_eq_ok P hf hP (hP b c b₁ hb hstep)).mpr ⟨cs, hcs, h⟩

/-- A loop that takes the elements it has not seen: it succeeds when they are all different, and
allowed. -/
theorem collect_eq_ok {f : β → α → Except ε β} {seen : β → List α} {step : β → α → β} {p : α → Prop}
    (hseen : ∀ b a, seen (step b a) = seen b ++ [a])
    (hf : ∀ b a b', f b a = .ok b' ↔ p a ∧ a ∉ seen b ∧ b' = step b a) : ∀ {l : List α} {b b' : β},
      (seen b).Nodup →
      (l.foldlM f b = .ok b' ↔ b' = l.foldl step b ∧ (seen b ++ l).Nodup ∧ ∀ a ∈ l, p a)
  | [], b, b', hb => by
    rw [List.append_nil]
    exact ⟨fun h => ⟨(Except.ok.inj h).symm, hb, nofun⟩, fun h => congrArg Except.ok h.1.symm⟩
  | a :: l, b, b', hb => by
    have hassoc : seen (step b a) ++ l = seen b ++ a :: l := by rw [hseen, List.append_assoc]; rfl
    rw [List.foldlM_cons, bind_eq_ok, List.forall_mem_cons, List.foldl_cons]
    constructor
    · rintro ⟨c, hc, h⟩
      obtain ⟨ha, hnew, rfl⟩ := (hf b a c).mp hc
      have hnodup : (seen (step b a)).Nodup := by
        rw [hseen]
        refine List.nodup_append.mpr ⟨hb, List.pairwise_singleton _ a, fun x hx y hy => ?_⟩
        rw [List.mem_singleton.mp hy]
        exact fun h => hnew (h ▸ hx)
      obtain ⟨hb', hall, hl⟩ := (collect_eq_ok hseen hf hnodup).mp h
      exact ⟨hb', hassoc ▸ hall, ha, hl⟩
    · rintro ⟨hb', hall, ha, hl⟩
      rw [← hassoc] at hall
      have hnodup : (seen (step b a)).Nodup := (List.nodup_append.mp hall).1
      have hnew : a ∉ seen b := by
        rw [hseen] at hnodup
        exact fun h => (List.nodup_append.mp hnodup).2.2 a h a List.mem_cons_self rfl
      exact ⟨step b a, (hf b a _).mpr ⟨ha, hnew, rfl⟩,
        (collect_eq_ok hseen hf hnodup).mpr ⟨hb', hall, hl⟩⟩

/-- A loop in a loop is one loop. -/
theorem foldlM_flatMap {σ : Type} {f : α → List β} {step : σ → β → Except ε σ} :
    ∀ {l : List α} {s : σ},
      (l.flatMap f).foldlM step s = l.foldlM (fun s a => (f a).foldlM step s) s
  | [], _ => rfl
  | a :: l, s => by
    rw [List.flatMap_cons, List.foldlM_append, List.foldlM_cons]
    exact congrArg _ (funext fun _ => foldlM_flatMap)

end GroupAgent.Lib
