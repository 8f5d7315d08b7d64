import GroupAgent.Lib.Effect

/-!
# Computations with one outcome

A computation may look at its state on the way and still come to the same outcome whatever it finds
there, unless something outside cuts it short.

* `ComesTo D x r`: whatever the state, `x` ends as `r` says, or stops with a `D`.

The rules follow the constructors of a `do` block: on the right stands the same block, without a
state, in `Except`.
-/

namespace GroupAgent.Lib

variable {ε σ α β γ : Type}

/-- Whatever the state, the computation ends as `r` says, or it stops with a `D`. -/
def ComesTo (D : ε → Prop) (x : EStateM ε σ α) (r : Except ε α) : Prop :=
  ∀ s, wp x (fun a _ => r = .ok a) (fun e _ => r = .error e ∨ D e) s

variable {D : ε → Prop} {x : EStateM ε σ α} {r : Except ε α}

/-- A computation whose outcome from this state is known. -/
theorem wp_bind_of_ok {f : α → EStateM ε σ β} {Q : β → σ → Prop} {R : ε → σ → Prop} {s s' : σ}
    {a : α} (hx : x s = .ok a s') (hf : wp (f a) Q R s') : wp (x >>= f) Q R s := by
  rw [wp_bind]
  unfold wp
  rw [hx]
  exact hf

/-- What holds of the one outcome holds of every end. -/
theorem ComesTo.within (h : ComesTo D x r) {P : α → Prop} {S : ε → Prop}
    (hok : ∀ a, r = .ok a → P a) (herror : ∀ e, r = .error e ∨ D e → S e) :
    Within (SameView fun _ => ()) x P S :=
  fun s => wp_mono (h s) (fun a _ ha => ⟨hok a ha, rfl⟩) fun e _ he => ⟨herror e he, rfl⟩

/-- A computation whose one outcome is a value. -/
theorem ComesTo.value {a : α} (h : ComesTo D x (.ok a)) :
    Within (SameView fun _ => ()) x (fun b => b = a) D := by
  refine h.within ?_ ?_
  · rintro _ ⟨⟩
    rfl
  · rintro e (he | he)
    · cases he
    · exact he

theorem comesTo_pure (a : α) : ComesTo D (pure a : EStateM ε σ α) (.ok a) := fun _ => rfl

theorem comesTo_throw (e : ε) : ComesTo D (throw e : EStateM ε σ α) (.error e) :=
  fun _ => .inl rfl

theorem comesTo_bind {f : α → EStateM ε σ β} {k : α → Except ε β} (hx : ComesTo D x r)
    (hf : ∀ a, r = .ok a → ComesTo D (f a) (k a)) : ComesTo D (x >>= f) (r >>= k) := by
  intro s
  rw [wp_bind]
  refine wp_mono (hx s) (fun a s' ha => ?_) fun e _ he => ?_
  · rw [ha]
    exact hf a ha s'
  · rcases he with rfl | he
    · exact .inl rfl
    · exact .inr he

/-- A step without a value of its own. -/
theorem comesTo_seq {y : EStateM ε σ β} {r : Except ε β} {u : EStateM ε σ Unit}
    (hu : ComesTo D u (.ok ())) (hy : ComesTo D y r) : ComesTo D (u >>= fun _ => y) r :=
  comesTo_bind (k := fun _ => r) hu fun _ _ => hy

/-- A step whose value may differ, in what the rest does not depend on. -/
theorem comesTo_within {R : σ → σ → Prop} {P : α → Prop} {f : α → EStateM ε σ β} {r : Except ε β}
    (hx : Within R x P D) (hf : ∀ a, P a → ComesTo D (f a) r) : ComesTo D (x >>= f) r := by
  intro s
  rw [wp_bind]
  exact wp_mono (hx s) (fun a s' ha => hf a ha.1 s') fun _ _ he => .inr he.1

theorem comesTo_forM {f : γ → EStateM ε σ PUnit} : ∀ {l : List γ},
    (∀ c ∈ l, ComesTo D (f c) (.ok ())) → ComesTo D (l.forM f) (.ok ())
  | [], _ => comesTo_pure _
  | c :: _, h => comesTo_seq (h c List.mem_cons_self)
      (comesTo_forM fun d hd => h d (List.mem_cons_of_mem c hd))

theorem comesTo_mapM {f : γ → EStateM ε σ α} {k : γ → Except ε α} : ∀ {l : List γ},
    (∀ c ∈ l, ComesTo D (f c) (k c)) → ComesTo D (l.mapM f) (l.mapM k)
  | [], _ => by
    rw [List.mapM_nil, List.mapM_nil]
    exact comesTo_pure _
  | c :: l, h => by
    rw [List.mapM_cons, List.mapM_cons]
    refine comesTo_bind (h c List.mem_cons_self) fun a _ => ?_
    refine comesTo_bind (comesTo_mapM fun d hd => h d (List.mem_cons_of_mem c hd)) fun as _ => ?_
    exact comesTo_pure _

end GroupAgent.Lib
