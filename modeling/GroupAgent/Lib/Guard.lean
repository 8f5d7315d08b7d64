import GroupAgent.Lib.Effect

/-!
# Computations that stop at an alarm

A computation keeps a log. Some words it may add to the log and go on; they are closed under
concatenation. Other words are alarms, after which it stops for a reason that the alarm gives.

* `Goes`: the words after which one may go on.
* `Halts`: what a computation that stops has added, up to its last word.
* `Guards log goes ends x P`: whatever the state, `x` returns a `P` and has added a word it may go
  on after, or it stops and has added at most one alarm, at the end.

The rules follow the constructors of a `do` block (`guards_bind`, `guards_seq`, `guards_map`).
`guards_after` puts what is known of a step before what follows it.
-/

namespace GroupAgent.Lib

variable {ε σ ω α β γ : Type}

/-- The words after which a computation goes on are closed under concatenation. -/
structure Goes (goes : List ω → Prop) : Prop where
  nil : goes []
  append : ∀ u v, goes u → goes v → goes (u ++ v)

/-- What is added before a stop: no alarm, or one at the end that gives the reason. -/
def Halts (goes : List ω → Prop) (ends : ε → List ω → Prop) (e : ε) (added : List ω) : Prop :=
  goes added ∨ ∃ before last, added = before ++ last ∧ goes before ∧ ends e last

theorem Halts.after {goes : List ω → Prop} {ends : ε → List ω → Prop} (hg : Goes goes) {e : ε}
    {u v : List ω} (hu : goes u) (hv : Halts goes ends e v) : Halts goes ends e (u ++ v) := by
  rcases hv with hv | ⟨before, last, rfl, hbefore, hlast⟩
  · exact .inl (hg.append u v hu hv)
  · exact .inr ⟨u ++ before, last, by rw [List.append_assoc], hg.append u before hu hbefore, hlast⟩

/-- The computation returns a `P` or stops. Only when it stops may its last word be an alarm. -/
def Guards (log : σ → List ω) (goes : List ω → Prop) (ends : ε → List ω → Prop)
    (x : EStateM ε σ α) (P : α → Prop) : Prop :=
  Appends log x (fun a added => goes added ∧ P a) (Halts goes ends)

section Guards

variable {log : σ → List ω} {goes : List ω → Prop} {ends : ε → List ω → Prop}
  {x : EStateM ε σ α} {P P' : α → Prop}

theorem guards_mono (h : Guards log goes ends x P) (hP : ∀ a, P a → P' a) :
    Guards log goes ends x P' :=
  appends_mono h (fun a _ ha => ⟨ha.1, hP a ha.2⟩) fun _ _ he => he

theorem guards_map {f : α → β} {Q : β → Prop} (hx : Guards log goes ends x P)
    (hf : ∀ a, P a → Q (f a)) : Guards log goes ends (f <$> x) Q :=
  appends_map hx fun a _ ha => ⟨ha.1, hf a ha.2⟩

variable (hg : Goes goes)

include hg

/-- What leaves the log as it is. -/
theorem Within.guards {S : ε → Prop} (h : Within (SameView log) x P S) :
    Guards log goes ends x P := by
  refine appends_mono h.appends ?_ ?_
  · rintro a _ ⟨rfl, ha⟩
    exact ⟨hg.nil, ha⟩
  · rintro e _ ⟨rfl, -⟩
    exact .inl hg.nil

theorem guards_pure {a : α} (h : P a) : Guards log goes ends (pure a : EStateM ε σ α) P :=
  appends_pure ⟨hg.nil, h⟩

/-- After a word that lets it go on. -/
theorem guards_after {u : List ω} (hu : goes u) (h : Guards log goes ends x P) :
    Appends log x (fun a more => goes (u ++ more) ∧ P a) fun e more => Halts goes ends e (u ++ more) :=
  appends_mono h (fun _ more ha => ⟨hg.append u more hu ha.1, ha.2⟩) fun _ _ he => he.after hg hu

theorem guards_bind {f : α → EStateM ε σ β} {Q : β → Prop} (hx : Guards log goes ends x P)
    (hf : ∀ a, P a → Guards log goes ends (f a) Q) : Guards log goes ends (x >>= f) Q :=
  appends_bind hx fun a _ ha => guards_after hg ha.1 (hf a ha.2)

/-- A step whose value is not needed. -/
theorem guards_seq {y : EStateM ε σ β} {Q : β → Prop} (hx : Guards log goes ends x fun _ => True)
    (hy : Guards log goes ends y Q) : Guards log goes ends (x >>= fun _ => y) Q :=
  guards_bind hg hx fun _ _ => hy

end Guards

end GroupAgent.Lib
