import Mathlib.Data.List.Forall2

/-!
# Runs of marks, and lists side by side

A list some elements of which carry a mark and some close a run: `runs` is, for each that closes
one, the marks since the one before it.

* `runs_cons_close`, `runs_cons_mark`, `runs_cons_other`: the three kinds of elements.
* `runs_map_fst`: there is one run for each element that closes one, in their order.

`Forall₃` is a relation of three lists, element by element, as `List.Forall₂` is of two. `left` is
what it says of the first two lists, `comp` follows the third to a fourth, and `map_middle` takes
images of the second.
-/

namespace GroupAgent.Lib

variable {ι κ σ : Type*} (mark : ι → Option σ) (close : ι → Option κ)

/-- The elements that close a run, each with the marks since the one before it. `run` is what is
marked already. -/
def runs (run : List σ) : List ι → List (κ × List σ)
  | [] => []
  | i :: l =>
    match close i with
    | some k => (k, run) :: runs [] l
    | none => runs (run ++ (mark i).toList) l

variable {mark close} {run : List σ} {i : ι} {l : List ι}

@[simp] theorem runs_nil : runs mark close run [] = [] := rfl

theorem runs_cons_close {k : κ} (h : close i = some k) :
    runs mark close run (i :: l) = (k, run) :: runs mark close [] l := by
  simp [runs, h]

theorem runs_cons_mark {s : σ} (h : close i = none) (hs : mark i = some s) :
    runs mark close run (i :: l) = runs mark close (run ++ [s]) l := by
  simp [runs, h, hs]

theorem runs_cons_other (h : close i = none) (hs : mark i = none) :
    runs mark close run (i :: l) = runs mark close run l := by
  simp [runs, h, hs]

/-- What closes the runs is what closes. -/
theorem runs_map_fst : (runs mark close run l).map Prod.fst = l.filterMap close := by
  induction l generalizing run with
  | nil => rfl
  | cons i l ih =>
    cases h : close i with
    | some k => rw [runs_cons_close h, List.map_cons, ih, List.filterMap_cons_some h]
    | none =>
      rw [List.filterMap_cons_none h]
      cases hs : mark i with
      | some s => rw [runs_cons_mark h hs, ih]
      | none => rw [runs_cons_other h hs, ih]

/-! ## Three lists side by side -/

section Side

variable {α β γ δ : Type*}

/-- Three lists of one length, with a relation between the elements at one place. -/
inductive Forall₃ (R : α → β → γ → Prop) : List α → List β → List γ → Prop where
  | nil : Forall₃ R [] [] []
  | cons {a b c as bs cs} : R a b c → Forall₃ R as bs cs → Forall₃ R (a :: as) (b :: bs) (c :: cs)

variable {R : α → β → γ → Prop} {as : List α} {bs : List β} {cs : List γ}

namespace Forall₃

/-- The first two lists. -/
theorem left {T : α → β → Prop} (h : Forall₃ R as bs cs) (hT : ∀ a b c, R a b c → T a b) :
    List.Forall₂ T as bs := by
  induction h with
  | nil => exact .nil
  | cons hR _ ih => exact .cons (hT _ _ _ hR) ih

/-- What holds of the first two lists as it does of the last and the second. -/
theorem forall₂_iff {T : α → β → Prop} {U : γ → β → Prop} (h : Forall₃ R as bs cs)
    (hTU : ∀ a b c, R a b c → (U c b ↔ T a b)) : List.Forall₂ U cs bs ↔ List.Forall₂ T as bs := by
  induction h with
  | nil => simp
  | cons hR _ ih => rw [List.forall₂_cons, List.forall₂_cons, hTU _ _ _ hR, ih]

/-- The last list is followed by another. -/
theorem comp {T : γ → δ → Prop} {ds : List δ} (h : Forall₃ R as bs cs) (hT : List.Forall₂ T cs ds) :
    Forall₃ (fun a b d => ∃ c, R a b c ∧ T c d) as bs ds := by
  induction h generalizing ds with
  | nil =>
    cases hT
    exact .nil
  | cons hR _ ih =>
    cases hT with
    | cons hd hds => exact .cons ⟨_, hR, hd⟩ (ih hds)

theorem map_middle {T : α → δ → γ → Prop} {f : δ → β} {ds : List δ}
    (h : Forall₃ R as (ds.map f) cs) (hT : ∀ a d c, R a (f d) c → T a d c) : Forall₃ T as ds cs := by
  induction ds generalizing as cs with
  | nil =>
    cases h
    exact .nil
  | cons d ds ih =>
    cases h with
    | cons hR h => exact .cons (hT _ _ _ hR) (ih h)

end Forall₃

end Side

end GroupAgent.Lib
