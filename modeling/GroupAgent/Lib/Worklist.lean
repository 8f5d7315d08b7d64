import Mathlib.Data.List.Perm.Subperm

/-!
# A worklist that rejects

A worklist search over candidates: `check` either rejects a candidate or names the key it is
stored under, a key not seen before is queued, and every queued key is expanded once into more
candidates. One rejected candidate stops the search.

* `drain` is the loop, with a bound on the number of keys it expands; what is left in the queue
  when the bound is reached is returned.
* **`drain_closed`**: a search that empties its queue holds every key it started from, and every
  candidate expanded from a key it holds was accepted and is held too.
* **`drain_empties`**: when all keys come from a finite list, a bound of its length empties the
  queue, so the bound is no restriction.
-/

namespace GroupAgent.Lib.Worklist

variable {α β ε : Type} {check : α → Except ε β} {expand : β → List α}

/-- The candidate was accepted and its key is held. -/
def Held (check : α → Except ε β) (held : List β) (a : α) : Prop :=
  ∃ b ∈ held, check a = .ok b

theorem Held.mono {held held' : List β} {a : α} (h : Held check held a)
    (hsub : ∀ b ∈ held, b ∈ held') : Held check held' a := by
  obtain ⟨b, hb, hc⟩ := h
  exact ⟨b, hsub b hb, hc⟩

/-- What offering candidates does: nothing is dropped, every candidate ends up held, and a key
that is new is also waiting. -/
structure Pushed (check : α → Except ε β) (as : List α) (st st' : List β × List β) : Prop where
  held_sub : ∀ b ∈ st.1, b ∈ st'.1
  work_sub : ∀ b ∈ st.2, b ∈ st'.2
  new_waits : ∀ b ∈ st'.1, b ∈ st.1 ∨ b ∈ st'.2
  work_held : ∀ b ∈ st'.2, b ∈ st.2 ∨ b ∈ st'.1
  accepted : ∀ a ∈ as, Held check st'.1 a

/-- Waiting keys are held, and a held key that no longer waits has its candidates held. -/
structure Inv (check : α → Except ε β) (expand : β → List α) (st : List β × List β) : Prop where
  work_held : ∀ b ∈ st.2, b ∈ st.1
  closed : ∀ b ∈ st.1, b ∈ st.2 ∨ ∀ a ∈ expand b, Held check st.1 a

theorem inv_of_pushed_nil {as : List α} {st : List β × List β}
    (h : Pushed check as ([], []) st) : Inv check expand st where
  work_held b hb := by
    rcases h.work_held b hb with hb | hb
    · exact absurd hb List.not_mem_nil
    · exact hb
  closed b hb := by
    rcases h.new_waits b hb with hb | hb
    · exact absurd hb List.not_mem_nil
    · exact Or.inl hb

theorem inv_step {held work : List β} {b : β} {st : List β × List β}
    (hinv : Inv check expand (held, b :: work))
    (h : Pushed check (expand b) (held, work) st) : Inv check expand st where
  work_held c hc := by
    rcases h.work_held c hc with hc | hc
    · exact h.held_sub c (hinv.work_held c (List.mem_cons_of_mem b hc))
    · exact hc
  closed c hc := by
    rcases h.new_waits c hc with hc' | hc'
    · rcases hinv.closed c hc' with hw | hx
      · rcases List.mem_cons.mp hw with rfl | hw
        · exact Or.inr h.accepted
        · exact Or.inl (h.work_sub c hw)
      · exact Or.inr fun a ha => (hx a ha).mono h.held_sub
    · exact Or.inl hc'

/-! ## The search -/

variable [DecidableEq β]

/-- Offer one candidate: reject it, or queue its key unless it is already there. -/
def push (check : α → Except ε β) (st : List β × List β) (a : α) : Except ε (List β × List β) :=
  match check a with
  | .error e => .error e
  | .ok b => if b ∈ st.1 then .ok st else .ok (b :: st.1, st.2 ++ [b])

/-- Offer candidates in order, up to the first rejected one. -/
def pushAll (check : α → Except ε β) : List α → List β × List β → Except ε (List β × List β)
  | [], st => .ok st
  | a :: as, st =>
    match push check st a with
    | .error e => .error e
    | .ok st' => pushAll check as st'

/-- Expand the queue front first, at most `bound` keys. Returns the keys held and the keys still
waiting. -/
def drain (check : α → Except ε β) (expand : β → List α) :
    Nat → List β × List β → Except ε (List β × List β)
  | 0, st => .ok st
  | _ + 1, (held, []) => .ok (held, [])
  | bound + 1, (held, b :: work) =>
    match pushAll check (expand b) (held, work) with
    | .error e => .error e
    | .ok st => drain check expand bound st

/-! ## One batch of candidates -/

theorem push_spec {st st' : List β × List β} {a : α} (h : push check st a = .ok st') :
    Pushed check [a] st st' := by
  unfold push at h
  cases hc : check a with
  | error e => rw [hc] at h; exact absurd h (by simp)
  | ok b =>
    rw [hc] at h
    simp only at h
    split at h
    · rename_i hmem
      cases h
      refine ⟨fun _ h => h, fun _ h => h, fun _ h => Or.inl h, fun _ h => Or.inl h, ?_⟩
      intro a' ha'
      rw [List.mem_singleton.mp ha']
      exact ⟨b, hmem, hc⟩
    · cases h
      refine ⟨fun c h => List.mem_cons_of_mem b h, fun c h => List.mem_append_left _ h, ?_, ?_, ?_⟩
      · intro c h
        rcases List.mem_cons.mp h with rfl | h
        · exact Or.inr (List.mem_append_right _ (List.mem_singleton_self _))
        · exact Or.inl h
      · intro c h
        rcases List.mem_append.mp h with h | h
        · exact Or.inl h
        · rw [List.mem_singleton.mp h]
          exact Or.inr List.mem_cons_self
      · intro a' ha'
        rw [List.mem_singleton.mp ha']
        exact ⟨b, List.mem_cons_self, hc⟩

theorem pushAll_spec : ∀ {as : List α} {st st' : List β × List β},
    pushAll check as st = .ok st' → Pushed check as st st'
  | [], st, st', h => by
    cases h
    exact ⟨fun _ h => h, fun _ h => h, fun _ h => Or.inl h, fun _ h => Or.inl h,
      fun a h => absurd h List.not_mem_nil⟩
  | a :: as, st, st', h => by
    unfold pushAll at h
    cases hp : push check st a with
    | error e => rw [hp] at h; exact absurd h (by simp)
    | ok st₁ =>
      rw [hp] at h
      have h₁ := push_spec hp
      have h₂ := pushAll_spec h
      refine ⟨fun b hb => h₂.held_sub b (h₁.held_sub b hb),
        fun b hb => h₂.work_sub b (h₁.work_sub b hb), ?_, ?_, ?_⟩
      · intro b hb
        rcases h₂.new_waits b hb with hb | hb
        · rcases h₁.new_waits b hb with hb | hb
          · exact Or.inl hb
          · exact Or.inr (h₂.work_sub b hb)
        · exact Or.inr hb
      · intro b hb
        rcases h₂.work_held b hb with hb | hb
        · rcases h₁.work_held b hb with hb | hb
          · exact Or.inl hb
          · exact Or.inr (h₂.held_sub b hb)
        · exact Or.inr hb
      · intro a' ha'
        rcases List.mem_cons.mp ha' with rfl | ha'
        · exact (h₁.accepted a' (List.mem_singleton_self _)).mono h₂.held_sub
        · exact h₂.accepted a' ha'

/-! ## The loop -/

/-- **A search that empties its queue is closed**: it holds what it started from, and every
candidate of a held key was accepted and is held. -/
theorem drain_closed : ∀ {bound : Nat} {st : List β × List β} {held : List β},
    Inv check expand st → drain check expand bound st = .ok (held, []) →
      (∀ b ∈ st.1, b ∈ held) ∧ ∀ b ∈ held, ∀ a ∈ expand b, Held check held a
  | 0, st, held, hinv, h => by
    unfold drain at h
    cases h
    refine ⟨fun _ h => h, fun b hb => ?_⟩
    rcases hinv.closed b hb with hw | hx
    · exact absurd hw List.not_mem_nil
    · exact hx
  | bound + 1, (held₀, []), held, hinv, h => by
    unfold drain at h
    cases h
    refine ⟨fun _ h => h, fun b hb => ?_⟩
    rcases hinv.closed b hb with hw | hx
    · exact absurd hw List.not_mem_nil
    · exact hx
  | bound + 1, (held₀, b :: work), held, hinv, h => by
    unfold drain at h
    cases hp : pushAll check (expand b) (held₀, work) with
    | error e => rw [hp] at h; exact absurd h (by simp)
    | ok st =>
      rw [hp] at h
      have hpush := pushAll_spec hp
      obtain ⟨hsub, hcl⟩ := drain_closed (inv_step hinv hpush) h
      exact ⟨fun c hc => hsub c (hpush.held_sub c hc), hcl⟩

/-! ## The bound -/

section Bound

variable {U : List β}

/-- Offering candidates whose keys lie in `U` adds as many waiting keys as held ones. -/
theorem pushAll_count : ∀ {as : List α} {st st' : List β × List β},
    (∀ a ∈ as, ∀ b, check a = .ok b → b ∈ U) → st.1.Nodup → (∀ b ∈ st.1, b ∈ U) →
      pushAll check as st = .ok st' →
      st'.1.Nodup ∧ (∀ b ∈ st'.1, b ∈ U) ∧ st'.2.length + st.1.length = st.2.length + st'.1.length
  | [], st, st', _, hn, hU, h => by
    cases h
    exact ⟨hn, hU, by omega⟩
  | a :: as, st, st', has, hn, hU, h => by
    unfold pushAll at h
    cases hp : push check st a with
    | error e => rw [hp] at h; exact absurd h (by simp)
    | ok st₁ =>
      rw [hp] at h
      have hrest : ∀ a' ∈ as, ∀ b, check a' = .ok b → b ∈ U :=
        fun a' ha' => has a' (List.mem_cons_of_mem a ha')
      unfold push at hp
      cases hc : check a with
      | error e => rw [hc] at hp; exact absurd hp (by simp)
      | ok b =>
        rw [hc] at hp
        simp only at hp
        split at hp
        · cases hp
          exact pushAll_count hrest hn hU h
        · rename_i hnew
          cases hp
          have hbU : b ∈ U := has a List.mem_cons_self b hc
          have hU' : ∀ c ∈ b :: st.1, c ∈ U := by
            intro c hc'
            rcases List.mem_cons.mp hc' with rfl | hc'
            · exact hbU
            · exact hU c hc'
          have hn' : (b :: st.1).Nodup := List.nodup_cons.mpr ⟨hnew, hn⟩
          obtain ⟨h₁, h₂, h₃⟩ := pushAll_count hrest hn' hU' h
          refine ⟨h₁, h₂, ?_⟩
          simp only [List.length_cons, List.length_append, List.length_nil] at h₃
          omega

/-- **The bound is no restriction**: when every key lies in `U`, a bound of `U`'s length and the
waiting keys not yet counted there empties the queue. -/
theorem drain_empties (hexp : ∀ b ∈ U, ∀ a ∈ expand b, ∀ c, check a = .ok c → c ∈ U) :
    ∀ {bound : Nat} {st st' : List β × List β}, st.1.Nodup → (∀ b ∈ st.1, b ∈ U) →
      (∀ b ∈ st.2, b ∈ U) → U.length + st.2.length ≤ bound + st.1.length →
      drain check expand bound st = .ok st' → st'.2 = []
  | 0, st, st', hn, hU, _, hle, h => by
    unfold drain at h
    cases h
    have hlen : st.1.length ≤ U.length := (List.subperm_of_subset hn hU).length_le
    exact List.length_eq_zero_iff.mp (by omega)
  | bound + 1, (held, []), st', _, _, _, _, h => by
    unfold drain at h
    cases h
    rfl
  | bound + 1, (held, b :: work), st', hn, hU, hW, hle, h => by
    unfold drain at h
    cases hp : pushAll check (expand b) (held, work) with
    | error e => rw [hp] at h; exact absurd h (by simp)
    | ok st =>
      rw [hp] at h
      have hb := hexp b (hW b List.mem_cons_self)
      have hn' : (held, work).1.Nodup := hn
      obtain ⟨h₁, h₂, h₃⟩ := pushAll_count hb hn' hU hp
      have hspec := pushAll_spec hp
      have hW' : ∀ c ∈ st.2, c ∈ U := by
        intro c hc
        rcases hspec.work_held c hc with hc | hc
        · exact hW c (List.mem_cons_of_mem b hc)
        · exact h₂ c hc
      refine drain_empties hexp h₁ h₂ hW' ?_ h
      simp only [List.length_cons] at hle h₃
      omega

end Bound

end GroupAgent.Lib.Worklist
