import Mathlib.Data.List.Basic
import Mathlib.Logic.Function.Basic

/-!
# Codes that are read back in one way

A value is written as a text, and other text follows it. `Recovers stop enc a` is that the text of
`a` can be told from the text of any other value, as long as what follows is what `stop` allows: a
code word that ends by itself needs nothing (`stop` is always true), a number needs a delimiter.

The rules say how this is kept: by values in a row (`Recovers.flatMap`), by values with separators
between them (`Recovers.separate`), by one value after the other (`Recovers.append`), and by a value
between two marks (`Recovers.enclose`).
-/

namespace GroupAgent.Lib

variable {α β γ δ : Type*} {stop stop' : List β → Prop} {enc : α → List β} {a : α}

/-- The text of `a` is the text of no other value, in front of what `stop` allows. -/
def Recovers (stop : List β → Prop) (enc : α → List β) (a : α) : Prop :=
  ∀ b s t, stop s → stop t → enc a ++ s = enc b ++ t → a = b

/-- A code word for each value, none of which begins another. -/
def PrefixCode (enc : α → List β) : Prop := ∀ a, Recovers (fun _ => True) enc a

/-- Words that are read off the front, whatever follows them. -/
theorem PrefixCode.of_read (read : List β → Option α) (h : ∀ a s, read (enc a ++ s) = some a) :
    PrefixCode enc := by
  intro a b s t _ _ heq
  have hread := h a s
  rw [heq, h b t] at hread
  exact (Option.some.inj hread).symm

namespace Recovers

theorem rest (h : Recovers stop enc a) {b : α} {s t : List β} (hs : stop s) (ht : stop t)
    (heq : enc a ++ s = enc b ++ t) : a = b ∧ s = t := by
  have hab := h b s t hs ht heq
  subst hab
  exact ⟨rfl, List.append_cancel_left heq⟩

theorem comp {f : γ → α} (hf : Function.Injective f) {c : γ} (h : Recovers stop enc (f c)) :
    Recovers stop (enc ∘ f) c :=
  fun d s t hs ht heq => hf (h (f d) s t hs ht heq)

/-- Where nothing has to follow, the texts differ. -/
theorem injective (h : ∀ a, Recovers stop enc a) (hnil : stop []) : Function.Injective enc := by
  intro a b heq
  exact h a b [] [] hnil hnil (by rw [heq])

/-- Values in a row. What follows them does not look like one more value. -/
theorem flatMap {l : List α} (hl : ∀ a ∈ l, Recovers stop enc a)
    (hnext : ∀ a s, stop (enc a ++ s)) (hend : ∀ s, stop' s → stop s)
    (hstart : ∀ a s, ¬stop' (enc a ++ s)) : Recovers stop' (List.flatMap enc) l := by
  have hfollow : ∀ (l : List α) s, stop' s → stop (l.flatMap enc ++ s) := by
    intro l s hs
    cases l with
    | nil => exact hend s hs
    | cons a l =>
      rw [List.flatMap_cons, List.append_assoc]
      exact hnext a _
  induction l with
  | nil =>
    intro m s t hs _ heq
    cases m with
    | nil => rfl
    | cons b m =>
      simp only [List.flatMap_nil, List.nil_append, List.flatMap_cons, List.append_assoc] at heq
      exact absurd (heq ▸ hs) (hstart b _)
  | cons a l ih =>
    intro m s t hs ht heq
    cases m with
    | nil =>
      simp only [List.flatMap_nil, List.nil_append, List.flatMap_cons, List.append_assoc] at heq
      exact absurd (heq ▸ ht) (hstart a _)
    | cons b m =>
      simp only [List.flatMap_cons, List.append_assoc] at heq
      obtain ⟨hab, hrest⟩ :=
        (hl a List.mem_cons_self).rest (hfollow l s hs) (hfollow m t ht) heq
      rw [hab, ih (fun c hc => hl c (List.mem_cons_of_mem a hc)) m s t hs ht hrest]

/-- One value after the other. -/
theorem append {enc' : γ → List β} {c : γ} (h : Recovers stop enc a) (h' : Recovers stop' enc' c)
    (hnext : ∀ c s, stop' s → stop (enc' c ++ s)) :
    Recovers stop' (fun p : α × γ => enc p.1 ++ enc' p.2) (a, c) := by
  rintro ⟨b, d⟩ s t hs ht heq
  simp only [List.append_assoc] at heq
  obtain ⟨hab, hrest⟩ := h.rest (hnext c s hs) (hnext d t ht) heq
  rw [hab, h' d s t hs ht hrest]

/-- A value between two marks. -/
theorem enclose (first last : List β) (h : Recovers stop enc a)
    (hlast : ∀ s, stop (last ++ s)) :
    Recovers (fun _ => True) (fun a => first ++ enc a ++ last) a := by
  intro b s t _ _ heq
  simp only [List.append_assoc, List.append_cancel_left_eq] at heq
  exact h b _ _ (hlast s) (hlast t) heq

/-- A word of token characters, in front of a character that is none. -/
theorem token {p : β → Bool} (hinj : Function.Injective enc) (hp : ∀ a, ∀ c ∈ enc a, p c) :
    Recovers (fun s => ∀ c ∈ s.head?, ¬p c) enc a := by
  have htake : ∀ a s, (∀ c ∈ s.head?, ¬p c) → (enc a ++ s).takeWhile p = enc a := by
    intro a s hs
    rw [List.takeWhile_append_of_pos (hp a)]
    cases s with
    | nil => simp
    | cons c s => simp [hs c rfl]
  intro b s t hs ht heq
  refine hinj ?_
  rw [← htake a s hs, heq, htake b t ht]

end Recovers

/-! ## Separators -/

section Separate

variable (sep : β) (enc : α → List β)

/-- The texts of the values, with a separator between them. -/
def separate : List α → List β
  | [] => []
  | [a] => enc a
  | a :: b :: l => enc a ++ sep :: separate (b :: l)

theorem separate_cons (a : α) (l : List α) :
    separate sep enc (a :: l) = enc a ++ if l = [] then [] else sep :: separate sep enc l := by
  cases l with
  | nil => simp [separate]
  | cons b l => simp [separate]

theorem separate_map (f : γ → α) : ∀ l : List γ,
    separate sep enc (l.map f) = separate sep (enc ∘ f) l
  | [] => rfl
  | [_] => rfl
  | a :: b :: l => by
    have ih := separate_map f (b :: l)
    rw [List.map_cons] at ih
    rw [List.map_cons, List.map_cons, separate, separate, ih]
    rfl

end Separate

/-- Values with separators between them. What follows them is no separator, and does not look like
one more value. -/
theorem Recovers.separate {sep : β} {l : List α} (hl : ∀ a ∈ l, Recovers stop enc a)
    (hsep : ∀ s, stop (sep :: s)) (hend : ∀ s, stop' s → stop s)
    (hstart : ∀ a s, ¬stop' (enc a ++ s)) (hnot : ∀ s, ¬stop' (sep :: s)) :
    Recovers stop' (separate sep enc) l := by
  have hfollow : ∀ (l : List α) s, stop' s →
      stop ((if l = [] then [] else sep :: Lib.separate sep enc l) ++ s) := by
    intro l s hs
    by_cases h : l = []
    · simpa [h] using hend s hs
    · simpa [h] using hsep _
  induction l with
  | nil =>
    intro m s t hs _ heq
    cases m with
    | nil => rfl
    | cons b m =>
      rw [separate_cons, List.append_assoc] at heq
      exact absurd ((show s = _ from heq) ▸ hs) (hstart b _)
  | cons a l ih =>
    intro m s t hs ht heq
    cases m with
    | nil =>
      rw [separate_cons, List.append_assoc] at heq
      exact absurd ((show _ = t from heq) ▸ ht) (hstart a _)
    | cons b m =>
      rw [separate_cons, separate_cons, List.append_assoc, List.append_assoc] at heq
      obtain ⟨hab, hrest⟩ :=
        (hl a List.mem_cons_self).rest (hfollow l s hs) (hfollow m t ht) heq
      have ih := ih (fun c hc => hl c (List.mem_cons_of_mem a hc)) m s t hs ht
      by_cases h : l = [] <;> by_cases h' : m = []
      · rw [hab, h, h']
      · subst h
        simp only [if_pos, if_neg h', List.nil_append, List.cons_append] at hrest
        exact absurd (hrest ▸ hs) (hnot _)
      · subst h'
        simp only [if_pos, if_neg h, List.nil_append, List.cons_append] at hrest
        exact absurd (hrest ▸ ht) (hnot _)
      · simp only [if_neg h, if_neg h', List.cons_append, List.cons.injEq, true_and] at hrest
        rw [hab, ih hrest]

end GroupAgent.Lib
