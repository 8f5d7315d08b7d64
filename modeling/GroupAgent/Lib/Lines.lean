import Mathlib.Data.List.Basic

/-!
# Lines

`cutLines` cuts a whole text at every line end: `cr`, `lf`, and `cr lf`, which is one end and not
two. `cutAfter` cuts a list after every element that ends a piece.

* `line_induction`: every text is an unended line, or a line, its end and a shorter text.
* `cutLines_flatMap`: cutting a text and encoding it commute, when the encoding keeps the line ends.
-/

namespace GroupAgent.Lib

variable {α β : Type}

/-- Put an element before the first piece. -/
def consPiece (a : α) : List (List α) × List α → List (List α) × List α
  | ([], rest) => ([], a :: rest)
  | (piece :: pieces, rest) => ((a :: piece) :: pieces, rest)

/-- Put elements before the first piece. -/
def appendPiece (l : List α) (r : List (List α) × List α) : List (List α) × List α :=
  l.foldr consPiece r

theorem appendPiece_nil (l rest : List α) : appendPiece l ([], rest) = ([], l ++ rest) := by
  induction l with
  | nil => rfl
  | cons a l ih => exact congrArg (consPiece a) ih

theorem appendPiece_cons (l piece : List α) (pieces : List (List α)) (rest : List α) :
    appendPiece l (piece :: pieces, rest) = ((l ++ piece) :: pieces, rest) := by
  induction l with
  | nil => rfl
  | cons a l ih => exact congrArg (consPiece a) ih

/-! ## Cutting at line ends -/

section Lines

variable [DecidableEq α] (cr lf : α)

/-- The ended lines of a text, without their ends, and the line that is not ended. -/
def cutLines : List α → List (List α) × List α
  | [] => ([], [])
  | [a] => if a = cr ∨ a = lf then ([[]], []) else ([], [a])
  | a :: b :: text =>
    if a = cr ∧ b = lf then ([] :: (cutLines text).1, (cutLines text).2)
    else if a = cr ∨ a = lf then ([] :: (cutLines (b :: text)).1, (cutLines (b :: text)).2)
    else consPiece a (cutLines (b :: text))

/-- A text with no line end in it. -/
def Plain (line : List α) : Prop := ∀ a ∈ line, a ≠ cr ∧ a ≠ lf

variable {cr lf}

theorem cutLines_cons {a : α} (ha : a ≠ cr ∧ a ≠ lf) (text : List α) :
    cutLines cr lf (a :: text) = consPiece a (cutLines cr lf text) := by
  cases text with
  | nil => simp [cutLines, ha, consPiece]
  | cons b text => simp [cutLines, ha]

/-- A text that begins with a line end begins with an empty line. -/
theorem cutLines_ends {a : α} (ha : a = cr ∨ a = lf) (text : List α) :
    ∃ lines, (cutLines cr lf (a :: text)).1 = [] :: lines := by
  cases text with
  | nil => exact ⟨[], by simp [cutLines, ha]⟩
  | cons b text =>
    rw [cutLines]
    by_cases hboth : a = cr ∧ b = lf
    · rw [if_pos hboth]
      exact ⟨_, rfl⟩
    · rw [if_neg hboth, if_pos ha]
      exact ⟨_, rfl⟩

theorem cutLines_append {line : List α} (hline : Plain cr lf line) (text : List α) :
    cutLines cr lf (line ++ text) = appendPiece line (cutLines cr lf text) := by
  induction line with
  | nil => rfl
  | cons a line ih =>
    rw [List.cons_append, cutLines_cons (hline a List.mem_cons_self),
      ih fun b hb => hline b (List.mem_cons_of_mem a hb)]
    rfl

/-- An unended line. -/
theorem cutLines_plain {line : List α} (hline : Plain cr lf line) :
    cutLines cr lf line = ([], line) := by
  have h := cutLines_append hline []
  rwa [List.append_nil, cutLines, appendPiece_nil, List.append_nil] at h

theorem cutLines_crlf {line : List α} (hline : Plain cr lf line) (text : List α) :
    cutLines cr lf (line ++ cr :: lf :: text) =
      (line :: (cutLines cr lf text).1, (cutLines cr lf text).2) := by
  rw [cutLines_append hline]
  simp [cutLines, appendPiece_cons]

theorem cutLines_cr {line : List α} (hline : Plain cr lf line) {text : List α}
    (htext : text.head? ≠ some lf) : cutLines cr lf (line ++ cr :: text) =
      (line :: (cutLines cr lf text).1, (cutLines cr lf text).2) := by
  rw [cutLines_append hline]
  cases text with
  | nil => simp [cutLines, appendPiece_cons]
  | cons b text =>
    have hb : b ≠ lf := fun h => htext (congrArg some h)
    simp [cutLines, hb, appendPiece_cons]

theorem cutLines_lf (hne : cr ≠ lf) {line : List α} (hline : Plain cr lf line) (text : List α) :
    cutLines cr lf (line ++ lf :: text) =
      (line :: (cutLines cr lf text).1, (cutLines cr lf text).2) := by
  rw [cutLines_append hline]
  cases text with
  | nil => simp [cutLines, appendPiece_cons]
  | cons b text => simp [cutLines, hne.symm, appendPiece_cons]

/-- A text begins with a plain line, and goes on with a line end, if it goes on. -/
theorem exists_line (cr lf : α) (text : List α) : ∃ line rest, text = line ++ rest ∧ Plain cr lf line ∧
    ∀ a ∈ rest.head?, a = cr ∨ a = lf := by
  induction text with
  | nil => exact ⟨[], [], rfl, nofun, nofun⟩
  | cons a text ih =>
    by_cases ha : a = cr ∨ a = lf
    · exact ⟨[], a :: text, rfl, nofun, fun b hb => Option.some.inj hb ▸ ha⟩
    · obtain ⟨line, rest, rfl, hline, hrest⟩ := ih
      exact ⟨a :: line, rest, rfl, List.forall_mem_cons.mpr ⟨not_or.mp ha, hline⟩, hrest⟩

/-- Induction over the lines of a text. -/
theorem line_induction (cr lf : α) {motive : List α → Prop}
    (unended : ∀ line, Plain cr lf line → motive line)
    (ended : ∀ line text, Plain cr lf line → motive text → motive (line ++ lf :: text))
    (both : ∀ line text, Plain cr lf line → motive text → motive (line ++ cr :: lf :: text))
    (returned : ∀ line text, Plain cr lf line → text.head? ≠ some lf → motive text →
      motive (line ++ cr :: text)) (text : List α) : motive text := by
  induction hn : text.length using Nat.strongRecOn generalizing text with
  | ind n ih =>
    obtain ⟨line, rest, rfl, hline, hrest⟩ := exists_line cr lf text
    have hlt : ∀ text' : List α, text'.length < rest.length → motive text' := fun text' h =>
      ih text'.length (by rw [← hn, List.length_append]; omega) text' rfl
    match rest, hrest, hlt with
    | [], _, _ =>
      rw [List.append_nil]
      exact unended line hline
    | a :: text, hrest, hlt =>
      by_cases ha : a = lf
      · subst ha
        exact ended line text hline (hlt text (Nat.lt_succ_self _))
      · obtain rfl := (hrest a rfl).resolve_right ha
        by_cases hhead : text.head? = some lf
        · obtain ⟨text', rfl⟩ : ∃ text', text = lf :: text' := List.head?_eq_some_iff.mp hhead
          exact both line text' hline (hlt text' (by simp only [List.length_cons]; omega))
        · exact returned line text hline hhead (hlt text (Nat.lt_succ_self _))

section Encoding

variable [DecidableEq β] {cr' lf' : β} {f : α → List β}

omit [DecidableEq α] [DecidableEq β] in
theorem plain_flatMap (hplain : ∀ a, a ≠ cr → a ≠ lf → Plain cr' lf' (f a)) {line : List α}
    (hline : Plain cr lf line) : Plain cr' lf' (line.flatMap f) := by
  intro b hb
  obtain ⟨a, ha, hb⟩ := List.mem_flatMap.mp hb
  exact hplain a (hline a ha).1 (hline a ha).2 b hb

/-- Cutting an encoded text is cutting the text. -/
theorem cutLines_flatMap (hne : cr ≠ lf) (hne' : cr' ≠ lf') (hcr : f cr = [cr']) (hlf : f lf = [lf'])
    (hplain : ∀ a, a ≠ cr → a ≠ lf → Plain cr' lf' (f a)) (hnil : ∀ a, f a ≠ []) (text : List α) :
    cutLines cr' lf' (text.flatMap f) =
      ((cutLines cr lf text).1.map (List.flatMap f), (cutLines cr lf text).2.flatMap f) := by
  induction text using line_induction cr lf with
  | unended line hline => rw [cutLines_plain hline, cutLines_plain (plain_flatMap hplain hline)]; rfl
  | ended line text hline ih =>
    rw [cutLines_lf hne hline, List.flatMap_append, List.flatMap_cons, hlf, List.singleton_append,
      cutLines_lf hne' (plain_flatMap hplain hline), ih]
    rfl
  | both line text hline ih =>
    rw [cutLines_crlf hline, List.flatMap_append, List.flatMap_cons, List.flatMap_cons, hcr, hlf,
      List.singleton_append, List.singleton_append, cutLines_crlf (plain_flatMap hplain hline), ih]
    rfl
  | returned line text hline htext ih =>
    have hhead : (text.flatMap f).head? ≠ some lf' := by
      cases text with
      | nil => simp
      | cons b text =>
        have hb : b ≠ lf := fun h => htext (congrArg some h)
        obtain ⟨c, rest, hc⟩ := List.exists_cons_of_ne_nil (hnil b)
        rw [List.flatMap_cons, hc, List.cons_append, List.head?_cons]
        intro h
        have hc' : c = lf' := Option.some.inj h
        by_cases hbcr : b = cr
        · rw [hbcr, hcr] at hc
          exact hne' ((List.cons.inj hc).1.trans hc')
        · exact (hplain b hbcr hb c (by rw [hc]; exact List.mem_cons_self)).2 hc'
    rw [cutLines_cr hline htext, List.flatMap_append, List.flatMap_cons, hcr, List.singleton_append,
      cutLines_cr (plain_flatMap hplain hline) hhead, ih]
    rfl

end Encoding

end Lines

/-! ## Cutting after an element -/

section Pieces

variable (ends : α → Bool)

/-- The pieces of a list, each with the element that ends it, and the piece that is not ended. -/
def cutAfter : List α → List (List α) × List α
  | [] => ([], [])
  | a :: l =>
    if ends a then ([a] :: (cutAfter l).1, (cutAfter l).2) else consPiece a (cutAfter l)

variable {ends}

theorem cutAfter_append {l : List α} (hl : ∀ a ∈ l, ends a = false) (rest : List α) :
    cutAfter ends (l ++ rest) = appendPiece l (cutAfter ends rest) := by
  induction l with
  | nil => rfl
  | cons a l ih =>
    rw [List.cons_append, cutAfter, hl a List.mem_cons_self,
      ih fun b hb => hl b (List.mem_cons_of_mem a hb)]
    rfl

theorem cutAfter_open {l : List α} (hl : ∀ a ∈ l, ends a = false) : cutAfter ends l = ([], l) := by
  have h := cutAfter_append hl []
  rwa [List.append_nil, cutAfter, appendPiece_nil, List.append_nil] at h

theorem cutAfter_ended {l : List α} (hl : ∀ a ∈ l, ends a = false) {a : α} (ha : ends a = true)
    (rest : List α) : cutAfter ends (l ++ a :: rest) =
      ((l ++ [a]) :: (cutAfter ends rest).1, (cutAfter ends rest).2) := by
  rw [cutAfter_append hl, cutAfter, if_pos ha, appendPiece_cons]

/-- The first piece begins with the elements that do not end it. -/
theorem cutAfter_begins {l : List α} (hl : ∀ a ∈ l, ends a = false) (rest : List α) :
    ∃ more, l ++ more ∈ (cutAfter ends (l ++ rest)).1 ∨ l ++ more = (cutAfter ends (l ++ rest)).2 := by
  rw [cutAfter_append hl]
  rcases cutAfter ends rest with ⟨_ | ⟨piece, pieces⟩, more⟩
  · rw [appendPiece_nil]
    exact ⟨more, .inr rfl⟩
  · rw [appendPiece_cons]
    exact ⟨piece, .inl List.mem_cons_self⟩

end Pieces

end GroupAgent.Lib
