import GroupAgent.Core.Path
import GroupAgent.Lib.Code

/-!
# Rendering of paths

Model of `write_segments` (`path.rs:6-29`) and of the `Display` of `GraphPath` and `NodePath` of
`crates/group-agent-core/src`, as `to_string` calls them: without a width or a precision, the
`Display` of a character writes the character.

* A segment is a slash and its escaped identifier: a percent sign becomes `%25`, a slash `%2F`, and
  every other character stays. The root namespace is `<root>`, which no segment begins.
* The escaping is a prefix code without slashes (`Lib.Code`), so the text of a segment ends where
  the next slash stands, and the segments can be read back.

Results: **`rendering_injective`** is what the tests of `tests/subgraph.rs` sample: different graph
paths are rendered differently, and so are different node paths.

Out of scope: `Debug`, which prints the fields, and a formatter with a width, which pads the
characters one by one.
-/

namespace GroupAgent.Core

open GroupAgent.Lib

/-- What is written for one character of an identifier. -/
def escapeCharacter : Char → String
  | '%' => "%25"
  | '/' => "%2F"
  | character => String.singleton character

/-- A slash, then the identifier. -/
def writeSegment (text : String) (segment : NodeId) : String :=
  segment.value.toList.foldl (fun text character => text ++ escapeCharacter character) (text ++ "/")

def writeSegments (segments : List NodeId) (rootLabel : Bool) : String :=
  if segments.isEmpty then if rootLabel then "<root>" else ""
  else segments.foldl writeSegment ""

/-- `GraphPath::to_string`. -/
def GraphPath.display (self : GraphPath) : String := writeSegments self.segments true

/-- `NodePath::to_string`. -/
def NodePath.display (self : NodePath) : String := writeSegments self.segments false

example : (GraphPath.mk [⟨"a%2Fb"⟩, ⟨""⟩, ⟨"a/b"⟩]).display = "/a%252Fb//a%2Fb" := by decide

/-! ## The text of a path -/

/-- The characters of an escaped identifier. -/
def escaped (text : List Char) : List Char :=
  text.flatMap fun character => (escapeCharacter character).toList

/-- The characters of a segment. -/
def segmentText (segment : NodeId) : List Char := '/' :: escaped segment.value.toList

theorem foldl_append_toList {α : Type} (f : α → String) (l : List α) : ∀ text : String,
    (l.foldl (fun text a => text ++ f a) text).toList =
      text.toList ++ l.flatMap fun a => (f a).toList := by
  induction l with
  | nil => simp
  | cons a l ih => simp [ih]

theorem writeSegment_toList (text : String) (segment : NodeId) :
    (writeSegment text segment).toList = text.toList ++ segmentText segment := by
  simp [writeSegment, foldl_append_toList, segmentText, escaped]

theorem foldl_writeSegment_toList (segments : List NodeId) : ∀ text : String,
    (segments.foldl writeSegment text).toList = text.toList ++ segments.flatMap segmentText := by
  induction segments with
  | nil => simp
  | cons segment segments ih => simp [ih, writeSegment_toList]

theorem writeSegments_toList {segments : List NodeId} (h : segments ≠ []) (rootLabel : Bool) :
    (writeSegments segments rootLabel).toList = segments.flatMap segmentText := by
  unfold writeSegments
  rw [if_neg (by simpa using h), foldl_writeSegment_toList]
  rfl

/-! ## Reading it back -/

theorem escapeCharacter_toList (c : Char) :
    (c = '%' ∧ (escapeCharacter c).toList = ['%', '2', '5']) ∨
    (c = '/' ∧ (escapeCharacter c).toList = ['%', '2', 'F']) ∨
    (c ≠ '%' ∧ c ≠ '/' ∧ (escapeCharacter c).toList = [c]) := by
  unfold escapeCharacter
  split
  · exact .inl ⟨rfl, rfl⟩
  · exact .inr (.inl ⟨rfl, rfl⟩)
  · next h h' => exact .inr (.inr ⟨h, h', by simp⟩)

/-- What follows an identifier: nothing, or the slash of the next segment. -/
def EndsSegment (s : List Char) : Prop := ∀ c ∈ s.head?, c = '/'

theorem escapeCharacter_prefixCode : PrefixCode fun c => (escapeCharacter c).toList := by
  intro a b s t _ _ h
  rcases escapeCharacter_toList a with ⟨rfl, ha⟩ | ⟨rfl, ha⟩ | ⟨ha₁, ha₂, ha⟩ <;>
    rcases escapeCharacter_toList b with ⟨rfl, hb⟩ | ⟨rfl, hb⟩ | ⟨hb₁, hb₂, hb⟩ <;>
    simp only [ha, hb, List.cons_append, List.nil_append, List.cons.injEq] at h
  · rfl
  · exact absurd h.2.2.1 (by decide)
  · exact absurd h.1.symm hb₁
  · exact absurd h.2.2.1 (by decide)
  · rfl
  · exact absurd h.1.symm hb₁
  · exact absurd h.1 ha₁
  · exact absurd h.1 ha₁
  · exact h.1

/-- No escaped character begins with a slash. -/
theorem not_endsSegment_escape (c : Char) (s : List Char) :
    ¬EndsSegment ((escapeCharacter c).toList ++ s) := by
  rcases escapeCharacter_toList c with ⟨-, h⟩ | ⟨-, h⟩ | ⟨-, hne, h⟩ <;>
    simp [EndsSegment, *]

theorem escaped_recovers (text : List Char) : Recovers EndsSegment escaped text :=
  .flatMap (fun c _ => escapeCharacter_prefixCode c) (fun _ _ => trivial) (fun _ _ => trivial)
    not_endsSegment_escape

theorem segmentText_recovers (segment : NodeId) : Recovers EndsSegment segmentText segment := by
  intro other s t hs ht h
  simp only [segmentText, List.cons_append, List.cons.injEq, true_and] at h
  exact congrArg NodeId.mk (String.toList_injective (escaped_recovers _ _ _ _ hs ht h))

theorem segmentTexts_recovers (segments : List NodeId) :
    Recovers (fun s => s = []) (List.flatMap segmentText) segments :=
  .flatMap (fun segment _ => segmentText_recovers segment)
    (fun _ _ => by simp [EndsSegment, segmentText]) (fun _ hs => by simp [EndsSegment, hs])
    fun _ _ h => by simp [segmentText] at h

theorem segmentTexts_injective : Function.Injective (List.flatMap segmentText) :=
  Recovers.injective segmentTexts_recovers rfl

theorem writeSegments_inj {segments segments' : List NodeId} {rootLabel : Bool}
    (h : segments ≠ []) (h' : segments' ≠ []) :
    writeSegments segments rootLabel = writeSegments segments' rootLabel ↔
      segments = segments' := by
  rw [← String.toList_inj, writeSegments_toList h, writeSegments_toList h',
    segmentTexts_injective.eq_iff]

/-- The label of the root is the text of no other path: it begins with no slash. -/
theorem writeSegments_ne_root {segments : List NodeId} (h : segments ≠ []) :
    writeSegments segments true ≠ "<root>" := by
  intro heq
  obtain ⟨segment, segments, rfl⟩ := List.exists_cons_of_ne_nil h
  have := congrArg String.toList heq
  rw [writeSegments_toList h, List.flatMap_cons] at this
  simp [segmentText] at this

theorem NodePath.segments_inj {p q : NodePath} : p.segments = q.segments ↔ p = q := by
  constructor
  · intro h
    obtain ⟨hpath, hleaf⟩ := List.append_inj' h rfl
    cases p
    cases q
    rw [NodePath.mk.injEq]
    exact ⟨congrArg GraphPath.mk hpath, (List.cons.inj hleaf).1⟩
  · rintro rfl
    rfl

/-- Two namespaces, or two node paths, are shown as the same text if and only if they are equal. -/
theorem rendering_injective :
    (∀ p q : GraphPath, p.display = q.display ↔ p = q) ∧
    ∀ p q : NodePath, p.display = q.display ↔ p = q := by
  constructor
  · rintro ⟨ps⟩ ⟨qs⟩
    simp only [GraphPath.display, GraphPath.mk.injEq]
    by_cases hp : ps = [] <;> by_cases hq : qs = []
    · simp [hp, hq]
    · subst hp
      exact ⟨fun h => absurd h.symm (writeSegments_ne_root hq), fun h => absurd h.symm hq⟩
    · subst hq
      exact ⟨fun h => absurd h (writeSegments_ne_root hp), fun h => absurd h hp⟩
    · exact writeSegments_inj hp hq
  · intro p q
    have hne : ∀ p : NodePath, p.segments ≠ [] := by
      intro p
      simp [NodePath.segments]
    unfold NodePath.display
    rw [writeSegments_inj (hne p) (hne q), NodePath.segments_inj]

end GroupAgent.Core
