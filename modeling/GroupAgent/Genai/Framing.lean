import GroupAgent.Genai.Sse
import GroupAgent.Lib.Lines
import Mathlib.Algebra.GroupWithZero.Nat
import Mathlib.Data.List.TakeDrop

/-!
# Framing is the event-stream parse

`parse` is the event-stream parse of a whole text: strip a byte order mark, cut the text into
lines, process the fields, dispatch an event at each blank line. `Framer` (`sse.rs:5-13`, `push`
28-83) does the same byte by byte.

* `Between`: the framer between two lines, given the lines of the block so far.
* `scan_spec`: lines are dispatched as long as they are accepted.
* `events_encodeUtf8`: the events of an encoded text are those of the text.
* A line ends with a line feed, a carriage return, or both; a carriage return at the very end of
  what has arrived ends its line at once, and a line feed behind it is dropped.

Results: **`framing_exact`**: for every body, the framer gives the events of the parse at their
lines, and refuses exactly the bodies that are not `Accepted`.

`Accepted` is about the bytes of the body as a whole: its lines are UTF-8 and its events are within
the limit. The fields `id` and `retry` are read by neither side, and an `event` other than
`message` is refused.
-/

namespace GroupAgent.Genai

open GroupAgent.Lib GroupAgent.Model

/-! ## The parse of a text -/

/-- The data buffer and the event type buffer. -/
structure Buffers where
  data : List Char
  eventType : List Char
  deriving DecidableEq

def Buffers.empty : Buffers := ⟨[], []⟩

/-- Process a field. The other fields do not change what is dispatched. -/
def Buffers.field (b : Buffers) (name value : List Char) : Buffers :=
  if name = "data".toList then { b with data := b.data ++ value ++ ['\n'] }
  else if name = "event".toList then { b with eventType := value }
  else b

/-- The value without one leading space. -/
def skipSpace (value : List Char) : List Char :=
  if value.head? = some ' ' then value.tail else value

/-- Process a line that is not blank: a comment, or a field with or without a colon. -/
def Buffers.line (b : Buffers) (line : List Char) : Buffers :=
  if line.head? = some ':' then b
  else b.field (line.takeWhile (· ≠ ':')) (skipSpace (line.dropWhile (· ≠ ':')).tail)

/-- The data of the events, each with the number of the blank line that dispatches it. The data
buffer loses its last newline, and an event with an empty one is not dispatched. -/
def dispatch : Nat → Buffers → List (List Char) → List (Nat × String)
  | _, _, [] => []
  | number, b, [] :: lines =>
    (if b.data = [] then [] else [(number, String.ofList b.data.dropLast)]) ++
      dispatch (number + 1) .empty lines
  | number, b, (c :: line) :: lines => dispatch (number + 1) (b.line (c :: line)) lines

def stripBom (text : List Char) : List Char := if text.head? = some bom then text.tail else text

/-- The events of a whole text. -/
def parse (text : List Char) : List (Nat × String) :=
  dispatch 0 .empty (cutLines '\r' '\n' (stripBom text)).1

-- a comment, both line ends, a field with no colon, and an event that is not ended
example : parse (bom :: ":\ndata: a\r\ndata:b\r\rdata\n\ndata: c".toList) = [(3, "a\nb"), (5, "")] := by
  decide +kernel

/-! ## The lines of a body -/

def decodeUtf8 (bytes : List UInt8) : Option (List Char) :=
  (String.fromUTF8? ⟨bytes.toArray⟩).map String.toList

/-- An ended line of a body: its text, if it is UTF-8, and how many bytes it counts for. -/
structure Line where
  text : Option (List Char)
  size : Nat

/-- Lines and their ends, which count for one byte each. The first line of a body loses its byte
order mark. -/
def linesOf : Bool → List (List UInt8) → List Line
  | _, [] => []
  | first, line :: lines =>
    ⟨(decodeUtf8 line).map fun text => if first then stripBom text else text, line.length + 1⟩ ::
      linesOf false lines

/-- The ended lines of a body. -/
def bodyLines (bytes : List UInt8) : List Line := linesOf true (cutLines 13 10 bytes).1

/-- The text of a line. What is no UTF-8 is replaced. -/
def Line.shown (line : Line) : List Char := line.text.getD [Char.ofNat 0xFFFD]

/-- The events of a body. -/
def events (bytes : List UInt8) : List (Nat × String) :=
  dispatch 0 .empty ((bodyLines bytes).map Line.shown)

/-! ## What is accepted -/

/-- The buffers after the lines of a block. -/
def buffersOf (block : List Line) : Buffers := (block.map Line.shown).foldl Buffers.line .empty

def blockSize (block : List Line) : Nat := (block.map Line.size).sum

def Line.isBlank (line : Line) : Bool := line.text = some []

/-- The type of an event that is taken: none, or that of a message. -/
def Buffers.Dispatchable (b : Buffers) : Prop := b.eventType = [] ∨ b.eventType = "message".toList

instance (b : Buffers) : Decidable b.Dispatchable := inferInstanceAs (Decidable (_ ∨ _))

/-- A body with every ended line in UTF-8, every block of an accepted type, and no block over the
limit. -/
structure Accepted (maximum : Nat) (lines : List Line) (unended : Nat) : Prop where
  utf8 : ∀ line ∈ lines, line.text ≠ none
  types : ∀ block ∈ (cutAfter Line.isBlank lines).1, (buffersOf block).Dispatchable
  sizes : ∀ block ∈ (cutAfter Line.isBlank lines).1, blockSize block ≤ maximum
  rest : blockSize (cutAfter Line.isBlank lines).2 + unended ≤ maximum

/-! ## The framer on a body -/

/-- The events of a body, each with the number of the line whose end gives it, and what is wrong with
the body, if something is. A line feed behind a carriage return ends no line. -/
def Framer.feed (self : Framer) (number : Nat) :
    List UInt8 → List (Nat × String) × Option GenaiMappingError
  | [] => ([], none)
  | byte :: bytes =>
    match self.push byte with
    | .error error => ([], some error)
    | .ok (frame, next) =>
      let ended := byte = 13 ∨ (byte = 10 ∧ self.afterCr = false)
      let rest := next.feed (if ended then number + 1 else number) bytes
      (frame.toList.map (fun data => (number, data)) ++ rest.1, rest.2)

/-- Without the line numbers, these are the events of the framer. -/
theorem Framer.feed_frames (bytes : List UInt8) : ∀ (self : Framer) (number : Nat),
    (self.feed number bytes).1.map Prod.snd = (self.frames bytes).1 ∧
      ((self.feed number bytes).2 = none ↔ ∃ after, (self.frames bytes).2 = .ok after) := by
  induction bytes with
  | nil => exact fun self number => ⟨rfl, ⟨fun _ => ⟨self, rfl⟩, fun _ => rfl⟩⟩
  | cons byte bytes ih =>
    intro self number
    unfold Framer.feed Framer.frames
    cases hpush : self.push byte with
    | error error => exact ⟨rfl, ⟨nofun, nofun⟩⟩
    | ok r =>
      obtain ⟨hframes, hends⟩ :=
        ih r.2 (if byte = 13 ∨ (byte = 10 ∧ self.afterCr = false) then number + 1 else number)
      refine ⟨?_, hends⟩
      rw [List.map_append, hframes, List.map_map]
      exact congrArg (· ++ _) (List.map_id _)

/-! ## One line -/

theorem toList_stripChar (c : Char) (text : String) : (stripChar c text).toList =
    if text.toList.head? = some c then text.toList.tail else text.toList := by
  unfold stripChar
  cases h : text.toList with
  | nil => simp [h]
  | cons d rest => by_cases hd : d = c <;> simp [hd, h]

/-- The framer's buffers are those of the parse. -/
structure Holding (f : Framer) (b : Buffers) : Prop where
  data : f.data.toList = b.data
  event : f.event.toList = b.eventType

theorem Holding.processLine {f : Framer} {b : Buffers} (h : Holding f b) (line : String) :
    Holding (f.processLine line) (b.line line.toList) := by
  unfold Framer.processLine Buffers.line
  by_cases hcomment : line.toList.head? = some ':'
  · rw [if_pos hcomment, if_pos hcomment]
    exact h
  rw [if_neg hcomment, if_neg hcomment]
  have hvalue : (stripChar ' ' (splitField line).2).toList =
      skipSpace (line.toList.dropWhile (· ≠ ':')).tail := by
    rw [toList_stripChar, splitField, List.span_eq_takeWhile_dropWhile, String.toList_ofList]
    rfl
  have hname : ∀ name : String,
      (splitField line).1 = name ↔ line.toList.takeWhile (· ≠ ':') = name.toList := by
    intro name
    rw [← String.toList_inj, splitField, List.span_eq_takeWhile_dropWhile, String.toList_ofList]
  unfold Buffers.field
  simp only [hname]
  split
  · exact ⟨by simp only [String.toList_append, h.data, hvalue]; rfl, h.event⟩
  split
  · exact ⟨h.data, hvalue⟩
  · exact h

theorem Framer.processLine_keeps (self : Framer) (line : String) :
    (self.processLine line).maximum = self.maximum ∧
      (self.processLine line).firstLine = self.firstLine ∧
      (self.processLine line).size = self.size ∧
      (self.processLine line).afterCr = self.afterCr := by
  unfold Framer.processLine
  split
  · exact ⟨rfl, rfl, rfl, rfl⟩
  simp only
  split
  · exact ⟨rfl, rfl, rfl, rfl⟩
  split
  · exact ⟨rfl, rfl, rfl, rfl⟩
  · exact ⟨rfl, rfl, rfl, rfl⟩

/-- The framer between two lines: what it holds is what the lines of the block so far come to. -/
structure Between (f : Framer) (maximum : Nat) (first : Bool) (block : List Line) : Prop where
  line : f.line = []
  bound : f.maximum = maximum
  first : f.firstLine = first
  size : f.size = blockSize block
  size_le : blockSize block ≤ maximum
  holding : Holding f (buffersOf block)

/-- What the end of a line comes to: the data of an event, if one is dispatched, and the lines of the
block behind it. -/
def take (maximum : Nat) (block : List Line) (line : Line) : Option (Option String × List Line) :=
  match line.text with
  | none => none
  | some [] =>
    if maximum < blockSize block + line.size then none
    else if (buffersOf block).Dispatchable then
      some (if (buffersOf block).data = [] then none
        else some (String.ofList (buffersOf block).data.dropLast), [])
    else none
  | some (_ :: _) =>
    if maximum < blockSize block + line.size then none else some (none, block ++ [line])

theorem blockSize_snoc (block : List Line) (line : Line) :
    blockSize (block ++ [line]) = blockSize block + line.size := by
  simp [blockSize]

theorem buffersOf_snoc (block : List Line) (line : Line) :
    buffersOf (block ++ [line]) = (buffersOf block).line line.shown := by
  simp [buffersOf]

/-- The end of a line: the framer refuses it or stands between lines again. -/
def Ends (maximum : Nat) (afterCr : Bool) (result : Except GenaiMappingError (Option String × Framer)) :
    Option (Option String × List Line) → Prop
  | none => ∃ error, result = .error error
  | some (frame, block) => ∃ next, result = .ok (frame, next) ∧ Between next maximum false block ∧
      next.afterCr = afterCr

theorem Between.endLine {f g : Framer} {maximum : Nat} {first : Bool} {block : List Line}
    (h : Between f maximum first block) (text : String) {size : Nat} {afterCr : Bool}
    (hg : g = { f with line := g.line, size := blockSize block + size, afterCr := afterCr })
    (hle : blockSize block + size ≤ maximum) :
    Ends maximum afterCr (g.endLine text) (take maximum block ⟨some text.toList, size⟩) := by
  have hholding : Holding g (buffersOf block) := by
    rw [hg]
    exact ⟨h.holding.data, h.holding.event⟩
  have hafter : g.afterCr = afterCr := by rw [hg]
  have hmaximum : g.maximum = maximum := by
    rw [hg]
    exact h.bound
  have hsize : g.size = blockSize block + size := by rw [hg]
  unfold Framer.endLine take
  by_cases hblank : text = ""
  · subst hblank
    have htype : (g.event ≠ "" ∧ g.event ≠ "message") ↔
        ¬(buffersOf block).Dispatchable := by
      rw [Buffers.Dispatchable, ← hholding.event, not_or, String.toList_eq_nil_iff, String.toList_inj]
    simp only [if_true, String.toList_empty, if_neg (Nat.not_lt.mpr hle)]
    by_cases hbad : g.event ≠ "" ∧ g.event ≠ "message"
    · rw [if_pos hbad, if_neg (htype.mp hbad)]
      exact ⟨_, rfl⟩
    · rw [if_neg hbad, if_pos (not_not.mp (mt htype.mpr hbad))]
      have hdata : g.data = "" ↔ (buffersOf block).data = [] := by
        rw [← hholding.data, ← String.toList_inj]
        rfl
      by_cases hempty : g.data = ""
      · rw [if_pos hempty, if_pos (hdata.mp hempty)]
        refine ⟨_, rfl, ⟨rfl, hmaximum, rfl, rfl, Nat.zero_le _, ⟨?_, rfl⟩⟩, hafter⟩
        show g.data.toList = []
        rw [hempty]
        rfl
      · rw [if_neg hempty, if_neg (mt hdata.mpr hempty), hholding.data]
        exact ⟨_, rfl, ⟨rfl, hmaximum, rfl, rfl, Nat.zero_le _, ⟨rfl, rfl⟩⟩, hafter⟩
  · obtain ⟨c, rest, hcons⟩ : ∃ c rest, text.toList = c :: rest := by
      refine List.exists_cons_of_ne_nil fun hnil => hblank ?_
      exact String.toList_inj.mp hnil
    rw [if_neg hblank, hcons]
    simp only [if_neg (Nat.not_lt.mpr hle)]
    have hself : Holding { g with firstLine := false } (buffersOf block) := ⟨hholding.data, hholding.event⟩
    obtain ⟨hbound, hfirst, hcount, hcr⟩ := Framer.processLine_keeps { g with firstLine := false } text
    refine ⟨_, rfl, ⟨rfl, hbound.trans hmaximum, hfirst, ?_, ?_, ?_⟩, hcr.trans hafter⟩
    · rw [blockSize_snoc]
      exact hcount.trans hsize
    · rw [blockSize_snoc]
      exact hle
    · have hprocess := hself.processLine text
      rw [buffersOf_snoc, Line.shown, Option.getD_some, ← hcons]
      exact ⟨hprocess.data, hprocess.event⟩

/-- A line over the limit is never taken. -/
theorem take_over {maximum : Nat} {block : List Line} {line : Line}
    (h : maximum < blockSize block + line.size) : take maximum block line = none := by
  unfold take
  split
  · rfl
  · rw [if_pos h]
  · rw [if_pos h]

/-- The end of a line, pushed behind its bytes. -/
theorem Between.push {f : Framer} {maximum : Nat} {first : Bool} {block : List Line}
    (h : Between f maximum first block) (line : List UInt8) {byte : UInt8} {cr : Bool}
    (hbyte : byte = 13 ∨ byte = 10) (hcr : byte = 10 → cr = false) :
    Ends maximum (byte == 13)
      ({ f with line := line, size := blockSize block + line.length, afterCr := cr }.push byte)
      (take maximum block
        ⟨(decodeUtf8 line).map fun text => if first then stripBom text else text, line.length + 1⟩) := by
  obtain rfl := h.bound
  obtain rfl := h.first
  have hskip : (cr && byte == 10) = false := by
    rcases hbyte with rfl | rfl
    · simp
    · rw [hcr rfl]
      rfl
  have hends : (byte != 13 && byte != 10) = false := by
    rcases hbyte with rfl | rfl <;> rfl
  unfold Framer.push
  simp only [hskip, hends, Bool.false_eq_true, if_false]
  by_cases hover : f.maximum < blockSize block + line.length + 1
  · rw [take_over hover, if_pos hover]
    exact ⟨_, rfl⟩
  rw [if_neg hover]
  unfold decodeUtf8
  cases String.fromUTF8? ⟨line.toArray⟩ with
  | none => exact ⟨_, rfl⟩
  | some text =>
    have htext : (if f.firstLine = true then stripChar bom text else text).toList =
        if f.firstLine = true then stripBom text.toList else text.toList := by
      cases f.firstLine with
      | false => rfl
      | true => exact toList_stripChar bom text
    have hend := h.endLine (g := { f with
        line := line, size := blockSize block + (line.length + 1), afterCr := byte == 13 })
      (if f.firstLine = true then stripChar bom text else text) rfl (Nat.not_lt.mp hover)
    rw [htext] at hend
    exact hend

/-! ## A body -/

/-- Bytes that end no line. -/
theorem Framer.feed_plain {line : List UInt8} (hline : Plain 13 10 line) :
    ∀ (f : Framer) (number : Nat) (rest : List UInt8), f.size ≤ f.maximum →
      f.feed number (line ++ rest) =
        if f.maximum < f.size + line.length then ([], some (.openAiChatByteLimit "SSE event" f.maximum))
        else { f with
          line := f.line ++ line
          size := f.size + line.length
          afterCr := f.afterCr && line.isEmpty }.feed number rest := by
  induction line with
  | nil =>
    intro f number rest hle
    rw [if_neg (by simpa using hle)]
    simp
  | cons byte line ih =>
    intro f number rest hle
    obtain ⟨hcr, hlf⟩ := hline byte List.mem_cons_self
    have hplain : (byte == 13) = false ∧ (byte == 10) = false ∧ (byte != 13 && byte != 10) = true := by
      simp [hcr, hlf]
    rw [List.cons_append, Framer.feed]
    simp only [Framer.push, hplain, Bool.and_false, Bool.false_eq_true, if_false]
    by_cases hover : f.maximum < f.size + 1
    · have hover' : f.maximum < f.size + (byte :: line).length := by
        rw [List.length_cons]
        omega
      simp only [if_pos hover, if_pos hover']
    · simp only [if_neg hover, if_true, hcr, hlf, false_and, or_false, if_false]
      rw [ih (fun b hb => hline b (List.mem_cons_of_mem byte hb)) _ number rest (by simp only; omega)]
      simp [Nat.add_assoc, Nat.add_comm 1]

/-- What the lines of a body come to, and the lines of the block that is left open. -/
def scan (maximum : Nat) : Nat → List Line → List Line → List (Nat × String) × Option (List Line)
  | _, block, [] => ([], some block)
  | number, block, line :: lines =>
    match take maximum block line with
    | none => ([], none)
    | some (frame, block) =>
      let rest := scan maximum (number + 1) block lines
      (frame.toList.map (fun data => (number, data)) ++ rest.1, rest.2)

/-- Feeding a body is scanning its lines. -/
structure Scans (maximum : Nat) (fed : List (Nat × String) × Option GenaiMappingError)
    (scanned : List (Nat × String) × Option (List Line)) (unended : Nat) : Prop where
  events : fed.1 = scanned.1
  ends : fed.2 = none ↔ ∃ block, scanned.2 = some block ∧ blockSize block + unended ≤ maximum

theorem Scans.refused {maximum unended : Nat} (error : GenaiMappingError) :
    Scans maximum ([], some error) ([], none) unended := ⟨rfl, ⟨nofun, nofun⟩⟩

/-- A line and its end, then a body that is scanned. -/
theorem Between.feed_line {f : Framer} {maximum : Nat} {first : Bool} {block : List Line}
    (h : Between f maximum first block) {line : List UInt8} (hline : Plain 13 10 line) {byte : UInt8}
    (hbyte : byte = 13 ∨ byte = 10) (hafter : byte = 10 → line = [] → f.afterCr = false)
    {bytes : List UInt8} {lines : List Line} {unended number : Nat}
    (hrest : ∀ next block, Between next maximum false block → next.afterCr = (byte == 13) →
      Scans maximum (next.feed (number + 1) bytes) (scan maximum (number + 1) block lines) unended) :
    Scans maximum (f.feed number (line ++ byte :: bytes))
      (scan maximum number block
        (⟨(decodeUtf8 line).map fun text => if first then stripBom text else text, line.length + 1⟩ ::
          lines)) unended := by
  obtain rfl := h.bound
  rw [Framer.feed_plain hline f number _ (by rw [h.size]; exact h.size_le), h.size, scan]
  by_cases hover : f.maximum < blockSize block + line.length
  · rw [if_pos hover, take_over (by simp only; omega)]
    exact .refused _
  rw [if_neg hover]
  set g : Framer := { f with
    line := f.line ++ line
    size := blockSize block + line.length
    afterCr := f.afterCr && line.isEmpty } with hg
  have hcr : byte = 10 → g.afterCr = false := by
    intro hb
    show (f.afterCr && line.isEmpty) = false
    cases line with
    | nil => simp [hafter hb rfl]
    | cons => simp
  have hends := h.push line hbyte hcr
  rw [show ({ f with
    line := line
    size := blockSize block + line.length
    afterCr := g.afterCr } : Framer) = g by rw [hg, h.line, List.nil_append]] at hends
  rw [Framer.feed]
  have hended : byte = 13 ∨ (byte = 10 ∧ g.afterCr = false) := hbyte.imp_right fun hb => ⟨hb, hcr hb⟩
  cases htake : take f.maximum block
      ⟨(decodeUtf8 line).map fun text => if first then stripBom text else text, line.length + 1⟩ with
  | none =>
    rw [htake] at hends
    obtain ⟨error, herror⟩ := hends
    rw [herror]
    exact .refused error
  | some r =>
    obtain ⟨frame, block'⟩ := r
    rw [htake] at hends
    obtain ⟨next, hnext, hbetween, hcr'⟩ := hends
    rw [hnext]
    simp only [if_pos hended]
    obtain ⟨hevents, hend⟩ := hrest next block' hbetween hcr'
    exact ⟨by rw [hevents], hend⟩

theorem linesOf_cons (first : Bool) (line : List UInt8) (lines : List (List UInt8)) :
    linesOf first (line :: lines) =
      ⟨(decodeUtf8 line).map fun text => if first then stripBom text else text, line.length + 1⟩ ::
        linesOf false lines := rfl

/-- **The framer scans the lines of a body.** -/
theorem Between.feed_body (bytes : List UInt8) : ∀ {f : Framer} {maximum : Nat} {first : Bool}
    {block : List Line}, Between f maximum first block → (f.afterCr = true → bytes.head? ≠ some 10) →
    ∀ number, Scans maximum (f.feed number bytes)
      (scan maximum number block (linesOf first (cutLines 13 10 bytes).1))
      (cutLines 13 10 bytes).2.length := by
  induction bytes using line_induction (13 : UInt8) 10 with
  | unended line hline =>
    intro f maximum first block h _ number
    have hfeed := Framer.feed_plain hline f number [] (by rw [h.size, h.bound]; exact h.size_le)
    rw [List.append_nil, h.bound, h.size] at hfeed
    rw [hfeed, cutLines_plain hline, linesOf, scan]
    by_cases hover : maximum < blockSize block + line.length
    · rw [if_pos hover]
      refine ⟨rfl, ⟨nofun, ?_⟩⟩
      rintro ⟨_, ⟨rfl⟩, hle⟩
      exact absurd hle (Nat.not_le.mpr hover)
    · rw [if_neg hover]
      exact ⟨rfl, ⟨fun _ => ⟨block, rfl, Nat.not_lt.mp hover⟩, fun _ => rfl⟩⟩
  | ended line bytes hline ih =>
    intro f maximum first block h hhead number
    rw [cutLines_lf (by decide) hline, linesOf_cons]
    refine h.feed_line hline (.inr rfl) ?_ fun next block hnext hcr => ih hnext ?_ (number + 1)
    · rintro - rfl
      cases hcr : f.afterCr with
      | false => rfl
      | true => exact absurd rfl (hhead hcr)
    · rw [hcr]
      nofun
  | both line bytes hline ih =>
    intro f maximum first block h _ number
    rw [cutLines_crlf hline, linesOf_cons]
    refine h.feed_line hline (.inl rfl) nofun fun next block hnext hcr => ?_
    have hskip : next.feed (number + 1) (10 :: bytes) =
        { next with afterCr := false }.feed (number + 1) bytes := by
      rw [Framer.feed, Framer.push, hcr]
      simp
    rw [hskip]
    have hbetween : Between { next with afterCr := false } maximum false block :=
      ⟨hnext.line, hnext.bound, hnext.first, hnext.size, hnext.size_le,
        ⟨hnext.holding.data, hnext.holding.event⟩⟩
    exact ih hbetween (fun h => nomatch h) (number + 1)
  | returned line bytes hline hhead ih =>
    intro f maximum first block h _ number
    rw [cutLines_cr hline hhead, linesOf_cons]
    exact h.feed_line hline (.inl rfl) nofun fun next block hnext _ =>
      ih hnext (fun _ => hhead) (number + 1)

/-! ## Scanning and the parse -/

theorem Line.shown_of_some {line : Line} {text : List Char} (h : line.text = some text) :
    line.shown = text := by
  rw [Line.shown, h, Option.getD_some]

theorem Buffers.line_nil (b : Buffers) : b.line [] = b := by
  simp [Buffers.line, Buffers.field]

theorem take_some {maximum : Nat} {block block' : List Line} {line : Line} {frame : Option String}
    (h : take maximum block line = some (frame, block')) :
    line.text ≠ none ∧ blockSize block + line.size ≤ maximum ∧
      ((line.text = some [] ∧ (buffersOf block).Dispatchable ∧ block' = [] ∧
          frame = if (buffersOf block).data = [] then none
            else some (String.ofList (buffersOf block).data.dropLast)) ∨
        ((∃ c text, line.text = some (c :: text)) ∧ block' = block ++ [line] ∧ frame = none)) := by
  unfold take at h
  cases htext : line.text with
  | none =>
    rw [htext] at h
    cases h
  | some text =>
    rw [htext] at h
    cases text with
    | nil =>
      simp only at h
      by_cases hover : maximum < blockSize block + line.size
      · rw [if_pos hover] at h
        cases h
      rw [if_neg hover] at h
      by_cases htype : (buffersOf block).Dispatchable
      · rw [if_pos htype] at h
        cases h
        exact ⟨nofun, Nat.not_lt.mp hover, .inl ⟨rfl, htype, rfl, rfl⟩⟩
      · rw [if_neg htype] at h
        cases h
    | cons c text =>
      simp only at h
      by_cases hover : maximum < blockSize block + line.size
      · rw [if_pos hover] at h
        cases h
      · rw [if_neg hover] at h
        cases h
        exact ⟨nofun, Nat.not_lt.mp hover, .inr ⟨⟨c, text, rfl⟩, rfl, rfl⟩⟩

theorem blockSize_append (block more : List Line) :
    blockSize (block ++ more) = blockSize block + blockSize more := by
  simp [blockSize]

/-- A block whose end is not dispatched, or that is over the limit, is not accepted. -/
theorem Accepted.take {maximum unended : Nat} {block lines : List Line} {line : Line}
    (hopen : ∀ l ∈ block, l.isBlank = false)
    (h : Accepted maximum (block ++ line :: lines) unended) : take maximum block line ≠ none := by
  have htext := h.utf8 line (List.mem_append_right _ List.mem_cons_self)
  by_cases hblank : line.isBlank = true
  · have hnil : line.text = some [] := of_decide_eq_true hblank
    have hcut := cutAfter_ended hopen hblank lines
    have hsize := h.sizes (block ++ [line]) (by rw [hcut]; exact List.mem_cons_self)
    have htype := h.types (block ++ [line]) (by rw [hcut]; exact List.mem_cons_self)
    rw [blockSize_snoc] at hsize
    rw [buffersOf_snoc, Line.shown_of_some hnil, Buffers.line_nil] at htype
    unfold GroupAgent.Genai.take
    rw [hnil]
    simp only [if_neg (Nat.not_lt.mpr hsize)]
    rw [if_pos htype]
    nofun
  · have hopen' : ∀ l ∈ block ++ [line], l.isBlank = false := by
      intro l hl
      rcases List.mem_append.mp hl with hl | hl
      · exact hopen l hl
      · rw [List.mem_singleton.mp hl]
        exact eq_false_of_ne_true hblank
    obtain ⟨more, hmore⟩ := cutAfter_begins hopen' lines
    rw [List.append_assoc, List.singleton_append] at hmore
    have hsize : blockSize block + line.size ≤ maximum := by
      rcases hmore with hmem | hrest
      · have := h.sizes _ hmem
        rw [blockSize_append, blockSize_snoc] at this
        omega
      · have := h.rest
        rw [← hrest, blockSize_append, blockSize_snoc] at this
        omega
    unfold GroupAgent.Genai.take
    cases hline : line.text with
    | none => exact absurd hline htext
    | some text =>
      cases text with
      | nil => exact absurd (decide_eq_true hline) hblank
      | cons c text =>
        simp only [if_neg (Nat.not_lt.mpr hsize)]
        nofun

/-- The end of a block that is dispatched leaves the rest to be accepted. -/
theorem accepted_ended {maximum unended : Nat} {block lines : List Line} {line : Line}
    (hopen : ∀ l ∈ block, l.isBlank = false) (hutf8 : ∀ l ∈ block, l.text ≠ none)
    (hblank : line.text = some []) (htype : (buffersOf block).Dispatchable)
    (hsize : blockSize block + line.size ≤ maximum) :
    Accepted maximum (block ++ line :: lines) unended ↔ Accepted maximum lines unended := by
  have hcut := cutAfter_ended hopen (decide_eq_true hblank) lines
  have htype' : (buffersOf (block ++ [line])).Dispatchable := by
    rw [buffersOf_snoc, Line.shown_of_some hblank, Buffers.line_nil]
    exact htype
  constructor
  · rintro ⟨hall, htypes, hsizes, hrest⟩
    rw [hcut] at htypes hsizes hrest
    exact ⟨fun l hl => hall l (List.mem_append_right _ (List.mem_cons_of_mem _ hl)),
      (List.forall_mem_cons.mp htypes).2, (List.forall_mem_cons.mp hsizes).2, hrest⟩
  · rintro ⟨hall, htypes, hsizes, hrest⟩
    refine ⟨fun l hl => ?_, ?_, ?_, ?_⟩
    · rcases List.mem_append.mp hl with hl | hl
      · exact hutf8 l hl
      · rcases List.mem_cons.mp hl with rfl | hl
        · rw [hblank]
          nofun
        · exact hall l hl
    · rw [hcut]
      exact List.forall_mem_cons.mpr ⟨htype', htypes⟩
    · rw [hcut]
      exact List.forall_mem_cons.mpr ⟨by rw [blockSize_snoc]; exact hsize, hsizes⟩
    · rw [hcut]
      exact hrest

theorem dispatch_blank (number : Nat) (b : Buffers) (lines : List (List Char)) :
    dispatch number b ([] :: lines) =
      ((if b.data = [] then none else some (String.ofList b.data.dropLast)).toList.map
        fun data => (number, data)) ++ dispatch (number + 1) .empty lines := by
  rw [dispatch]
  by_cases h : b.data = [] <;> simp [h]

/-- **Scanning lines is dispatching them, as long as they are accepted.** -/
theorem scan_spec {maximum : Nat} (lines : List Line) : ∀ (number : Nat) (block : List Line),
    (∀ l ∈ block, l.isBlank = false) → (∀ l ∈ block, l.text ≠ none) → blockSize block ≤ maximum →
    (scan maximum number block lines).1 <+:
      dispatch number (buffersOf block) (lines.map Line.shown) ∧
    (∀ rest, (scan maximum number block lines).2 = some rest →
      (scan maximum number block lines).1 =
        dispatch number (buffersOf block) (lines.map Line.shown)) ∧
    ∀ unended, (∃ rest, (scan maximum number block lines).2 = some rest ∧
        blockSize rest + unended ≤ maximum) ↔ Accepted maximum (block ++ lines) unended := by
  induction lines with
  | nil =>
    intro number block hopen hutf8 hsize
    refine ⟨List.nil_prefix, fun _ _ => rfl, fun unended => ?_⟩
    have hcut := cutAfter_open hopen
    rw [List.append_nil, scan]
    constructor
    · rintro ⟨rest, hrest, hle⟩
      cases hrest
      exact ⟨hutf8, by rw [hcut]; nofun, by rw [hcut]; nofun, by rw [hcut]; exact hle⟩
    · intro h
      have hle := h.rest
      rw [hcut] at hle
      exact ⟨block, rfl, hle⟩
  | cons line lines ih =>
    intro number block hopen hutf8 hsize
    rw [scan]
    cases htake : take maximum block line with
    | none =>
      refine ⟨List.nil_prefix, nofun, fun unended => ⟨?_, fun h => absurd htake (h.take hopen)⟩⟩
      rintro ⟨rest, ⟨⟩, _⟩
    | some r =>
      obtain ⟨frame, block'⟩ := r
      obtain ⟨htext, hle, ⟨hblank, htype, rfl, rfl⟩ | ⟨⟨c, text, hline⟩, rfl, rfl⟩⟩ := take_some htake
      · obtain ⟨hbegins, hevents, haccepted⟩ := ih (number + 1) [] nofun nofun (Nat.zero_le _)
        simp only [List.map_cons, Line.shown_of_some hblank, dispatch_blank]
        refine ⟨(List.prefix_append_right_inj _).mpr hbegins, fun rest hrest => ?_, fun unended => ?_⟩
        · exact congrArg _ (hevents rest hrest)
        · rw [accepted_ended hopen hutf8 hblank htype hle]
          exact haccepted unended
      · have hopen' : ∀ l ∈ block ++ [line], l.isBlank = false := by
          simpa [or_imp, forall_and, Line.isBlank, hline] using hopen
        have hutf8' : ∀ l ∈ block ++ [line], l.text ≠ none := by
          simpa [or_imp, forall_and, hline] using hutf8
        have hspec := ih (number + 1) (block ++ [line]) hopen' hutf8' (by rw [blockSize_snoc]; exact hle)
        rw [buffersOf_snoc, Line.shown_of_some hline, List.append_assoc, List.singleton_append]
          at hspec
        simp only [List.map_cons, Line.shown_of_some hline, dispatch]
        exact hspec

/-! ## Encoded text -/

def encodeUtf8 (text : List Char) : List UInt8 := text.flatMap String.utf8EncodeChar

theorem decodeUtf8_encodeUtf8 (text : List Char) : decodeUtf8 (encodeUtf8 text) = some text := by
  have hbytes : (⟨(encodeUtf8 text).toArray⟩ : ByteArray) = text.utf8Encode := by
    rw [List.utf8Encode, ← List.data_toByteArray]
    rfl
  have hvalid : (text.utf8Encode).IsValidUTF8 := ⟨text, rfl⟩
  rw [decodeUtf8, hbytes, String.fromUTF8?, dif_pos hvalid, Option.map_some]
  exact congrArg some (String.toList_ofList (l := text))

/-- A character that ends no line is encoded without a line end. -/
theorem plain_utf8EncodeChar (c : Char) (hcr : c ≠ '\r') (hlf : c ≠ '\n') :
    Plain 13 10 (String.utf8EncodeChar c) := by
  have hne : c.val.toNat ≠ 13 ∧ c.val.toNat ≠ 10 := by
    constructor
    · intro h
      exact hcr (Char.ext (UInt32.toNat_inj.mp h))
    · intro h
      exact hlf (Char.ext (UInt32.toNat_inj.mp h))
  intro byte hbyte
  have hnat : byte.toNat ≠ 13 ∧ byte.toNat ≠ 10 := by
    unfold String.utf8EncodeChar at hbyte
    simp only at hbyte
    split at hbyte
    · rw [List.mem_singleton.mp hbyte, UInt8.toNat_ofNat']
      omega
    -- the bytes of a longer encoding have their high bit set
    have hhigh : 128 ≤ byte.toNat := by
      split at hbyte
      · simp only [List.mem_cons, List.not_mem_nil, or_false] at hbyte
        rcases hbyte with rfl | rfl <;> rw [UInt8.toNat_ofNat'] <;> omega
      split at hbyte
      · simp only [List.mem_cons, List.not_mem_nil, or_false] at hbyte
        rcases hbyte with rfl | rfl | rfl <;> rw [UInt8.toNat_ofNat'] <;> omega
      · simp only [List.mem_cons, List.not_mem_nil, or_false] at hbyte
        rcases hbyte with rfl | rfl | rfl | rfl <;> rw [UInt8.toNat_ofNat'] <;> omega
    omega
  exact ⟨fun h => hnat.1 (by rw [h]; rfl), fun h => hnat.2 (by rw [h]; rfl)⟩

theorem cutLines_encodeUtf8 (text : List Char) : cutLines 13 10 (encodeUtf8 text) =
    ((cutLines '\r' '\n' text).1.map encodeUtf8, encodeUtf8 (cutLines '\r' '\n' text).2) :=
  cutLines_flatMap (by decide) (by decide) (by decide) (by decide) plain_utf8EncodeChar
    (fun _ => String.utf8EncodeChar_ne_nil) text

theorem shown_linesOf (lines : List (List Char)) :
    (linesOf false (lines.map encodeUtf8)).map Line.shown = lines := by
  induction lines with
  | nil => rfl
  | cons line lines ih =>
    rw [List.map_cons, linesOf_cons, List.map_cons, ih, decodeUtf8_encodeUtf8]
    rfl

/-- A byte order mark stands in the first line. -/
theorem cutLines_stripBom (text : List Char) : (cutLines '\r' '\n' (stripBom text)).1 =
    match (cutLines '\r' '\n' text).1 with
    | [] => []
    | line :: lines => stripBom line :: lines := by
  have hbom : bom ≠ '\r' ∧ bom ≠ '\n' := by decide
  rcases text with _ | ⟨a, text⟩
  · rfl
  by_cases hends : a = '\r' ∨ a = '\n'
  · -- the first line is empty
    have hne : a ≠ bom := by
      rintro rfl
      exact hends.elim hbom.1 hbom.2
    have hstrip : stripBom (a :: text) = a :: text := by simp [stripBom, hne]
    obtain ⟨lines, hcut⟩ := cutLines_ends hends text
    rw [hstrip, hcut]
    rfl
  · rw [cutLines_cons (not_or.mp hends)]
    by_cases hne : a = bom
    · subst hne
      have hstrip : stripBom (bom :: text) = text := by simp [stripBom]
      rw [hstrip]
      rcases cutLines '\r' '\n' text with ⟨_ | ⟨line, lines⟩, rest⟩
      · rfl
      · simp [consPiece, stripBom]
    · have hstrip : stripBom (a :: text) = a :: text := by simp [stripBom, hne]
      rw [hstrip, cutLines_cons (not_or.mp hends)]
      rcases cutLines '\r' '\n' text with ⟨_ | ⟨line, lines⟩, rest⟩
      · rfl
      · simp [consPiece, stripBom, hne]

/-- **The events of an encoded text are those of the text.** -/
theorem events_encodeUtf8 (text : List Char) : events (encodeUtf8 text) = parse text := by
  have hlines : (bodyLines (encodeUtf8 text)).map Line.shown =
      (cutLines '\r' '\n' (stripBom text)).1 := by
    rw [bodyLines, cutLines_encodeUtf8, cutLines_stripBom]
    cases (cutLines '\r' '\n' text).1 with
    | nil => rfl
    | cons line lines =>
      rw [List.map_cons, linesOf_cons, List.map_cons, shown_linesOf, decodeUtf8_encodeUtf8]
      rfl
  rw [events, hlines, parse]

/-! ## Exactness -/

theorem between_new (maximum : Nat) : Between (Framer.new maximum) maximum true [] :=
  ⟨rfl, rfl, rfl, rfl, Nat.zero_le _, ⟨rfl, rfl⟩⟩

/-- **Framing is the event-stream parse.** Of every body the framer gives, line by line, the events of
the parse, all of them when it refuses nothing and the first of them otherwise; it refuses a body
exactly when an ended line is no UTF-8, a block has another type, or a block is over the limit; and
the events of a body that is an encoded text are those of the whole text. -/
theorem framing_exact (maximum : Nat) (bytes : List UInt8) :
    (((Framer.new maximum).feed 0 bytes).2 = none ↔
      Accepted maximum (bodyLines bytes) (cutLines 13 10 bytes).2.length) ∧
    (((Framer.new maximum).feed 0 bytes).2 = none →
      ((Framer.new maximum).feed 0 bytes).1 = events bytes) ∧
    ((Framer.new maximum).feed 0 bytes).1 <+: events bytes ∧
    ∀ text, bytes = encodeUtf8 text → events bytes = parse text := by
  obtain ⟨hfed, hends⟩ := (between_new maximum).feed_body bytes nofun 0
  have hscan := @scan_spec maximum (bodyLines bytes) 0 [] nofun nofun (Nat.zero_le _)
  obtain ⟨hbegins, hall, haccepted⟩ := hscan
  refine ⟨hends.trans (haccepted _), fun hnone => ?_, ?_, ?_⟩
  · obtain ⟨rest, hrest, -⟩ := hends.mp hnone
    rw [hfed]
    exact hall rest hrest
  · rw [hfed]
    exact hbegins
  · rintro text rfl
    exact events_encodeUtf8 text

end GroupAgent.Genai
