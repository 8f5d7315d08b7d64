import GroupAgent.Genai.Mapping

/-!
# SSE framing

Model of `Framer` (`sse.rs:5-13`, `new` and `push` 16-83 of
`crates/group-agent-genai/src/openai_chat`), which takes a response body byte by byte and gives the
data of each event at its blank line.

* `endLine` is the part of `push` behind the end of a line: a comment, a field, or the blank line.
* The limit is on all bytes since the last blank line, the field names and the line ends included.
  Of a carriage return and the line feed behind it only the first is counted.
* `Framer.frames`: the events of a body, in order, and how its framing ends.

Out of scope: an event that no blank line ends. It is dropped with the framer, as the standard has
it; whether the stream may end there is up to the decoder.
-/

namespace GroupAgent.Genai

open GroupAgent.Lib GroupAgent.Model

/-- Incremental, bounded SSE framing. -/
structure Framer where
  line : List UInt8
  data : String
  event : String
  firstLine : Bool
  afterCr : Bool
  size : Nat
  maximum : Nat

/-- The byte order mark, `\u{feff}`. -/
def bom : Char := Char.ofNat 0xFEFF

/-- `line.strip_prefix(c).unwrap_or(line)`. -/
def stripChar (c : Char) (line : String) : String :=
  match line.toList with
  | d :: rest => if d = c then String.ofList rest else line
  | [] => line

/-- `line.split_once(':').unwrap_or((line, ""))`. -/
def splitField (line : String) : String × String :=
  let parts := line.toList.span (· ≠ ':')
  (String.ofList parts.1, String.ofList parts.2.tail)

namespace Framer

def new (maximum : Nat) : Framer where
  line := []
  data := ""
  event := ""
  firstLine := true
  afterCr := false
  size := 0
  maximum

/-- One line that is not blank. -/
def processLine (self : Framer) (line : String) : Framer :=
  if line.toList.head? = some ':' then self
  else
    let (field, value) := splitField line
    let value := stripChar ' ' value
    if field = "data" then { self with data := self.data ++ value ++ "\n" }
    else if field = "event" then { self with event := value }
    else self

/-- The end of a line. A blank one ends the event. -/
def endLine (self : Framer) (line : String) : Except GenaiMappingError (Option String × Framer) :=
  let self := { self with firstLine := false }
  if line = "" then
    let self := { self with size := 0 }
    if self.event ≠ "" ∧ self.event ≠ "message" then .error (invalid "SSE event type")
    else
      let self := { self with event := "", line := [] }
      if self.data = "" then .ok (none, self)
      -- The final newline is added by SSE field processing.
      else .ok (some (String.ofList self.data.toList.dropLast), { self with data := "" })
  else .ok (none, { self.processLine line with line := [] })

def push (self : Framer) (byte : UInt8) : Except GenaiMappingError (Option String × Framer) :=
  if self.afterCr && byte == 10 then .ok (none, { self with afterCr := false })
  else
    let self := { self with afterCr := byte == 13 }
    if self.maximum < self.size + 1 then .error (.openAiChatByteLimit "SSE event" self.maximum)
    else
      let self := { self with size := self.size + 1 }
      if byte != 13 && byte != 10 then .ok (none, { self with line := self.line ++ [byte] })
      else
        match String.fromUTF8? ⟨self.line.toArray⟩ with
        | none => .error .openAiChatUtf8
        | some line => self.endLine (if self.firstLine then stripChar bom line else line)

/-- The events of a body, and the framer after it or what is wrong with it. -/
def frames (self : Framer) : List UInt8 → List String × Except GenaiMappingError Framer
  | [] => ([], .ok self)
  | byte :: bytes =>
    match self.push byte with
    | .error error => ([], .error error)
    | .ok (frame, self) =>
      let rest := self.frames bytes
      (frame.toList ++ rest.1, rest.2)

end Framer

end GroupAgent.Genai
