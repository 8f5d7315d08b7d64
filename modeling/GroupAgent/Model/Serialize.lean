import GroupAgent.Model.Extensions

/-!
# Compact serialization

`serde_json::to_vec` and `serde_json::to_writer`: the compact form of a JSON value, as bytes, which
`admit` measures (`schema.rs:5-27` of `crates/group-agent-model/src/structured_output`) and the
identity of a contract hashes (`structured_output/mod.rs:29-46`).

* Members are written in the order of the list, without blanks.
* A text is escaped as `serde_json` does: the quote, the backslash, and the control characters,
  five of them by a letter and the rest in hexadecimal. Everything else is its UTF-8.
* The shortest decimal form of a float, of the crate `zmij`, is a parameter.

`Writing` proves that the form can be read back. A value of `serde_json` is always serializable, so
there is no error here.
-/

namespace GroupAgent.Model

/-- The bytes of a text. -/
def utf8Bytes (text : String) : List UInt8 := text.toList.flatMap String.utf8EncodeChar

/-- One lowercase hexadecimal digit. -/
def hexDigit (n : UInt8) : UInt8 := if n < 10 then 0x30 + n else 0x57 + n

/-- `format_escaped_str_contents`, byte by byte. -/
def escapeByte (b : UInt8) : List UInt8 :=
  if b = 0x22 ∨ b = 0x5C then [0x5C, b]
  else if b = 0x08 then [0x5C, 0x62]
  else if b = 0x09 then [0x5C, 0x74]
  else if b = 0x0A then [0x5C, 0x6E]
  else if b = 0x0C then [0x5C, 0x66]
  else if b = 0x0D then [0x5C, 0x72]
  else if b < 0x20 then [0x5C, 0x75, 0x30, 0x30, hexDigit (b >>> 4), hexDigit (b &&& 0xF)]
  else [b]

def quoted (text : String) : List UInt8 :=
  0x22 :: (utf8Bytes text).flatMap escapeByte ++ [0x22]

section Writer

variable (zmij : F64 → List UInt8)

def JsonNumber.toVec : JsonNumber → List UInt8
  | .posInt value => utf8Bytes (toString value.toNat)
  | .negInt value => utf8Bytes (toString value.toInt)
  | .float value => zmij value

mutual

/-- `serde_json::to_vec`. -/
def Json.toVec : Json → List UInt8
  | .null => utf8Bytes "null"
  | .bool true => utf8Bytes "true"
  | .bool false => utf8Bytes "false"
  | .number value => value.toVec zmij
  | .string value => quoted value
  | .array values => 0x5B :: Json.toVecValues values ++ [0x5D]
  | .object entries => 0x7B :: Json.toVecEntries entries ++ [0x7D]

/-- The elements of an array, with commas between them. -/
def Json.toVecValues : List Json → List UInt8
  | [] => []
  | [value] => value.toVec
  | value :: values => value.toVec ++ 0x2C :: Json.toVecValues values

/-- The entries of an object, with commas between them. -/
def Json.toVecEntries : List (String × Json) → List UInt8
  | [] => []
  | [(key, value)] => quoted key ++ 0x3A :: value.toVec
  | (key, value) :: entries => quoted key ++ 0x3A :: value.toVec ++ 0x2C :: Json.toVecEntries entries

end

end Writer

example : (Json.object [("a", .array [.null, .string "\t"])]).toVec (fun _ => []) =
    utf8Bytes "\x7b\"a\":[null,\"\\t\"]\x7d" := by decide +kernel

end GroupAgent.Model
