import Recast.Text.Quoted

/-!
# JSON strings

A text as a string of a JSON record, in printable ASCII only.
-/

namespace Recast

namespace Text

/-- A sixteen-bit unit as an escape. -/
def unitEscape (n : Nat) : Text :=
  "\\u" ++ hexDigits n 4

/-- A character inside a JSON string.  What is not printable ASCII is written in sixteen-bit
units. -/
def jsonChar (c : Char) : Text :=
  match c with
  | '"' => "\\\""
  | '\\' => "\\\\"
  | '\n' => "\\n"
  | '\r' => "\\r"
  | '\t' => "\\t"
  | '\x08' => "\\b"
  | '\x0c' => "\\f"
  | c =>
    let n := c.toNat
    if 0x20 ≤ n && n ≤ 0x7e then [c]
    else if n < 0x10000 then unitEscape n
    else unitEscape (0xd800 + (n - 0x10000) / 0x400) ++ unitEscape (0xdc00 + (n - 0x10000) % 0x400)

/-- The text as a JSON string. -/
def json (t : Text) : Text :=
  "\"" ++ t.flatMap jsonChar ++ "\""

/-- A field of a JSON record; the value is written already. -/
def jsonField (name value : Text) : Text :=
  json name ++ ": " ++ value

/-- A JSON record of the given fields. -/
def jsonRecord (fields : List Text) : Text :=
  ['{'] ++ joinWith ", " fields ++ ['}']

end Text

end Recast
