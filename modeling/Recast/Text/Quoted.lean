import Recast.Text.Printable

/-!
# Quoted texts

The form in which a message shows a text to the reader: between quotes, with everything that does
not print as itself written as an escape.
-/

namespace Recast.Text

/-- The low `digits` hexadecimal digits of a number. -/
def hexDigits (n : Nat) : (digits : Nat) → Text
  | 0 => []
  | digits + 1 => hexDigits (n / 16) digits ++ [Nat.digitChar (n % 16)]

/-- A character that does not print, by its code point in the shortest of three widths. -/
def hexEscape (c : Char) : Text :=
  let n := c.toNat
  if n < 0x100 then "\\x" ++ hexDigits n 2
  else if n < 0x10000 then "\\u" ++ hexDigits n 4
  else "\\U" ++ hexDigits n 8

/-- A character between `quote` marks. -/
def quotedChar (quote c : Char) : Text :=
  if c == quote || c == '\\' then ['\\', c]
  else match c with
    | '\n' => "\\n"
    | '\r' => "\\r"
    | '\t' => "\\t"
    | c => if isPrintable c then [c] else hexEscape c

/-- The text between single quotes, or between double quotes if it holds a single quote and no
double one. -/
def quoted (t : Text) : Text :=
  let quote := if t.contains '\'' && !t.contains '"' then '"' else '\''
  quote :: t.flatMap (quotedChar quote) ++ [quote]

end Recast.Text
