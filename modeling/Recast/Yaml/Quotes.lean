import Recast.Text.Basic

/-!
# Quoted scalars

The content of a quoted scalar and the text behind it.  Between single quotes a quote is written
twice; between double quotes a backslash starts an escape.  A scalar may run over several lines: a
line end counts as a space, and further line ends behind it count as themselves.
-/

namespace Recast

namespace Yaml

/-! ## Gaps -/

/-- What stands between two words of a scalar. -/
inductive Gap where
  | none
  /-- Spaces and tabs, the last one first. -/
  | spacing (t : Text)
  /-- A line end, and so many empty lines behind it. -/
  | lines (empty : Nat)
  /-- A line end that does not count, and so many empty lines behind it. -/
  | joined (empty : Nat)
  deriving DecidableEq, Repr

namespace Gap

/-- The gap with a space or a tab behind it; at the start of a line there may be any number. -/
def space (c : Char) : Gap → Gap
  | none => spacing [c]
  | spacing t => spacing (c :: t)
  | gap => gap

/-- The gap with a line end behind it; blanks before a line end do not count. -/
def lineEnd : Gap → Gap
  | none | spacing _ => lines 0
  | lines empty => lines (empty + 1)
  | joined empty => joined (empty + 1)

/-- What a gap counts as. -/
def text : Gap → Text
  | none => []
  | spacing t => t.reverse
  | lines 0 => [' ']
  | lines empty => List.replicate empty '\n'
  | joined empty => List.replicate empty '\n'

end Gap

/-- The content with a text before it. -/
def prepend (t : Text) (content? : Option (Text × Text)) : Option (Text × Text) :=
  content?.map fun (content, behind) ↦ (t ++ content, behind)

/-! ## Single quotes -/

/-- The content up to the closing single quote, and the text behind it. -/
def singleQuoted : Gap → Text → Option (Text × Text)
  | gap, '\x27' :: '\x27' :: rest => prepend (gap.text ++ ['\x27']) (singleQuoted .none rest)
  | gap, '\x27' :: rest => some (gap.text, rest)
  | gap, c :: rest =>
    if isSpacing c then singleQuoted (gap.space c) rest
    else if c == '\n' then singleQuoted gap.lineEnd rest
    else prepend (gap.text ++ [c]) (singleQuoted .none rest)
  | _, [] => none

/-! ## Double quotes -/

/-- The character that a one-letter escape stands for. -/
def escaped? : Char → Option Char
  | '0' => some '\x00'
  | 'a' => some '\x07'
  | 'b' => some '\x08'
  | 't' => some '\t'
  | '\t' => some '\t'
  | 'n' => some '\n'
  | 'v' => some '\x0b'
  | 'f' => some '\x0c'
  | 'r' => some '\r'
  | 'e' => some '\x1b'
  | ' ' => some ' '
  | '"' => some '"'
  | '\\' => some '\\'
  | '/' => some '/'
  | 'N' => some '\u0085'
  | '_' => some '\u00a0'
  | 'L' => some '\u2028'
  | 'P' => some '\u2029'
  | _ => none

/-- The value of a hexadecimal digit. -/
def hexDigit? (c : Char) : Option Nat :=
  if '0' ≤ c && c ≤ '9' then some (c.toNat - '0'.toNat)
  else if 'a' ≤ c && c ≤ 'f' then some (c.toNat - 'a'.toNat + 10)
  else if 'A' ≤ c && c ≤ 'F' then some (c.toNat - 'A'.toNat + 10)
  else none

/-- The character with the code that the hexadecimal digits tell.  Half a character counts as the
character for what cannot be shown. -/
def hexChar? (digits : Text) : Option Char := do
  let code ← digits.foldlM (fun n c ↦ (hexDigit? c).map (16 * n + ·)) 0
  if code.isValidChar then some (Char.ofNat code)
  else if code < 0xe000 then some '\ufffd'
  else none

/-- The content up to the closing double quote, and the text behind it. -/
def doubleQuoted : Gap → Text → Option (Text × Text)
  | gap, '"' :: rest => some (gap.text, rest)
  | gap, '\\' :: 'x' :: a :: b :: rest => do
    let c ← hexChar? [a, b]
    prepend (gap.text ++ [c]) (doubleQuoted .none rest)
  | gap, '\\' :: 'u' :: a :: b :: c :: d :: rest => do
    let c ← hexChar? [a, b, c, d]
    prepend (gap.text ++ [c]) (doubleQuoted .none rest)
  | gap, '\\' :: 'U' :: a :: b :: c :: d :: e :: f :: g :: h :: rest => do
    let c ← hexChar? [a, b, c, d, e, f, g, h]
    prepend (gap.text ++ [c]) (doubleQuoted .none rest)
  | gap, '\\' :: '\n' :: rest => prepend gap.text (doubleQuoted (.joined 0) rest)
  | gap, '\\' :: letter :: rest => do
    let c ← escaped? letter
    prepend (gap.text ++ [c]) (doubleQuoted .none rest)
  | gap, c :: rest =>
    if isSpacing c then doubleQuoted (gap.space c) rest
    else if c == '\n' then doubleQuoted gap.lineEnd rest
    else if c == '\\' then none
    else prepend (gap.text ++ [c]) (doubleQuoted .none rest)
  | _, [] => none

end Yaml

end Recast
