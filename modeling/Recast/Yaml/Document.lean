import Recast.Text.LineEnds
import Recast.Yaml.Block

/-!
# Documents

A document is one node.  It may be announced by a line of dashes, on which it may start, and it may
be ended by a line of dots.
-/

namespace Recast

namespace Yaml

/-! ## Characters and lines -/

/-- Characters that a document may hold. -/
def isAllowed (c : Char) : Bool :=
  let n := c.toNat
  n == 0x09 || n == 0x0a || n == 0x0d || n == 0x85
    || inRanges n [(0x20, 0x7e), (0xa0, 0xd7ff), (0xe000, 0xfffd), (0x10000, 0x10ffff)]

/-- A character, with every line end made a line feed. -/
def lineEnd (c : Char) : Char :=
  if c == '\u0085' || c == '\u2028' || c == '\u2029' then '\n' else c

/-- The text without a byte order mark at its start. -/
def dropMark : Text → Text
  | '\ufeff' :: t => t
  | t => t

/-- The lines of a text. -/
def linesOf (t : Text) : List Text :=
  Text.splitLines ((dropMark t).map lineEnd)

/-- Whether a text holds nothing but blanks and comments. -/
def isIdle (t : Text) : Bool :=
  (skipIdle t).isEmpty

/-- The text of a line behind three times a character, if they stand alone. -/
def behindMark? (mark : Char) : Text → Option Text
  | a :: b :: c :: rest =>
    if a == mark && b == mark && c == mark && standsAlone rest then some rest else none
  | _ => none

/-- Whether a line announces or ends a document. -/
def isMark (line : Text) : Bool :=
  (behindMark? '-' line).isSome || (behindMark? '.' line).isSome

/-! ## Documents in a stream -/

/-- The place where a document starts, whether it can be a block from there on, and the lines behind
the document.  Nothing is announced or ended twice. -/
def start? (lines : List Text) : Option (Cursor × Bool × List Text) :=
  let isBody (line : Text) : Bool := !isMark line
  let body := lines.takeWhile isBody
  if !isIdle (Text.unlines body) then
    some ({ column := 0, rest := Text.unlines body }, true, lines.dropWhile isBody)
  else match lines.dropWhile isBody with
    | [] => some ({ column := 0, rest := [] }, true, [])
    | line :: others => do
      let rest ← behindMark? '-' line
      some ({ column := 3, rest := Text.unlines (rest :: others.takeWhile isBody) }, false,
        others.dropWhile isBody)

/-- Whether nothing follows a document but its end. -/
def isTail (lines : List Text) : Bool :=
  lines.all fun line ↦ isIdle ((behindMark? '.' line).getD line)

/-- What a document stands for, or nothing if it is malformed. -/
def document? (t : Text) : Option Value := do
  if !t.all isAllowed then none
  let (start, keys, tail) ← start? (linesOf t)
  if !isTail tail then none
  let (c, onNewLine) := start.next
  if c.rest.isEmpty then return .null
  let (value, behind) ← blockNode (5 * t.length + 5) 0 (keys || onNewLine) c
  if behind.isEnd then return value else none

end Yaml

end Recast
