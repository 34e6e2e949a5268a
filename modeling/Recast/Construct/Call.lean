import Recast.Pattern.Basic
import Recast.Text.Brackets

/-!
# Calls

A call inside a line: a name, a parenthesis, and everything up to the parenthesis that matches it.
-/

namespace Recast

open Pattern

/-- A call that was found in a line. -/
structure Call where
  /-- Where the call starts. -/
  start : Nat
  /-- Where the call has ended. -/
  stop : Nat
  /-- What stands between its parentheses. -/
  args : Text
  deriving DecidableEq, Repr

namespace Call

/-- The name, not preceded by a word character or a dot, and an open parenthesis. -/
def opening (callee : Text) : Pattern :=
  notAfter (wordOr ".") ++ text callee ++ blanks ++ '('

/-- The first call of `callee` in the line, if its parenthesis is closed. -/
def find? (callee line : Text) : Option Call :=
  match (opening callee).search line with
  | none => none
  | some found =>
    let inner := found.reading.rest
    match Text.matchingClose? ('(' :: inner) with
    | none => none
    | some close =>
      some
        { start := found.offset
          stop := line.length - inner.length + close
          args := inner.take (close - 1) }

end Call

end Recast
