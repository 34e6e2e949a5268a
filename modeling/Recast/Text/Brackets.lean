import Recast.Text.Basic

/-!
# Brackets and top-level cuts

Expressions are cut without parsing them: a scan keeps the depth of the open brackets and the
quote of the string it is in, if any.  Inside a string a backslash hides the next character, and
an unclosed string runs to the end.
-/

namespace Recast.Text

/-- The quotes that open and close a string when no language says otherwise. -/
def allQuotes : Text := ['"', '\'', '`']

/-- The brackets that open a nesting. -/
def openers : Text := ['(', '[', '{']

/-- The brackets that end a nesting. -/
def closers : Text := [')', ']', '}']

/-- The offset of the bracket that brings the depth back to zero, for a scan that has reached
`depth` and stands inside a string opened by `quote?`. -/
def closeFrom : Option Char → Int → Text → Option Nat
  | _, _, [] => none
  | some quote, depth, c :: rest =>
    if c == '\\' then
      match rest with
      | [] => none
      | _ :: rest => (closeFrom (some quote) depth rest).map (· + 2)
    else (closeFrom (if c == quote then none else some quote) depth rest).map (· + 1)
  | none, depth, c :: rest =>
    if allQuotes.contains c then (closeFrom (some c) depth rest).map (· + 1)
    else if openers.contains c then (closeFrom none (depth + 1) rest).map (· + 1)
    else if closers.contains c then
      if depth = 1 then some 0 else (closeFrom none (depth - 1) rest).map (· + 1)
    else (closeFrom none depth rest).map (· + 1)

/-- For a text that starts with an opening bracket, the offset of the bracket that closes it. -/
def matchingClose? (t : Text) : Option Nat :=
  closeFrom none 0 t

/-- The untrimmed pieces between the separators at depth zero.  The piece being read is kept in
reverse. -/
def topLevelPieces (separator : Char) : Option Char → Int → Text → Text → List Text
  | _, _, piece, [] => [piece.reverse]
  | some quote, depth, piece, c :: rest =>
    if c == '\\' then
      match rest with
      | [] => [(c :: piece).reverse]
      | d :: rest => topLevelPieces separator (some quote) depth (d :: c :: piece) rest
    else topLevelPieces separator (if c == quote then none else some quote) depth (c :: piece) rest
  | none, depth, piece, c :: rest =>
    if allQuotes.contains c then topLevelPieces separator (some c) depth (c :: piece) rest
    else if openers.contains c then topLevelPieces separator none (depth + 1) (c :: piece) rest
    else if closers.contains c then topLevelPieces separator none (depth - 1) (c :: piece) rest
    else if c == separator && depth == 0 then
      piece.reverse :: topLevelPieces separator none depth [] rest
    else topLevelPieces separator none depth (c :: piece) rest

/-- The trimmed pieces between the separators that stand in no bracket and no string; none for a
blank text. -/
def splitTopLevel (separator : Char) (t : Text) : List Text :=
  match (topLevelPieces separator none 0 [] t).map trim with
  | [[]] => []
  | pieces => pieces

/-- The trimmed expression without one pair of parentheses around the whole of it. -/
def unwrapParens (t : Text) : Text :=
  let expression := trim t
  if startsWith expression ['('] && matchingClose? expression == some (expression.length - 1) then
    trim (expression.drop 1).dropLast
  else expression

/-- Whether a colon stands in no bracket and no string. -/
def hasTopLevelColon (t : Text) : Bool :=
  (splitTopLevel ':' t).length > 1

end Recast.Text
