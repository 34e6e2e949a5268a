import Recast.Layout.Basic

/-!
# Balancing braces

A program for a target with braces has as many closing braces as opening ones, not counting those
in strings and comments.  Missing ones are added at the end.  Surplus ones are taken away from the
bottom: first lines that are nothing but a brace, then braces at the ends of lines.
-/

namespace Recast.Layout

/-- How often a character stands in the code of the lines. -/
def countInLines (target : Profile) (token : Char) (lines : List Text) : Nat :=
  total (target.markers.countInCode [token]) lines

/-- Whether a line is nothing but a closing brace. -/
def isLoneBrace (line : Text) : Bool :=
  Text.trim line == ['}']

/-- Drops the first lone braces, at most `surplus` many, and says how many are still to go. -/
def dropLoneBraces : (surplus : Nat) → List Text → Nat × List Text
  | surplus, [] => (surplus, [])
  | 0, lines => (0, lines)
  | surplus + 1, line :: lines =>
    if isLoneBrace line then dropLoneBraces surplus lines
    else match dropLoneBraces (surplus + 1) lines with
      | (left, kept) => (left, line :: kept)

/-- Drops braces and blanks from the start of a text read backwards, at most `surplus` braces. -/
def dropEndBraces : (surplus : Nat) → Text → Nat × Text
  | surplus + 1, '}' :: rest => dropEndBraces surplus (rest.dropWhile isBlank)
  | surplus, rest => (surplus, rest)

/-- Takes the braces off the end of a line that ends in one. -/
def trimBraces (surplus : Nat) (line : Text) : Nat × Text :=
  if surplus = 0 || !Text.endsWith (Text.trimEnd line) ['}'] then (surplus, line)
  else match dropEndBraces surplus (Text.trimEnd line).reverse with
    | (left, rest) => (left, rest.reverse)

/-- Takes the braces off the ends of the first lines, at most `surplus` many. -/
def trimLineEnds : (surplus : Nat) → List Text → List Text
  | _, [] => []
  | surplus, line :: lines =>
    match trimBraces surplus line with
    | (left, trimmed) => trimmed :: trimLineEnds left lines

/-- Takes `surplus` closing braces away from the bottom. -/
def dropSurplus (surplus : Nat) (lines : List Text) : List Text :=
  match dropLoneBraces surplus lines.reverse with
  | (left, kept) => (trimLineEnds left kept).reverse

/-- The lines with as many closing braces as opening ones, as far as that can be had. -/
def balanceBraces (target : Profile) (lines : List Text) : List Text :=
  let opens := countInLines target '{' lines
  let closes := countInLines target '}' lines
  if closes < opens then lines ++ List.replicate (opens - closes) ['}']
  else dropSurplus (closes - opens) lines

end Recast.Layout
