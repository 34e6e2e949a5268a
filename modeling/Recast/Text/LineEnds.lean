import Recast.Text.Basic

/-!
# Line ends

A line may end in a line feed, a carriage return, or both in this order.
-/

namespace Recast.Text

/-- The text with every line end written as a line feed. -/
def unifyLineEnds : Text → Text
  | [] => []
  | '\r' :: '\n' :: rest => '\n' :: unifyLineEnds rest
  | c :: rest => (if c == '\r' then '\n' else c) :: unifyLineEnds rest

/-- The pieces between line ends of any kind; the piece being read is kept in reverse. -/
def piecesFrom : Text → Text → List Text
  | piece, [] => [piece.reverse]
  | piece, '\r' :: '\n' :: rest => piece.reverse :: piecesFrom [] rest
  | piece, c :: rest =>
    if c == '\r' || c == '\n' then piece.reverse :: piecesFrom [] rest
    else piecesFrom (c :: piece) rest

/-- The lines of a text with line ends of any kind; an empty text is one empty line. -/
def splitLines (t : Text) : List Text :=
  piecesFrom [] t

end Recast.Text
