import Recast.Layout.Basic

/-!
# Closing blocks by indentation

In a language that delimits by indentation a block ends where the indentation drops back.  For a
target with closers, this pass writes them there, directly after the last line of the block and
before the blank lines that follow it.
-/

namespace Recast.Layout

/-- What a line does to the blocks that are open. -/
inductive Effect where
  /-- Ends every block that is at least as deep. -/
  | ends
  /-- Ends every block that is at least as deep, and opens one. -/
  | opens
  /-- Ends every deeper block, takes over the one of its own depth, and opens one. -/
  | continues
  /-- Ends every deeper block, and is itself the closer of the one of its own depth. -/
  | closes
  deriving DecidableEq, Repr

/-- The effect of a line that is not blank. -/
def effect (target : Profile) (line : Text) : Effect :=
  if target.isCommentLine line then .ends
  else
    let code := target.codeOf line
    if target.continuesBlock code then .continues
    else if code == target.closer || target.blockStyle = .keyword && code == ['}'] then .closes
    else if target.opensBlock code then .opens
    else .ends

namespace Effect

/-- Whether a block of the line's own depth gets a closer in front of the line. -/
def endsOwnDepth : Effect → Bool
  | ends | opens => true
  | continues | closes => false

/-- Whether the line opens a block. -/
def reopens : Effect → Bool
  | opens | continues => true
  | ends | closes => false

end Effect

/-- Whether a line of the given width puts a closer for the block that was opened at `indent`. -/
def isEnded (effect : Effect) (width : Nat) (indent : Text) : Bool :=
  width < indent.length || effect.endsOwnDepth && indent.length = width

/-- Takes the block of the line's own width off the stack. -/
def dropOwn (width : Nat) : List Text → List Text
  | indent :: stack => if indent.length = width then stack else indent :: stack
  | [] => []

/-- The blocks that are open after a line: each is the indentation of the line that opened it, the
innermost first. -/
def stackAfter (effect : Effect) (indent : Text) (stack : List Text) : List Text :=
  let left := stack.dropWhile (isEnded effect indent.length)
  let left := if effect.endsOwnDepth then left else dropOwn indent.length left
  if effect.reopens then indent :: left else left

/-- Writes the closers, given the open blocks and the blank lines that are held back. -/
def closeFrom (target : Profile) : (stack blanks : List Text) → List Text → List Text
  | stack, blanks, [] => stack.map (· ++ target.closer) ++ blanks
  | stack, blanks, line :: lines =>
    if Text.isVoid line then closeFrom target stack (blanks ++ [line]) lines
    else
      let indent := Text.indentation line
      let effect := effect target line
      (stack.takeWhile (isEnded effect indent.length)).map (· ++ target.closer) ++ blanks ++ [line]
        ++ closeFrom target (stackAfter effect indent stack) [] lines

/-- The lines with a closer wherever the indentation ends a block. -/
def closeBlocks (target : Profile) (lines : List Text) : List Text :=
  closeFrom target [] [] lines

end Recast.Layout
