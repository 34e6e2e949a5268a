import Recast.Layout.Basic

/-!
# Indentation levels

The indentation of the finished program follows from its block structure.  For a target with
closers it is the number of blocks that are open.  For a target that delimits by indentation the
closers are dropped, and a block without a body gets the statement that does nothing.
-/

namespace Recast.Layout

/-! ## Targets with closers -/

/-- Whether a line steps out of a block before it is written. -/
def stepsOut (target : Profile) (code : Text) : Bool :=
  target.continuesBlock code || target.closesBlock code
    || target.usesBraces && Text.startsWith code ['}']

/-- Whether a line steps into a block after it is written. -/
def stepsIn (target : Profile) (code : Text) : Bool :=
  target.continuesBlock code || target.opensBlock code

/-- Indents the lines, given the number of open blocks. -/
def levelFrom (target : Profile) : (depth : Nat) → List Text → List Text
  | _, [] => []
  | depth, line :: lines =>
    let trimmed := Text.trim line
    if trimmed.isEmpty then [] :: levelFrom target depth lines
    else if target.isComment trimmed then
      (target.indentAt depth ++ trimmed) :: levelFrom target depth lines
    else
      let code := target.codeOf line
      let depth := if stepsOut target code then depth - 1 else depth
      (target.indentAt depth ++ trimmed)
        :: levelFrom target (if stepsIn target code then depth + 1 else depth) lines

/-! ## Targets that delimit by indentation -/

/-- Something that is open. -/
inductive Frame where
  /-- A block, with the width of the line that opened it in the input and whether it has a body. -/
  | block (width : Nat) (hasBody : Bool)
  /-- A literal between braces. -/
  | literal
  deriving DecidableEq, Repr

/-- Records that the innermost block has a body. -/
def markBody : List Frame → List Frame
  | .block width _ :: stack => .block width true :: stack
  | stack => stack

/-- What is written when a frame is closed with `depth` frames around it. -/
def frameEnd (target : Profile) (depth : Nat) : Frame → List Text
  | .block _ false => [target.indentAt (depth + 1) ++ "pass"]
  | _ => []

/-- What is written when all frames are closed. -/
def closeFrames (target : Profile) : List Frame → List Text
  | [] => []
  | frame :: stack => frameEnd target stack.length frame ++ closeFrames target stack

/-- A line whose leading closers have been taken off. -/
structure Unclosed where
  /-- What was written while blocks were closed. -/
  written : List Text
  /-- The frames that are still open. -/
  stack : List Frame
  /-- What is left of the line. -/
  rest : Text

/-- Closes a block for each brace at the start of a trimmed line. -/
def leadingClosers (target : Profile) : List Frame → Text → Unclosed
  | .block width hasBody :: stack, '}' :: rest =>
    let unclosed := leadingClosers target stack (Text.trimStart rest)
    { unclosed with
      written := frameEnd target stack.length (.block width hasBody) ++ unclosed.written }
  | stack, rest => { written := [], stack := stack, rest := rest }

/-- Closes the innermost block before a further branch. -/
def closeBranch (target : Profile) : List Frame → List Text × List Frame
  | .block width hasBody :: stack => (frameEnd target stack.length (.block width hasBody), stack)
  | stack => ([], stack)

/-- Whether a line of the given width is outside a block, which it can be once the block has a
body. -/
def isOutside (width : Nat) : Frame → Bool
  | .block opened true => width ≤ opened
  | _ => false

/-- The frame that a line opens. -/
def openFrame (target : Profile) (width : Nat) (code : Text) (stack : List Frame) : List Frame :=
  if target.opensBlock code then .block width false :: stack
  else if Text.endsWith code ['{'] then .literal :: stack
  else stack

/-- Writes a line from which the leading closers have been taken off, and gives the frames that
are open after it. -/
def placeLine (target : Profile) (width : Nat) (stack : List Frame) (rest : Text) :
    List Text × List Frame :=
  let code := target.codeOf rest
  let (written, stack) :=
    if target.continuesBlock code then closeBranch target stack
    else if Text.startsWith rest ['}'] then ([], stack)
    else ([], stack.dropWhile (isOutside width))
  match Text.startsWith rest ['}'], stack with
  | true, .literal :: stack =>
    (written ++ [target.indentAt stack.length ++ rest], markBody stack)
  | _, stack =>
    (written ++ [target.indentAt stack.length ++ rest],
      openFrame target width code (markBody stack))

/-- Indents the lines, given the frames that are open. -/
def indentFrom (target : Profile) : List Frame → List Text → List Text
  | stack, [] => closeFrames target stack
  | stack, line :: lines =>
    let trimmed := Text.trim line
    if trimmed.isEmpty then [] :: indentFrom target stack lines
    else if target.isComment trimmed then
      (target.indentAt stack.length ++ trimmed) :: indentFrom target stack lines
    else
      let unclosed := leadingClosers target stack trimmed
      if unclosed.rest.isEmpty || unclosed.rest == ";" || unclosed.rest == ['{'] then
        unclosed.written ++ indentFrom target unclosed.stack lines
      else
        let (written, stack) := placeLine target (Text.width line) unclosed.stack unclosed.rest
        unclosed.written ++ written ++ indentFrom target stack lines

/-- Indents the lines by the block structure of the target. -/
def relevel (target : Profile) (lines : List Text) : List Text :=
  if target.blockStyle = .indent then indentFrom target [] lines else levelFrom target 0 lines

end Recast.Layout
