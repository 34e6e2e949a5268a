import Recast.Construct.Basic

/-!
# Emissions

An emission is the wording of a construct in the target language, without its indentation, and the
warnings that go with it.  What has been emitted before matters in two ways, kept in the context:
which names are declared, and which name the last catch clause bound.
-/

namespace Recast

open Pattern

/-- The wording of a construct. -/
structure Emission where
  text : Text
  warnings : List Text := []
  deriving DecidableEq, Repr

/-- What the lines before have established. -/
structure Context where
  source : Profile
  target : Profile
  /-- The names that are bound already, without repetition. -/
  declared : List Text
  /-- The name that the last catch clause bound. -/
  catchVar : Text

namespace Context

/-- The context at the start of a program. -/
def start (source target : Language) : Context :=
  { source := source.profile, target := target.profile, declared := [], catchVar := "e" }

/-- Records that a name is bound. -/
def declare (context : Context) (name : Text) : Context :=
  if context.declared.contains name then context
  else { context with declared := context.declared ++ [name] }

end Context

/-- The entry of a table of wordings, which should have one for the target. -/
def wording {α : Type} (kind : Kind) (target : Profile) (entry : Option α) : Except Fault α :=
  match entry with
  | some found => .ok found
  | none => .error (.noWording kind target.language)

/-! ## Statement ends -/

/-- The code of a line that goes on with the next line. -/
def unfinishedEndings : List Text :=
  [['{'], ['}'], ";", ",", ":", "(", "[", "\\", "+", "-", "*", "/", "=", "&&", "||", ".", "?", "|",
   "&"]

/-- The starts of lines that are no statements. -/
def directiveStarts : List Text :=
  ["#", "<?php", "@", "//", "/*", "*"]

/-- The keywords that open a block by themselves. -/
def continuationWords : List Text :=
  ["else", "do", "try", "finally"]

/-- A header whose block may open on the next line. -/
def openHeader : Pattern :=
  maybe ('}' ++ blanks)
    ++ anyOf
      ["if", "else", "for", "foreach", "while", "switch", "catch", "function", "fn", "func",
       "class", "struct", "interface", "namespace", "enum", "impl", "trait"]
    ++ edge

/-- The head of a method whose block may open on the next line. -/
def methodHead : Pattern :=
  most1 (anyOf ["public", "private", "protected", "internal", "static"] ++ blanks1)
    ++ most (.char (noneOf "=")) ++ ')' ++ textEnd

/-- Whether a line of code is a statement that a terminator should end. -/
def needsTerminator (code : Text) : Bool :=
  let trimmed := Text.trim code
  if trimmed.isEmpty || Text.startsWithAny trimmed directiveStarts then false
  else if Text.endsWithAny trimmed ["++", "--"] then true
  else
    !Text.endsWithAny trimmed unfinishedEndings && !continuationWords.contains trimmed
      && !Text.endsWithAny trimmed (continuationWords.map (" " ++ ·))
      && !openHeader.accepts trimmed && !methodHead.accepts trimmed

/-- The text with the target's terminator, where it needs one. -/
def terminate (target : Profile) (text : Text) : Text :=
  match target.terminator with
  | some terminator => if needsTerminator text then text ++ terminator else text
  | none => text

/-- A line that opens a definition or a control block, or that cannot be an assignment. -/
def headerLine : Pattern :=
  blanks
    ++ anyOf
      ["def", "class", "function", "fn", "func", "if", "elif", "else", "for", "foreach", "while",
       "try", "catch", "except", "finally", "switch", "return", "import", "from", "using",
       "package", "type", "struct", "public", "private", "protected"]
    ++ edge

/-- Whether a line opens a definition or a control block. -/
def isHeaderLine (line : Text) : Bool :=
  headerLine.accepts line

/-! ## Blocks -/

namespace Profile

/-- A header with what opens its block. -/
def block (target : Profile) (header : Text) : Text :=
  match target.language with
  | .python => header ++ ":"
  | .ruby => header
  | _ => header ++ [' ', '{']

/-- Whether conditions stand in parentheses. -/
def parenthesizes (target : Profile) : Bool :=
  match target.language with
  | .python | .ruby | .go | .rust => false
  | _ => true

/-- The header of a block under a condition. -/
def conditionBlock (target : Profile) (keyword cond : Text) : Text :=
  if target.parenthesizes then target.block (keyword ++ " (" ++ cond ++ ")")
  else target.block (keyword ++ " " ++ cond)

/-- A variable with its sigil, where the language has one. -/
def variableName (target : Profile) (name : Text) : Text :=
  if target.language = .php then '$' :: name else name

end Profile

/-- What a further branch writes first: the end of the block before, if the target needs one and
the source has written one or has none. -/
def closing (context : Context) (closes : Bool) : Text :=
  if context.target.usesBraces && (closes || !context.source.usesBraces) then ['}', ' '] else []

/-- The text of an optional part, if it is not empty. -/
def filled (part : Option Text) : Option Text :=
  part.filter (!·.isEmpty)

end Recast
