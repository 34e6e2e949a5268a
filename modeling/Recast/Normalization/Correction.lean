import Recast.Normalization.Header
import Recast.Normalization.Spacing

/-!
# Corrections

The mistakes that normalization mends, in the order in which it mends them.  Each correction works
on the lines of a program and keeps their number.
-/

namespace Recast

open Pattern

/-- A mistake to be mended. -/
inductive Correction where
  | elseIfKeyword
  | printStatement
  | missingColon
  | missingBrace
  | quotes
  | duplicateTerminators
  | logicalOperators
  deriving DecidableEq, Repr

namespace Correction

/-- All corrections, in the order in which they are made. -/
def all : List Correction :=
  [elseIfKeyword, printStatement, missingColon, missingBrace, quotes, duplicateTerminators,
   logicalOperators]

/-- The name under which a correction is reported. -/
def name : Correction → Text
  | elseIfKeyword => "else_if_keyword"
  | printStatement => "print_statement"
  | missingColon => "missing_colon"
  | missingBrace => "missing_brace"
  | quotes => "quotes"
  | duplicateTerminators => "duplicate_terminators"
  | logicalOperators => "logical_operators"

/-- What a correction did, in words. -/
def description : Correction → Text
  | elseIfKeyword => "unified else-if keyword"
  | printStatement => "converted print statement to call"
  | missingColon => "added missing colon"
  | missingBrace => "added missing brace"
  | quotes => "unified string quotes"
  | duplicateTerminators => "collapsed duplicate terminators"
  | logicalOperators => "unified logical operators"

/-- Whether a trimmed line is a comment of a language that may be unknown. -/
def isCommentLine (source? : Option Profile) (trimmed : Text) : Bool :=
  match source? with
  | some source => source.isComment trimmed
  | none => Text.startsWithAny trimmed ["#", "//", "/*", "*"]

/-- Writes the target's keyword for a further branch. -/
def mendElseIf (target : Profile) (line : Text) : Text :=
  match Normalization.elseIfKeyword.readStart line with
  | some reading => reading.get .indent ++ target.elseIfKeyword ++ reading.rest
  | none => line

/-- Puts parentheses around what is printed. -/
def mendPrint (source : Profile) (line : Text) : Text :=
  match source.markers.splitComment line with
  | (code, comment) =>
    match Normalization.printStatement.readStart (Text.trimEnd code) with
    | some reading =>
      reading.get .indent ++ "print(" ++ reading.get .args ++ ")" ++ Text.gap code ++ comment
    | none => line

/-- Whether the code, without trailing blanks, is a header that lacks its colon. -/
def needsColon (source? : Option Profile) (code : Text) : Bool :=
  !code.isEmpty && !Text.endsWithAny code [":", ['{'], "\\", ",", "(", ";", "["]
    && (match source? with
      | none => Normalization.colonOnlyHeaders.any (·.accepts code)
      | some _ => Normalization.indentHeader.accepts code)
    && !Text.hasTopLevelColon code

/-- Adds the colon to a header that lacks it. -/
def mendColon (source? : Option Profile) (line : Text) : Text :=
  let trimmed := Text.trim line
  if trimmed.isEmpty || isCommentLine source? trimmed then line
  else match (markersOf source?).splitComment line with
    | (code, comment) =>
      if needsColon source? (Text.trimEnd code) then
        Text.trimEnd code ++ ":" ++ Text.gap code ++ comment
      else line

/-- Whether the code, without trailing blanks, is a header that a brace should follow. -/
def isBraceHeader (source? : Option Profile) (code : Text) : Bool :=
  match Normalization.parenHeader.readStart code with
  | some reading => Text.unwrapParens reading.rest != reading.rest
  | none =>
    Normalization.functionHeader.accepts code
      || (match source? with
        | none => false
        | some source =>
          Normalization.bareHeader.accepts code || Normalization.classHeader.accepts code
            || Normalization.methodHeader.accepts code
            || (source.language = .go || source.language = .rust)
              && Normalization.parenlessHeader.accepts code)

/-- The next line that is not blank, trimmed. -/
def nextCode (lines : List Text) : Text :=
  ((lines.find? (!Text.isVoid ·)).map Text.trim).getD []

/-- Adds the brace to a header that lacks it; `following` are the lines after it. -/
def mendBrace (source? : Option Profile) (line : Text) (following : List Text) : Text :=
  let trimmed := Text.trim line
  if trimmed.isEmpty || isCommentLine source? trimmed then line
  else match (markersOf source?).splitComment line with
    | (code, comment) =>
      let bare := Text.trimEnd code
      if !Text.endsWithAny bare [['{'], ";", ['}'], ","]
          && !Text.startsWith (nextCode following) ['{'] && isBraceHeader source? bare then
        bare ++ [' ', '{'] ++ Text.gap code ++ comment
      else line

/-- `mendBrace` on every line. -/
def mendBraces (source? : Option Profile) : List Text → List Text
  | [] => []
  | line :: following => mendBrace source? line following :: mendBraces source? following

/-- A string between single quotes as one between double quotes, unless it holds a double quote or
something that double quotes would interpolate. -/
def unifyQuotes (literal : Text) : Text :=
  match literal with
  | '\'' :: rest =>
    let inner := rest.dropLast
    if rest.isEmpty || rest.getLast? != some '\'' || inner.contains '"'
        || Text.mentions inner ['#', '{'] || inner.contains '$' then literal
    else '"' :: Text.substitute ['\\', '\''] ['\''] inner ++ ['"']
  | _ => literal

/-- Writes strings between double quotes. -/
def mendQuotes (source? : Option Profile) (line : Text) : Text :=
  if !line.contains '\'' || isCommentLine source? (Text.trim line) then line
  else ((markersOf source?).segments line).flatMap fun segment ↦
    if segment.kind = .string then unifyQuotes segment.text else segment.text

/-- Leaves one terminator of several in a row, except in the header of a loop. -/
def mendTerminators (source? : Option Profile) (line : Text) : Text :=
  if !Text.mentions line ";;" || Normalization.forParen.occurs line then line
  else (markersOf source?).mapCode (Normalization.terminatorRun.replace fun _ ↦ ";") line

/-- Spells the logical operators the way the language does. -/
def mendLogic (source : Profile) (line : Text) : Text :=
  if source.isComment (Text.trim line) then line
  else match source.logicStyle with
    | .word => source.markers.mapCode Logic.toWords line
    | .symbol => source.markers.mapCode Logic.toSymbols line
    | .mixed => line

/-- Makes the correction in all lines.  What is a mistake depends on the language of the program,
and for the keyword of a branch on the language it is recast into. -/
def apply (correction : Correction) (source? target? : Option Profile) (lines : List Text) :
    List Text :=
  match correction with
  | elseIfKeyword =>
    match target? with
    | some target => lines.map (mendElseIf target)
    | none => lines
  | printStatement =>
    match source? with
    | some source => if source.language = .python then lines.map (mendPrint source) else lines
    | none => lines
  | missingColon =>
    if source?.all (·.blockStyle = .indent) then lines.map (mendColon source?) else lines
  | missingBrace =>
    if source?.all (·.blockStyle = .brace) then mendBraces source? lines else lines
  | quotes => if source?.any (·.charLiterals) then lines else lines.map (mendQuotes source?)
  | duplicateTerminators => lines.map (mendTerminators source?)
  | logicalOperators =>
    match source? with
    | some source => lines.map (mendLogic source)
    | none => lines

end Correction

end Recast
