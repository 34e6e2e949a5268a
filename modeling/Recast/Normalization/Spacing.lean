import Recast.Language.Logic
import Recast.Language.Profile
import Recast.Text.LineEnds

/-!
# Spacing

The first step of normalization unifies line ends, drops trailing blanks and collapses the spacing
around commas, colons and braces.  Strings and comments stay as they are.
-/

namespace Recast

open Pattern Logic

/-- The markers of a language that may be unknown. -/
def markersOf (profile? : Option Profile) : Markers :=
  match profile? with
  | some profile => profile.markers
  | none => .unknown

namespace Normalization

/-- Spacing before a comma. -/
def spacedComma : Pattern :=
  spacing1 ++ ','

/-- A comma with too much spacing before what follows it. -/
def wideComma : Pattern :=
  ',' ++ .char isSpacing ++ spacing1 ++ ahead (.char isInk)

/-- Spacing before the colon that ends the code. -/
def spacedColon : Pattern :=
  after isInk ++ spacing1 ++ ':' ++ textEnd

/-- Too much spacing before the brace that ends the code. -/
def wideBrace : Pattern :=
  after isInk ++ .char isSpacing ++ spacing1 ++ '{' ++ textEnd

/-- Collapses the spacing of a code segment; `last` says that it ends the line. -/
def tidyCode (last : Bool) (code : Text) : Text :=
  let commas := wideComma.replace (fun _ ↦ ", ") (spacedComma.replace (fun _ ↦ ",") code)
  if last then wideBrace.replace (fun _ ↦ [' ', '{']) (spacedColon.replace (fun _ ↦ ":") commas)
  else commas

/-- Collapses the spacing of the code segments. -/
def tidySegments : List Segment → Text
  | [] => []
  | segment :: segments =>
    (if segment.kind = .code then tidyCode segments.isEmpty segment.text else segment.text)
      ++ tidySegments segments

/-- Drops the trailing blanks of a line and collapses its spacing. -/
def tidyLine (profile? : Option Profile) (line : Text) : Text :=
  tidySegments ((markersOf profile?).segments (Text.trimEnd line))

/-- The lines of a program with clean ends and spacing. -/
def tidyLines (profile? : Option Profile) (code : Text) : List Text :=
  (Text.lines (Text.unifyLineEnds code)).map (tidyLine profile?)

/-- The program with clean ends and spacing. -/
def tidy (profile? : Option Profile) (code : Text) : Text :=
  Text.unlines (tidyLines profile? code)

end Normalization

end Recast
