import Recast.Layout.Basic

/-!
# Comments, terminators and the top-level declaration
-/

namespace Recast.Layout

/-! ## Comment markers -/

/-- Writes the target's comment marker for one of the source's that the target does not know.  A
marker only counts as one if a blank or nothing follows it. -/
def recastMarker (source target : Profile) (line : Text) : Text :=
  let trimmed := Text.trimStart line
  match source.markers.comments.find? fun marker ↦
      !target.markers.comments.contains marker && Text.startsWith trimmed marker with
  | none => line
  | some marker =>
    let body := trimmed.drop marker.length
    if body.head?.all isBlank then Text.indentation line ++ target.lineComment ++ body else line

/-- Writes the target's comment markers. -/
def recastComments (source target : Profile) (lines : List Text) : List Text :=
  if source.language = target.language then lines else lines.map (recastMarker source target)

/-! ## Terminators -/

/-- Whether terminators are taken off. -/
def dropsTerminators : Language → Bool
  | .python | .go | .ruby => true
  | _ => false

/-- Takes the terminators off the end of a line, unless it is the header of a loop. -/
def dropTerminator (target : Profile) (line : Text) : Text :=
  match target.markers.splitComment line with
  | (code, comment) =>
    let statement := Text.trimEnd code
    if !Text.endsWith statement ";" || Text.startsWith (Text.trimStart statement) "for " then line
    else
      let bare := Text.trimEnd (Text.dropEndWhile (· == ';') statement)
      if Text.isVoid bare then
        if comment.isEmpty then [] else Text.indentation line ++ comment
      else if comment.isEmpty then bare
      else bare ++ Text.orElse (Text.gap code) " " ++ comment

/-! ## The top-level declaration -/

/-- Puts the target's top-level declaration in front of a program that lacks it. -/
def declareTopLevel (target : Profile) (lines : List Text) : List Text :=
  match target.topLevel with
  | some topLevel =>
    if lines.all Text.isVoid || topLevel.present.occurs (Text.unlines lines) then lines
    else topLevel.declaration :: [] :: lines
  | none => lines

/-- Takes off what the target does not write, and adds what it demands. -/
def cleanup (target : Profile) (lines : List Text) : List Text :=
  declareTopLevel target
    (if dropsTerminators target.language then lines.map (dropTerminator target) else lines)

end Recast.Layout
