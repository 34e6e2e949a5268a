import Recast.Layout.Basic

/-!
# Keywords for braces

For a target whose blocks run from a keyword to `end`, a lone closing brace becomes `end`, and the
opening brace of a header is dropped.
-/

namespace Recast.Layout

/-- Takes the braces out of a line. -/
def bracesToEnd (target : Profile) (line : Text) : Text :=
  if Text.trim line == ['}'] then Text.indentation line ++ "end"
  else match target.markers.splitComment line with
    | (code, comment) =>
      let header := Text.trimEnd code
      let bare := Text.trimEnd header.dropLast
      if Text.endsWith header ['{']
          && (target.opensBlock (Text.trim bare) || target.continuesBlock (Text.trim bare)) then
        bare ++ Text.gap code ++ comment
      else line

end Recast.Layout
