import Recast.Layout.Balance
import Recast.Layout.Cleanup
import Recast.Layout.Closing
import Recast.Layout.Keyword
import Recast.Layout.Level

/-!
# Finishing a program

The passes over the recast lines, in the order in which they are made.
-/

namespace Recast.Layout

/-- Lays out the lines of a recast program.  The source is needed for its comment markers;
`closeByIndent` says that blocks still end by indentation only. -/
def finishLines (target : Profile) (source? : Option Profile) (closeByIndent : Bool)
    (lines : List Text) : List Text :=
  let lines := match source? with
    | some source => recastComments source target lines
    | none => lines
  let lines :=
    if closeByIndent && target.blockStyle ≠ .indent then closeBlocks target lines else lines
  let lines := if target.usesBraces then balanceBraces target lines else lines
  let lines := if target.blockStyle = .keyword then lines.map (bracesToEnd target) else lines
  cleanup target (relevel target lines)

/-- Lays out a recast program. -/
def finish (target : Profile) (source? : Option Profile) (closeByIndent : Bool) (code : Text) :
    Text :=
  Text.unlines (finishLines target source? closeByIndent (Text.lines code))

end Recast.Layout
