import Recast.Language.Profile

/-!
# Layout

Lines are recast one at a time, so the delimiters and the indentation of blocks are put right
afterwards, over the whole program.  This module holds what the passes share.
-/

namespace Recast

/-- The code of a line: without its comment, trimmed. -/
def Profile.codeOf (profile : Profile) (line : Text) : Text :=
  Text.trim (profile.markers.splitComment line).1

/-- Whether a line is a comment as a whole. -/
def Profile.isCommentLine (profile : Profile) (line : Text) : Bool :=
  profile.isComment (Text.trim line)

/-- The line that closes a block. -/
def Profile.closer (profile : Profile) : Text :=
  profile.blockClose.getD ['}']

/-- The indentation of a nesting depth. -/
def Profile.indentAt (profile : Profile) (depth : Nat) : Text :=
  (List.replicate depth profile.indentUnit).flatten

end Recast
