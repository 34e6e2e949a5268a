import Recast.Number.Binary
import Recast.Text.Basic

/-!
# Values

What a setting can be given, whatever format it was written in.
-/

namespace Recast

/-- A value as a data format has it. -/
inductive Value where
  | null
  | bool (b : Bool)
  | int (n : Int)
  /-- A number with a point. -/
  | real (x : Binary)
  | text (t : Text)
  /-- A day or a time of a day, as it is written. -/
  | moment (t : Text)
  | list (items : List Value)
  | table (entries : List (Value × Value))
  deriving Inhabited

end Recast
