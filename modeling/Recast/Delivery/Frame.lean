import Recast.Delivery.Event
import Recast.Text.Json

/-!
# Event frames

The wire form of an event: a line with a record in JSON, and an empty line.  The record is plain
ASCII, so a frame holds no line end but the two at its end.
-/

namespace Recast

namespace Event

/-- The record of an event. -/
def record : Event → Text
  | delta piece sofar =>
    Text.jsonRecord
      [Text.jsonField "type" (Text.json "delta"), Text.jsonField "delta" (Text.json piece),
       Text.jsonField "full_text" (Text.json sofar)]
  | done => Text.jsonRecord [Text.jsonField "type" (Text.json "done")]

/-- The frame of an event. -/
def frame (event : Event) : Text :=
  "data: " ++ event.record ++ "\n\n"

end Event

end Recast
