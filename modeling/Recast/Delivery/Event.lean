import Recast.Text.Basic

/-!
# Delivery in pieces

A text is delivered as a series of events: its pieces, each with all that has been delivered so
far, and a last event that says that the text is complete.
-/

namespace Recast

/-- A step of the delivery of a text. -/
inductive Event where
  /-- The next piece, and everything up to its end. -/
  | delta (piece sofar : Text)
  | done
  deriving DecidableEq, Repr

/-- Why a text cannot be delivered. -/
inductive DeliveryError where
  | chunkSize (size : Int)
  deriving DecidableEq, Repr

/-- The wording of the failure. -/
def DeliveryError.message : DeliveryError → Text
  | chunkSize size => "chunk_size must be positive, got " ++ Text.ofInt size

namespace Event

/-- Pieces of `size + 1` characters; the last one may be shorter. -/
def pieces (size : Nat) : Text → List Text
  | [] => []
  | c :: rest => (c :: rest.take size) :: pieces size (rest.drop size)
termination_by t => t.length
decreasing_by simp only [List.length_drop, List.length_cons]; omega

/-- The events of the pieces, after `sofar` has been delivered. -/
def ofPieces (sofar : Text) : List Text → List Event
  | [] => [done]
  | piece :: pieces => delta piece (sofar ++ piece) :: ofPieces (sofar ++ piece) pieces

/-- The events that deliver a text in pieces of a given size. -/
def ofText (chunkSize : Int) (t : Text) : Except DeliveryError (List Event) :=
  if chunkSize < 1 then .error (.chunkSize chunkSize)
  else .ok (ofPieces [] (pieces (chunkSize.toNat - 1) t))

/-- The piece that an event brings. -/
def piece : Event → Text
  | delta piece _ => piece
  | done => []

/-- The text that a series of events delivers. -/
def reassemble (events : List Event) : Text :=
  events.flatMap piece

end Event

end Recast
