import Recast.Text.Brackets

/-!
# Segments of a line

A line is cut into code, string literals and at most one comment, which runs to the end.  The
markers say what starts a comment and which characters quote a string.  An unclosed string runs to
the end of the line.
-/

namespace Recast

/-- What the text of a segment is. -/
inductive SegmentKind where
  | code
  | string
  | comment
  deriving DecidableEq, Repr

/-- A stretch of a line. -/
structure Segment where
  kind : SegmentKind
  text : Text
  deriving DecidableEq, Repr

/-- How a language marks its comments and strings. -/
structure Markers where
  /-- What starts a comment, tried in order. -/
  comments : List Text
  /-- The characters that open and close strings. -/
  quotes : Text

/-- The markers for a program whose language is unknown. -/
def Markers.unknown : Markers :=
  { comments := ["#", "//"], quotes := Text.allQuotes }

/-- Whether a comment starts at the head of the text.  Only the first marker found there counts,
and an empty marker starts no comment. -/
def Markers.startsComment (marks : Markers) (t : Text) : Bool :=
  match marks.comments.find? (·.isPrefixOf t) with
  | some marker => !marker.isEmpty
  | none => false

namespace Segment

/-- A segment for text read in reverse, unless nothing has been read. -/
def flush (kind : SegmentKind) (read : Text) : List Segment :=
  if read.isEmpty then [] else [⟨kind, read.reverse⟩]

/-- The segments of the text from here on.  `quote?` is the quote of the string that the scan is
in, `read` what it has read of the current segment, in reverse. -/
def scan (marks : Markers) : (quote? : Option Char) → (read : Text) → Text → List Segment
  | none, read, [] => flush .code read
  | some _, read, [] => flush .string read
  | none, read, c :: rest =>
    if marks.startsComment (c :: rest) then flush .code read ++ [⟨.comment, c :: rest⟩]
    else if marks.quotes.contains c then flush .code read ++ scan marks (some c) [c] rest
    else scan marks none (c :: read) rest
  | some quote, read, c :: rest =>
    if c == '\\' then
      match rest with
      | [] => flush .string (c :: read)
      | d :: rest => scan marks (some quote) (d :: c :: read) rest
    else if c == quote then ⟨.string, (c :: read).reverse⟩ :: scan marks none [] rest
    else scan marks (some quote) (c :: read) rest

/-- The text that a list of segments spells. -/
def textOf (segments : List Segment) : Text :=
  segments.flatMap text

end Segment

/-- The segments of a line. -/
def Markers.segments (marks : Markers) (line : Text) : List Segment :=
  Segment.scan marks none [] line

/-- The line with `f` applied to each of its code segments. -/
def Markers.mapCode (marks : Markers) (f : Text → Text) (line : Text) : Text :=
  (marks.segments line).flatMap fun segment ↦
    if segment.kind = .code then f segment.text else segment.text

/-- The line before its comment, and the comment, which is empty when there is none. -/
def Markers.splitComment (marks : Markers) (line : Text) : Text × Text :=
  let segments := marks.segments line
  match segments.getLast? with
  | some ⟨.comment, comment⟩ => (Segment.textOf segments.dropLast, comment)
  | _ => (line, [])

/-- How often `token` occurs outside strings and comments. -/
def Markers.countInCode (marks : Markers) (token line : Text) : Nat :=
  total
    (fun segment ↦ if segment.kind = .code then Text.occurrences token segment.text else 0)
    (marks.segments line)

end Recast
