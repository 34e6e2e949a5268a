import Recast.Text.Word

/-!
# Patterns

A pattern describes a stretch of text and names the parts of it that are of interest.  Choices are
ordered: of two alternatives the first is tried before the second, and a repetition tries either
the most rounds or the fewest rounds first.  `Pattern.run` reads a text accordingly and gives up a
choice only when what follows fails, so the outcome is the first one in this order.
-/

namespace Recast

/-- The named parts of a pattern. -/
inductive Slot where
  | indent | closes | name | params | base | cond | paren | negate
  | var | rangeArgs | start | stop | step | inclusive | iterable
  | initial | test | update | comparison | preVar
  | excType | excVar | error | value | message | lateMessage
  | args | module | localName | names | keyword
  deriving DecidableEq, Repr

/-- A description of a stretch of text. -/
inductive Pattern where
  /-- The empty text. -/
  | done
  /-- One character of a class. -/
  | char (accepts : Char → Bool)
  /-- The empty text, where the character before and the text after satisfy a condition. -/
  | look (holds : Option Char → Text → Bool)
  /-- One pattern after another. -/
  | seq (first second : Pattern)
  /-- The first alternative, or else the second. -/
  | either (first second : Pattern)
  /-- Any number of rounds, the most first. -/
  | most (round : Pattern)
  /-- Any number of rounds, the fewest first. -/
  | fewest (round : Pattern)
  /-- A part that is kept under a name. -/
  | keep (slot : Slot) (body : Pattern)

/-- A part that was kept: the text from where it starts, and the text from where it ends. -/
structure Capture where
  slot : Slot
  start : Text
  stop : Text

/-- The text of the part. -/
def Capture.text (capture : Capture) : Text :=
  capture.start.take (capture.start.length - capture.stop.length)

/-- How far a pattern has read: the last character read, the text left, and the parts kept, the
latest first. -/
structure Reading where
  before : Option Char
  rest : Text
  captures : List Capture

namespace Reading

/-- Nothing has been read of the text. -/
def start (t : Text) : Reading :=
  { before := none, rest := t, captures := [] }

/-- The text kept under a name, if that part was read. -/
def get? (reading : Reading) (slot : Slot) : Option Text :=
  (reading.captures.find? (·.slot = slot)).map Capture.text

/-- Whether the part was read. -/
def has (reading : Reading) (slot : Slot) : Bool :=
  (reading.get? slot).isSome

/-- The text kept under a name, empty if that part was not read. -/
def get (reading : Reading) (slot : Slot) : Text :=
  (reading.get? slot).getD []

end Reading

namespace Pattern

/-! ## Reading -/

/-- Up to `bound` rounds of `round`, the most first, and then `next`. -/
def mostRounds {β : Type} (round : (Reading → Option β) → Reading → Option β)
    (next : Reading → Option β) : (bound : Nat) → Reading → Option β
  | 0 => next
  | bound + 1 => fun reading ↦ round (mostRounds round next bound) reading <|> next reading

/-- Up to `bound` rounds of `round`, the fewest first, and then `next`. -/
def fewestRounds {β : Type} (round : (Reading → Option β) → Reading → Option β)
    (next : Reading → Option β) : (bound : Nat) → Reading → Option β
  | 0 => next
  | bound + 1 => fun reading ↦ next reading <|> round (fewestRounds round next bound) reading

/-- Reads the pattern and then goes on with `next`, whose failure makes it try its next choice.
A round of a repetition reads at least one character, so there are at most as many rounds as
characters left. -/
def run {β : Type} : Pattern → (Reading → Option β) → Reading → Option β
  | done, next => next
  | char accepts, next => fun reading ↦
    match reading.rest with
    | [] => none
    | c :: rest =>
      if accepts c then next { reading with before := some c, rest := rest } else none
  | look holds, next => fun reading ↦
    if holds reading.before reading.rest then next reading else none
  | seq first second, next => first.run (second.run next)
  | either first second, next => fun reading ↦ first.run next reading <|> second.run next reading
  | most round, next => fun reading ↦ mostRounds round.run next reading.rest.length reading
  | fewest round, next => fun reading ↦ fewestRounds round.run next reading.rest.length reading
  | keep slot body, next => fun reading ↦
    body.run
      (fun after ↦
        next { after with captures := ⟨slot, reading.rest, after.rest⟩ :: after.captures })
      reading

/-- Reads the pattern where the reading stands. -/
def readAt (p : Pattern) (reading : Reading) : Option Reading :=
  p.run some reading

/-- Reads the pattern at the start of the text. -/
def readStart (p : Pattern) (t : Text) : Option Reading :=
  p.readAt (.start t)

/-- Whether the pattern can be read at the start of the text. -/
def accepts (p : Pattern) (t : Text) : Bool :=
  (p.readStart t).isSome

/-! ## Searching -/

/-- A stretch of text that a pattern describes, with the text on both sides of it. -/
structure Found where
  /-- The number of characters before the stretch. -/
  offset : Nat
  /-- The text from where the stretch starts. -/
  start : Text
  reading : Reading

/-- The first place from here on at which the pattern can be read. -/
def searchFrom (p : Pattern) : (offset : Nat) → Option Char → Text → Option Found
  | offset, before, [] => (p.readAt ⟨before, [], []⟩).map (⟨offset, [], ·⟩)
  | offset, before, c :: rest =>
    match p.readAt ⟨before, c :: rest, []⟩ with
    | some reading => some ⟨offset, c :: rest, reading⟩
    | none => p.searchFrom (offset + 1) (some c) rest

/-- The first place of the text at which the pattern can be read. -/
def search (p : Pattern) (t : Text) : Option Found :=
  p.searchFrom 0 none t

/-- Whether the pattern can be read somewhere in the text. -/
def occurs (p : Pattern) (t : Text) : Bool :=
  (p.search t).isSome

/-- Replaces the stretches that the pattern describes, from left to right.  The counter is the
number of characters of the last stretch that are still to be skipped. -/
def replaceFrom (p : Pattern) (new : Reading → Text) : Nat → Option Char → Text → Text
  | _, _, [] => []
  | skip + 1, _, c :: rest => p.replaceFrom new skip (some c) rest
  | 0, before, c :: rest =>
    match p.readAt ⟨before, c :: rest, []⟩ with
    | some reading =>
      new reading ++ p.replaceFrom new (rest.length - reading.rest.length) (some c) rest
    | none => c :: p.replaceFrom new 0 (some c) rest

/-- The text with each stretch that the pattern describes replaced.  The pattern describes no
empty text. -/
def replace (p : Pattern) (new : Reading → Text) (t : Text) : Text :=
  p.replaceFrom new 0 none t

/-- The pieces between the stretches that the pattern describes.  The piece being read is kept in
reverse, the counter is as for `replaceFrom`. -/
def splitFrom (p : Pattern) : Text → Nat → Option Char → Text → List Text
  | piece, _, _, [] => [piece.reverse]
  | piece, skip + 1, _, c :: rest => p.splitFrom piece skip (some c) rest
  | piece, 0, before, c :: rest =>
    match p.readAt ⟨before, c :: rest, []⟩ with
    | some reading =>
      piece.reverse :: p.splitFrom [] (rest.length - reading.rest.length) (some c) rest
    | none => p.splitFrom (c :: piece) 0 (some c) rest

/-- The pieces between the stretches that the pattern describes, which are not empty. -/
def split (p : Pattern) (t : Text) : List Text :=
  p.splitFrom [] 0 none t

/-! ## Building patterns -/

/-- The given characters, one after another. -/
def text (t : Text) : Pattern :=
  t.foldr (fun c p ↦ .seq (.char (· == c)) p) .done

instance : Coe String Pattern := ⟨fun s ↦ text s⟩

instance : Coe Char Pattern := ⟨fun c ↦ .char (· == c)⟩

instance : Append Pattern := ⟨.seq⟩

instance : OrElse Pattern := ⟨fun first second ↦ .either first (second ())⟩

/-- The first of the patterns that fits. -/
def anyOf : List Pattern → Pattern
  | [] => .char fun _ ↦ false
  | [p] => p
  | p :: ps => .either p (anyOf ps)

/-- The pattern, or else nothing. -/
def maybe (p : Pattern) : Pattern :=
  .either p .done

/-- One round or more, the most first. -/
def most1 (p : Pattern) : Pattern :=
  p ++ most p

/-- One round or more, the fewest first. -/
def fewest1 (p : Pattern) : Pattern :=
  p ++ fewest p

/-- The pattern can be read from here on; nothing is read. -/
def ahead (p : Pattern) : Pattern :=
  .look fun before rest ↦ (p.readAt ⟨before, rest, []⟩).isSome

/-- The pattern cannot be read from here on; nothing is read. -/
def notAhead (p : Pattern) : Pattern :=
  .look fun before rest ↦ (p.readAt ⟨before, rest, []⟩).isNone

/-- The character before is of a class. -/
def after (accepts : Char → Bool) : Pattern :=
  .look fun before _ ↦ before.any accepts

/-- No character of a class stands before. -/
def notAfter (accepts : Char → Bool) : Pattern :=
  .look fun before _ ↦ !before.any accepts

/-- One side of here is a word character, the other is not. -/
def edge : Pattern :=
  .look fun before rest ↦ before.any isWord != rest.head?.any isWord

/-- The start of the text. -/
def textStart : Pattern :=
  .look fun before _ ↦ before.isNone

/-- The end of the text, or its last line end. -/
def textEnd : Pattern :=
  .look fun _ rest ↦ rest.isEmpty || rest == ['\n']

/-- The start of a line. -/
def lineStart : Pattern :=
  .look fun before _ ↦ before.all (· == '\n')

/-- The end of a line. -/
def lineEnd : Pattern :=
  .look fun _ rest ↦ rest.head?.all (· == '\n')

/-! ## Character classes -/

/-- One of the given characters. -/
def oneOf (chars : Text) : Char → Bool :=
  chars.contains

/-- None of the given characters. -/
def noneOf (chars : Text) (c : Char) : Bool :=
  !chars.contains c

/-- A word character or one of the given characters. -/
def wordOr (chars : Text) (c : Char) : Bool :=
  isWord c || chars.contains c

/-- Any character of a line. -/
def inLine (c : Char) : Bool :=
  c != '\n'

/-- A character that is not blank. -/
def isInk (c : Char) : Bool :=
  !isBlank c

/-- Any blanks. -/
def blanks : Pattern :=
  .most (.char isBlank)

/-- At least one blank. -/
def blanks1 : Pattern :=
  most1 (.char isBlank)

/-- Word characters, at least one. -/
def word : Pattern :=
  most1 (.char isWord)

/-- The rest of the line, or as much of it as what follows leaves. -/
def anything : Pattern :=
  .most (.char inLine)

/-- The rest of the line, at least one character. -/
def anything1 : Pattern :=
  most1 (.char inLine)

/-- As little of the line as what follows allows, at least one character. -/
def little1 : Pattern :=
  fewest1 (.char inLine)

end Pattern

end Recast
