/-!
# Texts

A text is the list of its characters, so that every operation is a recursion on that list.  This
module holds the operations that cut, trim and join texts.  A line of a program is a text without
`'\n'`; `lines` and `unlines` pass between a program and its lines.
-/

namespace Recast

/-- A text, as the list of its characters in reading order. -/
abbrev Text := List Char

instance : Coe String Text := ⟨String.toList⟩

instance : Coe Char Text := ⟨fun c ↦ [c]⟩

/-- The sum of a measure over a list. -/
def total {α : Type} (measure : α → Nat) : List α → Nat
  | [] => 0
  | a :: others => measure a + total measure others

/-- Membership of a code point in an ascending list of closed ranges. -/
def inRanges (n : Nat) : List (Nat × Nat) → Bool
  | [] => false
  | (low, high) :: others => if n < low then false else n ≤ high || inRanges n others

/-- White space: the control blanks, the separators between fields and records, the spaces of
every width, and the line and paragraph separators. -/
def isBlank (c : Char) : Bool :=
  inRanges c.toNat
    [(0x09, 0x0d), (0x1c, 0x20), (0x85, 0x85), (0xa0, 0xa0), (0x1680, 0x1680), (0x2000, 0x200a),
     (0x2028, 0x2029), (0x202f, 0x202f), (0x205f, 0x205f), (0x3000, 0x3000)]

/-- A space or a tab: the blanks that stand inside a line. -/
def isSpacing (c : Char) : Bool :=
  c == ' ' || c == '\t'

namespace Text

/-! ## Trimming -/

/-- The text without its leading blanks. -/
def trimStart (t : Text) : Text :=
  t.dropWhile isBlank

/-- The text without its last characters that satisfy `p`. -/
def dropEndWhile (p : Char → Bool) (t : Text) : Text :=
  (t.reverse.dropWhile p).reverse

/-- The text without its trailing blanks. -/
def trimEnd (t : Text) : Text :=
  dropEndWhile isBlank t

/-- The text without its leading and trailing blanks. -/
def trim (t : Text) : Text :=
  trimEnd (trimStart t)

/-- The text without any of `chars` at either end. -/
def trimChars (chars : Text) (t : Text) : Text :=
  dropEndWhile chars.contains (t.dropWhile chars.contains)

/-- The blanks that a line starts with. -/
def indentation (t : Text) : Text :=
  t.takeWhile isBlank

/-- How far a line is indented, in characters. -/
def width (t : Text) : Nat :=
  (indentation t).length

/-- The blanks that a text ends with. -/
def gap (t : Text) : Text :=
  (t.reverse.takeWhile isBlank).reverse

/-- A text of blanks only. -/
def isVoid (t : Text) : Bool :=
  t.all isBlank

/-! ## Beginnings and ends -/

def startsWith (t beginning : Text) : Bool :=
  beginning.isPrefixOf t

def startsWithAny (t : Text) (beginnings : List Text) : Bool :=
  beginnings.any (startsWith t)

def endsWith (t ending : Text) : Bool :=
  ending.isSuffixOf t

def endsWithAny (t : Text) (endings : List Text) : Bool :=
  endings.any (endsWith t)

/-! ## Cutting and joining -/

/-- One step of `splitOn`, from the right: a separator opens a new piece, any other character
joins the first piece. -/
def splitStep (separator c : Char) : List Text → List Text
  | [] => if c == separator then [[], []] else [[c]]
  | piece :: pieces => if c == separator then [] :: piece :: pieces else (c :: piece) :: pieces

/-- The pieces between the separators; there is always at least one. -/
def splitOn (separator : Char) (t : Text) : List Text :=
  t.foldr (splitStep separator) [[]]

/-- The lines of a program. -/
def lines (t : Text) : List Text :=
  splitOn '\n' t

/-- The pieces with `separator` between each two of them. -/
def joinWith (separator : Text) (pieces : List Text) : Text :=
  separator.intercalate pieces

/-- The program with the given lines. -/
def unlines (ls : List Text) : Text :=
  joinWith ['\n'] ls

/-- What stands before the first `separator`, and what follows it if there is one. -/
def cut (separator : Text) : Text → Text × Option Text
  | [] => if separator.isEmpty then ([], some []) else ([], none)
  | c :: rest =>
    if separator.isPrefixOf (c :: rest) then ([], some ((c :: rest).drop separator.length))
    else match cut separator rest with
      | (before, after) => (c :: before, after)

/-- The longest runs of characters that are not blank, in order. -/
def words (t : Text) : List Text :=
  go [] t
where
  /-- The word being read is kept in reverse. -/
  go (word : Text) : Text → List Text
    | [] => if word.isEmpty then [] else [word.reverse]
    | c :: rest =>
      if isBlank c then
        if word.isEmpty then go [] rest else word.reverse :: go [] rest
      else go (c :: word) rest

/-! ## Occurrences -/

/-- Replaces the occurrences of `old` from left to right, none of them overlapping an earlier
one.  The counter is the number of characters of the last occurrence that are still to be
skipped. -/
def replaceFrom (old new : Text) : Nat → Text → Text
  | _, [] => []
  | skip + 1, _ :: rest => replaceFrom old new skip rest
  | 0, c :: rest =>
    if old.isPrefixOf (c :: rest) then new ++ replaceFrom old new (old.length - 1) rest
    else c :: replaceFrom old new 0 rest

/-- The text with each occurrence of the non-empty text `old` replaced by `new`. -/
def substitute (old new t : Text) : Text :=
  replaceFrom old new 0 t

/-- Counts like `replaceFrom` replaces. -/
def countFrom (token : Text) : Nat → Text → Nat
  | _, [] => 0
  | skip + 1, _ :: rest => countFrom token skip rest
  | 0, c :: rest =>
    if token.isPrefixOf (c :: rest) then 1 + countFrom token (token.length - 1) rest
    else countFrom token 0 rest

/-- How often `token` occurs without overlaps; the empty token occurs around every character. -/
def occurrences (token t : Text) : Nat :=
  if token.isEmpty then t.length + 1 else countFrom token 0 t

/-- Whether `token` occurs somewhere. -/
def mentions (t token : Text) : Bool :=
  match t with
  | [] => token.isEmpty
  | c :: rest => token.isPrefixOf (c :: rest) || mentions rest token

/-- The text, or `other` when it is empty. -/
def orElse (t other : Text) : Text :=
  if t.isEmpty then other else t

/-- A part that may be missing, between what comes with it. -/
def around (before : Text) (part? : Option Text) (after : Text) : Text :=
  match part? with
  | some part => before ++ part ++ after
  | none => []

/-- A number in decimal notation. -/
def ofNat (n : Nat) : Text :=
  Nat.toDigits 10 n

/-- An integer in decimal notation, with a minus sign when it is negative. -/
def ofInt : Int → Text
  | .ofNat n => ofNat n
  | .negSucc n => '-' :: ofNat (n + 1)

end Text

end Recast
