import Recast.Text.Basic

/-!
# Integers written as text

A setting that is a number may be given as text.  Proper numerals are read as they are.  Any other
text is tidied first: it may have blanks around it, a sign, leading zeros, a fraction of zeros and
underscores between its digits.
-/

namespace Recast

/-- Why a text is not read as an integer. -/
inductive NumeralFlaw where
  | unreadable
  | tooLong
  deriving DecidableEq, Repr

namespace Text

/-! ## Proper numerals -/

/-- How many characters a numeral may have. -/
def longestNumeral : Nat :=
  4300

/-- The value of decimal digits. -/
def decimalValue (digits : Text) : Nat :=
  digits.foldl (fun n c ↦ 10 * n + (c.toNat - '0'.toNat)) 0

/-- The minus sign at the start of a text, if there is one, and the text behind it. -/
def splitMinus : Text → Text × Text
  | '-' :: t => (['-'], t)
  | t => ([], t)

/-- Whether digits are written the proper way: there is one, and a zero stands first only if it
stands alone. -/
def areProperDigits : Text → Bool
  | [] => false
  | c :: rest => c != '0' || rest.isEmpty

/-- Reads a proper numeral: a minus sign or none, and proper digits.  Too many digits are noticed
before anything behind them. -/
def numeral (t : Text) : Except NumeralFlaw Int :=
  let (sign, unsigned) := splitMinus t
  let digits := unsigned.takeWhile Char.isDigit
  if !areProperDigits digits then .error .unreadable
  else if longestNumeral < sign.length + digits.length then .error .tooLong
  else if digits.length < unsigned.length then .error .unreadable
  else .ok (if sign.isEmpty then (decimalValue digits : Int) else -(decimalValue digits : Int))

/-! ## Tidying -/

/-- A blank that may stand around a number; the information separators may not. -/
def isNumeralBlank (c : Char) : Bool :=
  isBlank c && !(0x1c ≤ c.toNat && c.toNat ≤ 0x1f)

/-- The text without the blanks around a number. -/
def trimNumeral (t : Text) : Text :=
  dropEndWhile isNumeralBlank (t.dropWhile isNumeralBlank)

/-- The text without a plus sign, which no minus sign may follow. -/
def dropPlus : Text → Option Text
  | '+' :: '-' :: _ => none
  | '+' :: t => some t
  | t => some t

/-- Whether a character ends the leading zeros of a number. -/
def isNumeralStart (c : Char) : Bool :=
  c == '-' || '1' ≤ c && c ≤ '9'

/-- The text without leading zeros, which may be grouped in any way.  The last of them is kept if
nothing or a fraction follows. -/
def dropLeadingZeros (t : Text) : Option Text :=
  let isZero (c : Char) : Bool := c == '0' || c == '_'
  match t with
  | '0' :: _ =>
    match t.dropWhile isZero with
    | [] => t.getLast?.map fun c ↦ [c]
    | '.' :: fraction => (t.takeWhile isZero).getLast?.map fun c ↦ c :: '.' :: fraction
    | c :: rest => if isNumeralStart c then some (c :: rest) else none
  | c :: _ => if isNumeralStart c then some t else none
  | [] => none

/-- The text before a fraction of zeros; any other text as it is. -/
def dropZeroFraction (t : Text) : Text :=
  match cut "." t with
  | (whole, some fraction) =>
    if !fraction.isEmpty && fraction.all (· == '0') then whole else t
  | (whole, none) => whole

/-- The text without underscores, if they stand singly and between other characters. -/
def dropUnderscores (t : Text) : Text :=
  let groups := splitOn '_' t
  if groups.all fun group ↦ !group.isEmpty then groups.flatten else t

/-- The numeral that a text stands for; a minus sign in front of it is kept. -/
def tidyNumeral (t : Text) : Option Text := do
  let (sign, unsigned) := splitMinus (← dropPlus (trimNumeral t))
  let digits ← dropLeadingZeros unsigned
  some (sign ++ dropUnderscores (dropZeroFraction digits))

/-- The integer that is written. -/
def toInteger (t : Text) : Except NumeralFlaw Int :=
  match numeral t with
  | .error .unreadable =>
    match tidyNumeral t with
    | some t => numeral t
    | none => .error .unreadable
  | result => result

end Text

end Recast
