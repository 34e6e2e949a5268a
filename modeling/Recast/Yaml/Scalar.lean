import Recast.Settings.Value
import Recast.Yaml.Moment

/-!
# Plain scalars

What a word that is not quoted stands for in YAML 1.1: nothing, a switch, a number, a moment or
itself.
-/

namespace Recast

namespace Yaml

/-! ## Integers -/

/-- The value of a digit. -/
def digitValue (c : Char) : Nat :=
  if c.isDigit then c.toNat - '0'.toNat else c.toLower.toNat - 'a'.toNat + 10

/-- The value of digits to a base; underscores are passed over. -/
def digitsValue (base : Nat) (digits : Text) : Nat :=
  digits.foldl (fun n c ↦ if c == '_' then n else base * n + digitValue c) 0

/-- Whether the text is made of such digits and underscores, and is not empty. -/
def isDigits (isDigit : Char → Bool) (t : Text) : Bool :=
  !t.isEmpty && t.all fun c ↦ isDigit c || c == '_'

def isBit (c : Char) : Bool :=
  c == '0' || c == '1'

def isOctal (c : Char) : Bool :=
  '0' ≤ c && c ≤ '7'

def isHexadecimal (c : Char) : Bool :=
  c.isDigit || 'a' ≤ c && c ≤ 'f' || 'A' ≤ c && c ≤ 'F'

/-- Whether a text starts with a digit and goes on with digits and underscores. -/
def isCounting : Text → Bool
  | c :: digits => c.isDigit && digits.all fun d ↦ d.isDigit || d == '_'
  | [] => false

/-- Whether a text is one of the sixty digits behind the first of a sexagesimal number. -/
def isSexagesimal : Text → Bool
  | [c] => c.isDigit
  | [c, d] => '0' ≤ c && c ≤ '5' && d.isDigit
  | _ => false

/-- The digits to a base behind a mark; without a digit they have no value. -/
def based? (isDigit : Char → Bool) (base : Nat) (digits : Text) : Option (Option Nat) :=
  if !isDigits isDigit digits then none
  else if digits.all (· == '_') then some none
  else some (some (digitsValue base digits))

/-- The number without a sign that is written in base two, eight, ten, sixteen or sixty.  Outside
stands whether the text is such a number, inside its value. -/
def natural? (t : Text) : Option (Option Nat) :=
  match t with
  | ['0'] => some (some 0)
  | '0' :: 'b' :: digits => based? isBit 2 digits
  | '0' :: 'x' :: digits => based? isHexadecimal 16 digits
  | '0' :: digits => if isDigits isOctal digits then some (some (digitsValue 8 digits)) else none
  | _ =>
    match Text.splitOn ':' t with
    | first :: others =>
      if isCounting first && others.all isSexagesimal then
        some (some
          (others.foldl (fun n digit ↦ 60 * n + digitsValue 10 digit) (digitsValue 10 first)))
      else none
    | [] => none

/-- The sign of a number, and what is behind it. -/
def splitSign : Text → Option Char × Text
  | '+' :: t => (some '+', t)
  | '-' :: t => (some '-', t)
  | t => (none, t)

/-- The number with the sign. -/
def withSign (sign? : Option Char) (n : Nat) : Int :=
  if sign? = some '-' then -(n : Int) else n

/-- An integer. -/
def integer? (t : Text) : Option (Option Value) :=
  let (sign?, digits) := splitSign t
  (natural? digits).map fun n? ↦ n?.map fun n ↦ .int (withSign sign? n)

/-! ## Numbers with a point -/

/-- The exponent behind the digits of a decimal number, which has to have a sign. -/
def exponent? : Text → Option Int
  | [] => some 0
  | mark :: t =>
    match splitSign t with
    | (some sign, digits) =>
      if (mark == 'e' || mark == 'E') && !digits.isEmpty && digits.all Char.isDigit then
        some (withSign (some sign) (digitsValue 10 digits))
      else none
    | (none, _) => none

/-- The digits before and behind the point, and the text behind them. -/
def splitPoint (t : Text) : Option (Text × Text × Text) :=
  match Text.cut "." t with
  | (whole, some rest) =>
    let isPart (c : Char) : Bool := c.isDigit || c == '_'
    some (whole, rest.takeWhile isPart, rest.dropWhile isPart)
  | (_, none) => none

/-- The number with these digits before and behind the point. -/
def pointed (sign? : Option Char) (whole fraction : Text) (exponent : Int) : Binary :=
  .ofDecimal (withSign sign? (digitsValue 10 (whole ++ fraction)))
    (exponent - (fraction.filter Char.isDigit).length)

/-- A decimal number with a point. -/
def decimal? (t : Text) : Option Binary := do
  let (sign?, unsigned) := splitSign t
  let (whole, fraction, rest) ← splitPoint unsigned
  let exponent ← exponent? rest
  let started :=
    if whole.isEmpty then sign?.isNone && fraction.head?.any Char.isDigit else isCounting whole
  if started then some (pointed sign? whole fraction exponent) else none

/-- The sum of the parts of a sexagesimal number, the last part first, the first of them in units
of `unit`. -/
def sexagesimalSum (unit : Nat) (sum : Binary) : List Binary → Binary
  | [] => sum
  | part :: parts => sexagesimalSum (unit * 60) (sum.add (part.mul (.ofNat unit))) parts

/-- A sexagesimal number with a point. -/
def sexagesimal? (t : Text) : Option Binary := do
  let (sign?, unsigned) := splitSign t
  let (whole, fraction, []) ← splitPoint unsigned | none
  match Text.splitOn ':' whole with
  | first :: others =>
    let last ← others.getLast?
    if isCounting first && others.all isSexagesimal then
      let parts := (first :: others.dropLast).reverse.map fun part ↦ pointed none part [] 0
      let sum := sexagesimalSum 1 (.finite 0 0) (pointed none last fraction 0 :: parts)
      some (if sign? = some '-' then sum.neg else sum)
    else none
  | [] => none

/-! ## Words -/

/-- The words for what is not a finite number. -/
def unboundedWords : List Text :=
  [".inf", ".Inf", ".INF", "+.inf", "+.Inf", "+.INF", "-.inf", "-.Inf", "-.INF", ".nan", ".NaN",
   ".NAN"]

/-- The words for nothing. -/
def nullWords : List Text :=
  ["", "~", "null", "Null", "NULL"]

/-- The words for a switch that is on. -/
def trueWords : List Text :=
  ["yes", "Yes", "YES", "true", "True", "TRUE", "on", "On", "ON"]

/-- The words for a switch that is off. -/
def falseWords : List Text :=
  ["no", "No", "NO", "false", "False", "FALSE", "off", "Off", "OFF"]

/-- The word that as a key asks for the entries of another table. -/
def mergeWord : Text :=
  "<<"

/-- The word that as a key stands for the default value. -/
def defaultWord : Text :=
  "="

/-- The number that a plain scalar stands for; outside stands whether it is one. -/
def number? (t : Text) : Option (Option Value) :=
  if unboundedWords.contains t then some (some (.real .unbounded))
  else match (decimal? t).orElse fun _ ↦ sexagesimal? t with
    | some x => some (some (.real x))
    | none => integer? t

/-- What a plain scalar stands for.  The words for keys, and numbers and moments that there are not,
stand for nothing. -/
def scalar? (t : Text) : Option Value :=
  if nullWords.contains t then some .null
  else if trueWords.contains t then some (.bool true)
  else if falseWords.contains t then some (.bool false)
  else if t == mergeWord || t == defaultWord then none
  else match number? t, Moment.read? t with
    | some value?, _ => value?
    | none, some m => if m.isReal then some (.moment t) else none
    | none, none => some (.text t)

end Yaml

end Recast
