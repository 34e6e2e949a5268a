import Recast.Settings.Numeral
import Recast.Settings.Value

/-!
# Conversion of values

A setting needs a text, an integer or a switch, and it is given a value of any kind.  Settings are
read through a conversion from the one to the other, and nothing that is said of them depends on
what it takes for a number or a switch.  The lenient conversion also takes numerals and words.
-/

namespace Recast

/-- Why a value does not suit a setting. -/
inductive Misfit where
  | notText
  | unknownLanguage
  | notInteger
  | unreadableInteger
  | oversizedInteger
  | fractional
  | notFinite
  | tooSmall
  | tooLarge
  | notSwitch
  | unreadableSwitch
  deriving DecidableEq, Repr

/-- The code under which a misfit is reported. -/
def Misfit.code : Misfit → Text
  | notText => "string_type"
  | unknownLanguage => "value_error"
  | notInteger => "int_type"
  | unreadableInteger => "int_parsing"
  | oversizedInteger => "int_parsing_size"
  | fractional => "int_from_float"
  | notFinite => "finite_number"
  | tooSmall => "greater_than_equal"
  | tooLarge => "less_than_equal"
  | notSwitch => "bool_type"
  | unreadableSwitch => "bool_parsing"

/-- How a value becomes a text, an integer or a switch. -/
structure Conversion where
  text : Value → Except Misfit Text
  integer : Value → Except Misfit Int
  switch : Value → Except Misfit Bool

namespace Value

/-! ## Reading single values -/

/-- A text. -/
def text? : Value → Except Misfit Text
  | text t => .ok t
  | _ => .error .notText

/-- The least size of a number that is too large where it has to fit a machine word. -/
def wordLimit : Nat :=
  0x8000000000000000

/-- A number with a point that is an integer and fits a machine word. -/
def wholeNumber (x : Binary) : Except Misfit Int :=
  if x = .unbounded then .error .notFinite
  else match x.integral? with
    | some n => if n.natAbs < wordLimit then .ok n else .error .oversizedInteger
    | none => .error .fractional

/-- An integer that is written as text. -/
def writtenInteger (t : Text) : Except Misfit Int :=
  match Text.toInteger t with
  | .ok n => .ok n
  | .error .unreadable => .error .unreadableInteger
  | .error .tooLong => .error .oversizedInteger

/-- An integer.  A switch counts as one or zero. -/
def integer? : Value → Except Misfit Int
  | bool b => .ok (if b then 1 else 0)
  | int n => .ok n
  | real x => wholeNumber x
  | text t => writtenInteger t
  | null | moment _ | list _ | table _ => .error .notInteger

/-- The words for a switch that is on. -/
def onWords : List Text :=
  ["1", "on", "t", "true", "y", "yes"]

/-- The words for a switch that is off. -/
def offWords : List Text :=
  ["0", "off", "f", "false", "n", "no"]

/-- A switch that is given as an integer, which has to fit a machine word. -/
def switchOfInt (n : Int) : Except Misfit Bool :=
  if n = 0 then .ok false
  else if n = 1 then .ok true
  else if -(wordLimit : Int) ≤ n && n < wordLimit then .error .unreadableSwitch
  else .error .notSwitch

/-- A switch. -/
def switch? : Value → Except Misfit Bool
  | bool b => .ok b
  | int n => switchOfInt n
  | real x =>
    match wholeNumber x with
    | .ok n => switchOfInt n
    | .error _ => .error .notSwitch
  | text t =>
    let key := t.map Char.toLower
    if onWords.contains key then .ok true
    else if offWords.contains key then .ok false
    else .error .unreadableSwitch
  | null | moment _ | list _ | table _ => .error .notSwitch

end Value

/-- The conversion that takes a number or a switch in whatever form it is given. -/
def Conversion.lenient : Conversion where
  text := Value.text?
  integer := Value.integer?
  switch := Value.switch?

end Recast
