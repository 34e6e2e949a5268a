import Recast.Text.Basic

/-!
# Days and times

The texts that stand for a day, or for a time of a day with an offset or without one.
-/

namespace Recast

/-- A day and a time of it.  The offset from universal time is in minutes, without its sign. -/
structure Moment where
  year : Nat
  month : Nat
  day : Nat
  hour : Nat := 0
  minute : Nat := 0
  second : Nat := 0
  offset : Nat := 0

namespace Moment

/-! ## The calendar -/

/-- Whether a year has a leap day. -/
def isLeap (year : Nat) : Bool :=
  year % 4 == 0 && (year % 100 != 0 || year % 400 == 0)

/-- The number of days of a month. -/
def daysOf (year month : Nat) : Nat :=
  if month == 2 then if isLeap year then 29 else 28
  else if [4, 6, 9, 11].contains month then 30
  else 31

/-- Whether there is such a moment. -/
def isReal (m : Moment) : Bool :=
  1 ≤ m.year && 1 ≤ m.month && m.month ≤ 12 && 1 ≤ m.day && m.day ≤ daysOf m.year m.month
    && m.hour < 24 && m.minute < 60 && m.second < 60 && m.offset < 24 * 60

/-! ## Reading -/

/-- A number of `least` to `most` digits, and the text behind it. -/
def number? (least most : Nat) (t : Text) : Option (Nat × Text) :=
  let digits := (t.take most).takeWhile Char.isDigit
  if digits.length < least then none
  else some (digits.foldl (fun n c ↦ 10 * n + (c.toNat - '0'.toNat)) 0, t.drop digits.length)

/-- A number behind a mark, and the text behind it. -/
def numberAfter? (mark : Char) (least most : Nat) : Text → Option (Nat × Text)
  | c :: t => if c == mark then number? least most t else none
  | [] => none

/-- The day at the start of a text; month and day have at least `least` digits. -/
def day? (least : Nat) (t : Text) : Option (Moment × Text) := do
  let (year, t) ← number? 4 4 t
  let (month, t) ← numberAfter? '-' least 2 t
  let (day, t) ← numberAfter? '-' least 2 t
  return ({ year := year, month := month, day := day }, t)

/-- The text behind what separates the day from the time. -/
def timeText? : Text → Option Text
  | 'T' :: t | 't' :: t => some t
  | c :: t => if isSpacing c then some (t.dropWhile isSpacing) else none
  | [] => none

/-- The text behind a fraction of a second, if there is one. -/
def dropFraction : Text → Text
  | '.' :: t => t.dropWhile Char.isDigit
  | t => t

/-- The offset that makes up a text. -/
def offset? (t : Text) : Option Nat :=
  match t.dropWhile isSpacing with
  | [] => if t.isEmpty then some 0 else none
  | ['Z'] => some 0
  | sign :: t => do
    if sign != '+' && sign != '-' then none
    let (hours, t) ← number? 1 2 t
    if t.isEmpty then some (60 * hours)
    else do
      let (minutes, t) ← numberAfter? ':' 2 2 t
      if t.isEmpty then some (60 * hours + minutes) else none

/-- The moment that a text stands for, real or not. -/
def read? (t : Text) : Option Moment :=
  match day? 2 t with
  | some (day, []) => some day
  | _ => do
    let (day, t) ← day? 1 t
    let (hour, t) ← number? 1 2 (← timeText? t)
    let (minute, t) ← numberAfter? ':' 2 2 t
    let (second, t) ← numberAfter? ':' 2 2 t
    let offset ← offset? (dropFraction t)
    return { day with hour := hour, minute := minute, second := second, offset := offset }

end Moment

end Recast
