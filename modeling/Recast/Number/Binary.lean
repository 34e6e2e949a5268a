/-!
# Binary numbers

A number with a point is kept as a multiple of a power of two.  The multiple has 53 binary digits
and the power is not below `2 ^ (-1074)`, so a number is brought to the nearest one of this form,
and of two that are equally near to the even one.  Numbers from `2 ^ 1024` on are not kept.
-/

namespace Recast

/-- A number with a point, as it is kept. -/
inductive Binary where
  /-- The number `mantissa * 2 ^ exponent`. -/
  | finite (mantissa exponent : Int)
  /-- A number that is infinite or undefined. -/
  | unbounded
  deriving DecidableEq, Repr

namespace Binary

/-- The first number that has too many binary digits for a mantissa. -/
def mantissaBound : Nat :=
  Nat.pow 2 53

/-- The least exponent. -/
def leastExponent : Int :=
  -1074

/-- The greatest exponent. -/
def greatestExponent : Int :=
  971

/-! ## Rounding -/

/-- The whole number that is nearest to `a / b`; of two the even one. -/
def nearest (a b : Nat) : Nat :=
  let rest := 2 * (a % b)
  if rest < b || rest == b && a / b % 2 == 0 then a / b else a / b + 1

/-- The ratio `a / b` divided by `2 ^ exponent`, as a ratio again. -/
def scale (a b : Nat) (exponent : Int) : Nat × Nat :=
  if 0 ≤ exponent then (a, b * Nat.pow 2 exponent.toNat)
  else (a * Nat.pow 2 (-exponent).toNat, b)

/-- The exponent for the ratio `a / b`: the least one with which the mantissa is not too large. -/
def exponentOf (a b : Nat) : Int :=
  let estimate := max ((a.log2 : Int) - b.log2 - 53) leastExponent
  let (a, b) := scale a b estimate
  if b * mantissaBound ≤ a then estimate + 1 else estimate

/-- The number nearest to the ratio `a / b`, with a sign. -/
def ofRatio (negative : Bool) (a b : Nat) : Binary :=
  let exponent := exponentOf a b
  let (a, b) := scale a b exponent
  let mantissa := nearest a b
  if greatestExponent < exponent || exponent == greatestExponent && mantissa == mantissaBound then
    unbounded
  else finite (if negative then -(mantissa : Int) else mantissa) exponent

/-- The number nearest to a natural number. -/
def ofNat (n : Nat) : Binary :=
  ofRatio false n 1

/-- The number nearest to `n * 2 ^ exponent`. -/
def ofScaled (n exponent : Int) : Binary :=
  let (a, b) := scale n.natAbs 1 (-exponent)
  ofRatio (n < 0) a b

/-- The number nearest to `digits * 10 ^ exponent`.  What is far too large or far too small is not
computed. -/
def ofDecimal (digits exponent : Int) : Binary :=
  let size : Int := (Nat.toDigits 10 digits.natAbs).length + exponent
  if digits = 0 || size < -330 then finite 0 0
  else if 330 < size then unbounded
  else if 0 ≤ exponent then ofRatio (digits < 0) (digits.natAbs * Nat.pow 10 exponent.toNat) 1
  else ofRatio (digits < 0) digits.natAbs (Nat.pow 10 (-exponent).toNat)

/-! ## Arithmetic -/

/-- The number nearest to the sum. -/
def add : Binary → Binary → Binary
  | finite m e, finite m' e' =>
    let low := min e e'
    let raise (m e : Int) : Int := m * Int.ofNat (Nat.pow 2 (e - low).toNat)
    ofScaled (raise m e + raise m' e') low
  | _, _ => unbounded

/-- The number nearest to the product. -/
def mul : Binary → Binary → Binary
  | finite m e, finite m' e' => ofScaled (m * m') (e + e')
  | _, _ => unbounded

/-- The number with the other sign. -/
def neg : Binary → Binary
  | finite m e => finite (-m) e
  | unbounded => unbounded

/-- The integer that the number is, if it is one. -/
def integral? : Binary → Option Int
  | finite m e =>
    let power : Int := Int.ofNat (Nat.pow 2 e.natAbs)
    if 0 ≤ e then some (m * power)
    else if m % power = 0 then some (m / power)
    else none
  | unbounded => none

end Binary

end Recast
