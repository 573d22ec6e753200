import SatNav.Binary64.Decimal

/-!
# JSON numbers

A number is kept as it is written, since what it means depends on what it is read
as: a text that is too large for a double is still well formed. As a double it is a
count of 64 bits, with the digits that fit, which is then multiplied by a power of
ten or divided by one. Both steps round, so the double need not be the nearest one,
and a product that is infinite is out of range.
-/

namespace SatNav.Json

/-- A number as it is written: whole digits, the digits after a point and the power of ten, the
last two only if they are there. -/
structure Number where
  negative : Bool
  whole : List Char
  fraction : List Char
  power : Option Int
  deriving DecidableEq

namespace Number

/-- The value of a number written as a count: no sign, point or power. -/
def count? (n : Number) : Option Nat :=
  if n.negative = false ∧ n.fraction = [] ∧ n.power = none then
    some (Binary64.digitsValue n.whole)
  else none

/-- Puts decimal digits behind a count for as long as it fits 64 bits, and says how many digits are
left. -/
def appendDigits (count : Nat) : List Char → Nat × Nat
  | [] => (count, 0)
  | c :: rest =>
    let longer := Binary64.appendDigit count c
    if longer < UInt64.size then appendDigits longer rest else (count, rest.length + 1)

/-- The number without its sign, as a count and a power of ten. Of the whole part, the digits that
do not fit are taken as zeros; those of the fraction are left out. -/
def scaled (n : Number) : Nat × Int :=
  let (whole, zeros) := appendDigits 0 n.whole
  let (digits, left) := appendDigits whole n.fraction
  (digits, n.power.getD 0 + zeros - (n.fraction.length - left : Nat))

/-- The double nearest to a power of ten. -/
def powerOfTen (n : Nat) : Float := Float.ofScientific 1 false n

/-- A double times `10 ^ n`, unless that is too large. -/
def scaleUp? (x : Float) (n : Nat) : Option Float :=
  if n ≤ 308 then
    let y := x * powerOfTen n
    if y.isInf then none else some y
  else if x == 0.0 then some x
  else none

/-- A double divided by `10 ^ n`, where no divisor is larger than `10 ^ 308`. -/
def scaleDown (x : Float) (n : Nat) : Float :=
  if n ≤ 308 then x / powerOfTen n
  else if x == 0.0 then x
  else scaleDown (x / powerOfTen 308) (n - 308)
termination_by n

/-- A double times a power of ten, unless that is too large. -/
def scale? (x : Float) (power : Int) : Option Float :=
  if power < 0 then some (scaleDown x power.natAbs) else scaleUp? x power.natAbs

/-- The number as a double, unless it is too large for one. -/
def toFloat? (n : Number) : Option Float :=
  let (digits, power) := n.scaled
  (scale? digits.toUInt64.toFloat power).map fun x => if n.negative then -x else x

end Number

end SatNav.Json
