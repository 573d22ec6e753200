/-!
# Reading decimal numbers as doubles

A decimal number is a sign, a whole number of digits and a power of ten. Its
double is the nearest one, ties to even; it is infinite from half a unit above the
largest double on.
-/

namespace SatNav.Binary64

/-- The number `digits * 10 ^ exponent`, with its sign. -/
structure Decimal where
  negative : Bool
  digits : Nat
  exponent : Int
  deriving DecidableEq

/-- The double nearest to a decimal number. Zero keeps its sign. -/
def Decimal.toFloat (d : Decimal) : Float :=
  let magnitude := Float.ofScientific d.digits (d.exponent < 0) d.exponent.natAbs
  if d.negative then -magnitude else magnitude

/-- A number with one more decimal digit behind it. -/
def appendDigit (n : Nat) (c : Char) : Nat := 10 * n + (c.toNat - '0'.toNat)

/-- The value of a list of decimal digits, most significant first. -/
def digitsValue (digits : List Char) : Nat := digits.foldl appendDigit 0

/-- The decimal number with the digits of a whole part and of a fraction, times a power of ten. -/
def Decimal.ofDigits (negative : Bool) (whole fraction : List Char) (power : Int) : Decimal :=
  ⟨negative, digitsValue (whole ++ fraction), power - fraction.length⟩

/-- A sign in front of a text, if there is one, and what follows it. -/
def splitSign : List Char → Bool × List Char
  | '-' :: rest => (true, rest)
  | '+' :: rest => (false, rest)
  | text => (false, text)

/-- A power of ten at the end of a number: nothing, or the letter `e` in either case, a sign if
wanted and at least one digit. -/
def readPower? : List Char → Option Int
  | [] => some 0
  | c :: rest =>
    if c = 'e' ∨ c = 'E' then
      let (negative, digits) := splitSign rest
      if digits.isEmpty ∨ digits.any (!·.isDigit) then none
      else some (if negative then -digitsValue digits else digitsValue digits)
    else none

/-- A number without its sign: digits with a point among, before or behind them, then the power. -/
def readMagnitude? (negative : Bool) (text : List Char) : Option Decimal :=
  let whole := text.takeWhile Char.isDigit
  let (fraction, rest) :=
    match text.dropWhile Char.isDigit with
    | '.' :: rest => (rest.takeWhile Char.isDigit, rest.dropWhile Char.isDigit)
    | rest => ([], rest)
  if whole.isEmpty ∧ fraction.isEmpty then none
  else (readPower? rest).map (Decimal.ofDigits negative whole fraction)

/-- The number that a text names: a sign if wanted, and then a decimal number or one of the words
`inf`, `infinity` and `nan`, in any case. -/
def readFloat? (text : String) : Option Float :=
  let (negative, rest) := splitSign text.toList
  let word := String.ofList (rest.map Char.toLower)
  if word = "inf" ∨ word = "infinity" then some (if negative then -1.0 / 0.0 else 1.0 / 0.0)
  else if word = "nan" then some (0.0 / 0.0)
  else (readMagnitude? negative rest).map Decimal.toFloat

end SatNav.Binary64
