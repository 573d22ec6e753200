import SatNav.Binary64.Basic

/-!
# The shortest decimal text of a double

Of the decimal numbers that round to a double, the one with the fewest digits is
written, and of those the nearest. The numbers that round to `m * 2 ^ e` are those
between the midpoints to its neighbours, the midpoints themselves included iff `m`
is even, since ties go to the even significand.
-/

namespace SatNav.Binary64

/-- An interval of quotients with a common denominator, and a value inside. -/
structure RoundingInterval where
  low : Nat
  value : Nat
  high : Nat
  denominator : Nat
  closed : Bool
  deriving DecidableEq

/-- The numbers that round to `m * 2 ^ e`, in quarters of a unit of `m`. Below a power of two the
lower neighbour is half as far. -/
def RoundingInterval.ofParts (m : Nat) (e : Int) : RoundingInterval :=
  let below := if m = hiddenBit ∧ -1074 < e then 1 else 2
  let scale := Nat.pow 2 e.toNat
  ⟨(4 * m - below) * scale, 4 * m * scale, (4 * m + 2) * scale, 4 * Nat.pow 2 (-e).toNat,
    m % 2 = 0⟩

namespace RoundingInterval

/-- Whether `n * 10 ^ k` lies in the interval. -/
def contains (i : RoundingInterval) (n : Nat) (k : Int) : Bool :=
  let a := n * Nat.pow 10 k.toNat * i.denominator
  let p := Nat.pow 10 (-k).toNat
  if i.closed then i.low * p ≤ a ∧ a ≤ i.high * p else i.low * p < a ∧ a < i.high * p

/-- Of the two multiples of `10 ^ k` on either side of the value, one in the interval, the nearer
one where both are, and the even one of two that are equally near. -/
def neighbour? (i : RoundingInterval) (k : Int) : Option Nat :=
  let a := i.value * Nat.pow 10 (-k).toNat
  let b := i.denominator * Nat.pow 10 k.toNat
  let below := a / b
  let above := below + 1
  match i.contains below k, i.contains above k with
  | true, false => some below
  | false, true => some above
  | false, false => none
  | true, true =>
    let r := a % b
    if 2 * r < b ∨ (2 * r = b ∧ below % 2 = 0) then some below else some above

/-- The first grid, from `10 ^ k` on to finer ones, with a point in the interval. -/
def coarsest (i : RoundingInterval) : Nat → Int → Nat × Int
  | 0, k => (i.value * Nat.pow 10 (-k).toNat / (i.denominator * Nat.pow 10 k.toNat), k)
  | steps + 1, k =>
    match i.neighbour? k with
    | some n => (n, k)
    | none => coarsest i steps (k - 1)

end RoundingInterval

/-- The shortest decimal number that rounds to `m * 2 ^ e`, as digits and a power of ten, for a
significand that is not zero. The coarsest grid tried is above every double, and no double needs
more than the steps from there to its seventeenth digit. -/
def shortestDecimal (m : Nat) (e : Int) : Nat × Int :=
  (RoundingInterval.ofParts m e).coarsest 660 310

/-- Digits with a point: positional from `1e-5` up to below `1e16`, and with a power of ten
elsewhere. A whole number ends in `.0` unless it has a power. -/
def decimalText (digits : Nat) (power : Int) : String :=
  let text := (toString digits).toList
  let magnitude := text.length + power
  if 0 ≤ power ∧ magnitude ≤ 16 then
    String.ofList (text ++ List.replicate power.toNat '0' ++ ['.', '0'])
  else if 0 < magnitude ∧ magnitude ≤ 16 then
    String.ofList (text.take magnitude.toNat ++ '.' :: text.drop magnitude.toNat)
  else if -5 < magnitude ∧ magnitude ≤ 0 then
    String.ofList ('0' :: '.' :: List.replicate (-magnitude).toNat '0' ++ text)
  else
    let mantissa := match text with
      | [d] => [d]
      | d :: rest => d :: '.' :: rest
      | [] => []
    String.ofList mantissa ++ "e" ++ toString (magnitude - 1)

/-- The shortest text of a double that reads back, or nothing for one that is not finite. -/
def shortestText? (x : Float) : Option String :=
  match parts x with
  | .finite negative m e =>
    let text := if m = 0 then "0.0" else
      let (digits, power) := shortestDecimal m e
      decimalText digits power
    some (if negative then "-" ++ text else text)
  | _ => none

end SatNav.Binary64
