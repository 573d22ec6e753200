import SatNav.Binary64.Basic

/-!
# Doubles with a fixed number of decimal places

The value is rounded as an exact quotient, and a tie goes to the even digit. The
sign is that of the double, so what rounds to zero from below keeps its minus.
-/

namespace SatNav.Binary64

/-- The whole number nearest to `a / b`, the even one of two that are equally near. -/
def nearestQuotient (a b : Nat) : Nat :=
  let q := a / b
  let r := a % b
  if 2 * r < b then q
  else if b < 2 * r then q + 1
  else q + q % 2

/-- `m * 2 ^ e` in units of the last of `places` decimal places, rounded. -/
def scaledToPlaces (places m : Nat) (e : Int) : Nat :=
  nearestQuotient (m * Nat.pow 10 places * Nat.pow 2 e.toNat) (Nat.pow 2 (-e).toNat)

/-- A count of units of the last place, written with a point. -/
def pointedText (places units : Nat) : String :=
  if places = 0 then toString units
  else
    let digits := toString units
    let padded := "".pushn '0' (places + 1 - digits.length) ++ digits
    let whole := padded.length - places
    String.ofList (padded.toList.take whole ++ '.' :: padded.toList.drop whole)

/-- The text of a double with `places` decimal places. -/
def fixedText (places : Nat) (x : Float) : String :=
  match parts x with
  | .undefined => "NaN"
  | .infinite negative => if negative then "-inf" else "inf"
  | .finite negative m e =>
    let text := pointedText places (scaledToPlaces places m e)
    if negative then "-" ++ text else text

/-- A text moved to the right end of a field of at least `width` characters. -/
def alignRight (width : Nat) (text : String) : String :=
  "".pushn ' ' (width - text.length) ++ text

end SatNav.Binary64
