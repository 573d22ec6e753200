import SatNav.Binary64.Basic

/-!
# Whole parts and remainders of doubles

Conversions to whole numbers cut off the fraction and stop at the ends of the
range. The remainder is the exact one of the two values, not that of a rounded
quotient.
-/

namespace SatNav.Binary64

/-- Whole part as an unsigned 64-bit count: zero for what is negative or undefined, the largest
count for what is too large. -/
def toCount (x : Float) : Nat := x.toUInt64.toNat

/-- Whole part as a signed 64-bit number, the nearest one where it does not fit. -/
def toIndex (x : Float) : Int :=
  if x < 0 then -(min (-x).toUInt64.toNat 0x8000000000000000 : Nat)
  else (min x.toUInt64.toNat 0x7fffffffffffffff : Nat)

/-- The least whole double that is not below `x`. From `2 ^ 52` on every double is whole; below,
the whole part fits a 64-bit count. -/
def ceil (x : Float) : Float :=
  if x.abs < 4503599627370496.0 then
    if x < 0 then
      let whole := (-x).toUInt64.toFloat
      if whole == -x then x else -whole
    else
      let whole := x.toUInt64.toFloat
      if whole < x then whole + 1.0 else x
  else x

/-- What is left of `m * 2 ^ e` after a whole number of `n * 2 ^ f`, as a multiple of the smaller
power of two. -/
def exactRemainder (m : Nat) (e : Int) (n : Nat) (f : Int) : Nat × Int :=
  if f ≤ e then (m * Nat.pow 2 (e - f).toNat % n, f)
  else (m % (n * Nat.pow 2 (f - e).toNat), e)

/-- What is left of `x` after a whole number of `y`, with the sign of `x`. It is undefined where
`x` is infinite or `y` zero, and `x` itself where `y` is infinite. -/
def remainder (x y : Float) : Float :=
  match parts x, parts y with
  | .undefined, _ | _, .undefined | .infinite _, _ => 0.0 / 0.0
  | .finite .., .infinite _ => x
  | .finite negative m e, .finite _ n f =>
    if n = 0 then 0.0 / 0.0
    else
      let (r, g) := exactRemainder m e n f
      ofParts negative r g

end SatNav.Binary64
