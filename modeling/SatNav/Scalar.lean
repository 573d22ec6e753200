/-!
# The numbers a receiver computes with

Every formula of the library is written once, over a type with the operations of
`Scalar`: the field operations, comparison, the elementary functions and the
conversions to and from whole numbers. The program runs them in binary64
(`SatNav.Binary64.Scalar`); the same text read in another number system is the
formula a statement about exact arithmetic speaks of.

No law is asked for. Binary64 addition is not associative and a NaN differs from
itself, so the order of the operations in a formula is part of its meaning.
-/

namespace SatNav

/-- A number system in which the receiver's formulas can be evaluated. -/
class Scalar (R : Type) extends
    Add R, Sub R, Mul R, Div R, Neg R, LT R, LE R, BEq R, OfScientific R where
  /-- Comparison is decided by the program, also where one side is undefined. -/
  decLt (x y : R) : Decidable (x < y)
  /-- As `decLt`, for the weak order. -/
  decLe (x y : R) : Decidable (x ≤ y)
  /-- The nearest number to a whole one. -/
  ofInt : Int → R
  /-- The nearest number to the ratio of circumference and diameter. -/
  pi : R
  abs : R → R
  sqrt : R → R
  sin : R → R
  cos : R → R
  /-- Arctangent, between plus and minus a quarter turn. -/
  atan : R → R
  /-- The angle of the point with ordinate `y` and abscissa `x`, written `atan2 y x`. -/
  atan2 : R → R → R
  log10 : R → R
  /-- The least whole number that is not below. -/
  ceil : R → R
  /-- `remainder x y` is what is left of `x` after a whole number of `y`, with the sign of `x`. -/
  remainder : R → R → R
  /-- Neither infinite nor undefined. -/
  isFinite : R → Bool
  /-- Whole part as a count of at most 64 bits: what is negative or undefined counts as zero, what
  is too large as the largest count. -/
  toCount : R → Nat
  /-- Whole part as a signed 64-bit number, the nearest one where it does not fit, and zero where
  it is undefined. -/
  toIndex : R → Int

namespace Scalar

variable {R : Type} [Scalar R]

instance (x y : R) : Decidable (x < y) := decLt x y

instance (x y : R) : Decidable (x ≤ y) := decLe x y

/-- A count as a number. -/
@[inline] def ofCount (n : Nat) : R := ofInt n

/-- Second power, as one product. -/
@[inline] def square (x : R) : R := x * x

/-- Third power, as two products from the left. -/
@[inline] def cube (x : R) : R := x * x * x

end Scalar

end SatNav
