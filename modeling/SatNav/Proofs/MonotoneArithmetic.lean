import SatNav.Signal

/-!
# Arithmetic with monotone rounding

What the order of an argument about rounded numbers rests on. Nothing is said of how far
a result is from the exact one: operations are monotone where they are defined, whole
numbers are converted exactly, and a number is what is in relation to itself, which a
NaN is not.

Equality of numbers is asked for as an order in both directions, since a zero has two
signs.
-/

namespace SatNav

open Scalar

/-- Monotone rounding, with the usual rules for infinities and for a NaN. -/
class MonotoneArithmetic (R : Type) [Scalar R] : Prop where
  trans_le {x y z : R} : x ≤ y → y ≤ z → x ≤ z
  trans_lt {x y z : R} : x ≤ y → y < z → x < z
  /-- Numbers can be compared. -/
  total_le {x y : R} : x ≤ x → y ≤ y → ¬ x < y → y ≤ x
  total_lt {x y : R} : x ≤ x → y ≤ y → ¬ x ≤ y → y < x
  number_of_isFinite {x : R} : isFinite x → x ≤ x
  isFinite_zero : isFinite (0.0 : R)
  isFinite_half : isFinite (0.5 : R)
  isFinite_neg_half : isFinite (-0.5 : R)
  zero_le_half : (0.0 : R) ≤ 0.5
  neg_half_le_zero : (-0.5 : R) ≤ 0.0
  sub_half_eq (x : R) : x - 0.5 = x + -0.5
  comm_add (x y : R) : x + y = y + x
  /-- A sum of which one part is finite is a number if the other part is. -/
  number_add {x c : R} : x ≤ x → isFinite c → x + c ≤ x + c
  mono_add {x y c : R} : x ≤ y → x + c ≤ x + c → y + c ≤ y + c → x + c ≤ y + c
  add_zero_le {x : R} : x ≤ x → x + 0.0 ≤ x
  le_add_zero {x : R} : x ≤ x → x ≤ x + 0.0
  mono_ofCount {i j : Nat} : i ≤ j → ofCount i ≤ (ofCount j : R)
  mono_ofCount_mul {i j : Nat} {s : R} :
    i ≤ j → j < UInt64.size → isFinite s → 0.0 < s → ofCount i * s ≤ ofCount j * s
  zero_le_zero_mul {s : R} : isFinite s → 0.0 ≤ ofCount 0 * s
  mono_ceil {x y : R} : x ≤ y → ceil x ≤ ceil y
  /-- What `ceil` gives is whole, so that a count of 64 bits holds it if it is in range. -/
  ceil_eq_ofCount {x : R} {n : Nat} :
    n ≤ UInt64.size → 0.0 ≤ ceil x → ceil x < ofCount n →
      toCount (ceil x) < n ∧ ceil x ≤ ofCount (toCount (ceil x)) ∧
        ofCount (toCount (ceil x)) ≤ ceil x

end SatNav
