import SatNav.Scalar
import SatNav.Binary64.Rounding

/-!
# Binary64 as the receiver's number system

Arithmetic rounds to nearest, ties to even, one operation at a time. The
elementary functions are those of the mathematical library.
-/

namespace SatNav.Binary64

/-- Logarithm to the base ten. The ends of its domain are fixed by the standard: no logarithm
below zero, minus infinity at either zero, infinity at infinity. -/
def log10 (x : Float) : Float :=
  if x < 0 then 0.0 / 0.0
  else if x == 0 then -1.0 / 0.0
  else if x.isFinite then x.log10
  else x

/-- The double nearest to the ratio of circumference and diameter. -/
def pi : Float := 3.141592653589793

instance : Scalar Float where
  decLt x y := inferInstanceAs (Decidable (x < y))
  decLe x y := inferInstanceAs (Decidable (x ≤ y))
  ofInt := Float.ofInt
  pi := pi
  abs := Float.abs
  sqrt := Float.sqrt
  sin := Float.sin
  cos := Float.cos
  atan := Float.atan
  atan2 := Float.atan2
  log10 := log10
  ceil := ceil
  remainder := remainder
  isFinite := Float.isFinite
  toCount := toCount
  toIndex := toIndex

end SatNav.Binary64
