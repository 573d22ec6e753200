import SatNav.Scalar

/-!
# The L1 coarse acquisition signal

A carrier, and on it a code of `codeChips` chips that begins anew every millisecond.
Each constant is a decimal literal, so its binary64 value is the nearest double.
-/

namespace SatNav

variable {R : Type} [Scalar R]

/-- Speed of light [m/s]. -/
@[inline] def speedOfLight : R := 2.99792458e8

/-- Frequency of the carrier [Hz]. -/
@[inline] def l1Frequency : R := 1.57542e9

/-- Rate of the chips [chips/s]. -/
@[inline] def chippingRate : R := 1.023e6

/-- Chips in one period of the code. -/
def codeChips : Nat := 1023

/-- `codeChips` as a code phase [chips]. -/
@[inline] def codePeriod : R := 1023.0

end SatNav
