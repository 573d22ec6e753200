/-!
# Binary64 numbers as exact quantities

A finite double is a sign, a significand and a power of two, and `Float.parts`
reads them off its bits. Remainder, rounding and decimal text are computed on the
parts in whole numbers, so none of them loses a bit.
-/

namespace SatNav.Binary64

/-- What a double stands for: `finite negative m e` is `m * 2 ^ e`, with its sign. -/
inductive Parts
  | undefined
  | infinite (negative : Bool)
  | finite (negative : Bool) (significand : Nat) (exponent : Int)
  deriving DecidableEq

/-- The bit in front of the trailing significand of a normal double. -/
def hiddenBit : Nat := 0x10000000000000

/-- Biased exponent of a double, eleven bits. -/
def biasedExponent (x : Float) : Nat := (x.toBits >>> 52).toNat % 2048

/-- Trailing significand of a double, fifty-two bits. -/
def trailingSignificand (x : Float) : Nat := x.toBits.toNat % hiddenBit

/-- Sign bit of a double, which a zero and a NaN have too. -/
def signBit (x : Float) : Bool := x.toBits >>> 63 == 1

/-- The value of a double. A subnormal one has the exponent of the smallest normal one and no
hidden bit. -/
def parts (x : Float) : Parts :=
  let biased := biasedExponent x
  let trailing := trailingSignificand x
  if biased = 2047 then
    if trailing = 0 then .infinite (signBit x) else .undefined
  else if biased = 0 then .finite (signBit x) trailing (-1074)
  else .finite (signBit x) (trailing + hiddenBit) (biased - 1075)

/-- The double that is `2 ^ e`, for `e` from -1074 to 1023. -/
def powerOfTwo (e : Int) : Float :=
  if -1022 ≤ e then .ofBits ((e + 1023).toNat.toUInt64 <<< 52)
  else .ofBits (1 <<< (e + 1074).toNat.toUInt64)

/-- The double that is `m * 2 ^ e`, with a sign. The product is exact wherever its value is a
double, since both factors are. -/
def ofParts (negative : Bool) (m : Nat) (e : Int) : Float :=
  let x := Float.ofNat m * powerOfTwo e
  if negative then -x else x

end SatNav.Binary64
