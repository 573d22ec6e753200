import Mathlib.Analysis.SpecialFunctions.Complex.Arg
import Mathlib.Analysis.SpecialFunctions.Log.Base
import Mathlib.Analysis.SpecialFunctions.Trigonometric.Arctan
import SatNav.Signal

/-!
# The receiver's formulas in exact arithmetic

The real numbers as a `Scalar`: nothing is rounded, every number is finite, and the
elementary functions are the functions they stand for. Conversions to whole numbers
keep their limits, a count being at most `maxCount`.

The lemmas tagged `simp` turn an operation of `Scalar` into the one of the reals that it
is, so that a formula of the library can be handed to `ring` or `linarith`.
-/

namespace SatNav

/-- The largest count of 64 bits. -/
def maxCount : ℕ := 18446744073709551615

/-- The whole number nearest to `x` among those between zero and `x`. -/
noncomputable def wholePart (x : ℝ) : ℤ := if 0 ≤ x then ⌊x⌋ else ⌈x⌉

namespace Exact

noncomputable scoped instance : Scalar ℝ where
  decLt _ _ := inferInstance
  decLe _ _ := inferInstance
  beq x y := decide (x = y)
  ofInt n := n
  pi := Real.pi
  abs x := |x|
  sqrt := Real.sqrt
  sin := Real.sin
  cos := Real.cos
  atan := Real.arctan
  atan2 y x := Complex.arg ⟨x, y⟩
  log10 := Real.logb 10
  ceil x := ⌈x⌉
  remainder x y := x - wholePart (x / y) * y
  isFinite _ := true
  toCount x := min ⌊x⌋₊ maxCount
  toIndex x := max (-9223372036854775808) (min (wholePart x) 9223372036854775807)

end Exact

open Exact

namespace Scalar

@[simp] theorem ofInt_real (n : ℤ) : (ofInt n : ℝ) = n := rfl

@[simp] theorem ofCount_real (n : ℕ) : (ofCount n : ℝ) = n := Int.cast_natCast n

@[simp] theorem pi_real : (pi : ℝ) = Real.pi := rfl

@[simp] theorem sin_real (x : ℝ) : sin x = Real.sin x := rfl

@[simp] theorem cos_real (x : ℝ) : cos x = Real.cos x := rfl

@[simp] theorem ceil_real (x : ℝ) : ceil x = (⌈x⌉ : ℝ) := rfl

@[simp] theorem isFinite_real (x : ℝ) : isFinite x = true := rfl

theorem toCount_real (x : ℝ) : toCount x = min ⌊x⌋₊ maxCount := rfl

theorem remainder_real (x y : ℝ) : remainder x y = x - wholePart (x / y) * y := rfl

/-- A whole number that a count can hold is converted exactly. -/
theorem toCount_intCast {n : ℤ} (h : n ≤ maxCount) : toCount (n : ℝ) = n.toNat := by
  rw [toCount_real, ← Int.floor_toNat, Int.floor_intCast, min_eq_left]
  exact Int.toNat_le.mpr h

/-- A whole number becomes an index unless it is beyond 64 bits. -/
theorem toIndex_intCast (n : ℤ) : toIndex (n : ℝ) = max (-2 ^ 63) (min n (2 ^ 63 - 1)) := by
  have hwhole : wholePart n = n := by
    unfold wholePart
    rw [Int.floor_intCast, Int.ceil_intCast, ite_self]
  have hindex : toIndex (n : ℝ) =
      max (-9223372036854775808) (min (wholePart n) 9223372036854775807) := rfl
  rw [hindex, hwhole]
  norm_num

end Scalar

@[simp] theorem codePeriod_real : (codePeriod : ℝ) = 1023 := by
  norm_num [codePeriod]

theorem zero_real : (0.0 : ℝ) = 0 := by norm_num

theorem half_real : (0.5 : ℝ) = 1 / 2 := by norm_num

theorem one_real : (1.0 : ℝ) = 1 := by norm_num

theorem two_real : (2.0 : ℝ) = 2 := by norm_num

theorem abs_sub_wholePart_lt (x : ℝ) : |x - wholePart x| < 1 := by
  unfold wholePart
  split
  · rw [abs_of_nonneg (sub_nonneg.mpr (Int.floor_le x))]
    linarith [Int.lt_floor_add_one x]
  · rw [abs_of_nonpos (sub_nonpos.mpr (Int.le_ceil x))]
    linarith [Int.ceil_lt_add_one x]

/-- A remainder is smaller than the divisor. -/
theorem abs_remainder_lt (x : ℝ) {y : ℝ} (hy : 0 < y) : |Scalar.remainder x y| < y := by
  have hfactor : Scalar.remainder x y = (x / y - wholePart (x / y)) * y := by
    rw [Scalar.remainder_real, sub_mul, div_mul_cancel₀ x hy.ne']
  rw [hfactor, abs_mul, abs_of_pos hy]
  exact mul_lt_of_lt_one_left hy (abs_sub_wholePart_lt _)

end SatNav
