import SatNav.Proofs.Exact.Reals

/-!
# Directions of the plane

`Scalar.atan2 y x` is the angle of the point with abscissa `x` and ordinate `y`; with the
distance from the origin it gives the point back. When the point is turned or mirrored its
angle is, up to whole turns, as an equation in `Real.Angle` says.
-/

namespace SatNav

open Exact

theorem norm_mk (x y : ℝ) : ‖(⟨x, y⟩ : ℂ)‖ = √(x * x + y * y) := by
  rw [Complex.norm_def, Complex.normSq_mk]

theorem mk_ne_zero {x y : ℝ} (h : x ≠ 0 ∨ y ≠ 0) : (⟨x, y⟩ : ℂ) ≠ 0 := by
  intro hzero
  exact h.elim (· (congrArg Complex.re hzero)) (· (congrArg Complex.im hzero))

theorem sqrt_mul_cos_atan2 (y x : ℝ) :
    √(x * x + y * y) * Real.cos (Scalar.atan2 y x) = x := by
  rw [← norm_mk]
  exact Complex.norm_mul_cos_arg ⟨x, y⟩

theorem sqrt_mul_sin_atan2 (y x : ℝ) :
    √(x * x + y * y) * Real.sin (Scalar.atan2 y x) = y := by
  rw [← norm_mk]
  exact Complex.norm_mul_sin_arg ⟨x, y⟩

section UnitCircle

variable {x y : ℝ} (h : x * x + y * y = 1)
include h

theorem norm_mk_of_unit : ‖(⟨x, y⟩ : ℂ)‖ = 1 := by
  rw [norm_mk, h, Real.sqrt_one]

theorem cos_atan2_of_unit : Real.cos (Scalar.atan2 y x) = x := by
  have hcos := sqrt_mul_cos_atan2 y x
  rwa [h, Real.sqrt_one, one_mul] at hcos

theorem sin_atan2_of_unit : Real.sin (Scalar.atan2 y x) = y := by
  have hsin := sqrt_mul_sin_atan2 y x
  rwa [h, Real.sqrt_one, one_mul] at hsin

end UnitCircle

/-- To the right of the ordinates an angle is at most a quarter turn. -/
theorem atan2_mem_of_nonneg {x : ℝ} (hx : 0 ≤ x) (y : ℝ) :
    Scalar.atan2 y x ∈ Set.Icc (-(Real.pi / 2)) (Real.pi / 2) :=
  abs_le.mp (Complex.abs_arg_le_pi_div_two_iff.mpr hx)

/-- To the right of the ordinates no angle is half a turn, so the mirrored one is the negative. -/
theorem atan2_neg_left {x : ℝ} (hx : 0 < x) (y : ℝ) :
    Scalar.atan2 (-y) x = -Scalar.atan2 y x := by
  have hne : Complex.arg ⟨x, y⟩ ≠ Real.pi := fun h =>
    (Complex.arg_eq_pi_iff.mp h).1.not_gt hx
  calc Complex.arg ⟨x, -y⟩ = Complex.arg (starRingEnd ℂ ⟨x, y⟩) := rfl
    _ = -Complex.arg ⟨x, y⟩ := by rw [Complex.arg_conj, if_neg hne]

variable {x y : ℝ}

theorem atan2_neg_right_coe (h : x ≠ 0 ∨ y ≠ 0) :
    ((Scalar.atan2 y (-x) : ℝ) : Real.Angle) = Real.pi - (Scalar.atan2 y x : ℝ) := by
  have hconj : starRingEnd ℂ ⟨x, y⟩ ≠ 0 := (map_ne_zero _).mpr (mk_ne_zero h)
  have hpoint : (⟨-x, y⟩ : ℂ) = -starRingEnd ℂ ⟨x, y⟩ := by
    apply Complex.ext <;> simp
  calc ((Complex.arg ⟨-x, y⟩ : ℝ) : Real.Angle)
      = (Complex.arg (starRingEnd ℂ ⟨x, y⟩) : ℝ) + Real.pi := by
        rw [hpoint, Complex.arg_neg_coe_angle hconj]
    _ = Real.pi - (Complex.arg ⟨x, y⟩ : ℝ) := by
        rw [Complex.arg_conj_coe_angle, neg_add_eq_sub]

theorem atan2_turn_coe (h : x ≠ 0 ∨ y ≠ 0) (θ : ℝ) :
    ((Scalar.atan2 (x * Real.sin θ + y * Real.cos θ) (x * Real.cos θ - y * Real.sin θ) : ℝ) :
      Real.Angle) = (Scalar.atan2 y x : ℝ) + θ := by
  have hunit : (⟨Real.cos θ, Real.sin θ⟩ : ℂ) ≠ 0 := by
    refine norm_ne_zero_iff.mp ?_
    rw [norm_mk_of_unit (by linear_combination Real.sin_sq_add_cos_sq θ)]
    exact one_ne_zero
  have hangle : ((Complex.arg ⟨Real.cos θ, Real.sin θ⟩ : ℝ) : Real.Angle) = θ := by
    have hpoint : (⟨Real.cos θ, Real.sin θ⟩ : ℂ) =
        Real.Angle.cos θ + Real.Angle.sin θ * Complex.I := by
      apply Complex.ext <;> simp [Complex.cos_ofReal_re, Complex.sin_ofReal_re]
    rw [hpoint, Complex.arg_cos_add_sin_mul_I_coe_angle]
  have hpoint : (⟨x * Real.cos θ - y * Real.sin θ, x * Real.sin θ + y * Real.cos θ⟩ : ℂ) =
      ⟨x, y⟩ * ⟨Real.cos θ, Real.sin θ⟩ := by
    apply Complex.ext <;> simp
  calc ((Complex.arg ⟨x * Real.cos θ - y * Real.sin θ, x * Real.sin θ + y * Real.cos θ⟩ : ℝ) :
        Real.Angle)
      = (Complex.arg ⟨x, y⟩ : ℝ) + (Complex.arg ⟨Real.cos θ, Real.sin θ⟩ : ℝ) := by
        rw [hpoint, Complex.arg_mul_coe_angle (mk_ne_zero h) hunit]
    _ = (Complex.arg ⟨x, y⟩ : ℝ) + θ := by rw [hangle]

end SatNav
