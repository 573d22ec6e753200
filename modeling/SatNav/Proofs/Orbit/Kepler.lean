import Mathlib

/-!
# The solution of Kepler's equation

For an ellipse the mean anomaly `meanOf e E` grows with the eccentric anomaly `E`, and it
takes every value. `exactAnomaly e` is its inverse, and so the only solution of the
equation `E - e * sin E = M`. Its derivative is the reciprocal of the distance from the
focus.
-/

namespace SatNav.Kepler

open Filter

/-- The mean anomaly of an eccentric anomaly. -/
noncomputable def meanOf (e E : ℝ) : ℝ := E - e * Real.sin E

/-- The eccentric anomaly of a mean anomaly. -/
noncomputable def exactAnomaly (e : ℝ) : ℝ → ℝ := Function.invFun (meanOf e)

theorem hasDerivAt_meanOf (e E : ℝ) : HasDerivAt (meanOf e) (1 - e * Real.cos E) E :=
  (hasDerivAt_id' E).sub ((Real.hasDerivAt_sin E).const_mul e)

theorem continuous_meanOf (e : ℝ) : Continuous (meanOf e) :=
  continuous_iff_continuousAt.mpr fun E => (hasDerivAt_meanOf e E).continuousAt

variable {e : ℝ}

/-- A point of an ellipse is at some distance from the focus. -/
theorem one_sub_mul_cos_pos (h0 : 0 ≤ e) (h1 : e < 1) (E : ℝ) : 0 < 1 - e * Real.cos E := by
  have hcos : e * Real.cos E ≤ e * 1 := mul_le_mul_of_nonneg_left (Real.cos_le_one E) h0
  linarith

theorem strictMono_meanOf (h0 : 0 ≤ e) (h1 : e < 1) : StrictMono (meanOf e) := by
  apply strictMono_of_deriv_pos
  intro E
  rw [(hasDerivAt_meanOf e E).deriv]
  exact one_sub_mul_cos_pos h0 h1 E

theorem abs_meanOf_sub_le (h0 : 0 ≤ e) (E : ℝ) : |meanOf e E - E| ≤ e := by
  have hsin : |e * Real.sin E| ≤ e * 1 := by
    rw [abs_mul, abs_of_nonneg h0]
    exact mul_le_mul_of_nonneg_left (Real.abs_sin_le_one E) h0
  rw [mul_one] at hsin
  rwa [meanOf, sub_sub_cancel_left, abs_neg]

theorem surjective_meanOf (h0 : 0 ≤ e) : Function.Surjective (meanOf e) := by
  apply (continuous_meanOf e).surjective
  · apply tendsto_atTop_mono (fun E => ?_) (tendsto_atTop_add_const_right _ (-e) tendsto_id)
    have := (abs_le.mp (abs_meanOf_sub_le h0 E)).1
    dsimp only [id]
    linarith
  · apply tendsto_atBot_mono (fun E => ?_) (tendsto_atBot_add_const_right _ e tendsto_id)
    have := (abs_le.mp (abs_meanOf_sub_le h0 E)).2
    dsimp only [id]
    linarith

theorem meanOf_exactAnomaly (h0 : 0 ≤ e) (M : ℝ) : meanOf e (exactAnomaly e M) = M :=
  Function.rightInverse_invFun (surjective_meanOf h0) M

/-- Kepler's equation has one solution. -/
theorem meanOf_eq_iff (h0 : 0 ≤ e) (h1 : e < 1) {E M : ℝ} :
    meanOf e E = M ↔ E = exactAnomaly e M := by
  constructor
  · intro h
    apply (strictMono_meanOf h0 h1).injective
    rw [h, meanOf_exactAnomaly h0]
  · rintro rfl
    exact meanOf_exactAnomaly h0 M

theorem continuous_exactAnomaly (h0 : 0 ≤ e) (h1 : e < 1) : Continuous (exactAnomaly e) := by
  let iso := StrictMono.orderIsoOfSurjective (meanOf e) (strictMono_meanOf h0 h1)
    (surjective_meanOf h0)
  have hinverse : exactAnomaly e = iso.symm := by
    funext M
    exact ((meanOf_eq_iff h0 h1).mp (iso.apply_symm_apply M)).symm
  rw [hinverse]
  exact iso.symm.continuous

theorem hasDerivAt_exactAnomaly (h0 : 0 ≤ e) (h1 : e < 1) (M : ℝ) :
    HasDerivAt (exactAnomaly e) (1 - e * Real.cos (exactAnomaly e M))⁻¹ M :=
  HasDerivAt.of_local_left_inverse (continuous_exactAnomaly h0 h1).continuousAt
    (hasDerivAt_meanOf e (exactAnomaly e M)) (one_sub_mul_cos_pos h0 h1 _).ne'
    (Eventually.of_forall (meanOf_exactAnomaly h0))

end SatNav.Kepler
