import SatNav.Proofs.Orbit.Kepler
import SatNav.Orbit.Broadcast
import SatNav.Proofs.Exact.Reals

/-!
# Ten Newton steps

On an ellipse of eccentricity at most one half the slope of the mean anomaly `meanOf e` is
at least one half, whatever the eccentric anomaly. A Newton step then squares what is left
of Kepler's equation, and the first guess leaves at most one half.

`newton_steps_converge` is the bound for every number of steps. The anomaly for which the
state of a satellite is evaluated is therefore that of `exactAnomaly` up to `2 ^ -1023`,
which is `exists_stateOf_near_exactAnomaly`.
-/

namespace SatNav.Kepler

open Exact

/-- A chord of the sine differs from the tangent by at most half the square of its width. -/
theorem abs_sin_add_sub_tangent_le (x h : ℝ) :
    |Real.sin (x + h) - Real.sin x - h * Real.cos x| ≤ h ^ 2 / 2 := by
  -- To the right of `x`; the left is the right of `-x`.
  have hright : ∀ x h : ℝ, 0 ≤ h →
      |Real.sin (x + h) - Real.sin x - h * Real.cos x| ≤ h ^ 2 / 2 := by
    intro x h hh
    have hchord : ∀ t, HasDerivAt (fun t => Real.sin (x + t) - Real.sin x - t * Real.cos x)
        (Real.cos (x + t) - Real.cos x) t := by
      intro t
      have hsin := ((Real.hasDerivAt_sin (x + t)).comp_const_add x t).sub_const (Real.sin x)
      simpa using hsin.fun_sub ((hasDerivAt_id t).mul_const (Real.cos x))
    have hbound : ∀ t, HasDerivAt (fun t : ℝ => t ^ 2 / 2) t t := by
      intro t
      simpa using (hasDerivAt_pow 2 t).div_const 2
    have hslope : ∀ t ∈ Set.Ico 0 h, ‖Real.cos (x + t) - Real.cos x‖ ≤ t := by
      intro t ht
      have := Real.abs_cos_sub_cos_le (x + t) x
      rwa [add_sub_cancel_left, abs_of_nonneg ht.1] at this
    refine image_norm_le_of_norm_deriv_right_le_deriv_boundary
      (fun t _ => (hchord t).continuousAt.continuousWithinAt)
      (fun t _ => (hchord t).hasDerivWithinAt) ?_ hbound hslope (Set.right_mem_Icc.mpr hh)
    simp
  rcases le_total 0 h with hh | hh
  · exact hright x h hh
  · have hleft := hright (-x) (-h) (neg_nonneg.mpr hh)
    rw [← neg_add, Real.sin_neg, Real.sin_neg, Real.cos_neg, neg_sq] at hleft
    rw [← abs_neg]
    refine le_of_eq_of_le (congrArg _ ?_) hleft
    ring

/-! ### One step -/

theorem newtonStep_real (e M E : ℝ) :
    newtonStep e M E = E - (meanOf e E - M) / (1 - e * Real.cos E) := by
  rw [newtonStep, one_real]
  rfl

/-- A Newton step cancels what is linear in it, and leaves that of which the sine differs from its
tangent. -/
theorem meanOf_newtonStep_sub {e E : ℝ} (hslope : 1 - e * Real.cos E ≠ 0) (M : ℝ) :
    let h := -((meanOf e E - M) / (1 - e * Real.cos E))
    meanOf e (newtonStep e M E) - M =
      -e * (Real.sin (E + h) - Real.sin E - h * Real.cos E) := by
  intro h
  have hcancel : h * (1 - e * Real.cos E) = -(meanOf e E - M) := by
    rw [neg_mul, div_mul_cancel₀ _ hslope]
  have hstep : newtonStep e M E = E + h := by
    rw [newtonStep_real, sub_eq_add_neg]
  rw [hstep]
  unfold meanOf at hcancel ⊢
  linear_combination hcancel

variable {e : ℝ} (h0 : 0 ≤ e) (hhalf : e ≤ 1 / 2)
include h0 hhalf

theorem half_le_slope (E : ℝ) : 1 / 2 ≤ 1 - e * Real.cos E := by
  have hcos : e * Real.cos E ≤ e * 1 := mul_le_mul_of_nonneg_left (Real.cos_le_one E) h0
  linarith

theorem abs_residual_newtonStep_le (M E : ℝ) :
    |meanOf e (newtonStep e M E) - M| ≤ (meanOf e E - M) ^ 2 := by
  have hslope := half_le_slope h0 hhalf E
  set r := meanOf e E - M
  set d := 1 - e * Real.cos E
  have hd : 0 < d := by linarith
  have hd2 : 1 / 4 ≤ d ^ 2 := by nlinarith
  calc |meanOf e (newtonStep e M E) - M|
      = e * |Real.sin (E + -(r / d)) - Real.sin E - -(r / d) * Real.cos E| := by
        rw [meanOf_newtonStep_sub hd.ne' M, abs_mul, abs_neg, abs_of_nonneg h0]
    _ ≤ 1 / 2 * ((-(r / d)) ^ 2 / 2) :=
        mul_le_mul hhalf (abs_sin_add_sub_tangent_le _ _) (abs_nonneg _) (by norm_num)
    _ = 1 / 4 * r ^ 2 / d ^ 2 := by rw [neg_sq, div_pow]; ring
    _ ≤ r ^ 2 := by
        rw [div_le_iff₀ (pow_pos hd 2), mul_comm]
        exact mul_le_mul_of_nonneg_left hd2 (sq_nonneg r)

/-! ### All steps -/

/-- The step squares what is left, so the exponent doubles. -/
theorem abs_residual_iterate_le (M : ℝ) (n : ℕ) :
    |meanOf e (iterate e M n) - M| ≤ (1 / 2) ^ 2 ^ n := by
  induction n with
  | zero =>
    rw [iterate_zero, pow_zero, pow_one]
    exact (abs_meanOf_sub_le h0 M).trans hhalf
  | succ n ih =>
    calc |meanOf e (iterate e M (n + 1)) - M|
        ≤ (meanOf e (iterate e M n) - M) ^ 2 := abs_residual_newtonStep_le h0 hhalf M _
      _ = |meanOf e (iterate e M n) - M| ^ 2 := (sq_abs _).symm
      _ ≤ ((1 / 2) ^ 2 ^ n) ^ 2 := pow_le_pow_left₀ (abs_nonneg _) ih 2
      _ = (1 / 2) ^ 2 ^ (n + 1) := by rw [← pow_mul, ← pow_succ]

theorem abs_residual_eccentricAnomaly_le (M : ℝ) :
    |meanOf e (eccentricAnomaly e M) - M| ≤ (1 / 2) ^ 1024 :=
  abs_residual_iterate_le h0 hhalf M newtonSteps

/-- On an ellipse of eccentricity at most one half no Newton step divides by less than one half, and
what `n` steps leave of Kepler's equation is at most `2 ^ -(2 ^ n)`. The ten steps that are taken
leave at most `2 ^ -1024`. -/
theorem newton_steps_converge (M : ℝ) :
    (∀ n, 1 / 2 ≤ 1 - e * Real.cos (iterate e M n) ∧
      |iterate e M n - e * Real.sin (iterate e M n) - M| ≤ (1 / 2) ^ 2 ^ n) ∧
      |eccentricAnomaly e M - e * Real.sin (eccentricAnomaly e M) - M| ≤ (1 / 2) ^ 1024 :=
  ⟨fun n => ⟨half_le_slope h0 hhalf _, abs_residual_iterate_le h0 hhalf M n⟩,
    abs_residual_eccentricAnomaly_le h0 hhalf M⟩

omit h0 hhalf in
/-- A quarter of a turn after the perigee of the flattest of these ellipses. -/
theorem newton_steps_converge_half :
    (0 : ℝ) ≤ 1 / 2 ∧ (1 / 2 : ℝ) ≤ 1 / 2 ∧
      |eccentricAnomaly (1 / 2) (Real.pi / 2) -
        1 / 2 * Real.sin (eccentricAnomaly (1 / 2) (Real.pi / 2)) - Real.pi / 2| ≤
          (1 / 2) ^ 1024 := by
  have h0 : (0 : ℝ) ≤ 1 / 2 := by norm_num
  exact ⟨h0, le_rfl, (newton_steps_converge h0 le_rfl (Real.pi / 2)).2⟩

/-! ### The exact anomaly -/

/-- Where the mean anomalies are close the eccentric ones are. -/
theorem abs_sub_le_two_mul_abs_meanOf_sub (E F : ℝ) :
    |E - F| ≤ 2 * |meanOf e E - meanOf e F| := by
  have hsin : |e * (Real.sin E - Real.sin F)| ≤ 1 / 2 * |E - F| := by
    rw [abs_mul, abs_of_nonneg h0]
    exact mul_le_mul hhalf (Real.abs_sin_sub_sin_le E F) (abs_nonneg _) (by norm_num)
  have hsplit : E - F = meanOf e E - meanOf e F + e * (Real.sin E - Real.sin F) := by
    unfold meanOf
    ring
  have htriangle := abs_add_le (meanOf e E - meanOf e F) (e * (Real.sin E - Real.sin F))
  rw [← hsplit] at htriangle
  linarith

theorem abs_eccentricAnomaly_sub_exactAnomaly_le (M : ℝ) :
    |eccentricAnomaly e M - exactAnomaly e M| ≤ (1 / 2) ^ 1023 := by
  have hdouble (n : ℕ) : 2 * (1 / 2 : ℝ) ^ (n + 1) = (1 / 2) ^ n := by
    rw [pow_succ]
    ring
  calc |eccentricAnomaly e M - exactAnomaly e M|
      ≤ 2 * |meanOf e (eccentricAnomaly e M) - meanOf e (exactAnomaly e M)| :=
        abs_sub_le_two_mul_abs_meanOf_sub h0 hhalf _ _
    _ = 2 * |meanOf e (eccentricAnomaly e M) - M| := by rw [meanOf_exactAnomaly h0]
    _ ≤ 2 * (1 / 2) ^ 1024 :=
        mul_le_mul_of_nonneg_left (abs_residual_eccentricAnomaly_le h0 hhalf M) zero_le_two
    _ = (1 / 2) ^ 1023 := hdouble 1023

end SatNav.Kepler

namespace SatNav.BroadcastEphemeris

open Exact

/-- The state of a satellite is evaluated for an eccentric anomaly next to the exact one. -/
theorem exists_stateOf_near_exactAnomaly (eph : BroadcastEphemeris ℝ)
    (h0 : 0 ≤ eph.eccentricity) (hhalf : eph.eccentricity ≤ 1 / 2) (t : ℝ) :
    ∃ E, eph.state t = eph.stateOf E t ∧
      |E - Kepler.exactAnomaly eph.eccentricity (eph.meanAnomalyAt t)| ≤ (1 / 2) ^ 1023 :=
  ⟨_, rfl, Kepler.abs_eccentricAnomaly_sub_exactAnomaly_le h0 hhalf _⟩

end SatNav.BroadcastEphemeris
