import Mathlib.Analysis.Complex.Polynomial.Basic
import Mathlib.Analysis.SpecificLimits.Normed
import SatNav.Proofs.Channel.LoopDesign

/-!
# A loop in operation

`LoopRun` is a digital filter that drives an accumulating oscillator, update after update.
Its phase error obeys a recurrence with the coefficients of the loop's characteristic
polynomial, forced by the second difference of the phase that it follows. Since a designed
loop has the roots of this polynomial within the unit circle, it follows every signal of
constant frequency: from whatever it starts with, the phase error tends to zero.
-/

namespace SatNav

open Exact Filter Topology

/-! ### Recurrences with small roots -/

/-- A sequence that is damped by `α` and forced by what decays as fast is bounded by a decay with a
linear factor. -/
theorem norm_le_of_damped {x : ℕ → ℂ} {α : ℂ} {r C : ℝ} (hr : 0 < r) (hα : ‖α‖ ≤ r)
    (h : ∀ n, ‖x (n + 1) - α * x n‖ ≤ r ^ n * C) (n : ℕ) :
    ‖x n‖ ≤ r ^ n * (‖x 0‖ + n * (C / r)) := by
  induction n with
  | zero => simp
  | succ n ih =>
    calc ‖x (n + 1)‖ = ‖α * x n + (x (n + 1) - α * x n)‖ := by rw [add_sub_cancel]
      _ ≤ ‖α‖ * ‖x n‖ + ‖x (n + 1) - α * x n‖ := (norm_add_le _ _).trans_eq (by rw [norm_mul])
      _ ≤ r * (r ^ n * (‖x 0‖ + n * (C / r))) + r ^ n * C :=
          add_le_add (mul_le_mul hα ih (norm_nonneg _) hr.le) (h n)
      _ = r ^ (n + 1) * (‖x 0‖ + (n + 1 : ℕ) * (C / r)) := by
          field_simp
          push_cast
          ring

/-- The solutions of a recurrence tend to zero when the roots of its polynomial lie within the unit
circle. -/
theorem tendsto_zero_of_recurrence {a b : ℝ}
    (hroots : ∀ z : ℂ, z ^ 2 + a * z + b = 0 → ‖z‖ < 1) {e : ℕ → ℝ}
    (he : ∀ n, e (n + 2) + a * e (n + 1) + b * e n = 0) : Tendsto e atTop (𝓝 0) := by
  obtain ⟨α, hα⟩ : ∃ α : ℂ, 1 * (α * α) + a * α + b = 0 :=
    exists_quadratic_eq_zero one_ne_zero (IsAlgClosed.exists_eq_mul_self _)
  -- The other root, from the sum of both.
  set β : ℂ := -a - α with hβ
  have hα' : ‖α‖ < 1 := hroots α (by linear_combination hα)
  have hβ' : ‖β‖ < 1 := hroots β (by rw [hβ]; linear_combination hα)
  obtain ⟨r, hr, hr1⟩ := exists_between (max_lt hα' hβ')
  obtain ⟨hαr, hβr⟩ := max_lt_iff.mp hr
  have hr0 : 0 < r := (norm_nonneg α).trans_lt hαr
  -- One root taken off, what is left is geometric with the other.
  let u : ℕ → ℂ := fun n => e (n + 1) - α * e n
  have hu : ∀ n, u (n + 1) - β * u n = 0 := by
    intro n
    have hn : (e (n + 2) : ℂ) + a * e (n + 1) + b * e n = 0 := by exact_mod_cast he n
    simp only [u, hβ]
    linear_combination hn - (e n : ℂ) * hα
  have hgeometric : ∀ n, ‖u n‖ ≤ r ^ n * ‖u 0‖ := by
    intro n
    have := norm_le_of_damped hr0 hβr.le (x := u) (C := 0) (fun n => by rw [hu]; simp) n
    simpa using this
  have hbound := norm_le_of_damped hr0 hαr.le (x := fun n => (e n : ℂ)) hgeometric
  refine squeeze_zero_norm (fun n => ?_) (?_ : Tendsto
    (fun n : ℕ => r ^ n * ‖(e 0 : ℂ)‖ + n * r ^ n * (‖u 0‖ / r)) atTop (𝓝 0))
  · rw [← Complex.norm_real]
    exact (hbound n).trans_eq (by ring)
  · have hpow := (tendsto_pow_atTop_nhds_zero_of_lt_one hr0.le hr1).mul_const ‖(e 0 : ℂ)‖
    have hlinear := (tendsto_self_mul_const_pow_of_lt_one hr0.le hr1).mul_const (‖u 0‖ / r)
    simpa using hpow.add hlinear

/-! ### Runs -/

/-- A loop in operation on an input phase. At each update the filter adds to its output what its
gains make of the phase error and of the one before, and the oscillator adds to its phase what the
filter gave at the update before. -/
structure LoopRun (g : FilterGains ℝ) (gain : ℝ) (input : ℕ → ℝ) where
  output : ℕ → ℝ
  phase : ℕ → ℝ
  output_succ : ∀ n, output (n + 1) = output n +
    (g.proportional + g.integral) * (input (n + 1) - phase (n + 1)) -
      g.proportional * (input n - phase n)
  phase_succ : ∀ n, phase (n + 1) = phase n + gain * output n

namespace LoopRun

variable {g : FilterGains ℝ} {gain : ℝ} {input : ℕ → ℝ}

/-- What the oscillator is behind its input. -/
def error (r : LoopRun g gain input) (n : ℕ) : ℝ := input n - r.phase n

/-- The phase error obeys the recurrence of the characteristic polynomial. -/
theorem error_recurrence (r : LoopRun g gain input) (n : ℕ) :
    r.error (n + 2) + (gain * (g.proportional + g.integral) - 2) * r.error (n + 1) +
        (1 - gain * g.proportional) * r.error n =
      input (n + 2) - 2 * input (n + 1) + input n := by
  have hphase := r.phase_succ (n + 1)
  have hphase' := r.phase_succ n
  have houtput := r.output_succ n
  simp only [error]
  linear_combination -hphase + hphase' - gain * houtput

/-- A loop with a designed filter follows a signal of constant frequency. -/
theorem tendsto_error {s : LoopSpec ℝ} (hdesign : s.digitalFilter = .ok g)
    (hinput : ∀ n, input (n + 2) - input (n + 1) = input (n + 1) - input n)
    (r : LoopRun g s.gain input) : Tendsto r.error atTop (𝓝 0) := by
  have hfree : ∀ n, r.error (n + 2) +
      (s.gain * (g.proportional + g.integral) - 2) * r.error (n + 1) +
        (1 - s.gain * g.proportional) * r.error n = 0 := by
    intro n
    rw [r.error_recurrence]
    linarith [hinput n]
  obtain ⟨hbandwidth, hdamping, hgain, hrate⟩ := LoopSpec.pos_of_digitalFilter hdesign
  rw [LoopSpec.digitalFilter_real hbandwidth hdamping hgain hrate, Except.ok.injEq] at hdesign
  subst hdesign
  refine tendsto_zero_of_recurrence (fun z hz => ?_) hfree
  rw [← FilterGains.characteristic_eq_quadratic] at hz
  exact FilterGains.norm_lt_one_of_characteristic (LoopSpec.frequency_pos hbandwidth hdamping)
    hdamping (one_div_pos.mpr hrate) hgain hz

end LoopRun

end SatNav
