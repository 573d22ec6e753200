import Mathlib
import SatNav.Channel.LoopError
import SatNav.Proofs.Channel.Averages

/-!
# Where the lock detector and the discriminator agree

The lock detector looks at the sum of a run, and its value is the cosine of twice the angle that the
discriminator reads off that sum. So both have their lock point where the sum lies in quadrature. A
carrier that is off by the same angle in every prompt shows this angle to both, whatever the
amplitudes and the data bits are.
-/

namespace SatNav

section Definitions

variable {R : Type} [Scalar R]

namespace Correlation

/-- The sum of a run. -/
def total (prompts : List (Correlation R)) : Correlation R :=
  ⟨sumOver inPhase prompts, sumOver quadrature prompts⟩

/-- What a carrier that is off by the angle `θ` gives at amplitude `a`. The sign of the amplitude is
the data bit. -/
def signal (θ a : R) : Correlation R := ⟨a * Scalar.sin θ, a * Scalar.cos θ⟩

end Correlation

end Definitions

open Exact

namespace Correlation

theorem phaseError_real (c : Correlation ℝ) :
    c.phaseError = Real.arctan (c.inPhase / c.quadrature) / (2 * Real.pi) := by
  rw [phaseError, costasError, two_real]
  rfl

theorem phaseError_eq_zero_iff {c : Correlation ℝ} (hq : c.quadrature ≠ 0) :
    c.phaseError = 0 ↔ c.inPhase = 0 := by
  rw [phaseError_real, div_eq_zero_iff, or_iff_left Real.two_pi_pos.ne', Real.arctan_eq_zero_iff,
    div_eq_zero_iff, or_iff_left hq]

/-- Twice the angle of the discriminator. -/
theorem cos_phaseError {c : Correlation ℝ} (hq : c.quadrature ≠ 0) :
    Real.cos (4 * Real.pi * c.phaseError) =
      (c.quadrature ^ 2 - c.inPhase ^ 2) / (c.quadrature ^ 2 + c.inPhase ^ 2) := by
  have hangle : 4 * Real.pi * c.phaseError = 2 * Real.arctan (c.inPhase / c.quadrature) := by
    rw [phaseError_real]
    field_simp
    ring
  have hsum : c.quadrature ^ 2 + c.inPhase ^ 2 ≠ 0 := by positivity
  rw [hangle, Real.cos_two_mul, Real.cos_sq_arctan]
  field_simp
  ring

theorem signal_real (θ a : ℝ) : signal θ a = ⟨a * Real.sin θ, a * Real.cos θ⟩ := rfl

/-- The discriminator reads the angle of a signal, with either data bit. -/
theorem phaseError_signal {θ a : ℝ} (hθ : |θ| < Real.pi / 2) (ha : a ≠ 0) :
    (signal θ a).phaseError = θ / (2 * Real.pi) := by
  obtain ⟨hlower, hupper⟩ := abs_lt.mp hθ
  rw [phaseError_real, signal_real, mul_div_mul_left _ _ ha, ← Real.tan_eq_sin_div_cos,
    Real.arctan_tan hlower hupper]

theorem total_map_signal (θ : ℝ) (amplitudes : List ℝ) :
    total (amplitudes.map (signal θ)) = signal θ amplitudes.sum := by
  have hsum (x : ℝ) : (amplitudes.map fun a => a * x).sum = amplitudes.sum * x :=
    (List.sum_map_mul_right ..).trans (by rw [List.map_id'])
  rw [total, sumOver_real, sumOver_real, List.map_map, List.map_map, signal_real, ← hsum, ← hsum]
  rfl

end Correlation

theorem carrierLock_real (prompts : List (Correlation ℝ)) :
    carrierLock prompts =
      ((Correlation.total prompts).quadrature ^ 2 - (Correlation.total prompts).inPhase ^ 2) /
        ((Correlation.total prompts).quadrature ^ 2 + (Correlation.total prompts).inPhase ^ 2) := by
  rw [sq, sq]
  rfl

theorem carrierLock_eq_one_iff {prompts : List (Correlation ℝ)}
    (hq : (Correlation.total prompts).quadrature ≠ 0) :
    carrierLock prompts = 1 ↔ (Correlation.total prompts).inPhase = 0 := by
  generalize hc : Correlation.total prompts = c at hq
  have hsum : c.quadrature ^ 2 + c.inPhase ^ 2 ≠ 0 := by positivity
  rw [carrierLock_real, hc, div_eq_one_iff_eq hsum]
  constructor
  · intro h
    have hsquare : c.inPhase ^ 2 = 0 := by linarith
    exact sq_eq_zero_iff.mp hsquare
  · intro h
    rw [h]
    ring

theorem carrierLock_map_signal (θ : ℝ) {amplitudes : List ℝ} (h : amplitudes.sum ≠ 0) :
    carrierLock (amplitudes.map (.signal θ)) = Real.cos (2 * θ) := by
  have hcircle := Real.sin_sq_add_cos_sq θ
  rw [carrierLock_real, Correlation.total_map_signal, Correlation.signal_real, Real.cos_two_mul',
    mul_pow, mul_pow, ← mul_sub, ← mul_add, mul_div_mul_left _ _ (pow_ne_zero 2 h),
    add_comm (Real.cos θ ^ 2), hcircle, div_one]

/-- The lock of a run whose sum is not all in phase is the cosine of twice the angle that the
discriminator finds in the sum. It lies between minus one and one and is one just if that angle is
zero. Signals that are all off by an angle, with any amplitudes and data bits that do not cancel,
have the cosine of twice that angle as their lock, and the discriminator finds the angle in each of
them. -/
theorem shared_lock_point :
    (∀ prompts : List (Correlation ℝ), (Correlation.total prompts).quadrature ≠ 0 →
      carrierLock prompts = Real.cos (4 * Real.pi * (Correlation.total prompts).phaseError) ∧
      carrierLock prompts ∈ Set.Icc (-1) 1 ∧
      (carrierLock prompts = 1 ↔ (Correlation.total prompts).phaseError = 0)) ∧
    (∀ (θ : ℝ) (amplitudes : List ℝ), amplitudes.sum ≠ 0 →
      carrierLock (amplitudes.map (.signal θ)) = Real.cos (2 * θ)) ∧
    ∀ θ : ℝ, |θ| < Real.pi / 2 → ∀ a, a ≠ 0 →
      (Correlation.signal θ a).phaseError = θ / (2 * Real.pi) := by
  refine ⟨fun prompts hq => ?_, fun θ amplitudes => carrierLock_map_signal θ,
    fun θ hθ a => Correlation.phaseError_signal hθ⟩
  have hcos : carrierLock prompts =
      Real.cos (4 * Real.pi * (Correlation.total prompts).phaseError) := by
    rw [carrierLock_real, Correlation.cos_phaseError hq]
  refine ⟨hcos, ?_, ?_⟩
  · rw [hcos]
    exact Real.cos_mem_Icc _
  · rw [carrierLock_eq_one_iff hq, Correlation.phaseError_eq_zero_iff hq]

/-- A carrier that is an eighth of a turn off, with one data bit of three turned around. -/
theorem shared_lock_point_eighth :
    let prompts : List (Correlation ℝ) := [3, -1, 2].map (.signal (Real.pi / 4))
    (Correlation.total prompts).quadrature ≠ 0 ∧ carrierLock prompts = 0 ∧
      Real.cos (4 * Real.pi * (Correlation.total prompts).phaseError) = 0 ∧
      ∀ c ∈ prompts, c.phaseError = 1 / 8 := by
  intro prompts
  obtain ⟨htotal, hlock, herror⟩ := shared_lock_point
  have hsum : ([3, -1, 2] : List ℝ).sum = 4 := by norm_num
  have hquadrature : (Correlation.total prompts).quadrature ≠ 0 := by
    rw [Correlation.total_map_signal, hsum, Correlation.signal_real, Real.cos_pi_div_four]
    positivity
  have hzero : carrierLock prompts = 0 := by
    rw [hlock (Real.pi / 4) [3, -1, 2] (by norm_num [hsum]), ← Real.cos_pi_div_two]
    ring_nf
  have hangle : |Real.pi / 4| < Real.pi / 2 := by
    rw [abs_of_pos (by positivity)]
    linarith [Real.pi_pos]
  refine ⟨hquadrature, hzero, (htotal prompts hquadrature).1 ▸ hzero, fun c hc => ?_⟩
  obtain ⟨a, ha, rfl⟩ := List.mem_map.mp hc
  have hne : a ≠ 0 := by
    rintro rfl
    norm_num at ha
  rw [herror _ hangle a hne]
  field_simp
  norm_num

end SatNav
