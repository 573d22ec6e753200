import Mathlib.Analysis.Complex.Norm
import Mathlib.Data.Sign.Basic
import SatNav.Proofs.Exact.Reals
import SatNav.Channel.LoopSpec

/-!
# Loops as they are designed

The two filters of a loop specification belong to one loop. Closed around the analog filter
it has the polynomial `TimeConstants.characteristic`, with the damping and the noise bandwidth
that were asked for; closed around the digital filter it has `FilterGains.characteristic`,
which is the analog polynomial with the bilinear transform in place of the frequency. Both
roots of the digital polynomial lie within the unit circle, however wide the loop.

All of this is in exact arithmetic and is put together in `designs_agree`.
-/

namespace SatNav

open Exact

/-! ### Roots within the unit circle -/

/-- A quadratic that is positive at one and at minus one, and whose roots have a product below one,
has its roots within the unit circle. -/
theorem norm_lt_one_of_quadratic {a b : ℝ} (hb : b < 1) (hplus : 0 < 1 + a + b)
    (hminus : 0 < 1 - a + b) {z : ℂ} (hz : z ^ 2 + a * z + b = 0) : ‖z‖ < 1 := by
  have hre : z.re * z.re - z.im * z.im + a * z.re + b = 0 := by
    simpa [pow_two] using congrArg Complex.re hz
  have him : z.im * (2 * z.re + a) = 0 := by
    have := congrArg Complex.im hz
    simp [pow_two] at this
    linarith
  have hsquare : Complex.normSq z < 1 := by
    rw [Complex.normSq_apply]
    rcases mul_eq_zero.mp him with hreal | hpair
    · -- Beyond an end at which the quadratic is positive there are both real roots or none, and
      -- both would have a product above one.
      rw [hreal] at hre ⊢
      have habove : z.re < 1 := by
        by_contra h
        nlinarith [not_lt.mp h]
      have hbelow : -1 < z.re := by
        by_contra h
        nlinarith [not_lt.mp h]
      nlinarith
    · -- One of a pair of conjugate roots: their product is the square of the distance.
      have ha : a = -2 * z.re := by linarith
      rw [ha] at hre
      linarith
  rw [Complex.norm_def, Real.sqrt_lt' one_pos, one_pow]
  exact hsquare

/-! ### Closed loops -/

/-- The polynomial of the loop that is closed around the analog filter `(1 + tau2 s) / (tau1 s)` and
an integrating oscillator. -/
noncomputable def TimeConstants.characteristic (c : TimeConstants ℝ) (gain : ℝ) (s : ℂ) : ℂ :=
  s ^ 2 + (gain * c.tau2 / c.tau1 : ℝ) * s + (gain / c.tau1 : ℝ)

namespace FilterGains

/-- The transfer function of a digital filter. -/
noncomputable def transfer (g : FilterGains ℝ) (z : ℂ) : ℂ :=
  ((g.proportional + g.integral : ℝ) - (g.proportional : ℝ) * z⁻¹) / (1 - z⁻¹)

/-- The polynomial of the loop that is closed around a digital filter and an accumulating
oscillator, each of which has a pole at one. -/
noncomputable def characteristic (g : FilterGains ℝ) (gain : ℝ) (z : ℂ) : ℂ :=
  (z - 1) ^ 2 + gain * ((g.proportional + g.integral : ℝ) * z - (g.proportional : ℝ))

theorem characteristic_eq_quadratic (g : FilterGains ℝ) (gain : ℝ) (z : ℂ) :
    g.characteristic gain z =
      z ^ 2 + (gain * (g.proportional + g.integral) - 2 : ℝ) * z +
        (1 - gain * g.proportional : ℝ) := by
  rw [characteristic]
  push_cast
  ring

end FilterGains

/-- The transfer function of an oscillator whose phase is the sum of what it was given before. -/
noncomputable def accumulator (z : ℂ) : ℂ := z⁻¹ / (1 - z⁻¹)

/-- The return difference of the digital loop has the characteristic polynomial as its numerator. -/
theorem FilterGains.characteristic_eq_mul (g : FilterGains ℝ) (gain : ℝ) {z : ℂ} (h0 : z ≠ 0)
    (h1 : z ≠ 1) :
    g.characteristic gain z = (z - 1) ^ 2 * (1 + gain * g.transfer z * accumulator z) := by
  have hsub : z - 1 ≠ 0 := sub_ne_zero.mpr h1
  have hinv : 1 - z⁻¹ = (z - 1) / z := by
    field_simp
  rw [characteristic, transfer, accumulator, hinv]
  field_simp

/-! ### Matching gains -/

namespace FilterGains

variable {w damping gain t : ℝ}

/-- What the gains of a digital filter are divided by, but for the gain of the loop. -/
def matchingDenominator (w damping t : ℝ) : ℝ := 4 + 4 * damping * w * t + w * w * t * t

theorem matchingDenominator_pos (hw : 0 < w) (hdamping : 0 < damping) (ht : 0 < t) :
    0 < matchingDenominator w damping t := by
  unfold matchingDenominator
  positivity

theorem matching_real (w damping gain t : ℝ) :
    matching w damping gain t =
      ⟨8 * damping * w * t / (gain * matchingDenominator w damping t),
       4 * w * w * t * t / (gain * matchingDenominator w damping t)⟩ := by
  norm_num [matching, matchingDenominator]

theorem gain_mul_proportional (hgain : gain ≠ 0) :
    gain * (matching w damping gain t).proportional =
      8 * damping * w * t / matchingDenominator w damping t := by
  rw [matching_real, mul_div_assoc', mul_div_mul_left _ _ hgain]

theorem gain_mul_integral (hgain : gain ≠ 0) :
    gain * (matching w damping gain t).integral =
      4 * w * w * t * t / matchingDenominator w damping t := by
  rw [matching_real, mul_div_assoc', mul_div_mul_left _ _ hgain]

/-- The coefficients of the digital polynomial, cleared of the denominator. -/
theorem denominator_mul_coefficients (hw : 0 < w) (hdamping : 0 < damping) (ht : 0 < t)
    (hgain : gain ≠ 0) :
    let g := matching w damping gain t
    matchingDenominator w damping t * (gain * (g.proportional + g.integral) - 2) =
        2 * w * w * t * t - 8 ∧
      matchingDenominator w damping t * (1 - gain * g.proportional) =
        4 - 4 * damping * w * t + w * w * t * t := by
  intro g
  have hdenominator := (matchingDenominator_pos hw hdamping ht).ne'
  rw [mul_add, gain_mul_proportional hgain, gain_mul_integral hgain]
  constructor
  · field_simp
    rw [matchingDenominator]
    ring
  · field_simp
    rw [matchingDenominator]
    ring

/-- The bilinear transform takes the analog loop to the digital one. -/
theorem characteristic_bilinear (hw : 0 < w) (hdamping : 0 < damping) (ht : 0 < t)
    (hgain : gain ≠ 0) {z : ℂ} (hz : z ≠ -1) :
    (z + 1) ^ 2 * TimeConstants.characteristic ⟨gain / (w * w), 2 * damping / w⟩ gain
        (2 / t * ((z - 1) / (z + 1))) =
      (matchingDenominator w damping t / (t * t) : ℝ) *
        (matching w damping gain t).characteristic gain z := by
  have hone : z + 1 ≠ 0 := fun h => hz (eq_neg_of_add_eq_zero_left h)
  have ht' : (t : ℂ) ≠ 0 := Complex.ofReal_ne_zero.mpr ht.ne'
  obtain ⟨hfirst, hlast⟩ := denominator_mul_coefficients hw hdamping ht hgain
  have hslope : gain * (2 * damping / w) / (gain / (w * w)) = 2 * damping * w := by
    field_simp
  have hconstant : gain / (gain / (w * w)) = w * w := by
    field_simp
  have hfirst' := congrArg (fun x : ℝ => (x : ℂ)) hfirst
  have hlast' := congrArg (fun x : ℝ => (x : ℂ)) hlast
  have hdenominator : ((matchingDenominator w damping t : ℝ) : ℂ) =
      4 + 4 * damping * w * t + w * w * t * t := by
    rw [matchingDenominator]
    push_cast
    ring
  rw [TimeConstants.characteristic, characteristic_eq_quadratic]
  dsimp only at hfirst' hlast' ⊢
  rw [hslope, hconstant]
  push_cast at hfirst' hlast' ⊢
  field_simp
  linear_combination -z * hfirst' - hlast' - z ^ 2 * hdenominator

theorem gain_mul_pos (hw : 0 < w) (hdamping : 0 < damping) (ht : 0 < t) (hgain : gain ≠ 0) :
    0 < gain * (matching w damping gain t).proportional ∧
      0 < gain * (matching w damping gain t).integral := by
  have hdenominator := matchingDenominator_pos hw hdamping ht
  rw [gain_mul_proportional hgain, gain_mul_integral hgain]
  constructor <;> positivity

/-- The digital loop is stable, be it as wide as it may. -/
theorem norm_lt_one_of_characteristic (hw : 0 < w) (hdamping : 0 < damping) (ht : 0 < t)
    (hgain : gain ≠ 0) {z : ℂ} (hz : (matching w damping gain t).characteristic gain z = 0) :
    ‖z‖ < 1 := by
  rw [characteristic_eq_quadratic] at hz
  have hdenominator := matchingDenominator_pos hw hdamping ht
  obtain ⟨hproportional, hintegral⟩ := gain_mul_pos hw hdamping ht hgain
  obtain ⟨hfirst, hlast⟩ := denominator_mul_coefficients hw hdamping ht hgain
  have hminus : 0 < matchingDenominator w damping t *
      (1 - (gain * ((matching w damping gain t).proportional +
        (matching w damping gain t).integral) - 2) +
          (1 - gain * (matching w damping gain t).proportional)) := by
    have hends : matchingDenominator w damping t = 4 + 4 * damping * w * t + w * w * t * t := rfl
    linarith
  refine norm_lt_one_of_quadratic ?_ ?_ (pos_of_mul_pos_right hminus hdenominator.le) hz
  · linarith
  · linarith

end FilterGains

namespace LoopSpec

variable {s : LoopSpec ℝ}

/-- The natural frequency of a loop, where there is one. -/
noncomputable def frequency (s : LoopSpec ℝ) : ℝ :=
  s.bandwidth * 8 * s.damping / (4 * s.damping * s.damping + 1)

section Designed

variable (hbandwidth : 0 < s.bandwidth) (hdamping : 0 < s.damping)
include hbandwidth hdamping

theorem frequency_pos : 0 < s.frequency := by
  unfold frequency
  positivity

theorem naturalFrequency_real : s.naturalFrequency = .ok s.frequency := by
  rw [naturalFrequency, zero_real, if_neg (not_not.mpr hbandwidth), if_neg (not_not.mpr hdamping)]
  norm_num [frequency]

theorem analogFilter_real :
    s.analogFilter =
      .ok ⟨s.gain / (s.frequency * s.frequency), 2 * s.damping / s.frequency⟩ := by
  rw [analogFilter, naturalFrequency_real hbandwidth hdamping, two_real]

theorem digitalFilter_real (hgain : s.gain ≠ 0) (hrate : 0 < s.updateRate) :
    s.digitalFilter = .ok (.matching s.frequency s.damping s.gain (1 / s.updateRate)) := by
  have hfinite : ¬ ((s.gain == 0.0) = true ∨ ¬ Scalar.isFinite s.gain = true) := by
    rw [zero_real]
    simp [BEq.beq, hgain]
  rw [digitalFilter, if_neg hfinite, zero_real, if_neg (not_not.mpr hrate),
    naturalFrequency_real hbandwidth hdamping, one_real]

/-- The frequency is the root of the constant coefficient of the analog loop. -/
theorem eq_frequency_of_sq (hgain : s.gain ≠ 0) {w : ℝ} (hw : 0 < w)
    (h : w ^ 2 = s.gain / (s.gain / (s.frequency * s.frequency))) : w = s.frequency := by
  rw [div_div_cancel₀ hgain, ← pow_two] at h
  exact (pow_left_inj₀ hw.le (frequency_pos hbandwidth hdamping).le two_ne_zero).mp h

theorem frequency_mul_tau_half : s.frequency * (2 * s.damping / s.frequency) / 2 = s.damping := by
  have hfrequency := (frequency_pos hbandwidth hdamping).ne'
  field_simp

/-- The noise bandwidth of a loop with this frequency is the one that was asked for. -/
theorem frequency_mul_bandwidth_factor :
    s.frequency * (4 * s.damping ^ 2 + 1) / (8 * s.damping) = s.bandwidth := by
  unfold frequency
  field_simp

end Designed

/-- Only a loop with positive parameters is given a digital filter. -/
theorem pos_of_digitalFilter {g : FilterGains ℝ} (h : s.digitalFilter = .ok g) :
    0 < s.bandwidth ∧ 0 < s.damping ∧ s.gain ≠ 0 ∧ 0 < s.updateRate := by
  obtain ⟨⟨hzero, -⟩, hrate, w, hw, -⟩ := digitalFilter_eq_ok_iff.mp h
  obtain ⟨hbandwidth, hdamping, -⟩ := naturalFrequency_eq_ok_iff.mp hw
  rw [zero_real] at hzero hrate hbandwidth hdamping
  refine ⟨hbandwidth, hdamping, ?_, hrate⟩
  rintro hgain
  simp [BEq.beq, hgain] at hzero

theorem sign_eq_of_mul_pos {a b : ℝ} (h : 0 < a * b) : SignType.sign b = SignType.sign a := by
  rcases pos_and_pos_or_neg_and_neg_of_mul_pos h with ⟨ha, hb⟩ | ⟨ha, hb⟩
  · rw [sign_pos ha, sign_pos hb]
  · rw [sign_neg ha, sign_neg hb]

/-- A loop with a positive noise bandwidth, damping and update rate, and with some gain, has both of
its filters. The polynomial of the loop around the digital one is, but for a factor, that of the
loop around the analog one with the bilinear transform for the frequency. The analog loop has the
damping and the noise bandwidth of the specification, the digital loop is stable, and its gains have
the sign of the gain of the loop. -/
theorem designs_agree (hbandwidth : 0 < s.bandwidth) (hdamping : 0 < s.damping)
    (hgain : s.gain ≠ 0) (hrate : 0 < s.updateRate) :
    ∃ (c : TimeConstants ℝ) (g : FilterGains ℝ),
      s.analogFilter = .ok c ∧ s.digitalFilter = .ok g ∧
      (∀ z : ℂ, g.characteristic s.gain z =
        z ^ 2 + (s.gain * (g.proportional + g.integral) - 2 : ℝ) * z +
          (1 - s.gain * g.proportional : ℝ)) ∧
      (∀ z : ℂ, z ≠ 0 → z ≠ 1 →
        g.characteristic s.gain z =
          (z - 1) ^ 2 * (1 + s.gain * g.transfer z * accumulator z)) ∧
      (∃ r : ℝ, 0 < r ∧ ∀ z : ℂ, z ≠ -1 →
        (z + 1) ^ 2 * c.characteristic s.gain
            (2 / (1 / s.updateRate : ℝ) * ((z - 1) / (z + 1))) =
          r * g.characteristic s.gain z) ∧
      (0 < s.gain / c.tau1 ∧ ∀ w : ℝ, 0 < w → w ^ 2 = s.gain / c.tau1 →
        w * c.tau2 / 2 = s.damping ∧
          w * (4 * s.damping ^ 2 + 1) / (8 * s.damping) = s.bandwidth) ∧
      (∀ z : ℂ, g.characteristic s.gain z = 0 → ‖z‖ < 1) ∧
      SignType.sign g.proportional = SignType.sign s.gain ∧
        SignType.sign g.integral = SignType.sign s.gain := by
  have hfrequency := frequency_pos hbandwidth hdamping
  have ht : 0 < 1 / s.updateRate := one_div_pos.mpr hrate
  have hdenominator := FilterGains.matchingDenominator_pos hfrequency hdamping ht
  obtain ⟨hproportional, hintegral⟩ := FilterGains.gain_mul_pos hfrequency hdamping ht hgain
  refine ⟨_, _, analogFilter_real hbandwidth hdamping,
    digitalFilter_real hbandwidth hdamping hgain hrate,
    FilterGains.characteristic_eq_quadratic _ s.gain, ?_, ?_, ?_, ?_, ?_, ?_⟩
  · intro z h0 h1
    exact FilterGains.characteristic_eq_mul _ s.gain h0 h1
  · exact ⟨_, div_pos hdenominator (mul_pos ht ht), fun z hz =>
      FilterGains.characteristic_bilinear hfrequency hdamping ht hgain hz⟩
  · refine ⟨?_, ?_⟩
    · rw [div_div_cancel₀ hgain]
      exact mul_pos hfrequency hfrequency
    · intro w hw hsquare
      obtain rfl := eq_frequency_of_sq hbandwidth hdamping hgain hw hsquare
      exact ⟨frequency_mul_tau_half hbandwidth hdamping,
        frequency_mul_bandwidth_factor hbandwidth hdamping⟩
  · intro z hz
    exact FilterGains.norm_lt_one_of_characteristic hfrequency hdamping ht hgain hz
  · exact sign_eq_of_mul_pos hproportional
  · exact sign_eq_of_mul_pos hintegral

/-- A loop of negative gain that is much wider than its update rate. -/
theorem designs_agree_wide :
    let s : LoopSpec ℝ := ⟨1000, 1 / 2, -2, 1⟩
    0 < s.bandwidth ∧ 0 < s.damping ∧ s.gain ≠ 0 ∧ 0 < s.updateRate ∧
      ∃ g : FilterGains ℝ, s.digitalFilter = .ok g ∧ g.proportional < 0 ∧ g.integral < 0 ∧
        ∀ z : ℂ, g.characteristic s.gain z = 0 → ‖z‖ < 1 := by
  intro s
  have hbandwidth : 0 < s.bandwidth := by norm_num [s]
  have hdamping : 0 < s.damping := by norm_num [s]
  have hgain : s.gain ≠ 0 := by norm_num [s]
  have hrate : 0 < s.updateRate := by norm_num [s]
  have hnegative : SignType.sign s.gain = -1 := sign_neg (by norm_num [s])
  obtain ⟨c, g, -, hdigital, -, -, -, -, hstable, hproportional, hintegral⟩ :=
    designs_agree hbandwidth hdamping hgain hrate
  rw [hnegative] at hproportional hintegral
  exact ⟨hbandwidth, hdamping, hgain, hrate, g, hdigital, sign_eq_neg_one_iff.mp hproportional,
    sign_eq_neg_one_iff.mp hintegral, hstable⟩

end LoopSpec

end SatNav
