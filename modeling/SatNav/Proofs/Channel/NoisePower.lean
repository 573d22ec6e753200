import SatNav.Proofs.Channel.Averages

/-!
# The noise in the carrier to noise density

What the mean power of a run exceeds the power of its signal by is the mean square in phase and the
variance of the amplitude in quadrature. So it is never negative, and a run has the same estimate in
any order, with any data bits and on any scale.
-/

namespace SatNav

section Powers

variable {R : Type} [Scalar R]

/-- The square of the mean amplitude in quadrature. -/
def signalPower (prompts : List (Correlation R)) : R :=
  Scalar.square (meanOver (fun c => Scalar.abs c.quadrature) prompts)

/-- The mean power. -/
def totalPower (prompts : List (Correlation R)) : R := meanOver Correlation.power prompts

/-- What the mean power exceeds that of the signal by. -/
def noisePower (prompts : List (Correlation R)) : R := totalPower prompts - signalPower prompts

/-- What the estimate takes the logarithm of. -/
def signalToNoise (prompts : List (Correlation R)) : R := signalPower prompts / noisePower prompts

theorem carrierToNoise_eq (prompts : List (Correlation R)) (time : R) :
    carrierToNoise prompts time =
      10.0 * Scalar.log10 (signalToNoise prompts) - 10.0 * Scalar.log10 time := rfl

namespace Correlation

/-- The correlation with the other sign of a data bit. -/
def opposite (c : Correlation R) : Correlation R := ⟨-c.inPhase, -c.quadrature⟩

def scaled (a : R) (c : Correlation R) : Correlation R := ⟨a * c.inPhase, a * c.quadrature⟩

end Correlation

/-- Data bits turn some correlations of a run around. -/
def SameUpToBits : List (Correlation R) → List (Correlation R) → Prop :=
  List.Forall₂ fun c d => d = c ∨ d = c.opposite

end Powers

open Exact

/-- Another run has noise, the same ratio of signal and noise and the same estimates. -/
structure SameEstimate (prompts others : List (Correlation ℝ)) : Prop where
  noise_pos : 0 < noisePower others
  ratio : signalToNoise others = signalToNoise prompts
  estimate : ∀ time, carrierToNoise others time = carrierToNoise prompts time

variable {prompts others : List (Correlation ℝ)}

namespace Correlation

theorem power_real (c : Correlation ℝ) : c.power = c.inPhase ^ 2 + |c.quadrature| ^ 2 := by
  rw [sq_abs, sq, sq]
  rfl

theorem power_opposite (c : Correlation ℝ) : c.opposite.power = c.power := by
  rw [power_real, power_real, opposite, neg_sq, abs_neg]

theorem power_scaled (a : ℝ) (c : Correlation ℝ) : (c.scaled a).power = a ^ 2 * c.power := by
  rw [power_real, power_real, scaled, abs_mul, mul_pow, mul_pow, sq_abs a]
  ring

end Correlation

theorem signalPower_real (prompts : List (Correlation ℝ)) :
    signalPower prompts = meanOver (fun c => |c.quadrature|) prompts ^ 2 :=
  (sq _).symm

theorem signalPower_nonneg (prompts : List (Correlation ℝ)) : 0 ≤ signalPower prompts := by
  rw [signalPower_real]
  exact sq_nonneg _

/-! ### The noise is a variance -/

theorem noisePower_eq (h : prompts ≠ []) :
    noisePower prompts = meanOver (fun c => c.inPhase ^ 2) prompts +
      varianceOver (fun c => |c.quadrature|) prompts := by
  have hpower : totalPower prompts = meanOver (fun c => c.inPhase ^ 2) prompts +
      meanOver (fun c => |c.quadrature| ^ 2) prompts := by
    rw [← meanOver_add]
    exact meanOver_congr fun c _ => c.power_real
  rw [noisePower, hpower, varianceOver_eq _ h, signalPower_real, add_sub_assoc]

theorem noisePower_nonneg (h : prompts ≠ []) : 0 ≤ noisePower prompts := by
  rw [noisePower_eq h]
  exact add_nonneg (meanOver_nonneg fun _ _ => sq_nonneg _) (varianceOver_nonneg _ _)

theorem noisePower_eq_zero_iff (h : prompts ≠ []) :
    noisePower prompts = 0 ↔ (∀ c ∈ prompts, c.inPhase = 0) ∧
      ∀ c ∈ prompts, ∀ d ∈ prompts, |c.quadrature| = |d.quadrature| := by
  have hsquares : ∀ c ∈ prompts, 0 ≤ c.inPhase ^ 2 := fun _ _ => sq_nonneg _
  rw [noisePower_eq h, add_eq_zero_iff_of_nonneg (meanOver_nonneg hsquares)
    (varianceOver_nonneg _ _), meanOver_eq_zero_iff h hsquares, varianceOver_eq_zero_iff _ h]
  simp only [sq_eq_zero_iff]

/-! ### Runs with the same estimate -/

/-- A common factor of both mean powers does not change the estimate. -/
theorem SameEstimate.of_powers {b : ℝ} (hb : 0 < b) (hnoise : 0 < noisePower prompts)
    (hsignal : signalPower others = b * signalPower prompts)
    (htotal : totalPower others = b * totalPower prompts) :
    SameEstimate prompts others := by
  have hscaled : noisePower others = b * noisePower prompts := by
    rw [noisePower, htotal, hsignal, ← mul_sub]
    rfl
  have hratio : signalToNoise others = signalToNoise prompts := by
    rw [signalToNoise, hsignal, hscaled, mul_div_mul_left _ _ hb.ne']
    rfl
  refine ⟨?_, hratio, fun time => ?_⟩
  · rw [hscaled]
    exact mul_pos hb hnoise
  · rw [carrierToNoise_eq, carrierToNoise_eq, hratio]

theorem SameEstimate.of_perm (hnoise : 0 < noisePower prompts) (h : prompts.Perm others) :
    SameEstimate prompts others := by
  refine .of_powers one_pos hnoise ?_ ?_
  · rw [one_mul, signalPower_real, signalPower_real, meanOver_perm _ h]
  · rw [one_mul, totalPower, totalPower, meanOver_perm _ h]

/-- A mean does not see data bits if what it is the mean of does not. -/
theorem SameUpToBits.meanOver {f : Correlation ℝ → ℝ} (hf : ∀ c : Correlation ℝ, f c.opposite = f c)
    (h : SameUpToBits prompts others) : meanOver f others = SatNav.meanOver f prompts := by
  have hmap : others.map f = prompts.map f := by
    induction h with
    | nil => rfl
    | cons hd _ ih =>
      rw [List.map_cons, List.map_cons, ih]
      rcases hd with rfl | rfl
      · rfl
      · rw [hf]
  rw [meanOver_real, meanOver_real, hmap, ← List.length_map f, hmap, List.length_map]

theorem SameEstimate.of_sameUpToBits (hnoise : 0 < noisePower prompts)
    (h : SameUpToBits prompts others) : SameEstimate prompts others := by
  refine .of_powers one_pos hnoise ?_ ?_
  · rw [one_mul, signalPower_real, signalPower_real, h.meanOver fun c => abs_neg c.quadrature]
  · rw [one_mul, totalPower, totalPower, h.meanOver Correlation.power_opposite]

theorem SameEstimate.of_scaled {a : ℝ} (ha : a ≠ 0) (hnoise : 0 < noisePower prompts) :
    SameEstimate prompts (prompts.map (.scaled a)) := by
  refine .of_powers (sq_pos_of_ne_zero ha) hnoise ?_ ?_
  · have hamplitude (c : Correlation ℝ) : |(c.scaled a).quadrature| = |a| * |c.quadrature| :=
      abs_mul _ _
    rw [signalPower_real, signalPower_real, meanOver_map]
    simp only [hamplitude]
    rw [meanOver_mul_left, mul_pow, sq_abs]
  · rw [totalPower, totalPower, meanOver_map]
    simp only [Correlation.power_scaled]
    rw [meanOver_mul_left]

/-- The noise of a run that is not empty is the mean square in phase and the variance of the
amplitude in quadrature, so it is zero just if nothing is in phase and all amplitudes are equal. If
there is noise, then the estimate is a logarithm of a quotient that is defined and not negative. It
is the same in any order, with any data bits and on any scale. -/
theorem noisePower_laws (h : prompts ≠ []) :
    noisePower prompts = meanOver (fun c => c.inPhase ^ 2) prompts +
        varianceOver (fun c => |c.quadrature|) prompts ∧
    0 ≤ noisePower prompts ∧
    (noisePower prompts = 0 ↔ (∀ c ∈ prompts, c.inPhase = 0) ∧
      ∀ c ∈ prompts, ∀ d ∈ prompts, |c.quadrature| = |d.quadrature|) ∧
    (∀ time, carrierToNoise prompts time =
      10 * Real.logb 10 (signalToNoise prompts) - 10 * Real.logb 10 time) ∧
    (0 < noisePower prompts →
      (0 ≤ signalToNoise prompts ∧
        signalToNoise prompts * noisePower prompts = signalPower prompts) ∧
      (∀ others, prompts.Perm others → SameEstimate prompts others) ∧
      (∀ others, SameUpToBits prompts others → SameEstimate prompts others) ∧
      ∀ a, a ≠ 0 → SameEstimate prompts (prompts.map (.scaled a))) := by
  refine ⟨noisePower_eq h, noisePower_nonneg h, noisePower_eq_zero_iff h, fun time => ?_,
    fun hnoise => ⟨⟨?_, ?_⟩, fun others => .of_perm hnoise, fun others => .of_sameUpToBits hnoise,
      fun a ha => .of_scaled ha hnoise⟩⟩
  · have hten : (10.0 : ℝ) = 10 := by norm_num
    rw [carrierToNoise_eq, hten]
    rfl
  · exact div_nonneg (signalPower_nonneg prompts) hnoise.le
  · exact div_mul_cancel₀ _ hnoise.ne'

/-- Two prompts with opposite data bits. -/
theorem noisePower_laws_two :
    let prompts : List (Correlation ℝ) := [⟨1, 2⟩, ⟨-1, -4⟩]
    prompts ≠ [] ∧ noisePower prompts = 2 ∧ SameEstimate prompts [⟨-1, -4⟩, ⟨1, 2⟩] ∧
      SameEstimate prompts [⟨1, 2⟩, ⟨1, 4⟩] ∧ SameEstimate prompts [⟨-3, -6⟩, ⟨3, 12⟩] := by
  intro prompts
  have hprompts : prompts ≠ [] := List.cons_ne_nil _ _
  obtain ⟨hnoise, -, -, -, hsame⟩ := noisePower_laws hprompts
  have htwo : noisePower prompts = 2 := by
    rw [hnoise, varianceOver_eq _ hprompts, meanOver_real, meanOver_real, meanOver_real]
    norm_num [prompts]
  have hpos : 0 < noisePower prompts := htwo ▸ two_pos
  obtain ⟨-, hperm, hbits, hscale⟩ := hsame hpos
  refine ⟨hprompts, htwo, hperm _ (.swap _ _ _), hbits _ ?_, ?_⟩
  · refine .cons (.inl rfl) (.cons (.inr ?_) .nil)
    norm_num [Correlation.opposite]
  · have hscaled := hscale (-3) (by norm_num)
    norm_num [prompts, Correlation.scaled] at hscaled
    exact hscaled

end SatNav
