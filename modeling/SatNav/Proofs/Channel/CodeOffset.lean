import SatNav.Proofs.Channel.ExactBlock
import SatNav.Proofs.Channel.NoisePower
import SatNav.Channel.LoopError

/-!
# The code offset of a block

In exact arithmetic the code offset is the difference of the early and the late magnitude in
proportion to their sum, and nothing else in the arms has a part in it: neither the prompt arm nor
the phase of any arm nor a common scale. No quotient by zero is looked at, as
`codeOffsetWith_eq` says with a division that is arbitrary there.

A carrier that starts ahead by an angle turns all arms of a block by this angle,
`nextBlock_turn`, so the code offset of a block does not depend on where the carrier starts.
-/

namespace SatNav

open Exact

namespace Correlation

/-- The correlation with a carrier that is ahead by an angle: quadrature and in-phase sum, as
abscissa and ordinate, are turned by it. -/
noncomputable def turn (θ : ℝ) (c : Correlation ℝ) : Correlation ℝ :=
  ⟨c.inPhase * Real.cos θ + c.quadrature * Real.sin θ,
   c.quadrature * Real.cos θ - c.inPhase * Real.sin θ⟩

variable (c : Correlation ℝ)

theorem power_nonneg : 0 ≤ c.power := by
  rw [power_real]
  positivity

theorem power_eq_zero_iff : c.power = 0 ↔ c = .zero := by
  rw [power_real, add_eq_zero_iff_of_nonneg (sq_nonneg _) (sq_nonneg _), sq_eq_zero_iff,
    sq_eq_zero_iff, abs_eq_zero, zero, zero_real, Correlation.mk.injEq]

theorem power_turn (θ : ℝ) : (c.turn θ).power = c.power := by
  simp only [power, turn]
  linear_combination (c.inPhase ^ 2 + c.quadrature ^ 2) * Real.sin_sq_add_cos_sq θ

theorem magnitude_real : c.magnitude = √c.power := rfl

theorem magnitude_nonneg : 0 ≤ c.magnitude := Real.sqrt_nonneg _

theorem magnitude_eq_zero_iff : c.magnitude = 0 ↔ c = .zero := by
  rw [magnitude_real, Real.sqrt_eq_zero c.power_nonneg, power_eq_zero_iff]

theorem magnitude_turn (θ : ℝ) : (c.turn θ).magnitude = c.magnitude := by
  rw [magnitude_real, magnitude_real, power_turn]

theorem magnitude_scaled {a : ℝ} (ha : 0 ≤ a) : (c.scaled a).magnitude = a * c.magnitude := by
  rw [magnitude_real, magnitude_real, power_scaled, Real.sqrt_mul (sq_nonneg a), Real.sqrt_sq ha]

/-- A carrier that is ahead by an angle throughout turns the sums by it. -/
theorem direct_turn (sample chip phase : ℕ → ℝ) (θ : ℝ) (a b : ℕ) :
    direct sample chip (fun j => phase j + θ) a b = (direct sample chip phase a b).turn θ := by
  rw [direct, direct, turn, Finset.sum_mul, Finset.sum_mul, Finset.sum_mul, Finset.sum_mul,
    ← Finset.sum_add_distrib, ← Finset.sum_sub_distrib]
  congr 1
  · refine Finset.sum_congr rfl fun j _ => ?_
    rw [Real.sin_add]
    ring
  · refine Finset.sum_congr rfl fun j _ => ?_
    rw [Real.cos_add]
    ring

end Correlation

/-! ### The quotient -/

namespace Arms

/-- The code offset where `f` is the division. -/
noncomputable def codeOffsetWith (f : ℝ → ℝ → ℝ) (arms : Arms ℝ) : ℝ :=
  @codeOffset ℝ { (inferInstance : Scalar ℝ) with div := f } arms

variable (arms : Arms ℝ)

theorem codeOffsetWith_real (f : ℝ → ℝ → ℝ) :
    arms.codeOffsetWith f = if arms.early.magnitude + arms.late.magnitude = 0 then 0
      else f (arms.early.magnitude - arms.late.magnitude)
        (arms.early.magnitude + arms.late.magnitude) := by
  rw [← zero_real]
  exact if_congr decide_eq_true_iff rfl rfl

/-- A real number divided by zero is zero, so the case of two arms without a signal needs no
mention. -/
theorem codeOffset_real :
    arms.codeOffset = (arms.early.magnitude - arms.late.magnitude) /
      (arms.early.magnitude + arms.late.magnitude) := by
  refine (arms.codeOffsetWith_real (· / ·)).trans ?_
  split
  case isTrue h => rw [h, div_zero]
  case isFalse => rfl

/-- What a quotient by zero is has no part in the code offset. -/
theorem codeOffsetWith_eq {f : ℝ → ℝ → ℝ} (hf : ∀ x y, y ≠ 0 → f x y = x / y) :
    arms.codeOffsetWith f = arms.codeOffset := by
  rw [codeOffsetWith_real, codeOffset_real]
  split
  case isTrue h => rw [h, div_zero]
  case isFalse h => exact hf _ _ h

theorem magnitudes_nonneg : 0 ≤ arms.early.magnitude + arms.late.magnitude :=
  add_nonneg arms.early.magnitude_nonneg arms.late.magnitude_nonneg

theorem magnitudes_eq_zero_iff :
    arms.early.magnitude + arms.late.magnitude = 0 ↔
      arms.early.magnitude = 0 ∧ arms.late.magnitude = 0 :=
  add_eq_zero_iff_of_nonneg arms.early.magnitude_nonneg arms.late.magnitude_nonneg

theorem codeOffset_mul_magnitudes :
    arms.codeOffset * (arms.early.magnitude + arms.late.magnitude) =
      arms.early.magnitude - arms.late.magnitude := by
  rw [codeOffset_real]
  refine div_mul_cancel_of_imp fun h => ?_
  obtain ⟨hearly, hlate⟩ := arms.magnitudes_eq_zero_iff.mp h
  rw [hearly, hlate, sub_zero]

theorem codeOffset_swap :
    (⟨arms.late, arms.prompt, arms.early⟩ : Arms ℝ).codeOffset = -arms.codeOffset := by
  rw [codeOffset_real, codeOffset_real, ← neg_div, neg_sub, add_comm]

/-- Only the proportion of the two magnitudes matters. -/
theorem codeOffset_congr {arms others : Arms ℝ} {a : ℝ} (ha : 0 < a)
    (hearly : others.early.magnitude = a * arms.early.magnitude)
    (hlate : others.late.magnitude = a * arms.late.magnitude) :
    others.codeOffset = arms.codeOffset := by
  rw [codeOffset_real, codeOffset_real, hearly, hlate, ← mul_sub, ← mul_add,
    mul_div_mul_left _ _ ha.ne']

theorem codeOffset_turn (prompt : Correlation ℝ) (α β : ℝ) :
    (⟨arms.early.turn α, prompt, arms.late.turn β⟩ : Arms ℝ).codeOffset = arms.codeOffset :=
  codeOffset_congr one_pos
    ((arms.early.magnitude_turn α).trans (one_mul _).symm)
    ((arms.late.magnitude_turn β).trans (one_mul _).symm)

theorem codeOffset_le_one : arms.codeOffset ≤ 1 := by
  rw [codeOffset_real]
  refine div_le_one_of_le₀ ?_ arms.magnitudes_nonneg
  linarith [arms.late.magnitude_nonneg]

theorem neg_one_le_codeOffset : -1 ≤ arms.codeOffset := by
  have hswap := codeOffset_le_one ⟨arms.late, arms.prompt, arms.early⟩
  rw [codeOffset_swap] at hswap
  linarith

theorem codeOffset_eq_zero_iff :
    arms.codeOffset = 0 ↔ arms.early.magnitude = arms.late.magnitude := by
  rw [← sub_eq_zero (a := arms.early.magnitude), ← codeOffset_mul_magnitudes, mul_eq_zero]
  refine ⟨.inl, fun h => h.elim id fun hzero => ?_⟩
  rw [codeOffset_real, hzero, div_zero]

theorem codeOffset_eq_one_iff :
    arms.codeOffset = 1 ↔ arms.late = .zero ∧ arms.early ≠ .zero := by
  rw [Ne, ← Correlation.magnitude_eq_zero_iff, ← Correlation.magnitude_eq_zero_iff]
  have hproduct := arms.codeOffset_mul_magnitudes
  constructor
  · intro hone
    rw [hone, one_mul] at hproduct
    have hlate : arms.late.magnitude = 0 := by linarith
    -- without a signal in either arm the offset would be zero
    refine ⟨hlate, fun hearly => ?_⟩
    have hzero : arms.codeOffset = 0 := arms.codeOffset_eq_zero_iff.mpr (hearly.trans hlate.symm)
    exact zero_ne_one (hzero.symm.trans hone)
  · rintro ⟨hlate, hearly⟩
    rw [hlate, add_zero, sub_zero] at hproduct
    exact (mul_eq_right₀ hearly).mp hproduct

theorem codeOffset_eq_neg_one_iff :
    arms.codeOffset = -1 ↔ arms.early = .zero ∧ arms.late ≠ .zero := by
  have hswap := codeOffset_eq_one_iff ⟨arms.late, arms.prompt, arms.early⟩
  rw [codeOffset_swap, neg_eq_iff_eq_neg] at hswap
  exact hswap

end Arms

/-! ### The carrier of a block -/

variable {replica : Replica} {steps : Steps ℝ} {phases after : Phases ℝ} {samples : List Int8}
  {block : Block ℝ}

/-- Whether there is a block has nothing to do with where the carrier starts. -/
theorem Admitted.of_carrier {available n : ℕ} (h : Admitted replica steps phases available n)
    (f : ℝ) : Admitted replica steps ⟨phases.code, f⟩ available n := by
  have hreal := admitted_real_iff.mp h
  exact admitted_real_iff.mpr hreal

/-- A carrier that starts ahead by an angle turns all arms of a block by it. -/
theorem nextBlock_turn (h : nextBlock replica steps phases samples = .ok (block, after)) (θ : ℝ) :
    ∃ block' after',
      nextBlock replica steps ⟨phases.code, phases.carrier + θ⟩ samples = .ok (block', after') ∧
      (∀ arm, block'.arms.get arm = (block.arms.get arm).turn θ) ∧
      block'.sampleCount = block.sampleCount ∧ after'.code = after.code := by
  obtain ⟨n, hadmitted, rfl, rfl⟩ := (nextBlock_eq_ok_iff ..).mp h
  refine ⟨_, _, (nextBlock_eq_ok_iff ..).mpr ⟨n, hadmitted.of_carrier _, rfl, rfl⟩, fun arm => ?_,
    rfl, rfl⟩
  rw [get_arms_ofSamples _ _ _ hadmitted.le_available,
    get_arms_ofSamples _ _ _ hadmitted.le_available, ← Correlation.direct_turn]
  simp only [add_right_comm phases.carrier θ]

/-- The code offset is the difference of the early and the late magnitude in proportion to their
sum, and never a quotient by zero. It lies between -1 and 1, is zero just if the two are equal, and
one, or minus one, just if the late arm alone, or the early one, is zero. Exchanged arms change its
sign. The prompt arm, a common scale and the phases of early and late make no difference. If a
block is there, then it is there with a carrier that starts ahead by any angle, which turns all of
its arms and leaves the code offset as it is. -/
theorem codeOffset_laws :
    (∀ arms : Arms ℝ,
      (∀ f : ℝ → ℝ → ℝ, (∀ x y, y ≠ 0 → f x y = x / y) →
        arms.codeOffsetWith f = arms.codeOffset) ∧
      arms.codeOffset * (arms.early.magnitude + arms.late.magnitude) =
        arms.early.magnitude - arms.late.magnitude ∧
      arms.codeOffset ∈ Set.Icc (-1) 1 ∧
      (arms.codeOffset = 0 ↔ arms.early.magnitude = arms.late.magnitude) ∧
      (arms.codeOffset = 1 ↔ arms.late = .zero ∧ arms.early ≠ .zero) ∧
      (arms.codeOffset = -1 ↔ arms.early = .zero ∧ arms.late ≠ .zero) ∧
      (⟨arms.late, arms.prompt, arms.early⟩ : Arms ℝ).codeOffset = -arms.codeOffset ∧
      (∀ prompt, (⟨arms.early, prompt, arms.late⟩ : Arms ℝ).codeOffset = arms.codeOffset) ∧
      (∀ a : ℝ, 0 < a →
        (⟨arms.early.scaled a, arms.prompt, arms.late.scaled a⟩ : Arms ℝ).codeOffset =
          arms.codeOffset) ∧
      ∀ α β, (⟨arms.early.turn α, arms.prompt, arms.late.turn β⟩ : Arms ℝ).codeOffset =
        arms.codeOffset) ∧
    ∀ (replica : Replica) (steps : Steps ℝ) (phases after : Phases ℝ) (samples : List Int8)
      (block : Block ℝ), nextBlock replica steps phases samples = .ok (block, after) →
      ∀ θ, ∃ block' after',
        nextBlock replica steps ⟨phases.code, phases.carrier + θ⟩ samples = .ok (block', after') ∧
        (∀ arm, block'.arms.get arm = (block.arms.get arm).turn θ) ∧
        block'.sampleCount = block.sampleCount ∧ after'.code = after.code ∧
        block'.arms.codeOffset = block.arms.codeOffset := by
  constructor
  · intro arms
    refine ⟨fun f hf => arms.codeOffsetWith_eq hf, arms.codeOffset_mul_magnitudes,
      ⟨arms.neg_one_le_codeOffset, arms.codeOffset_le_one⟩, arms.codeOffset_eq_zero_iff,
      arms.codeOffset_eq_one_iff, arms.codeOffset_eq_neg_one_iff, arms.codeOffset_swap,
      fun _ => rfl, fun a ha => ?_, arms.codeOffset_turn arms.prompt⟩
    exact Arms.codeOffset_congr ha (arms.early.magnitude_scaled ha.le)
      (arms.late.magnitude_scaled ha.le)
  · intro replica steps phases after samples block h θ
    obtain ⟨block', after', h', harms, hcount, hafter⟩ := nextBlock_turn h θ
    have hearly : block'.arms.early = block.arms.early.turn θ := harms .early
    have hlate : block'.arms.late = block.arms.late.turn θ := harms .late
    refine ⟨block', after', h', harms, hcount, hafter, ?_⟩
    have hturn := block.arms.codeOffset_turn block'.arms.prompt θ θ
    rw [← hearly, ← hlate] at hturn
    exact hturn

/-- A sample against a replica of which the early arm reads a two and the late arm a one. With the
carrier a twelfth of a turn ahead, part of the early arm is in phase. -/
theorem codeOffset_laws_one_sample :
    let replica : Replica := #[2, 1]
    ∃ block after block' after',
      nextBlock replica ⟨2000, 1⟩ (⟨0, 0⟩ : Phases ℝ) [3] = .ok (block, after) ∧
      block.arms.codeOffset = 1 / 3 ∧
      block.arms.codeOffsetWith (fun x y => if y = 0 then 5 else x / y) = 1 / 3 ∧
      (⟨block.arms.early.scaled 7, block.arms.prompt, block.arms.late.scaled 7⟩ :
        Arms ℝ).codeOffset = 1 / 3 ∧
      nextBlock replica ⟨2000, 1⟩ (⟨0, 0 + Real.pi / 6⟩ : Phases ℝ) [3] = .ok (block', after') ∧
      block'.arms.early = ⟨3, 3 * √3⟩ ∧ block'.arms.codeOffset = 1 / 3 := by
  intro replica
  have hlength : ⌈(1023 - 0 : ℝ) / 2000⌉₊ = 1 := by
    rw [Nat.ceil_eq_iff one_ne_zero]
    norm_num
  have hlast : ⌈(0 : ℝ) + (1 - 1 : ℕ) * 2000 + 1 / 2⌉ = 1 := by
    rw [Int.ceil_eq_iff]
    norm_num
  have hsize : replica.size = 2 := rfl
  have hadmitted : Admitted replica ⟨2000, 1⟩ (⟨0, 0⟩ : Phases ℝ) ([3] : List Int8).length 1 :=
    admitted_real_iff.mpr ⟨by norm_num, hlength.symm, by decide, by decide, by norm_num, by
      rw [hlast, hsize]
      norm_num⟩
  have hblock := (nextBlock_eq_ok_iff replica ⟨2000, 1⟩ ⟨0, 0⟩ [3] _ _).mpr
    ⟨1, hadmitted, rfl, rfl⟩
  obtain ⟨hlaws, hcarrier⟩ := codeOffset_laws
  obtain ⟨block', after', hblock', harms', -, -, hoffset'⟩ :=
    hcarrier _ _ _ _ _ _ hblock (Real.pi / 6)
  generalize hfirst : Block.ofSamples replica ⟨2000, 1⟩ (⟨0, 0⟩ : Phases ℝ) 1 [3] = block
    at hblock harms' hoffset'
  -- the carrier is in quadrature at the only sample
  have harms (arm : Arm) : block.arms.get arm = ⟨0, 3 * replica.chipAt arm.offset⟩ := by
    have hthree : (3 : Int8).toInt = 3 := rfl
    have hone : 1 ≤ ([3] : List Int8).length := le_rfl
    rw [← hfirst, get_arms_ofSamples _ _ _ hone, Correlation.direct]
    simp [hthree]
  have hearly : block.arms.early = ⟨0, 6⟩ := by
    have hindex : ⌈(Arm.early.offset : ℝ)⌉ = 0 := by
      rw [Arm.offset, Int.ceil_eq_iff]
      norm_num
    have hchip : (replica.getD (0 : ℤ).toNat 0).toInt = 2 := rfl
    refine (harms .early).trans ?_
    rw [Replica.chipAt_real _ (by rw [hindex]; decide), hindex, hchip]
    norm_num
  have hlate : block.arms.late = ⟨0, 3⟩ := by
    have hindex : ⌈(Arm.late.offset : ℝ)⌉ = 1 := by
      rw [Arm.offset, Int.ceil_eq_iff]
      norm_num
    have hchip : (replica.getD (1 : ℤ).toNat 0).toInt = 1 := rfl
    refine (harms .late).trans ?_
    rw [Replica.chipAt_real _ (by rw [hindex]; decide), hindex, hchip]
    norm_num
  have hmagnitude (q : ℝ) (hq : 0 ≤ q) : (⟨0, q⟩ : Correlation ℝ).magnitude = q := by
    rw [Correlation.magnitude_real, Correlation.power, mul_zero, zero_add, Real.sqrt_mul_self hq]
  have hoffset : block.arms.codeOffset = 1 / 3 := by
    rw [Arms.codeOffset_real, hearly, hlate, hmagnitude 6 (by norm_num), hmagnitude 3 (by norm_num)]
    norm_num
  obtain ⟨hdivision, -, -, -, -, -, -, -, hscaled, -⟩ := hlaws block.arms
  refine ⟨block, _, block', after', hblock, hoffset,
    (hdivision _ fun x y hy => if_neg hy).trans hoffset, (hscaled 7 (by norm_num)).trans hoffset,
    hblock', ?_, hoffset'.trans hoffset⟩
  refine (harms' .early).trans ?_
  rw [Arms.get, hearly, Correlation.turn, Real.sin_pi_div_six, Real.cos_pi_div_six]
  congr 1 <;> ring

end SatNav
