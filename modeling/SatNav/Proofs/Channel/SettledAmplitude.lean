import Mathlib.Analysis.SpecificLimits.Basic
import SatNav.Proofs.Channel.Amplitude

/-!
# The settled amplitude

An oscillator that is turned by a pair off the unit circle does not keep its magnitude, but neither
does it wander within the bounds of `Oscillator.power_after_mem_Icc`. There is one magnitude,
`Oscillator.settled`, that the turn and the correction after it leave as it is. Where the powers of
the oscillator and of the turn are off by up to a fifth, each sample takes away two fifths of the
distance to it, which is `abs_magnitude_after_sub_settled_le`. So the start is forgotten, and with
an exact turn what remains is the unit circle.
-/

namespace SatNav

namespace Oscillator

/-- Length of the oscillator as a vector of the plane. -/
noncomputable def magnitude (o : Oscillator ℝ) : ℝ := √o.power

/-- The magnitude that a turn and the correction after it leave as it is. -/
noncomputable def settled (turn : Oscillator ℝ) : ℝ :=
  √((3.0 - 2.0 / turn.magnitude) / turn.power)

open Exact Filter Topology

variable {o turn : Oscillator ℝ}

theorem power_nonneg (o : Oscillator ℝ) : 0 ≤ o.power :=
  add_nonneg (sq_nonneg _) (sq_nonneg _)

theorem magnitude_nonneg (o : Oscillator ℝ) : 0 ≤ o.magnitude := Real.sqrt_nonneg _

theorem magnitude_sq (o : Oscillator ℝ) : o.magnitude ^ 2 = o.power := Real.sq_sqrt o.power_nonneg

theorem magnitude_advance (h : o.power * turn.power ≤ 3) :
    (o.advance turn).magnitude =
      o.magnitude * turn.magnitude * ((3 - o.power * turn.power) / 2) := by
  have hfactor : 0 ≤ (3 - o.power * turn.power) / 2 := by linarith
  rw [magnitude, advance, power_renormalize, correction_real, power_rotate,
    Real.sqrt_mul (mul_nonneg o.power_nonneg turn.power_nonneg), Real.sqrt_mul o.power_nonneg,
    Real.sqrt_sq hfactor, magnitude, magnitude]

theorem settled_eq (turn : Oscillator ℝ) :
    turn.settled = √((3 - 2 / turn.magnitude) / turn.power) := by
  norm_num [settled]

theorem power_ofPhase (x : ℝ) : (ofPhase x).power = 1 := Real.sin_sq_add_cos_sq x

theorem settled_ofPhase (d : ℝ) : (ofPhase d).settled = 1 := by
  rw [settled_eq, magnitude, power_ofPhase, Real.sqrt_one]
  norm_num

/-! ### The settled magnitude -/

section Settling

variable (hturn : |turn.power - 1| ≤ 1 / 5)
include hturn

theorem magnitude_mem_of_power : turn.magnitude ∈ Set.Icc (89 / 100) (11 / 10) := by
  obtain ⟨hlow, hhigh⟩ := abs_le.mp hturn
  constructor
  · exact Real.le_sqrt_of_sq_le (by linarith)
  · exact Real.sqrt_le_iff.mpr ⟨by norm_num, by linarith⟩

theorem settled_sq_mul : turn.settled ^ 2 * turn.power = 3 - 2 / turn.magnitude := by
  obtain ⟨hlow, hhigh⟩ := magnitude_mem_of_power hturn
  have ht : 0 < turn.magnitude := by linarith
  have hpower : 0 < turn.power := by linarith [(abs_le.mp hturn).1]
  have htwo : 2 / turn.magnitude ≤ 3 := by
    rw [div_le_iff₀ ht]
    linarith
  rw [settled_eq, Real.sq_sqrt (div_nonneg (sub_nonneg.mpr htwo) hpower.le),
    div_mul_cancel₀ _ hpower.ne']

theorem settled_fixed :
    turn.settled * turn.magnitude * ((3 - turn.settled ^ 2 * turn.power) / 2) = turn.settled := by
  have ht : turn.magnitude ≠ 0 := by linarith [(magnitude_mem_of_power hturn).1]
  rw [settled_sq_mul hturn]
  field_simp
  ring

theorem settled_sq_mem : turn.settled ^ 2 ∈ Set.Icc (4 / 5) 1 := by
  obtain ⟨hlow, hhigh⟩ := magnitude_mem_of_power hturn
  have hsq := turn.magnitude_sq
  set t := turn.magnitude
  have ht : 0 < t := by linarith
  have hsettled := settled_sq_mul hturn
  rw [← hsq] at hsettled
  have hcube : turn.settled ^ 2 * t ^ 3 = 3 * t - 2 := by
    calc turn.settled ^ 2 * t ^ 3 = turn.settled ^ 2 * t ^ 2 * t := by ring
      _ = 3 * t - 2 := by rw [hsettled, sub_mul, div_mul_cancel₀ _ ht.ne']
  -- Below, `t ^ 3` is compared with its chord. Above, `t ^ 3 - 3 * t + 2` has a double root at one.
  constructor
  · have hsquare : 0 ≤ (t - 89 / 100) * (11 / 10 - t) :=
      mul_nonneg (sub_nonneg.mpr hlow) (sub_nonneg.mpr hhigh)
    rw [← mul_le_mul_iff_left₀ (pow_pos ht 3), hcube]
    linarith [mul_nonneg hsquare ht.le]
  · rw [← mul_le_mul_iff_left₀ (pow_pos ht 3), hcube]
    nlinarith [mul_nonneg (sq_nonneg (t - 1)) (by linarith : 0 ≤ t + 2)]

/-! ### One sample -/

/-- The distance to the settled magnitude is only multiplied, as nothing changes there. -/
theorem magnitude_advance_sub_settled (h : o.power * turn.power ≤ 3) :
    (o.advance turn).magnitude - turn.settled =
      turn.magnitude *
        ((3 - (o.power + o.magnitude * turn.settled + turn.settled ^ 2) * turn.power) / 2) *
          (o.magnitude - turn.settled) := by
  have hfixed := settled_fixed hturn
  rw [magnitude_advance h, ← o.magnitude_sq]
  linear_combination hfixed

variable (ho : |o.power - 1| ≤ 1 / 5)
include ho

theorem magnitude_mul_settled_mem : o.magnitude * turn.settled ∈ Set.Icc (4 / 5) (11 / 10) := by
  obtain ⟨hlow, hhigh⟩ := abs_le.mp ho
  obtain ⟨hq, hq'⟩ := settled_sq_mem hturn
  rw [neg_le_sub_iff_le_add, ← o.magnitude_sq] at hlow
  rw [← o.magnitude_sq] at hhigh
  constructor
  · refine le_of_sq_le_sq ?_ (mul_nonneg o.magnitude_nonneg (Real.sqrt_nonneg _))
    rw [mul_pow]
    nlinarith
  · linarith [two_mul_le_add_sq o.magnitude turn.settled]

/-- A sample takes the magnitude closer to the settled one, by at least two fifths of the distance. -/
theorem abs_magnitude_advance_sub_settled_le :
    |(o.advance turn).magnitude - turn.settled| ≤ 3 / 5 * |o.magnitude - turn.settled| := by
  obtain ⟨ht, ht'⟩ := magnitude_mem_of_power hturn
  obtain ⟨hw, hw'⟩ := abs_le.mp hturn
  obtain ⟨hu, hu'⟩ := abs_le.mp ho
  obtain ⟨hq, hq'⟩ := settled_sq_mem hturn
  obtain ⟨hm, hm'⟩ := magnitude_mul_settled_mem hturn ho
  have hproduct : o.power * turn.power ≤ 3 := by nlinarith
  rw [magnitude_advance_sub_settled hturn hproduct, abs_mul]
  refine mul_le_mul_of_nonneg_right ?_ (abs_nonneg _)
  have hsum : 12 / 5 ≤ o.power + o.magnitude * turn.settled + turn.settled ^ 2 := by linarith
  have hsum' : o.power + o.magnitude * turn.settled + turn.settled ^ 2 ≤ 33 / 10 := by linarith
  set sum := o.power + o.magnitude * turn.settled + turn.settled ^ 2
  have hlow : 12 / 5 * (4 / 5) ≤ sum * turn.power :=
    mul_le_mul hsum (by linarith) (by norm_num) (by linarith)
  have hhigh : sum * turn.power ≤ 33 / 10 * (6 / 5) :=
    mul_le_mul hsum' (by linarith) (by linarith) (by norm_num)
  have hfactor : |(3 - sum * turn.power) / 2| ≤ 27 / 50 := by
    rw [abs_le]
    constructor <;> linarith
  calc |turn.magnitude * ((3 - sum * turn.power) / 2)|
      = turn.magnitude * |(3 - sum * turn.power) / 2| := by
        rw [abs_mul, abs_of_nonneg turn.magnitude_nonneg]
    _ ≤ 11 / 10 * (27 / 50) := by gcongr
    _ ≤ 3 / 5 := by norm_num

/-! ### All samples -/

/-- The magnitude settles, geometrically, at a value that the turn alone decides. -/
theorem abs_magnitude_after_sub_settled_le (k : ℕ) :
    |(o.after turn k).magnitude - turn.settled| ≤
      (3 / 5) ^ k * |o.magnitude - turn.settled| := by
  induction k with
  | zero => rw [after_zero, pow_zero, one_mul]
  | succ k ih =>
    have hbefore := abs_power_after_sub_one_le le_rfl hturn ho k
    calc |((o.after turn k).advance turn).magnitude - turn.settled|
        ≤ 3 / 5 * |(o.after turn k).magnitude - turn.settled| :=
          abs_magnitude_advance_sub_settled_le hturn hbefore
      _ ≤ 3 / 5 * ((3 / 5) ^ k * |o.magnitude - turn.settled|) := by gcongr
      _ = (3 / 5) ^ (k + 1) * |o.magnitude - turn.settled| := by rw [pow_succ']; ring

theorem tendsto_magnitude_after :
    Tendsto (fun k => (o.after turn k).magnitude) atTop (𝓝 turn.settled) := by
  have hpow := (tendsto_pow_atTop_nhds_zero_of_lt_one (by norm_num : (0 : ℝ) ≤ 3 / 5)
    (by norm_num)).mul_const |o.magnitude - turn.settled|
  rw [zero_mul] at hpow
  exact tendsto_iff_norm_sub_tendsto_zero.mpr (squeeze_zero (fun _ => norm_nonneg _)
    (abs_magnitude_after_sub_settled_le hturn ho) hpow)

end Settling

/-- A turn that is exact brings an oscillator onto the unit circle. -/
theorem tendsto_magnitude_after_ofPhase (ho : |o.power - 1| ≤ 1 / 5) (d : ℝ) :
    Tendsto (fun k => (o.after (ofPhase d) k).magnitude) atTop (𝓝 1) := by
  have hturn : |(ofPhase d).power - 1| ≤ 1 / 5 := by
    rw [power_ofPhase, sub_self, abs_zero]
    norm_num
  rw [← settled_ofPhase d]
  exact tendsto_magnitude_after hturn ho

end Oscillator

end SatNav
