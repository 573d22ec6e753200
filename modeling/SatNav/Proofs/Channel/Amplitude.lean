import Mathlib.Analysis.SpecialFunctions.Trigonometric.Bounds
import SatNav.Proofs.Channel.ExactBlock

/-!
# The amplitude of the carrier

The oscillator of a block is turned by the same pair of numbers with every sample. Where these are
not quite sine and cosine of an angle, each turn scales the oscillator a little, and without the
correction its magnitude would grow or decay without end. `Oscillator.power` is the square of that
magnitude. With each sample the turn takes it to `v = o.power * turn.power`, and the correction then
leaves it short of one by `(1 - v) ^ 2 * (4 - v) / 4`, so an error is squared before it is carried
on.

`Oscillator.abs_power_after_sub_one_le` is the bound that every number of samples keeps, and
`Oscillator.power_after_mem_Icc` the sharper one that holds from the first sample on.
`amplitude_never_drifts` applies them to the blocks of a receiver whose sines and cosines are off,
which is what the arithmetic `Exact.withSinCos` is for.
-/

namespace SatNav

open Exact

namespace Oscillator

/-- Square of the magnitude. -/
noncomputable def power (o : Oscillator ℝ) : ℝ := o.sin ^ 2 + o.cos ^ 2

/-! ### One sample -/

theorem power_rotate (o turn : Oscillator ℝ) : (o.rotate turn).power = o.power * turn.power := by
  simp only [power, rotate]
  ring

theorem correction_real (o : Oscillator ℝ) : o.correction = (3 - o.power) / 2 := by
  simp only [correction, power]
  norm_num
  ring

theorem power_renormalize (o : Oscillator ℝ) :
    o.renormalize.power = o.power * o.correction ^ 2 := by
  simp only [renormalize_eq, power]
  ring

/-- The correction cancels what is linear in the error of the power. -/
theorem one_sub_power_advance (o turn : Oscillator ℝ) :
    1 - (o.advance turn).power =
      (1 - o.power * turn.power) ^ 2 * (4 - o.power * turn.power) / 4 := by
  rw [advance, power_renormalize, correction_real, power_rotate]
  ring

/-- Errors of two factors add up, and their product comes on top. -/
theorem abs_mul_sub_one_le {a b ε : ℝ} (ha : |a - 1| ≤ ε) (hb : |b - 1| ≤ ε) :
    |a * b - 1| ≤ ε * (2 + ε) := by
  have hε : 0 ≤ ε := (abs_nonneg _).trans ha
  calc |a * b - 1|
      = |(a - 1) * (b - 1) + ((a - 1) + (b - 1))| := by congr 1; ring
    _ ≤ |a - 1| * |b - 1| + (|a - 1| + |b - 1|) := by
        rw [← abs_mul]
        exact (abs_add_le _ _).trans (add_le_add_right (abs_add_le _ _) _)
    _ ≤ ε * ε + (ε + ε) := by gcongr
    _ = ε * (2 + ε) := by ring

variable {o turn : Oscillator ℝ} {ε : ℝ}

section Bounds

variable (hε : ε ≤ 1 / 5) (hturn : |turn.power - 1| ≤ ε) (ho : |o.power - 1| ≤ ε)
include hε hturn ho

theorem power_mul_power_le : o.power * turn.power ≤ 4 := by
  have hε0 : 0 ≤ ε := (abs_nonneg _).trans ho
  have hv := (abs_le.mp (abs_mul_sub_one_le ho hturn)).2
  nlinarith

/-- No sample overshoots, since the turn does not take the power beyond four. -/
theorem power_advance_le_one : (o.advance turn).power ≤ 1 := by
  have hfour := sub_nonneg.mpr (power_mul_power_le hε hturn ho)
  rw [← sub_nonneg, one_sub_power_advance]
  positivity

/-- What a sample leaves of one is of second order. -/
theorem one_sub_power_advance_le : 1 - (o.advance turn).power ≤ 5 * ε ^ 2 := by
  have hε0 : 0 ≤ ε := (abs_nonneg _).trans ho
  have hv := abs_mul_sub_one_le ho hturn
  have hnonneg := sub_nonneg.mpr (power_mul_power_le hε hturn ho)
  have hsquare : (1 - o.power * turn.power) ^ 2 ≤ (ε * (2 + ε)) ^ 2 := by
    rw [← sq_abs, abs_sub_comm]
    exact pow_le_pow_left₀ (abs_nonneg _) hv 2
  have hfour : 4 - o.power * turn.power ≤ 3 + ε * (2 + ε) := by linarith [(abs_le.mp hv).1]
  calc 1 - (o.advance turn).power
      = (1 - o.power * turn.power) ^ 2 * (4 - o.power * turn.power) / 4 :=
        one_sub_power_advance o turn
    _ ≤ (ε * (2 + ε)) ^ 2 * (3 + ε * (2 + ε)) / 4 := by gcongr
    _ = ε ^ 2 * ((2 + ε) ^ 2 * (3 + ε * (2 + ε)) / 4) := by ring
    _ ≤ ε ^ 2 * ((2 + 1 / 5) ^ 2 * (3 + 1 / 5 * (2 + 1 / 5)) / 4) := by gcongr
    _ ≤ ε ^ 2 * 5 := by gcongr; norm_num
    _ = 5 * ε ^ 2 := mul_comm _ _

/-- Up to a fifth, five times the square of an error is no more than the error. -/
theorem abs_power_advance_sub_one_le : |(o.advance turn).power - 1| ≤ ε := by
  have hε0 : 0 ≤ ε := (abs_nonneg _).trans ho
  have hupper := power_advance_le_one hε hturn ho
  have hlower := one_sub_power_advance_le hε hturn ho
  have hsquare : 5 * ε ^ 2 ≤ ε := by nlinarith
  rw [abs_le]
  constructor <;> linarith

/-! ### All samples -/

theorem abs_power_after_sub_one_le (k : ℕ) : |(o.after turn k).power - 1| ≤ ε := by
  induction k with
  | zero => exact ho
  | succ k ih => exact abs_power_advance_sub_one_le hε hturn ih

/-- From the first sample on the power is at most one, and short of it by an amount of second
order. -/
theorem power_after_mem_Icc {k : ℕ} (hk : 1 ≤ k) :
    (o.after turn k).power ∈ Set.Icc (1 - 5 * ε ^ 2) 1 := by
  obtain ⟨j, rfl⟩ := Nat.exists_eq_add_of_le' hk
  have hbefore := abs_power_after_sub_one_le hε hturn ho j
  rw [after_succ]
  exact ⟨sub_le_comm.mp (one_sub_power_advance_le hε hturn hbefore),
    power_advance_le_one hε hturn hbefore⟩

end Bounds

/-! ### Sines and cosines with errors -/

/-- Sine and cosine of `x`, each with an error of at most `η`. -/
structure IsNear (o : Oscillator ℝ) (x η : ℝ) : Prop where
  sin : |o.sin - Real.sin x| ≤ η
  cos : |o.cos - Real.cos x| ≤ η

/-- The errors enter the power by their part along the unit vector at `x`, twice, and by their
squares. That part is no longer than the errors together. -/
theorem IsNear.abs_power_sub_one_le {x η : ℝ} (h : o.IsNear x η) (hη : η ≤ 1 / 16) :
    |o.power - 1| ≤ 3 * η := by
  have hη0 : 0 ≤ η := (abs_nonneg _).trans h.sin
  have hsmall : η ^ 2 ≤ 1 / 16 * η := by nlinarith
  set a := o.sin - Real.sin x with ha
  set b := o.cos - Real.cos x with hb
  have hunit := Real.sin_sq_add_cos_sq x
  have hsquares : a ^ 2 + b ^ 2 ≤ 2 * η ^ 2 := by
    have hsin := sq_le_sq.mpr (h.sin.trans (le_abs_self η))
    have hcos := sq_le_sq.mpr (h.cos.trans (le_abs_self η))
    linarith
  have halong : |a * Real.sin x + b * Real.cos x| ≤ 23 / 16 * η := by
    have hpythagoras : (a * Real.sin x + b * Real.cos x) ^ 2 +
        (a * Real.cos x - b * Real.sin x) ^ 2 = a ^ 2 + b ^ 2 := by
      linear_combination (a ^ 2 + b ^ 2) * hunit
    -- The factor stands for the square root of two.
    refine abs_le_of_sq_le_sq ?_ (by positivity)
    linarith [sq_nonneg (a * Real.cos x - b * Real.sin x), mul_pow (23 / 16) η 2, sq_nonneg η]
  calc |o.power - 1|
      = |2 * (a * Real.sin x + b * Real.cos x) + (a ^ 2 + b ^ 2)| := by
        congr 1
        simp only [power, ha, hb]
        linear_combination hunit
    _ ≤ |2 * (a * Real.sin x + b * Real.cos x)| + |a ^ 2 + b ^ 2| := abs_add_le _ _
    _ = 2 * |a * Real.sin x + b * Real.cos x| + (a ^ 2 + b ^ 2) := by
        rw [abs_mul, abs_two, abs_of_nonneg (add_nonneg (sq_nonneg a) (sq_nonneg b))]
    _ ≤ 3 * η := by linarith

/-- Errors in the start and in the turn cost the square of their size, for any angle of the turn. -/
theorem IsNear.power_after_mem_Icc {x d η : ℝ} (ho : o.IsNear x η) (hturn : turn.IsNear d η)
    (hη : η ≤ 1 / 16) {k : ℕ} (hk : 1 ≤ k) :
    (o.after turn k).power ∈ Set.Icc (1 - 45 * η ^ 2) 1 := by
  have hε : 3 * η ≤ 1 / 5 := by linarith
  have hsquare : 5 * (3 * η) ^ 2 = 45 * η ^ 2 := by ring
  rw [← hsquare]
  exact Oscillator.power_after_mem_Icc hε (hturn.abs_power_sub_one_le hη)
    (ho.abs_power_sub_one_le hη) hk

end Oscillator

/-! ### The blocks of a receiver with inexact sines -/

/-- Exact arithmetic, but for the sines and cosines, which are those of two functions. -/
noncomputable abbrev Exact.withSinCos (sine cosine : ℝ → ℝ) : Scalar ℝ :=
  { (inferInstance : Scalar ℝ) with sin := sine, cos := cosine }

theorem Exact.withSinCos_sin_cos :
    withSinCos Real.sin Real.cos = (inferInstance : Scalar ℝ) := rfl

/-- Mixing and summing take the oscillator as it is, whatever its sines and cosines are. -/
theorem integrate_withSinCos (sine cosine : ℝ → ℝ) (replica : Replica) (start step : ℝ)
    (turn : Oscillator ℝ) (k : ℕ) (o : Oscillator ℝ) (arms : Arms ℝ) (samples : List Int8) :
    @integrate ℝ (withSinCos sine cosine) replica start step turn k o arms samples =
      integrate replica start step turn k o arms samples := by
  induction samples generalizing k o arms with
  | nil => rfl
  | cons sample rest ih => exact ih ..

variable {sine cosine : ℝ → ℝ} {replica : Replica} {steps : Steps ℝ} {phases after : Phases ℝ}
  {samples : List Int8} {block : Block ℝ}

variable (sine cosine) in
/-- Sines and cosines have no part in whether there is a block, how long it is and where it ends. -/
theorem nextBlock_withSinCos_eq_ok_iff :
    @nextBlock ℝ (withSinCos sine cosine) replica steps phases samples = .ok (block, after) ↔
      ∃ n, Admitted replica steps phases samples.length n ∧
        block = ⟨integrate replica phases.code steps.code
          ⟨sine steps.carrier, cosine steps.carrier⟩ 0
          ⟨sine phases.carrier, cosine phases.carrier⟩ .zero (samples.take n), n.toUInt32⟩ ∧
        after = phases.advance steps n := by
  have hadmitted (n : ℕ) :
      @Admitted ℝ (withSinCos sine cosine) replica steps phases samples.length n ↔
        Admitted replica steps phases samples.length n :=
    (@admitBlock_eq_ok_iff ℝ (withSinCos sine cosine) ..).symm.trans
      (admitBlock_eq_ok_iff replica steps phases samples.length n)
  have hblock (n : ℕ) :
      @Block.ofSamples ℝ (withSinCos sine cosine) replica steps phases n samples =
        ⟨integrate replica phases.code steps.code ⟨sine steps.carrier, cosine steps.carrier⟩ 0
          ⟨sine phases.carrier, cosine phases.carrier⟩ .zero (samples.take n), n.toUInt32⟩ :=
    congrArg (Block.mk · n.toUInt32) (integrate_withSinCos ..)
  rw [@nextBlock_eq_ok_iff ℝ (withSinCos sine cosine)]
  simp only [hadmitted, hblock]
  rfl

/-- A block mixes sample `k` with the oscillator that `k` turns make of what the receiver takes for
sine and cosine of its phase. -/
theorem arms_of_nextBlock_withSinCos
    (h : @nextBlock ℝ (withSinCos sine cosine) replica steps phases samples =
      .ok (block, after)) :
    let start : Oscillator ℝ := ⟨sine phases.carrier, cosine phases.carrier⟩
    let turn : Oscillator ℝ := ⟨sine steps.carrier, cosine steps.carrier⟩
    block.arms = (samples.take block.sampleCount.toNat).zipIdx.foldl (fun arms x =>
      arms.add replica (codePhaseAt phases.code steps.code x.2) (start.after turn x.2) x.1)
      .zero := by
  obtain ⟨n, hadmitted, rfl, -⟩ := (nextBlock_withSinCos_eq_ok_iff sine cosine).mp h
  have hcount : n.toUInt32.toNat = n := Nat.mod_eq_of_lt hadmitted.lt_size
  dsimp only
  rw [hcount]
  exact integrate_after replica phases.code steps.code _ _ (samples.take n) 0 .zero

/-- The amplitude of the carrier does not drift, whatever the pair that the oscillator is turned by.
The first part is what one sample makes of the power. The second says that an error of the power of
up to a fifth, at the start and in the turn, is not exceeded after any number of samples, and that
the power is at most one from the first sample on. The third is about a receiver whose four sines
and cosines are off by up to a sixteenth, with any step of the carrier: each sample of a block is
mixed with the oscillator after as many turns, and the power stays short of one by at most 45 times
the square of the errors. -/
theorem amplitude_never_drifts :
    (∀ o turn : Oscillator ℝ,
      let v := o.power * turn.power
      1 - (o.advance turn).power = (1 - v) ^ 2 * (4 - v) / 4) ∧
    (∀ o turn : Oscillator ℝ, ∀ ε ≤ 1 / 5, |turn.power - 1| ≤ ε → |o.power - 1| ≤ ε →
      ∀ k, 1 ≤ k → (o.after turn k).power ∈ Set.Icc (1 - ε) 1) ∧
    ∀ {sine cosine : ℝ → ℝ} {replica : Replica} {steps : Steps ℝ} {phases after : Phases ℝ}
      {samples : List Int8} {block : Block ℝ},
      @nextBlock ℝ (withSinCos sine cosine) replica steps phases samples = .ok (block, after) →
      let start : Oscillator ℝ := ⟨sine phases.carrier, cosine phases.carrier⟩
      let turn : Oscillator ℝ := ⟨sine steps.carrier, cosine steps.carrier⟩
      block.arms = (samples.take block.sampleCount.toNat).zipIdx.foldl (fun arms x =>
        arms.add replica (codePhaseAt phases.code steps.code x.2) (start.after turn x.2) x.1)
        .zero ∧
      ∀ η ≤ 1 / 16, start.IsNear phases.carrier η → turn.IsNear steps.carrier η →
        |start.power - 1| ≤ 3 * η ∧
        ∀ k, 1 ≤ k → (start.after turn k).power ∈ Set.Icc (1 - 45 * η ^ 2) 1 := by
  refine ⟨Oscillator.one_sub_power_advance, ?_, ?_⟩
  · intro o turn ε hε hturn ho k hk
    have hlower := (abs_le.mp (Oscillator.abs_power_after_sub_one_le hε hturn ho k)).1
    exact ⟨by linarith, (Oscillator.power_after_mem_Icc hε hturn ho hk).2⟩
  · intro sine cosine replica steps phases after samples block h start turn
    refine ⟨arms_of_nextBlock_withSinCos h, fun η hη hstart hturn => ?_⟩
    exact ⟨hstart.abs_power_sub_one_le hη, fun k hk => hstart.power_after_mem_Icc hturn hη hk⟩

/-- A turn that leaves four fifths of the power, again and again, and a whole period at one sample a
chip with a quarter of a radian between samples, where sine and cosine are the first terms of their
series. -/
theorem amplitude_never_drifts_first_terms :
    (∀ k, 1 ≤ k →
      ((⟨4 / 5, 2 / 5⟩ : Oscillator ℝ).after ⟨4 / 5, 2 / 5⟩ k).power ∈ Set.Icc (1 - 1 / 5) 1) ∧
    ∃ block after, @nextBlock ℝ (withSinCos (fun x => x) fun _ => 1)
        (.ofPeriod (List.replicate codeChips 1)) ⟨1, 1 / 4⟩ ⟨0, 0⟩ (List.replicate codeChips 7) =
          .ok (block, after) ∧
      block.sampleCount.toNat = 1023 ∧
      ∀ k, 1 ≤ k →
        ((⟨0, 1⟩ : Oscillator ℝ).after ⟨1 / 4, 1⟩ k).power ∈ Set.Icc (1 - 45 * (1 / 32) ^ 2) 1 := by
  obtain ⟨-, hturns, hblocks⟩ := amplitude_never_drifts
  have hlength : ⌈((1023 : ℝ) - 0) / 1⌉₊ = 1023 := by norm_num
  have hadmitted : Admitted (.ofPeriod (List.replicate codeChips 1)) ⟨1, 1 / 4⟩
      (⟨0, 0⟩ : Phases ℝ) (List.replicate codeChips (7 : Int8)).length
      ⌈((1023 : ℝ) - 0) / 1⌉₊ := by
    refine admitted_exact (Replica.size_ofPeriod_of_length List.length_replicate) one_pos
      (by norm_num) (by norm_num) ?_ ?_
    · rw [hlength]
      decide
    · rw [hlength, List.length_replicate, codeChips]
  have hblock := (nextBlock_withSinCos_eq_ok_iff (fun x => x) fun _ => 1).mpr
    ⟨_, hadmitted, rfl, rfl⟩
  have hstart : (⟨0, 1⟩ : Oscillator ℝ).IsNear 0 (1 / 32) := by
    constructor <;> norm_num
  have hturn : (⟨1 / 4, 1⟩ : Oscillator ℝ).IsNear (1 / 4) (1 / 32) := by
    have hquarter : (0 : ℝ) < 1 / 4 := by norm_num
    have hsin := Real.sin_lt hquarter
    have hsin' := Real.sin_gt_sub_cube hquarter
    have hcos := Real.cos_le_one (1 / 4)
    have hcos' := Real.one_sub_sq_div_two_le_cos (x := 1 / 4)
    refine ⟨abs_le.mpr ⟨?_, ?_⟩, abs_le.mpr ⟨?_, ?_⟩⟩ <;> dsimp only <;> linarith
  refine ⟨fun k hk => hturns _ _ _ le_rfl ?_ ?_ k hk, _, _, hblock, ?_, ?_⟩
  · norm_num [Oscillator.power, abs_le]
  · norm_num [Oscillator.power, abs_le]
  · rw [hlength]
    rfl
  · exact ((hblocks hblock).2 _ (by norm_num) hstart hturn).2

end SatNav
