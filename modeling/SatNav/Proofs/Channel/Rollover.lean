import Mathlib.Analysis.Real.Pi.Bounds
import SatNav.Proofs.Binary64.Remainder
import SatNav.Proofs.Binary64.RoundingError
import SatNav.Proofs.Channel.Progress

/-!
# The phases that a block leaves

With code steps of at most one chip, the sample after a block is, up to a few roundings,
less than one step beyond the end of the period, and the last sample of the block is not
beyond it. So the code phase that a block leaves is one from which the next block can be
taken, with a replica of a whole code.

The carrier phase is reduced exactly, if the sum that is to be reduced is a number. It is
not checked for that: phase and step are finite, but their sum over the block may be too large
for a double. A channel then stands at no carrier phase and every further block is refused.
-/

namespace SatNav

open Binary64

/-! ### Code phases of a block -/

section CodePhase

variable {x y : Float} {p s : ℝ} (hp : value x = some (p : EReal)) (hs : value y = some (s : EReal))
include hp hs

theorem near_codePhaseAt {k : ℕ} (hk : k < 2 ^ 53) (hmove : |k * s| ≤ 2 ^ 11)
    (h : |p + k * s| + slack ≤ 2 ^ 11) :
    Near (codePhaseAt x y k) (p + k * s) (2 * slack) := by
  have hcount : value (Float.ofInt k) = some ((k : ℝ) : EReal) := by
    have := value_ofInt k
    rw [Int.cast_natCast, round_natCast hk] at this
    exact this
  have hproduct := near_of_round (value_mul_coe hcount hs) hmove
  have := (near_of_value hp).add hproduct (by linarith)
  rwa [zero_add, ← two_mul] at this

variable (hlow : -1 ≤ p) (hhigh : p < 1023) (hpos : 0 < s) (hone : s ≤ 1)
include hlow hhigh hpos hone

/-- The block ends with the first sample that reaches the end of the period, up to two
roundings. -/
theorem blockLength_bounds (hn : blockLength x y < UInt32.size) :
    1023 - p - 2 * slack ≤ blockLength x y * s ∧
      ((blockLength x y - 1 : ℕ) : ℝ) * s ≤ 1023 - p + 2 * slack := by
  have hdistance : value ((codePeriod : Float) - x) = some (round ((1023 - p : ℝ) : EReal)) :=
    value_sub value_codePeriod hp (by simp) (by simp)
  obtain ⟨d, hd, hdp⟩ := near_of_round hdistance (by rw [abs_le]; constructor <;> linarith)
  have hd0 : 0 ≤ d := by
    have := round_nonneg (r := 1023 - p) (by linarith)
    rw [← Option.some.inj (hd.symm.trans hdistance)] at this
    exact_mod_cast this
  have hquotient := value_div_coe hd hs hpos.ne'
  have hnonneg := round_nonneg (r := d / s) (by positivity)
  obtain ⟨q, hq⟩ : ∃ q : ℝ, round ((d / s : ℝ) : EReal) = (q : EReal) := by
    cases hround : round ((d / s : ℝ) : EReal) with
    | bot =>
      rw [hround] at hnonneg
      exact absurd hnonneg (by simp)
    | top =>
      -- a quotient without bound would be the largest count
      rw [hround] at hquotient
      have hlength : blockLength x y = UInt64.size - 1 := by
        change toCount (ceil (((codePeriod : Float) - x) / y)) = _
        rw [ceil_of_not_real (by simp [hquotient]), toCount_of_top hquotient]
      exact absurd hn (by rw [hlength]; decide)
    | coe q => exact ⟨q, rfl⟩
  rw [hq] at hquotient hnonneg
  have hq0 : 0 ≤ q := by exact_mod_cast hnonneg
  have hnear : |q * s - d| ≤ slack :=
    abs_quotient_mul_sub_le hd hs hd0 (by linarith [(abs_le.mp hdp).2, slack_lt]) hpos hone
      hquotient
  have hlength : blockLength x y = ⌈q⌉₊ := by
    have hcount := toCount_of_real (value_ceil hquotient)
    rw [← natCast_ceil_eq_intCast_ceil hq0, Nat.floor_natCast] at hcount
    have hsize : blockLength x y = min ⌈q⌉₊ (UInt64.size - 1) := hcount
    have : UInt32.size ≤ UInt64.size - 1 := by decide
    omega
  have hle : q ≤ blockLength x y := hlength ▸ Nat.le_ceil q
  have hlt : ((blockLength x y - 1 : ℕ) : ℝ) ≤ q := by
    rw [hlength]
    rcases Nat.eq_zero_or_pos ⌈q⌉₊ with hzero | hpositive
    · simpa [hzero] using hq0
    · exact (Nat.lt_ceil.mp (Nat.sub_one_lt hpositive.ne')).le
  obtain ⟨hdlow, hdhigh⟩ := abs_le.mp hdp
  obtain ⟨hqlow, hqhigh⟩ := abs_le.mp hnear
  constructor
  · linarith [mul_le_mul_of_nonneg_right hle hpos.le]
  · linarith [mul_le_mul_of_nonneg_right hlt hpos.le]

/-- The last sample of a block is not beyond the period, up to four roundings. -/
theorem value_codePhaseAt_last (hn : blockLength x y < UInt32.size) :
    ∃ z : ℝ, value (codePhaseAt x y (blockLength x y - 1)) = some (z : EReal) ∧
      p - 2 * slack ≤ z ∧ z ≤ 1023 + 4 * slack := by
  obtain ⟨-, hmove⟩ := blockLength_bounds hp hs hlow hhigh hpos hone hn
  have hnonneg : 0 ≤ ((blockLength x y - 1 : ℕ) : ℝ) * s := by positivity
  have hslack := slack_lt
  have hlt : blockLength x y - 1 < 2 ^ 53 := by
    have : UInt32.size < 2 ^ 53 := by decide
    omega
  obtain ⟨z, hz, hnear⟩ := near_codePhaseAt hp hs hlt
    (by rw [abs_of_nonneg hnonneg]; linarith)
    (by
      have : |p + ((blockLength x y - 1 : ℕ) : ℝ) * s| ≤ 1024 := by
        rw [abs_le]
        constructor <;> linarith
      linarith)
  obtain ⟨hzlow, hzhigh⟩ := abs_le.mp hnear
  exact ⟨z, hz, by linarith, by linarith⟩

/-- A block leaves the code phase between zero and one step, up to five roundings. -/
theorem value_codePhaseAt_end (hn : blockLength x y < UInt32.size) :
    ∃ z : ℝ, value (codePhaseAt x y (blockLength x y) - codePeriod) = some (z : EReal) ∧
      -(5 * slack) ≤ z ∧ z ≤ s + 5 * slack := by
  obtain ⟨hreach, hmove⟩ := blockLength_bounds hp hs hlow hhigh hpos hone hn
  have hslack := slack_lt
  have hstep : (blockLength x y : ℝ) * s ≤ 1023 - p + 2 * slack + s := by
    have hle : (blockLength x y : ℝ) ≤ ((blockLength x y - 1 : ℕ) : ℝ) + 1 := by
      exact_mod_cast Nat.le_add_of_sub_le (le_refl _)
    linarith [mul_le_mul_of_nonneg_right hle hpos.le]
  have hlt : blockLength x y < 2 ^ 53 := hn.trans (by decide)
  have hphase := near_codePhaseAt hp hs hlt
    (by
      rw [abs_le]
      constructor <;> linarith)
    (by
      have : |p + (blockLength x y : ℝ) * s| ≤ 1025 := by
        rw [abs_le]
        constructor <;> linarith
      linarith)
  obtain ⟨z, hz, hnear⟩ := hphase.sub (near_of_value value_codePeriod) (by
    have : |p + (blockLength x y : ℝ) * s - 1023| ≤ 2 := by
      rw [abs_le]
      constructor <;> linarith
    linarith)
  obtain ⟨hzlow, hzhigh⟩ := abs_le.mp hnear
  exact ⟨z, hz, by linarith, by linarith⟩

end CodePhase

/-! ### The replica of a whole code -/

theorem Replica.lt_of_checkPhase_early {replica : Replica} {x : Float} {p : ℝ}
    (hx : value x = some (p : EReal)) (h : replica.checkPhase (x - 0.5) = .ok ()) :
    -(1 / 2) < p := by
  obtain ⟨hceil, -⟩ := (checkPhase_eq_ok_iff replica (x - 0.5)).mp h
  by_contra hle
  have hvalue : value (x - 0.5) = some (round ((p - 1 / 2 : ℝ) : EReal)) :=
    value_sub hx value_half (by simp) (by simp)
  have hround : round ((p - 1 / 2 : ℝ) : EReal) ≤ ((-1 : ℤ) : ℝ) := by
    rw [← (representable_intCast (n := -1) (by norm_num)).round]
    refine round_mono ?_
    norm_cast
    push_cast
    linarith
  have hnegative : ceil (x - 0.5) < (0.0 : Float) := by
    rcases value_ceil_cases hvalue with ⟨r, hr, hvalue⟩ | ⟨-, hvalue⟩
    · rw [hr, EReal.coe_le_coe_iff] at hround
      rw [lt_iff_of_value hvalue value_decimal_zero, EReal.coe_lt_coe_iff]
      have : ⌈r⌉ ≤ -1 := Int.ceil_le.mpr hround
      exact_mod_cast this.trans_lt (by norm_num)
    · rw [lt_iff_of_value hvalue value_decimal_zero]
      exact hround.trans_lt (by exact_mod_cast (by norm_num : ((-1 : ℤ) : ℝ) < 0))
  exact hceil hnegative

section WholeCode

variable {replica : Replica} (hsize : Replica.standardSize ≤ replica.size)
include hsize

theorem Replica.checkPhase_of_value {x : Float} {r : ℝ} (hx : value x = some (r : EReal))
    (hlow : -1 < r) (hhigh : r ≤ 1024) : replica.checkPhase x = .ok () := by
  rw [checkPhase_eq_ok_iff]
  have hceil := value_ceil hx
  constructor
  · change ¬ ceil x < (0.0 : Float)
    rw [lt_iff_of_value hceil value_decimal_zero, EReal.coe_lt_coe_iff, not_lt]
    exact_mod_cast Int.le_ceil_iff.mpr (by push_cast; linarith)
  · change ¬ Float.ofInt replica.size ≤ ceil x
    rw [le_iff_of_value (value_ofInt _) hceil, not_le]
    have hceil_le : ((⌈r⌉ : ℤ) : ℝ) < (1025 : ℕ) := by
      have : ⌈r⌉ ≤ 1024 := Int.ceil_le.mpr (by exact_mod_cast hhigh)
      exact_mod_cast this.trans_lt (by norm_num)
    calc (((⌈r⌉ : ℤ) : ℝ) : EReal) < ((1025 : ℕ) : ℝ) := by exact_mod_cast hceil_le
      _ = round (((1025 : ℕ) : ℝ) : EReal) :=
        (Binary64.round_natCast (n := 1025) (by norm_num)).symm
      _ ≤ round ((((replica.size : ℕ) : ℤ) : ℝ) : EReal) :=
        round_mono (by exact_mod_cast hsize)

variable {x y : Float} {p s : ℝ} (hp : value x = some (p : EReal)) (hlow : -(1 / 4) ≤ p)
  (hhigh : p < 1023)
include hp hlow hhigh

theorem checkPhase_early : replica.checkPhase (x - 0.5) = .ok () := by
  have hslack := slack_lt
  obtain ⟨z, hz, hnear⟩ := (near_of_value hp).sub (near_of_value value_half) (by
    have : |p - 1 / 2| ≤ 1023 := by
      rw [abs_le]
      constructor <;> linarith
    linarith)
  obtain ⟨hzlow, hzhigh⟩ := abs_le.mp hnear
  exact Replica.checkPhase_of_value hsize hz (by linarith) (by linarith)

theorem checkPhase_late (hs : value y = some (s : EReal)) (hpos : 0 < s) (hone : s ≤ 1)
    (hn : blockLength x y < UInt32.size) :
    replica.checkPhase (codePhaseAt x y (blockLength x y - 1) + 0.5) = .ok () := by
  have hslack := slack_lt
  obtain ⟨w, hw, hwlow, hwhigh⟩ :=
    value_codePhaseAt_last hp hs (by linarith) hhigh hpos hone hn
  obtain ⟨z, hz, hnear⟩ := (near_of_value hw).add (near_of_value value_half) (by
    have : |w + 1 / 2| ≤ 1024 := by
      rw [abs_le]
      constructor <;> linarith
    linarith)
  obtain ⟨hzlow, hzhigh⟩ := abs_le.mp hnear
  exact Replica.checkPhase_of_value hsize hz (by linarith) (by linarith)

end WholeCode

/-- From where a block leaves the code phase, no arm reads outside the replica of a whole code. -/
theorem fault_of_nextBlock {replica : Replica} (hsize : Replica.standardSize ≤ replica.size)
    {steps : Steps Float} {phases : Phases Float} {p s : ℝ}
    (hp : value phases.code = some (p : EReal)) (hs : value steps.code = some (s : EReal))
    (hlow : -(1 / 4) ≤ p) (hone : s ≤ 1) (hmotion : checkMotion steps phases = .ok ())
    {samples : List Int8} {fault : Fault}
    (h : nextBlock replica steps phases samples = .error fault) :
    UInt32.size ≤ blockLength phases.code steps.code ∧ fault = .badParameter .blockLength ∨
      samples.length < blockLength phases.code steps.code ∧
        fault = .tooFewSamples (blockLength phases.code steps.code) samples.length := by
  obtain ⟨⟨s', hs', hpos⟩, ⟨p', hp', hhigh⟩, -⟩ := (checkMotion_eq_ok_iff_value ..).mp hmotion
  obtain rfl : s = s' := by exact_mod_cast Option.some.inj (hs.symm.trans hs')
  obtain rfl : p = p' := by exact_mod_cast Option.some.inj (hp.symm.trans hp')
  have hfault := admitBlock_of_nextBlock_error h
  rw [admitBlock_eq, hmotion] at hfault
  dsimp only at hfault
  split at hfault
  · next hlarge =>
    cases hfault
    exact .inl ⟨hlarge, rfl⟩
  · next hsmall =>
    split at hfault
    · next hfew =>
      cases hfault
      exact .inr ⟨hfew, rfl⟩
    · rw [checkPhase_early hsize hp hlow hhigh] at hfault
      dsimp only at hfault
      rw [checkPhase_late hsize hp hlow hhigh hs hpos hone (Nat.lt_of_not_le hsmall)] at hfault
      cases hfault

/-! ### The carrier -/

/-- The double that a turn is, a little less than `2 * π`. -/
noncomputable def turn : ℝ := ((7074237752028440 : ℕ) : ℝ) / ((2 ^ 50 : ℕ) : ℝ)

theorem value_turn : value (2.0 * Scalar.pi : Float) = some (turn : EReal) := by
  have : (2.0 * Scalar.pi : Float).toModel.unpack =
      .finite .positive 7074237752028440 (-50) (by decide) := rfl
  rw [value, this, unpackedValue_finite, signed]
  norm_num [turn, zpow_neg]

theorem turn_pos : 0 < turn := by
  norm_num [turn]

theorem turn_lt : turn < 2 * Real.pi := by
  have := Real.pi_gt_d20
  norm_num [turn]
  linarith

/-- Reducing the carrier phase is exact. -/
theorem value_advance_carrier {phases : Phases Float} {steps : Steps Float} {n : ℕ} {a : ℝ}
    (h : value (phases.carrier + Scalar.ofCount n * steps.carrier) = some (a : EReal)) :
    ∃ c : ℝ, value (phases.advance steps n).carrier = some (c : EReal) ∧ |c| < 2 * Real.pi ∧
      ∃ k : ℤ, a = k * turn + c := by
  obtain ⟨c, hc, hlt, hk⟩ := exists_value_remainder h value_turn turn_pos.ne'
  rw [abs_of_pos turn_pos] at hlt
  exact ⟨c, hc, hlt.trans turn_lt, hk⟩

theorem value_advance_carrier_infinite {phases : Phases Float} {steps : Steps Float} {n : ℕ}
    (h : (phases.carrier + Scalar.ofCount n * steps.carrier).isFinite = false) :
    value (phases.advance steps n).carrier = none := by
  refine value_remainder_infinite (fun r hr => ?_) _
  rw [(isFinite_iff _).mpr ⟨r, hr⟩] at h
  cases h

/-! ### What a block leaves -/

/-- The code phase that a block leaves is in order. So is the carrier phase, and the next block then
fails only for its length or for want of samples, if the sum to be reduced is finite; otherwise it
is no number, and the next block is refused for it. -/
theorem phases_of_nextBlock {chips : List Int8} (hchips : chips.length = codeChips)
    {steps : Steps Float} {phases after : Phases Float} {samples : List Int8} {block : Block Float}
    (hone : steps.code ≤ 1.0)
    (h : nextBlock (.ofPeriod chips) steps phases samples = .ok (block, after)) :
    (∃ p : ℝ, value after.code = some (p : EReal) ∧ -(1 / 2) < p ∧ p < 1023) ∧
      ((phases.carrier + Scalar.ofCount block.sampleCount.toNat * steps.carrier).isFinite = true →
        (∃ c : ℝ, value after.carrier = some (c : EReal) ∧ -(2 * Real.pi) < c ∧
          c < 2 * Real.pi) ∧
        ∀ (more : List Int8) (fault : Fault),
          nextBlock (.ofPeriod chips) steps after more = .error fault →
            UInt32.size ≤ blockLength after.code steps.code ∧ fault = .badParameter .blockLength ∨
              more.length < blockLength after.code steps.code ∧
                fault = .tooFewSamples (blockLength after.code steps.code) more.length) ∧
      ((phases.carrier + Scalar.ofCount block.sampleCount.toNat * steps.carrier).isFinite = false →
        value after.carrier = none ∧
        ∀ more : List Int8,
          nextBlock (.ofPeriod chips) steps after more = .error (.badParameter .carrier)) := by
  obtain ⟨n, hadmitted, rfl, rfl⟩ := (nextBlock_eq_ok_iff ..).mp h
  rw [toNat_sampleCount_ofSamples hadmitted.lt_size]
  obtain ⟨⟨s, hs, hpos⟩, ⟨p, hp, hhigh⟩, -, t, ht⟩ :=
    (checkMotion_eq_ok_iff_value ..).mp hadmitted.motion
  have hsize := (Replica.size_ofPeriod_of_length hchips).ge
  have hs1 : s ≤ 1 := by
    have hvalue : value 1.0 = some ((1 : ℝ) : EReal) := by
      exact_mod_cast value_literal (n := 1) (by norm_num)
    rwa [le_iff_of_value hs hvalue, EReal.coe_le_coe_iff] at hone
  have hlow := Replica.lt_of_checkPhase_early hp hadmitted.first
  have hlength := hadmitted.lt_size
  rw [hadmitted.length_eq] at hlength ⊢
  obtain ⟨z, hz, hzlow, hzhigh⟩ : ∃ z : ℝ,
      value (phases.advance steps (blockLength phases.code steps.code)).code = some (z : EReal) ∧
        -(5 * slack) ≤ z ∧ z ≤ s + 5 * slack :=
    value_codePhaseAt_end hp hs (by linarith) hhigh hpos hs1 hlength
  have hslack := slack_lt
  refine ⟨⟨z, hz, by linarith, by linarith⟩, fun hfinite => ?_, fun hinfinite => ?_⟩
  · obtain ⟨a, ha⟩ := (isFinite_iff _).mp hfinite
    obtain ⟨c, hc, hlt, -⟩ := value_advance_carrier ha
    refine ⟨⟨c, hc, abs_lt.mp hlt⟩, fun more fault hfault => ?_⟩
    refine fault_of_nextBlock hsize hz hs (by linarith) hs1 ?_ hfault
    exact (checkMotion_eq_ok_iff_value ..).mpr
      ⟨⟨s, hs, hpos⟩, ⟨z, hz, by linarith⟩, ⟨c, hc⟩, t, ht⟩
  · have hcarrier := value_advance_carrier_infinite hinfinite
    refine ⟨hcarrier, fun more => ?_⟩
    have hmotion := checkMotion_eq_error_carrier hs hpos hz (by linarith) hcarrier
    rw [nextBlock, admitBlock_eq, hmotion]

/-- One sample at the end of the period, the carrier moving from 3 to 3.5. -/
theorem phases_of_nextBlock_last_sample :
    (List.replicate codeChips (1 : Int8)).length = codeChips ∧ (1.0 : Float) ≤ 1.0 ∧
      nextBlock (.ofPeriod (List.replicate codeChips 1)) ⟨1.0, 0.5⟩ ⟨1022.5, 3.0⟩ [3] =
        .ok (.ofSamples (.ofPeriod (List.replicate codeChips 1)) ⟨1.0, 0.5⟩ ⟨1022.5, 3.0⟩ 1 [3],
          Phases.advance (⟨1022.5, 3.0⟩ : Phases Float) ⟨1.0, 0.5⟩ 1) ∧
      ((3.0 : Float) + Scalar.ofCount 1 * 0.5).isFinite = true ∧
      (∃ c : ℝ, value (Phases.advance (⟨1022.5, 3.0⟩ : Phases Float) ⟨1.0, 0.5⟩ 1).carrier =
        some (c : EReal) ∧ -(2 * Real.pi) < c ∧ c < 2 * Real.pi) := by
  have hchips : (List.replicate codeChips (1 : Int8)).length = codeChips := List.length_replicate
  have hone : (⟨1.0, 0.5⟩ : Steps Float).code ≤ 1.0 := by decide +kernel
  have hadmit : admitBlock (.ofPeriod (List.replicate codeChips 1)) (⟨1.0, 0.5⟩ : Steps Float)
      ⟨1022.5, 3.0⟩ ([3] : List Int8).length = .ok 1 := by
    decide +kernel
  have hblock : nextBlock (.ofPeriod (List.replicate codeChips 1)) (⟨1.0, 0.5⟩ : Steps Float)
      ⟨1022.5, 3.0⟩ [3] =
        .ok (.ofSamples (.ofPeriod (List.replicate codeChips 1)) ⟨1.0, 0.5⟩ ⟨1022.5, 3.0⟩ 1 [3],
          Phases.advance (⟨1022.5, 3.0⟩ : Phases Float) ⟨1.0, 0.5⟩ 1) := by
    rw [nextBlock, hadmit]
  have hfinite : ((3.0 : Float) + Scalar.ofCount 1 * 0.5).isFinite = true := by decide +kernel
  exact ⟨hchips, hone, hblock, hfinite,
    ((phases_of_nextBlock hchips hone hblock).2.1 hfinite).1⟩

/-- Carrier phase and step are finite and their sum is not. The block is given, the carrier phase
that it leaves is no number, and the next block is refused. -/
theorem carrier_lost_when_sum_overflows :
    ∃ (block : Block Float) (after : Phases Float),
      nextBlock (.ofPeriod (List.replicate codeChips 1)) ⟨1.0, 1.7e308⟩ ⟨1022.5, 1.7e308⟩ [0] =
          .ok (block, after) ∧
        after.carrier.isFinite = false ∧
        nextBlock (.ofPeriod (List.replicate codeChips 1)) ⟨1.0, 1.7e308⟩ after [0] =
          .error (.badParameter .carrier) := by
  have hadmit : admitBlock (.ofPeriod (List.replicate codeChips 1))
      (⟨1.0, 1.7e308⟩ : Steps Float) ⟨1022.5, 1.7e308⟩ ([0] : List Int8).length = .ok 1 := by
    decide +kernel
  have hrefuse : admitBlock (.ofPeriod (List.replicate codeChips 1))
      (⟨1.0, 1.7e308⟩ : Steps Float)
      (Phases.advance ⟨1022.5, 1.7e308⟩ ⟨1.0, 1.7e308⟩ 1) ([0] : List Int8).length =
        .error (.badParameter .carrier) := by
    decide +kernel
  refine ⟨_, _, by rw [nextBlock, hadmit], by decide +kernel, ?_⟩
  rw [nextBlock, hrefuse]

end SatNav
