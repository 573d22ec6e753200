import Mathlib.Algebra.BigOperators.Intervals
import SatNav.Proofs.Channel.Oscillator
import SatNav.Proofs.Channel.Admission

/-!
# A block in exact arithmetic

Over the real numbers the oscillator is the carrier itself, so the arms of a
block are the sums that they stand for, `Correlation.direct`: each sample against the
chip that its code phase selects and against sine and cosine of its carrier phase. The
padded replica reads as the code repeated without end, `Replica.periodic`.

`nextBlock_exact` puts this together with the guards of a block.
-/

namespace SatNav

open Exact

/-! ### The arms -/

namespace Arm

/-- What an arm adds to the code phase [chips]. -/
noncomputable def offset : Arm → ℝ
  | early => -0.5
  | prompt => 0
  | late => 0.5

theorem neg_half_le_offset (arm : Arm) : -1 / 2 ≤ arm.offset := by
  cases arm <;> norm_num [offset]

theorem offset_le_half (arm : Arm) : arm.offset ≤ 1 / 2 := by
  cases arm <;> norm_num [offset]

theorem phase_real (arm : Arm) (x : ℝ) : arm.phase x = x + arm.offset := by
  cases arm <;> norm_num [phase, offset, sub_eq_add_neg]

end Arm

theorem Arms.get_zero (arm : Arm) : (Arms.zero : Arms ℝ).get arm = ⟨0, 0⟩ := by
  cases arm <;> norm_num [Arms.zero, Arms.get, Correlation.zero]

/-! ### The sums -/

/-- The correlation of the samples from number `a` up to `b` with chips and with a carrier, both
by the number of the sample. -/
noncomputable def Correlation.direct (sample chip phase : ℕ → ℝ) (a b : ℕ) : Correlation ℝ :=
  ⟨∑ j ∈ Finset.Ico a b, sample j * chip j * Real.sin (phase j),
   ∑ j ∈ Finset.Ico a b, sample j * chip j * Real.cos (phase j)⟩

/-- Only the chips and the carrier at the samples in question matter. -/
theorem Correlation.direct_congr {sample sample' chip chip' phase phase' : ℕ → ℝ} {a b : ℕ}
    (hsample : ∀ j, a ≤ j → j < b → sample j = sample' j)
    (hchip : ∀ j, a ≤ j → j < b → chip j = chip' j)
    (hsin : ∀ j, a ≤ j → j < b → Real.sin (phase j) = Real.sin (phase' j))
    (hcos : ∀ j, a ≤ j → j < b → Real.cos (phase j) = Real.cos (phase' j)) :
    direct sample chip phase a b = direct sample' chip' phase' a b := by
  rw [direct, direct]
  congr 1
  · refine Finset.sum_congr rfl fun j hj => ?_
    obtain ⟨ha, hb⟩ := Finset.mem_Ico.mp hj
    rw [hsample j ha hb, hchip j ha hb, hsin j ha hb]
  · refine Finset.sum_congr rfl fun j hj => ?_
    obtain ⟨ha, hb⟩ := Finset.mem_Ico.mp hj
    rw [hsample j ha hb, hchip j ha hb, hcos j ha hb]

/-- The samples may be numbered from the first one in question on. -/
theorem Correlation.direct_add (sample chip phase : ℕ → ℝ) (m n : ℕ) :
    direct sample chip phase m (m + n) =
      direct (fun j => sample (j + m)) (fun j => chip (j + m)) (fun j => phase (j + m)) 0 n := by
  rw [direct, direct,
    Finset.sum_Ico_add' (fun j => sample j * chip j * Real.sin (phase j)) 0 n m,
    Finset.sum_Ico_add' (fun j => sample j * chip j * Real.cos (phase j)) 0 n m,
    Nat.zero_add, Nat.add_comm n m]

theorem codePhaseAt_real (p s : ℝ) (k : ℕ) : codePhaseAt p s k = p + k * s := by
  rw [codePhaseAt, Scalar.ofCount_real]

/-- Each arm grows by the direct correlation of the samples. The induction is on the samples, with
the oscillator at the phase of the next one. -/
theorem get_integrate (replica : Replica) (p s f d : ℝ) (arm : Arm) (sample : ℕ → ℝ)
    (samples : List Int8) (k : ℕ) (arms : Arms ℝ)
    (hsample : ∀ i (h : i < samples.length), sample (k + i) = (samples[i].toInt : ℝ)) :
    let sum := Correlation.direct sample (fun j => replica.chipAt (p + j * s + arm.offset))
      (fun j => f + j * d) k (k + samples.length)
    (integrate replica p s (.ofPhase d) k (.ofPhase (f + k * d)) arms samples).get arm =
      ⟨(arms.get arm).inPhase + sum.inPhase, (arms.get arm).quadrature + sum.quadrature⟩ := by
  induction samples generalizing k arms with
  | nil => simp [integrate_nil, Correlation.direct]
  | cons x rest ih =>
    have hphase : f + k * d + d = f + ((k + 1 : ℕ) : ℝ) * d := by
      push_cast
      ring
    have hrest : ∀ i (h : i < rest.length), sample (k + 1 + i) = (rest[i].toInt : ℝ) := by
      intro i h
      have hi := hsample (i + 1) (Nat.succ_lt_succ h)
      rw [Nat.add_right_comm]
      exact hi
    have hx : sample k = x.toInt := hsample 0 (Nat.succ_pos _)
    have hlt : k < k + (rest.length + 1) := Nat.lt_add_of_pos_right (Nat.succ_pos _)
    have hend : k + 1 + rest.length = k + (rest.length + 1) := by rw [Nat.add_right_comm]; rfl
    rw [integrate_cons, Oscillator.advance_ofPhase, hphase, ih (k + 1) _ hrest, Arms.get_add,
      Arm.phase_real, codePhaseAt_real]
    simp only [Correlation.add, Correlation.direct, Oscillator.ofPhase, Scalar.sin_real,
      Scalar.cos_real, Scalar.ofInt_real, List.length_cons, Finset.sum_eq_sum_Ico_succ_bot hlt, hx, hend]
    congr 1 <;> ring

/-! ### The replica -/

namespace Replica

/-- The chip with index `i` of a code that is repeated without end, its first chip having index
one. -/
noncomputable def periodic (chips : List Int8) (i : ℤ) : ℝ :=
  (chips.getD ((i - 1) % chips.length).toNat 0).toInt

theorem periodic_sub_mul (chips : List Int8) (i m : ℤ) :
    periodic chips (i - m * chips.length) = periodic chips i := by
  rw [periodic, periodic, sub_right_comm, Int.sub_mul_emod_self_right]

/-- From index zero up to the one after the last chip, a replica is the repeated code. -/
theorem getD_ofPeriod {chips : List Int8} (hchips : chips ≠ []) {i : ℤ} (hi : 0 ≤ i)
    (hi' : i ≤ chips.length + 1) :
    (ofPeriod chips).getD i.toNat 0 = chips.getD ((i - 1) % chips.length).toNat 0 := by
  obtain ⟨k, rfl⟩ := Int.eq_ofNat_of_zero_le hi
  obtain ⟨first, rest, rfl⟩ := List.exists_cons_of_ne_nil hchips
  rw [ofPeriod_cons, Int.toNat_natCast]
  rcases k with _ | j
  · have hlast : ((((0 : ℕ) : ℤ) - 1) % ((first :: rest).length : ℤ)).toNat = rest.length := by
      rw [Nat.cast_zero, zero_sub, Int.emod_eq_add_self_emod, Int.emod_eq_of_lt] <;> simp
    rw [hlast]
    simp [List.getLast_eq_getElem]
  · have hj' : j ≤ (first :: rest).length := Nat.le_of_succ_le_succ (by exact_mod_cast hi')
    have hsub : ((j + 1 : ℕ) : ℤ) - 1 = (j : ℤ) := by rw [Nat.cast_succ, add_sub_cancel_right]
    rw [hsub, ← Int.natCast_mod, Int.toNat_natCast]
    rcases hj'.lt_or_eq with hj | rfl
    · have happend : (first :: (rest ++ [first]))[j]? = (first :: rest)[j]? :=
        List.getElem?_append_left hj
      rw [Nat.mod_eq_of_lt hj]
      simp [happend]
    · rw [Nat.mod_self]
      simp

theorem chipAt_real (replica : Replica) {x : ℝ} (hx : ⌈x⌉ ≤ maxCount) :
    replica.chipAt x = (replica.getD ⌈x⌉.toNat 0).toInt := by
  rw [chipAt, indexAt, Scalar.ceil_real, Scalar.toCount_intCast hx, Scalar.ofInt_real]

theorem chipAt_ofPeriod {chips : List Int8} (hchips : chips.length = codeChips) {x : ℝ}
    (hx : 0 ≤ ⌈x⌉) (hx' : ⌈x⌉ ≤ codeChips + 1) :
    (ofPeriod chips).chipAt x = periodic chips ⌈x⌉ := by
  have hne : chips ≠ [] := by
    rintro rfl
    exact absurd hchips (by decide)
  rw [chipAt_real _ (hx'.trans (by decide)), getD_ofPeriod hne hx (by rw [hchips]; exact hx'),
    periodic]

end Replica

/-! ### The block -/

theorem blockLength_real (p s : ℝ) : blockLength p s = min ⌈(1023 - p) / s⌉₊ maxCount := by
  rw [blockLength, codePeriod_real, Scalar.ceil_real, Scalar.toCount_real, ← Int.floor_toNat,
    Int.floor_intCast, Int.ceil_toNat]

/-- A length of 32 bits has not been cut off. -/
theorem eq_blockLength_iff {p s : ℝ} {n : ℕ} (hn : n < UInt32.size) :
    n = blockLength p s ↔ n = ⌈(1023 - p) / s⌉₊ := by
  have hcount : UInt32.size ≤ maxCount := by decide
  rw [blockLength_real]
  omega

theorem checkPhase_real_iff (replica : Replica) (x : ℝ) :
    replica.checkPhase x = .ok () ↔ 0 ≤ ⌈x⌉ ∧ ⌈x⌉ < replica.size := by
  have hsize : ((replica.size : ℕ) : ℝ) = ((replica.size : ℤ) : ℝ) := by push_cast; rfl
  rw [Replica.checkPhase_eq_ok_iff, Scalar.ceil_real, Scalar.ofCount_real, zero_real, hsize,
    Int.cast_lt_zero, Int.cast_le, not_lt, not_le]

/-- Steps and phases are accepted when the code moves forward, towards the end of its period. -/
theorem checkMotion_real_iff (steps : Steps ℝ) (phases : Phases ℝ) :
    checkMotion steps phases = .ok () ↔ 0 < steps.code ∧ phases.code < 1023 := by
  rw [checkMotion_eq_ok_iff, codePeriod_real, zero_real, not_le, not_le]
  exact ⟨fun h => ⟨h.1.2, h.2.1.2⟩, fun h => ⟨⟨rfl, h.1⟩, ⟨rfl, h.2⟩, rfl, rfl⟩⟩

/-- Before its last sample a block has not reached the end of the code period. -/
theorem codePhase_lt_of_lt_ceil {p s : ℝ} (hs : 0 < s) {k : ℕ}
    (hk : k < ⌈(1023 - p) / s⌉₊) : p + k * s < 1023 := by
  have hlt : (k : ℝ) < (1023 - p) / s := Nat.lt_ceil.mp hk
  rw [lt_div_iff₀ hs] at hlt
  linarith

/-- The last chip that a block can ask for is the one after the period. -/
theorem ceil_codePhase_le {p s : ℝ} (hs : 0 < s) {k : ℕ} (hk : k < ⌈(1023 - p) / s⌉₊) {o : ℝ}
    (ho : o ≤ 1 / 2) : ⌈p + k * s + o⌉ ≤ codeChips + 1 := by
  have hchips : (((codeChips : ℤ) + 1 : ℤ) : ℝ) = 1024 := by
    norm_num [codeChips]
  rw [Int.ceil_le, hchips]
  linarith [codePhase_lt_of_lt_ceil hs hk]

/-- Half a chip to either side, the code phases of a block select entries of a padded replica. -/
theorem ceil_mem_replica {p s : ℝ} (hs : 0 < s) (hp : -1 / 2 < p) {k : ℕ}
    (hk : k < ⌈(1023 - p) / s⌉₊) {o : ℝ} (ho : -1 / 2 ≤ o) (ho' : o ≤ 1 / 2) :
    0 ≤ ⌈p + k * s + o⌉ ∧ ⌈p + k * s + o⌉ ≤ codeChips + 1 := by
  have hks : 0 ≤ (k : ℝ) * s := mul_nonneg (Nat.cast_nonneg k) hs.le
  exact ⟨Int.ceil_nonneg_of_neg_one_lt (by linarith), ceil_codePhase_le hs hk ho'⟩

/-- What it takes for a block to be admitted, on any replica. The code phases are in order, so the
index of the early arm at the first sample is not too large and that of the late arm at the last one
is not too small. -/
theorem admitted_real_iff {replica : Replica} {steps : Steps ℝ} {phases : Phases ℝ}
    {available n : ℕ} :
    Admitted replica steps phases available n ↔
      (0 < steps.code ∧ phases.code < 1023) ∧ n = ⌈(1023 - phases.code) / steps.code⌉₊ ∧
        n < UInt32.size ∧ n ≤ available ∧ -1 / 2 < phases.code ∧
          ⌈phases.code + (n - 1 : ℕ) * steps.code + 1 / 2⌉ < replica.size := by
  have hfirst : 0 ≤ ⌈phases.code - 1 / 2⌉ ↔ -1 / 2 < phases.code := by
    have := Int.lt_ceil (a := phases.code - 1 / 2) (z := -1)
    rw [← Int.sub_one_lt_iff, zero_sub, this]
    push_cast
    constructor <;> intro h <;> linarith
  have horder : 0 < steps.code →
      ⌈phases.code - 1 / 2⌉ ≤ ⌈phases.code + (n - 1 : ℕ) * steps.code + 1 / 2⌉ := by
    intro hs
    have := mul_nonneg (Nat.cast_nonneg (α := ℝ) (n - 1)) hs.le
    exact Int.ceil_mono (by linarith)
  constructor
  · rintro ⟨hmotion, hn, hsize, havailable, hlow, hhigh⟩
    rw [checkPhase_real_iff, half_real] at hlow hhigh
    rw [codePhaseAt_real] at hhigh
    exact ⟨(checkMotion_real_iff ..).mp hmotion, (eq_blockLength_iff hsize).mp hn, hsize, havailable,
      hfirst.mp hlow.1, hhigh.2⟩
  · rintro ⟨hmotion, hn, hsize, havailable, hlow, hhigh⟩
    have hle := horder hmotion.1
    have hzero := hfirst.mpr hlow
    refine ⟨(checkMotion_real_iff ..).mpr hmotion, (eq_blockLength_iff hsize).mpr hn, hsize,
      havailable, ?_, ?_⟩
    · rw [checkPhase_real_iff, half_real]
      exact ⟨hzero, hle.trans_lt hhigh⟩
    · rw [checkPhase_real_iff, half_real, codePhaseAt_real]
      exact ⟨hzero.trans hle, hhigh⟩

theorem admitted_exact {replica : Replica} (hsize : replica.size = Replica.standardSize)
    {s d p f : ℝ} (hs : 0 < s) (hp : -1 / 2 < p) (hp' : p < 1023) {available : ℕ}
    (hn : ⌈(1023 - p) / s⌉₊ < UInt32.size) (havailable : ⌈(1023 - p) / s⌉₊ ≤ available) :
    Admitted replica ⟨s, d⟩ ⟨p, f⟩ available ⌈(1023 - p) / s⌉₊ := by
  have hpos : 0 < ⌈(1023 - p) / s⌉₊ := Nat.ceil_pos.mpr (div_pos (sub_pos.mpr hp') hs)
  have hlast := ceil_codePhase_le hs (Nat.sub_lt hpos Nat.one_pos) le_rfl
  have hlength : (codeChips : ℤ) + 1 < replica.size := by
    rw [hsize]
    decide
  exact admitted_real_iff.mpr ⟨⟨hs, hp'⟩, rfl, hn, havailable, hp, hlast.trans_lt hlength⟩

theorem advance_real (p f s d : ℝ) (n : ℕ) :
    (⟨p, f⟩ : Phases ℝ).advance ⟨s, d⟩ n =
      ⟨p + n * s - 1023, Scalar.remainder (f + n * d) (2 * Real.pi)⟩ := by
  rw [Phases.advance, codePhaseAt_real, codePeriod_real, Scalar.ofCount_real, Scalar.pi_real,
    two_real]

/-- The arms of a block are the direct correlations of its samples with the chips that are read. -/
theorem get_arms_ofSamples (replica : Replica) (steps : Steps ℝ) (phases : Phases ℝ) {n : ℕ}
    {samples : List Int8} (hn : n ≤ samples.length) (arm : Arm) :
    (Block.ofSamples replica steps phases n samples).arms.get arm =
      .direct (fun j => (samples.getD j 0).toInt)
        (fun j => replica.chipAt (phases.code + j * steps.code + arm.offset))
        (fun j => phases.carrier + j * steps.carrier) 0 n := by
  have hlength : (samples.take n).length = n := List.length_take_of_le hn
  have hsample : ∀ i (h : i < (samples.take n).length),
      (((samples.getD (0 + i) 0).toInt : ℤ) : ℝ) = ((samples.take n)[i].toInt : ℝ) := by
    intro i h
    have hi : i < samples.length := h.trans_le (List.length_take_le' ..)
    rw [Nat.zero_add, List.getElem_take, List.getD_eq_getElem?_getD,
      List.getElem?_eq_getElem hi, Option.getD_some]
  have hsum := get_integrate replica phases.code steps.code phases.carrier steps.carrier arm
    (fun j => (samples.getD j 0).toInt) _ 0 .zero hsample
  have hstart : Oscillator.ofPhase (phases.carrier + ((0 : ℕ) : ℝ) * steps.carrier) =
      Oscillator.ofPhase phases.carrier := by
    rw [Nat.cast_zero, zero_mul, add_zero]
  dsimp only at hsum
  rw [hstart, hlength, Nat.zero_add, Arms.get_zero] at hsum
  simp only [zero_add] at hsum
  exact hsum

/-- A block in exact arithmetic: it is there, takes the samples up to the end of the code period,
and its arms are the direct correlations of these samples. -/
theorem nextBlock_exact {chips : List Int8} (hchips : chips.length = codeChips) {s d p f : ℝ}
    (hs : 0 < s) (hp : -1 / 2 < p) (hp' : p < 1023) {samples : List Int8}
    (hn : ⌈(1023 - p) / s⌉₊ < UInt32.size) (hsamples : ⌈(1023 - p) / s⌉₊ ≤ samples.length) :
    ∃ block, nextBlock (.ofPeriod chips) ⟨s, d⟩ ⟨p, f⟩ samples =
        .ok (block, (⟨p, f⟩ : Phases ℝ).advance ⟨s, d⟩ ⌈(1023 - p) / s⌉₊) ∧
      block.sampleCount.toNat = ⌈(1023 - p) / s⌉₊ ∧
      ∀ arm : Arm, block.arms.get arm =
        .direct (fun j => (samples.getD j 0).toInt)
          (fun j => Replica.periodic chips ⌈p + j * s + arm.offset⌉) (fun j => f + j * d)
          0 ⌈(1023 - p) / s⌉₊ := by
  have hsize := Replica.size_ofPeriod_of_length hchips
  have hadmitted := admitted_exact (d := d) (f := f) hsize hs hp hp' hn hsamples
  refine ⟨_, (nextBlock_eq_ok_iff ..).mpr ⟨_, hadmitted, rfl, rfl⟩,
    toNat_sampleCount_ofSamples hn .., ?_⟩
  intro arm
  rw [get_arms_ofSamples _ _ _ hsamples]
  refine Correlation.direct_congr (fun _ _ _ => rfl) (fun j _ hj => ?_) (fun _ _ _ => rfl)
    (fun _ _ _ => rfl)
  have hindex := ceil_mem_replica hs hp hj arm.neg_half_le_offset arm.offset_le_half
  exact Replica.chipAt_ofPeriod hchips hindex.1 hindex.2

end SatNav
