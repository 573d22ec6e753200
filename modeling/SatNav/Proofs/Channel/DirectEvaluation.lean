import SatNav.Proofs.Channel.ExactBlock

/-!
# Direct evaluation of a block

In exact arithmetic a block that is taken, from whatever replica, with whatever steps, is
the one that its description asks for: sample by sample the entry of the replica at the
index of the code phase, and sine and cosine of a carrier phase that grows by its step. No
step of the carrier is too large for this, since the oscillator is never off the unit
circle. `nextBlock_direct` says so, and that every index is one of the replica's.
-/

namespace SatNav

open Exact

/-- The entry of a replica at an index, as a number. -/
noncomputable def Replica.entry (replica : Replica) (i : ℤ) : ℝ :=
  (replica.getD i.toNat 0).toInt

variable {replica : Replica} {steps : Steps ℝ} {phases : Phases ℝ} {available n : ℕ}

/-- The two phases that are looked at before a block enclose all that it reads the replica with. -/
theorem Admitted.index_mem (h : Admitted replica steps phases available n) {k : ℕ} (hk : k < n)
    (arm : Arm) :
    0 ≤ ⌈phases.code + k * steps.code + arm.offset⌉ ∧
      ⌈phases.code + k * steps.code + arm.offset⌉ < replica.size := by
  obtain ⟨⟨hs, -⟩, -, -, -, hlow, hhigh⟩ := admitted_real_iff.mp h
  have hfirst : 0 ≤ (k : ℝ) * steps.code := mul_nonneg (Nat.cast_nonneg k) hs.le
  have hlast : (k : ℝ) * steps.code ≤ (n - 1 : ℕ) * steps.code :=
    mul_le_mul_of_nonneg_right (Nat.cast_le.mpr (Nat.le_pred_of_lt hk)) hs.le
  have hoffset := arm.neg_half_le_offset
  have hoffset' := arm.offset_le_half
  constructor
  · exact Int.ceil_nonneg_of_neg_one_lt (by linarith)
  · exact (Int.ceil_mono (by linarith)).trans_lt hhigh

theorem Admitted.chipAt_eq_entry (h : Admitted replica steps phases available n) {k : ℕ}
    (hk : k < n) (arm : Arm) :
    replica.chipAt (phases.code + k * steps.code + arm.offset) =
      replica.entry ⌈phases.code + k * steps.code + arm.offset⌉ := by
  obtain ⟨⟨hs, -⟩, rfl, -, -, hlow, -⟩ := admitted_real_iff.mp h
  have hindex := ceil_mem_replica hs hlow hk arm.neg_half_le_offset arm.offset_le_half
  exact Replica.chipAt_real replica (hindex.2.trans (by decide))

/-- A block that is taken has as many samples as the code phase needs to the end of the period. Its
loop mixes sample `k` with the oscillator after `k` samples, and renormalises it by the factor one.
So each arm is the sum, over the samples, of the sample times the entry of the replica times sine,
in phase, and cosine, in quadrature, of the carrier phase, and all of the entries are there. -/
theorem nextBlock_direct {samples : List Int8} {block : Block ℝ} {after : Phases ℝ}
    (h : nextBlock replica steps phases samples = .ok (block, after)) :
    let n := block.sampleCount.toNat
    let carrier := (Oscillator.ofPhase phases.carrier).after (.ofPhase steps.carrier)
    (n : ℤ) = ⌈(1023 - phases.code) / steps.code⌉ ∧ n ≤ samples.length ∧
      block.arms = (samples.take n).zipIdx.foldl (fun arms x =>
        arms.add replica (codePhaseAt phases.code steps.code x.2) (carrier x.2) x.1) .zero ∧
      (∀ k, ((carrier k).rotate (.ofPhase steps.carrier)).correction = 1) ∧
      ∀ arm : Arm,
        (∀ k < n, 0 ≤ ⌈phases.code + k * steps.code + arm.offset⌉ ∧
          ⌈phases.code + k * steps.code + arm.offset⌉ < replica.size) ∧
        block.arms.get arm =
          .direct (fun k => (samples.getD k 0).toInt)
            (fun k => replica.entry ⌈phases.code + k * steps.code + arm.offset⌉)
            (fun k => phases.carrier + k * steps.carrier) 0 n := by
  obtain ⟨n, hadmitted, rfl, -⟩ := (nextBlock_eq_ok_iff ..).mp h
  obtain ⟨⟨hs, hp⟩, hn, -⟩ := admitted_real_iff.mp hadmitted
  dsimp only
  rw [toNat_sampleCount_ofSamples hadmitted.lt_size]
  refine ⟨?_, hadmitted.le_available, ?_, ?_, ?_⟩
  · rw [hn, Int.natCast_ceil_eq_ceil (div_pos (sub_pos.mpr hp) hs).le]
  · exact integrate_after replica phases.code steps.code _ _ (samples.take n) 0 .zero
  · intro k
    rw [Oscillator.after_ofPhase, Oscillator.rotate_ofPhase, Oscillator.correction_ofPhase]
  · intro arm
    refine ⟨fun k hk => hadmitted.index_mem hk arm, ?_⟩
    rw [get_arms_ofSamples _ _ _ hadmitted.le_available]
    exact Correlation.direct_congr (fun _ _ _ => rfl)
      (fun k _ hk => hadmitted.chipAt_eq_entry hk arm) (fun _ _ _ => rfl) (fun _ _ _ => rfl)

/-- Two samples half a code period apart, on half a replica, with a carrier that makes sixteen turns
from one to the other: the early arm reads the entries 0 and 512. -/
theorem nextBlock_direct_half_periods :
    let replica : Replica := Array.replicate 514 5
    ∃ block after, nextBlock replica ⟨512, 100⟩ (⟨-1 / 4, 1⟩ : Phases ℝ) [3, -3, 7] =
        .ok (block, after) ∧
      block.sampleCount.toNat = 2 ∧
      block.arms.get .early =
        ⟨3 * 5 * Real.sin 1 - 3 * 5 * Real.sin 101, 3 * 5 * Real.cos 1 - 3 * 5 * Real.cos 101⟩ := by
  intro replica
  have hsize : replica.size = 514 := Array.size_replicate
  have hlength : ⌈(1023 - -1 / 4 : ℝ) / 512⌉₊ = 2 := by
    rw [Nat.ceil_eq_iff two_ne_zero]
    norm_num
  have hlast : ⌈(-1 / 4 : ℝ) + (2 - 1 : ℕ) * 512 + 1 / 2⌉ = 513 := by
    rw [Int.ceil_eq_iff]
    norm_num
  have hadmitted : Admitted replica ⟨512, 100⟩ (⟨-1 / 4, 1⟩ : Phases ℝ)
      ([3, -3, 7] : List Int8).length 2 :=
    admitted_real_iff.mpr ⟨by norm_num, hlength.symm, by decide, by decide, by norm_num, by
      rw [hlast, hsize]
      norm_num⟩
  have hblock := (nextBlock_eq_ok_iff replica ⟨512, 100⟩ ⟨-1 / 4, 1⟩ [3, -3, 7] _ _).mpr
    ⟨2, hadmitted, rfl, rfl⟩
  obtain ⟨-, -, -, -, harms⟩ := nextBlock_direct hblock
  obtain ⟨hindex, hearly⟩ := harms .early
  have hentry : ∀ i : ℤ, 0 ≤ i ∧ i < replica.size → replica.entry i = 5 := by
    rintro i ⟨hi, hi'⟩
    have hfive : (5 : Int8).toInt = 5 := rfl
    rw [Replica.entry, Array.getD_eq_getD_getElem?, Array.getElem?_replicate, if_pos (by omega),
      Option.getD_some, hfive, Int.cast_ofNat]
  have hfirst := hentry _ (hindex 0 (by decide))
  have hsecond := hentry _ (hindex 1 (by decide))
  have hthree : (3 : Int8).toInt = 3 := rfl
  have hminusThree : (-3 : Int8).toInt = -3 := rfl
  refine ⟨_, _, hblock, rfl, hearly.trans ?_⟩
  rw [toNat_sampleCount_ofSamples (by decide), Correlation.direct]
  simp only [Nat.Ico_zero_eq_range, Finset.sum_range_succ, Finset.sum_range_zero, hfirst, hsecond,
    List.getD_cons_zero, List.getD_cons_succ, hthree, hminusThree]
  norm_num [sub_eq_add_neg]

end SatNav
