import Mathlib.Data.List.GetD
import SatNav.Proofs.Channel.DirectEvaluation

/-!
# The replica of a file

A file of one code period gives a replica of two more entries than it has bytes, and these
are the code repeated without end, `codeChip`, from the chip before the first one to the
chip after the last. In exact arithmetic this is enough for every block: the index of the
late arm never runs past the last entry. The early arm comes before the first entry just
when the code phase is half a chip or more before the period, which is then the fault that
is reported.
-/

namespace SatNav

open Exact

/-- Chip `i` of the code in a file, which is repeated without end. The first chip is number zero. -/
def codeChip (content : List UInt8) (i : ℤ) : Int8 :=
  (content.getD (i % codeChips).toNat 0).toInt8

namespace Replica

theorem ofFile_eq_ok_iff {content : List UInt8} {replica : Replica} :
    ofFile content = .ok replica ↔
      content.length = codeChips ∧ replica = ofPeriod (content.map UInt8.toInt8) := by
  unfold ofFile
  split
  · next h => exact ⟨fun hok => (nomatch hok), fun hok => absurd hok.1 h⟩
  · next h =>
    rw [Except.ok.injEq]
    exact ⟨fun hok => ⟨Decidable.not_not.mp h, hok.symm⟩, fun hok => hok.2.symm⟩

variable {content : List UInt8} (hlength : content.length = codeChips)
include hlength

theorem size_ofPeriod_map : (ofPeriod (content.map UInt8.toInt8)).size = standardSize :=
  size_ofPeriod_of_length (by rw [List.length_map, hlength])

theorem getD_ofPeriod_map {i : ℤ} (hi : 0 ≤ i) (hi' : i ≤ codeChips + 1) :
    (ofPeriod (content.map UInt8.toInt8)).getD i.toNat 0 = codeChip content (i - 1) := by
  have hne : content.map UInt8.toInt8 ≠ [] := by
    rintro hnil
    rw [List.map_eq_nil_iff.mp hnil] at hlength
    cases hlength
  rw [getD_ofPeriod hne hi (by rwa [List.length_map, hlength]), List.length_map, hlength, codeChip]
  exact List.getD_map content 0 UInt8.toInt8

theorem getElem?_ofPeriod_map {i : ℕ} (hi : i ≤ codeChips + 1) :
    (ofPeriod (content.map UInt8.toInt8))[i]? = some (codeChip content (i - 1)) := by
  have hsize := size_ofPeriod_map hlength
  have hlt : i < (ofPeriod (content.map UInt8.toInt8)).size := by
    rw [hsize]
    exact Nat.lt_succ_of_le hi
  have hget := getD_ofPeriod_map hlength (Int.natCast_nonneg i) (by exact_mod_cast hi)
  rw [Int.toNat_natCast, Array.getD_eq_getD_getElem?, Array.getElem?_eq_getElem hlt,
    Option.getD_some] at hget
  rw [Array.getElem?_eq_getElem hlt, hget]

end Replica

/-! ### Blocks on the replica of a file -/

/-- Neither of the two phases that are looked at before a block has an index beyond the replica. -/
theorem ceil_lt_ofCount_standardSize {p s : ℝ} (hs : 0 < s) (hp : p < 1023) :
    Scalar.ceil (p - 0.5) < (Scalar.ofCount Replica.standardSize : ℝ) ∧
      Scalar.ceil (codePhaseAt p s (blockLength p s - 1) + 0.5) <
        (Scalar.ofCount Replica.standardSize : ℝ) := by
  have hpos : 0 < ⌈(1023 - p) / s⌉₊ := Nat.ceil_pos.mpr (div_pos (sub_pos.mpr hp) hs)
  have hlast : blockLength p s - 1 < ⌈(1023 - p) / s⌉₊ := by
    rw [blockLength_real]
    omega
  have hbound : ∀ x : ℝ, ⌈x⌉ ≤ codeChips + 1 →
      (⌈x⌉ : ℝ) < ((Replica.standardSize : ℕ) : ℝ) := by
    intro x hx
    have : ⌈x⌉ < (Replica.standardSize : ℤ) := hx.trans_lt (by decide)
    exact_mod_cast this
  have hfirst := ceil_codePhase_le hs hpos (p := p) (o := -1 / 2) (by norm_num)
  have hsecond := ceil_codePhase_le hs hlast (o := 1 / 2) le_rfl
  have hstart : p - 0.5 = p + (0 : ℕ) * s + -1 / 2 := by
    rw [half_real]
    push_cast
    ring
  rw [Scalar.ofCount_real, Scalar.ceil_real, Scalar.ceil_real, hstart, codePhaseAt_real, half_real]
  exact ⟨hbound _ hfirst, hbound _ hsecond⟩

/-- Half a chip or more before the period the early arm has no index. -/
theorem nextBlock_of_early {replica : Replica} {steps : Steps ℝ} {phases : Phases ℝ}
    {samples : List Int8} (hmotion : checkMotion steps phases = .ok ())
    (hsize : blockLength phases.code steps.code < UInt32.size)
    (hsamples : blockLength phases.code steps.code ≤ samples.length)
    (h : phases.code ≤ -1 / 2) :
    nextBlock replica steps phases samples =
      .error (.outsideReplica (max (-2 ^ 63) (min ⌈phases.code - 1 / 2⌉ (2 ^ 63 - 1)))
        replica.size) := by
  have hindex : ⌈phases.code - 1 / 2⌉ ≤ -1 := by
    rw [Int.ceil_le]
    push_cast
    linarith
  have hneg : Scalar.ceil (phases.code - 0.5) < (0.0 : ℝ) := by
    rw [Scalar.ceil_real, half_real, zero_real, Int.cast_lt_zero]
    exact hindex.trans_lt (by decide)
  rw [nextBlock_of_first_error hmotion hsize hsamples (Replica.checkPhase_of_ceil_neg hneg replica),
    Scalar.ceil_real, half_real, Scalar.toIndex_intCast]

/-- Less than half a chip before the period, and up to its end, there is a block. -/
theorem exists_admitted {replica : Replica} (hreplica : replica.size = Replica.standardSize)
    {steps : Steps ℝ} {phases : Phases ℝ} {available : ℕ}
    (hmotion : checkMotion steps phases = .ok ())
    (hsize : blockLength phases.code steps.code < UInt32.size)
    (havailable : blockLength phases.code steps.code ≤ available) (h : -1 / 2 < phases.code) :
    Admitted replica steps phases available (blockLength phases.code steps.code) := by
  obtain ⟨hs, hp⟩ := (checkMotion_real_iff steps phases).mp hmotion
  have hlength := (eq_blockLength_iff hsize).mp rfl
  rw [hlength] at hsize havailable ⊢
  exact admitted_exact hreplica hs h hp hsize havailable

theorem Admitted.chipAt_ofPeriod_map {content : List UInt8} (hlength : content.length = codeChips)
    {steps : Steps ℝ} {phases : Phases ℝ} {available n : ℕ}
    (h : Admitted (.ofPeriod (content.map UInt8.toInt8)) steps phases available n) {k : ℕ}
    (hk : k < n) (arm : Arm) :
    (Replica.ofPeriod (content.map UInt8.toInt8)).chipAt
        (phases.code + k * steps.code + arm.offset) =
      (codeChip content (⌈phases.code + k * steps.code + arm.offset⌉ - 1)).toInt := by
  obtain ⟨⟨hs, -⟩, hn, -⟩ := admitted_real_iff.mp h
  rw [h.chipAt_eq_entry hk, Replica.entry, Replica.getD_ofPeriod_map hlength (h.index_mem hk arm).1
    (ceil_codePhase_le hs (hn ▸ hk) arm.offset_le_half)]

/-- A file gives a replica when it has one byte for each of the 1023 chips. The entries of the
replica are the chips before, in and after the period of the code, so no code phase before the end
of the period is too late for it. Where the motion, the length and the samples of a block are
accepted, there is a block unless the code phase is half a chip or more before the period. At each
sample each arm then reads a chip of the repeated code, and the arms of the block are the direct
correlations of the samples with these chips. -/
theorem ofFile_periodic (content : List UInt8) :
    ((∃ replica, Replica.ofFile content = .ok replica) ↔ content.length = 1023) ∧
      ∀ replica, Replica.ofFile content = .ok replica →
        replica.size = 1025 ∧
        (∀ i : ℕ, i ≤ 1024 → replica[i]? = some (codeChip content (i - 1))) ∧
        (∀ p s : ℝ, 0 < s → p < 1023 →
          Scalar.ceil (p - 0.5) < (Scalar.ofCount replica.size : ℝ) ∧
            Scalar.ceil (codePhaseAt p s (blockLength p s - 1) + 0.5) <
              (Scalar.ofCount replica.size : ℝ)) ∧
        ∀ (steps : Steps ℝ) (phases : Phases ℝ) (samples : List Int8),
          checkMotion steps phases = .ok () →
          blockLength phases.code steps.code < UInt32.size →
          blockLength phases.code steps.code ≤ samples.length →
          ((∃ index size, nextBlock replica steps phases samples =
              .error (.outsideReplica index size)) ↔ phases.code ≤ -1 / 2) ∧
          (phases.code ≤ -1 / 2 →
            nextBlock replica steps phases samples =
              .error (.outsideReplica (max (-2 ^ 63) (min ⌈phases.code - 1 / 2⌉ (2 ^ 63 - 1)))
                1025)) ∧
          (-1 / 2 < phases.code →
            ∃ block after, nextBlock replica steps phases samples = .ok (block, after) ∧
              block.sampleCount.toNat = blockLength phases.code steps.code ∧
              ∀ arm : Arm,
                (∀ k < block.sampleCount.toNat,
                  replica.chipAt (arm.phase (codePhaseAt phases.code steps.code k)) =
                    (codeChip content
                      (⌈phases.code + k * steps.code + arm.offset⌉ - 1)).toInt) ∧
                block.arms.get arm =
                  .direct (fun k => (samples.getD k 0).toInt)
                    (fun k => (codeChip content
                      (⌈phases.code + k * steps.code + arm.offset⌉ - 1)).toInt)
                    (fun k => phases.carrier + k * steps.carrier) 0
                    block.sampleCount.toNat) := by
  refine ⟨?_, ?_⟩
  · constructor
    · rintro ⟨replica, h⟩
      exact (Replica.ofFile_eq_ok_iff.mp h).1
    · intro h
      exact ⟨_, Replica.ofFile_eq_ok_iff.mpr ⟨h, rfl⟩⟩
  · intro replica h
    obtain ⟨hlength, rfl⟩ := Replica.ofFile_eq_ok_iff.mp h
    have hreplica := Replica.size_ofPeriod_map hlength
    refine ⟨hreplica, fun i hi => Replica.getElem?_ofPeriod_map hlength hi, ?_, ?_⟩
    · intro p s hs hp
      rw [hreplica]
      exact ceil_lt_ofCount_standardSize hs hp
    · intro steps phases samples hmotion hsize hsamples
      have hearly := @nextBlock_of_early (.ofPeriod (content.map UInt8.toInt8)) steps phases samples
        hmotion hsize hsamples
      have hblock : -1 / 2 < phases.code → _ := fun hp =>
        (nextBlock_eq_ok_iff ..).mpr
          ⟨_, exists_admitted hreplica hmotion hsize hsamples hp, rfl, rfl⟩
      rw [hreplica] at hearly
      refine ⟨⟨?_, fun hp => ⟨_, _, hearly hp⟩⟩, hearly, ?_⟩
      · rintro ⟨index, size, hfault⟩
        by_contra hp
        rw [hblock (not_le.mp hp)] at hfault
        cases hfault
      · intro hp
        have hadmitted := exists_admitted hreplica hmotion hsize hsamples hp
        refine ⟨_, _, hblock hp, toNat_sampleCount_ofSamples hsize .., fun arm => ?_⟩
        rw [toNat_sampleCount_ofSamples hsize]
        constructor
        · intro k hk
          rw [Arm.phase_real, codePhaseAt_real]
          exact hadmitted.chipAt_ofPeriod_map hlength hk arm
        · rw [get_arms_ofSamples _ _ _ hsamples]
          exact Correlation.direct_congr (fun _ _ _ => rfl)
            (fun k _ hk => hadmitted.chipAt_ofPeriod_map hlength hk arm) (fun _ _ _ => rfl)
            (fun _ _ _ => rfl)

/-- The last chip of the period is the first entry. Three quarters of a chip before the period the
early arm is one entry before it, which is refused. A quarter of a chip before the period it reads
the last chip, and with the next sample, half a period later, one of the others. -/
theorem ofFile_periodic_before_start :
    let content : List UInt8 := List.replicate 1022 1 ++ [255]
    ∃ replica, Replica.ofFile content = .ok replica ∧ replica[0]? = some (-1 : Int8) ∧
      nextBlock replica ⟨1, 0⟩ (⟨-3 / 4, 0⟩ : Phases ℝ) (List.replicate 1024 7) =
        .error (.outsideReplica (-1) 1025) ∧
      ∃ block after, nextBlock replica ⟨512, 0⟩ (⟨-1 / 4, 0⟩ : Phases ℝ) [3, 5] =
          .ok (block, after) ∧
        block.arms.get .early = ⟨0, 3 * -1 + 5 * 1⟩ := by
  intro content
  have hlength : content.length = 1023 := by
    rw [List.length_append, List.length_replicate, List.length_singleton]
  obtain ⟨replica, h⟩ := (ofFile_periodic content).1.mpr hlength
  obtain ⟨-, hentries, -, hblocks⟩ := (ofFile_periodic content).2 replica h
  have hlast : codeChip content (-1) = -1 := by
    have hnumber : ((-1 : ℤ) % codeChips).toNat = 1022 := by decide
    rw [codeChip, hnumber, List.getD_append_right _ _ _ _ List.length_replicate.le,
      List.length_replicate]
    rfl
  have hmiddle : codeChip content 511 = 1 := by
    have hnumber : ((511 : ℤ) % codeChips).toNat = 511 := by decide
    rw [codeChip, hnumber, List.getD_append _ _ _ _ (by rw [List.length_replicate]; decide),
      List.getD_replicate _ (by decide)]
    rfl
  refine ⟨replica, h, hlast ▸ hentries 0 (Nat.zero_le _), ?_, ?_⟩
  · have hblock : blockLength (-3 / 4 : ℝ) 1 = 1024 := by
      refine ((eq_blockLength_iff (by decide)).mpr ?_).symm
      rw [eq_comm, Nat.ceil_eq_iff (by decide)]
      norm_num
    have hindex : ⌈(-3 / 4 - 1 / 2 : ℝ)⌉ = -1 := by
      rw [Int.ceil_eq_iff]
      norm_num
    have hfault := (hblocks ⟨1, 0⟩ ⟨-3 / 4, 0⟩ (List.replicate 1024 7)
      ((checkMotion_real_iff _ _).mpr (by norm_num)) (hblock ▸ by decide)
      (by rw [hblock, List.length_replicate])).2.1 (by norm_num)
    dsimp only at hfault
    rwa [hindex] at hfault
  · have hblock : blockLength (-1 / 4 : ℝ) 512 = 2 := by
      refine ((eq_blockLength_iff (by decide)).mpr ?_).symm
      rw [eq_comm, Nat.ceil_eq_iff (by decide)]
      norm_num
    obtain ⟨block, after, hok, hcount, harms⟩ := (hblocks ⟨512, 0⟩ ⟨-1 / 4, 0⟩ [3, 5]
      ((checkMotion_real_iff _ _).mpr (by norm_num)) (by rw [hblock]; decide)
      (by rw [hblock]; decide)).2.2 (by norm_num)
    have hfirst : ⌈(-1 / 4 : ℝ) + (0 : ℕ) * 512 + Arm.early.offset⌉ - 1 = -1 := by
      rw [sub_eq_neg_self, Int.ceil_eq_zero_iff]
      norm_num [Arm.offset]
    have hsecond : ⌈(-1 / 4 : ℝ) + (1 : ℕ) * 512 + Arm.early.offset⌉ - 1 = 511 := by
      rw [sub_eq_iff_eq_add, Int.ceil_eq_iff]
      norm_num [Arm.offset]
    refine ⟨block, after, hok, (harms .early).2.trans ?_⟩
    rw [hcount, hblock, Correlation.direct]
    simp only [Nat.Ico_zero_eq_range, Finset.sum_range_succ, Finset.sum_range_zero]
    have hthree : (3 : Int8).toInt = 3 := rfl
    have hfive : (5 : Int8).toInt = 5 := rfl
    have hone : (1 : Int8).toInt = 1 := rfl
    have hminusOne : (-1 : Int8).toInt = -1 := rfl
    rw [hfirst, hsecond, hlast, hmiddle]
    norm_num [hthree, hfive, hone, hminusOne]

end SatNav
