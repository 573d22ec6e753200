import SatNav.Proofs.Channel.ExactBlock
import SatNav.Proofs.Channel.Walk

/-!
# Consecutive blocks in exact arithmetic

Block after block the samples are divided at `blockStart`, the first samples whose code
phase has reached the end of a code period. `SeamlessAt` is what holds between two
blocks: the channel stands at the code phase and, up to whole turns, at the carrier
phase that it would have without any blocks, so the sums of the next block continue
those of the last one. `blocks_seamless` is the result for any number of blocks.
-/

namespace SatNav

open Exact

/-- The number of the first sample of block `m`, for a code that starts at phase `p` and moves by
`s` with each sample. -/
noncomputable def blockStart (p s : ℝ) : ℕ → ℕ
  | 0 => 0
  | m + 1 => ⌈(1023 * (m + 1) - p) / s⌉₊

/-- The code phase at the first sample of block `m`, counted from the beginning of its period. -/
noncomputable def blockPhase (p s : ℝ) (m : ℕ) : ℝ := p + blockStart p s m * s - 1023 * m

theorem blockStart_zero (p s : ℝ) : blockStart p s 0 = 0 := rfl

theorem blockStart_succ (p s : ℝ) (m : ℕ) :
    blockStart p s (m + 1) = ⌈(1023 * (m + 1) - p) / s⌉₊ := rfl

theorem blockPhase_zero (p s : ℝ) : blockPhase p s 0 = p := by
  simp [blockPhase, blockStart_zero]

variable {p s : ℝ}

theorem blockPhase_succ_nonneg (hs : 0 < s) (m : ℕ) : 0 ≤ blockPhase p s (m + 1) := by
  have hceil := Nat.le_ceil ((1023 * (m + 1) - p) / s)
  rw [div_le_iff₀ hs] at hceil
  rw [blockPhase, blockStart_succ]
  push_cast
  linarith

theorem blockPhase_succ_lt (hs : 0 < s) (hp : p < 1023) (m : ℕ) :
    blockPhase p s (m + 1) < s := by
  have hm : 0 ≤ (m : ℝ) := Nat.cast_nonneg m
  have hnonneg : 0 ≤ (1023 * (m + 1) - p) / s := div_nonneg (by linarith) hs.le
  have hceil := Nat.ceil_lt_add_one hnonneg
  have hmul := mul_lt_mul_of_pos_right hceil hs
  rw [add_mul, div_mul_cancel₀ _ hs.ne', one_mul] at hmul
  rw [blockPhase, blockStart_succ]
  push_cast
  linarith

theorem neg_half_lt_blockPhase (hs : 0 < s) (hp : -1 / 2 < p) (m : ℕ) :
    -1 / 2 < blockPhase p s m := by
  cases m with
  | zero => rwa [blockPhase_zero]
  | succ m => linarith [blockPhase_succ_nonneg (p := p) hs m]

theorem blockPhase_lt (hs : 0 < s) (hs' : s ≤ 1023) (hp : p < 1023) (m : ℕ) :
    blockPhase p s m < 1023 := by
  cases m with
  | zero => rwa [blockPhase_zero]
  | succ m => exact (blockPhase_succ_lt hs hp m).trans_le hs'

/-- A block begins where the one before it ends. -/
theorem blockStart_add_ceil (hs : 0 < s) (hs' : s ≤ 1023) (hp : p < 1023) (m : ℕ) :
    blockStart p s m + ⌈(1023 - blockPhase p s m) / s⌉₊ = blockStart p s (m + 1) := by
  have hnonneg : 0 ≤ (1023 - blockPhase p s m) / s :=
    div_nonneg (by linarith [blockPhase_lt hs hs' hp m]) hs.le
  rw [blockStart_succ, Nat.add_comm, ← Nat.ceil_add_natCast hnonneg, blockPhase]
  congr 1
  field_simp
  ring

/-- The code starts over at the end of a block. -/
theorem blockPhase_succ (hs : 0 < s) (hs' : s ≤ 1023) (hp : p < 1023) (m : ℕ) :
    blockPhase p s (m + 1) =
      blockPhase p s m + ⌈(1023 - blockPhase p s m) / s⌉₊ * s - 1023 := by
  have hphase : blockPhase p s m = p + blockStart p s m * s - 1023 * m := rfl
  have hnext : blockPhase p s (m + 1) =
      p + blockStart p s (m + 1) * s - 1023 * ((m + 1 : ℕ) : ℝ) := rfl
  rw [hnext, ← blockStart_add_ceil hs hs' hp m]
  push_cast
  linear_combination -hphase

theorem ceil_blockPhase_lt_size (hs : 0 < s) (hp : -1 / 2 < p) (hsize : 1023.5 / s ≤ 4294967295)
    (m : ℕ) : ⌈(1023 - blockPhase p s m) / s⌉₊ < UInt32.size := by
  have hle : (1023 - blockPhase p s m) / s ≤ 1023.5 / s := by
    refine div_le_div_of_nonneg_right ?_ hs.le
    linarith [neg_half_lt_blockPhase hs hp m]
  have hceil : ⌈(1023 - blockPhase p s m) / s⌉₊ ≤ 4294967295 :=
    Nat.ceil_le.mpr (by exact_mod_cast hle.trans hsize)
  exact Nat.lt_of_le_of_lt hceil (by decide)

theorem blockStart_mono (hs : 0 < s) (hs' : s ≤ 1023) (hp : p < 1023) :
    Monotone (blockStart p s) :=
  monotone_nat_of_le_succ fun m => by
    rw [← blockStart_add_ceil hs hs' hp m]
    exact Nat.le_add_right ..

/-! ### Between two blocks -/

/-- The arm of block `b` as a sum over the samples from the first of the block up to the first of
the next one, in which nothing else depends on the division into blocks. -/
noncomputable def seamlessArm (chips samples : List Int8) (p f s d : ℝ) (arm : Arm) (b : ℕ) :
    Correlation ℝ :=
  .direct (fun j => (samples.getD j 0).toInt)
    (fun j => Replica.periodic chips ⌈p + j * s + arm.offset⌉) (fun j => f + j * d)
    (blockStart p s b) (blockStart p s (b + 1))

/-- A channel after `m` blocks of samples that it entered with the phases `p` and `f`. -/
structure SeamlessAt (chips samples : List Int8) (p f s d : ℝ) (m : ℕ) (w : Walk ℝ) :
    Prop where
  offset_eq : w.offset = blockStart p s m
  code_eq : w.phases.code = blockPhase p s m
  carrier_eq : ∃ turns : ℤ,
    w.phases.carrier = f + blockStart p s m * d + turns * (2 * Real.pi)
  carrier_lt : 0 < m → |w.phases.carrier| < 2 * Real.pi
  length_records : w.records.length = m
  arms_eq : ∀ b (h : b < w.records.length) (arm : Arm),
    w.records[b].block.arms.get arm = seamlessArm chips samples p f s d arm b

theorem seamlessAt_start (chips samples : List Int8) (p f s d : ℝ) :
    SeamlessAt chips samples p f s d 0 (.start ⟨p, f⟩) where
  offset_eq := rfl
  code_eq := (blockPhase_zero p s).symm
  carrier_eq := ⟨0, by simp [Walk.start, blockStart_zero]⟩
  carrier_lt h := absurd h (lt_irrefl 0)
  length_records := rfl
  arms_eq _ h := absurd h (Nat.not_lt_zero _)

theorem exists_remainder_eq (x y : ℝ) :
    ∃ turns : ℤ, Scalar.remainder x y = x + turns * y := by
  refine ⟨-wholePart (x / y), ?_⟩
  rw [Scalar.remainder_real]
  push_cast
  ring

/-- The sums of a block that starts at the phases of an unbroken channel continue its sums. -/
theorem direct_drop_eq_seamlessArm (hs : 0 < s) (hs' : s ≤ 1023) (hp : p < 1023)
    {chips : List Int8} (hchips : chips.length = codeChips) (samples : List Int8) (f d : ℝ)
    (arm : Arm) (m : ℕ) (turns : ℤ) :
    Correlation.direct (fun j => ((samples.drop (blockStart p s m)).getD j 0).toInt)
        (fun j => Replica.periodic chips ⌈blockPhase p s m + j * s + arm.offset⌉)
        (fun j => f + blockStart p s m * d + turns * (2 * Real.pi) + j * d) 0
        ⌈(1023 - blockPhase p s m) / s⌉₊ =
      seamlessArm chips samples p f s d arm m := by
  rw [seamlessArm, ← blockStart_add_ceil hs hs' hp m, Correlation.direct_add]
  have hphase (j : ℕ) : f + blockStart p s m * d + turns * (2 * Real.pi) + j * d =
      f + ((j + blockStart p s m : ℕ) : ℝ) * d + turns * (2 * Real.pi) := by
    push_cast
    ring
  refine Correlation.direct_congr (fun j _ _ => ?_) (fun j _ _ => ?_) (fun j _ _ => ?_)
    (fun j _ _ => ?_)
  · rw [List.getD_eq_getElem?_getD, List.getElem?_drop, Nat.add_comm, ← List.getD_eq_getElem?_getD]
  · have hindex : blockPhase p s m + j * s + arm.offset =
        p + ((j + blockStart p s m : ℕ) : ℝ) * s + arm.offset -
          ((m * (chips.length : ℤ) : ℤ) : ℝ) := by
      rw [blockPhase, hchips, codeChips]
      push_cast
      ring
    rw [hindex, Int.ceil_sub_intCast, Replica.periodic_sub_mul]
  · rw [hphase, Real.sin_add_int_mul_two_pi]
  · rw [hphase, Real.cos_add_int_mul_two_pi]

/-- One more block leaves the channel as an unbroken one. -/
theorem SeamlessAt.step {chips samples : List Int8} {f d : ℝ} {m : ℕ} {w : Walk ℝ}
    (h : SeamlessAt chips samples p f s d m w) (hchips : chips.length = codeChips)
    (hs : 0 < s) (hs' : s ≤ 1023) (hsize : 1023.5 / s ≤ 4294967295) (hp : -1 / 2 < p)
    (hp' : p < 1023) (hsamples : blockStart p s (m + 1) ≤ samples.length) :
    ∃ later, w.step (.ofPeriod chips) ⟨s, d⟩ samples = .ok later ∧
      SeamlessAt chips samples p f s d (m + 1) later := by
  obtain ⟨⟨code, carrier⟩, offset, records⟩ := w
  obtain ⟨hoffset, hcode, ⟨turns, hcarrier⟩, -, hrecords, harms⟩ := h
  dsimp only at hoffset hcode hcarrier hrecords
  subst hoffset hcode hcarrier
  have hstart := blockStart_add_ceil hs hs' hp' m
  have hlength : ⌈(1023 - blockPhase p s m) / s⌉₊ ≤
      (samples.drop (blockStart p s m)).length := by
    rw [List.length_drop]
    omega
  obtain ⟨block, hblock, hcount, hblockArms⟩ := nextBlock_exact (d := d)
    (f := f + blockStart p s m * d + turns * (2 * Real.pi)) hchips hs
    (neg_half_lt_blockPhase hs hp m) (blockPhase_lt hs hs' hp' m)
    (ceil_blockPhase_lt_size hs hp hsize m) hlength
  refine ⟨_, Walk.step_eq_ok_iff.mpr ⟨_, _, hblock, rfl⟩, ?_⟩
  rw [advance_real, Walk.addBlock]
  have hcast : (blockStart p s m : ℝ) + ⌈(1023 - blockPhase p s m) / s⌉₊ =
      blockStart p s (m + 1) := by exact_mod_cast hstart
  refine ⟨?_, ?_, ?_, fun _ => abs_remainder_lt _ Real.two_pi_pos, ?_, ?_⟩
  · dsimp only
    rw [hcount, hstart]
  · exact (blockPhase_succ hs hs' hp' m).symm
  · obtain ⟨more, hmore⟩ := exists_remainder_eq
      (f + blockStart p s m * d + turns * (2 * Real.pi) +
        ⌈(1023 - blockPhase p s m) / s⌉₊ * d) (2 * Real.pi)
    refine ⟨turns + more, ?_⟩
    dsimp only
    rw [hmore, ← hcast]
    push_cast
    ring
  · rw [List.length_append, hrecords, List.length_singleton]
  · intro b hb arm
    dsimp only at hb ⊢
    rcases Nat.lt_or_ge b records.length with hlt | hge
    · rw [List.getElem_append_left hlt]
      exact harms b hlt arm
    · have hb' : b = records.length := by
        rw [List.length_append, List.length_singleton] at hb
        omega
      subst hb'
      rw [List.getElem_append_right hge]
      simp only [Nat.sub_self, List.getElem_cons_zero, BlockRecord.ofBlock]
      rw [hblockArms, hrecords]
      exact direct_drop_eq_seamlessArm hs hs' hp' hchips samples f d arm m turns

theorem exists_blocks_seamlessAt {chips samples : List Int8} {f d : ℝ}
    (hchips : chips.length = codeChips) (hs : 0 < s) (hs' : s ≤ 1023)
    (hsize : 1023.5 / s ≤ 4294967295) (hp : -1 / 2 < p) (hp' : p < 1023) (m : ℕ)
    (hsamples : blockStart p s m ≤ samples.length) :
    ∃ w, (Walk.start ⟨p, f⟩).blocks (.ofPeriod chips) ⟨s, d⟩ samples m = .ok w ∧
      SeamlessAt chips samples p f s d m w := by
  induction m with
  | zero => exact ⟨_, rfl, seamlessAt_start chips samples p f s d⟩
  | succ m ih =>
    obtain ⟨w, hw, hseamless⟩ := ih ((blockStart_mono hs hs' hp' (Nat.le_succ m)).trans hsamples)
    obtain ⟨later, hlater, hnext⟩ :=
      hseamless.step hchips hs hs' hsize hp hp' hsamples
    exact ⟨later, (Walk.blocks_succ_of_ok hw).trans hlater, hnext⟩

/-- Any number of consecutive blocks, each on the samples that the ones before it have left, are
one correlation that is never interrupted: all of them are there, they take the samples up to the
end of the last code period, code and carrier phase go on from block to block, and each arm of
each block is the sum over its samples that one unbroken code and carrier give. -/
theorem blocks_seamless {chips samples : List Int8} (hchips : chips.length = codeChips)
    {s d p f : ℝ} (hs : 0 < s) (hs' : s ≤ 1023) (hsize : 1023.5 / s ≤ 4294967295)
    (hp : -1 / 2 < p) (hp' : p < 1023) (m : ℕ)
    (hsamples : blockStart p s m ≤ samples.length) :
    ∃ w, (Walk.start ⟨p, f⟩).blocks (.ofPeriod chips) ⟨s, d⟩ samples m = .ok w ∧
      w.offset = blockStart p s m ∧
      w.phases.code = p + blockStart p s m * s - 1023 * m ∧
      (0 < m → 0 ≤ w.phases.code ∧ w.phases.code < s) ∧
      (∃ turns : ℤ, w.phases.carrier = f + blockStart p s m * d + turns * (2 * Real.pi)) ∧
      (0 < m → |w.phases.carrier| < 2 * Real.pi) ∧
      w.records.length = m ∧
      ∀ b (h : b < w.records.length) (arm : Arm),
        w.records[b].block.arms.get arm =
          .direct (fun j => (samples.getD j 0).toInt)
            (fun j => Replica.periodic chips ⌈p + j * s + arm.offset⌉) (fun j => f + j * d)
            (blockStart p s b) (blockStart p s (b + 1)) := by
  obtain ⟨w, hw, h⟩ := exists_blocks_seamlessAt (f := f) (d := d) hchips hs hs' hsize hp hp' m
    hsamples
  refine ⟨w, hw, h.offset_eq, h.code_eq, ?_, h.carrier_eq, h.carrier_lt, h.length_records,
    h.arms_eq⟩
  intro hm
  obtain ⟨k, rfl⟩ := Nat.exists_eq_succ_of_ne_zero hm.ne'
  rw [h.code_eq]
  exact ⟨blockPhase_succ_nonneg hs k, blockPhase_succ_lt hs hp' k⟩

/-- Two blocks at half a chip a sample, begun a quarter of a chip early: the second one ends a
quarter of a chip late. -/
theorem blocks_seamless_two_halves :
    ∃ w, (Walk.start ⟨-1 / 4, 3⟩).blocks (.ofPeriod (List.replicate 1023 1)) ⟨1 / 2, 1 / 7⟩
        (List.replicate 5000 1) 2 = .ok w ∧
      w.offset = 4093 ∧ w.phases.code = (1 / 4 : ℝ) := by
  have hstart : blockStart (-1 / 4) (1 / 2) 2 = 4093 := by
    rw [blockStart_succ, Nat.ceil_eq_iff (by norm_num)]
    norm_num
  obtain ⟨w, hw, hoffset, hcode, -⟩ := @blocks_seamless (List.replicate 1023 1)
    (List.replicate 5000 1) List.length_replicate (1 / 2) (1 / 7) (-1 / 4) 3 (by norm_num)
    (by norm_num) (by norm_num) (by norm_num) (by norm_num) 2
    (by rw [hstart, List.length_replicate]; norm_num)
  rw [hstart] at hoffset hcode
  refine ⟨w, hw, hoffset, ?_⟩
  rw [hcode]
  norm_num

end SatNav
