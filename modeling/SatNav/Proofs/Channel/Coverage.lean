import Mathlib.Order.Interval.Finset.Nat
import SatNav.Proofs.Channel.DirectEvaluation

/-!
# The chips of a block

With less than a chip from sample to sample, the prompt arm of a block goes through the
chips one by one, from that of the code phase up to the last one of the period. In exact
arithmetic a chip between these two is the prompt one for as many samples as fit into a
chip, `1 / s` rounded down or up: the samples of chip `i` are those whose number `k` has
`(i - 1 - p) / s < k ≤ (i - p) / s`.

`ChipsCovered` lists what this says about the indices of the arms, and
`chipsCovered_of_nextBlock` has it for the indices that a block reads.
-/

namespace SatNav

open Exact

/-- The index of the entry that an arm reads at sample `k` of a block. -/
def Arm.index {R : Type} [Scalar R] (phases : Phases R) (steps : Steps R) (arm : Arm) (k : ℕ) : ℕ :=
  Replica.indexAt (arm.phase (codePhaseAt phases.code steps.code k))

/-- The indices of the arms at the `n` samples of a block, from code phase `p` on with step `s`: the
late arm is one ahead of the early one and the prompt arm is with one of the two. The prompt arm
starts at the chip of the code phase, goes on by one chip or none at a time, and ends at the last
chip of the period. Every chip on the way is met, all but the outer ones as often as samples fit
into a chip. -/
structure ChipsCovered (p s : ℝ) (n : ℕ) (index : Arm → ℕ → ℕ) : Prop where
  late : ∀ k < n, index .late k = index .early k + 1
  prompt : ∀ k < n, index .prompt k = index .early k ∨ index .prompt k = index .late k
  first : (index .prompt 0 : ℤ) = ⌈p⌉
  le_succ : ∀ k, k + 1 < n → index .prompt k ≤ index .prompt (k + 1)
  succ_le : ∀ k, k + 1 < n → index .prompt (k + 1) ≤ index .prompt k + 1
  last : index .prompt (n - 1) = codeChips
  within : ∀ k < n, index .prompt k ≤ codeChips
  covered : ∀ i : ℕ, ⌈p⌉ ≤ i → i ≤ codeChips → ∃ k < n, index .prompt k = i
  count : ∀ i : ℕ, ⌈p⌉ < i → i < codeChips →
    ((Finset.range n).filter fun k => index .prompt k = i).card = ⌊1 / s⌋₊ ∨
      ((Finset.range n).filter fun k => index .prompt k = i).card = ⌈1 / s⌉₊

/-! ### Indices as ceilings -/

theorem Admitted.index_eq_ceil {replica : Replica} {steps : Steps ℝ} {phases : Phases ℝ}
    {available n : ℕ} (h : Admitted replica steps phases available n) (arm : Arm) {k : ℕ}
    (hk : k < n) :
    (arm.index phases steps k : ℤ) = ⌈phases.code + k * steps.code + arm.offset⌉ := by
  obtain ⟨⟨hs, -⟩, rfl, -, -, hlow, -⟩ := admitted_real_iff.mp h
  obtain ⟨hzero, hlast⟩ :=
    ceil_mem_replica hs hlow hk arm.neg_half_le_offset arm.offset_le_half
  rw [Arm.index, Replica.indexAt, Arm.phase_real, codePhaseAt_real, Scalar.ceil_real,
    Scalar.toCount_intCast (hlast.trans (by decide)), Int.toNat_of_nonneg hzero]

section Ceilings

variable {p s : ℝ} {n k : ℕ}

theorem ceil_add_half (x : ℝ) : ⌈x + 1 / 2⌉ = ⌈x - 1 / 2⌉ + 1 := by
  rw [← Int.ceil_add_one]
  congr 1
  ring

theorem codePhase_succ (p s : ℝ) (k : ℕ) : p + (k + 1 : ℕ) * s = p + k * s + s := by
  push_cast
  ring

theorem ceil_codePhase_le_succ (hs : 0 < s) (p : ℝ) (k : ℕ) :
    ⌈p + k * s⌉ ≤ ⌈p + (k + 1 : ℕ) * s⌉ := by
  rw [codePhase_succ]
  exact Int.ceil_mono (le_add_of_nonneg_right hs.le)

/-- A step of less than a chip does not skip one. -/
theorem ceil_codePhase_succ_le (hs : s < 1) (p : ℝ) (k : ℕ) :
    ⌈p + (k + 1 : ℕ) * s⌉ ≤ ⌈p + k * s⌉ + 1 := by
  rw [codePhase_succ, ← Int.ceil_add_one]
  exact Int.ceil_mono (add_le_add_right hs.le _)

/-- The last sample of a block is less than a step before the end of the period. -/
theorem ceil_codePhase_last (hs : 0 < s) (hs' : s < 1) (hp : p < 1023)
    (hn : n = ⌈(1023 - p) / s⌉₊) : ⌈p + (n - 1 : ℕ) * s⌉ = 1023 := by
  have hpos : 0 < n := hn ▸ Nat.ceil_pos.mpr (div_pos (sub_pos.mpr hp) hs)
  have hbefore : p + (n - 1 : ℕ) * s < 1023 :=
    codePhase_lt_of_lt_ceil hs (hn ▸ Nat.sub_lt hpos Nat.one_pos)
  have hafter : 1023 - p ≤ n * s := (div_le_iff₀ hs).mp (hn ▸ Nat.le_ceil _)
  have hsucc := codePhase_succ p s (n - 1)
  rw [Nat.sub_add_cancel hpos] at hsucc
  rw [Int.ceil_eq_iff]
  push_cast
  constructor <;> linarith

/-! ### Samples of a chip -/

/-- An interval of length `l` that is open below holds `l` whole numbers, rounded down or up. -/
theorem floor_add_sub_floor {x l : ℝ} (hx : 0 ≤ x) (hl : 0 ≤ l) :
    ⌊x + l⌋₊ - ⌊x⌋₊ = ⌊l⌋₊ ∨ ⌊x + l⌋₊ - ⌊x⌋₊ = ⌈l⌉₊ := by
  have hlow : ⌊x⌋₊ + ⌊l⌋₊ ≤ ⌊x + l⌋₊ := by
    apply Nat.le_floor
    push_cast
    exact add_le_add (Nat.floor_le hx) (Nat.floor_le hl)
  have hhigh : ⌊x + l⌋₊ ≤ ⌊x⌋₊ + ⌈l⌉₊ := by
    rw [← Nat.floor_add_natCast hx]
    exact Nat.floor_mono (add_le_add_right (Nat.le_ceil l) x)
  have hnear := Nat.ceil_le_floor_add_one l
  omega

/-- A chip after that of the code phase begins at the code phase or later. -/
theorem chipStart_nonneg (hs : 0 < s) {i : ℤ} (hi : ⌈p⌉ < i) : 0 ≤ (i - 1 - p) / s := by
  have hle : ((⌈p⌉ + 1 : ℤ) : ℝ) ≤ i := Int.cast_le.mpr hi
  push_cast at hle
  exact div_nonneg (by linarith [Int.le_ceil p]) hs.le

/-- The samples of a chip that begins after the code phase and ends before the period does. -/
theorem filter_ceil_codePhase (hs : 0 < s) (hn : n = ⌈(1023 - p) / s⌉₊) {i : ℤ}
    (hi : ⌈p⌉ < i) (hi' : i < 1023) :
    ((Finset.range n).filter fun k : ℕ => ⌈p + k * s⌉ = i) =
      Finset.Ioc ⌊(i - 1 - p) / s⌋₊ ⌊(i - 1 - p) / s + 1 / s⌋₊ := by
  have hstart : 0 ≤ (i - 1 - p) / s := chipStart_nonneg hs hi
  have hend : (i - 1 - p) / s + 1 / s = (i - p) / s := by ring
  have hperiod : (i : ℝ) < 1023 := by exact_mod_cast hi'
  ext k
  rw [Finset.mem_filter, Finset.mem_range, Finset.mem_Ioc, Nat.floor_lt hstart, hend,
    Nat.le_floor_iff (hend ▸ add_nonneg hstart (one_div_pos.mpr hs).le), div_lt_iff₀ hs,
    le_div_iff₀ hs, Int.ceil_eq_iff, hn, Nat.lt_ceil, lt_div_iff₀ hs]
  constructor
  · rintro ⟨-, hlow, hhigh⟩
    constructor <;> linarith
  · rintro ⟨hlow, hhigh⟩
    refine ⟨?_, ?_, ?_⟩ <;> linarith

end Ceilings

/-! ### Chips in order -/

/-- A sequence that grows by one or not at all takes every value on its way. -/
theorem exists_eq_of_succ_le {index : ℕ → ℕ} {m : ℕ}
    (hstep : ∀ k < m, index (k + 1) ≤ index k + 1) {i : ℕ} (hfirst : index 0 ≤ i)
    (hlast : i ≤ index m) : ∃ k ≤ m, index k = i := by
  induction m with
  | zero => exact ⟨0, le_rfl, le_antisymm hfirst hlast⟩
  | succ m ih =>
    rcases hlast.lt_or_eq with hlt | heq
    · have hbefore : i ≤ index m := Nat.le_of_lt_succ (hlt.trans_le (hstep m m.lt_succ_self))
      obtain ⟨k, hk, hki⟩ := ih (fun k hk => hstep k (hk.trans m.lt_succ_self)) hbefore
      exact ⟨k, hk.trans m.le_succ, hki⟩
    · exact ⟨m + 1, le_rfl, heq.symm⟩

/-- All that `ChipsCovered` says follows from the indices being the ceilings of the code phases of
the arms. -/
theorem ChipsCovered.of_ceil {p s : ℝ} {n : ℕ} {index : Arm → ℕ → ℕ} (hs : 0 < s) (hs' : s < 1)
    (hp : p < 1023) (hn : n = ⌈(1023 - p) / s⌉₊)
    (hindex : ∀ (arm : Arm), ∀ k < n, (index arm k : ℤ) = ⌈p + k * s + arm.offset⌉) :
    ChipsCovered p s n index := by
  have hpos : 0 < n := hn ▸ Nat.ceil_pos.mpr (div_pos (sub_pos.mpr hp) hs)
  have hprev : n - 1 < n := Nat.sub_lt hpos Nat.one_pos
  have hearly : ∀ k < n, (index .early k : ℤ) = ⌈p + k * s - 1 / 2⌉ := by
    intro k hk
    rw [hindex _ k hk, sub_eq_add_neg]
    norm_num [Arm.offset]
  have hprompt : ∀ k < n, (index .prompt k : ℤ) = ⌈p + k * s⌉ := by
    intro k hk
    rw [hindex _ k hk, Arm.offset, add_zero]
  have hlate : ∀ k < n, (index .late k : ℤ) = ⌈p + k * s - 1 / 2⌉ + 1 := by
    intro k hk
    rw [hindex _ k hk, ← ceil_add_half]
    norm_num [Arm.offset]
  have hle : ∀ k, k + 1 < n → index .prompt (k + 1) ≤ index .prompt k + 1 := by
    intro k hk
    have hceil := ceil_codePhase_succ_le hs' p k
    rw [← hprompt k (Nat.lt_of_succ_lt hk), ← hprompt (k + 1) hk] at hceil
    exact_mod_cast hceil
  have hfirst : (index .prompt 0 : ℤ) = ⌈p⌉ := by
    rw [hprompt 0 hpos, Nat.cast_zero, zero_mul, add_zero]
  have hlast : index .prompt (n - 1) = codeChips := by
    have hceil := ceil_codePhase_last hs hs' hp hn
    rw [← hprompt _ hprev] at hceil
    exact_mod_cast hceil
  refine ⟨?late, ?prompt, hfirst, ?le_succ, hle, hlast, ?within, ?covered, ?count⟩
  case late =>
    intro k hk
    have h := hlate k hk
    rw [← hearly k hk] at h
    exact_mod_cast h
  case prompt =>
    intro k hk
    have hlow : ⌈p + k * s - 1 / 2⌉ ≤ ⌈p + k * s⌉ := Int.ceil_mono (by linarith)
    have hhigh : ⌈p + k * s⌉ ≤ ⌈p + k * s + 1 / 2⌉ := Int.ceil_mono (by linarith)
    rw [ceil_add_half] at hhigh
    have he := hearly k hk
    have hp := hprompt k hk
    have hl := hlate k hk
    omega
  case le_succ =>
    intro k hk
    have hceil := ceil_codePhase_le_succ hs p k
    rw [← hprompt k (Nat.lt_of_succ_lt hk), ← hprompt (k + 1) hk] at hceil
    exact_mod_cast hceil
  case within =>
    intro k hk
    have hbefore := codePhase_lt_of_lt_ceil hs (hn ▸ hk)
    have hceil : ⌈p + k * s⌉ ≤ 1023 := Int.ceil_le.mpr (by exact_mod_cast hbefore.le)
    rw [← hprompt k hk] at hceil
    exact_mod_cast hceil
  case covered =>
    intro i hi hi'
    obtain ⟨k, hk, hki⟩ := exists_eq_of_succ_le
      (fun k hk => hle k (Nat.add_lt_of_lt_sub hk)) (by exact_mod_cast hfirst ▸ hi)
      (hlast ▸ hi')
    exact ⟨k, hk.trans_lt hprev, hki⟩
  case count =>
    intro i hi hi'
    have hfilter : ((Finset.range n).filter fun k => index .prompt k = i) =
        (Finset.range n).filter fun k : ℕ => ⌈p + k * s⌉ = (i : ℤ) := by
      refine Finset.filter_congr fun k hk => ?_
      rw [← hprompt k (Finset.mem_range.mp hk), Nat.cast_inj]
    rw [hfilter, filter_ceil_codePhase hs hn hi (by exact_mod_cast hi'), Nat.card_Ioc]
    exact floor_add_sub_floor (chipStart_nonneg hs hi) (one_div_pos.mpr hs).le

/-- The prompt arm of a block on a padded replica goes through the chips from that of the code phase
to the last one of the period, each of them for as many samples as fit into it, and the arms are the
sums over the chips with the indices in question. -/
theorem chipsCovered_of_nextBlock {chips : List Int8} (hchips : chips.length = codeChips)
    {steps : Steps ℝ} {phases after : Phases ℝ} {samples : List Int8} {block : Block ℝ}
    (hstep : steps.code < 1)
    (h : nextBlock (.ofPeriod chips) steps phases samples = .ok (block, after)) :
    let n := block.sampleCount.toNat
    ChipsCovered phases.code steps.code n (Arm.index phases steps) ∧
      ∀ arm : Arm, block.arms.get arm =
        .direct (fun k => (samples.getD k 0).toInt)
          (fun k => Replica.periodic chips (arm.index phases steps k))
          (fun k => phases.carrier + k * steps.carrier) 0 n := by
  obtain ⟨n, hadmitted, rfl, -⟩ := (nextBlock_eq_ok_iff ..).mp h
  obtain ⟨⟨hs, hp⟩, hn, -, -, hlow, -⟩ := admitted_real_iff.mp hadmitted
  dsimp only
  rw [toNat_sampleCount_ofSamples hadmitted.lt_size]
  refine ⟨.of_ceil hs hstep hp hn fun arm k hk => hadmitted.index_eq_ceil arm hk, fun arm => ?_⟩
  rw [get_arms_ofSamples _ _ _ hadmitted.le_available]
  refine Correlation.direct_congr (fun _ _ _ => rfl) (fun k _ hk => ?_) (fun _ _ _ => rfl)
    (fun _ _ _ => rfl)
  obtain ⟨hzero, hlast⟩ :=
    ceil_mem_replica hs hlow (hn ▸ hk) arm.neg_half_le_offset arm.offset_le_half
  rw [Replica.chipAt_ofPeriod hchips hzero hlast, hadmitted.index_eq_ceil arm hk]

/-- With two samples and a half to a chip and a start before the first chip, a block is 2559 samples
long. Each chip between the first and the last one is prompt for two or three of them. -/
theorem chipsCovered_two_or_three_samples :
    let chips := List.replicate codeChips (1 : Int8)
    let steps : Steps ℝ := ⟨2 / 5, 0⟩
    let phases : Phases ℝ := ⟨-1 / 4, 0⟩
    ∃ block after, nextBlock (.ofPeriod chips) steps phases (List.replicate 2559 3) =
        .ok (block, after) ∧
      block.sampleCount.toNat = 2559 ∧
      Arm.prompt.index phases steps 0 = 0 ∧ Arm.prompt.index phases steps 2558 = 1023 ∧
      ∀ i : ℕ, 0 < i → i < 1023 →
        ((Finset.range 2559).filter fun k => Arm.prompt.index phases steps k = i).card = 2 ∨
          ((Finset.range 2559).filter fun k => Arm.prompt.index phases steps k = i).card = 3 := by
  intro chips steps phases
  have hlength : ⌈(1023 - -1 / 4 : ℝ) / (2 / 5)⌉₊ = 2559 := by
    rw [Nat.ceil_eq_iff (by decide)]
    norm_num
  have hceil : ⌈(-1 / 4 : ℝ)⌉ = 0 := by
    rw [Int.ceil_eq_iff]
    norm_num
  have hfloor : ⌊(1 / (2 / 5) : ℝ)⌋₊ = 2 := by
    rw [Nat.floor_eq_iff (by norm_num)]
    norm_num
  have hceil' : ⌈(1 / (2 / 5) : ℝ)⌉₊ = 3 := by
    rw [Nat.ceil_eq_iff (by decide)]
    norm_num
  have hchips : chips.length = codeChips := List.length_replicate
  have hsamples : ⌈(1023 - -1 / 4 : ℝ) / (2 / 5)⌉₊ ≤ (List.replicate 2559 (3 : Int8)).length := by
    rw [hlength, List.length_replicate]
  obtain ⟨block, hblock, hcount, -⟩ := nextBlock_exact (d := 0) (f := 0) hchips
    (by norm_num) (by norm_num) (by norm_num) (by rw [hlength]; decide) hsamples
  rw [hlength] at hcount
  obtain ⟨hcovered, -⟩ := chipsCovered_of_nextBlock hchips (by norm_num) hblock
  rw [hcount] at hcovered
  refine ⟨block, _, hblock, hcount, ?_, hcovered.last, ?_⟩
  · exact Int.natCast_eq_zero.mp (hcovered.first.trans hceil)
  · intro i hi hi'
    have hi'' := hcovered.count i (by rw [hceil]; exact_mod_cast hi) hi'
    rwa [hfloor, hceil'] at hi''

end SatNav
