import SatNav.Proofs.Binary64.Monotone
import SatNav.Proofs.Channel.Oscillator
import SatNav.Proofs.Channel.Admission

/-!
# The indices of a block

`admitBlock` looks at two code phases, that of the early arm at the first sample and
that of the late arm at the last one. With monotone rounding these two enclose all
others: every code phase of a block that is admitted selects an entry of the replica.
-/

namespace SatNav

open Scalar MonotoneArithmetic

variable {R : Type} [Scalar R]

/-- A code phase selects an entry of the replica, and its index is not changed by being made a
count. -/
structure Replica.Selects (replica : Replica) (x : R) : Prop where
  zero_le : 0.0 ≤ ceil x
  lt_size : ceil x < ofCount replica.size
  indexAt_lt : indexAt x < replica.size
  le_index : ceil x ≤ ofCount (indexAt x)
  index_le : ofCount (indexAt x) ≤ ceil x

/-- Where a block is at code phase `x`, the chip that an arm adds a sample with is the entry of the
replica at the index of the arm's own code phase. -/
def Arm.Reads (replica : Replica) (x : R) (arm : Arm) : Prop :=
  ∃ chip, replica[Replica.indexAt (arm.phase x)]? = some chip ∧
    ∀ (arms : Arms R) (o : Oscillator R) (sample : Int8),
      (arms.add replica x o sample).get arm = (arms.get arm).add (ofInt chip.toInt)
        (o.sin * ofInt sample.toInt) (o.cos * ofInt sample.toInt)

theorem Replica.Selects.reads {replica : Replica} {x : R} {arm : Arm}
    (h : replica.Selects (arm.phase x)) : arm.Reads replica x := by
  have hentry := Array.getElem?_eq_getElem h.indexAt_lt
  refine ⟨_, hentry, fun arms o sample => ?_⟩
  rw [Arms.get_add, chipAt, Array.getD_eq_getD_getElem?, hentry, Option.getD_some]

variable [MonotoneArithmetic R]

/-! ### Code phases in order -/

theorem number_add_left {c x : R} (hc : isFinite c) (hx : x ≤ x) : c + x ≤ c + x := by
  rw [comm_add]
  exact number_add hx hc

theorem mono_add_left {c x y : R} (h : x ≤ y) (hx : c + x ≤ c + x) (hy : c + y ≤ c + y) :
    c + x ≤ c + y := by
  rw [comm_add c x] at hx ⊢
  rw [comm_add c y] at hy ⊢
  exact mono_add h hx hy

theorem number_add_zero {x : R} (hx : x ≤ x) : x + 0.0 ≤ x + 0.0 := number_add hx isFinite_zero

section CodePhase

variable {p s : R} (hp : isFinite p) (hs : isFinite s) (hpos : 0.0 < s)
include hp hs hpos

theorem number_codePhaseAt {k : Nat} (hk : k < UInt64.size) :
    codePhaseAt p s k ≤ codePhaseAt p s k :=
  number_add_left hp (mono_ofCount_mul (Nat.le_refl k) hk hs hpos)

theorem codePhaseAt_mono {i j : Nat} (h : i ≤ j) (hj : j < UInt64.size) :
    codePhaseAt p s i ≤ codePhaseAt p s j :=
  mono_add_left (mono_ofCount_mul h hj hs hpos)
    (number_codePhaseAt hp hs hpos (Nat.lt_of_le_of_lt h hj)) (number_codePhaseAt hp hs hpos hj)

theorem le_codePhaseAt {k : Nat} (hk : k < UInt64.size) : p ≤ codePhaseAt p s k := by
  have hself := number_of_isFinite hp
  have hzero : (0.0 : R) ≤ ofCount k * s :=
    trans_le (zero_le_zero_mul hs) (mono_ofCount_mul (Nat.zero_le k) hk hs hpos)
  exact trans_le (le_add_zero hself)
    (mono_add_left hzero (number_add_zero hself) (number_codePhaseAt hp hs hpos hk))

end CodePhase

/-! ### Arms in order -/

namespace Arm

theorem number_phase {x : R} (hx : x ≤ x) (arm : Arm) : arm.phase x ≤ arm.phase x := by
  cases arm with
  | early =>
    rw [phase, sub_half_eq]
    exact number_add hx isFinite_neg_half
  | prompt => exact hx
  | late => exact number_add hx isFinite_half

theorem phase_mono {x y : R} (h : x ≤ y) (hx : x ≤ x) (hy : y ≤ y) (arm : Arm) :
    arm.phase x ≤ arm.phase y := by
  have hphasex := arm.number_phase hx
  have hphasey := arm.number_phase hy
  cases arm with
  | early =>
    rw [phase, sub_half_eq] at hphasex hphasey ⊢
    rw [phase, sub_half_eq]
    exact mono_add h hphasex hphasey
  | prompt => exact h
  | late => exact mono_add h hphasex hphasey

theorem early_le_prompt {x : R} (hx : x ≤ x) : early.phase x ≤ prompt.phase x := by
  have hearly := early.number_phase hx
  rw [phase, sub_half_eq] at hearly ⊢
  exact trans_le (mono_add_left neg_half_le_zero hearly (number_add_zero hx)) (add_zero_le hx)

theorem prompt_le_late {x : R} (hx : x ≤ x) : prompt.phase x ≤ late.phase x :=
  trans_le (le_add_zero hx)
    (mono_add_left zero_le_half (number_add_zero hx) (late.number_phase hx))

/-- The early arm comes first and the late arm last. -/
theorem phase_mem {x : R} (hx : x ≤ x) (arm : Arm) :
    early.phase x ≤ arm.phase x ∧ arm.phase x ≤ late.phase x := by
  have hlow := early_le_prompt hx
  have hhigh := prompt_le_late hx
  cases arm with
  | early => exact ⟨early.number_phase hx, trans_le hlow hhigh⟩
  | prompt => exact ⟨hlow, hhigh⟩
  | late => exact ⟨trans_le hlow hhigh, late.number_phase hx⟩

end Arm

/-! ### Entries -/

namespace Replica

theorem zero_le_of_checkPhase {replica : Replica} {x : R} (hx : x ≤ x)
    (h : replica.checkPhase x = .ok ()) : 0.0 ≤ ceil x :=
  total_le (mono_ceil hx) (number_of_isFinite isFinite_zero)
    ((replica.checkPhase_eq_ok_iff x).mp h).1

theorem lt_size_of_checkPhase {replica : Replica} {x : R} (hx : x ≤ x)
    (h : replica.checkPhase x = .ok ()) : ceil x < ofCount replica.size :=
  total_lt (mono_ofCount (Nat.le_refl _)) (mono_ceil hx)
    ((replica.checkPhase_eq_ok_iff x).mp h).2

/-- Between two code phases that select an entry all select one. -/
theorem selects_of_le {replica : Replica} (hsize : replica.size ≤ UInt64.size)
    {x first last : R} (hfirst : 0.0 ≤ ceil first) (hlast : ceil last < ofCount replica.size)
    (h : first ≤ x) (h' : x ≤ last) : replica.Selects x := by
  have hlow := trans_le hfirst (mono_ceil h)
  have hhigh := trans_lt (mono_ceil h') hlast
  obtain ⟨hindex, hle, hge⟩ := ceil_eq_ofCount hsize hlow hhigh
  exact ⟨hlow, hhigh, hindex, hle, hge⟩

end Replica

/-- Every code phase of a block that is admitted selects an entry of the replica. -/
theorem Admitted.selects {replica : Replica} (hsize : replica.size ≤ UInt64.size)
    {steps : Steps R} {phases : Phases R} {available n : Nat}
    (h : Admitted replica steps phases available n) {k : Nat} (hk : k < n) (arm : Arm) :
    replica.Selects (arm.phase (codePhaseAt phases.code steps.code k)) := by
  obtain ⟨⟨hs, hstep⟩, ⟨hp, -⟩, -, -⟩ := (checkMotion_eq_ok_iff steps phases).mp h.motion
  have hpos : 0.0 < steps.code :=
    total_lt (number_of_isFinite hs) (number_of_isFinite isFinite_zero) hstep
  have hn : n < UInt64.size := Nat.lt_trans h.lt_size (by decide)
  have hk' : k < UInt64.size := Nat.lt_trans hk hn
  have hlast : n - 1 < UInt64.size := Nat.lt_of_le_of_lt (Nat.sub_le n 1) hn
  have hself := number_of_isFinite hp
  have hphase := number_codePhaseAt hp hs hpos hk'
  have hphaseLast := number_codePhaseAt hp hs hpos hlast
  obtain ⟨hlow, hhigh⟩ := arm.phase_mem hphase
  refine Replica.selects_of_le hsize
    (Replica.zero_le_of_checkPhase (Arm.early.number_phase hself) h.first)
    (Replica.lt_size_of_checkPhase (Arm.late.number_phase hphaseLast) h.last) ?_ ?_
  · exact trans_le (Arm.early.phase_mono (le_codePhaseAt hp hs hpos hk') hself hphase) hlow
  · exact trans_le hhigh (Arm.late.phase_mono
      (codePhaseAt_mono hp hs hpos (Nat.le_pred_of_lt hk) hlast) hphase hphaseLast)

/-- A block that is admitted takes its samples from those at hand and gives their number without
loss. Its arms come of adding sample after sample, and each arm reads the replica within its bounds
at each of them. -/
theorem indices_of_admitBlock {replica : Replica} (hsize : replica.size ≤ UInt64.size)
    {steps : Steps R} {phases : Phases R} {samples : List Int8} {n : Nat}
    (h : admitBlock replica steps phases samples.length = .ok n) :
    let block := Block.ofSamples replica steps phases n samples
    let carrier := (Oscillator.ofPhase phases.carrier).after (.ofPhase steps.carrier)
    (samples.take n).length = n ∧ block.sampleCount.toNat = n ∧
      block.arms = (samples.take n).zipIdx.foldl (fun arms x =>
        arms.add replica (codePhaseAt phases.code steps.code x.2) (carrier x.2) x.1) .zero ∧
      ∀ k < n, ∀ arm : Arm,
        replica.Selects (arm.phase (codePhaseAt phases.code steps.code k)) ∧
          arm.Reads replica (codePhaseAt phases.code steps.code k) := by
  have hadmitted := (admitBlock_eq_ok_iff ..).mp h
  refine ⟨List.length_take_of_le hadmitted.le_available,
    toNat_sampleCount_ofSamples hadmitted.lt_size .., ?_, ?_⟩
  · exact integrate_after replica phases.code steps.code _ _ (samples.take n) 0 .zero
  · intro k hk arm
    have hselects := hadmitted.selects hsize hk arm
    exact ⟨hselects, hselects.reads⟩

/-- The code starts a quarter of a chip before its first one, and each sample moves it by half a
period. -/
theorem indices_of_admitBlock_before_start :
    let replica : Replica := Array.replicate 514 1
    let steps : Steps Float := ⟨512.0, 0.25⟩
    let phases : Phases Float := ⟨-0.25, 0.0⟩
    let block := Block.ofSamples replica steps phases 2 [3, -3]
    let carrier := (Oscillator.ofPhase phases.carrier).after (.ofPhase steps.carrier)
    replica.size ≤ UInt64.size ∧ admitBlock replica steps phases [3, -3].length = .ok 2 ∧
      ([3, -3].take 2 : List Int8).length = 2 ∧ block.sampleCount.toNat = 2 ∧
      block.arms = [(3, 0), (-3, 1)].foldl (fun arms x =>
        arms.add replica (codePhaseAt phases.code steps.code x.2) (carrier x.2) x.1) .zero ∧
      ∀ k < 2, ∀ arm : Arm,
        replica.Selects (arm.phase (codePhaseAt phases.code steps.code k)) ∧
          arm.Reads replica (codePhaseAt phases.code steps.code k) := by
  intro replica steps phases block carrier
  have hsize : replica.size ≤ UInt64.size := by
    decide +kernel
  have hadmit : admitBlock replica steps phases ([3, -3] : List Int8).length = .ok 2 := by
    decide +kernel
  exact ⟨hsize, hadmit, indices_of_admitBlock hsize hadmit⟩

end SatNav
