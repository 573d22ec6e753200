import Mathlib.Data.List.Basic
import SatNav.Binary64.Scalar
import SatNav.Proofs.Channel.Admission

/-!
# The samples that a block looks at

A block is the same on all samples that begin with those it takes, and whether it is short of
samples is decided by their number alone. So it makes no difference whether a block is offered
just the samples that it needs or all that are left.
-/

namespace SatNav

variable {R : Type} [Scalar R] {replica : Replica} {steps : Steps R} {phases after : Phases R}
  {samples other : List Int8}

theorem track_eq_ok_iff {block : Block R} :
    track replica steps phases samples = (.ok block, after) ↔
      nextBlock replica steps phases samples = .ok (block, after) := by
  cases h : nextBlock replica steps phases samples with
  | error fault => simp [track, h]
  | ok taken => simp [track, h, Prod.ext_iff]

theorem fst_track_eq_error_iff {fault : Fault} :
    (track replica steps phases samples).1 = .error fault ↔
      nextBlock replica steps phases samples = .error fault := by
  cases h : nextBlock replica steps phases samples with
  | error other => simp [track, h]
  | ok taken => simp [track, h]

/-- Samples beyond the end of a block do not matter to it. -/
theorem nextBlock_congr (h : blockLength phases.code steps.code ≤ samples.length)
    (h' : blockLength phases.code steps.code ≤ other.length)
    (htake : other.take (blockLength phases.code steps.code) =
      samples.take (blockLength phases.code steps.code)) :
    nextBlock replica steps phases other = nextBlock replica steps phases samples := by
  rw [← nextBlock_take h', htake, nextBlock_take h]

/-- A block that is taken from some samples is taken, with the same arms and the same phases at its
end, from any that begin with as many of the same samples as it reports. If there are too few
samples, then the number that is needed is one for all samples: no samples that are as many or more
are too few, whatever they are, and all that are fewer are. -/
theorem track_reads_what_it_reports (replica : Replica) (steps : Steps R) (phases : Phases R)
    (samples : List Int8) :
    (∀ (block : Block R) (after : Phases R),
        track replica steps phases samples = (.ok block, after) →
          ∀ other : List Int8, block.sampleCount.toNat ≤ other.length →
            other.take block.sampleCount.toNat = samples.take block.sampleCount.toNat →
              track replica steps phases other = (.ok block, after)) ∧
      ∀ n m : Nat, (track replica steps phases samples).1 = .error (.tooFewSamples n m) →
        m < n ∧ m = samples.length ∧
          ∀ other : List Int8,
            (n ≤ other.length → ∀ n' m' : Nat,
              (track replica steps phases other).1 ≠ .error (.tooFewSamples n' m')) ∧
            (other.length < n →
              (track replica steps phases other).1 =
                .error (.tooFewSamples n other.length)) := by
  constructor
  · intro block after h other hlength htake
    rw [track_eq_ok_iff] at h ⊢
    obtain ⟨hcount, hsamples⟩ := toNat_sampleCount_of_nextBlock h
    rw [hcount] at hlength htake
    rw [nextBlock_congr hsamples hlength htake, h]
  · intro n m h
    rw [fst_track_eq_error_iff, nextBlock_eq_tooFewSamples_iff] at h
    obtain ⟨hmotion, hsize, rfl, rfl, hlt⟩ := h
    refine ⟨hlt, rfl, fun other => ⟨fun hlength n' m' hfew => ?_, fun hfew => ?_⟩⟩
    · exact nextBlock_ne_tooFewSamples hlength n' m' (fst_track_eq_error_iff.mp hfew)
    · rw [fst_track_eq_error_iff, nextBlock_eq_tooFewSamples_iff]
      exact ⟨hmotion, hsize, rfl, rfl, hfew⟩

/-- Two samples half a code period apart. Those that follow are not looked at, and one sample is too
few for it. -/
theorem track_reads_what_it_reports_half_periods :
    let replica : Replica := Array.replicate 514 1
    let steps : Steps Float := ⟨512.0, 0.25⟩
    let phases : Phases Float := ⟨-0.25, 0.0⟩
    ∃ (block : Block Float) (after : Phases Float),
      block.sampleCount.toNat = 2 ∧
        track replica steps phases [3, -3] = (.ok block, after) ∧
        track replica steps phases [3, -3, 7, 7] = (.ok block, after) ∧
        (track replica steps phases [5]).1 = .error (.tooFewSamples 2 1) ∧
        (track replica steps phases []).1 = .error (.tooFewSamples 2 0) := by
  intro replica steps phases
  have hadmit : admitBlock replica steps phases ([3, -3] : List Int8).length = .ok 2 := by
    decide +kernel
  have hblock : track replica steps phases [3, -3] =
      (.ok (.ofSamples replica steps phases 2 [3, -3]), phases.advance steps 2) := by
    rw [track_eq_ok_iff, nextBlock, hadmit]
  have hfew : (track replica steps phases [5]).1 = .error (.tooFewSamples 2 1) := by
    rw [fst_track_eq_error_iff, nextBlock_eq_error_iff]
    decide +kernel
  refine ⟨_, _, rfl, hblock, ?_, hfew, ?_⟩
  · exact (track_reads_what_it_reports replica steps phases [3, -3]).1 _ _ hblock [3, -3, 7, 7]
      (by decide) rfl
  · exact (((track_reads_what_it_reports replica steps phases [5]).2 2 1 hfew).2.2 []).2
      (by decide)

end SatNav
