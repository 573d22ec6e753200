import SatNav.Channel.Block

/-!
# When a block is admitted

The conditions under which `admitBlock` gives a length, each of its guards turned
around, and what `nextBlock` then gives. All of it holds in every number system.

`Arm` names the three arms, so that what holds of all of them is said once.
-/

namespace SatNav

variable {R : Type} [Scalar R]

/-! ### The arms -/

inductive Arm
  | early
  | prompt
  | late
  deriving DecidableEq

/-- The code phase with which an arm reads the replica where the block is at `x`. -/
def Arm.phase (x : R) : Arm → R
  | early => x - 0.5
  | prompt => x
  | late => x + 0.5

def Arms.get (arms : Arms R) : Arm → Correlation R
  | .early => arms.early
  | .prompt => arms.prompt
  | .late => arms.late

theorem Arms.get_add (replica : Replica) (arms : Arms R) (x : R) (o : Oscillator R)
    (sample : Int8) (arm : Arm) :
    (arms.add replica x o sample).get arm =
      (arms.get arm).add (replica.chipAt (arm.phase x))
        (o.sin * Scalar.ofInt sample.toInt) (o.cos * Scalar.ofInt sample.toInt) := by
  cases arm <;> rfl

/-! ### The guards -/

namespace Replica

theorem checkPhase_eq_ok_iff (replica : Replica) (phase : R) :
    replica.checkPhase phase = .ok () ↔
      ¬ Scalar.ceil phase < 0.0 ∧ ¬ Scalar.ofCount replica.size ≤ Scalar.ceil phase := by
  unfold checkPhase
  dsimp only
  split
  · next h => exact ⟨fun hok => (nomatch hok), fun hnot => absurd h (not_or.mpr hnot)⟩
  · next h => exact ⟨fun _ => not_or.mp h, fun _ => rfl⟩

theorem checkPhase_of_ceil_neg {phase : R} (h : Scalar.ceil phase < 0.0) (replica : Replica) :
    replica.checkPhase phase =
      .error (.outsideReplica (Scalar.toIndex (Scalar.ceil phase)) replica.size) :=
  if_pos (Or.inl h)

theorem eq_outsideReplica_of_checkPhase {replica : Replica} {phase : R} {fault : Fault}
    (h : replica.checkPhase phase = .error fault) :
    fault = .outsideReplica (Scalar.toIndex (Scalar.ceil phase)) replica.size := by
  unfold checkPhase at h
  dsimp only at h
  split at h
  · exact (Except.error.inj h).symm
  · cases h

end Replica

theorem checkMotion_eq_ok_iff (steps : Steps R) (phases : Phases R) :
    checkMotion steps phases = .ok () ↔
      (Scalar.isFinite steps.code ∧ ¬ steps.code ≤ 0.0) ∧
        (Scalar.isFinite phases.code ∧ ¬ codePeriod ≤ phases.code) ∧
          Scalar.isFinite phases.carrier ∧ Scalar.isFinite steps.carrier := by
  unfold checkMotion
  split
  · next h =>
    refine ⟨fun hok => (nomatch hok), fun hok => ?_⟩
    rcases h with h | h
    · exact absurd hok.1.1 h
    · exact absurd h hok.1.2
  · next hcode =>
    split
    · next h =>
      refine ⟨fun hok => (nomatch hok), fun hok => ?_⟩
      rcases h with h | h
      · exact absurd hok.2.1.1 h
      · exact absurd h hok.2.1.2
    · next hphase =>
      split
      · next h =>
        refine ⟨fun hok => (nomatch hok), fun hok => ?_⟩
        rcases h with h | h
        · exact absurd hok.2.2.1 h
        · exact absurd hok.2.2.2 h
      · next hcarrier =>
        rw [not_or, Decidable.not_not] at hcode hphase hcarrier
        rw [Decidable.not_not] at hcarrier
        exact ⟨fun _ => ⟨hcode, hphase, hcarrier⟩, fun _ => rfl⟩

theorem exists_badParameter_of_checkMotion {steps : Steps R} {phases : Phases R} {fault : Fault}
    (h : checkMotion steps phases = .error fault) :
    ∃ parameter, fault = .badParameter parameter := by
  unfold checkMotion at h
  split at h
  · exact ⟨_, (Except.error.inj h).symm⟩
  · split at h
    · exact ⟨_, (Except.error.inj h).symm⟩
    · split at h
      · exact ⟨_, (Except.error.inj h).symm⟩
      · cases h

/-- Whatever motion is accepted, it leads to a block that takes samples. -/
def Steps.NeverEmpty (steps : Steps R) : Prop :=
  ∀ phases : Phases R, checkMotion steps phases = .ok () →
    0 < blockLength phases.code steps.code

/-- What it takes for a block of `n` samples to be admitted. -/
structure Admitted (replica : Replica) (steps : Steps R) (phases : Phases R) (available n : Nat) :
    Prop where
  motion : checkMotion steps phases = .ok ()
  length_eq : n = blockLength phases.code steps.code
  lt_size : n < UInt32.size
  le_available : n ≤ available
  first : replica.checkPhase (phases.code - 0.5) = .ok ()
  last : replica.checkPhase (codePhaseAt phases.code steps.code (n - 1) + 0.5) = .ok ()

theorem admitBlock_eq (replica : Replica) (steps : Steps R) (phases : Phases R)
    (available : Nat) :
    admitBlock replica steps phases available =
      match checkMotion steps phases with
      | .error fault => .error fault
      | .ok () =>
        let n := blockLength phases.code steps.code
        if UInt32.size ≤ n then .error (.badParameter .blockLength)
        else if available < n then .error (.tooFewSamples n available)
        else
          match replica.checkPhase (phases.code - 0.5) with
          | .error fault => .error fault
          | .ok () =>
            match replica.checkPhase (codePhaseAt phases.code steps.code (n - 1) + 0.5) with
            | .error fault => .error fault
            | .ok () => .ok n := by
  unfold admitBlock
  cases checkMotion steps phases with
  | error fault => rfl
  | ok motion =>
    dsimp only
    split
    · rfl
    · split
      · rfl
      · cases replica.checkPhase (phases.code - 0.5) with
        | error fault => rfl
        | ok first =>
          cases replica.checkPhase (codePhaseAt phases.code steps.code
              (blockLength phases.code steps.code - 1) + 0.5) with
          | error fault => rfl
          | ok last => rfl

theorem admitBlock_eq_ok_iff (replica : Replica) (steps : Steps R) (phases : Phases R)
    (available n : Nat) :
    admitBlock replica steps phases available = .ok n ↔
      Admitted replica steps phases available n := by
  rw [admitBlock_eq]
  constructor
  · intro h
    split at h
    · cases h
    · next hmotion =>
      dsimp only at h
      split at h
      · cases h
      · next hsize =>
        split at h
        · cases h
        · next havailable =>
          split at h
          · cases h
          · next hfirst =>
            split at h
            · cases h
            · next hlast =>
              cases h
              exact ⟨hmotion, rfl, Nat.lt_of_not_le hsize, Nat.le_of_not_lt havailable, hfirst,
                hlast⟩
  · rintro ⟨hmotion, rfl, hsize, havailable, hfirst, hlast⟩
    rw [hmotion]
    dsimp only
    rw [if_neg (Nat.not_le_of_lt hsize), if_neg (Nat.not_lt_of_le havailable), hfirst, hlast]

/-- Samples beyond the end of a block do not decide whether it is admitted. -/
theorem admitBlock_congr {replica : Replica} {steps : Steps R} {phases : Phases R} {a b : Nat}
    (ha : blockLength phases.code steps.code ≤ a) (hb : blockLength phases.code steps.code ≤ b) :
    admitBlock replica steps phases a = admitBlock replica steps phases b := by
  rw [admitBlock_eq, admitBlock_eq]
  dsimp only
  rw [if_neg (Nat.not_lt_of_le ha), if_neg (Nat.not_lt_of_le hb)]

/-- A block is short of samples when nothing is wrong with its motion and its length, and there are
fewer samples than that. -/
theorem admitBlock_eq_tooFewSamples_iff {replica : Replica} {steps : Steps R}
    {phases : Phases R} {available n m : Nat} :
    admitBlock replica steps phases available = .error (.tooFewSamples n m) ↔
      checkMotion steps phases = .ok () ∧ blockLength phases.code steps.code < UInt32.size ∧
        n = blockLength phases.code steps.code ∧ m = available ∧ available < n := by
  rw [admitBlock_eq]
  constructor
  · intro h
    split at h
    · next fault hmotion =>
      obtain ⟨parameter, rfl⟩ := exists_badParameter_of_checkMotion hmotion
      cases h
    · next hmotion =>
      dsimp only at h
      split at h
      · cases h
      · next hsize =>
        split at h
        · next hlt =>
          cases h
          exact ⟨hmotion, Nat.lt_of_not_le hsize, rfl, rfl, hlt⟩
        · split at h
          · next fault hfirst =>
            cases h
            cases Replica.eq_outsideReplica_of_checkPhase hfirst
          · split at h
            · next fault hlast =>
              cases h
              cases Replica.eq_outsideReplica_of_checkPhase hlast
            · cases h
  · rintro ⟨hmotion, hsize, rfl, rfl, hlt⟩
    rw [hmotion]
    dsimp only
    rw [if_neg (Nat.not_le_of_lt hsize), if_pos hlt]

/-- A block longer than the samples at hand is refused for its motion, for its length or for want of
samples, in this order. -/
theorem fault_of_admitBlock_of_lt {replica : Replica} {steps : Steps R} {phases : Phases R}
    {available : Nat} {fault : Fault} (hlt : available < blockLength phases.code steps.code)
    (h : admitBlock replica steps phases available = .error fault) :
    checkMotion steps phases = .error fault ∨
      UInt32.size ≤ blockLength phases.code steps.code ∧ fault = .badParameter .blockLength ∨
        fault = .tooFewSamples (blockLength phases.code steps.code) available := by
  rw [admitBlock_eq] at h
  split at h
  · next fault hmotion =>
    cases h
    exact Or.inl hmotion
  · dsimp only at h
    split at h
    · next hsize =>
      cases h
      exact Or.inr (Or.inl ⟨hsize, rfl⟩)
    · cases h
      exact Or.inr (Or.inr rfl)

@[simp] theorem toNat_sampleCount_ofSamples {n : Nat} (h : n < UInt32.size) (replica : Replica)
    (steps : Steps R) (phases : Phases R) (samples : List Int8) :
    (Block.ofSamples replica steps phases n samples).sampleCount.toNat = n :=
  Nat.mod_eq_of_lt h

theorem nextBlock_eq_ok_iff (replica : Replica) (steps : Steps R) (phases : Phases R)
    (samples : List Int8) (block : Block R) (after : Phases R) :
    nextBlock replica steps phases samples = .ok (block, after) ↔
      ∃ n, Admitted replica steps phases samples.length n ∧
        block = .ofSamples replica steps phases n samples ∧ after = phases.advance steps n := by
  unfold nextBlock
  cases h : admitBlock replica steps phases samples.length with
  | error fault =>
    refine ⟨fun hok => (nomatch hok), ?_⟩
    rintro ⟨n, hadmitted, -, -⟩
    rw [(admitBlock_eq_ok_iff ..).mpr hadmitted] at h
    cases h
  | ok n =>
    constructor
    · intro hok
      cases hok
      exact ⟨n, (admitBlock_eq_ok_iff ..).mp h, rfl, rfl⟩
    · rintro ⟨m, hadmitted, rfl, rfl⟩
      rw [(admitBlock_eq_ok_iff ..).mpr hadmitted] at h
      cases h
      rfl

/-- A block is made of the samples that it takes, whatever follows them. -/
theorem nextBlock_take {replica : Replica} {steps : Steps R} {phases : Phases R}
    {samples : List Int8} (h : blockLength phases.code steps.code ≤ samples.length) :
    nextBlock replica steps phases (samples.take (blockLength phases.code steps.code)) =
      nextBlock replica steps phases samples := by
  have hlength : (samples.take (blockLength phases.code steps.code)).length =
      blockLength phases.code steps.code := List.length_take_of_le h
  unfold nextBlock
  rw [hlength, admitBlock_congr (Nat.le_refl _) h]
  cases hguards : admitBlock replica steps phases samples.length with
  | error fault => rfl
  | ok n =>
    have hn : n = blockLength phases.code steps.code :=
      ((admitBlock_eq_ok_iff ..).mp hguards).length_eq
    simp only [Block.ofSamples, hn, List.take_take, Nat.min_self]

theorem toNat_sampleCount_of_nextBlock {replica : Replica} {steps : Steps R}
    {phases after : Phases R} {samples : List Int8} {block : Block R}
    (h : nextBlock replica steps phases samples = .ok (block, after)) :
    block.sampleCount.toNat = blockLength phases.code steps.code ∧
      blockLength phases.code steps.code ≤ samples.length := by
  obtain ⟨n, hadmitted, rfl, -⟩ := (nextBlock_eq_ok_iff ..).mp h
  rw [toNat_sampleCount_ofSamples hadmitted.lt_size, ← hadmitted.length_eq]
  exact ⟨rfl, hadmitted.le_available⟩

theorem checkMotion_of_nextBlock {replica : Replica} {steps : Steps R}
    {phases after : Phases R} {samples : List Int8} {block : Block R}
    (h : nextBlock replica steps phases samples = .ok (block, after)) :
    checkMotion steps phases = .ok () := by
  obtain ⟨n, hadmitted, -⟩ := (nextBlock_eq_ok_iff ..).mp h
  exact hadmitted.motion

/-- The fault of a block comes from its guards. -/
theorem nextBlock_eq_error_iff {replica : Replica} {steps : Steps R} {phases : Phases R}
    {samples : List Int8} {fault : Fault} :
    nextBlock replica steps phases samples = .error fault ↔
      admitBlock replica steps phases samples.length = .error fault := by
  unfold nextBlock
  cases admitBlock replica steps phases samples.length <;> simp

theorem admitBlock_of_nextBlock_error {replica : Replica} {steps : Steps R} {phases : Phases R}
    {samples : List Int8} {fault : Fault}
    (h : nextBlock replica steps phases samples = .error fault) :
    admitBlock replica steps phases samples.length = .error fault :=
  nextBlock_eq_error_iff.mp h

/-- Being short of samples is a matter of their number. -/
theorem nextBlock_eq_tooFewSamples_iff {replica : Replica} {steps : Steps R}
    {phases : Phases R} {samples : List Int8} {n m : Nat} :
    nextBlock replica steps phases samples = .error (.tooFewSamples n m) ↔
      checkMotion steps phases = .ok () ∧ blockLength phases.code steps.code < UInt32.size ∧
        n = blockLength phases.code steps.code ∧ m = samples.length ∧ samples.length < n := by
  rw [nextBlock_eq_error_iff, admitBlock_eq_tooFewSamples_iff]

/-- After the motion, the length and the samples comes the early arm of the first sample. -/
theorem nextBlock_of_first_error {replica : Replica} {steps : Steps R} {phases : Phases R}
    {samples : List Int8} {fault : Fault} (hmotion : checkMotion steps phases = .ok ())
    (hsize : blockLength phases.code steps.code < UInt32.size)
    (hsamples : blockLength phases.code steps.code ≤ samples.length)
    (h : replica.checkPhase (phases.code - 0.5) = .error fault) :
    nextBlock replica steps phases samples = .error fault := by
  unfold nextBlock
  rw [admitBlock_eq, hmotion]
  dsimp only
  rw [if_neg (Nat.not_le_of_lt hsize), if_neg (Nat.not_lt_of_le hsamples), h]

theorem nextBlock_ne_tooFewSamples {replica : Replica} {steps : Steps R} {phases : Phases R}
    {samples : List Int8} (h : blockLength phases.code steps.code ≤ samples.length)
    (needed available : Nat) :
    nextBlock replica steps phases samples ≠ .error (.tooFewSamples needed available) := by
  intro hfault
  obtain ⟨-, -, rfl, -, hlt⟩ := nextBlock_eq_tooFewSamples_iff.mp hfault
  exact Nat.not_lt_of_le h hlt

end SatNav
