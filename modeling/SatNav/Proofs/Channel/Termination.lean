import SatNav.Proofs.Channel.ExactBlock
import SatNav.Proofs.Channel.Progress
import SatNav.Proofs.Channel.Windows
import SatNav.Proofs.Exact.Extended

/-!
# A session ends

`Session.turn` is one turn of a session, without the check of `Session.step` that a block
has taken samples. Where no block is empty the check never applies, so the two are the same
(`Session.step_eq_turn`), and every turn after which the session goes on takes samples from
its source. `Session.EndsWithin` is what follows for a whole session: at most one turn for
each sample and one more, and at most one record for each sample.

No block is empty in binary64 (`neverEmpty`), and none in exact arithmetic with infinities
(`Extended.neverEmpty`).
-/

namespace SatNav

/-! ### Exact arithmetic with infinities -/

namespace Extended

open Exact Extended

theorem blockLength_finite (p : ℝ) {s : ℝ} (hs : s ≠ 0) :
    blockLength (finite p) (finite s) = blockLength p s := by
  have hperiod : (codePeriod : Extended) = finite codePeriod := rfl
  rw [blockLength, hperiod, finite_sub, finite_div _ hs]
  rfl

theorem neverEmpty (steps : Steps Extended) : steps.NeverEmpty := by
  intro phases h
  obtain ⟨⟨hstep, hpos⟩, ⟨hphase, hlt⟩, -⟩ := (checkMotion_eq_ok_iff steps phases).mp h
  obtain ⟨s, hs⟩ := exists_finite hstep
  obtain ⟨p, hp⟩ := exists_finite hphase
  have hzero : (0.0 : Extended) = finite 0.0 := rfl
  have hperiod : (codePeriod : Extended) = finite codePeriod := rfl
  rw [hs, hzero, le_finite, zero_real, not_le] at hpos
  rw [hp, hperiod, le_finite, codePeriod_real, not_le] at hlt
  rw [hs, hp, blockLength_finite p hpos.ne', blockLength_real]
  exact lt_min (Nat.ceil_pos.mpr (div_pos (sub_pos.mpr hlt) hpos)) (by decide)

end Extended

variable {R : Type} [Scalar R]

/-- Where no block is empty, a block has samples, and they are among those at hand. -/
theorem sampleCount_pos_of_nextBlock {replica : Replica} {steps : Steps R} {phases after : Phases R}
    {samples : List Int8} {block : Block R} (hsteps : steps.NeverEmpty)
    (h : nextBlock replica steps phases samples = .ok (block, after)) :
    0 < block.sampleCount.toNat ∧ block.sampleCount.toNat ≤ samples.length := by
  obtain ⟨hcount, hle⟩ := toNat_sampleCount_of_nextBlock h
  rw [hcount]
  exact ⟨hsteps phases (checkMotion_of_nextBlock h), hle⟩

namespace Session

/-! ### Turns -/

/-- One turn of a session: a step that goes on after every block, also one without samples. -/
def turn (plan : SessionPlan R) (s : Session R) : Progress R :=
  let needed := blockLength s.phases.code plan.steps.code
  let taken := s.source.take needed
  if taken.1.length < needed then .ended { s with source := taken.2 } .endOfSamples
  else
    match nextBlock plan.replica plan.steps s.phases taken.1 with
    | .error fault => .ended { s with source := taken.2 } (.failed s.firstSample fault)
    | .ok (block, phases) =>
      let after := s.addBlock taken.2 block phases
      if plan.isReached after.records.size then .ended after .limitReached else .running after

variable {plan : SessionPlan R} {s after : Session R}

/-- A turn runs out of samples, meets a fault or adds a block. -/
theorem turn_cases (plan : SessionPlan R) (s : Session R) :
    let needed := blockLength s.phases.code plan.steps.code
    let taken := s.source.take needed
    (taken.1.length < needed ∧
        s.turn plan = .ended { s with source := taken.2 } .endOfSamples) ∨
      (∃ fault, nextBlock plan.replica plan.steps s.phases taken.1 = .error fault ∧
        s.turn plan = .ended { s with source := taken.2 } (.failed s.firstSample fault)) ∨
      ∃ block phases, nextBlock plan.replica plan.steps s.phases taken.1 = .ok (block, phases) ∧
        s.turn plan =
          if plan.isReached (s.addBlock taken.2 block phases).records.size then
            .ended (s.addBlock taken.2 block phases) .limitReached
          else .running (s.addBlock taken.2 block phases) := by
  intro needed taken
  unfold turn
  by_cases hfew : taken.1.length < needed
  · exact Or.inl ⟨hfew, if_pos hfew⟩
  · refine Or.inr ?_
    cases hblock : nextBlock plan.replica plan.steps s.phases taken.1 with
    | error fault =>
      refine Or.inl ⟨fault, rfl, (if_neg hfew).trans ?_⟩
      dsimp only
      rw [hblock]
    | ok next =>
      obtain ⟨block, phases⟩ := next
      refine Or.inr ⟨block, phases, rfl, (if_neg hfew).trans ?_⟩
      dsimp only
      rw [hblock]

section NeverEmpty

variable (hsteps : plan.steps.NeverEmpty)
include hsteps

/-- The samples of a block are no longer pending, and there is at least one. -/
theorem pending_lt_of_nextBlock {block : Block R} {phases : Phases R}
    (h : nextBlock plan.replica plan.steps s.phases
      (s.source.take (blockLength s.phases.code plan.steps.code)).1 = .ok (block, phases)) :
    (s.source.take (blockLength s.phases.code plan.steps.code)).2.pending < s.source.pending := by
  obtain ⟨hpos, hle⟩ := sampleCount_pos_of_nextBlock hsteps h
  have hpending := s.source.pending_take (blockLength s.phases.code plan.steps.code)
  omega

/-- The check on blocks without samples never applies. -/
theorem step_eq_turn (s : Session R) : s.step plan = s.turn plan := by
  unfold step turn
  dsimp only
  split
  · rfl
  · cases hblock : nextBlock plan.replica plan.steps s.phases
        (s.source.take (blockLength s.phases.code plan.steps.code)).1 with
    | error fault => rfl
    | ok next =>
      obtain ⟨hpos, hle⟩ := sampleCount_pos_of_nextBlock hsteps hblock
      have hnonempty : (s.source.take (blockLength s.phases.code plan.steps.code)).1.isEmpty =
          false := List.isEmpty_eq_false_iff.mpr (List.ne_nil_of_length_pos (hpos.trans_le hle))
      dsimp only
      rw [hnonempty, if_neg Bool.false_ne_true]

/-- No samples are enough for no block. -/
theorem turn_of_blockLength_zero (h : blockLength s.phases.code plan.steps.code = 0) :
    ∃ fault, s.turn plan = .ended s (.failed s.firstSample fault) := by
  rcases turn_cases plan s with ⟨hfew, -⟩ | ⟨fault, -, hturn⟩ | ⟨block, phases, hblock, -⟩
  · rw [h] at hfew
    cases hfew
  · rw [h] at hturn
    exact ⟨fault, hturn⟩
  · obtain ⟨hpos, hle⟩ := sampleCount_pos_of_nextBlock hsteps hblock
    rw [h] at hle
    exact absurd (hpos.trans_le hle) (Nat.lt_irrefl 0)

theorem pending_lt_of_turn_running (h : s.turn plan = .running after) :
    after.source.pending < s.source.pending := by
  rcases turn_cases plan s with ⟨-, hturn⟩ | ⟨fault, -, hturn⟩ | ⟨block, phases, hblock, hturn⟩
  · rw [hturn] at h
    cases h
  · rw [hturn] at h
    cases h
  · rw [hturn] at h
    split at h
    · cases h
    · cases h
      rw [source_addBlock]
      exact pending_lt_of_nextBlock hsteps hblock

/-- Each record has cost a sample. -/
theorem size_add_pending_step_le (s : Session R) :
    (s.step plan).session.records.size + (s.step plan).session.source.pending ≤
      s.records.size + s.source.pending := by
  have hpending := s.source.pending_take (blockLength s.phases.code plan.steps.code)
  rw [step_eq_turn hsteps]
  rcases turn_cases plan s with ⟨-, hturn⟩ | ⟨fault, -, hturn⟩ | ⟨block, phases, hblock, hturn⟩
  · rw [hturn]
    dsimp only [Progress.session]
    omega
  · rw [hturn]
    dsimp only [Progress.session]
    omega
  · have hlt := pending_lt_of_nextBlock hsteps hblock
    have hsession : (s.turn plan).session = s.addBlock
        (s.source.take (blockLength s.phases.code plan.steps.code)).2 block phases := by
      rw [hturn]
      split <;> rfl
    rw [hsession, size_addBlock, source_addBlock]
    omega

theorem size_add_pending_run_le (s : Session R) :
    (s.run plan).1.records.size + (s.run plan).1.source.pending ≤
      s.records.size + s.source.pending :=
  run_induction
    (motive := fun later =>
      later.records.size + later.source.pending ≤ s.records.size + s.source.pending)
    (fun later h => (size_add_pending_step_le hsteps later).trans h) le_rfl

theorem add_pending_le_of_blocks {k : Nat} (h : s.blocks plan k = some after) :
    k + after.source.pending ≤ s.source.pending := by
  induction k generalizing after with
  | zero =>
    cases h
    exact Nat.le_of_eq (Nat.zero_add _)
  | succ k ih =>
    obtain ⟨before, hbefore, hstep⟩ := blocks_succ_eq_some_iff.mp h
    have hle := ih hbefore
    rw [step_eq_turn hsteps] at hstep
    have hlt := pending_lt_of_turn_running hsteps hstep
    omega

end NeverEmpty

/-! ### Sessions -/

/-- A number of turns are made, or the session has ended before. -/
theorem blocks_or_ended (plan : SessionPlan R) (s : Session R) (m : Nat) :
    (∃ later, s.blocks plan m = some later) ∨
      ∃ k < m, ∃ last after ending, s.blocks plan k = some last ∧
        last.step plan = .ended after ending := by
  induction m with
  | zero => exact Or.inl ⟨s, rfl⟩
  | succ m ih =>
    rcases ih with ⟨later, hlater⟩ | ⟨k, hk, hended⟩
    · cases hstep : later.step plan with
      | running after =>
        exact Or.inl ⟨after, blocks_succ_eq_some_iff.mpr ⟨later, hlater, hstep⟩⟩
      | ended after ending =>
        exact Or.inr ⟨m, Nat.lt_succ_self m, later, after, ending, hlater, hstep⟩
    · exact Or.inr ⟨k, Nat.lt_succ_of_lt hk, hended⟩

/-- What keeps a session that has `n` samples before it from going on without end. -/
structure EndsWithin (plan : SessionPlan R) (start : Session R) (n : Nat) : Prop where
  step_eq_turn : ∀ s : Session R, s.step plan = s.turn plan
  /-- A block that passes its guards has samples, which are among those taken for it. -/
  takes_samples : ∀ phases samples block after,
    nextBlock plan.replica plan.steps phases samples = .ok (block, after) →
      0 < block.sampleCount.toNat ∧ block.sampleCount.toNat ≤ samples.length
  fails_of_empty : ∀ s : Session R, blockLength s.phases.code plan.steps.code = 0 →
    ∃ fault, s.turn plan = .ended s (.failed s.firstSample fault)
  consumes : ∀ s after : Session R, s.turn plan = .running after →
    after.source.pending < s.source.pending
  /-- After at most `n` turns comes one that ends the session. -/
  ends : ∃ k last after ending, k ≤ n ∧ start.blocks plan k = some last ∧
    last.turn plan = .ended after ending ∧ start.run plan = (after, ending) ∧
      after.records.size ≤ n

/-- Where no block is empty a session ends within the samples of its source. -/
theorem endsWithin_start (hsteps : plan.steps.NeverEmpty) (source : SampleSource)
    (phases : Phases R) : (start source phases).EndsWithin plan source.pending where
  step_eq_turn := step_eq_turn hsteps
  takes_samples _ _ _ _ h := sampleCount_pos_of_nextBlock hsteps h
  fails_of_empty _ h := turn_of_blockLength_zero hsteps h
  consumes _ _ h := pending_lt_of_turn_running hsteps h
  ends := by
    rcases blocks_or_ended plan (start source phases) (source.pending + 1) with
      ⟨later, hlater⟩ | ⟨k, hk, last, after, ending, hlast, hended⟩
    · have hle : source.pending + 1 + later.source.pending ≤ source.pending :=
        add_pending_le_of_blocks hsteps hlater
      omega
    · have hrun : (start source phases).run plan = (after, ending) := by
        rw [run_of_blocks hlast, run_of_ended hended]
      have hbudget := size_add_pending_run_le hsteps (start source phases)
      have hempty : (start source phases).records.size = 0 := rfl
      rw [hrun, hempty, Nat.zero_add] at hbudget
      rw [step_eq_turn hsteps] at hended
      exact ⟨k, last, after, ending, Nat.le_of_lt_succ hk, hlast, hended, hrun,
        (Nat.le_add_right ..).trans hbudget⟩

end Session

end SatNav
