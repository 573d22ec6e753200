import SatNav.Proofs.Channel.Walk
import SatNav.Proofs.Source.Steady

/-!
# A session is a walk

A session reads from a buffered source, for each block as many samples as it has computed
the block to need; a walk has all samples in memory. `Session.Follows` relates the two
between blocks. On a steady source every step of the walk is one of the session, unless it
has reached its limit (`Session.Follows.step_of_walk`), and the session is over with the
first block that the walk cannot take (`Session.Follows.step_of_error`), so without a limit
it has the records of the walk in the end.
-/

namespace SatNav

variable {R : Type}

namespace Session

/-- Between two blocks a session stands where a walk does: the source has handed out what the walk
has taken, and the channel, the index of the next block and the records are the same. -/
structure Follows (samples : List Int8) (s : Session R) (w : Walk R) : Prop where
  steady : s.source.Steady
  remaining : s.source.remaining = samples.drop w.offset
  position : s.source.position = w.offset
  phases : s.phases = w.phases
  firstSample : s.firstSample = w.offset
  records : s.records.toList = w.records

theorem follows_start {readings : List Reading} (h : Reading.Steady readings)
    (phases : Phases R) :
    (start (.ofReadings readings) phases).Follows
      ((Reading.content readings).map UInt8.toInt8) (.start phases) where
  steady := h
  remaining := SampleSource.remaining_ofReadings readings
  position := rfl
  phases := rfl
  firstSample := rfl
  records := rfl

theorem Follows.take_fst {samples : List Int8} {s : Session R} {w : Walk R}
    (h : s.Follows samples w) (n : Nat) :
    (s.source.take n).1 = (samples.drop w.offset).take n := by
  rw [h.steady.unbroken.take_fst, h.remaining]

end Session

variable [Scalar R]

/-- Why a session ends where the walk meets a fault: it runs out of samples before it asks for the
block, or the block fails. -/
def Walk.ending (steps : Steps R) (samples : List Int8) (w : Walk R) (fault : Fault) : Ending :=
  if (samples.drop w.offset).length < blockLength w.phases.code steps.code then .endOfSamples
  else .failed w.offset fault

/-! ### Sessions -/

namespace Session

/-- The session after `m` more blocks, if it is not over before. -/
def blocks (plan : SessionPlan R) (s : Session R) : Nat → Option (Session R)
  | 0 => some s
  | m + 1 =>
    match s.blocks plan m with
    | none => none
    | some s =>
      match s.step plan with
      | .running after => some after
      | .ended _ _ => none

theorem blocks_succ_of_some {plan : SessionPlan R} {s later : Session R} {m : Nat}
    (h : s.blocks plan m = some later) :
    s.blocks plan (m + 1) =
      match later.step plan with
      | .running after => some after
      | .ended _ _ => none := by
  rw [blocks, h]

theorem run_of_running {plan : SessionPlan R} {s after : Session R}
    (h : s.step plan = .running after) : s.run plan = after.run plan := by
  rw [run]
  split
  · next hstep => 
    rw [h] at hstep
    cases hstep
  · next hstep =>
    rw [h] at hstep
    cases hstep
    rfl

theorem run_of_ended {plan : SessionPlan R} {s after : Session R} {ending : Ending}
    (h : s.step plan = .ended after ending) : s.run plan = (after, ending) := by
  rw [run]
  split
  · next hstep =>
    rw [h] at hstep
    cases hstep
    rfl
  · next hstep =>
    rw [h] at hstep
    cases hstep

theorem run_of_blocks {plan : SessionPlan R} {s later : Session R} {m : Nat}
    (h : s.blocks plan m = some later) : s.run plan = later.run plan := by
  induction m generalizing later with
  | zero =>
    cases h
    rfl
  | succ m ih =>
    cases hm : s.blocks plan m with
    | none =>
      rw [blocks, hm] at h
      cases h
    | some before =>
      rw [blocks_succ_of_some hm] at h
      cases hstep : before.step plan with
      | ended after ending =>
        rw [hstep] at h
        cases h
      | running after =>
        rw [hstep] at h
        cases h
        rw [ih hm, run_of_running hstep]

@[simp] theorem phases_addPrompt (s : Session R) (prompt : Correlation R) :
    (s.addPrompt prompt).phases = s.phases := by
  unfold addPrompt
  dsimp only
  split <;> rfl

@[simp] theorem firstSample_addPrompt (s : Session R) (prompt : Correlation R) :
    (s.addPrompt prompt).firstSample = s.firstSample := by
  unfold addPrompt
  dsimp only
  split <;> rfl

@[simp] theorem records_addPrompt (s : Session R) (prompt : Correlation R) :
    (s.addPrompt prompt).records = s.records := by
  unfold addPrompt
  dsimp only
  split <;> rfl

namespace Follows

variable {plan : SessionPlan R} {samples : List Int8} {s : Session R} {w : Walk R}

/-- The samples that a session has computed a block to need give the block of the walk. -/
theorem nextBlock_of_ok (h : s.Follows samples w) {block : Block R} {after : Phases R}
    (hblock : nextBlock plan.replica plan.steps w.phases (samples.drop w.offset) =
      .ok (block, after)) :
    block.sampleCount.toNat = blockLength s.phases.code plan.steps.code ∧
      (s.source.take (blockLength s.phases.code plan.steps.code)).1.length =
        blockLength s.phases.code plan.steps.code ∧
      nextBlock plan.replica plan.steps s.phases
        (s.source.take (blockLength s.phases.code plan.steps.code)).1 = .ok (block, after) := by
  obtain ⟨hcount, hle⟩ := toNat_sampleCount_of_nextBlock hblock
  rw [h.phases, h.take_fst, nextBlock_take hle]
  exact ⟨hcount, List.length_take_of_le hle, hblock⟩

/-- Where the walk goes on, so does the session, unless that was its last record. -/
theorem step_of_walk (h : s.Follows samples w)
    (hpos : 0 < blockLength s.phases.code plan.steps.code) {later : Walk R}
    (hstep : w.step plan.replica plan.steps samples = .ok later) :
    ∃ after, after.Follows samples later ∧
      s.step plan =
        if plan.isReached later.records.length then .ended after .limitReached
        else .running after := by
  obtain ⟨block, after, hblock, rfl⟩ := Walk.step_eq_ok_iff.mp hstep
  obtain ⟨hcount, hlength, hnext⟩ := h.nextBlock_of_ok hblock
  have hnonempty : (s.source.take (blockLength s.phases.code plan.steps.code)).1.isEmpty =
      false := by
    rw [List.isEmpty_eq_false_iff, ← List.length_pos_iff, hlength]
    exact hpos
  have hfollows : (s.addBlock (s.source.take (blockLength s.phases.code plan.steps.code)).2 block
      after).Follows samples (w.addBlock block after) := by
    constructor
    · rw [source_addBlock]
      exact h.steady.take _
    · rw [source_addBlock, h.steady.unbroken.remaining_take, h.remaining, List.drop_drop, Walk.addBlock,
        hcount]
    · rw [source_addBlock, SampleSource.position_take, hlength, h.position, Walk.addBlock, hcount]
    · simp [addBlock, Walk.addBlock]
    · simp [addBlock, Walk.addBlock, h.firstSample]
    · simp [addBlock, Walk.addBlock, h.firstSample, h.records]
  refine ⟨_, hfollows, ?_⟩
  unfold step
  simp only [hlength, Nat.lt_irrefl, if_false, hnext, hnonempty, ← hfollows.records,
    Array.length_toList]
  rfl

/-- Where the walk meets a fault the session is over. -/
theorem step_of_error (h : s.Follows samples w) {fault : Fault}
    (hstep : w.step plan.replica plan.steps samples = .error fault) :
    ∃ after, s.step plan = .ended after (w.ending plan.steps samples fault) ∧
      after.records.toList = w.records := by
  have hblock := Walk.step_eq_error_iff.mp hstep
  have htaken := h.take_fst (blockLength w.phases.code plan.steps.code)
  refine ⟨{ s with source := (s.source.take (blockLength w.phases.code plan.steps.code)).2 },
    ?_, h.records⟩
  unfold step Walk.ending
  simp only [h.phases, h.firstSample, htaken]
  by_cases hfew : (samples.drop w.offset).length < blockLength w.phases.code plan.steps.code
  · have hfew' : ((samples.drop w.offset).take
        (blockLength w.phases.code plan.steps.code)).length <
          blockLength w.phases.code plan.steps.code :=
      Nat.lt_of_le_of_lt (List.length_take_le' _ _) hfew
    rw [if_pos hfew, if_pos hfew']
  · have hle := Nat.le_of_not_lt hfew
    rw [if_neg hfew, List.length_take_of_le hle, if_neg (Nat.lt_irrefl _), nextBlock_take hle,
      hblock]

/-- As far as the walk comes the session comes, or it has reached its limit before. -/
theorem blocks_or_limitReached (h : s.Follows samples w) (hsteps : plan.steps.NeverEmpty) {m : Nat}
    {later : Walk R} (hwalk : w.blocks plan.replica plan.steps samples m = .ok later) :
    (∃ after, s.blocks plan m = some after ∧ after.Follows samples later) ∨
      ∃ k last after, w.blocks plan.replica plan.steps samples k = .ok last ∧
        after.Follows samples last ∧ plan.isReached last.records.length ∧
        s.run plan = (after, .limitReached) := by
  -- Once the limit is reached it remains so, however far the walk goes on.
  induction m generalizing later with
  | zero =>
    cases hwalk
    exact Or.inl ⟨s, rfl, h⟩
  | succ m ih =>
    obtain ⟨before, hbefore, hstep⟩ := Walk.blocks_succ_eq_ok_iff.mp hwalk
    rcases ih hbefore with ⟨session, hsession, hfollows⟩ | hreached
    · obtain ⟨block, phases, hblock, -⟩ := Walk.step_eq_ok_iff.mp hstep
      have hpos : 0 < blockLength session.phases.code plan.steps.code := by
        rw [hfollows.phases]
        exact hsteps before.phases (checkMotion_of_nextBlock hblock)
      obtain ⟨after, hlater, hafter⟩ := hfollows.step_of_walk hpos hstep
      cases hlimit : plan.isReached later.records.length with
      | true =>
        rw [hlimit, if_pos rfl] at hafter
        refine Or.inr ⟨m + 1, later, after, hwalk, hlater, hlimit, ?_⟩
        rw [run_of_blocks hsession, run_of_ended hafter]
      | false =>
        rw [hlimit, if_neg Bool.false_ne_true] at hafter
        refine Or.inl ⟨after, ?_, hlater⟩
        rw [blocks_succ_of_some hsession, hafter]
    · exact Or.inr hreached

/-- As far as the walk comes, the session comes. -/
theorem blocks_of_ok (h : s.Follows samples w) (hlimit : plan.limit = none)
    (hsteps : plan.steps.NeverEmpty) {m : Nat} {later : Walk R}
    (hwalk : w.blocks plan.replica plan.steps samples m = .ok later) :
    ∃ after, s.blocks plan m = some after ∧ after.Follows samples later := by
  rcases h.blocks_or_limitReached hsteps hwalk with hblocks | ⟨_, _, _, -, -, hreached, -⟩
  · exact hblocks
  · rw [SessionPlan.isReached, hlimit] at hreached
    cases hreached

/-- A session that follows a walk up to a fault has its records, and ends for it. -/
theorem run_of_error (h : s.Follows samples w) (hlimit : plan.limit = none)
    (hsteps : plan.steps.NeverEmpty) {m : Nat} {walk : Walk R} {fault : Fault}
    (hwalk : w.blocks plan.replica plan.steps samples m = .ok walk)
    (hfault : walk.step plan.replica plan.steps samples = .error fault) :
    (s.run plan).1.records.toList = walk.records ∧
      (s.run plan).2 = walk.ending plan.steps samples fault := by
  obtain ⟨last, hlast, hfollows⟩ := h.blocks_of_ok hlimit hsteps hwalk
  obtain ⟨after, hafter, hrecords⟩ := hfollows.step_of_error hfault
  rw [run_of_blocks hlast, run_of_ended hafter]
  exact ⟨hrecords, rfl⟩

end Follows

end Session

/-- A session does not ask for a block of which it does not have all samples. -/
theorem Walk.ending_ne_tooFewSamples {replica : Replica} {steps : Steps R} {samples : List Int8}
    {w : Walk R} {fault : Fault} (h : w.step replica steps samples = .error fault)
    (index needed available : Nat) :
    w.ending steps samples fault ≠ .failed index (.tooFewSamples needed available) := by
  unfold ending
  split
  · exact fun hending => nomatch hending
  · next hle =>
    intro hending
    cases hending
    exact nextBlock_ne_tooFewSamples (Nat.le_of_not_lt hle) needed available
      (step_eq_error_iff.mp h)

end SatNav
