import SatNav.Proofs.Channel.Refinement

/-!
# Why a session ends

A session follows a walk until it has reached its limit or the walk meets a fault.
`Walk.EndsWith` is what each ending of a session says of the walk. Where fewer samples
remain than the session has computed the block to need, it ends as if the samples were
over, whatever fault the walk meets there; any other fault is the ending.
-/

namespace SatNav

variable {R : Type} [Scalar R]

/-- What the ending of a session says of the walk that the session has followed. -/
def Walk.EndsWith (plan : SessionPlan R) (samples : List Int8) (w : Walk R) : Ending → Prop
  | .limitReached => plan.isReached w.records.length
  | .endOfSamples =>
    (samples.drop w.offset).length < blockLength w.phases.code plan.steps.code ∧
      ∃ fault, w.step plan.replica plan.steps samples = .error fault
  | .failed index fault =>
    blockLength w.phases.code plan.steps.code ≤ (samples.drop w.offset).length ∧
      index = w.offset ∧ w.step plan.replica plan.steps samples = .error fault

theorem Walk.endsWith_ending {plan : SessionPlan R} {samples : List Int8} {w : Walk R}
    {fault : Fault} (h : w.step plan.replica plan.steps samples = .error fault) :
    w.EndsWith plan samples (w.ending plan.steps samples fault) := by
  unfold ending
  split
  · next hlt => exact ⟨hlt, fault, h⟩
  · next hle => exact ⟨Nat.le_of_not_lt hle, rfl, h⟩

namespace Session.Follows

variable {plan : SessionPlan R} {samples : List Int8} {s : Session R} {w : Walk R}

/-- A session has the records of a walk and ends for a reason that the walk shows. -/
theorem exists_endsWith_run (h : s.Follows samples w) (hsteps : plan.steps.NeverEmpty) {m : Nat}
    {walk : Walk R} {fault : Fault}
    (hwalk : w.blocks plan.replica plan.steps samples m = .ok walk)
    (hfault : walk.step plan.replica plan.steps samples = .error fault) :
    ∃ k last, w.blocks plan.replica plan.steps samples k = .ok last ∧
      (s.run plan).1.records.toList = last.records ∧
      last.EndsWith plan samples (s.run plan).2 := by
  rcases h.blocks_or_limitReached hsteps hwalk with
    ⟨session, hsession, hfollows⟩ | ⟨k, last, after, hlast, hfollows, hlimit, hrun⟩
  · obtain ⟨after, hafter, hrecords⟩ := hfollows.step_of_error hfault
    refine ⟨m, walk, hwalk, ?_⟩
    rw [run_of_blocks hsession, run_of_ended hafter]
    exact ⟨hrecords, Walk.endsWith_ending hfault⟩
  · refine ⟨k, last, hlast, ?_⟩
    rw [hrun]
    exact ⟨hfollows.records, hlimit⟩

end Session.Follows

end SatNav
