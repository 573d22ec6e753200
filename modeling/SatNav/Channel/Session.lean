import SatNav.Channel.Block
import SatNav.Channel.Lock
import SatNav.Channel.LoopError
import SatNav.SampleSource

/-!
# Tracking through a recording

A session takes block after block from a source of samples, with a fixed Doppler. It
ends with the samples, with the first block that fails or with a limit on the blocks.
The prompts of every `statusWindow` blocks yield a lock status.

A block that succeeds takes at least one sample, so the samples still pending bound
the number of blocks to come; `Session.run` recurses on them.
-/

namespace SatNav

/-- Blocks for one lock status. -/
def statusWindow : Nat := 20

/-- What a session keeps of a block. -/
structure BlockRecord (R : Type) where
  /-- Index of the first sample of the block. -/
  firstSample : Nat
  block : Block R
  /-- Carrier phase error [cycles]. -/
  phaseError : R
  codeOffset : R
  phases : Phases R

/-- What stays the same during a session. -/
structure SessionPlan (R : Type) where
  replica : Replica
  steps : Steps R
  /-- Number of records after which the session ends, if there is one. -/
  limit : Option Nat

/-- How far a session has come. -/
structure Session (R : Type) where
  source : SampleSource
  phases : Phases R
  /-- Index of the first sample of the next block. -/
  firstSample : Nat
  records : Array (BlockRecord R)
  /-- Prompts since the last lock status. -/
  window : List (Correlation R)
  statuses : Array (LockStatus R)

/-- Why a session is over. -/
inductive Ending
  | endOfSamples
  | limitReached
  | failed (firstSample : Nat) (fault : Fault)
  deriving DecidableEq

/-- A session after a block: it goes on, or it is over. -/
inductive Progress (R : Type)
  | running (session : Session R)
  | ended (session : Session R) (ending : Ending)

variable {R : Type} [Scalar R]

/-- The record of a block that began at a sample and left the channel at `phases`. -/
def BlockRecord.ofBlock (firstSample : Nat) (block : Block R) (phases : Phases R) :
    BlockRecord R :=
  ⟨firstSample, block, block.arms.prompt.phaseError, block.arms.codeOffset, phases⟩

/-- Whether a number of records ends the session. -/
def SessionPlan.isReached (plan : SessionPlan R) (records : Nat) : Bool :=
  match plan.limit with
  | some limit => limit ≤ records
  | none => false

namespace Session

/-- A session on a source of which nothing has been taken. -/
def start (source : SampleSource) (phases : Phases R) : Session R :=
  ⟨source, phases, 0, #[], [], #[]⟩

/-- The session with one more prompt in its window, and with a status if that fills it. -/
def addPrompt (s : Session R) (prompt : Correlation R) : Session R :=
  let window := s.window ++ [prompt]
  if window.length = statusWindow then
    { s with window := [], statuses := s.statuses.push (.ofPrompts window) }
  else { s with window := window }

/-- The session after a block, which left the source at `source` and the channel at `phases`. -/
def addBlock (s : Session R) (source : SampleSource) (block : Block R) (phases : Phases R) :
    Session R :=
  { s with
    source := source
    phases := phases
    firstSample := s.firstSample + block.sampleCount.toNat
    records := s.records.push (.ofBlock s.firstSample block phases) }.addPrompt block.arms.prompt

@[simp] theorem source_addPrompt (s : Session R) (prompt : Correlation R) :
    (s.addPrompt prompt).source = s.source := by
  unfold addPrompt
  dsimp only
  split <;> rfl

@[simp] theorem source_addBlock (s : Session R) (source : SampleSource) (block : Block R)
    (phases : Phases R) : (s.addBlock source block phases).source = source := by
  rw [addBlock, source_addPrompt]

/-- One block. Too few samples for it are the end of the samples. -/
@[specialize] def step (plan : SessionPlan R) (s : Session R) : Progress R :=
  let needed := blockLength s.phases.code plan.steps.code
  let taken := s.source.take needed
  if taken.1.length < needed then .ended { s with source := taken.2 } .endOfSamples
  else
    match nextBlock plan.replica plan.steps s.phases taken.1 with
    | .error fault => .ended { s with source := taken.2 } (.failed s.firstSample fault)
    | .ok (block, phases) =>
      let after := s.addBlock taken.2 block phases
      -- A block without samples would leave the source where it is.
      if plan.isReached after.records.size then .ended after .limitReached
      else if taken.1.isEmpty then .ended after .endOfSamples
      else .running after

/-- A session that goes on has taken samples. -/
theorem pending_lt_of_step_running {plan : SessionPlan R} {s after : Session R}
    (h : s.step plan = .running after) : after.source.pending < s.source.pending := by
  unfold step at h
  dsimp only at h
  split at h
  · cases h
  · split at h
    · cases h
    · split at h
      · cases h
      · split at h
        · cases h
        · next hne =>
          cases h
          have hpending := SampleSource.pending_take
            (blockLength s.phases.code plan.steps.code) s.source
          have hpos : 0 < (s.source.take
              (blockLength s.phases.code plan.steps.code)).1.length := by
            rw [List.length_pos_iff]
            exact mt List.isEmpty_iff.mpr hne
          rw [source_addBlock]
          omega

/-- The session at its end, and why it has ended. -/
@[specialize] def run (plan : SessionPlan R) (s : Session R) : Session R × Ending :=
  match h : s.step plan with
  | .ended after ending => (after, ending)
  | .running after =>
    have : after.source.pending < s.source.pending := pending_lt_of_step_running h
    run plan after
termination_by s.source.pending

end Session

end SatNav
