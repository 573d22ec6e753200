import SatNav.Channel.Arms
import SatNav.Channel.Oscillator
import SatNav.Channel.Replica

/-!
# Code blocks

A block is as many samples as the code needs to reach the end of its period. They are
mixed with the local carrier and summed against the early, prompt and late replica.
The code phase then starts over with what it passed the end by, and the carrier phase
is reduced by whole turns.

`admitBlock` decides whether there is a block, without looking at the samples, and
`Block.ofSamples` integrates it. Every index into the replica lies between that of the
early arm at the first sample and that of the late arm at the last one, and
`admitBlock` checks these two.
-/

namespace SatNav

/-- Where a channel stands: code phase [chips] and carrier phase [rad]. -/
structure Phases (R : Type) where
  code : R
  carrier : R

/-- How far a channel moves with each sample: code [chips] and carrier [rad]. -/
structure Steps (R : Type) where
  code : R
  carrier : R

/-- The correlations of one block, and the samples that it took. -/
structure Block (R : Type) where
  arms : Arms R
  sampleCount : UInt32

variable {R : Type} [Scalar R]

/-- The steps of a channel, for samples taken `rate` times a second of a signal at an intermediate
frequency, all in Hz. The code shares the Doppler of the carrier. -/
def Steps.ofSignal (rate intermediate doppler : R) : Steps R :=
  ⟨chippingRate * (1.0 + doppler / l1Frequency) / rate,
   2.0 * Scalar.pi * (intermediate + doppler) / rate⟩

/-- Samples from a code phase to the end of the period. -/
def blockLength (phase step : R) : Nat :=
  Scalar.toCount (Scalar.ceil ((codePeriod - phase) / step))

/-- Code phase at sample `k` of a block. -/
@[inline] def codePhaseAt (start step : R) (k : Nat) : R := start + Scalar.ofCount k * step

/-- Accepts steps and phases with which a block can be begun. -/
def checkMotion (steps : Steps R) (phases : Phases R) : Except Fault Unit :=
  if ¬ Scalar.isFinite steps.code ∨ steps.code ≤ 0.0 then
    .error (.badParameter .codeStep)
  else if ¬ Scalar.isFinite phases.code ∨ codePeriod ≤ phases.code then
    .error (.badParameter .codePhase)
  else if ¬ Scalar.isFinite phases.carrier ∨ ¬ Scalar.isFinite steps.carrier then
    .error (.badParameter .carrier)
  else .ok ()

/-- The length of the next block, if it can be taken from a number of samples and keeps to the
replica. A block longer than a 32-bit count is refused before the samples are counted. -/
@[specialize] def admitBlock (replica : Replica) (steps : Steps R) (phases : Phases R)
    (available : Nat) : Except Fault Nat := do
  checkMotion steps phases
  let n := blockLength phases.code steps.code
  if UInt32.size ≤ n then
    throw (.badParameter .blockLength)
  if available < n then
    throw (.tooFewSamples n available)
  replica.checkPhase (phases.code - 0.5)
  replica.checkPhase (codePhaseAt phases.code steps.code (n - 1) + 0.5)
  return n

/-- The arms after one more sample, at code phase `phase` and with the carrier at `o`. -/
@[inline] def Arms.add (replica : Replica) (arms : Arms R) (phase : R) (o : Oscillator R)
    (sample : Int8) : Arms R :=
  let x : R := Scalar.ofInt sample.toInt
  let i := o.sin * x
  let q := o.cos * x
  ⟨arms.early.add (replica.chipAt (phase - 0.5)) i q,
   arms.prompt.add (replica.chipAt phase) i q,
   arms.late.add (replica.chipAt (phase + 0.5)) i q⟩

/-- The arms after the samples of a block from number `k` on, the carrier turning by `turn` with
each of them. -/
@[specialize] def integrate (replica : Replica) (start step : R) (turn : Oscillator R) :
    Nat → Oscillator R → Arms R → List Int8 → Arms R
  | _, _, arms, [] => arms
  | k, o, arms, sample :: rest =>
    integrate replica start step turn (k + 1) (o.advance turn)
      (arms.add replica (codePhaseAt start step k) o sample) rest

theorem integrate_nil (replica : Replica) (start step : R) (turn : Oscillator R) (k : Nat)
    (o : Oscillator R) (arms : Arms R) :
    integrate replica start step turn k o arms [] = arms := rfl

theorem integrate_cons (replica : Replica) (start step : R) (turn : Oscillator R) (k : Nat)
    (o : Oscillator R) (arms : Arms R) (sample : Int8) (rest : List Int8) :
    integrate replica start step turn k o arms (sample :: rest) =
      integrate replica start step turn (k + 1) (o.advance turn)
        (arms.add replica (codePhaseAt start step k) o sample) rest := rfl

/-- The phases after a block of `n` samples. -/
def Phases.advance (phases : Phases R) (steps : Steps R) (n : Nat) : Phases R :=
  ⟨codePhaseAt phases.code steps.code n - codePeriod,
   Scalar.remainder (phases.carrier + Scalar.ofCount n * steps.carrier) (2.0 * Scalar.pi)⟩

/-- The block of the first `n` samples. -/
@[specialize] def Block.ofSamples (replica : Replica) (steps : Steps R) (phases : Phases R)
    (n : Nat) (samples : List Int8) : Block R where
  arms := integrate replica phases.code steps.code (.ofPhase steps.carrier) 0
    (.ofPhase phases.carrier) .zero (samples.take n)
  sampleCount := n.toUInt32

/-- The block at the front of some samples, and the phases at its end. -/
@[specialize] def nextBlock (replica : Replica) (steps : Steps R) (phases : Phases R)
    (samples : List Int8) : Except Fault (Block R × Phases R) :=
  match admitBlock replica steps phases samples.length with
  | .error fault => .error fault
  | .ok n => .ok (.ofSamples replica steps phases n samples, phases.advance steps n)

/-- The block at the front of some samples and where the channel then stands. A block that fails
leaves the channel where it was. -/
def track (replica : Replica) (steps : Steps R) (phases : Phases R) (samples : List Int8) :
    Except Fault (Block R) × Phases R :=
  match nextBlock replica steps phases samples with
  | .ok (block, after) => (.ok block, after)
  | .error fault => (.error fault, phases)

theorem track_of_nextBlock_ok {replica : Replica} {steps : Steps R} {phases after : Phases R}
    {samples : List Int8} {block : Block R}
    (h : nextBlock replica steps phases samples = .ok (block, after)) :
    track replica steps phases samples = (.ok block, after) := by
  simp [track, h]

theorem track_of_nextBlock_error {replica : Replica} {steps : Steps R} {phases : Phases R}
    {samples : List Int8} {fault : Fault}
    (h : nextBlock replica steps phases samples = .error fault) :
    track replica steps phases samples = (.error fault, phases) := by
  simp [track, h]

end SatNav
