/-!
# Faults

What can be wrong with a request to the signal processing. A fault is its cause;
the wording is in `Fault.message` alone.
-/

namespace SatNav

/-- A parameter that a computation does not accept. -/
inductive BadParameter
  | bandwidth
  | damping
  | gain
  | updateRate
  | replicaLength
  | codeStep
  | codePhase
  | carrier
  | blockLength
  | noChannels
  deriving DecidableEq

/-- The rule that the parameter breaks. -/
def BadParameter.message : BadParameter → String
  | bandwidth => "loop bandwidth must be positive"
  | damping => "damping ratio must be positive"
  | gain => "loop gain must be finite and nonzero"
  | updateRate => "loop update rate must be positive"
  | replicaLength => "replica must hold exactly one code period of chips"
  | codeStep => "code step must be positive and finite"
  | codePhase => "code phase must be finite and less than one code period"
  | carrier => "carrier phase and step must be finite"
  | blockLength => "code step too small for a single block"
  | noChannels => "at least one channel is required"

/-- Why a computation gives no result. -/
inductive Fault
  /-- A parameter is outside of its range. -/
  | badParameter (parameter : BadParameter)
  /-- Channels and satellites do not pair off. -/
  | unpairedChannels (channels satellites : Nat)
  /-- A code phase selects no chip of the replica. -/
  | outsideReplica (index : Int) (length : Nat)
  /-- A block reaches past the samples at hand. -/
  | tooFewSamples (needed available : Nat)
  deriving DecidableEq

/-- The text of a fault. -/
def Fault.message : Fault → String
  | badParameter p => "invalid parameter: " ++ p.message
  | unpairedChannels m n => s!"{m} channel measurements but {n} ephemerides"
  | outsideReplica i n => s!"code replica index {i} outside of replica with length {n}"
  | tooFewSamples n m => s!"block needs {n} samples but only {m} were provided"

end SatNav
