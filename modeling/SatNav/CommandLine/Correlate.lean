import SatNav.Binary64.FixedPlaces
import SatNav.Channel.Session
import SatNav.CommandLine.Command

/-!
# The correlate command

Correlates a file of signed 8-bit samples against a code replica with a fixed Doppler
and shows a record for each code period.
-/

namespace SatNav.CommandLine.Correlate

open Json (Document)

def number (options : Options) (name : String) : Except Message Float :=
  match (options.lookup name).bind Binary64.readFloat? with
  | some x => .ok x
  | none => .error (.coloured .red s!"Invalid value for {name}")

/-- A count of at most 64 bits: digits, after a plus sign if wanted. -/
def readCount? (text : String) : Option Nat :=
  let digits := match text.toList with
    | '+' :: rest => rest
    | rest => rest
  if digits.isEmpty ∨ digits.any (!·.isDigit) then none
  else
    let n := Binary64.digitsValue digits
    if n < UInt64.size then some n else none

def replica (file : String) (files : Files) : Except Message Replica :=
  match files file with
  | .error error => .error (.error s!"Unable to read replica {file}: {error.message}")
  | .ok bytes =>
    match Replica.ofFile bytes.toList with
    | .error fault => .error (.error s!"Replica {file} rejected: {fault.message}")
    | .ok replica => .ok replica

def samples (file : String) (files : Files) : Except Message SampleSource :=
  match files file with
  | .error error => .error (.error s!"Unable to open {file}: {error.message}")
  | .ok bytes => .ok (.ofFile bytes.toList)

/-- The plan and the beginning of the session that the options ask for. -/
def prepare (options : Options) (files : Files) :
    Except Message (SessionPlan Float × Session Float) := do
  let rate ← number options "sample_rate_sps"
  let intermediate ← number options "if_hz"
  let doppler ← number options "doppler_hz"
  let replica ← replica ((options.lookup "replica").getD "") files
  let source ← samples ((options.lookup "filename").getD "") files
  let codePhase ← number options "code_phase"
  let limit := (options.lookup "max_records").bind readCount?
  return (⟨replica, .ofSignal rate intermediate doppler, limit⟩, .start source ⟨codePhase, 0.0⟩)

def correlationDocument (c : Correlation Float) : Document :=
  .array [.real c.inPhase, .real c.quadrature]

def recordDocument (r : BlockRecord Float) : Document :=
  .object [
    ("sample_idx", .count r.firstSample),
    ("num_samples", .count r.block.sampleCount.toNat),
    ("correlations", .array [
      correlationDocument r.block.arms.early,
      correlationDocument r.block.arms.prompt,
      correlationDocument r.block.arms.late]),
    ("carrier_error", .real r.phaseError),
    ("code_error", .real r.codeOffset),
    ("code_phase", .real r.phases.code),
    ("carrier_phase", .real r.phases.carrier)]

/-- The line of a lock status, green where the carrier is locked. -/
def statusMessage (s : LockStatus Float) : Message :=
  let cn0 := Binary64.alignRight 8 (Binary64.fixedText 2 s.cn0)
  let lock := Binary64.alignRight 6 (Binary64.fixedText 3 s.lock)
  .coloured (if s.isLocked then .green else .yellow) s!"{cn0} [dB-Hz], carrier lock {lock}"

/-- What there is to say about the end of a session: only a block that fails is an error. -/
def endingMessages : Ending → List Message
  | .failed index fault => [.error s!"Correlation failed at sample {index}: {fault.message}"]
  | .endOfSamples | .limitReached => []

/-- The records and messages of a session that is over. -/
def outcome (session : Session Float) (ending : Ending) : Outcome where
  exitCode := 0
  output := some (.array (session.records.toList.map recordDocument))
  messages := session.statuses.toList.map statusMessage ++ endingMessages ending

/-- Runs the session that the options ask for. -/
def run (options : Options) (files : Files) : Outcome :=
  match prepare options files with
  | .error message => .stopped message
  | .ok (plan, session) =>
    let finished := session.run plan
    outcome finished.1 finished.2

def command : Command where
  name := "correlate"
  usage := "usage: correlate --filename FILE --replica FILE --sample_rate_sps RATE " ++
    "[--if_hz HZ] [--doppler_hz HZ] [--code_phase CHIPS] [--max_records COUNT]"
  options := [
    ⟨"filename", some 'f', true, none⟩,
    ⟨"replica", some 'r', true, none⟩,
    ⟨"sample_rate_sps", some 's', true, none⟩,
    ⟨"if_hz", none, false, some "0.0"⟩,
    ⟨"doppler_hz", some 'd', false, some "0.0"⟩,
    ⟨"code_phase", some 'c', false, some "0.0"⟩,
    ⟨"max_records", some 'm', false, none⟩]
  files options := (options.lookup "filename").toList ++ (options.lookup "replica").toList
  run := run

end SatNav.CommandLine.Correlate
