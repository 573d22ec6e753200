import SatNav.Binary64.Scalar
import SatNav.Channel.Block
import SatNav.Channel.Spec
import SatNav.Json.Record
import SatNav.Orbit.Broadcast
import SatNav.Ranging.Pseudorange

/-!
# JSON forms of the library's records

The fields of a loop and of a channel specification have standard values, so they may
be left out, as may the last fields of one that is written as an array. A loop that is
present takes what it lacks from the standard loop, whichever of the two it is. All
other records need every field.
-/

namespace SatNav

open Json (Record Value)

/-- A loop specification, with standard values for what is not there. -/
def LoopSpec.ofJson (v : Value) : Except Json.Error (LoopSpec Float) := do
  let names := ["bandwidth_hz", "damping_ratio", "loop_gain", "update_rate_hz"]
  let record ← Record.ofValue names v
  let standard : LoopSpec Float := .standard
  return {
    bandwidth := ← record.getOr "bandwidth_hz" standard.bandwidth Value.toFloat
    damping := ← record.getOr "damping_ratio" standard.damping Value.toFloat
    gain := ← record.getOr "loop_gain" standard.gain Value.toFloat
    updateRate := ← record.getOr "update_rate_hz" standard.updateRate Value.toFloat }

/-- A channel specification, with the standard loops for those that are not there. -/
def ChannelSpec.ofJson (v : Value) : Except Json.Error (ChannelSpec Float) := do
  let record ← Record.ofValue ["carrier", "code"] v
  let standard : ChannelSpec Float := .standard
  return {
    carrier := ← record.getOr "carrier" standard.carrier LoopSpec.ofJson
    code := ← record.getOr "code" standard.code LoopSpec.ofJson }

def FilterGains.ofJson (v : Value) : Except Json.Error (FilterGains Float) := do
  let record ← Record.ofValue ["pgain", "igain"] v
  return {
    proportional := ← record.float "pgain"
    integral := ← record.float "igain" }

/-- A correlation, as a pair of its in-phase and its quadrature sum. -/
def Correlation.ofJson : Value → Except Json.Error (Correlation Float)
  | .array [i, q] => do return ⟨← i.toFloat, ← q.toFloat⟩
  | _ => .error (.wrongKind "a pair of numbers")

def Arms.ofJson : Value → Except Json.Error (Arms Float)
  | .array [early, prompt, late] => do
    return ⟨← Correlation.ofJson early, ← Correlation.ofJson prompt, ← Correlation.ofJson late⟩
  | _ => .error (.wrongKind "three correlations")

def Block.ofJson (v : Value) : Except Json.Error (Block Float) := do
  let record ← Record.ofValue ["correlations", "num_samples"] v
  return {
    arms := ← Arms.ofJson (← record.get "correlations")
    sampleCount := (← record.count 4294967295 "num_samples").toUInt32 }

def Vec3.ofJson : Value → Except Json.Error (Vec3 Float)
  | .array [x, y, z] => do return ⟨← x.toFloat, ← y.toFloat, ← z.toFloat⟩
  | _ => .error (.wrongKind "three numbers")

def BroadcastEphemeris.fieldNames : List String :=
  ["week_number", "t_gd", "aodo", "fit_interval", "t_oc", "a_f0", "a_f1", "a_f2", "t_oe", "sqrt_a",
   "dn", "m0", "e", "omega", "omega0", "omega_dot", "cus", "cuc", "crs", "crc", "cis", "cic", "i0",
   "idot", "iodc"]

def BroadcastEphemeris.ofJson (v : Value) : Except Json.Error (BroadcastEphemeris Float) := do
  let record ← Record.ofValue BroadcastEphemeris.fieldNames v
  return {
    weekNumber := (← record.count 65535 "week_number").toUInt16
    groupDelay := ← record.float "t_gd"
    ageOfData := (← record.count 255 "aodo").toUInt8
    fitInterval := ← (← record.get "fit_interval").toBool
    clockTime := ← record.float "t_oc"
    clockBias := ← record.float "a_f0"
    clockRate := ← record.float "a_f1"
    clockAging := ← record.float "a_f2"
    orbitTime := ← record.float "t_oe"
    sqrtAxis := ← record.float "sqrt_a"
    motionCorrection := ← record.float "dn"
    meanAnomaly := ← record.float "m0"
    eccentricity := ← record.float "e"
    perigee := ← record.float "omega"
    node := ← record.float "omega0"
    nodeRate := ← record.float "omega_dot"
    latitudeSin := ← record.float "cus"
    latitudeCos := ← record.float "cuc"
    radiusSin := ← record.float "crs"
    radiusCos := ← record.float "crc"
    inclinationSin := ← record.float "cis"
    inclinationCos := ← record.float "cic"
    inclination := ← record.float "i0"
    inclinationRate := ← record.float "idot"
    issueOfData := (← record.count 65535 "iodc").toUInt16 }

def SatelliteState.ofJson (v : Value) : Except Json.Error (SatelliteState Float) := do
  let record ← Record.ofValue ["pos_ecef", "vel_ecef", "clock_err", "clock_rate_err"] v
  return {
    position := ← Vec3.ofJson (← record.get "pos_ecef")
    velocity := ← Vec3.ofJson (← record.get "vel_ecef")
    clockError := ← record.float "clock_err"
    clockDrift := ← record.float "clock_rate_err" }

def ChannelSnapshot.ofJson (v : Value) : Except Json.Error (ChannelSnapshot Float) := do
  let record ← Record.ofValue ["receiver_time", "time_of_week_ms", "code_phase_chips",
    "code_phase_rate", "carrier_freq", "carrier_phase"] v
  return {
    receiverTime := ← record.float "receiver_time"
    timeOfWeek := (← record.count 4294967295 "time_of_week_ms").toUInt32
    codePhase := ← record.float "code_phase_chips"
    codeRate := ← record.float "code_phase_rate"
    doppler := ← record.float "carrier_freq"
    carrierPhase := ← record.float "carrier_phase" }

def RangeMeasurement.ofJson (v : Value) :
    Except Json.Error (RangeMeasurement Float) := do
  let record ← Record.ofValue ["tot", "pseudorange", "pseudorange_rate", "sat_pos", "sat_vel"] v
  return {
    transmission := ← record.float "tot"
    range := ← record.float "pseudorange"
    rangeRate := ← record.float "pseudorange_rate"
    position := ← Vec3.ofJson (← record.get "sat_pos")
    velocity := ← Vec3.ofJson (← record.get "sat_vel") }

end SatNav
