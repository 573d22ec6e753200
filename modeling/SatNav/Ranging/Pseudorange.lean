import SatNav.Fault
import SatNav.Orbit.State
import SatNav.Signal

/-!
# Pseudoranges

Channels observed at one receiver epoch yield ranges relative to their common mean: a
channel's pseudorange is the offset of its time of transmission from the mean over all
channels, plus `rangeOffset`, plus the correction of the satellite clock. The mean has
a meaning only when all snapshots belong to the same epoch.
-/

namespace SatNav

/-- What a tracking channel shows at a measurement epoch. -/
structure ChannelSnapshot (R : Type) where
  /-- Receiver time of the snapshot [s]. -/
  receiverTime : R
  /-- Satellite time of week at the start of the current code period [ms]. -/
  timeOfWeek : UInt32
  /-- Code phase [chips]. -/
  codePhase : R
  /-- Code rate [chips/s]. -/
  codeRate : R
  /-- Doppler [Hz]. -/
  doppler : R
  /-- Carrier phase [cycles]. -/
  carrierPhase : R

structure RangeMeasurement (R : Type) where
  /-- Time of transmission [s]. -/
  transmission : R
  /-- Pseudorange [m]. -/
  range : R
  /-- Rate of the pseudorange [m/s]. -/
  rangeRate : R
  /-- Satellite position at the time of transmission [m]. -/
  position : Vec3 R
  /-- Satellite velocity at the time of transmission [m/s]. -/
  velocity : Vec3 R

variable {R : Type} [Scalar R]

/-- Offset of every raw pseudorange [m]. The receiver clock bias is unknown when ranges are formed,
so relative ranges are moved to about the distance of a satellite, and the solver takes up the
difference in its clock term. -/
@[inline] def rangeOffset : R := 22.980e6

/-- Satellite time at which the signal left that the channel receives at `epoch`, the code phase
being carried on from the snapshot with the code rate. -/
def ChannelSnapshot.transmissionTime (s : ChannelSnapshot R) (epoch : R) : R :=
  1.0e-3 * Scalar.ofCount s.timeOfWeek.toNat + s.codePhase / chippingRate +
    (epoch - s.receiverTime) * s.codeRate / chippingRate

/-- Mean of a list of times, summed from the left. -/
def meanTime (times : List R) : R := times.foldl (· + ·) 0.0 / Scalar.ofCount times.length

/-- The measurement of a channel, from its time of transmission, the mean of all of them and the
state of its satellite. Positive Doppler means that the satellite comes nearer. -/
def RangeMeasurement.ofState (s : ChannelSnapshot R) (transmission mean : R)
    (satellite : SatelliteState R) : RangeMeasurement R where
  transmission := transmission
  range := (mean - transmission) * speedOfLight + rangeOffset + satellite.clockError * speedOfLight
  rangeRate := speedOfLight * -s.doppler / l1Frequency - satellite.clockDrift * speedOfLight
  position := satellite.position
  velocity := satellite.velocity

/-- The measurements of a set of channels at `epoch`, in their order. Channel and satellite at one
place belong together. -/
def measureRanges (epoch : R) (channels : List (ChannelSnapshot R))
    (satellites : List (Trajectory R)) : Except Fault (List (RangeMeasurement R)) :=
  if channels.isEmpty then .error (.badParameter .noChannels)
  else if channels.length ≠ satellites.length then
    .error (.unpairedChannels channels.length satellites.length)
  else
    let mean := meanTime (channels.map (·.transmissionTime epoch))
    .ok (channels.zipWith (fun channel satellite =>
      let transmission := channel.transmissionTime epoch
      .ofState channel transmission mean (satellite transmission)) satellites)

end SatNav
