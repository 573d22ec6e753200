import SatNav.Binary64.FixedPlaces
import SatNav.Binary64.Scalar
import SatNav.Ranging.Delay

/-!
# What ranging reports

Ranging warns of channels that do not fit and traces every measurement it yields; the
tropospheric correction traces every delay it takes off. All that is reported can be
read off the result.
-/

namespace SatNav

inductive LogLevel
  | warn
  | trace
  deriving DecidableEq

def LogLevel.name : LogLevel → String
  | warn => "WARN"
  | trace => "TRACE"

inductive LogEntry
  | noChannels
  | unpairedChannels (channels satellites : Nat)
  | measured (measurement : RangeMeasurement Float)
  | corrected (correction : DelayCorrection Float)

namespace LogEntry

/-- Refused requests are warnings. -/
def level : LogEntry → LogLevel
  | noChannels | unpairedChannels .. => .warn
  | measured _ | corrected _ => .trace

def degrees (angle : Float) : Float := angle * (180.0 / Binary64.pi)

/-- Times have nine places, ranges and delays three, angles two. -/
def text : LogEntry → String
  | noChannels => "Measurement formation requested with no channels"
  | unpairedChannels m n => (Fault.unpairedChannels m n).message
  | measured m =>
    let time := Binary64.fixedText 9 m.transmission
    let range := Binary64.fixedText 3 m.range
    let rate := Binary64.fixedText 3 m.rangeRate
    s!"tot={time} [sec], pseudorange={range} [m], pseudorange_rate={rate} [m/s]"
  | corrected c =>
    let azimuth := Binary64.fixedText 2 (degrees c.direction.azimuth)
    let elevation := Binary64.fixedText 2 (degrees c.direction.elevation)
    let delay := Binary64.fixedText 3 c.delay
    s!"az={azimuth} [deg], el={elevation} [deg], tropo={delay} [m]"

end LogEntry

/-- The entries of a request for ranges, by its result. -/
def rangingLog : Except Fault (List (RangeMeasurement Float)) → List LogEntry
  | .ok measurements => measurements.map .measured
  | .error (.badParameter .noChannels) => [.noChannels]
  | .error (.unpairedChannels m n) => [.unpairedChannels m n]
  | .error _ => []

/-- The entries of a correction of `measurements`. -/
def correctionLog (model : DelayModel Float) (reference : Vec3 Float)
    (measurements : List (RangeMeasurement Float)) : List LogEntry :=
  measurements.map fun m => .corrected (.ofModel model reference m.position)

end SatNav
