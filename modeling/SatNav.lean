import SatNav.Main
import SatNav.Ranging.Log
import SatNav.Proofs.Channel.Seamless
import SatNav.Proofs.Source.Delivery
import SatNav.Proofs.Binary64.GuardBits
import SatNav.Proofs.Binary64.Unpacked
import SatNav.Proofs.Binary64.Operations
import SatNav.Proofs.Binary64.Packing
import SatNav.Proofs.Binary64.Value
import SatNav.Proofs.Binary64.Comparison
import SatNav.Proofs.Binary64.WholeNumbers
import SatNav.Proofs.MonotoneArithmetic
import SatNav.Proofs.Channel.Indices
import SatNav.Proofs.Binary64.Monotone
import SatNav.Proofs.Channel.Progress
import SatNav.Proofs.Source.Steady
import SatNav.Proofs.Channel.Refinement
import SatNav.Proofs.CommandLine.Correlate
import SatNav.Proofs.Ranging.Pseudorange
import SatNav.Proofs.Ranging.WeekRollover
import SatNav.Proofs.Orbit.Kepler
import SatNav.Proofs.Orbit.Moving
import SatNav.Proofs.Channel.Ending
import SatNav.Proofs.Orbit.Velocity
import SatNav.Proofs.CommandLine.Report
import SatNav.Proofs.Channel.Windows
import SatNav.Proofs.CommandLine.Statuses
import SatNav.Proofs.Binary64.Remainder
import SatNav.Proofs.Binary64.RoundingError
import SatNav.Proofs.Channel.Attempts
import SatNav.Proofs.Channel.Overlay
import SatNav.Proofs.Channel.Rollover
import SatNav.Proofs.Orbit.Newton
import SatNav.Proofs.Channel.DirectEvaluation
import SatNav.Proofs.Channel.PeriodicReplica
import SatNav.Proofs.Channel.LoopDesign
import SatNav.Proofs.Channel.LoopTracking
import SatNav.Proofs.Channel.Consumption
import SatNav.Proofs.Exact.Vectors
import SatNav.Proofs.Orbit.Conservation
import SatNav.Proofs.Binary64.Ranges
import SatNav.Proofs.Channel.Coverage
import SatNav.Proofs.Channel.GainRange
import SatNav.Proofs.Orbit.WeekCrossover
import SatNav.Proofs.Ranging.NextWeek
import SatNav.Proofs.Exact.Directions
import SatNav.Proofs.Exact.Rotations
import SatNav.Proofs.Geodesy.LookAngles
import SatNav.Proofs.Geodesy.Symmetry
import SatNav.Proofs.Ranging.CosecantDelay
import SatNav.Proofs.CommandLine.Design
import SatNav.Proofs.Channel.Averages
import SatNav.Proofs.Channel.NoisePower
import SatNav.Proofs.Channel.LockPoint
import SatNav.Proofs.Binary64.Differences
import SatNav.Proofs.Binary64.Logarithm
import SatNav.Proofs.Binary64.RepeatedSums
import SatNav.Proofs.Channel.NoiseFree
import SatNav.Proofs.Channel.CodeOffset
import SatNav.Proofs.Source.Boundaries
import SatNav.Proofs.Source.End
import SatNav.Proofs.Exact.Extended
import SatNav.Proofs.Channel.Termination
import SatNav.Proofs.CommandLine.Termination
import SatNav.Proofs.Channel.SettledAmplitude
import SatNav.Proofs.Json.Numbers
