import SatNav.Fault
import SatNav.Scalar

/-!
# Second order tracking loops

A loop is specified by its noise bandwidth, its damping ratio, the product of the
oscillator and discriminator gains, and the rate of its updates. It is designed as an
analog loop, `LoopSpec.analogFilter`, and realised by the digital filter
`((p + i) - p / z) / (1 - 1 / z)` in front of an accumulating oscillator,
`LoopSpec.digitalFilter`, whose gains match the two closed loops.
-/

namespace SatNav

/-- What a loop is asked to be. -/
structure LoopSpec (R : Type) where
  /-- Loop noise bandwidth [Hz]. -/
  bandwidth : R
  damping : R
  /-- Oscillator gain times discriminator gain. -/
  gain : R
  /-- Rate at which the discriminator feeds the filter [Hz]. -/
  updateRate : R

/-- The two time constants of an analog loop filter [s]. -/
structure TimeConstants (R : Type) where
  tau1 : R
  tau2 : R

/-- Proportional and integral gain of a digital loop filter. -/
structure FilterGains (R : Type) where
  proportional : R
  integral : R

/-- What a loop comes to. -/
structure LoopDesign (R : Type) where
  spec : LoopSpec R
  analog : TimeConstants R
  digital : FilterGains R

variable {R : Type} [Scalar R]

/-- The digital filter gains for natural frequency `w` [rad/s] and a damping ratio, when the loop
with gain `gain` is updated every `t` seconds. -/
def FilterGains.matching (w damping gain t : R) : FilterGains R :=
  let denominator := gain * (4.0 + 4.0 * damping * w * t + w * w * t * t)
  ⟨(8.0 * damping * w * t) / denominator, (4.0 * w * w * t * t) / denominator⟩

namespace LoopSpec

/-- A loop of which nothing is specified is a carrier loop. -/
def standard : LoopSpec R := ⟨40.0, 0.7, 0.25, 1000.0⟩

/-- Natural frequency of the loop [rad/s]. The tests accept what is positive, so an undefined
parameter is refused. -/
def naturalFrequency (s : LoopSpec R) : Except Fault R :=
  if ¬ 0.0 < s.bandwidth then .error (.badParameter .bandwidth)
  else if ¬ 0.0 < s.damping then .error (.badParameter .damping)
  else .ok ((s.bandwidth * 8.0 * s.damping) / (4.0 * s.damping * s.damping + 1.0))

/-- The analog loop filter. It does not depend on the update rate. -/
def analogFilter (s : LoopSpec R) : Except Fault (TimeConstants R) :=
  match s.naturalFrequency with
  | .error fault => .error fault
  | .ok w => .ok ⟨s.gain / (w * w), (2.0 * s.damping) / w⟩

def digitalFilter (s : LoopSpec R) : Except Fault (FilterGains R) :=
  if s.gain == 0.0 ∨ ¬ Scalar.isFinite s.gain then .error (.badParameter .gain)
  else if ¬ 0.0 < s.updateRate then .error (.badParameter .updateRate)
  else
    match s.naturalFrequency with
    | .error fault => .error fault
    | .ok w => .ok (.matching w s.damping s.gain (1.0 / s.updateRate))

theorem naturalFrequency_eq_ok_iff {s : LoopSpec R} {w : R} :
    s.naturalFrequency = .ok w ↔ 0.0 < s.bandwidth ∧ 0.0 < s.damping ∧
      w = (s.bandwidth * 8.0 * s.damping) / (4.0 * s.damping * s.damping + 1.0) := by
  unfold naturalFrequency
  by_cases hbandwidth : 0.0 < s.bandwidth <;> by_cases hdamping : 0.0 < s.damping <;>
    simp [hbandwidth, hdamping, eq_comm]

/-- A loop has a digital filter if its gain is finite and not zero, the rate of its updates is
positive and it has a natural frequency. -/
theorem digitalFilter_eq_ok_iff {s : LoopSpec R} {g : FilterGains R} :
    s.digitalFilter = .ok g ↔
      ((s.gain == 0.0) = false ∧ Scalar.isFinite s.gain = true) ∧ 0.0 < s.updateRate ∧
        ∃ w, s.naturalFrequency = .ok w ∧
          g = .matching w s.damping s.gain (1.0 / s.updateRate) := by
  unfold digitalFilter
  cases hzero : s.gain == 0.0 <;> cases hfinite : Scalar.isFinite s.gain <;>
    by_cases hrate : 0.0 < s.updateRate <;> cases hw : s.naturalFrequency <;>
      simp [hrate, eq_comm]

/-- Both filters, the analog one first. -/
def design (s : LoopSpec R) : Except Fault (LoopDesign R) :=
  match s.analogFilter with
  | .error fault => .error fault
  | .ok analog =>
    match s.digitalFilter with
    | .error fault => .error fault
    | .ok digital => .ok ⟨s, analog, digital⟩

end LoopSpec

end SatNav
