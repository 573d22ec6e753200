import SatNav.Channel.Arms

/-!
# Lock detectors

Both detectors work on a run of prompt correlations. At Costas lock the data
modulated carrier lies in quadrature, so the absolute quadrature sums carry the
signal and the in-phase sums only noise.
-/

namespace SatNav

/-- What a run of prompt correlations shows. -/
structure LockStatus (R : Type) where
  /-- Carrier to noise density [dB-Hz]. -/
  cn0 : R
  /-- Carrier lock, from -1 to 1. -/
  lock : R

variable {R : Type} [Scalar R]

/-- Sum of `f` over a run, from the left. -/
def sumOver (f : Correlation R → R) (prompts : List (Correlation R)) : R :=
  prompts.foldl (fun sum c => sum + f c) 0.0

/-- Mean of `f` over a run. It is undefined for an empty one. -/
def meanOver (f : Correlation R → R) (prompts : List (Correlation R)) : R :=
  sumOver f prompts / Scalar.ofCount prompts.length

/-- Carrier to noise density [dB-Hz], each prompt being integrated over `time` seconds. The square
of the mean amplitude is the power of the signal, and what the mean power exceeds it by is that of
the noise. -/
def carrierToNoise (prompts : List (Correlation R)) (time : R) : R :=
  let amplitude := meanOver (fun c => Scalar.abs c.quadrature) prompts
  let signal := amplitude * amplitude
  let total := meanOver Correlation.power prompts
  let ratio := signal / (total - signal)
  10.0 * Scalar.log10 ratio - 10.0 * Scalar.log10 time

/-- Normalised difference of the narrow-band powers in quadrature and in phase: one at Costas lock,
minus one with the carrier a quarter turn off. -/
def carrierLock (prompts : List (Correlation R)) : R :=
  let i := sumOver Correlation.inPhase prompts
  let q := sumOver Correlation.quadrature prompts
  (q * q - i * i) / (q * q + i * i)

namespace LockStatus

/-- The status of a run whose prompts are integrated over a millisecond each. -/
def ofPrompts (prompts : List (Correlation R)) : LockStatus R :=
  ⟨carrierToNoise prompts 1.0e-3, carrierLock prompts⟩

/-- Whether the carrier counts as locked. -/
def isLocked (s : LockStatus R) : Bool := 0.8 < s.lock

end LockStatus

end SatNav
