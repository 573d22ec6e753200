import SatNav.Scalar

/-!
# Kepler's equation

The eccentric anomaly `E` of a mean anomaly `M` solves `E - e * sin E = M`. It is
found by a fixed number of Newton steps from `M`.
-/

namespace SatNav.Kepler

variable {R : Type} [Scalar R]

/-- One Newton step for the root of `E - e * sin E - M`. -/
def newtonStep (eccentricity mean anomaly : R) : R :=
  anomaly - (anomaly - eccentricity * Scalar.sin anomaly - mean) /
    (1.0 - eccentricity * Scalar.cos anomaly)

/-- The anomaly after a number of Newton steps. -/
def iterate (eccentricity mean : R) : Nat → R
  | 0 => mean
  | steps + 1 => newtonStep eccentricity mean (iterate eccentricity mean steps)

@[simp] theorem iterate_zero (eccentricity mean : R) : iterate eccentricity mean 0 = mean := rfl

theorem iterate_succ (eccentricity mean : R) (steps : Nat) :
    iterate eccentricity mean (steps + 1) =
      newtonStep eccentricity mean (iterate eccentricity mean steps) := rfl

/-- Newton steps that are taken. -/
def newtonSteps : Nat := 10

/-- The eccentric anomaly of a mean anomaly [rad]. -/
def eccentricAnomaly (eccentricity mean : R) : R := iterate eccentricity mean newtonSteps

end SatNav.Kepler
