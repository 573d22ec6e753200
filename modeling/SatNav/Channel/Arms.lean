import SatNav.Scalar

/-!
# Correlations

A correlation is a pair of sums, in phase and in quadrature with the local carrier.
A code block yields three of them, its arms, from replicas half a chip early, prompt
and half a chip late.
-/

namespace SatNav

/-- In-phase and quadrature sum of a correlation. -/
structure Correlation (R : Type) where
  inPhase : R
  quadrature : R

/-- The correlations of a block with the early, the prompt and the late replica. -/
structure Arms (R : Type) where
  early : Correlation R
  prompt : Correlation R
  late : Correlation R

variable {R : Type} [Scalar R]

namespace Correlation

def zero : Correlation R := ⟨0.0, 0.0⟩

/-- One more sample, `i` and `q` after mixing with the carrier, against the chip `chip`. -/
@[inline] def add (c : Correlation R) (chip i q : R) : Correlation R :=
  ⟨c.inPhase + chip * i, c.quadrature + chip * q⟩

/-- Sum of the squares of both parts. -/
def power (c : Correlation R) : R :=
  c.inPhase * c.inPhase + c.quadrature * c.quadrature

/-- Length of the correlation as a vector of the plane. -/
def magnitude (c : Correlation R) : R := Scalar.sqrt c.power

end Correlation

def Arms.zero : Arms R := ⟨.zero, .zero, .zero⟩

end SatNav
