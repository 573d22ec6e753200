import SatNav.Channel.Arms

/-!
# The errors that drive the loops

The carrier loop is driven by a phase error, which it reads off the prompt
correlation, and the code loop by a measure of the code offset, which it reads off
the early and the late one.
-/

namespace SatNav

variable {R : Type} [Scalar R]

/-- Arctangent Costas discriminator, in cycles. It has the same value for both signs of a data bit.
With no quadrature sum the quotient is infinite and the error a quarter of a cycle. -/
def costasError (inPhase quadrature : R) : R :=
  Scalar.atan (inPhase / quadrature) / (2.0 * Scalar.pi)

/-- The carrier phase error that a correlation shows, in cycles. -/
def Correlation.phaseError (c : Correlation R) : R := costasError c.inPhase c.quadrature

/-- Normalised early minus late envelope, from -1 to 1, and zero where neither arm has a signal. -/
def Arms.codeOffset (arms : Arms R) : R :=
  let early := arms.early.magnitude
  let late := arms.late.magnitude
  if early + late == 0.0 then 0.0 else (early - late) / (early + late)

end SatNav
