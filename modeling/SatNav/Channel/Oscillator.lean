import SatNav.Scalar

/-!
# The local carrier

The carrier is a recursive oscillator. Each sample turns the pair of sine and cosine
by a fixed angle and then pulls it back towards unit magnitude with the first order
correction `(3 - sin ^ 2 - cos ^ 2) / 2`.
-/

namespace SatNav

/-- Sine and cosine of a phase, or of a turn. -/
structure Oscillator (R : Type) where
  sin : R
  cos : R

variable {R : Type} [Scalar R]

namespace Oscillator

/-- The oscillator at a phase [rad]. -/
@[inline] def ofPhase (phase : R) : Oscillator R := ⟨Scalar.sin phase, Scalar.cos phase⟩

/-- The oscillator turned by the angle whose sine and cosine are `turn`. -/
@[inline] def rotate (o turn : Oscillator R) : Oscillator R :=
  ⟨o.sin * turn.cos + o.cos * turn.sin, o.cos * turn.cos - o.sin * turn.sin⟩

/-- The oscillator scaled towards unit magnitude. -/
@[inline] def renormalize (o : Oscillator R) : Oscillator R :=
  let scale := (3.0 - o.sin * o.sin - o.cos * o.cos) / 2.0
  ⟨o.sin * scale, o.cos * scale⟩

/-- The oscillator one sample later. -/
@[inline] def advance (o turn : Oscillator R) : Oscillator R := (o.rotate turn).renormalize

end Oscillator

end SatNav
