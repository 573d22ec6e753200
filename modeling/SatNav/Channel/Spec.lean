import SatNav.Channel.LoopSpec

/-!
# The loops of a tracking channel

A channel has a carrier loop and a code loop. A specification is valid when both
loops have a digital filter; the carrier loop is looked at first.
-/

namespace SatNav

/-- What the two loops of a channel are asked to be. -/
structure ChannelSpec (R : Type) where
  carrier : LoopSpec R
  code : LoopSpec R

/-- What the two loops of a channel come to. -/
structure ChannelDesign (R : Type) where
  carrier : LoopDesign R
  code : LoopDesign R

variable {R : Type} [Scalar R]

namespace ChannelSpec

/-- The channel of which nothing is specified: its code loop is narrower than its carrier loop and
has unit gain. -/
def standard : ChannelSpec R := ⟨.standard, ⟨4.0, 0.7, 1.0, 1000.0⟩⟩

/-- Accepts a channel of which both loops have a digital filter, and names the first fault of
another. -/
def check (s : ChannelSpec R) : Except Fault Unit :=
  match s.carrier.digitalFilter with
  | .error fault => .error fault
  | .ok _ =>
    match s.code.digitalFilter with
    | .error fault => .error fault
    | .ok _ => .ok ()

/-- The designs of both loops, or the first fault. -/
def design (s : ChannelSpec R) : Except Fault (ChannelDesign R) :=
  match s.carrier.design with
  | .error fault => .error fault
  | .ok carrier =>
    match s.code.design with
    | .error fault => .error fault
    | .ok code => .ok ⟨carrier, code⟩

end ChannelSpec

end SatNav
