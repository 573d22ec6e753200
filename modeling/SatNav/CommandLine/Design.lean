import SatNav.CommandLine.Command

/-!
# The design command

Shows the analog and the digital filters of both loops of a channel specification, the
standard one if no file is given.
-/

namespace SatNav.CommandLine.Design

open Json (Document)

def loopDocument (d : LoopDesign Float) : Document :=
  .object [
    ("config", .object [
      ("bandwidth_hz", .real d.spec.bandwidth),
      ("damping_ratio", .real d.spec.damping),
      ("loop_gain", .real d.spec.gain),
      ("update_rate_hz", .real d.spec.updateRate)]),
    ("tau1", .real d.analog.tau1),
    ("tau2", .real d.analog.tau2),
    ("gains", .object [
      ("pgain", .real d.digital.proportional),
      ("igain", .real d.digital.integral)])]

def document (d : ChannelDesign Float) : Document :=
  .object [("carrier", loopDocument d.carrier), ("code", loopDocument d.code)]

def showDesign (spec : ChannelSpec Float) : Outcome :=
  match spec.design with
  | .ok design => ⟨0, some (document design), []⟩
  | .error fault => .stopped (.coloured .red fault.message)

/-- Reads the specification, if a file is named, and shows its design. -/
def run (options : Options) (files : Files) : Outcome :=
  match options.lookup "config" with
  | none => showDesign .standard
  | some file =>
    match ChannelSpec.ofFile (files file) with
    | .ok spec => showDesign spec
    | .error error => .stopped (.coloured .red (file ++ ": " ++ error.message))

def command : Command where
  name := "design"
  usage := "usage: design [--config FILE]"
  options := [⟨"config", some 'c', false, none⟩]
  files options := (options.lookup "config").toList
  run := run

end SatNav.CommandLine.Design
