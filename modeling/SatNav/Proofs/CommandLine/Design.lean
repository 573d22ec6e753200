import SatNav.CommandLine.Design
import SatNav.Proofs.Channel.GainRange

/-!
# What the design command shows

A specification is accepted if both loops have a digital filter. The command then goes on to their
analog filters, which it looks at first, and only both filters make a design. The rules of the
analog filter are among those of the digital one, so every specification that is accepted is shown,
and the command stops only for a file that it cannot read or does not accept.
-/

namespace SatNav

/-! ### Designs -/

section Designs

variable {R : Type} [Scalar R]

/-- A design of a loop: what the loop is asked to be, with the two filters that it has. -/
@[mk_iff]
structure LoopSpec.IsDesign (s : LoopSpec R) (d : LoopDesign R) : Prop where
  spec : d.spec = s
  analog : s.analogFilter = .ok d.analog
  digital : s.digitalFilter = .ok d.digital

namespace LoopSpec

theorem design_eq_ok_iff {s : LoopSpec R} {d : LoopDesign R} :
    s.design = .ok d ↔ s.IsDesign d := by
  constructor
  · intro h
    unfold design at h
    split at h
    · cases h
    · next analog hanalog =>
      split at h
      · cases h
      · next digital hdigital =>
        cases h
        exact ⟨rfl, hanalog, hdigital⟩
  · rintro ⟨hspec, hanalog, hdigital⟩
    obtain ⟨_, analog, digital⟩ := d
    cases hspec
    rw [design, hanalog, hdigital]

/-- A loop that has a digital filter has a natural frequency, which is all that the analog filter
needs. -/
theorem exists_analogFilter {s : LoopSpec R} {g : FilterGains R} (h : s.digitalFilter = .ok g) :
    ∃ analog, s.analogFilter = .ok analog := by
  obtain ⟨-, -, w, hw, -⟩ := digitalFilter_eq_ok_iff.mp h
  exact ⟨_, by rw [analogFilter, hw]⟩

theorem exists_design_iff {s : LoopSpec R} :
    (∃ d, s.design = .ok d) ↔ ∃ g, s.digitalFilter = .ok g := by
  constructor
  · rintro ⟨d, hd⟩
    exact ⟨d.digital, (design_eq_ok_iff.mp hd).digital⟩
  · rintro ⟨g, hg⟩
    obtain ⟨analog, hanalog⟩ := exists_analogFilter hg
    exact ⟨⟨s, analog, g⟩, design_eq_ok_iff.mpr ⟨rfl, hanalog, hg⟩⟩

end LoopSpec

/-- The design of one of the two loops. -/
def ChannelDesign.get (d : ChannelDesign R) : Loop → LoopDesign R
  | .carrier => d.carrier
  | .code => d.code

namespace ChannelSpec

theorem check_eq_ok_iff {s : ChannelSpec R} :
    s.check = .ok () ↔ ∀ loop, ∃ g, (s.get loop).digitalFilter = .ok g := by
  refine ⟨exists_digitalFilter_of_check, fun h => ?_⟩
  obtain ⟨g, hcarrier : s.carrier.digitalFilter = .ok g⟩ := h .carrier
  obtain ⟨g', hcode : s.code.digitalFilter = .ok g'⟩ := h .code
  rw [check, hcarrier, hcode]

/-- A channel is accepted just if both loops have a design. -/
theorem check_eq_ok_iff_exists_design {s : ChannelSpec R} :
    s.check = .ok () ↔ ∀ loop, ∃ d, (s.get loop).design = .ok d := by
  rw [check_eq_ok_iff]
  exact forall_congr' fun _ => LoopSpec.exists_design_iff.symm

theorem design_eq_ok {s : ChannelSpec R} {d : ChannelDesign R}
    (h : ∀ loop, (s.get loop).design = .ok (d.get loop)) : s.design = .ok d := by
  have hcarrier : s.carrier.design = .ok d.carrier := h .carrier
  have hcode : s.code.design = .ok d.code := h .code
  rw [design, hcarrier, hcode]

/-- A channel that is accepted has a design, that of its loops. -/
theorem exists_design_of_check {s : ChannelSpec R} (h : s.check = .ok ()) :
    ∃ d, s.design = .ok d ∧ ∀ loop, (s.get loop).IsDesign (d.get loop) := by
  choose d hd using check_eq_ok_iff_exists_design.mp h
  have hget (loop : Loop) : ChannelDesign.get ⟨d .carrier, d .code⟩ loop = d loop := by
    cases loop <;> rfl
  refine ⟨⟨d .carrier, d .code⟩, design_eq_ok fun loop => ?_, fun loop => ?_⟩
  · rw [hget, hd]
  · rw [hget]
    exact LoopSpec.design_eq_ok_iff.mp (hd loop)

end ChannelSpec

end Designs

/-! ### Files -/

namespace ChannelSpec

theorem check_standard : (standard : ChannelSpec Float).check = .ok () := by
  rw [check_eq_ok_iff]
  intro loop
  exact LoopSpec.exists_digitalFilter (by cases loop <;> decide +kernel)

theorem check_of_ofFile {content : Except FileError ByteArray} {s : ChannelSpec Float}
    (h : ofFile content = .ok s) : s.check = .ok () := by
  unfold ofFile at h
  split at h
  · cases h
  · split at h
    · cases h
    · exact check_of_ofText h

theorem ofFile_toUTF8 (text : String) : ofFile (.ok text.toUTF8) = ofText text := by
  have htext : String.fromUTF8? text.toUTF8 = some text := by
    rw [String.fromUTF8?, String.toUTF8_eq_toByteArray, dif_pos text.isValidUTF8]
    rfl
  rw [ofFile, htext]

end ChannelSpec

/-! ### The command -/

namespace CommandLine.Design

open Json (Document)

variable {words : List String} {options : Options} {files : Files}

theorem execute_eq_run (h : parse? command.options words = some options) :
    command.execute words files = run options files := by
  rw [Command.execute, h]
  rfl

/-- A document reports a loop: what the loop is asked to be, the time constants of its analog filter
and the gains of its digital filter. -/
def Reports (document : Document) (s : LoopSpec Float) : Prop :=
  ∃ analog digital, s.analogFilter = .ok analog ∧ s.digitalFilter = .ok digital ∧
    document = .object [
      ("config", .object [
        ("bandwidth_hz", .real s.bandwidth),
        ("damping_ratio", .real s.damping),
        ("loop_gain", .real s.gain),
        ("update_rate_hz", .real s.updateRate)]),
      ("tau1", .real analog.tau1),
      ("tau2", .real analog.tau2),
      ("gains", .object [
        ("pgain", .real digital.proportional),
        ("igain", .real digital.integral)])]

/-- An outcome shows a channel: it is a success with a report of each loop, and nothing else is
said. -/
def Shows (outcome : Outcome) (s : ChannelSpec Float) : Prop :=
  ∃ carrier code, Reports carrier s.carrier ∧ Reports code s.code ∧
    outcome = ⟨0, some (.object [("carrier", carrier), ("code", code)]), []⟩

theorem reports_loopDocument {s : LoopSpec Float} {d : LoopDesign Float} (h : s.IsDesign d) :
    Reports (loopDocument d) s := by
  obtain ⟨rfl, hanalog, hdigital⟩ := h
  exact ⟨d.analog, d.digital, hanalog, hdigital, rfl⟩

theorem shows_of_check {s : ChannelSpec Float} (h : s.check = .ok ()) :
    Shows (showDesign s) s := by
  obtain ⟨d, hd, hdesign⟩ := ChannelSpec.exists_design_of_check h
  have hcarrier := reports_loopDocument (hdesign .carrier)
  have hcode := reports_loopDocument (hdesign .code)
  refine ⟨_, _, hcarrier, hcode, ?_⟩
  rw [showDesign, hd]
  rfl

theorem Shows.exitCode_ne_one {outcome : Outcome} {s : ChannelSpec Float} (h : Shows outcome s) :
    outcome.exitCode ≠ 1 := by
  obtain ⟨-, -, -, -, rfl⟩ := h
  exact UInt32.zero_ne_one

theorem run_without_file (h : options.lookup "config" = none) :
    Shows (run options files) .standard := by
  rw [run, h]
  exact shows_of_check ChannelSpec.check_standard

theorem run_of_ofFile {file : String} {s : ChannelSpec Float}
    (hfile : options.lookup "config" = some file)
    (h : ChannelSpec.ofFile (files file) = .ok s) : Shows (run options files) s := by
  simp only [run, hfile, h]
  exact shows_of_check (ChannelSpec.check_of_ofFile h)

theorem run_of_ofFile_error {file : String} {error : SpecError}
    (hfile : options.lookup "config" = some file)
    (h : ChannelSpec.ofFile (files file) = .error error) :
    run options files = .stopped (.coloured .red (file ++ ": " ++ error.message)) := by
  simp only [run, hfile, h]

/-- The command fails just if it is given a file that is refused. -/
theorem exitCode_run_eq_one_iff :
    (run options files).exitCode = 1 ↔
      ∃ file error, options.lookup "config" = some file ∧
        ChannelSpec.ofFile (files file) = .error error := by
  constructor
  · intro hexit
    cases hfile : options.lookup "config" with
    | none => exact absurd hexit (run_without_file hfile).exitCode_ne_one
    | some file =>
      cases hload : ChannelSpec.ofFile (files file) with
      | ok s => exact absurd hexit (run_of_ofFile hfile hload).exitCode_ne_one
      | error error => exact ⟨file, error, rfl, hload⟩
  · rintro ⟨file, error, hfile, hload⟩
    rw [run_of_ofFile_error hfile hload]
    rfl

/-- A channel is accepted just if both loops have a design, whatever their parameters are, and a
design of a loop is what the loop is asked to be with its analog and its digital filter. So with
options that it understands the command shows the standard channel without a file and the channel
of a file that is accepted, and it fails just for a file that is refused, with the reason. -/
theorem accepted_is_shown (files : Files)
    (hwords : parse? command.options words = some options) :
    (∀ s : ChannelSpec Float,
      (s.check = .ok () ↔ ∀ loop, ∃ d, (s.get loop).design = .ok d) ∧
      ∀ loop d, (s.get loop).design = .ok d ↔
        d.spec = s.get loop ∧ (s.get loop).analogFilter = .ok d.analog ∧
          (s.get loop).digitalFilter = .ok d.digital) ∧
    (options.lookup "config" = none → Shows (command.execute words files) .standard) ∧
    (∀ file, options.lookup "config" = some file →
      (∀ s, ChannelSpec.ofFile (files file) = .ok s → Shows (command.execute words files) s) ∧
      ∀ error, ChannelSpec.ofFile (files file) = .error error →
        command.execute words files =
          .stopped (.coloured .red (file ++ ": " ++ error.message))) ∧
    ((command.execute words files).exitCode = 1 ↔
      ∃ file error, options.lookup "config" = some file ∧
        ChannelSpec.ofFile (files file) = .error error) := by
  rw [execute_eq_run hwords]
  refine ⟨fun s => ⟨ChannelSpec.check_eq_ok_iff_exists_design, fun loop d => ?_⟩,
    run_without_file, fun file hfile => ⟨fun s => run_of_ofFile hfile,
      fun error => run_of_ofFile_error hfile⟩, exitCode_run_eq_one_iff⟩
  rw [LoopSpec.design_eq_ok_iff, LoopSpec.isDesign_iff]

/-- A file with an ordinary bandwidth is accepted and shown. -/
theorem accepted_is_shown_ordinary :
    let words := ["--config", "settings"]
    let files : Files := fun _ => .ok ChannelSpec.ordinaryText.toUTF8
    parse? command.options words = some [("config", "settings")] ∧
      ChannelSpec.ofFile (files "settings") = .ok (.ofBandwidth 25.0) ∧
      Shows (command.execute words files) (.ofBandwidth 25.0) ∧
      (command.execute words files).exitCode ≠ 1 := by
  intro words files
  have hwords : parse? command.options words = some [("config", "settings")] := by
    decide +kernel
  have hload : ChannelSpec.ofFile (files "settings") = .ok (.ofBandwidth 25.0) :=
    (ChannelSpec.ofFile_toUTF8 _).trans ChannelSpec.ofText_ordinaryText
  obtain ⟨-, -, hfile, -⟩ := accepted_is_shown files hwords
  have hshows := (hfile "settings" rfl).1 _ hload
  exact ⟨hwords, hload, hshows, hshows.exitCode_ne_one⟩

end CommandLine.Design

end SatNav
