import SatNav.Proofs.CommandLine.Correlate
import SatNav.Proofs.Channel.Termination

/-!
# The correlate command ends

Whatever numbers its options hold, the command makes at most one turn for each sample of
its file and one more. It is the same in exact arithmetic with infinities, whatever motion
and phases the options come to there.
-/

namespace SatNav.CommandLine.Correlate

open Extended in
/-- Every turn of the command ends its session or takes samples from its file: a block that passes
its guards has samples, and where none are needed the block fails. So there are at most as many
turns as the file has samples, and one more, and at most as many records as samples. All this is so
for the doubles of the program, and in exact arithmetic with infinities and undefined values. -/
theorem sessions_end :
    (∀ (options : Options) (files : Files) (plan : SessionPlan Float) (session : Session Float),
      prepare options files = .ok (plan, session) →
        ∃ bytes, files ((options.lookup "filename").getD "") = .ok bytes ∧
          session.source = .ofFile bytes.toList ∧
          session.EndsWithin plan bytes.toList.length) ∧
    ∀ (plan : SessionPlan Extended) (phases : Phases Extended) (content : List UInt8),
      (Session.start (.ofFile content) phases).EndsWithin plan content.length := by
  refine ⟨fun options files plan session hprepare => ?_, fun plan phases content => ?_⟩
  · obtain ⟨_, _, _, _, bytes, _, -, -, -, -, hbytes, -, -, rfl⟩ := exists_of_prepare hprepare
    refine ⟨bytes, hbytes, rfl, ?_⟩
    rw [← SampleSource.pending_ofFile]
    exact Session.endsWithin_start (neverEmpty plan.steps) _ _
  · rw [← SampleSource.pending_ofFile]
    exact Session.endsWithin_start (Extended.neverEmpty plan.steps) _ _

/-- At a negative rate no samples are needed, and the first turn is the last one. -/
theorem sessions_end_negative_rate :
    let options : Options := [("filename", "recording"), ("replica", "code"),
      ("sample_rate_sps", "-2000"), ("if_hz", "0.0"), ("doppler_hz", "0.0"), ("code_phase", "0.0")]
    let files : Files := fun file =>
      .ok (if file = "code" then ⟨.replicate 1023 1⟩ else ⟨#[3, 253, 1]⟩)
    ∃ plan session, prepare options files = .ok (plan, session) ∧
      blockLength session.phases.code plan.steps.code = 0 ∧
      ∃ fault, session.run plan = (session, .failed 0 fault) := by
  intro options files
  have hfirst : (match prepare options files with
      | .ok (plan, session) => blockLength session.phases.code plan.steps.code == 0
      | .error _ => false) = true := by
    decide +kernel
  cases hprepare : prepare options files with
  | error message =>
    rw [hprepare] at hfirst
    cases hfirst
  | ok prepared =>
    obtain ⟨plan, session⟩ := prepared
    rw [hprepare] at hfirst
    have hlength : blockLength session.phases.code plan.steps.code = 0 := beq_iff_eq.mp hfirst
    obtain ⟨bytes, -, -, hends⟩ := sessions_end.1 options files plan session hprepare
    obtain ⟨fault, hturn⟩ := hends.fails_of_empty session hlength
    have hfirstSample : session.firstSample = 0 := by
      obtain ⟨_, _, _, _, _, _, -, -, -, -, -, -, -, rfl⟩ := exists_of_prepare hprepare
      rfl
    rw [hfirstSample] at hturn
    exact ⟨plan, session, rfl, hlength, fault,
      Session.run_of_ended ((hends.step_eq_turn session).trans hturn)⟩

end SatNav.CommandLine.Correlate
