import SatNav.Proofs.Channel.Ending
import SatNav.Proofs.CommandLine.Correlate

/-!
# What the correlate command reports

Besides the lock statuses the command has at most one thing to say, that a block has
failed. It says so for every fault of a block of which it has all samples. It cannot know
of a fault that does not depend on the samples, one of the steps, the phases or the length
of the block, where fewer samples are left than the block needs: it then ends as at the
end of the file.
-/

namespace SatNav.CommandLine.Correlate

/-- The last thing that the command says, when a block that begins at sample `index` has failed. -/
def failureMessage (index : Nat) (fault : Fault) : Message :=
  .error s!"Correlation failed at sample {index}: {fault.message}"

theorem messages_of_prepare {options : Options} {files : Files} {plan : SessionPlan Float}
    {session : Session Float} (h : prepare options files = .ok (plan, session)) :
    (run options files).messages =
      (session.run plan).1.statuses.toList.map statusMessage ++
        endingMessages (session.run plan).2 := by
  rw [run, h]
  rfl

/-- The session of the command follows a walk through the samples of its file up to the end. -/
theorem exists_endsWith_of_prepare {options : Options} {files : Files} {plan : SessionPlan Float}
    {session : Session Float} (h : prepare options files = .ok (plan, session)) :
    ∃ bytes k last, files ((options.lookup "filename").getD "") = .ok bytes ∧
      (Walk.start session.phases).blocks plan.replica plan.steps
        (bytes.toList.map UInt8.toInt8) k = .ok last ∧
      (session.run plan).1.records.toList = last.records ∧
      last.EndsWith plan (bytes.toList.map UInt8.toInt8) (session.run plan).2 := by
  obtain ⟨_, _, _, _, bytes, codePhase, -, -, -, -, hbytes, -, -, rfl⟩ := exists_of_prepare h
  have hsteps := neverEmpty plan.steps
  obtain ⟨m, walk, fault, hwalk, hfault⟩ := Walk.exists_step_error plan.replica
    (bytes.toList.map UInt8.toInt8) ⟨codePhase, 0.0⟩ hsteps
  have hfollows := Session.follows_start (Reading.steady_singleton bytes.toList)
    (⟨codePhase, 0.0⟩ : Phases Float)
  rw [Reading.content_singleton] at hfollows
  obtain ⟨k, last, hlast, hrecords, hends⟩ := hfollows.exists_endsWith_run hsteps hwalk hfault
  exact ⟨bytes, k, last, hbytes, hlast, hrecords, hends⟩

/-- The command stops for its limit or at a block that fails. It reports the failure if it has all
samples that it has computed the block to need. If it has fewer, it reports nothing, and the block
has failed for want of samples, for its steps and phases or for its length. -/
theorem messages_of_run {options : Options} {files : Files} {plan : SessionPlan Float}
    {session : Session Float} (hprepare : prepare options files = .ok (plan, session)) :
    ∃ bytes k last, ∃ statuses : List (LockStatus Float),
      files ((options.lookup "filename").getD "") = .ok bytes ∧
      let samples := bytes.toList.map UInt8.toInt8
      let rest := samples.drop last.offset
      let needed := blockLength last.phases.code plan.steps.code
      (Walk.start session.phases).blocks plan.replica plan.steps samples k = .ok last ∧
      last.offset = Walk.total last.records ∧
      (run options files).output = some (.array (last.records.map recordDocument)) ∧
      (plan.isReached last.records.length ∧
          (run options files).messages = statuses.map statusMessage ∨
        ∃ fault, nextBlock plan.replica plan.steps last.phases rest = .error fault ∧
          (needed ≤ rest.length ∧
              (run options files).messages =
                statuses.map statusMessage ++ [failureMessage last.offset fault] ∨
            rest.length < needed ∧
              (run options files).messages = statuses.map statusMessage ∧
              (fault = .tooFewSamples needed rest.length ∨
                checkMotion plan.steps last.phases = .error fault ∨
                UInt32.size ≤ needed ∧ fault = .badParameter .blockLength))) := by
  obtain ⟨bytes, k, last, hbytes, hlast, hrecords, hends⟩ := exists_endsWith_of_prepare hprepare
  have hmessages := messages_of_prepare hprepare
  refine ⟨bytes, k, last, (session.run plan).1.statuses.toList, hbytes, hlast,
    (Walk.blocks_start hlast).2, ?_, ?_⟩
  · rw [output_of_prepare hprepare, hrecords]
  cases hending : (session.run plan).2 with
  | limitReached =>
    rw [hending] at hends hmessages
    exact Or.inl ⟨hends, hmessages.trans (List.append_nil _)⟩
  | failed index fault =>
    rw [hending] at hends hmessages
    obtain ⟨hle, rfl, hfault⟩ := hends
    exact Or.inr ⟨fault, Walk.step_eq_error_iff.mp hfault, Or.inl ⟨hle, hmessages⟩⟩
  | endOfSamples =>
    rw [hending] at hends hmessages
    obtain ⟨hlt, fault, hfault⟩ := hends
    have hblock := Walk.step_eq_error_iff.mp hfault
    refine Or.inr ⟨fault, hblock, Or.inr ⟨hlt, hmessages.trans (List.append_nil _), ?_⟩⟩
    rcases fault_of_admitBlock_of_lt hlt (admitBlock_of_nextBlock_error hblock) with
      hmotion | hsize | hfew
    · exact Or.inr (Or.inl hmotion)
    · exact Or.inr (Or.inr hsize)
    · exact Or.inl hfew

/-- Without a limit the command comes to a block that fails. -/
theorem messages_of_run_five_samples :
    let options : Options := [("filename", "recording"), ("replica", "code"),
      ("sample_rate_sps", "2000"), ("if_hz", "0.0"), ("doppler_hz", "0.0"), ("code_phase", "0.0")]
    let files : Files := fun file =>
      .ok (if file = "code" then ⟨.replicate 1023 1⟩ else ⟨#[3, 253, 1, 255, 7]⟩)
    ∃ plan session, prepare options files = .ok (plan, session) ∧ ∃ last : Walk Float,
      (run options files).output = some (.array (last.records.map recordDocument)) ∧
        ∃ fault, nextBlock plan.replica plan.steps last.phases
          (([3, 253, 1, 255, 7].map UInt8.toInt8).drop last.offset) = .error fault := by
  intro options files
  have hprepared : (prepare options files).isOk = true := by decide +kernel
  cases hprepare : prepare options files with
  | error message =>
    rw [hprepare] at hprepared
    cases hprepared
  | ok prepared =>
    obtain ⟨plan, session⟩ := prepared
    obtain ⟨bytes, k, last, statuses, hbytes, -, -, houtput, hending⟩ := messages_of_run hprepare
    obtain rfl : ByteArray.mk #[3, 253, 1, 255, 7] = bytes := Except.ok.inj hbytes
    refine ⟨plan, session, rfl, last, houtput, ?_⟩
    rcases hending with ⟨hreached, -⟩ | ⟨fault, hfault, -⟩
    · obtain ⟨_, _, _, _, _, _, -, -, -, -, -, -, rfl, -⟩ := exists_of_prepare hprepare
      cases hreached
    · have hlist : (ByteArray.mk #[3, 253, 1, 255, 7]).toList = [3, 253, 1, 255, 7] := by
        decide +kernel
      rw [hlist] at hfault
      exact ⟨fault, hfault⟩

/-- At ten million samples a microsecond a code period has more samples than a block may have, and
more than there are: nothing is said of its length. -/
theorem silent_about_long_block :
    let options : Options := [("filename", "recording"), ("replica", "code"),
      ("sample_rate_sps", "10000000000000"), ("if_hz", "0.0"), ("doppler_hz", "0.0"),
      ("code_phase", "0.0")]
    let files : Files := fun file =>
      .ok (if file = "code" then ⟨.replicate 1023 1⟩ else ⟨#[3, 253, 1]⟩)
    ∃ plan session, prepare options files = .ok (plan, session) ∧ plan.limit = none ∧
      (run options files).messages = [] ∧
      nextBlock plan.replica plan.steps session.phases ([3, 253, 1].map UInt8.toInt8) =
        .error (.badParameter .blockLength) := by
  intro options files
  have hfirst : (match prepare options files with
      | .ok (plan, session) =>
        plan.limit.isNone &&
        (match session.step plan with
          | .ended after .endOfSamples => after.statuses.toList.isEmpty
          | _ => false) &&
        (match nextBlock plan.replica plan.steps session.phases
            ([3, 253, 1].map UInt8.toInt8) with
          | .error fault => decide (fault = .badParameter .blockLength)
          | .ok _ => false)
      | .error _ => false) = true := by
    decide +kernel
  cases hprepare : prepare options files with
  | error message =>
    rw [hprepare] at hfirst
    cases hfirst
  | ok prepared =>
    obtain ⟨plan, session⟩ := prepared
    rw [hprepare] at hfirst
    dsimp only at hfirst
    rw [Bool.and_eq_true, Bool.and_eq_true] at hfirst
    obtain ⟨⟨hlimit, hstep⟩, hblock⟩ := hfirst
    refine ⟨plan, session, rfl, Option.isNone_iff_eq_none.mp hlimit, ?_, ?_⟩
    · split at hstep
      · next after hended =>
        rw [messages_of_prepare hprepare, Session.run_of_ended hended,
          List.isEmpty_iff.mp hstep]
        rfl
      · cases hstep
    · split at hblock
      · next fault hfault => rw [hfault, of_decide_eq_true hblock]
      · cases hblock

end SatNav.CommandLine.Correlate
