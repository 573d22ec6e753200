import SatNav.CommandLine.Correlate
import SatNav.Proofs.Channel.Progress
import SatNav.Proofs.Channel.Refinement

/-!
# What the correlate command prints

The command reads its samples from a file, block by block. Without a limit on the records
it prints those of the walk through the whole file: its session follows the walk, and as
no block of doubles is empty the walk comes to an end.
-/

namespace SatNav.CommandLine.Correlate

theorem samples_eq_ok_iff {file : String} {files : Files} {source : SampleSource} :
    samples file files = .ok source ↔
      ∃ bytes, files file = .ok bytes ∧ source = .ofFile bytes.toList := by
  unfold samples
  cases files file with
  | error error => simp
  | ok bytes => simp [eq_comm]

theorem replica_eq_ok_iff {file : String} {files : Files} {replica' : Replica} :
    replica file files = .ok replica' ↔
      ∃ bytes, files file = .ok bytes ∧ Replica.ofFile bytes.toList = .ok replica' := by
  unfold replica
  cases files file with
  | error error => simp
  | ok bytes => cases h : Replica.ofFile bytes.toList <;> simp [h]

theorem exists_of_bind_eq_ok {α β : Type} {x : Except Message α} {f : α → Except Message β}
    {b : β} (h : x >>= f = .ok b) : ∃ a, x = .ok a ∧ f a = .ok b := by
  cases x with
  | error message => cases h
  | ok a => exact ⟨a, rfl, h⟩

/-- What the options ask for, one after the other. -/
theorem exists_of_prepare {options : Options} {files : Files} {plan : SessionPlan Float}
    {session : Session Float} (h : prepare options files = .ok (plan, session)) :
    ∃ rate intermediate doppler replica' bytes codePhase,
      number options "sample_rate_sps" = .ok rate ∧ number options "if_hz" = .ok intermediate ∧
        number options "doppler_hz" = .ok doppler ∧
        replica ((options.lookup "replica").getD "") files = .ok replica' ∧
        files ((options.lookup "filename").getD "") = .ok bytes ∧
        number options "code_phase" = .ok codePhase ∧
        plan = ⟨replica', .ofSignal rate intermediate doppler,
          (options.lookup "max_records").bind readCount?⟩ ∧
        session = .start (.ofFile bytes.toList) ⟨codePhase, 0.0⟩ := by
  obtain ⟨rate, hrate, h⟩ := exists_of_bind_eq_ok h
  obtain ⟨intermediate, hintermediate, h⟩ := exists_of_bind_eq_ok h
  obtain ⟨doppler, hdoppler, h⟩ := exists_of_bind_eq_ok h
  obtain ⟨replica', hreplica, h⟩ := exists_of_bind_eq_ok h
  obtain ⟨source, hsource, h⟩ := exists_of_bind_eq_ok h
  obtain ⟨codePhase, hcodePhase, h⟩ := exists_of_bind_eq_ok h
  obtain ⟨bytes, hbytes, rfl⟩ := samples_eq_ok_iff.mp hsource
  cases h
  exact ⟨rate, intermediate, doppler, replica', bytes, codePhase, hrate, hintermediate, hdoppler,
    hreplica, hbytes, hcodePhase, rfl, rfl⟩

theorem output_of_prepare {options : Options} {files : Files} {plan : SessionPlan Float}
    {session : Session Float} (h : prepare options files = .ok (plan, session)) :
    (run options files).output =
      some (.array ((session.run plan).1.records.toList.map recordDocument)) := by
  rw [run, h]
  rfl

/-- Without a limit the command prints the records of the walk through all samples of its file, up
to the first block that fails: for each the index of its first sample, the number of its samples, its
arms, both errors that these show and the phases after it. The walk has the replica of a file, the steps
of a signal and the code phase that the options name. What is printed does not depend on how many
bytes each read returns. The session takes each block where the walk does, of as many samples as it
has computed the block to need, and no block is refused for want of samples. -/
theorem run_eq_walk {options : Options} {files : Files} {plan : SessionPlan Float}
    {session : Session Float} (hprepare : prepare options files = .ok (plan, session))
    (hlimit : plan.limit = none) :
    ∃ rate intermediate doppler codePhase code bytes m walk fault,
      number options "sample_rate_sps" = .ok rate ∧ number options "if_hz" = .ok intermediate ∧
      number options "doppler_hz" = .ok doppler ∧ number options "code_phase" = .ok codePhase ∧
      plan.steps = .ofSignal rate intermediate doppler ∧ session.phases = ⟨codePhase, 0.0⟩ ∧
      files ((options.lookup "replica").getD "") = .ok code ∧
      Replica.ofFile code.toList = .ok plan.replica ∧
      files ((options.lookup "filename").getD "") = .ok bytes ∧
      let samples := bytes.toList.map UInt8.toInt8
      let blocks := (Walk.start session.phases).blocks plan.replica plan.steps samples
      blocks m = .ok walk ∧ walk.step plan.replica plan.steps samples = .error fault ∧
      (run options files).output = some (.array (walk.records.map fun r => .object [
        ("sample_idx", .count r.firstSample),
        ("num_samples", .count r.block.sampleCount.toNat),
        ("correlations", .array [
          .array [.real r.block.arms.early.inPhase, .real r.block.arms.early.quadrature],
          .array [.real r.block.arms.prompt.inPhase, .real r.block.arms.prompt.quadrature],
          .array [.real r.block.arms.late.inPhase, .real r.block.arms.late.quadrature]]),
        ("carrier_error", .real r.phaseError),
        ("code_error", .real r.codeOffset),
        ("code_phase", .real r.phases.code),
        ("carrier_phase", .real r.phases.carrier)])) ∧
      ∀ readings, Reading.Steady readings → Reading.content readings = bytes.toList →
        let start := Session.start (.ofReadings readings) session.phases
        (start.run plan).1.records.toList = walk.records ∧
        (start.run plan).2 = walk.ending plan.steps samples fault ∧
        (∀ index needed available,
          (start.run plan).2 ≠ .failed index (.tooFewSamples needed available)) ∧
        ∀ b (hb : b < walk.records.length),
          ∃ s w, start.blocks plan b = some s ∧ blocks b = .ok w ∧ s.Follows samples w ∧
            w.records = walk.records.take b ∧
            w.phases =
              ((walk.records.take b).getLast?.map BlockRecord.phases).getD session.phases ∧
            walk.records[b].firstSample = s.source.position ∧
            walk.records[b].firstSample = Walk.total (walk.records.take b) ∧
            walk.records[b].block.sampleCount.toNat =
              blockLength s.phases.code plan.steps.code ∧
            walk.records[b].phaseError = costasError walk.records[b].block.arms.prompt.inPhase
              walk.records[b].block.arms.prompt.quadrature ∧
            walk.records[b].codeOffset = walk.records[b].block.arms.codeOffset ∧
            nextBlock plan.replica plan.steps w.phases
                (samples.drop walk.records[b].firstSample) =
              .ok (walk.records[b].block, walk.records[b].phases) ∧
            nextBlock plan.replica plan.steps s.phases
                (s.source.take (blockLength s.phases.code plan.steps.code)).1 =
              .ok (walk.records[b].block, walk.records[b].phases) := by
  obtain ⟨rate, intermediate, doppler, replica', bytes, codePhase, hrate, hintermediate, hdoppler,
    hreplica, hbytes, hcodePhase, hplan, hsession⟩ := exists_of_prepare hprepare
  obtain ⟨code, hcode, hofFile⟩ := replica_eq_ok_iff.mp hreplica
  have hsteps := neverEmpty plan.steps
  obtain ⟨m, walk, fault, hwalk, hfault⟩ := Walk.exists_step_error plan.replica
    (bytes.toList.map UInt8.toInt8) session.phases hsteps
  refine ⟨rate, intermediate, doppler, codePhase, code, bytes, m, walk, fault, hrate, hintermediate,
    hdoppler, hcodePhase, by rw [hplan], by rw [hsession]; rfl, hcode, by rw [hplan]; exact hofFile,
    hbytes, hwalk, hfault, ?_, ?_⟩
  · have hfollows := Session.follows_start (Reading.steady_singleton bytes.toList) session.phases
    rw [Reading.content_singleton] at hfollows
    obtain ⟨hrecords, -⟩ := hfollows.run_of_error hlimit hsteps hwalk hfault
    rw [output_of_prepare hprepare, ← hrecords, hsession]
    rfl
  · intro readings hsteady hcontent start
    have hfollows := Session.follows_start hsteady session.phases
    rw [hcontent] at hfollows
    obtain ⟨hrecords, hending⟩ := hfollows.run_of_error hlimit hsteps hwalk hfault
    refine ⟨hrecords, hending, ?_, ?_⟩
    · intro index needed available
      rw [hending]
      exact Walk.ending_ne_tooFewSamples hfault index needed available
    · intro b hb
      obtain ⟨w, hw, htake, hblock, hfirst⟩ := Walk.exists_nextBlock_of_blocks hwalk hb
      obtain ⟨s, hs, hat⟩ := hfollows.blocks_of_ok hlimit hsteps hw
      obtain ⟨hcount, -, hnext⟩ := hat.nextBlock_of_ok hblock
      obtain ⟨hphase, hoffset⟩ := Walk.errors_of_blocks hwalk (List.getElem_mem hb)
      refine ⟨s, w, hs, hw, hat, htake, ?_, ?_, ?_, hcount, hphase, hoffset, ?_, hnext⟩
      · rw [← htake, Walk.phases_of_blocks hw]
      · rw [hfirst, hat.position]
      · rw [hfirst, (Walk.blocks_start hw).2, htake]
      · rw [hfirst, hblock]

/-- Two samples a block, and one that is left over. -/
theorem run_eq_walk_two_samples_a_block :
    let options : Options := [("filename", "recording"), ("replica", "code"),
      ("sample_rate_sps", "2000"), ("if_hz", "0.0"), ("doppler_hz", "0.0"), ("code_phase", "0.0")]
    let files : Files := fun file =>
      .ok (if file = "code" then ⟨.replicate 1023 1⟩ else ⟨#[3, 253, 1, 255, 7]⟩)
    ∃ plan session, prepare options files = .ok (plan, session) ∧ plan.limit = none ∧
      ∃ walk : Walk Float, walk.records ≠ [] ∧
        (run options files).output = some (.array (walk.records.map fun r => .object [
          ("sample_idx", .count r.firstSample),
          ("num_samples", .count r.block.sampleCount.toNat),
          ("correlations", .array [
            .array [.real r.block.arms.early.inPhase, .real r.block.arms.early.quadrature],
            .array [.real r.block.arms.prompt.inPhase, .real r.block.arms.prompt.quadrature],
            .array [.real r.block.arms.late.inPhase, .real r.block.arms.late.quadrature]]),
          ("carrier_error", .real r.phaseError),
          ("code_error", .real r.codeOffset),
          ("code_phase", .real r.phases.code),
          ("carrier_phase", .real r.phases.carrier)])) := by
  intro options files
  have hfirst : (match prepare options files with
      | .ok (plan, session) => ((Walk.start session.phases).step plan.replica plan.steps
          ((ByteArray.mk #[3, 253, 1, 255, 7]).toList.map UInt8.toInt8)).isOk
      | .error _ => false) = true := by
    decide +kernel
  cases hprepare : prepare options files with
  | error message =>
    rw [hprepare] at hfirst
    cases hfirst
  | ok prepared =>
    obtain ⟨plan, session⟩ := prepared
    rw [hprepare] at hfirst
    dsimp only at hfirst
    have hlimit : plan.limit = none := by
      obtain ⟨_, _, _, _, _, _, -, -, -, -, -, -, rfl, -⟩ := exists_of_prepare hprepare
      rfl
    obtain ⟨_, _, _, _, _, bytes, m, walk, fault, -, -, -, -, -, -, -, -, hbytes, hwalk, hfault,
      houtput, -⟩ :=
      run_eq_walk hprepare hlimit
    refine ⟨plan, session, rfl, hlimit, walk, ?_, houtput⟩
    intro hnil
    have hm := (Walk.blocks_start hwalk).1
    rw [hnil] at hm
    subst hm
    cases hwalk
    obtain rfl : ByteArray.mk #[3, 253, 1, 255, 7] = bytes := Except.ok.inj hbytes
    rw [hfault] at hfirst
    cases hfirst

end SatNav.CommandLine.Correlate
