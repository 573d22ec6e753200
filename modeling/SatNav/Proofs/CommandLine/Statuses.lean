import SatNav.Proofs.Channel.Windows
import SatNav.Proofs.CommandLine.Report

/-!
# The status lines and the limit of the correlate command

For every `statusWindow` records the command says how well the carrier is locked. With a
limit it shows the first records that it would show without, and says the first of what it
would say. None of this depends on what the reads of the samples come to.
-/

namespace SatNav.CommandLine.Correlate

/-! ### Options -/

/-- The options without a limit on the records. -/
def withoutLimit (options : Options) : Options := options.filter (·.1 ≠ "max_records")

theorem lookup_withoutLimit {name : String} (h : name ≠ "max_records") (options : Options) :
    (withoutLimit options).lookup name = options.lookup name := by
  induction options with
  | nil => rfl
  | cons option later ih =>
    obtain ⟨key, text⟩ := option
    rw [withoutLimit] at ih ⊢
    by_cases hkey : key = "max_records"
    · subst hkey
      rw [List.filter_cons_of_neg (by simp), ih, List.lookup_cons, beq_eq_false_iff_ne.mpr h]
    · rw [List.filter_cons_of_pos (by simpa using hkey), List.lookup_cons, List.lookup_cons, ih]

theorem lookup_max_records_withoutLimit (options : Options) :
    (withoutLimit options).lookup "max_records" = none := by
  rw [List.lookup_eq_none_iff]
  intro option hoption
  have hname : option.1 ≠ "max_records" := of_decide_eq_true (List.mem_filter.mp hoption).2
  exact bne_iff_ne.mpr hname.symm

theorem number_withoutLimit {name : String} (h : name ≠ "max_records") (options : Options) :
    number (withoutLimit options) name = number options name := by
  rw [number, number, lookup_withoutLimit h]

/-- Without the limit the options ask for the same session. -/
theorem prepare_withoutLimit {options : Options} {files : Files} {plan : SessionPlan Float}
    {session : Session Float} (h : prepare options files = .ok (plan, session)) :
    prepare (withoutLimit options) files = .ok (plan.unlimited, session) := by
  obtain ⟨rate, intermediate, doppler, replica', bytes, codePhase, hrate, hintermediate, hdoppler,
    hreplica, hbytes, hcodePhase, rfl, rfl⟩ := exists_of_prepare h
  have hsamples := samples_eq_ok_iff.mpr ⟨bytes, hbytes, rfl⟩
  unfold prepare
  rw [number_withoutLimit (by decide), number_withoutLimit (by decide),
    number_withoutLimit (by decide), number_withoutLimit (by decide),
    lookup_withoutLimit (by decide), lookup_withoutLimit (by decide),
    lookup_max_records_withoutLimit, hrate, hintermediate, hdoppler, hreplica, hsamples,
    hcodePhase]
  rfl

/-! ### Lines -/

/-- The line for a window of prompts, integrated over a millisecond each: green where the carrier
lock is above 0.8. -/
def statusLine (prompts : List (Correlation Float)) : Message :=
  let cn0 := Binary64.alignRight 8 (Binary64.fixedText 2 (carrierToNoise prompts 1.0e-3))
  let lock := Binary64.alignRight 6 (Binary64.fixedText 3 (carrierLock prompts))
  .coloured (if 0.8 < carrierLock prompts then .green else .yellow)
    s!"{cn0} [dB-Hz], carrier lock {lock}"

theorem statusMessage_ofPrompts (prompts : List (Correlation Float)) :
    statusMessage (.ofPrompts prompts) = statusLine prompts := by
  have hlocked : (LockStatus.ofPrompts prompts).isLocked = true ↔ 0.8 < carrierLock prompts :=
    decide_eq_true_iff
  rw [statusMessage, if_congr hlocked rfl rfl]
  rfl

theorem messages_of_windowed {session : Session Float} (h : session.Windowed) (ending : Ending) :
    (outcome session ending).messages =
      (List.range (session.records.toList.length / statusWindow)).map
          (fun j => statusLine (windowOf session.records.toList j)) ++
        endingMessages ending := by
  have hlines : session.statuses.toList.map statusMessage =
      (List.range (session.records.toList.length / statusWindow)).map
        (fun j => statusLine (windowOf session.records.toList j)) := by
    rw [h.statuses, statusesOf, List.map_map]
    exact List.map_congr_left fun j _ => statusMessage_ofPrompts _
  exact congrArg (· ++ endingMessages ending) hlines

/-- With a limit the command says the first of what it would say without. -/
theorem messages_prefix_of_limit {plan : SessionPlan Float} {session : Session Float} {m : Nat}
    (hlimit : plan.limit = some m) (hsize : session.records.size < max 1 m)
    (h : session.Windowed) :
    (outcome (session.run plan).1 (session.run plan).2).messages <+:
      (outcome (session.run plan.unlimited).1 (session.run plan.unlimited).2).messages := by
  rcases Session.run_cases_of_limit hlimit hsize with ⟨hrun, -⟩ | ⟨hending, -, more, hmore⟩
  · rw [hrun]
  · have hstatuses : (session.run plan).1.statuses.toList <+:
        (session.run plan.unlimited).1.statuses.toList := by
      rw [(h.run plan).statuses, (h.run plan.unlimited).statuses, ← hmore]
      exact statusesOf_prefix _ more
    rw [hending]
    simp only [outcome, endingMessages, List.append_nil]
    exact (hstatuses.map statusMessage).trans (List.prefix_append _ _)

/-- With a limit the command shows the first records of the run without, at least one if there is
one. It says a line for each full window of its records, from the prompts of exactly these, and the
lines of a run with a limit are the first lines of the run without. At every block the prompts that
wait for a line are those of the records after the last full window. All of this holds whatever the
reads of the samples come to. -/
theorem windows_of_run {options : Options} {files : Files} {plan : SessionPlan Float}
    {session : Session Float} (hprepare : prepare options files = .ok (plan, session)) :
    run options files = outcome (session.run plan).1 (session.run plan).2 ∧
    run (withoutLimit options) files =
      outcome (session.run plan.unlimited).1 (session.run plan.unlimited).2 ∧
    session = .start session.source session.phases ∧
    ∀ source,
      let start := Session.start source session.phases
      let limited := start.run plan
      let free := start.run plan.unlimited
      let records := limited.1.records.toList
      (∀ m, plan.limit = some m →
        records = free.1.records.toList.take (min free.1.records.size (max 1 m))) ∧
      (plan.limit = none → limited = free) ∧
      (outcome limited.1 limited.2).output = some (.array (records.map recordDocument)) ∧
      (outcome limited.1 limited.2).messages =
        (List.range (records.length / 20)).map
            (fun j => statusLine (promptsOf ((records.drop (20 * j)).take 20))) ++
          endingMessages limited.2 ∧
      (outcome limited.1 limited.2).messages <+: (outcome free.1 free.2).messages ∧
      ∀ s : Session Float, (s = limited.1 ∨ ∃ k, start.blocks plan k = some s) →
        s.window = promptsOf (s.records.toList.drop (s.records.size - s.records.size % 20)) := by
  have hsession : session = .start session.source session.phases := by
    obtain ⟨_, _, _, _, _, _, -, -, -, -, -, -, -, rfl⟩ := exists_of_prepare hprepare
    rfl
  refine ⟨by rw [run, hprepare], by rw [run, prepare_withoutLimit hprepare], hsession, ?_⟩
  intro source start limited free records
  have hstart : start.Windowed := Session.windowed_start source session.phases
  have hempty (m : Nat) : start.records.size < max 1 m := Nat.lt_of_lt_of_le Nat.one_pos
    (Nat.le_max_left 1 m)
  have hunlimited (h : plan.limit = none) : limited = free := by
    have hplan : plan.unlimited = plan := by
      rw [SessionPlan.unlimited, ← h]
    exact congrArg start.run hplan.symm
  refine ⟨?_, hunlimited, rfl, messages_of_windowed (hstart.run plan) limited.2, ?_, ?_⟩
  · intro m hlimit
    rw [← Array.length_toList, Nat.min_comm, ← List.take_eq_take_min]
    exact Session.records_run_of_limit hlimit (hempty m)
  · cases hlimit : plan.limit with
    | none =>
      rw [hunlimited hlimit]
    | some m => exact messages_prefix_of_limit hlimit (hempty m) hstart
  · intro s hs
    have hwindowed : s.Windowed := by
      rcases hs with rfl | ⟨k, hk⟩
      · exact hstart.run plan
      · exact hstart.blocks hk
    rw [← Array.length_toList]
    exact hwindowed.window

/-- A limit of no records still shows one of the two that there are without it. -/
theorem windows_of_run_no_records :
    let options : Options := [("filename", "recording"), ("replica", "code"),
      ("sample_rate_sps", "2000"), ("if_hz", "0.0"), ("doppler_hz", "0.0"), ("code_phase", "0.0"),
      ("max_records", "0")]
    let files : Files := fun file =>
      .ok (if file = "code" then ⟨.replicate 1023 1⟩ else ⟨#[3, 253, 1, 255, 7]⟩)
    ∃ plan session, prepare options files = .ok (plan, session) ∧ plan.limit = some 0 ∧
      (session.run plan).1.records.size = 1 ∧
      (session.run plan).1.records.toList =
        (session.run plan.unlimited).1.records.toList.take
          (min (session.run plan.unlimited).1.records.size 1) ∧
      (run options files).messages = endingMessages (session.run plan).2 := by
  intro options files
  have hfirst : (match prepare options files with
      | .ok (plan, session) =>
        match session.step plan with
        | .ended after .limitReached => after.records.size == 1
        | _ => false
      | .error _ => false) = true := by
    decide +kernel
  cases hprepare : prepare options files with
  | error message =>
    rw [hprepare] at hfirst
    cases hfirst
  | ok prepared =>
    obtain ⟨plan, session⟩ := prepared
    rw [hprepare] at hfirst
    dsimp only at hfirst
    have hcount : (options.lookup "max_records").bind readCount? = some 0 := by
      decide +kernel
    have hlimit : plan.limit = some 0 := by
      obtain ⟨_, _, _, _, _, _, -, -, -, -, -, -, rfl, -⟩ := exists_of_prepare hprepare
      exact hcount
    have hsize : (session.run plan).1.records.size = 1 := by
      split at hfirst
      · next after hended =>
        rw [Session.run_of_ended hended]
        exact beq_iff_eq.mp hfirst
      · cases hfirst
    obtain ⟨hrun, -, hsession, hsource⟩ := windows_of_run hprepare
    obtain ⟨hrecords, -, -, hmessages, -⟩ := hsource session.source
    rw [← hsession] at hrecords hmessages
    refine ⟨plan, session, rfl, hlimit, hsize, hrecords 0 hlimit, ?_⟩
    rw [hrun, hmessages, Array.length_toList, hsize]
    rfl

end SatNav.CommandLine.Correlate
