import SatNav.Proofs.Channel.Admission

/-!
# Attempts at a block

`trackInPlace` is a block as a program on phases that are changed in place, statement by
statement: each check may end it, and the two phases are written after the last of them.
`run_trackInPlace` says that it is `track`, so a program that ends early leaves no trace.

`attemptAll` makes one attempt after the other on the same phases. Attempts that fail can be
taken out of a sequence without changing what the others come to.
-/

namespace SatNav

/-- A request for a block: how far the channel moves with each sample, and the samples offered. -/
structure Attempt (R : Type) where
  steps : Steps R
  samples : List Int8

variable {R : Type} [Scalar R]

/-! ### One attempt -/

/-- A block, on phases that are changed in place. -/
def trackInPlace (replica : Replica) (attempt : Attempt R) :
    ExceptT Fault (StateM (Phases R)) (Block R) := do
  let start ← get
  checkMotion attempt.steps start
  let n := blockLength start.code attempt.steps.code
  if UInt32.size ≤ n then
    throw (.badParameter .blockLength)
  if attempt.samples.length < n then
    throw (.tooFewSamples n attempt.samples.length)
  replica.checkPhase (start.code - 0.5)
  replica.checkPhase (codePhaseAt start.code attempt.steps.code (n - 1) + 0.5)
  let block := Block.ofSamples replica attempt.steps start n attempt.samples
  modify fun p => ⟨codePhaseAt start.code attempt.steps.code n - codePeriod, p.carrier⟩
  modify fun p => ⟨p.code,
    Scalar.remainder (p.carrier + Scalar.ofCount n * attempt.steps.carrier) (2.0 * Scalar.pi)⟩
  return block

section InPlace

variable {ε σ α β : Type}

private theorem run_run_bind (x : ExceptT ε (StateM σ) α) (f : α → ExceptT ε (StateM σ) β)
    (s : σ) :
    (x >>= f).run.run s =
      match x.run.run s with
      | (.ok a, t) => (f a).run.run t
      | (.error e, t) => (.error e, t) := by
  rw [ExceptT.run_bind, StateT.run_bind]
  change (match x.run.run s with | (r, t) => _) = _
  rcases x.run.run s with ⟨r, t⟩
  cases r <;> rfl

private theorem run_run_check (x : Except ε α) (s : σ) :
    (liftM x : ExceptT ε (StateM σ) α).run.run s = (x, s) := rfl

private theorem run_run_get (s : σ) :
    (get : ExceptT ε (StateM σ) σ).run.run s = (.ok s, s) := rfl

end InPlace

theorem run_trackInPlace (replica : Replica) (attempt : Attempt R) (phases : Phases R) :
    (trackInPlace replica attempt).run.run phases =
      track replica attempt.steps phases attempt.samples := by
  unfold trackInPlace track nextBlock
  rw [admitBlock_eq, run_run_bind, run_run_get]
  dsimp only
  rw [run_run_bind, run_run_check]
  cases checkMotion attempt.steps phases with
  | error fault => rfl
  | ok motion =>
    dsimp only
    by_cases hsize : UInt32.size ≤ blockLength phases.code attempt.steps.code
    · rw [if_pos hsize, if_pos hsize]
      rfl
    · rw [if_neg hsize, if_neg hsize]
      by_cases havailable :
          attempt.samples.length < blockLength phases.code attempt.steps.code
      · rw [if_pos havailable, if_pos havailable]
        rfl
      · rw [if_neg havailable, if_neg havailable, run_run_bind, run_run_check]
        cases replica.checkPhase (phases.code - 0.5) with
        | error fault => rfl
        | ok first =>
          dsimp only
          rw [run_run_bind, run_run_check]
          cases replica.checkPhase (codePhaseAt phases.code attempt.steps.code
              (blockLength phases.code attempt.steps.code - 1) + 0.5) with
          | error fault => rfl
          | ok last => rfl

/-! ### One attempt after the other -/

/-- What each of some attempts comes to, made in turn on the same phases, and the phases at the
end. -/
def attemptAll (replica : Replica) :
    List (Attempt R) → Phases R → List (Except Fault (Block R)) × Phases R
  | [], phases => ([], phases)
  | attempt :: rest, phases =>
    let (outcome, after) := (trackInPlace replica attempt).run.run phases
    let (outcomes, final) := attemptAll replica rest after
    (outcome :: outcomes, final)

theorem attemptAll_cons (replica : Replica) (attempt : Attempt R) (rest : List (Attempt R))
    (phases : Phases R) :
    attemptAll replica (attempt :: rest) phases =
      let (outcome, after) := track replica attempt.steps phases attempt.samples
      (outcome :: (attemptAll replica rest after).1, (attemptAll replica rest after).2) := by
  rw [attemptAll, run_trackInPlace]

theorem attemptAll_cons_of_ok {replica : Replica} {attempt : Attempt R} {phases after : Phases R}
    {block : Block R}
    (h : nextBlock replica attempt.steps phases attempt.samples = .ok (block, after))
    (rest : List (Attempt R)) :
    attemptAll replica (attempt :: rest) phases =
      (.ok block :: (attemptAll replica rest after).1, (attemptAll replica rest after).2) := by
  rw [attemptAll_cons, track_of_nextBlock_ok h]

theorem attemptAll_cons_of_error {replica : Replica} {attempt : Attempt R} {phases : Phases R}
    {fault : Fault} (h : nextBlock replica attempt.steps phases attempt.samples = .error fault)
    (rest : List (Attempt R)) :
    attemptAll replica (attempt :: rest) phases =
      (.error fault :: (attemptAll replica rest phases).1,
        (attemptAll replica rest phases).2) := by
  rw [attemptAll_cons, track_of_nextBlock_error h]

theorem attemptAll_append (replica : Replica) (before later : List (Attempt R))
    (phases : Phases R) :
    attemptAll replica (before ++ later) phases =
      ((attemptAll replica before phases).1 ++
          (attemptAll replica later (attemptAll replica before phases).2).1,
        (attemptAll replica later (attemptAll replica before phases).2).2) := by
  induction before generalizing phases with
  | nil => rfl
  | cons attempt before ih =>
    rw [List.cons_append, attemptAll_cons, attemptAll_cons]
    dsimp only
    rw [ih]
    rfl

@[simp] theorem length_attemptAll (replica : Replica) (attempts : List (Attempt R))
    (phases : Phases R) : (attemptAll replica attempts phases).1.length = attempts.length := by
  induction attempts generalizing phases with
  | nil => rfl
  | cons attempt attempts ih =>
    rw [attemptAll_cons]
    exact congrArg Nat.succ (ih _)

/-- The attempts that came to a block. -/
def successful (attempts : List (Attempt R)) (outcomes : List (Except Fault (Block R))) :
    List (Attempt R) :=
  ((attempts.zip outcomes).filter fun made => made.2.isOk).map Prod.fst

theorem attemptAll_successful (replica : Replica) (attempts : List (Attempt R))
    (phases : Phases R) :
    attemptAll replica (successful attempts (attemptAll replica attempts phases).1) phases =
      ((attemptAll replica attempts phases).1.filter (·.isOk),
        (attemptAll replica attempts phases).2) := by
  induction attempts generalizing phases with
  | nil => rfl
  | cons attempt attempts ih =>
    cases h : nextBlock replica attempt.steps phases attempt.samples with
    | error fault =>
      rw [attemptAll_cons_of_error h]
      exact ih phases
    | ok taken =>
      obtain ⟨block, after⟩ := taken
      rw [attemptAll_cons_of_ok h]
      change attemptAll replica (attempt :: successful attempts _) phases = _
      rw [attemptAll_cons_of_ok h, ih after]
      rfl

/-- What an attempt comes to when it sees the phases that `left` gives for the number of
successes before it, and how the next success will then see them. -/
def Attempt.ComesTo (replica : Replica) (left : Nat → Phases R) (attempt : Attempt R)
    (successes : Nat) (outcome : Except Fault (Block R)) : Prop :=
  match outcome with
  | .ok block =>
    nextBlock replica attempt.steps (left successes) attempt.samples =
      .ok (block, left (successes + 1))
  | .error fault =>
    nextBlock replica attempt.steps (left successes) attempt.samples = .error fault

theorem exists_left (replica : Replica) (attempts : List (Attempt R)) (phases : Phases R) :
    ∃ left : Nat → Phases R,
      left 0 = phases ∧
      left ((attemptAll replica attempts phases).1.countP (·.isOk)) =
        (attemptAll replica attempts phases).2 ∧
      ∀ (i : Nat) (attempt : Attempt R) (outcome : Except Fault (Block R)),
        attempts[i]? = some attempt → (attemptAll replica attempts phases).1[i]? = some outcome →
          attempt.ComesTo replica left
            (((attemptAll replica attempts phases).1.take i).countP (·.isOk)) outcome := by
  induction attempts generalizing phases with
  | nil => exact ⟨fun _ => phases, rfl, rfl, by simp⟩
  | cons attempt attempts ih =>
    cases h : nextBlock replica attempt.steps phases attempt.samples with
    | error fault =>
      obtain ⟨left, hzero, hfinal, hsees⟩ := ih phases
      rw [attemptAll_cons_of_error h]
      refine ⟨left, hzero, ?_, fun i other outcome hother houtcome => ?_⟩
      · simpa [Except.isOk, Except.toBool] using hfinal
      · cases i with
        | zero =>
          cases hother
          cases houtcome
          exact hzero ▸ h
        | succ i =>
          have := hsees i other outcome hother houtcome
          simpa [Except.isOk, Except.toBool] using this
    | ok taken =>
      obtain ⟨block, after⟩ := taken
      obtain ⟨left, hzero, hfinal, hsees⟩ := ih after
      rw [attemptAll_cons_of_ok h]
      -- one more success stands before all that `left` counts
      let shifted : Nat → Phases R := fun k => Nat.casesOn k phases left
      have hshift : ∀ (k : Nat) (other : Attempt R) (outcome : Except Fault (Block R)),
          other.ComesTo replica left k outcome → other.ComesTo replica shifted (k + 1) outcome := by
        intro k other outcome hk
        cases outcome <;> exact hk
      refine ⟨shifted, rfl, ?_, fun i other outcome hother houtcome => ?_⟩
      · simpa [Except.isOk, Except.toBool] using hfinal
      · cases i with
        | zero =>
          cases hother
          cases houtcome
          change nextBlock replica attempt.steps phases attempt.samples = .ok (block, left 0)
          rw [hzero, h]
        | succ i =>
          have := hshift _ other outcome (hsees i other outcome hother houtcome)
          simpa [Except.isOk, Except.toBool] using this

theorem attemptAll_without_failed {replica : Replica} {phases : Phases R}
    {before later : List (Attempt R)} {failed : Attempt R} {fault : Fault}
    (h : (attemptAll replica (before ++ failed :: later) phases).1[before.length]? =
      some (.error fault)) :
    attemptAll replica (before ++ later) phases =
      ((attemptAll replica (before ++ failed :: later) phases).1.eraseIdx before.length,
        (attemptAll replica (before ++ failed :: later) phases).2) := by
  rw [attemptAll_append] at h ⊢
  rw [attemptAll_append]
  have hlength := length_attemptAll replica before phases
  cases hfailed : nextBlock replica failed.steps (attemptAll replica before phases).2
      failed.samples with
  | error other =>
    rw [attemptAll_cons_of_error hfailed]
    rw [List.eraseIdx_append_of_length_le (Nat.le_of_eq hlength), hlength, Nat.sub_self]
    rfl
  | ok taken =>
    rw [attemptAll_cons_of_ok hfailed, List.getElem?_append_right (Nat.le_of_eq hlength), hlength,
      Nat.sub_self] at h
    cases h

/-- Failed attempts leave no trace: without them the others come to the same blocks and the same
phases at the end, and each attempt sees the phases that the last success before it left.

The last part takes out a single attempt, such as one with too few samples that is followed by one
with more of them. -/
theorem failed_attempts_leave_no_trace (replica : Replica) (attempts : List (Attempt R))
    (phases : Phases R) :
    attemptAll replica (successful attempts (attemptAll replica attempts phases).1) phases =
        ((attemptAll replica attempts phases).1.filter (·.isOk),
          (attemptAll replica attempts phases).2) ∧
      (∃ left : Nat → Phases R,
        left 0 = phases ∧
        left ((attemptAll replica attempts phases).1.countP (·.isOk)) =
          (attemptAll replica attempts phases).2 ∧
        ∀ (i : Nat) (attempt : Attempt R) (outcome : Except Fault (Block R)),
          attempts[i]? = some attempt →
          (attemptAll replica attempts phases).1[i]? = some outcome →
            attempt.ComesTo replica left
              (((attemptAll replica attempts phases).1.take i).countP (·.isOk)) outcome) ∧
      ∀ (before later : List (Attempt R)) (failed : Attempt R) (fault : Fault),
        attempts = before ++ failed :: later →
        (attemptAll replica attempts phases).1[before.length]? = some (.error fault) →
          attemptAll replica (before ++ later) phases =
            ((attemptAll replica attempts phases).1.eraseIdx before.length,
              (attemptAll replica attempts phases).2) := by
  refine ⟨attemptAll_successful replica attempts phases, exists_left replica attempts phases, ?_⟩
  rintro before later failed fault rfl hfailed
  exact attemptAll_without_failed hfailed

end SatNav
