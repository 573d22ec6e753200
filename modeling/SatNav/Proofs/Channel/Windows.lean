import SatNav.Proofs.Channel.Refinement

/-!
# Status windows and the limit of a session

A session gathers the prompts of its records and turns every `statusWindow` of them into a
lock status. `Session.Windowed` says what that comes to: the statuses are those of the full
windows of its records, and the prompts that are still gathered are those of the records
after the last full window. Every block keeps it.

The limit of a plan decides whether a session goes on after a block, never what the block
adds. The records of a session with a limit are therefore the first ones of the session
without, and so are its statuses.
-/

namespace SatNav

variable {R : Type}

/-! ### Windows of records -/

/-- The prompts of some records. -/
def promptsOf (records : List (BlockRecord R)) : List (Correlation R) :=
  records.map (·.block.arms.prompt)

/-- The prompts of the records in window `j`. -/
def windowOf (records : List (BlockRecord R)) (j : Nat) : List (Correlation R) :=
  promptsOf ((records.drop (statusWindow * j)).take statusWindow)

/-- The prompts of the records after the last full window. -/
def pendingOf (records : List (BlockRecord R)) : List (Correlation R) :=
  promptsOf (records.drop (records.length - records.length % statusWindow))

theorem windowOf_append {records : List (BlockRecord R)} {j : Nat}
    (h : j < records.length / statusWindow) (more : List (BlockRecord R)) :
    windowOf (records ++ more) j = windowOf records j := by
  have hend : statusWindow * j + statusWindow ≤ records.length := by
    rw [statusWindow] at h ⊢
    omega
  rw [windowOf, windowOf, List.drop_append_of_le_length (by omega),
    List.take_append_of_le_length (by rw [List.length_drop]; omega)]

theorem length_pendingOf (records : List (BlockRecord R)) :
    (pendingOf records).length = records.length % statusWindow := by
  rw [pendingOf, promptsOf, List.length_map, List.length_drop]
  have := Nat.mod_le records.length statusWindow
  omega

/-- While its window does not get full, a record joins those that are pending. -/
theorem pendingOf_append_singleton {records : List (BlockRecord R)} (r : BlockRecord R)
    (h : records.length % statusWindow + 1 ≠ statusWindow) :
    pendingOf (records ++ [r]) = pendingOf records ++ [r.block.arms.prompt] := by
  have hstart : (records ++ [r]).length - (records ++ [r]).length % statusWindow =
      records.length - records.length % statusWindow := by
    rw [List.length_append, List.length_singleton, statusWindow] at *
    omega
  rw [pendingOf, hstart, List.drop_append_of_le_length (Nat.sub_le ..)]
  exact List.map_append

/-- The record that fills a window leaves none pending. -/
theorem pendingOf_append_of_full {records : List (BlockRecord R)} (r : BlockRecord R)
    (h : records.length % statusWindow + 1 = statusWindow) :
    pendingOf (records ++ [r]) = [] := by
  have hend : (records ++ [r]).length - (records ++ [r]).length % statusWindow =
      (records ++ [r]).length := by
    rw [List.length_append, List.length_singleton, statusWindow] at *
    omega
  rw [pendingOf, hend, List.drop_length]
  rfl

/-- The record that fills a window completes the prompts that were pending. -/
theorem windowOf_append_of_full {records : List (BlockRecord R)} (r : BlockRecord R)
    (h : records.length % statusWindow + 1 = statusWindow) :
    windowOf (records ++ [r]) (records.length / statusWindow) =
      pendingOf records ++ [r.block.arms.prompt] := by
  have hstart : records.length - records.length % statusWindow =
      statusWindow * (records.length / statusWindow) := by
    have := Nat.div_add_mod records.length statusWindow
    omega
  have hall : ((records ++ [r]).drop (statusWindow * (records.length / statusWindow))).length ≤
      statusWindow := by
    rw [List.length_drop, List.length_append, List.length_singleton, ← hstart]
    have := Nat.mod_le records.length statusWindow
    omega
  rw [windowOf, List.take_of_length_le hall, ← hstart,
    List.drop_append_of_le_length (Nat.sub_le ..)]
  exact List.map_append

/-! ### Limits -/

/-- A plan without its limit. -/
def SessionPlan.unlimited (plan : SessionPlan R) : SessionPlan R := { plan with limit := none }

theorem SessionPlan.isReached_of_limit {plan : SessionPlan R} {m : Nat}
    (h : plan.limit = some m) (records : Nat) : plan.isReached records = decide (m ≤ records) := by
  rw [isReached, h]

/-- The session after a step, whether or not it goes on. -/
def Progress.session : Progress R → Session R
  | .running s => s
  | .ended s _ => s

variable [Scalar R]

/-! ### Statuses -/

/-- The lock statuses of the full windows of some records. -/
def statusesOf (records : List (BlockRecord R)) : List (LockStatus R) :=
  (List.range (records.length / statusWindow)).map fun j => .ofPrompts (windowOf records j)

theorem map_windowOf_append (records more : List (BlockRecord R)) :
    (List.range (records.length / statusWindow)).map
        (fun j => LockStatus.ofPrompts (windowOf (records ++ more) j)) =
      statusesOf records := by
  refine List.map_congr_left fun j hj => ?_
  rw [windowOf_append (List.mem_range.mp hj)]

theorem statusesOf_append_singleton {records : List (BlockRecord R)} (r : BlockRecord R)
    (h : records.length % statusWindow + 1 ≠ statusWindow) :
    statusesOf (records ++ [r]) = statusesOf records := by
  have hcount : (records ++ [r]).length / statusWindow = records.length / statusWindow := by
    rw [List.length_append, List.length_singleton, statusWindow] at *
    omega
  rw [statusesOf, hcount, map_windowOf_append]

theorem statusesOf_append_of_full {records : List (BlockRecord R)} (r : BlockRecord R)
    (h : records.length % statusWindow + 1 = statusWindow) :
    statusesOf (records ++ [r]) =
      statusesOf records ++ [.ofPrompts (pendingOf records ++ [r.block.arms.prompt])] := by
  have hcount : (records ++ [r]).length / statusWindow = records.length / statusWindow + 1 := by
    rw [List.length_append, List.length_singleton, statusWindow] at *
    omega
  rw [statusesOf, hcount, List.range_succ, List.map_append, map_windowOf_append,
    List.map_singleton, windowOf_append_of_full r h]

/-- More records leave the statuses of the first ones as they are. -/
theorem statusesOf_prefix (records more : List (BlockRecord R)) :
    statusesOf records <+: statusesOf (records ++ more) := by
  have hle : records.length / statusWindow ≤ (records ++ more).length / statusWindow := by
    rw [List.length_append]
    exact Nat.div_le_div_right (Nat.le_add_right ..)
  rw [← map_windowOf_append records more, statusesOf]
  refine List.IsPrefix.map _ ?_
  rw [List.prefix_iff_eq_take, List.length_range, List.take_range, Nat.min_eq_left hle]

/-! ### Blocks -/

namespace Session

/-- The statuses of a session are those of the full windows of its records, and its window holds
the prompts of the records after them. -/
structure Windowed (s : Session R) : Prop where
  statuses : s.statuses.toList = statusesOf s.records.toList
  window : s.window = pendingOf s.records.toList

theorem windowed_start (source : SampleSource) (phases : Phases R) :
    (start source phases).Windowed where
  statuses := by simp [start, statusesOf]
  window := by simp [start, pendingOf, promptsOf]

theorem Windowed.withSource {s : Session R} (h : s.Windowed) (source : SampleSource) :
    { s with source := source }.Windowed := ⟨h.statuses, h.window⟩

theorem records_addBlock (s : Session R) (source : SampleSource) (block : Block R)
    (phases : Phases R) :
    (s.addBlock source block phases).records =
      s.records.push (.ofBlock s.firstSample block phases) := by
  rw [addBlock, records_addPrompt]

/-- One more block keeps to the windows, whether or not it fills one. -/
theorem Windowed.addBlock {s : Session R} (h : s.Windowed) (source : SampleSource)
    (block : Block R) (phases : Phases R) : (s.addBlock source block phases).Windowed := by
  have hlength : (s.window ++ [block.arms.prompt]).length =
      s.records.toList.length % statusWindow + 1 := by
    rw [List.length_append, List.length_singleton, h.window, length_pendingOf]
  have hrecords : (s.addBlock source block phases).records.toList =
      s.records.toList ++ [.ofBlock s.firstSample block phases] := by
    rw [records_addBlock, Array.toList_push]
  by_cases hfull : s.records.toList.length % statusWindow + 1 = statusWindow
  · constructor
    · rw [hrecords, statusesOf_append_of_full _ hfull, ← h.statuses, ← h.window,
        Session.addBlock, addPrompt, if_pos (hlength.trans hfull), Array.toList_push]
      rfl
    · rw [hrecords, pendingOf_append_of_full _ hfull, Session.addBlock, addPrompt,
        if_pos (hlength.trans hfull)]
  · constructor
    · rw [hrecords, statusesOf_append_singleton _ hfull, ← h.statuses, Session.addBlock,
        addPrompt, if_neg (fun hsize => hfull (hlength.symm.trans hsize))]
    · rw [hrecords, pendingOf_append_singleton _ hfull, ← h.window, Session.addBlock,
        addPrompt, if_neg (fun hsize => hfull (hlength.symm.trans hsize))]
      rfl

/-! ### Steps -/

variable {plan : SessionPlan R} {s after : Session R}

/-- A step reads from the source, and unless the session ends there it adds a block. Of all this
the limit decides only whether the session then goes on. -/
theorem step_cases (plan : SessionPlan R) (s : Session R) :
    ∃ source,
      (∃ ending, ∀ limit,
        s.step { plan with limit := limit } = .ended { s with source := source } ending) ∨
      ∃ block phases, ∃ isLast : Bool, ∀ limit,
        let after := s.addBlock source block phases
        s.step { plan with limit := limit } =
          if SessionPlan.isReached { plan with limit := limit } after.records.size then
            .ended after .limitReached
          else if isLast then .ended after .endOfSamples
          else .running after := by
  let taken := s.source.take (blockLength s.phases.code plan.steps.code)
  refine ⟨taken.2, ?_⟩
  by_cases hfew : taken.1.length < blockLength s.phases.code plan.steps.code
  · refine Or.inl ⟨.endOfSamples, fun limit => ?_⟩
    exact if_pos hfew
  · cases hblock : nextBlock plan.replica plan.steps s.phases taken.1 with
    | error fault =>
      refine Or.inl ⟨.failed s.firstSample fault, fun limit => ?_⟩
      refine (if_neg hfew).trans ?_
      dsimp only
      rw [hblock]
    | ok next =>
      obtain ⟨block, phases⟩ := next
      refine Or.inr ⟨block, phases, taken.1.isEmpty, fun limit => ?_⟩
      refine (if_neg hfew).trans ?_
      dsimp only
      rw [hblock]

/-- A step adds a block or nothing. -/
theorem session_step_cases (plan : SessionPlan R) (s : Session R) :
    ∃ source, (s.step plan).session = { s with source := source } ∨
      ∃ block phases, (s.step plan).session = s.addBlock source block phases := by
  obtain ⟨source, ⟨ending, hended⟩ | ⟨block, phases, isLast, hblock⟩⟩ := step_cases plan s
  · refine ⟨source, Or.inl ?_⟩
    rw [show s.step plan = _ from hended plan.limit]
    rfl
  · refine ⟨source, Or.inr ⟨block, phases, ?_⟩⟩
    rw [show s.step plan = _ from hblock plan.limit]
    split
    · rfl
    · split <;> rfl

theorem Windowed.step (h : s.Windowed) (plan : SessionPlan R) :
    (s.step plan).session.Windowed := by
  obtain ⟨source, hsession | ⟨block, phases, hsession⟩⟩ := session_step_cases plan s
  · rw [hsession]
    exact h.withSource source
  · rw [hsession]
    exact h.addBlock source block phases

theorem records_prefix_step (plan : SessionPlan R) (s : Session R) :
    s.records.toList <+: (s.step plan).session.records.toList := by
  obtain ⟨source, hsession | ⟨block, phases, hsession⟩⟩ := session_step_cases plan s
  · exact hsession ▸ List.prefix_refl _
  · rw [hsession, records_addBlock, Array.toList_push]
    exact List.prefix_append _ _

/-! ### Runs -/

theorem blocks_succ_eq_some_iff {k : Nat} :
    s.blocks plan (k + 1) = some after ↔
      ∃ before, s.blocks plan k = some before ∧ before.step plan = .running after := by
  rw [blocks]
  cases s.blocks plan k with
  | none => simp
  | some before =>
    cases hstep : before.step plan with
    | running later => simp [hstep]
    | ended later ending => simp [hstep]

/-- The invariant of the loop. -/
theorem Windowed.blocks (h : s.Windowed) {k : Nat} (hblocks : s.blocks plan k = some after) :
    after.Windowed := by
  induction k generalizing after with
  | zero =>
    cases hblocks
    exact h
  | succ k ih =>
    obtain ⟨before, hbefore, hstep⟩ := blocks_succ_eq_some_iff.mp hblocks
    have hafter := (ih hbefore).step plan
    rwa [hstep] at hafter

/-- What every step keeps holds at the end of a session. -/
theorem run_induction {motive : Session R → Prop}
    (hstep : ∀ s : Session R, motive s → motive (s.step plan).session) (h : motive s) :
    motive (s.run plan).1 := by
  induction s using Session.run.induct plan with
  | case1 s after ending hended =>
    rw [run_of_ended hended]
    have hafter := hstep s h
    rwa [hended] at hafter
  | case2 s after hrunning hlt ih =>
    rw [run_of_running hrunning]
    have hafter := hstep s h
    rw [hrunning] at hafter
    exact ih hafter

theorem Windowed.run (h : s.Windowed) (plan : SessionPlan R) : (s.run plan).1.Windowed :=
  run_induction (fun _ hs => hs.step plan) h

theorem records_prefix_run (plan : SessionPlan R) (s : Session R) :
    s.records.toList <+: (s.run plan).1.records.toList :=
  run_induction (motive := fun later => s.records.toList <+: later.records.toList)
    (fun later h => h.trans (records_prefix_step plan later)) (List.prefix_refl _)

theorem size_addBlock (s : Session R) (source : SampleSource) (block : Block R)
    (phases : Phases R) :
    (s.addBlock source block phases).records.size = s.records.size + 1 := by
  rw [records_addBlock, Array.size_push]

/-- A session that goes on within its limit goes on without one. -/
theorem step_unlimited_of_running (h : s.step plan = .running after) :
    s.step plan.unlimited = .running after ∧ after.records.size = s.records.size + 1 ∧
      plan.isReached after.records.size = false := by
  obtain ⟨source, ⟨ending, hended⟩ | ⟨block, phases, isLast, hblock⟩⟩ := step_cases plan s
  · rw [show s.step plan = _ from hended plan.limit] at h
    cases h
  · have hfree : s.step plan.unlimited = _ := hblock none
    rw [show s.step plan = _ from hblock plan.limit] at h
    split at h
    · cases h
    · next hreached =>
      split at h
      · cases h
      · next hlast =>
        cases h
        refine ⟨?_, size_addBlock .., Bool.not_eq_true _ |>.mp hreached⟩
        rw [hfree, if_neg hlast]
        rfl

/-- A session that ends does so without a limit too, unless it has just reached its own. -/
theorem step_unlimited_of_ended {ending : Ending} (h : s.step plan = .ended after ending) :
    (s.step plan.unlimited = .ended after ending ∧ after.records.size ≤ s.records.size + 1) ∨
      (ending = .limitReached ∧ plan.isReached after.records.size ∧
        after.records.size = s.records.size + 1 ∧
        (s.step plan.unlimited).session = after) := by
  obtain ⟨source, ⟨ending', hended⟩ | ⟨block, phases, isLast, hblock⟩⟩ := step_cases plan s
  · rw [show s.step plan = _ from hended plan.limit] at h
    cases h
    exact Or.inl ⟨hended none, Nat.le_succ _⟩
  · have hfree : s.step plan.unlimited = _ := hblock none
    rw [show s.step plan = _ from hblock plan.limit] at h
    split at h
    · next hreached =>
      cases h
      refine Or.inr ⟨rfl, hreached, size_addBlock .., ?_⟩
      rw [hfree]
      cases isLast <;> rfl
    · split at h
      · next hlast =>
        cases h
        refine Or.inl ⟨?_, Nat.le_of_eq (size_addBlock ..)⟩
        rw [hfree, if_pos hlast]
        rfl
      · cases h

theorem records_prefix_run_of_step {plan : SessionPlan R} {s : Session R} :
    (s.step plan).session.records.toList <+: (s.run plan).1.records.toList := by
  cases hstep : s.step plan with
  | running after =>
    rw [run_of_running hstep]
    exact records_prefix_run plan after
  | ended after ending =>
    rw [run_of_ended hstep]
    exact List.prefix_refl _

/-- A session with a limit is one without, or it ends with the record that reaches the limit and
the one without has this record and those before it. -/
theorem run_cases_of_limit {m : Nat} (hlimit : plan.limit = some m)
    (hsize : s.records.size < max 1 m) :
    s.run plan = s.run plan.unlimited ∧ (s.run plan).1.records.size ≤ max 1 m ∨
      (s.run plan).2 = .limitReached ∧ (s.run plan).1.records.size = max 1 m ∧
        (s.run plan).1.records.toList <+: (s.run plan.unlimited).1.records.toList := by
  induction s using Session.run.induct plan with
  | case1 s after ending hended =>
    rw [run_of_ended hended]
    rcases step_unlimited_of_ended hended with
      ⟨hfree, hcount⟩ | ⟨rfl, hreached, hcount, hsession⟩
    · rw [run_of_ended hfree]
      exact Or.inl ⟨rfl, Nat.le_trans hcount hsize⟩
    · rw [SessionPlan.isReached_of_limit hlimit, decide_eq_true_iff] at hreached
      refine Or.inr ⟨rfl, ?_, ?_⟩
      · dsimp only
        omega
      · rw [← hsession]
        exact records_prefix_run_of_step
  | case2 s after hrunning hlt ih =>
    obtain ⟨hfree, hcount, hreached⟩ := step_unlimited_of_running hrunning
    rw [SessionPlan.isReached_of_limit hlimit, decide_eq_false_iff_not] at hreached
    rw [run_of_running hrunning, run_of_running hfree]
    exact ih (by omega)

/-- With a limit there are the first records of the session without, at least one if there is
one. -/
theorem records_run_of_limit {m : Nat} (hlimit : plan.limit = some m)
    (hsize : s.records.size < max 1 m) :
    (s.run plan).1.records.toList =
      (s.run plan.unlimited).1.records.toList.take (max 1 m) := by
  rcases run_cases_of_limit hlimit hsize with ⟨hrun, hcount⟩ | ⟨-, hcount, hprefix⟩
  · rw [← hrun, List.take_of_length_le hcount]
  · rw [List.prefix_iff_eq_take.mp hprefix, Array.length_toList, hcount]

end Session

end SatNav
