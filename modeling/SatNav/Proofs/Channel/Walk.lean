import Mathlib.Data.List.Basic
import SatNav.Proofs.Channel.Admission
import SatNav.Channel.Session

/-!
# A channel on samples in memory

`Walk.blocks` takes block after block from samples that are all at hand, each from the
samples that the ones before it have left, and keeps a record of each. It is the plain
form of a session: no source, no limit and no lock status. `Walk.blocks_start` and
`Walk.exists_nextBlock_of_blocks` say what its records are, and `Walk.exists_step_error`
that it ends.
-/

namespace SatNav

/-- A channel part of the way through samples in memory. -/
structure Walk (R : Type) where
  phases : Phases R
  /-- Samples that the blocks so far have taken. -/
  offset : Nat
  records : List (BlockRecord R)

variable {R : Type}

/-- The samples that some records have taken. -/
def Walk.total : List (BlockRecord R) → Nat
  | [] => 0
  | r :: later => r.block.sampleCount.toNat + total later

theorem Walk.total_append_singleton (records : List (BlockRecord R)) (r : BlockRecord R) :
    total (records ++ [r]) = total records + r.block.sampleCount.toNat := by
  induction records with
  | nil => simp [total]
  | cons first later ih => simp [total, ih, Nat.add_assoc]

variable [Scalar R]

namespace Walk

/-- A channel that has taken no samples. -/
def start (phases : Phases R) : Walk R := ⟨phases, 0, []⟩

/-- The channel after a block, which left it at `after`. -/
def addBlock (w : Walk R) (block : Block R) (after : Phases R) : Walk R :=
  ⟨after, w.offset + block.sampleCount.toNat, w.records ++ [.ofBlock w.offset block after]⟩

/-- One more block, from the samples that are left. -/
def step (replica : Replica) (steps : Steps R) (samples : List Int8) (w : Walk R) :
    Except Fault (Walk R) :=
  match nextBlock replica steps w.phases (samples.drop w.offset) with
  | .error fault => .error fault
  | .ok (block, after) => .ok (w.addBlock block after)

/-- The channel after `m` more blocks, or the fault of the first that fails. -/
def blocks (replica : Replica) (steps : Steps R) (samples : List Int8) (w : Walk R) :
    Nat → Except Fault (Walk R)
  | 0 => .ok w
  | m + 1 =>
    match w.blocks replica steps samples m with
    | .error fault => .error fault
    | .ok w => w.step replica steps samples

variable {replica : Replica} {steps : Steps R} {samples : List Int8}

theorem blocks_succ_of_ok {w later : Walk R} {m : Nat}
    (h : w.blocks replica steps samples m = .ok later) :
    w.blocks replica steps samples (m + 1) = later.step replica steps samples := by
  rw [blocks, h]

theorem step_eq_ok_iff {w later : Walk R} :
    w.step replica steps samples = .ok later ↔
      ∃ block after,
        nextBlock replica steps w.phases (samples.drop w.offset) = .ok (block, after) ∧
          later = w.addBlock block after := by
  unfold step
  cases h : nextBlock replica steps w.phases (samples.drop w.offset) with
  | error fault => simp
  | ok next =>
    obtain ⟨block, after⟩ := next
    constructor
    · intro hstep
      exact ⟨block, after, rfl, (Except.ok.inj hstep).symm⟩
    · rintro ⟨block, after, hnext, rfl⟩
      cases hnext
      rfl

theorem step_eq_error_iff {w : Walk R} {fault : Fault} :
    w.step replica steps samples = .error fault ↔
      nextBlock replica steps w.phases (samples.drop w.offset) = .error fault := by
  unfold step
  cases nextBlock replica steps w.phases (samples.drop w.offset) with
  | error fault => simp
  | ok next => simp

theorem blocks_succ_eq_ok_iff {w later : Walk R} {m : Nat} :
    w.blocks replica steps samples (m + 1) = .ok later ↔
      ∃ before, w.blocks replica steps samples m = .ok before ∧
        before.step replica steps samples = .ok later := by
  rw [blocks]
  cases w.blocks replica steps samples m with
  | error fault => simp
  | ok before => simp

/-! ### Records -/

/-- Every block has its record, and the offset is what they have taken. -/
theorem blocks_start {phases : Phases R} {m : Nat} {w : Walk R}
    (h : (start phases).blocks replica steps samples m = .ok w) :
    w.records.length = m ∧ w.offset = total w.records := by
  induction m generalizing w with
  | zero =>
    cases h
    exact ⟨rfl, rfl⟩
  | succ m ih =>
    obtain ⟨before, hbefore, hstep⟩ := blocks_succ_eq_ok_iff.mp h
    obtain ⟨block, after, -, rfl⟩ := step_eq_ok_iff.mp hstep
    obtain ⟨hlength, hoffset⟩ := ih hbefore
    constructor
    · simp [addBlock, hlength]
    · simp [addBlock, hoffset, total_append_singleton, BlockRecord.ofBlock]

/-- A record was made by the walk as it stood after the records before it. -/
theorem exists_nextBlock_of_blocks {phases : Phases R} {m : Nat} {w : Walk R}
    (h : (start phases).blocks replica steps samples m = .ok w) {b : Nat}
    (hb : b < w.records.length) :
    ∃ before, (start phases).blocks replica steps samples b = .ok before ∧
      before.records = w.records.take b ∧
      nextBlock replica steps before.phases (samples.drop before.offset) =
        .ok (w.records[b].block, w.records[b].phases) ∧
      w.records[b].firstSample = before.offset := by
  induction m generalizing w with
  | zero =>
    cases h
    cases hb
  | succ m ih =>
    obtain ⟨before, hbefore, hstep⟩ := blocks_succ_eq_ok_iff.mp h
    obtain ⟨block, after, hblock, rfl⟩ := step_eq_ok_iff.mp hstep
    have hlength := (blocks_start hbefore).1
    rcases Nat.lt_or_ge b before.records.length with hlt | hge
    · obtain ⟨earlier, hearlier, hrecords, hnext, hfirst⟩ := ih hbefore hlt
      refine ⟨earlier, hearlier, ?_, ?_⟩
      · rw [hrecords, addBlock, List.take_append_of_le_length (Nat.le_of_lt hlt)]
      · simp only [addBlock, List.getElem_append_left hlt]
        exact ⟨hnext, hfirst⟩
    · have hlast : b = before.records.length := by
        rw [addBlock, List.length_append, List.length_singleton] at hb
        exact Nat.le_antisymm (Nat.le_of_lt_succ hb) hge
      subst hlast
      refine ⟨before, by rwa [hlength], ?_, ?_⟩
      · rw [addBlock, List.take_left]
      · simp only [addBlock, List.getElem_concat_length]
        exact ⟨hblock, rfl⟩

/-- The walk stands where its last record has left it, or where it began. -/
theorem phases_of_blocks {phases : Phases R} {m : Nat} {w : Walk R}
    (h : (start phases).blocks replica steps samples m = .ok w) :
    w.phases = (w.records.getLast?.map BlockRecord.phases).getD phases := by
  cases m with
  | zero =>
    cases h
    rfl
  | succ m =>
    obtain ⟨before, -, hstep⟩ := blocks_succ_eq_ok_iff.mp h
    obtain ⟨block, after, -, rfl⟩ := step_eq_ok_iff.mp hstep
    simp [addBlock, BlockRecord.ofBlock]

/-- The errors of a record are those that the arms of its block show. -/
theorem errors_of_blocks {phases : Phases R} {m : Nat} {w : Walk R}
    (h : (start phases).blocks replica steps samples m = .ok w) {r : BlockRecord R}
    (hr : r ∈ w.records) :
    r.phaseError = costasError r.block.arms.prompt.inPhase r.block.arms.prompt.quadrature ∧
      r.codeOffset = r.block.arms.codeOffset := by
  induction m generalizing w with
  | zero =>
    cases h
    cases hr
  | succ m ih =>
    obtain ⟨before, hbefore, hstep⟩ := blocks_succ_eq_ok_iff.mp h
    obtain ⟨block, after, -, rfl⟩ := step_eq_ok_iff.mp hstep
    rcases List.mem_append.mp hr with hearlier | hlast
    · exact ih hbefore hearlier
    · obtain rfl := List.mem_singleton.mp hlast
      exact ⟨rfl, rfl⟩

/-! ### The end -/

theorem offset_of_step {w later : Walk R} (h : w.step replica steps samples = .ok later)
    (hw : w.offset ≤ samples.length) :
    later.offset = w.offset + blockLength w.phases.code steps.code ∧
      later.offset ≤ samples.length := by
  obtain ⟨block, after, hblock, rfl⟩ := step_eq_ok_iff.mp h
  obtain ⟨hcount, hle⟩ := toNat_sampleCount_of_nextBlock hblock
  rw [List.length_drop] at hle
  have hoffset : (w.addBlock block after).offset =
      w.offset + blockLength w.phases.code steps.code := by rw [addBlock, hcount]
  exact ⟨hoffset, by omega⟩

/-- While there is no fault a walk goes on, and where no block is empty it takes at least one sample
with each. -/
theorem exists_blocks_or_step_error (replica : Replica) (samples : List Int8) (phases : Phases R)
    (hsteps : steps.NeverEmpty) (m : Nat) :
    (∃ walk, (start phases).blocks replica steps samples m = .ok walk ∧
        m ≤ walk.offset ∧ walk.offset ≤ samples.length) ∨
      ∃ m walk fault, (start phases).blocks replica steps samples m = .ok walk ∧
        walk.step replica steps samples = .error fault := by
  induction m with
  | zero => exact Or.inl ⟨start phases, rfl, Nat.le_refl 0, Nat.zero_le _⟩
  | succ m ih =>
    rcases ih with ⟨walk, hwalk, hm, hle⟩ | hfault
    · cases hstep : walk.step replica steps samples with
      | error fault => exact Or.inr ⟨m, walk, fault, hwalk, hstep⟩
      | ok later =>
        obtain ⟨block, after, hblock, -⟩ := step_eq_ok_iff.mp hstep
        have hlength := hsteps walk.phases (checkMotion_of_nextBlock hblock)
        obtain ⟨hoffset, hlater⟩ := offset_of_step hstep hle
        refine Or.inl ⟨later, (blocks_succ_of_ok hwalk).trans hstep, ?_, hlater⟩
        omega
    · exact Or.inr hfault

/-- With the end of the samples at the latest a walk comes to a fault. -/
theorem exists_step_error (replica : Replica) (samples : List Int8) (phases : Phases R)
    (hsteps : steps.NeverEmpty) :
    ∃ m walk fault, (start phases).blocks replica steps samples m = .ok walk ∧
      walk.step replica steps samples = .error fault := by
  rcases exists_blocks_or_step_error replica samples phases hsteps (samples.length + 1) with
    ⟨walk, -, hm, hle⟩ | hfault
  · omega
  · exact hfault

end Walk

end SatNav
