import Mathlib.Data.List.Basic
import SatNav.SampleSource

/-!
# One sample from a source

`SampleSource.next` is read here through `SampleSource.unread`, the bytes that have been
read and not handed out. `SampleSource.atHand` is what the next sample is chosen from:
the unread bytes, or those of one more read where there are none. The buffer, its cursor
and its filled length occur in no later module; `next_fst`, `unread_next`, `reader_next`
and `position_next` say all that a call does.
-/

namespace SatNav

namespace Reader

/-- The bytes that one read brings, which are none where it fails. -/
def portion (r : Reader) : List UInt8 := r.read.1.elim [] (·.1)

theorem reads_read (r : Reader) : r.read.2.reads = r.reads + 1 := by
  obtain ⟨upcoming, reads⟩ := r
  rcases upcoming with _ | ⟨_ | chunk, later⟩ <;> rfl

theorem portion_eq_nil_iff (r : Reader) :
    r.portion = [] ↔ r.read.1 = none ∨ ∃ bytes, r.read.1 = some bytes ∧ bytes.1 = [] := by
  unfold portion
  cases r.read.1 with
  | none => simp
  | some bytes => simp

end Reader

namespace SampleSource

theorem unread_of_lt {s : SampleSource} (h : s.cursor < s.filled) :
    s.unread = s.buffer.get ⟨s.cursor, Nat.lt_of_lt_of_le h s.filled_le⟩ ::
      (s.buffer.toList.take s.filled).drop (s.cursor + 1) := by
  have hlength : s.cursor < (s.buffer.toList.take s.filled).length := by
    have := s.filled_le
    simp only [List.length_take, Vector.length_toList]
    omega
  rw [unread, List.drop_eq_getElem_cons hlength]
  simp [Vector.get]

theorem unread_eq_nil_iff (s : SampleSource) : s.unread = [] ↔ ¬ s.cursor < s.filled := by
  constructor
  · intro h hlt
    rw [unread_of_lt hlt] at h
    exact List.cons_ne_nil _ _ h
  · intro h
    rw [unread, List.drop_eq_nil_iff, List.length_take]
    omega

theorem pop_fst (s : SampleSource) :
    s.pop.1 = s.unread.head?.map fun byte => (byte.toInt8, s.position) := by
  unfold pop
  split
  · next h => simp [unread_of_lt h, Vector.get]
  · next h => simp [(unread_eq_nil_iff s).mpr h]

theorem unread_pop (s : SampleSource) : s.pop.2.unread = s.unread.tail := by
  unfold pop
  split
  · next h =>
    rw [unread_of_lt h]
    rfl
  · next h => simp [(unread_eq_nil_iff s).mpr h]

@[simp] theorem reader_pop (s : SampleSource) : s.pop.2.reader = s.reader := by
  unfold pop
  split <;> rfl

theorem position_pop (s : SampleSource) :
    s.pop.2.position = s.position + s.unread.head?.toList.length := by
  unfold pop
  split
  · next h => simp [unread_of_lt h]
  · next h => simp [(unread_eq_nil_iff s).mpr h]

@[simp] theorem reader_refill (s : SampleSource) : s.refill.reader = s.reader.read.2 := by
  unfold refill
  split
  · next h => rw [h]
  · next h => rw [h]

@[simp] theorem position_refill (s : SampleSource) : s.refill.position = s.position := by
  unfold refill
  split <;> rfl

/-- Of what earlier reads have left in the buffer, no read brings anything back. -/
theorem unread_refill {s : SampleSource} (h : s.unread = []) :
    s.refill.unread = s.reader.portion := by
  unfold refill Reader.portion
  split
  · next hread =>
    rw [hread]
    exact h
  · next portion reader hread =>
    simp [hread, unread, Portion.writeTo]

/-- The bytes that the next sample is chosen from: those not handed out yet, or those of one more
read where there are none. -/
def atHand (s : SampleSource) : List UInt8 :=
  if s.unread = [] then s.reader.portion else s.unread

theorem atHand_of_unread_nil {s : SampleSource} (h : s.unread = []) :
    s.atHand = s.reader.portion := if_pos h

theorem atHand_of_unread_ne_nil {s : SampleSource} (h : s.unread ≠ []) :
    s.atHand = s.unread := if_neg h

theorem next_of_unread_nil {s : SampleSource} (h : s.unread = []) :
    s.next = s.refill.pop := if_neg ((unread_eq_nil_iff s).mp h)

theorem next_of_unread_ne_nil {s : SampleSource} (h : s.unread ≠ []) : s.next = s.pop :=
  if_pos (Decidable.not_not.mp (mt (unread_eq_nil_iff s).mpr h))

/-- The next sample is the first byte at hand, with the index that is due. -/
theorem next_fst (s : SampleSource) :
    s.next.1 = s.atHand.head?.map fun byte => (byte.toInt8, s.position) := by
  by_cases h : s.unread = []
  · rw [next_of_unread_nil h, pop_fst, unread_refill h, position_refill, atHand_of_unread_nil h]
  · rw [next_of_unread_ne_nil h, pop_fst, atHand_of_unread_ne_nil h]

/-- What is left is unread: nothing is passed over and nothing comes twice. -/
theorem unread_next (s : SampleSource) : s.next.2.unread = s.atHand.tail := by
  by_cases h : s.unread = []
  · rw [next_of_unread_nil h, unread_pop, unread_refill h, atHand_of_unread_nil h]
  · rw [next_of_unread_ne_nil h, unread_pop, atHand_of_unread_ne_nil h]

/-- The reader is used, and once, only where no byte is unread. -/
theorem reader_next (s : SampleSource) :
    s.next.2.reader = if s.unread = [] then s.reader.read.2 else s.reader := by
  by_cases h : s.unread = []
  · rw [next_of_unread_nil h, reader_pop, reader_refill, if_pos h]
  · rw [next_of_unread_ne_nil h, reader_pop, if_neg h]

theorem position_next (s : SampleSource) :
    s.next.2.position = s.position + s.next.1.toList.length := by
  by_cases h : s.unread = []
  · rw [next_of_unread_nil h, position_pop, pop_fst, position_refill]
    cases s.refill.unread <;> rfl
  · rw [next_of_unread_ne_nil h, position_pop, pop_fst]
    cases s.unread <;> rfl

theorem reads_next (s : SampleSource) :
    s.next.2.reads = s.reads + if s.unread = [] then 1 else 0 := by
  rw [reads, reader_next]
  split
  · exact s.reader.reads_read
  · rfl

/-- A sample is missing exactly when a read was needed for it and brought nothing. -/
theorem next_fst_eq_none_iff (s : SampleSource) :
    s.next.1 = none ↔ s.unread = [] ∧ s.reader.portion = [] := by
  rw [next_fst, Option.map_eq_none_iff, List.head?_eq_none_iff]
  by_cases h : s.unread = []
  · rw [atHand_of_unread_nil h]
    exact ⟨fun hportion => ⟨h, hportion⟩, fun hboth => hboth.2⟩
  · rw [atHand_of_unread_ne_nil h]
    exact ⟨fun hunread => absurd hunread h, fun hboth => hboth.1⟩

@[simp] theorem unread_ofReadings (readings : List Reading) :
    (ofReadings readings).unread = [] := rfl

end SampleSource

end SatNav
