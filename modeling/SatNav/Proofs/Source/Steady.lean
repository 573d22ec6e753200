import SatNav.Proofs.Source.Next

/-!
# Sources that are read to their end

Readings are unbroken where no byte comes after a read that brings nothing, and steady
where moreover no read fails, which is how a regular file is read, however many bytes each
read returns. `SampleSource.remaining` is what a source still has to give. On unbroken
readings a block is the front of it, and what follows the block remains.
-/

namespace SatNav

namespace Reading

/-- The bytes of some readings, one reading after the other. -/
def content : List Reading → List UInt8
  | [] => []
  | failure :: later => content later
  | bytes chunk :: later => chunk ++ content later

theorem length_content (readings : List Reading) :
    (content readings).length = totalLength readings := by
  induction readings with
  | nil => rfl
  | cons reading later ih =>
    cases reading with
    | failure => rw [content, ih, totalLength, length, Nat.zero_add]
    | bytes chunk => rw [content, List.length_append, ih, totalLength, length]

/-- No read fails, and where one returns nothing there is nothing to come. -/
def Steady : List Reading → Prop
  | [] => True
  | failure :: _ => False
  | bytes chunk :: later => (chunk = [] → content later = []) ∧ Steady later

/-- No byte comes after a read that fails or returns nothing. -/
def Unbroken : List Reading → Prop
  | [] => True
  | reading :: later => (reading.length = 0 → content later = []) ∧ Unbroken later

theorem Steady.unbroken {readings : List Reading} (h : Steady readings) : Unbroken readings := by
  induction readings with
  | nil => trivial
  | cons reading later ih =>
    cases reading with
    | failure => exact h.elim
    | bytes chunk => exact ⟨fun hlength => h.1 (List.length_eq_zero_iff.mp hlength), ih h.2⟩

theorem unbroken_of_content_nil {readings : List Reading} (h : content readings = []) :
    Unbroken readings := by
  induction readings with
  | nil => trivial
  | cons reading later ih =>
    cases reading with
    | failure => exact ⟨fun _ => h, ih h⟩
    | bytes chunk =>
      have hlater := (List.append_eq_nil_iff.mp h).2
      exact ⟨fun _ => hlater, ih hlater⟩

theorem steady_singleton (chunk : List UInt8) : Steady [bytes chunk] :=
  ⟨fun _ => rfl, trivial⟩

theorem content_singleton (chunk : List UInt8) : content [bytes chunk] = chunk :=
  List.append_nil chunk

end Reading

namespace Reader

open Reading (content Steady Unbroken)

theorem portion_append_content (r : Reader) :
    r.portion ++ content r.read.2.upcoming = content r.upcoming := by
  obtain ⟨upcoming, reads⟩ := r
  match upcoming with
  | [] => rfl
  | .failure :: later => rfl
  | .bytes chunk :: later =>
    simp only [portion, read, Option.elim, content]
    split
    · next hleft =>
      rw [List.take_of_length_le (List.drop_eq_nil_iff.mp (List.isEmpty_iff.mp hleft))]
    · rw [content, ← List.append_assoc, List.take_append_drop]

theorem steady_read {r : Reader} (h : Steady r.upcoming) : Steady r.read.2.upcoming := by
  obtain ⟨upcoming, reads⟩ := r
  match upcoming with
  | [] => trivial
  | .failure :: later => exact h.elim
  | .bytes chunk :: later =>
    simp only [read]
    split
    · exact h.2
    · next hleft => exact ⟨fun hnil => absurd (List.isEmpty_iff.mpr hnil) hleft, h.2⟩

theorem unbroken_read {r : Reader} (h : Unbroken r.upcoming) : Unbroken r.read.2.upcoming := by
  obtain ⟨upcoming, reads⟩ := r
  match upcoming with
  | [] => trivial
  | .failure :: later => exact h.2
  | .bytes chunk :: later =>
    simp only [read]
    split
    · exact h.2
    · next hleft =>
      exact ⟨fun hlength => absurd (List.isEmpty_iff_length_eq_zero.mpr hlength) hleft, h.2⟩

theorem unbroken_of_read {r : Reader} (hportion : r.portion ≠ [])
    (h : Unbroken r.read.2.upcoming) : Unbroken r.upcoming := by
  obtain ⟨upcoming, reads⟩ := r
  match upcoming with
  | [] => trivial
  | .failure :: later => exact absurd rfl hportion
  | .bytes chunk :: later =>
    have hchunk : chunk ≠ [] := by
      rintro rfl
      exact hportion rfl
    refine ⟨fun hlength => absurd (List.length_eq_zero_iff.mp hlength) hchunk, ?_⟩
    simp only [read] at h
    split at h
    · exact h
    · exact h.2

/-- A read that brings nothing takes one of the readings to come, if there is one. -/
theorem upcoming_of_portion {r : Reader} (h : r.portion = []) :
    r.upcoming = [] ∧ r.read.2.upcoming = [] ∨
      ∃ reading, reading.length = 0 ∧ r.upcoming = reading :: r.read.2.upcoming := by
  obtain ⟨upcoming, reads⟩ := r
  match upcoming with
  | [] => exact Or.inl ⟨rfl, rfl⟩
  | .failure :: later => exact Or.inr ⟨.failure, rfl, rfl⟩
  | .bytes chunk :: later =>
    have hchunk : chunk = [] := by
      rcases List.take_eq_nil_iff.mp h with hsize | hnil
      · cases hsize
      · exact hnil
    subst hchunk
    exact Or.inr ⟨.bytes [], rfl, rfl⟩

theorem content_eq_nil_of_portion {r : Reader} (h : Unbroken r.upcoming)
    (hportion : r.portion = []) : content r.upcoming = [] := by
  have happend := r.portion_append_content
  rw [hportion, List.nil_append] at happend
  rcases upcoming_of_portion hportion with ⟨hnil, -⟩ | ⟨reading, hlength, hcons⟩
  · rw [hnil]
    rfl
  · rw [hcons] at h
    rw [← happend]
    exact h.1 hlength

end Reader

namespace SampleSource

open Reading (content)

/-- The samples that are still to come, up to the end of the readings. -/
def remaining (s : SampleSource) : List Int8 :=
  (s.unread ++ content s.reader.upcoming).map UInt8.toInt8

/-- What is to be read from the source is steady. -/
def Steady (s : SampleSource) : Prop := Reading.Steady s.reader.upcoming

/-- What is to be read from the source is unbroken. -/
def Unbroken (s : SampleSource) : Prop := Reading.Unbroken s.reader.upcoming

theorem Steady.unbroken {s : SampleSource} (h : s.Steady) : s.Unbroken :=
  Reading.Steady.unbroken h

theorem remaining_ofReadings (readings : List Reading) :
    (ofReadings readings).remaining = (content readings).map UInt8.toInt8 := rfl

theorem Steady.next {s : SampleSource} (h : s.Steady) : s.next.2.Steady := by
  rw [Steady, reader_next]
  split
  · exact Reader.steady_read h
  · exact h

theorem Unbroken.next {s : SampleSource} (h : s.Unbroken) : s.next.2.Unbroken := by
  rw [Unbroken, reader_next]
  split
  · exact Reader.unbroken_read h
  · exact h

/-- What is at hand is the front of what remains. -/
theorem atHand_append_content (s : SampleSource) :
    s.atHand ++ content s.next.2.reader.upcoming = s.unread ++ content s.reader.upcoming := by
  rw [reader_next]
  by_cases h : s.unread = []
  · rw [if_pos h, atHand_of_unread_nil h, Reader.portion_append_content, h, List.nil_append]
  · rw [if_neg h, atHand_of_unread_ne_nil h]

/-- Where a sample is missing nothing gets lost. -/
theorem remaining_of_next_none {s after : SampleSource} (hnext : s.next = (none, after)) :
    after.remaining = s.remaining := by
  obtain ⟨hunread, hportion⟩ := s.next_fst_eq_none_iff.mp (by rw [hnext])
  have hhand := s.atHand_append_content
  have hafter := s.unread_next
  rw [hnext, atHand_of_unread_nil hunread, hportion] at hhand hafter
  rw [remaining, remaining, hafter, List.tail_nil, hhand]

theorem Unbroken.remaining_eq_nil {s after : SampleSource} (h : s.Unbroken)
    (hnext : s.next = (none, after)) : s.remaining = [] := by
  obtain ⟨hunread, hportion⟩ := s.next_fst_eq_none_iff.mp (by rw [hnext])
  rw [remaining, hunread, Reader.content_eq_nil_of_portion h hportion]
  rfl

theorem remaining_of_next_some {s after : SampleSource} {x : Int8} {index : Nat}
    (hnext : s.next = (some (x, index), after)) :
    s.remaining = x :: after.remaining ∧ index = s.position ∧
      after.position = s.position + 1 := by
  have hhand := s.atHand_append_content
  have hafter := s.unread_next
  have hfst := s.next_fst
  have hposition := s.position_next
  rw [hnext] at hhand hafter hfst hposition
  cases hbytes : s.atHand with
  | nil =>
    rw [hbytes] at hfst
    cases hfst
  | cons byte rest =>
    rw [hbytes] at hhand hafter hfst
    cases hfst
    refine ⟨?_, rfl, hposition⟩
    rw [remaining, remaining, ← hhand, hafter]
    rfl

theorem Steady.take {s : SampleSource} (h : s.Steady) (n : Nat) : (s.take n).2.Steady := by
  induction n generalizing s with
  | zero => exact h
  | succ n ih =>
    have hnext := h.next
    rcases heq : s.next with ⟨_ | ⟨x, index⟩, after⟩
    · rw [take_succ_of_none heq]
      rwa [heq] at hnext
    · rw [take_succ_of_some heq]
      rw [heq] at hnext
      exact ih hnext

/-- A block is the front of what remains. -/
theorem Unbroken.take_fst {s : SampleSource} (h : s.Unbroken) (n : Nat) :
    (s.take n).1 = s.remaining.take n := by
  induction n generalizing s with
  | zero => simp
  | succ n ih =>
    have hnext := h.next
    rcases heq : s.next with ⟨_ | ⟨x, index⟩, after⟩
    · rw [take_succ_of_none heq, h.remaining_eq_nil heq]
      rfl
    · rw [heq] at hnext
      rw [take_succ_of_some heq, (remaining_of_next_some heq).1, ih hnext]
      rfl

/-- A block and what remains after it are what remained before. -/
theorem take_append_remaining (s : SampleSource) (n : Nat) :
    (s.take n).1 ++ (s.take n).2.remaining = s.remaining := by
  induction n generalizing s with
  | zero => rfl
  | succ n ih =>
    rcases heq : s.next with ⟨_ | ⟨x, index⟩, after⟩
    · rw [take_succ_of_none heq]
      exact remaining_of_next_none heq
    · rw [take_succ_of_some heq, (remaining_of_next_some heq).1, List.cons_append, ih]

/-- What follows a block remains. -/
theorem Unbroken.remaining_take {s : SampleSource} (h : s.Unbroken) (n : Nat) :
    (s.take n).2.remaining = s.remaining.drop n := by
  have hsplit := s.take_append_remaining n
  rw [h.take_fst] at hsplit
  exact List.append_cancel_left (hsplit.trans (List.take_append_drop n s.remaining).symm)

theorem position_take (s : SampleSource) (n : Nat) :
    (s.take n).2.position = s.position + (s.take n).1.length := by
  induction n generalizing s with
  | zero => rfl
  | succ n ih =>
    rcases heq : s.next with ⟨_ | ⟨x, index⟩, after⟩
    · have hposition := s.position_next
      rw [heq] at hposition
      rw [take_succ_of_none heq]
      exact hposition
    · rw [take_succ_of_some heq, ih, (remaining_of_next_some heq).2.2, List.length_cons]
      omega

end SampleSource

end SatNav
