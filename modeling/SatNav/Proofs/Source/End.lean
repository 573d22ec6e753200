import SatNav.Proofs.Source.Delivery
import SatNav.Proofs.Source.Steady

/-!
# The end of a source

A source is `Ended` when no request will ever get a sample from it, which is when nothing
remains (`ended_iff`). A block that comes out short is no sign of this: it says that one
read has brought nothing, and where a later one brings bytes they are handed out as if
nothing had happened. `short_blocks_end` says for which readers every short block is the
end: those whose readings are unbroken.
-/

namespace SatNav

open Reading (content)

/-- The samples in an answer. -/
def Answer.values : Answer → List Int8
  | sample x => (x.map Prod.fst).toList
  | block xs => xs
  | samples xs => xs.map Prod.fst

/-- An answer has no samples but those that its request goes through. -/
theorem Request.values_answer_sublist (request : Request) (items : List (Option Sample)) :
    (request.answer items).values.Sublist (items.reduceOption.map Prod.fst) := by
  have hlast : (Answer.sample items.getLast?.join).values.Sublist
      (items.reduceOption.map Prod.fst) := by
    rcases List.eq_nil_or_concat' items with rfl | ⟨earlier, x, rfl⟩
    · exact List.Sublist.refl _
    · rw [List.getLast?_concat, List.reduceOption_append, List.map_append]
      cases x with
      | none => exact List.nil_sublist _
      | some sample => exact List.sublist_append_right _ _
  cases request with
  | next => exact hlast
  | nextAfter n => exact hlast
  | take n => exact List.Sublist.refl _
  | drain => exact List.Sublist.refl _

namespace SampleSource

/-! ### Nothing remains -/

/-- No request will ever get a sample. -/
def Ended (s : SampleSource) : Prop :=
  ∀ requests, ∀ answer ∈ (Request.performAll requests s).1, answer.values = []

variable {s : SampleSource}

theorem Ended.next_fst (h : s.Ended) : s.next.1 = none := by
  have hvalues := h [.next] _ List.mem_cons_self
  cases hnext : s.next.1 with
  | none => rfl
  | some x =>
    rw [Request.perform, hnext] at hvalues
    cases hvalues

theorem Ended.next (h : s.Ended) : s.next.2.Ended := fun requests answer hanswer =>
  h (.next :: requests) answer (List.mem_cons_of_mem _ hanswer)

theorem remaining_next_of_ended (h : s.Ended) : s.next.2.remaining = s.remaining :=
  remaining_of_next_none (Prod.ext h.next_fst rfl)

theorem remaining_eq_nil_of_upcoming (h : s.unread = []) (hupcoming : s.reader.upcoming = []) :
    s.remaining = [] := by
  rw [remaining, h, hupcoming]
  rfl

/-- The induction is on the readings to come: each missing sample takes one of them. -/
theorem Ended.remaining_eq_nil (h : s.Ended) : s.remaining = [] := by
  generalize hcount : s.reader.upcoming.length = count
  induction count generalizing s with
  | zero =>
    obtain ⟨hunread, -⟩ := s.next_fst_eq_none_iff.mp h.next_fst
    exact remaining_eq_nil_of_upcoming hunread (List.length_eq_zero_iff.mp hcount)
  | succ count ih =>
    obtain ⟨hunread, hportion⟩ := s.next_fst_eq_none_iff.mp h.next_fst
    rcases Reader.upcoming_of_portion hportion with ⟨hnil, -⟩ | ⟨reading, -, hcons⟩
    · exact remaining_eq_nil_of_upcoming hunread hnil
    · rw [← remaining_next_of_ended h]
      refine ih h.next ?_
      rw [reader_next, if_pos hunread]
      rw [hcons, List.length_cons] at hcount
      exact Nat.succ.inj hcount

/-- Some calls hand out the front of what remains. -/
theorem delivered_append_remaining (s : SampleSource) (k : Nat) :
    (s.delivered k).map Prod.fst ++ (s.after k).remaining = s.remaining := by
  induction k with
  | zero => rfl
  | succ k ih =>
    rw [← ih, delivered_succ, after_succ, List.map_append, List.append_assoc]
    rcases hnext : (s.after k).next with ⟨_ | ⟨x, index⟩, later⟩
    · rw [remaining_of_next_none hnext]
      rfl
    · rw [(remaining_of_next_some hnext).1]
      rfl

theorem values_perform_of_remaining_nil (h : s.remaining = []) (request : Request) :
    (request.perform s).1.values = [] ∧ (request.perform s).2.remaining = [] := by
  have hsplit := s.delivered_append_remaining (request.calls s)
  rw [h, List.append_eq_nil_iff] at hsplit
  rw [request.perform_eq]
  refine ⟨List.eq_nil_of_sublist_nil ?_, hsplit.2⟩
  rw [← hsplit.1]
  exact request.values_answer_sublist _

/-- A source has ended just when nothing remains. -/
theorem ended_iff (s : SampleSource) : s.Ended ↔ s.remaining = [] := by
  refine ⟨Ended.remaining_eq_nil, fun h requests => ?_⟩
  induction requests generalizing s with
  | nil => exact fun answer hanswer => absurd hanswer List.not_mem_nil
  | cons request later ih =>
    obtain ⟨hvalues, hremaining⟩ := values_perform_of_remaining_nil h request
    intro answer hanswer
    rcases List.mem_cons.mp hanswer with rfl | hlater
    · exact hvalues
    · exact ih _ hremaining answer hlater

/-! ### Short blocks -/

/-- A block that is short ends with a missing sample. -/
theorem next_of_short_take {n : Nat} (h : (s.take n).1.length < n) :
    (s.after (s.take n).1.length).next = (none, (s.take n).2) := by
  induction n generalizing s with
  | zero => cases h
  | succ n ih =>
    rcases heq : s.next with ⟨_ | ⟨x, index⟩, after⟩
    · rw [take_succ_of_none heq]
      exact heq
    · rw [take_succ_of_some heq] at h ⊢
      rw [List.length_cons, after_succ_eq, heq]
      exact ih (Nat.lt_of_succ_lt_succ h)

theorem Unbroken.after (h : s.Unbroken) (k : Nat) : (s.after k).Unbroken := by
  induction k with
  | zero => exact h
  | succ k ih => exact ih.next

theorem Unbroken.ended_of_short_take (h : s.Unbroken) {n : Nat} (hshort : (s.take n).1.length < n) :
    (s.take n).2.Ended := by
  have hnext := next_of_short_take hshort
  rw [ended_iff, remaining_of_next_none hnext]
  exact (h.after _).remaining_eq_nil hnext

theorem Unbroken.of_remaining_nil (h : s.remaining = []) : s.Unbroken := by
  rw [remaining, List.map_eq_nil_iff, List.append_eq_nil_iff] at h
  exact Reading.unbroken_of_content_nil h.2

theorem Unbroken.of_next_some {after : SampleSource} {x : Sample}
    (hnext : s.next = (some x, after)) (h : after.Unbroken) : s.Unbroken := by
  have hreader := s.reader_next
  rw [hnext] at hreader
  rw [Unbroken, hreader] at h
  split at h
  · next hunread =>
    refine Reader.unbroken_of_read (fun hportion => ?_) h
    have hmissing := s.next_fst_eq_none_iff.mpr ⟨hunread, hportion⟩
    rw [hnext] at hmissing
    cases hmissing
  · exact h

/-- A short block after which nothing remains has met the first read that brings nothing. -/
theorem Unbroken.of_short_take {n : Nat} (hshort : (s.take n).1.length < n)
    (h : (s.take n).2.remaining = []) : s.Unbroken := by
  induction n generalizing s with
  | zero => cases hshort
  | succ n ih =>
    rcases heq : s.next with ⟨_ | ⟨x, index⟩, after⟩
    · rw [take_succ_of_none heq, remaining_of_next_none heq] at h
      exact .of_remaining_nil h
    · rw [take_succ_of_some heq] at hshort h
      exact .of_next_some heq (ih (Nat.lt_of_succ_lt_succ hshort) h)

theorem short_take_succ_pending (s : SampleSource) :
    (s.take (s.pending + 1)).1.length < s.pending + 1 := by
  have := s.pending_take (s.pending + 1)
  omega

/-- A block that is short has handed out all that has been read, and the read for its next sample
has failed or returned nothing. That is the end just when the reads to come hold no bytes. -/
theorem ended_iff_of_short_take {n : Nat} (hshort : (s.take n).1.length < n) :
    let before := s.after (s.take n).1.length
    let after := (s.take n).2
    before.unread = [] ∧
      (before.reader.read.1 = none ∨ ∃ bytes, before.reader.read.1 = some bytes ∧ bytes.1 = []) ∧
      after.reader = before.reader.read.2 ∧ after.unread = [] ∧
      (after.Ended ↔ content after.reader.upcoming = []) := by
  intro before after
  have hnext : before.next = (none, after) := next_of_short_take hshort
  obtain ⟨hunread, hportion⟩ := before.next_fst_eq_none_iff.mp (by rw [hnext])
  have hreader := before.reader_next
  have hafter := before.unread_next
  rw [hnext, if_pos hunread] at hreader
  rw [hnext, atHand_of_unread_nil hunread, hportion] at hafter
  refine ⟨hunread, before.reader.portion_eq_nil_iff.mp hportion, hreader, hafter, ?_⟩
  rw [ended_iff, remaining, hafter, List.tail_nil, List.nil_append, List.map_eq_nil_iff]

/-- In every state that requests lead to, a block that is short has handed out all that has been
read, and the read for its next sample has failed or returned nothing. That is the end just when the
reads to come hold no bytes. On a reader every short block is the end, whatever has been asked for
before, just when no bytes come after a read that brings nothing. -/
theorem short_blocks_end (readings : List Reading) :
    (∀ (requests : List Request) (n : Nat),
      let s := (Request.performAll requests (ofReadings readings)).2
      (s.take n).1.length < n →
        let before := s.after (s.take n).1.length
        let after := (s.take n).2
        before.unread = [] ∧
          (before.reader.read.1 = none ∨
            ∃ bytes, before.reader.read.1 = some bytes ∧ bytes.1 = []) ∧
          after.reader = before.reader.read.2 ∧ after.unread = [] ∧
          (after.Ended ↔ content after.reader.upcoming = [])) ∧
    ((∀ (requests : List Request) (n : Nat),
      let s := (Request.performAll requests (ofReadings readings)).2
      (s.take n).1.length < n → (s.take n).2.Ended) ↔ Reading.Unbroken readings) := by
  refine ⟨fun _ _ hshort => ended_iff_of_short_take hshort, fun h => ?_, fun h requests n => ?_⟩
  · have hshort := (ofReadings readings).short_take_succ_pending
    exact Unbroken.of_short_take hshort ((ended_iff _).mp (h [] _ hshort))
  · have hstart : (ofReadings readings).Unbroken := h
    rw [Request.performAll_eq]
    exact (hstart.after _).ended_of_short_take

/-- Where nothing follows the failure, the block that it leaves short is the end. -/
theorem short_blocks_end_failure :
    let s := ofReadings [.bytes [1], .failure, .bytes []]
    (s.take 2).1.length < 2 ∧ (s.take 2).2.unread = [] ∧ (s.take 2).2.Ended := by
  intro s
  have hshort : (s.take 2).1.length < 2 := by decide +kernel
  obtain ⟨hblocks, -⟩ := short_blocks_end [.bytes [1], .failure, .bytes []]
  obtain ⟨-, -, -, hunread, hended⟩ := hblocks [] 2 hshort
  have hcontent : content (s.take 2).2.reader.upcoming = [] := by decide +kernel
  exact ⟨hshort, hunread, hended.mpr hcontent⟩

/-- A failed read leaves a block short, and the next read brings a sample. -/
theorem sample_after_short_block :
    let s := ofReadings [.bytes [1], .failure, .bytes [2]]
    (s.take 2).1 = [1] ∧ (s.take 2).2.next.1 = some (2, 1) ∧ ¬ (s.take 2).2.Ended := by
  intro s
  have hshort : (s.take 2).1 = [1] := by decide +kernel
  have hnext : (s.take 2).2.next.1 = some (2, 1) := by decide +kernel
  refine ⟨hshort, hnext, fun hended => ?_⟩
  rw [hended.next_fst] at hnext
  cases hnext

end SampleSource

end SatNav
