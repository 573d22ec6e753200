import SatNav.Proofs.Source.Delivery
import SatNav.Proofs.Source.Steady

/-!
# Where blocks and reads end

A source hands out the same samples wherever one block ends and the next one begins, and
however the bytes come in. `SampleSource.take_add` joins two blocks.
`SampleSource.Alike` relates two sources on different readers which have the same samples
left: they answer every request alike and remain so.
-/

namespace SatNav

namespace SampleSource

/-! ### Blocks -/

/-- A block that is full and the block after it are one block, by as many reads. -/
theorem take_add {s : SampleSource} {n : Nat} (h : (s.take n).1.length = n) (m : Nat) :
    s.take (n + m) =
      ((s.take n).1 ++ ((s.take n).2.take m).1, ((s.take n).2.take m).2) := by
  induction n generalizing s with
  | zero => rw [Nat.zero_add, take_zero, List.nil_append]
  | succ n ih =>
    rcases heq : s.next with ⟨_ | ⟨x, index⟩, after⟩
    · rw [take_succ_of_none heq] at h
      cases h
    · rw [take_succ_of_some heq] at h ⊢
      rw [Nat.add_right_comm, take_succ_of_some heq, ih (Nat.succ.inj h), List.cons_append]

/-! ### Portions -/

variable {s t : SampleSource}

theorem Unbroken.next_fst (h : s.Unbroken) :
    s.next.1 = s.remaining.head?.map fun x => (x, s.position) := by
  rcases heq : s.next with ⟨_ | ⟨x, index⟩, after⟩
  · rw [h.remaining_eq_nil heq]
    rfl
  · obtain ⟨hremaining, rfl, -⟩ := remaining_of_next_some heq
    rw [hremaining]
    rfl

theorem Unbroken.remaining_next (h : s.Unbroken) : s.next.2.remaining = s.remaining.tail := by
  rcases heq : s.next with ⟨_ | ⟨x, index⟩, after⟩
  · rw [remaining_of_next_none heq, h.remaining_eq_nil heq]
    rfl
  · rw [(remaining_of_next_some heq).1]
    rfl

theorem length_remaining (s : SampleSource) : s.remaining.length = s.pending := by
  have hfilled := s.filled_le
  rw [remaining, List.length_map, List.length_append, Reading.length_content, unread,
    List.length_drop, List.length_take, Vector.length_toList, Nat.min_eq_left hfilled, pending]

/-- Both sources have the same samples left, under the same indices, and no read interrupts
them. -/
structure Alike (s t : SampleSource) : Prop where
  unbroken_left : s.Unbroken
  unbroken_right : t.Unbroken
  remaining : s.remaining = t.remaining
  position : s.position = t.position

namespace Alike

theorem ofReadings {one other : List Reading} (hone : Reading.Unbroken one)
    (hother : Reading.Unbroken other) (hcontent : Reading.content one = Reading.content other) :
    (ofReadings one).Alike (ofReadings other) where
  unbroken_left := hone
  unbroken_right := hother
  remaining := by rw [remaining_ofReadings, remaining_ofReadings, hcontent]
  position := rfl

theorem next_fst (h : s.Alike t) : s.next.1 = t.next.1 := by
  rw [h.unbroken_left.next_fst, h.unbroken_right.next_fst, h.remaining, h.position]

theorem next (h : s.Alike t) : s.next.2.Alike t.next.2 where
  unbroken_left := h.unbroken_left.next
  unbroken_right := h.unbroken_right.next
  remaining := by
    rw [h.unbroken_left.remaining_next, h.unbroken_right.remaining_next, h.remaining]
  position := by rw [position_next, position_next, h.next_fst, h.position]

theorem after (h : s.Alike t) (k : Nat) : (s.after k).Alike (t.after k) := by
  induction k with
  | zero => exact h
  | succ k ih => exact ih.next

theorem items (h : s.Alike t) (k : Nat) : s.items k = t.items k := by
  induction k with
  | zero => rfl
  | succ k ih => rw [items_succ, items_succ, ih, (h.after k).next_fst]

theorem calls (h : s.Alike t) (n : Nat) : s.calls n = t.calls n := by
  induction n generalizing s t with
  | zero => rfl
  | succ n ih => rw [SampleSource.calls, SampleSource.calls, h.next_fst, ih h.next]

theorem pending (h : s.Alike t) : s.pending = t.pending := by
  rw [← length_remaining, ← length_remaining, h.remaining]

theorem request_calls (h : s.Alike t) (request : Request) : request.calls s = request.calls t := by
  cases request with
  | next => exact h.calls 1
  | nextAfter n => exact h.calls (n + 1)
  | take n => exact h.calls n
  | drain => rw [Request.calls, Request.calls, h.pending, h.calls]

theorem perform_fst (h : s.Alike t) (request : Request) :
    (request.perform s).1 = (request.perform t).1 := by
  rw [request.perform_eq, request.perform_eq, h.request_calls, h.items]

theorem perform (h : s.Alike t) (request : Request) :
    (request.perform s).2.Alike (request.perform t).2 := by
  rw [request.perform_eq, request.perform_eq, h.request_calls]
  exact h.after _

theorem performAll_fst (h : s.Alike t) (requests : List Request) :
    (Request.performAll requests s).1 = (Request.performAll requests t).1 := by
  induction requests generalizing s t with
  | nil => rfl
  | cons request later ih =>
    rw [Request.performAll, Request.performAll, h.perform_fst request, ih (h.perform request)]

end Alike

/-- Whatever the reader does, a block that is full and the block after it come to the same samples
and leave the same source, its reads counted, as one block of both lengths. And if two readers bring
the same bytes, in whatever portions, and neither fails nor returns nothing before the last of them,
then all requests one after the other have the same answers. -/
theorem boundaries_invisible :
    (∀ (s : SampleSource) (n m : Nat), (s.take n).1.length = n →
      (s.take (n + m)).1 = (s.take n).1 ++ ((s.take n).2.take m).1 ∧
      (s.take (n + m)).2 = ((s.take n).2.take m).2) ∧
    ∀ one other : List Reading, Reading.Unbroken one → Reading.Unbroken other →
      Reading.content one = Reading.content other →
        ∀ requests : List Request,
          (Request.performAll requests (ofReadings one)).1 =
            (Request.performAll requests (ofReadings other)).1 := by
  refine ⟨fun s n m h => ?_, fun one other hone hother hcontent requests => ?_⟩
  · rw [take_add h]
    exact ⟨rfl, rfl⟩
  · exact (Alike.ofReadings hone hother hcontent).performAll_fst requests

/-- The first block ends with the bytes of a read, and the read for the second one fails. A read
that fails after the last byte is not seen either. -/
theorem boundaries_invisible_failures :
    let s := ofReadings [.bytes [7, 255], .failure, .bytes [3]]
    let one : List Reading := [.bytes [7, 255], .bytes [3], .failure]
    let other : List Reading := [.bytes [7], .bytes [255, 3]]
    let requests : List Request := [.take 2, .nextAfter 1, .next, .take 1]
    ((s.take 2).1.length = 2 ∧ (s.take 5).2 = ((s.take 2).2.take 3).2 ∧
      ((s.take 2).2.take 3).2.reads = 2) ∧
    Reading.Unbroken one ∧ Reading.Unbroken other ∧
      Reading.content one = Reading.content other ∧
      (Request.performAll requests (ofReadings one)).1 =
        (Request.performAll requests (ofReadings other)).1 := by
  intro s one other requests
  have hfull : (s.take 2).1.length = 2 := by decide +kernel
  have hreads : ((s.take 2).2.take 3).2.reads = 2 := by decide +kernel
  have hone : Reading.Unbroken one := ⟨nofun, nofun, fun _ => rfl, trivial⟩
  have hother : Reading.Unbroken other := ⟨nofun, nofun, trivial⟩
  exact ⟨⟨hfull, (boundaries_invisible.1 s 2 3 hfull).2, hreads⟩, hone, hother, rfl,
    boundaries_invisible.2 one other hone hother rfl requests⟩

end SampleSource

end SatNav
