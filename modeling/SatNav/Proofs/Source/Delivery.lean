import Mathlib.Data.List.ReduceOption
import SatNav.Proofs.Source.Next

/-!
# What a source delivers

All operations of a source are made of calls of `SampleSource.next`. `SampleSource.after`
is the source after a number of calls and `SampleSource.items` what they have handed out,
with `none` for a missing sample. `delivered_append_unread` is the invariant of any number
of calls: what has been handed out, followed by what is unread, is what the reads have
returned.

A `Request` is one of the operations. `Request.perform_eq` says which calls it makes and
how its answer is read off them, and `Request.performAll_delivers_in_order` puts both
together for requests of any kind in any order, on a reader of any behaviour.
-/

namespace SatNav

namespace Reader

/-- The reader after `k` reads. -/
def after (r : Reader) : Nat → Reader
  | 0 => r
  | k + 1 => (r.after k).read.2

/-- The bytes that the first `k` reads return, in order. -/
def returned (r : Reader) : Nat → List UInt8
  | 0 => []
  | k + 1 => r.returned k ++ (r.after k).portion

@[simp] theorem after_zero (r : Reader) : r.after 0 = r := rfl

theorem after_succ (r : Reader) (k : Nat) : r.after (k + 1) = (r.after k).read.2 := rfl

theorem returned_succ (r : Reader) (k : Nat) :
    r.returned (k + 1) = r.returned k ++ (r.after k).portion := rfl

end Reader

namespace SampleSource

/-- The source after `k` calls of `next`. -/
def after (s : SampleSource) : Nat → SampleSource
  | 0 => s
  | k + 1 => (s.after k).next.2

/-- What `k` calls of `next` hand out, with `none` where a sample is missing. -/
def items (s : SampleSource) : Nat → List (Option Sample)
  | 0 => []
  | k + 1 => s.items k ++ [(s.after k).next.1]

@[simp] theorem after_zero (s : SampleSource) : s.after 0 = s := rfl

theorem after_succ (s : SampleSource) (k : Nat) : s.after (k + 1) = (s.after k).next.2 := rfl

@[simp] theorem items_zero (s : SampleSource) : s.items 0 = [] := rfl

theorem items_succ (s : SampleSource) (k : Nat) :
    s.items (k + 1) = s.items k ++ [(s.after k).next.1] := rfl

theorem after_add (s : SampleSource) (j k : Nat) : s.after (j + k) = (s.after j).after k := by
  induction k with
  | zero => rfl
  | succ k ih => rw [← Nat.add_assoc, after_succ, ih, after_succ]

theorem items_add (s : SampleSource) (j k : Nat) :
    s.items (j + k) = s.items j ++ (s.after j).items k := by
  induction k with
  | zero => simp
  | succ k ih => rw [← Nat.add_assoc, items_succ, ih, after_add, List.append_assoc, items_succ]

theorem after_succ_eq (s : SampleSource) (k : Nat) : s.after (k + 1) = s.next.2.after k := by
  rw [Nat.add_comm, after_add]
  rfl

theorem items_succ_eq (s : SampleSource) (k : Nat) :
    s.items (k + 1) = s.next.1 :: s.next.2.items k := by
  rw [Nat.add_comm, items_add]
  rfl

@[simp] theorem length_items (s : SampleSource) (k : Nat) : (s.items k).length = k := by
  induction k with
  | zero => rfl
  | succ k ih => rw [items_succ, List.length_append, ih, List.length_singleton]

/-- The samples that `k` calls of `next` hand out, with their indices. -/
def delivered (s : SampleSource) (k : Nat) : List Sample := (s.items k).reduceOption

theorem delivered_succ (s : SampleSource) (k : Nat) :
    s.delivered (k + 1) = s.delivered k ++ (s.after k).next.1.toList := by
  rw [delivered, items_succ, List.reduceOption_append]
  cases (s.after k).next.1 <;> rfl

/-- The reads of a source are reads of the reader that it was made with. -/
theorem reader_after (readings : List Reading) (k : Nat) :
    ((ofReadings readings).after k).reader =
      Reader.after ⟨readings, 0⟩ ((ofReadings readings).after k).reads := by
  induction k with
  | zero => rfl
  | succ k ih =>
    rw [after_succ, reader_next, reads_next]
    split
    · rw [Reader.after_succ, ← ih]
    · exact ih

/-- One call hands out what it takes off the bytes at hand. -/
theorem next_append_unread (s : SampleSource) :
    s.next.1.toList.map Prod.fst ++ s.next.2.unread.map UInt8.toInt8 =
      s.atHand.map UInt8.toInt8 := by
  rw [next_fst, unread_next]
  cases s.atHand <;> rfl

/-- Handed out and unread together are what the reads have returned, in order. -/
theorem delivered_append_unread (readings : List Reading) (k : Nat) :
    ((ofReadings readings).delivered k).map Prod.fst ++
        ((ofReadings readings).after k).unread.map UInt8.toInt8 =
      (Reader.returned ⟨readings, 0⟩ ((ofReadings readings).after k).reads).map
        UInt8.toInt8 := by
  induction k with
  | zero => rfl
  | succ k ih =>
    rw [delivered_succ, List.map_append, List.append_assoc, after_succ, next_append_unread,
      reads_next]
    by_cases h : ((ofReadings readings).after k).unread = []
    · rw [atHand_of_unread_nil h, reader_after, if_pos h, Reader.returned_succ, List.map_append,
        ← ih, h]
      simp
    · rw [atHand_of_unread_ne_nil h, if_neg h]
      exact ih

/-- The samples are numbered from zero on, whatever samples are missing in between. -/
theorem delivered_indices (readings : List Reading) (k : Nat) :
    ((ofReadings readings).delivered k).map Prod.snd =
      List.range ((ofReadings readings).after k).position := by
  induction k with
  | zero => rfl
  | succ k ih =>
    rw [delivered_succ, List.map_append, ih, after_succ, position_next, next_fst]
    cases ((ofReadings readings).after k).atHand with
    | nil => exact List.append_nil _
    | cons byte later => exact List.range_succ.symm

/-- The calls of `next` that an operation makes which goes on to `n` items, or to the first missing
one. -/
def calls : Nat → SampleSource → Nat
  | 0, _ => 0
  | n + 1, s => if s.next.1.isSome then calls n s.next.2 + 1 else 1

theorem calls_succ_of_none {s : SampleSource} (h : s.next.1 = none) (n : Nat) :
    s.calls (n + 1) = 1 := by
  rw [calls, h]
  rfl

theorem calls_succ_of_some {s : SampleSource} {x : Sample} (h : s.next.1 = some x) (n : Nat) :
    s.calls (n + 1) = s.next.2.calls n + 1 := by
  rw [calls, h]
  rfl

theorem calls_succ_pos (s : SampleSource) (n : Nat) : 0 < s.calls (n + 1) := by
  cases h : s.next.1 with
  | none =>
    rw [calls_succ_of_none h]
    exact Nat.one_pos
  | some x =>
    rw [calls_succ_of_some h]
    exact Nat.succ_pos _

theorem calls_le (n : Nat) (s : SampleSource) : s.calls n ≤ n := by
  induction n generalizing s with
  | zero => exact Nat.le_refl 0
  | succ n ih =>
    cases h : s.next.1 with
    | none =>
      rw [calls_succ_of_none h]
      exact Nat.succ_pos n
    | some x =>
      rw [calls_succ_of_some h]
      exact Nat.succ_le_succ (ih s.next.2)

/-- No item is missing before the last one. -/
theorem none_not_mem_dropLast_items_calls (n : Nat) (s : SampleSource) :
    none ∉ (s.items (s.calls n)).dropLast := by
  induction n generalizing s with
  | zero => exact List.not_mem_nil
  | succ n ih =>
    cases h : s.next.1 with
    | none =>
      rw [calls_succ_of_none h, items_succ_eq]
      exact List.not_mem_nil
    | some x =>
      rw [calls_succ_of_some h, items_succ_eq, h]
      have hlater := ih s.next.2
      cases hitems : s.next.2.items (s.next.2.calls n) with
      | nil => exact List.not_mem_nil
      | cons y later =>
        rw [hitems] at hlater
        rw [List.dropLast_cons_cons, List.mem_cons, not_or]
        exact ⟨(Option.some_ne_none x).symm, hlater⟩

/-- Fewer items than wanted means that the last one is missing. -/
theorem calls_eq_or_getLast?_items (n : Nat) (s : SampleSource) :
    s.calls n = n ∨ (s.items (s.calls n)).getLast? = some none := by
  induction n generalizing s with
  | zero => exact Or.inl rfl
  | succ n ih =>
    cases h : s.next.1 with
    | none =>
      right
      rw [calls_succ_of_none h, items_succ_eq, h]
      rfl
    | some x =>
      rw [calls_succ_of_some h, items_succ_eq]
      rcases ih s.next.2 with hall | hlast
      · exact Or.inl (congrArg Nat.succ hall)
      · right
        rw [List.getLast?_cons, hlast]
        rfl

theorem take_eq (n : Nat) (s : SampleSource) :
    s.take n = ((s.delivered (s.calls n)).map Prod.fst, s.after (s.calls n)) := by
  induction n generalizing s with
  | zero => rfl
  | succ n ih =>
    rcases h : s.next with ⟨_ | ⟨x, index⟩, later⟩
    · have hnone : s.next.1 = none := by rw [h]
      rw [take_succ_of_none h, calls_succ_of_none hnone, delivered, items_succ_eq, hnone,
        after_succ_eq, h]
      rfl
    · have hsome : s.next.1 = some (x, index) := by rw [h]
      rw [take_succ_of_some h, calls_succ_of_some hsome, delivered, items_succ_eq, hsome,
        after_succ_eq, h, ih later]
      rfl

theorem nextAfter_eq (n : Nat) (s : SampleSource) :
    s.nextAfter n =
      ((s.items (s.calls (n + 1))).getLast?.join, s.after (s.calls (n + 1))) := by
  induction n generalizing s with
  | zero =>
    have hone : s.calls 1 = 1 := Nat.le_antisymm (calls_le 1 s) (calls_succ_pos s 0)
    rw [hone, nextAfter]
    rfl
  | succ n ih =>
    rcases h : s.next with ⟨_ | x, later⟩
    · have hnone : s.next.1 = none := by rw [h]
      rw [nextAfter, h, calls_succ_of_none hnone, items_succ_eq, hnone, after_succ_eq, h]
      rfl
    · have hsome : s.next.1 = some x := by rw [h]
      obtain ⟨k, hk⟩ := Nat.exists_eq_succ_of_ne_zero (Nat.ne_of_gt (calls_succ_pos later n))
      rw [nextAfter, h, calls_succ_of_some hsome, items_succ_eq, after_succ_eq, h]
      dsimp only
      rw [ih later, hk, List.getLast?_cons, items_succ_eq, List.getLast?_cons]
      rfl

/-- Draining ends with a missing sample, after at most all that are pending. -/
theorem drainOnto_eq (taken : List Sample) (s : SampleSource) :
    drainOnto taken s =
        (taken.reverse ++ s.delivered (s.calls (s.pending + 1)),
          s.after (s.calls (s.pending + 1))) ∧
      (s.items (s.calls (s.pending + 1))).getLast? = some none := by
  induction taken, s using drainOnto.induct with
  | case1 taken s after h =>
    have hnone : s.next.1 = none := by rw [h]
    rw [drainOnto_of_none h, calls_succ_of_none hnone, delivered, items_succ_eq, hnone, after_succ_eq, h]
    exact ⟨by simp, rfl⟩
  | case2 taken s x after h hlt ih =>
    have hsome : s.next.1 = some x := by rw [h]
    have hpending : s.pending = after.pending + 1 := by
      have hnext := pending_next s
      rw [h] at hnext
      exact hnext.symm
    rw [drainOnto_of_some h, calls_succ_of_some hsome, delivered, items_succ_eq, hsome, after_succ_eq, h,
      hpending, List.getLast?_cons, ih.2]
    exact ⟨by simp [ih.1, delivered], rfl⟩

end SampleSource

/-- An operation of a source. -/
inductive Request
  | next
  | nextAfter (skipped : Nat)
  | take (count : Nat)
  | drain
  deriving DecidableEq

/-- What an operation hands to its caller. -/
inductive Answer
  | sample (x : Option Sample)
  | block (xs : List Int8)
  | samples (xs : List Sample)
  deriving DecidableEq

namespace Request

/-- Carries out an operation. -/
def perform (request : Request) (s : SampleSource) : Answer × SampleSource :=
  match request with
  | next => (.sample s.next.1, s.next.2)
  | nextAfter n => (.sample (s.nextAfter n).1, (s.nextAfter n).2)
  | take n => (.block (s.take n).1, (s.take n).2)
  | drain => (.samples s.drain.1, s.drain.2)

/-- The samples that an operation goes through, where it does not go on to the first missing one. -/
def wanted : Request → Option Nat
  | next => some 1
  | nextAfter n => some (n + 1)
  | take n => some n
  | drain => none

/-- The answer of an operation that has gone through some items. Those that it skips are not
part of it. -/
def answer (request : Request) (items : List (Option Sample)) : Answer :=
  match request with
  | next | nextAfter _ => .sample items.getLast?.join
  | take _ => .block (items.reduceOption.map Prod.fst)
  | drain => .samples items.reduceOption

/-- The operation ends with the items that it has gone through: there are as many as it wants, or
the last one is missing. It has not wanted more, and no item before the last one is missing. -/
structure Served (request : Request) (items : List (Option Sample)) : Prop where
  none_not_mem_dropLast : none ∉ items.dropLast
  length_le : ∀ n, request.wanted = some n → items.length ≤ n
  ends : request.wanted = some items.length ∨ items.getLast? = some none

/-- Carries out some operations one after the other. -/
def performAll : List Request → SampleSource → List Answer × SampleSource
  | [], s => ([], s)
  | request :: later, s =>
    let first := request.perform s
    let others := performAll later first.2
    (first.1 :: others.1, others.2)

/-- The calls of `next` that an operation makes. -/
def calls : Request → SampleSource → Nat
  | next, s => s.calls 1
  | nextAfter n, s => s.calls (n + 1)
  | take n, s => s.calls n
  | drain, s => s.calls (s.pending + 1)

/-- An operation is so many calls of `next`, and its answer is read off what they hand out. -/
theorem perform_eq (request : Request) (s : SampleSource) :
    request.perform s =
      (request.answer (s.items (request.calls s)), s.after (request.calls s)) := by
  cases request with
  | next =>
    rw [calls, Nat.le_antisymm (s.calls_le 1) (s.calls_succ_pos 0)]
    rfl
  | nextAfter n =>
    rw [perform, SampleSource.nextAfter_eq]
    rfl
  | take n =>
    rw [perform, SampleSource.take_eq]
    rfl
  | drain =>
    rw [perform, SampleSource.drain, (SampleSource.drainOnto_eq [] s).1]
    rfl

theorem served (request : Request) (s : SampleSource) :
    request.Served (s.items (request.calls s)) := by
  have of_wanted {n : Nat} (h : request.wanted = some n) :
      request.Served (s.items (s.calls n)) := by
    refine ⟨s.none_not_mem_dropLast_items_calls n, ?_, ?_⟩
    · intro m hm
      rw [h, Option.some_inj] at hm
      rw [SampleSource.length_items, ← hm]
      exact s.calls_le n
    · rw [SampleSource.length_items, h, Option.some_inj]
      exact (s.calls_eq_or_getLast?_items n).imp Eq.symm id
  cases request with
  | next => exact of_wanted rfl
  | nextAfter n => exact of_wanted rfl
  | take n => exact of_wanted rfl
  | drain =>
    refine ⟨s.none_not_mem_dropLast_items_calls _, ?_, ?_⟩
    · intro n hn
      cases hn
    · exact Or.inr (SampleSource.drainOnto_eq [] s).2

/-- The items that some operations go through one after the other, for each of them. -/
def itemsOfAll : List Request → SampleSource → List (List (Option Sample))
  | [], _ => []
  | request :: later, s =>
    s.items (request.calls s) :: itemsOfAll later (s.after (request.calls s))

theorem performAll_eq (requests : List Request) (s : SampleSource) :
    performAll requests s =
      (List.zipWith answer requests (itemsOfAll requests s),
        s.after (itemsOfAll requests s).flatten.length) := by
  induction requests generalizing s with
  | nil => rfl
  | cons request later ih =>
    rw [performAll, perform_eq]
    dsimp only
    rw [ih, itemsOfAll, List.zipWith_cons_cons, List.flatten_cons, List.length_append,
      SampleSource.length_items, SampleSource.after_add]

theorem flatten_itemsOfAll (requests : List Request) (s : SampleSource) :
    (itemsOfAll requests s).flatten = s.items (itemsOfAll requests s).flatten.length := by
  induction requests generalizing s with
  | nil => rfl
  | cons request later ih =>
    rw [itemsOfAll, List.flatten_cons, List.length_append, SampleSource.length_items,
      SampleSource.items_add, ← ih]

theorem forall_served (requests : List Request) (s : SampleSource) :
    List.Forall₂ Served requests (itemsOfAll requests s) := by
  induction requests generalizing s with
  | nil => exact List.Forall₂.nil
  | cons request later ih => exact List.Forall₂.cons (request.served s) (ih _)

open SampleSource in
/-- Operations of any kind in any order go through the samples one by one. Their answers are read
off the items they go through, and those are the bytes that the reads return, as signed samples
numbered from zero on; what has not been handed out is still unread. A read is made only for an
item that is wanted when nothing is unread. The item is missing exactly when that read fails or
returns nothing, which changes neither the numbering nor what later reads bring. -/
theorem performAll_delivers_in_order (readings : List Reading) (requests : List Request) :
    let start := ofReadings readings
    let reader : Reader := ⟨readings, 0⟩
    let log := itemsOfAll requests start
    performAll requests start =
        (List.zipWith answer requests log, start.after log.flatten.length) ∧
      List.Forall₂ Served requests log ∧
      log.flatten = start.items log.flatten.length ∧
      ∀ k,
        let before := start.after k
        let after := start.after (k + 1)
        (start.delivered k).map Prod.fst ++ before.unread.map UInt8.toInt8 =
            (reader.returned before.reads).map UInt8.toInt8 ∧
          (start.delivered k).map Prod.snd = List.range before.position ∧
          before.reader = reader.after before.reads ∧
          after.reads = before.reads + (if before.unread = [] then 1 else 0) ∧
          (before.next.1 = none ↔ before.unread = [] ∧
            (before.reader.read.1 = none ∨
              ∃ bytes, before.reader.read.1 = some bytes ∧ bytes.1 = [])) ∧
          (before.next.1 = none →
            after.position = before.position ∧ after.unread = []) := by
  intro start reader log
  refine ⟨performAll_eq requests start, forall_served requests start,
    flatten_itemsOfAll requests start, fun k => ?_⟩
  intro before after
  have hmissing : before.next.1 = none ↔ before.unread = [] ∧ before.reader.portion = [] :=
    before.next_fst_eq_none_iff
  refine ⟨delivered_append_unread readings k, delivered_indices readings k,
    reader_after readings k, before.reads_next, ?_, ?_⟩
  · rw [hmissing, Reader.portion_eq_nil_iff]
  · intro hnone
    have hposition : after.position = before.position + before.next.1.toList.length :=
      before.position_next
    have hunread : after.unread = before.atHand.tail := before.unread_next
    rw [hposition, hunread, atHand_of_unread_nil (hmissing.mp hnone).1, (hmissing.mp hnone).2,
      hnone]
    exact ⟨rfl, rfl⟩

end Request

end SatNav
