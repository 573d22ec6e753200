/-!
# Buffered sources of samples

A source hands out signed 8-bit samples together with their index. It reads bytes
ahead into a buffer of `readSize` bytes, and only when a sample is asked for and
every byte read so far has been handed out. A read that fails or returns nothing
ends the stream for the operation that needed it; a later operation reads again.

A read writes over the front of the buffer and leaves the rest as it was, so of the
buffer only the bytes from `cursor` up to `filled` are still to be handed out. They
are `SampleSource.unread`. What a source has still to give is measured by
`SampleSource.pending`, which each sample handed out lowers by one and nothing raises.
-/

namespace SatNav

/-- Bytes in the buffer of a source, and so the most that one read returns. -/
def readSize : Nat := 2048

/-- What a read meets: a failure, or bytes, of which those beyond `readSize` stay for the next
read. -/
inductive Reading
  | failure
  | bytes (chunk : List UInt8)
  deriving DecidableEq

/-- Something to read from. -/
structure Reader where
  /-- What the reads to come will meet. After the last of it every read returns nothing. -/
  upcoming : List Reading
  reads : Nat
  deriving DecidableEq

/-- Bytes that fit into the buffer. -/
abbrev Portion := { bytes : List UInt8 // bytes.length ≤ readSize }

/-- A reader and the samples read ahead from it. -/
structure SampleSource where
  reader : Reader
  /-- The bytes of the last read that did not fail, in front of what earlier ones have left. -/
  buffer : Vector UInt8 readSize
  /-- Place in the buffer of the next byte. -/
  cursor : Nat
  /-- Bytes at the front of the buffer that the last read has put there. -/
  filled : Nat
  /-- Index of the next sample. -/
  position : Nat
  filled_le : filled ≤ readSize
  deriving DecidableEq

/-- A sample and its index. -/
abbrev Sample := Int8 × Nat

def Reading.length : Reading → Nat
  | failure => 0
  | bytes chunk => chunk.length

/-- Bytes that some readings hold together. -/
def Reading.totalLength : List Reading → Nat
  | [] => 0
  | reading :: later => reading.length + totalLength later

/-- One read: the bytes that it returns, or none where it fails. -/
def Reader.read (r : Reader) : Option Portion × Reader :=
  match r.upcoming with
  | [] => (some ⟨[], Nat.zero_le _⟩, ⟨[], r.reads + 1⟩)
  | .failure :: later => (none, ⟨later, r.reads + 1⟩)
  | .bytes chunk :: later =>
    let left := chunk.drop readSize
    (some ⟨chunk.take readSize, List.length_take_le ..⟩,
      ⟨if left.isEmpty then later else .bytes left :: later, r.reads + 1⟩)

/-- The buffer with some bytes written over its front. -/
def Portion.writeTo (portion : Portion) (buffer : Vector UInt8 readSize) :
    Vector UInt8 readSize :=
  ⟨(portion.1 ++ buffer.toList.drop portion.1.length).toArray, by
    have := portion.2
    simp
    omega⟩

/-- The bytes that a read returns are no longer to come. -/
theorem Reader.totalLength_read (r : Reader) :
    (r.read.1.elim 0 (·.1.length)) + Reading.totalLength r.read.2.upcoming =
      Reading.totalLength r.upcoming := by
  obtain ⟨upcoming, reads⟩ := r
  match upcoming with
  | [] => rfl
  | .failure :: later => simp [Reader.read, Reading.totalLength, Reading.length]
  | .bytes chunk :: later =>
    simp only [Reader.read, Option.elim, List.length_take, Reading.totalLength, Reading.length]
    split
    · next hleft =>
      have : chunk.length ≤ readSize := by simpa using hleft
      omega
    · simp only [Reading.totalLength, Reading.length, List.length_drop]
      omega

namespace SampleSource

/-- A source of which nothing has been read. -/
def ofReadings (readings : List Reading) : SampleSource :=
  ⟨⟨readings, 0⟩, .replicate readSize 0, 0, 0, 0, Nat.zero_le _⟩

/-- A source on the content of a file. -/
def ofFile (content : List UInt8) : SampleSource := ofReadings [.bytes content]

def reads (s : SampleSource) : Nat := s.reader.reads

/-- Bytes that have been read and not handed out. -/
def unread (s : SampleSource) : List UInt8 := (s.buffer.toList.take s.filled).drop s.cursor

/-- Samples that are still to come, whatever ends may lie between them. -/
def pending (s : SampleSource) : Nat :=
  (s.filled - s.cursor) + Reading.totalLength s.reader.upcoming

/-- One read. A failed one leaves the buffer as it is. -/
def refill (s : SampleSource) : SampleSource :=
  match s.reader.read with
  | (none, reader) => { s with reader := reader }
  | (some portion, reader) =>
    { s with
      reader := reader
      buffer := portion.writeTo s.buffer
      cursor := 0
      filled := portion.1.length
      filled_le := portion.2 }

/-- The first buffered sample. -/
def pop (s : SampleSource) : Option Sample × SampleSource :=
  if h : s.cursor < s.filled then
    have : s.cursor < readSize := Nat.lt_of_lt_of_le h s.filled_le
    (some (s.buffer[s.cursor].toInt8, s.position),
      { s with cursor := s.cursor + 1, position := s.position + 1 })
  else (none, s)

/-- The next sample, after a read if none is buffered. -/
def next (s : SampleSource) : Option Sample × SampleSource :=
  if s.cursor < s.filled then s.pop else s.refill.pop

/-- The sample after `n` others. The first missing one ends the search. -/
def nextAfter : Nat → SampleSource → Option Sample × SampleSource
  | 0, s => s.next
  | n + 1, s =>
    match s.next with
    | (none, s) => (none, s)
    | (some _, s) => nextAfter n s

/-- The samples in `taken`, in reverse, and then up to `n` more. -/
def takeOnto (taken : List Int8) : Nat → SampleSource → List Int8 × SampleSource
  | 0, s => (taken.reverse, s)
  | n + 1, s =>
    match s.next with
    | (none, s) => (taken.reverse, s)
    | (some (x, _), s) => takeOnto (x :: taken) n s

/-- Up to `n` samples, fewer only where a sample is missing. None is read beyond the last. -/
def take (n : Nat) (s : SampleSource) : List Int8 × SampleSource := takeOnto [] n s

theorem takeOnto_eq (taken : List Int8) (n : Nat) (s : SampleSource) :
    takeOnto taken n s = (taken.reverse ++ (s.take n).1, (s.take n).2) := by
  induction n generalizing taken s with
  | zero => simp [take, takeOnto]
  | succ n ih =>
    rw [take, takeOnto, takeOnto]
    split
    · simp
    · next x _ after _ => rw [ih (x :: taken), ih [x]]; simp

@[simp] theorem take_zero (s : SampleSource) : s.take 0 = ([], s) := rfl

theorem take_succ_of_none {s after : SampleSource} (h : s.next = (none, after)) (n : Nat) :
    s.take (n + 1) = ([], after) := by
  rw [take, takeOnto, h]
  rfl

theorem take_succ_of_some {s after : SampleSource} {x : Int8} {index : Nat}
    (h : s.next = (some (x, index), after)) (n : Nat) :
    s.take (n + 1) = (x :: (after.take n).1, (after.take n).2) := by
  rw [take, takeOnto, h]
  exact takeOnto_eq [x] n after

@[simp] theorem pending_ofReadings (readings : List Reading) :
    (ofReadings readings).pending = Reading.totalLength readings := by
  simp [ofReadings, pending]

@[simp] theorem pending_ofFile (content : List UInt8) :
    (ofFile content).pending = content.length := by
  simp [ofFile, Reading.totalLength, Reading.length]

theorem pending_refill {s : SampleSource} (h : ¬ s.cursor < s.filled) :
    s.refill.pending = s.pending := by
  have hread := s.reader.totalLength_read
  unfold refill
  split
  · next reader hr =>
    simp only [hr, Option.elim] at hread
    simp only [pending]
    omega
  · next portion reader hr =>
    simp only [hr, Option.elim] at hread
    simp only [pending]
    omega

theorem pending_pop (s : SampleSource) :
    s.pop.2.pending + s.pop.1.toList.length = s.pending := by
  unfold pop
  split
  · simp [pending]
    omega
  · simp

/-- A sample handed out is no longer pending, and a missing one changes nothing. -/
theorem pending_next (s : SampleSource) :
    s.next.2.pending + s.next.1.toList.length = s.pending := by
  unfold next
  split
  · exact pending_pop s
  · next h => rw [pending_pop, pending_refill h]

/-- The samples of a block are no longer pending. -/
theorem pending_take (n : Nat) (s : SampleSource) :
    (s.take n).2.pending + (s.take n).1.length = s.pending := by
  induction n generalizing s with
  | zero => simp
  | succ n ih =>
    have hnext := pending_next s
    rcases h : s.next with ⟨sample, after⟩
    rw [h] at hnext
    match sample with
    | none => simpa [take_succ_of_none h] using hnext
    | some (x, index) =>
      have hafter := ih after
      simp only [take_succ_of_some h, List.length_cons]
      simp only [Option.toList_some, List.length_singleton] at hnext
      omega

/-- The samples in `taken`, in reverse, and then all up to the first missing one. -/
def drainOnto (taken : List Sample) (s : SampleSource) : List Sample × SampleSource :=
  match h : s.next with
  | (none, after) => (taken.reverse, after)
  | (some x, after) =>
    have : after.pending < s.pending := by
      have := pending_next s
      simp [h] at this
      omega
    drainOnto (x :: taken) after
termination_by s.pending

theorem drainOnto_of_none {s after : SampleSource} (h : s.next = (none, after))
    (taken : List Sample) : drainOnto taken s = (taken.reverse, after) := by
  unfold drainOnto
  split
  · next later hnext =>
    rw [h] at hnext
    cases hnext
    rfl
  · next x later hnext =>
    rw [h] at hnext
    cases hnext

theorem drainOnto_of_some {s after : SampleSource} {x : Sample} (h : s.next = (some x, after))
    (taken : List Sample) : drainOnto taken s = drainOnto (x :: taken) after := by
  rw [drainOnto]
  split
  · next later hnext =>
    rw [h] at hnext
    cases hnext
  · next y later hnext =>
    rw [h] at hnext
    cases hnext
    rfl

/-- The samples up to the first missing one. -/
def drain (s : SampleSource) : List Sample × SampleSource := drainOnto [] s

end SampleSource

end SatNav
