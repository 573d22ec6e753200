import SatNav.Fault
import SatNav.Signal

/-!
# Code replicas

A replica is one code period between its neighbours: the last chip, the period, the
first chip. Index `i` from 1 on holds chip `i - 1`, so a code phase above `i - 1` and
up to `i` selects chip `i - 1`, and half a chip before the first or after the last one
still lands on a chip, that of the neighbouring period.
-/

namespace SatNav

/-- Chips by index. -/
abbrev Replica := Array Int8

namespace Replica

/-- Entries of the replica of a whole code. -/
def standardSize : Nat := codeChips + 2

/-- The replica of the chips of one period. No chips have no neighbours. -/
def ofPeriod (chips : List Int8) : Replica :=
  match chips.head?, chips.getLast? with
  | some first, some last => (last :: chips ++ [first]).toArray
  | _, _ => #[]

/-- The replica in a file, which has one signed byte a chip. -/
def ofFile (content : List UInt8) : Except Fault Replica :=
  if content.length ≠ codeChips then .error (.badParameter .replicaLength)
  else .ok (ofPeriod (content.map UInt8.toInt8))

@[simp] theorem ofPeriod_nil : ofPeriod [] = #[] := rfl

theorem ofPeriod_cons (first : Int8) (chips : List Int8) :
    ofPeriod (first :: chips) =
      ((first :: chips).getLast (List.cons_ne_nil first chips) ::
        (first :: chips) ++ [first]).toArray := by
  simp [ofPeriod, List.getLast?_eq_some_getLast]

theorem size_ofPeriod {chips : List Int8} (h : chips ≠ []) :
    (ofPeriod chips).size = chips.length + 2 := by
  obtain ⟨first, rest, rfl⟩ := List.exists_cons_of_ne_nil h
  simp [ofPeriod_cons]

theorem size_ofPeriod_of_length {chips : List Int8} (h : chips.length = codeChips) :
    (ofPeriod chips).size = standardSize := by
  have hne : chips ≠ [] := by
    rintro rfl
    cases h
  rw [size_ofPeriod hne, h, standardSize]

variable {R : Type} [Scalar R]

/-- The index that a code phase selects. -/
@[inline] def indexAt (phase : R) : Nat := Scalar.toCount (Scalar.ceil phase)

/-- The chip that a code phase selects, as a number. -/
@[inline] def chipAt (replica : Replica) (phase : R) : R :=
  Scalar.ofInt (replica.getD (indexAt phase) 0).toInt

/-- Accepts a code phase that selects an entry of the replica. -/
def checkPhase (replica : Replica) (phase : R) : Except Fault Unit :=
  let index := Scalar.ceil phase
  if index < 0.0 ∨ Scalar.ofCount replica.size ≤ index then
    .error (.outsideReplica (Scalar.toIndex index) replica.size)
  else .ok ()

end Replica

end SatNav
