import SatNav.Json.Token

/-!
# Reading JSON values

The tokens of a text are fed one by one to a `Reader`, which holds the containers
that are open around the place it has come to. Containers may nest to any depth, and
after the value there may be nothing but blanks.
-/

namespace SatNav.Json

/-- An open container that waits for a value: what it has so far, in reverse, and the name that the
value will have. -/
inductive Open
  | array (items : List Value)
  | object (members : List (Text × Value)) (name : Text)

/-- Where in a JSON text a reader is, and the containers around it, the innermost first. -/
inductive Reader
  | nextValue (around : List Open)
  /-- An array has just begun. -/
  | firstItem (around : List Open)
  | afterItem (items : List Value) (around : List Open)
  /-- An object has just begun. -/
  | firstName (around : List Open)
  | nextName (members : List (Text × Value)) (around : List Open)
  | afterName (members : List (Text × Value)) (name : Text) (around : List Open)
  | afterMember (members : List (Text × Value)) (around : List Open)
  | done (v : Value)

namespace Reader

/-- A value has ended inside of the containers `around`. -/
def resume (v : Value) : List Open → Reader
  | [] => .done v
  | .array items :: around => .afterItem (v :: items) around
  | .object members name :: around => .afterMember ((name, v) :: members) around

/-- A token begins a value inside of the containers `around`. -/
def begin? (around : List Open) : Token → Option Reader
  | .scalar v => some (resume v around)
  | .text t => some (resume (.text t) around)
  | .beginArray => some (.firstItem around)
  | .beginObject => some (.firstName around)
  | _ => none

def feed? : Reader → Token → Option Reader
  | nextValue around, t => begin? around t
  | firstItem around, .endArray => some (resume (.array []) around)
  | firstItem around, t => begin? (.array [] :: around) t
  | afterItem items around, .comma => some (.nextValue (.array items :: around))
  | afterItem items around, .endArray => some (resume (.array items.reverse) around)
  | firstName around, .endObject => some (resume (.object []) around)
  | firstName around, .text t => some (.afterName [] t around)
  | nextName members around, .text t => some (.afterName members t around)
  | afterName members t around, .colon => some (.nextValue (.object members t :: around))
  | afterMember members around, .comma => some (.nextName members around)
  | afterMember members around, .endObject => some (resume (.object members.reverse) around)
  | _, _ => none

def result? : Reader → Option Value
  | done v => some v
  | _ => none

/-- Feeds the tokens of a text to a reader. -/
def run? (reader : Reader) (cs : List Char) : Option Value :=
  match cs with
  | [] => reader.result?
  | c :: rest =>
    if isBlank c then run? reader rest
    else
      match h : next? (c :: rest) with
      | none => none
      | some (t, after) =>
        match reader.feed? t with
        | none => none
        | some reader =>
          have : after.length ≤ rest.length := Nat.le_of_lt_succ (next?_length_lt h)
          run? reader after
termination_by cs.length

end Reader

/-- The value that a text holds, if it is well formed. -/
def parse? (text : String) : Option Value := Reader.run? (.nextValue []) text.toList

end SatNav.Json
