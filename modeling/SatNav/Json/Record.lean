import SatNav.Json.Reader

/-!
# Records in JSON

A record is written as an object with named members, or as an array of its fields in
their order. Members with unknown names are passed over, and a known name may appear
once. What a field is missing for lack of is up to the record: some have a standard
value for each field, others need all of them.
-/

namespace SatNav.Json

/-- Why a text holds no record of a kind. -/
inductive Error
  | malformed
  | wrongKind (expected : String)
  | missingField (name : String)
  | repeatedField (name : String)
  | wrongLength (expected : Nat)
  | unpairedSurrogate
  | outOfRange
  deriving DecidableEq

def Error.message : Error → String
  | malformed => "not a JSON value"
  | wrongKind expected => s!"expected {expected}"
  | missingField name => s!"missing field {name}"
  | repeatedField name => s!"repeated field {name}"
  | wrongLength expected => s!"expected {expected} items"
  | unpairedSurrogate => "unpaired surrogate in a name"
  | outOfRange => "number out of range"

/-- The value that a text holds. -/
def parse (text : String) : Except Error Value :=
  match parse? text with
  | some v => .ok v
  | none => .error .malformed

namespace Value

/-- A number as a double, which has to be finite. -/
def toFloat : Value → Except Error Float
  | .number n =>
    match n.toFloat? with
    | some x => .ok x
    | none => .error .outOfRange
  | _ => .error (.wrongKind "a number")

/-- A whole number written as a count, up to `bound`. -/
def toCount (bound : Nat) : Value → Except Error Nat
  | .number n =>
    match n.count? with
    | some k => if k ≤ bound then .ok k else .error .outOfRange
    | none => .error (.wrongKind "a count")
  | _ => .error (.wrongKind "a count")

def toBool : Value → Except Error Bool
  | .bool b => .ok b
  | _ => .error (.wrongKind "a truth value")

end Value

/-- The fields of a record that are there, by name. -/
abbrev Record := List (String × Value)

namespace Record

/-- The values of the members with a name. -/
def valuesOf (name : String) (members : List (Text × Value)) : List Value :=
  members.filterMap fun m => if m.1 = some name then some m.2 else none

/-- The members of an object that have known names, each at most once. -/
def ofMembers (names : List String) (members : List (Text × Value)) : Except Error Record :=
  if members.any (·.1.isNone) then .error .unpairedSurrogate
  else
    names.foldrM (fun name record =>
      match valuesOf name members with
      | [] => .ok record
      | [v] => .ok ((name, v) :: record)
      | _ => .error (.repeatedField name)) []

/-- The fields of a record whose fields have these names, in this order. -/
def ofValue (names : List String) : Value → Except Error Record
  | .object members => ofMembers names members
  | .array items =>
    if items.length ≤ names.length then .ok (names.zip items)
    else .error (.wrongLength names.length)
  | _ => .error (.wrongKind "a record")

/-- A field that has to be there. -/
def get (record : Record) (name : String) : Except Error Value :=
  match record.lookup name with
  | some v => .ok v
  | none => .error (.missingField name)

def float (record : Record) (name : String) : Except Error Float :=
  record.get name >>= Value.toFloat

def count (record : Record) (bound : Nat) (name : String) : Except Error Nat :=
  record.get name >>= Value.toCount bound

/-- A field, read with `read`, or the standard value where it is not there. -/
def getOr {α : Type} (record : Record) (name : String) (standard : α)
    (read : Value → Except Error α) : Except Error α :=
  match record.lookup name with
  | some v => read v
  | none => .ok standard

end Record

end SatNav.Json
