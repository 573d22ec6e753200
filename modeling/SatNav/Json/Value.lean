import SatNav.Json.Number

/-!
# JSON values

A text is kept as what its escapes come to, or as nothing when a surrogate among
them has no partner, since such a text may stand where nobody reads it.
-/

namespace SatNav.Json

/-- A text, or nothing where a surrogate has no partner. -/
abbrev Text := Option String

/-- A JSON value. The members of an object keep their order, and names may repeat. -/
inductive Value
  | null
  | bool (b : Bool)
  | number (n : Number)
  | text (t : Text)
  | array (items : List Value)
  | object (members : List (Text × Value))

end SatNav.Json
