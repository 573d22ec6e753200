import SatNav.Binary64.Shortest

/-!
# Writing JSON documents

A document is what the program prints: counts, doubles by their shortest text, and
containers with one item a line, indented by two blanks a level. A double that is
not finite has no JSON number and is written as `null`.
-/

namespace SatNav.Json

inductive Document
  | count (n : Nat)
  | real (x : Float)
  | array (items : List Document)
  | object (members : List (String × Document))

namespace Document

/-- The beginning of a line at a level of nesting. -/
def indent (level : Nat) : String := "\n" ++ "".pushn ' ' (2 * level)

/-- Items between brackets, each on a line of its own. -/
def enclosed (opening closing : String) (level : Nat) (items : List String) : String :=
  if items.isEmpty then opening ++ closing
  else
    let lines := items.map (indent (level + 1) ++ ·)
    opening ++ String.intercalate "," lines ++ indent level ++ closing

/-- A text between quotes, for texts that need no escapes. -/
def quoted (text : String) : String := "\"" ++ text ++ "\""

mutual

/-- The text of a document whose first line stands at a level of nesting. -/
def textAt (level : Nat) : Document → String
  | count n => toString n
  | real x => (Binary64.shortestText? x).getD "null"
  | array items => enclosed "[" "]" level (itemTexts (level + 1) items)
  | object members => enclosed "\x7b" "\x7d" level (memberTexts (level + 1) members)

def itemTexts (level : Nat) : List Document → List String
  | [] => []
  | item :: rest => textAt level item :: itemTexts level rest

def memberTexts (level : Nat) : List (String × Document) → List String
  | [] => []
  | (name, v) :: rest => (quoted name ++ ": " ++ textAt level v) :: memberTexts level rest

end

def text (d : Document) : String := d.textAt 0

end Document

end SatNav.Json
