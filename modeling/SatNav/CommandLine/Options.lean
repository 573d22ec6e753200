/-!
# Options of a command

An option has a long name and may have a letter; it is followed by its value, either
behind an equals sign or as the next word. Each may be given once. A value does not
begin with an equals sign: those in front of it are passed over. A word that stands
alone as a value does not begin with a hyphen, so a negative number is written behind
an equals sign.
-/

namespace SatNav.CommandLine

structure OptionSpec where
  name : String
  letter : Option Char
  required : Bool
  /-- The value of an option that is not given. -/
  standard : Option String

/-- The values of options, by name. -/
abbrev Options := List (String × String)

/-- What stands behind the name of an option in its word, as a value if there is anything. -/
def joinedValue? : List Char → Option String
  | [] => none
  | rest => some (String.ofList (rest.dropWhile (· = '=')))

/-- The option that a word names, and the value in the same word if there is one. -/
def matchWord? (specs : List OptionSpec) (word : String) :
    Option (OptionSpec × Option String) :=
  match word.toList with
  | '-' :: '-' :: rest =>
    (specs.find? (·.name = String.ofList (rest.takeWhile (· ≠ '=')))).map
      (·, joinedValue? (rest.dropWhile (· ≠ '=')))
  | '-' :: letter :: rest => (specs.find? (·.letter = some letter)).map (·, joinedValue? rest)
  | _ => none

/-- Whether a word can be the value of the option before it. -/
def isPlainWord (word : String) : Bool := word = "-" ∨ word.toList.head? ≠ some '-'

/-- The options that words give, or nothing where a word fits none. -/
def readWords? (specs : List OptionSpec) : List String → Option Options
  | [] => some []
  | word :: words =>
    match matchWord? specs word, words with
    | some (spec, some value), words =>
      (readWords? specs words).map ((spec.name, value) :: ·)
    | some (spec, none), value :: words =>
      if isPlainWord value then (readWords? specs words).map ((spec.name, value) :: ·) else none
    | _, _ => none

/-- The options that words give together with the standard values, or nothing where a word fits
none, an option is given twice or a required one is missing. -/
def parse? (specs : List OptionSpec) (words : List String) : Option Options :=
  match readWords? specs words with
  | none => none
  | some options =>
    let isGiven (spec : OptionSpec) := options.any (·.1 = spec.name)
    if specs.any (fun spec => 1 < options.countP (·.1 = spec.name)) then none
    else if specs.any (fun spec => spec.required && !isGiven spec) then none
    else
      some (options ++ specs.filterMap fun spec =>
        if isGiven spec then none else spec.standard.map (spec.name, ·))

end SatNav.CommandLine
