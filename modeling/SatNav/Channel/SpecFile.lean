import SatNav.Json.Forms

/-!
# Channel specifications from texts and files

A specification is read from JSON and then has to be valid. A file is checked to be
UTF-8 before anything in it is looked at.
-/

namespace SatNav

/-- Why a file could not be read. -/
inductive FileError
  | notFound
  | system (description : String) (code : Nat)
  deriving DecidableEq

/-- The text of a file error, with the number that the operating system gives it. -/
def FileError.message : FileError → String
  | notFound => "No such file or directory (os error 2)"
  | system description code => s!"{description} (os error {code})"

inductive SpecError
  | unreadable (error : FileError)
  | notUtf8
  | notJson (error : Json.Error)
  | invalid (fault : Fault)
  deriving DecidableEq

def SpecError.message : SpecError → String
  | unreadable error => "unable to read configuration: " ++ error.message
  | notUtf8 => "unable to read configuration: stream did not contain valid UTF-8"
  | notJson error => "unable to parse configuration: " ++ error.message
  | invalid fault => "invalid loop design: " ++ fault.message

namespace ChannelSpec

/-- The specification that a text holds, valid or not. -/
def parse (text : String) : Except Json.Error (ChannelSpec Float) :=
  Json.parse text >>= ChannelSpec.ofJson

/-- The valid specification that a text holds. -/
def ofText (text : String) : Except SpecError (ChannelSpec Float) :=
  match parse text with
  | .error error => .error (.notJson error)
  | .ok spec =>
    match spec.check with
    | .error fault => .error (.invalid fault)
    | .ok () => .ok spec

/-- The valid specification that a file holds. -/
def ofFile (content : Except FileError ByteArray) : Except SpecError (ChannelSpec Float) :=
  match content with
  | .error error => .error (.unreadable error)
  | .ok bytes =>
    match String.fromUTF8? bytes with
    | none => .error .notUtf8
    | some text => ofText text

end ChannelSpec

end SatNav
