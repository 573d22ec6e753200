import SatNav.Channel.SpecFile
import SatNav.CommandLine.Options
import SatNav.Json.Document

/-!
# Commands

A command is a function of its options and of the files that they name. What it has
to say is a list of messages; what it has to show is a document.
-/

namespace SatNav.CommandLine

inductive Colour
  | red
  | green
  | yellow
  deriving DecidableEq

/-- The number of a colour in a terminal's escape sequences. -/
def Colour.code : Colour → String
  | red => "31"
  | green => "32"
  | yellow => "33"

/-- A line for the person in front of the terminal. -/
inductive Message
  | usage (text : String)
  | coloured (colour : Colour) (text : String)
  /-- An entry of the log that reports an error. -/
  | error (text : String)
  deriving DecidableEq

def Message.line : Message → String
  | usage text => text
  | coloured colour text => "\x1b[" ++ colour.code ++ "m" ++ text ++ "\x1b[0m"
  | error text => "ERROR " ++ text

/-- What a command comes to. -/
structure Outcome where
  exitCode : UInt32
  output : Option Json.Document
  messages : List Message

/-- A command that stops with a message. -/
def Outcome.stopped (message : Message) : Outcome := ⟨1, none, [message]⟩

/-- Contents of files, by name. -/
abbrev Files := String → Except FileError ByteArray

structure Command where
  name : String
  usage : String
  options : List OptionSpec
  /-- Names of the files that options name. -/
  files : Options → List String
  run : Options → Files → Outcome

def Command.execute (command : Command) (words : List String) (files : Files) : Outcome :=
  match parse? command.options words with
  | none => .stopped (.usage command.usage)
  | some options => command.run options files

/-- The files that a command reads when it is given these words. -/
def Command.fileNames (command : Command) (words : List String) : List String :=
  match parse? command.options words with
  | none => []
  | some options => command.files options

end SatNav.CommandLine
