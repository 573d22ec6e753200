import SatNav.CommandLine.Correlate
import SatNav.CommandLine.Design

/-!
# The program

The first word names a command and the others are its options. The document goes to
standard output and the messages to standard error.
-/

namespace SatNav

open CommandLine

/-- What the operating system said about a file. -/
def FileError.ofIOError : IO.Error → FileError
  | .noFileOrDirectory .. => .notFound
  | .permissionDenied _ code details | .inappropriateType _ code details
  | .invalidArgument _ code details | .resourceExhausted _ code details =>
    .system details code.toNat
  | .otherError code details => .system details code.toNat
  | error => .system (toString error) 0

/-- The content of a file. -/
def readFile (name : String) : IO (Except FileError ByteArray) := do
  try
    return .ok (← IO.FS.readBinFile name)
  catch error =>
    return .error (.ofIOError error)

/-- The commands of the program. -/
def commands : List Command := [Correlate.command, Design.command]

/-- Reads the files that a command needs and shows what it comes to. -/
def perform (command : Command) (words : List String) : IO UInt32 := do
  let contents ← (command.fileNames words).mapM fun name => do return (name, ← readFile name)
  let outcome := command.execute words fun name =>
    (contents.lookup name).getD (.error .notFound)
  for message in outcome.messages do
    IO.eprintln message.line
  if let some document := outcome.output then
    IO.println document.text
  return outcome.exitCode

end SatNav

/-- Runs the command that the first word names. -/
def main (words : List String) : IO UInt32 := do
  match words with
  | name :: rest =>
    match SatNav.commands.find? (·.name = name) with
    | some command => SatNav.perform command rest
    | none => IO.eprintln "usage: correlate OPTIONS | design OPTIONS"; return 1
  | [] => IO.eprintln "usage: correlate OPTIONS | design OPTIONS"; return 1
