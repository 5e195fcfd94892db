import Shapewright.CommandLine.Run

/-!
# The program

Runs a command line on the file system. Faults go to the standard error, one message on a line.

This is the only module that does anything to the outside. It gives a host for the file system and
turns the outcome of a command into an exit code; what is read, built and written is decided by the
commands, which know hosts in general only. The errors of the system are sorted into the few kinds
of fault that commands tell apart.
-/

namespace Shapewright

open CommandLine

/-- The fault behind an error of the file system. -/
def faultOfError : IO.Error → FileFault
  | .noFileOrDirectory .. => .notFound
  | .alreadyExists .. => .exists
  | .inappropriateType _ 20 _ => .notDirectory
  | .inappropriateType .. => .isDirectory
  | e => .other (toString e)

/-- The outcome of an action on the file system. -/
def attempt {α : Type} (action : IO α) : IO (Except FileFault α) := do
  match ← action.toBaseIO with
  | .ok a => return .ok a
  | .error e => return .error (faultOfError e)

/-- The text of a file. -/
def readText (path : String) : IO (Except FileFault String) := do
  match ← attempt (IO.FS.readBinFile path) with
  | .error why => return .error why
  | .ok bytes =>
    match String.fromUTF8? bytes with
    | some text => return .ok text
    | none => return .error .notText

/-- The file system as a host. Faults of the system are turned into those that the program has
    messages for. -/
def fileSystem : Host IO where
  entry? path := do
    let p := System.mkFilePath [path]
    if ← p.isDir then return some .directory
    else if ← p.pathExists then return some .file
    else return none
  list path := do return (← (System.mkFilePath [path]).readDir).toList.map (·.fileName)
  read := readText
  makeDirectory path := attempt (IO.FS.createDir path)
  write path text := attempt (IO.FS.writeFile path text)
  print text := IO.print text

/-- What is said about the use of the program. -/
def usage : String :=
  "Usage: shapewright [--verbose] <transform|views|validate|inspect> --input <INPUT>...\n" ++
  "         [--ndjson] [--json-pointer <POINTER>] [--jq-expr <FILTER>] [--out <FILE>] [--no-op]"

/-- What is said of a command line that is not carried out. Only the first two are no mistakes. -/
def usageMessage : UsageFault → String
  | .help => usage
  | .version => "shapewright 0.1.0"
  | .unknownArgument => "unexpected argument\n" ++ usage
  | .unknownCommand => "unrecognized subcommand\n" ++ usage
  | .missingCommand => usage
  | .unusableValue => "a value is required\n" ++ usage
  | .repeated => "an argument cannot be used multiple times\n" ++ usage
  | .unwantedValue => "a flag takes no value\n" ++ usage
  | .missingInput => "--input is required\n" ++ usage

/-- Carries a command line out and tells how it ended. It is zero where nothing went wrong, two for
    a command line that cannot be read, and one for all that goes wrong later. -/
def program (args : List String) : IO UInt32 := do
  match Arguments.read args with
  | .error why =>
    if why = .help ∨ why = .version then
      IO.println (usageMessage why)
      return 0
    else
      IO.eprintln (usageMessage why)
      return 2
  | .ok invocation =>
    match ← run fileSystem invocation with
    | .ok () => return 0
    | .error why =>
      for message in why.messages do IO.eprintln message
      return 1

end Shapewright

/-- The program, as it is started. -/
def main (args : List String) : IO UInt32 := Shapewright.program args
