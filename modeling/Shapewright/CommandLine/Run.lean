import Shapewright.Code.Printer
import Shapewright.CommandLine.Arguments
import Shapewright.CommandLine.Inputs
import Shapewright.Design.Check
import Shapewright.Design.Code
import Shapewright.Design.Summary
import Shapewright.Filter.Evaluation
import Shapewright.Json.Draft.Parser
import Shapewright.Json.Pointer
import Shapewright.Json.Printer
import Shapewright.Text.Blank
import Shapewright.Text.Lines

/-!
# Running commands

A command resolves its inputs, reads the documents in them, loads a design from every document and
writes what it makes of the designs to one place. A fault ends the command where it is met, with one
exception: conversions that have no code are reported after the code of the others is written.

## The order of things

All designs are loaded before any code is made, and all code is made before anything is written. So
a design that is rejected leaves no output behind, whichever file it stands in. Within a file, all
documents are parsed before the first one is loaded.

Documents are preprocessed before they are loaded, first by the pointer and then by the filter. A
filter may make any number of designs out of one document, and none is a result as well.
-/

namespace Shapewright
namespace CommandLine

/-- Why a command failed. -/
inductive RunFault where
  | input (why : InputFault)
  | unreadable (path : String) (why : FileFault)
  /-- The line is given where every line is a document. -/
  | notJson (path : String) (line : Option Nat) (why : Json.SyntaxFault)
  | noSelection (path pointer : String)
  | filter (path : String)
  | design (path : String) (why : DesignFault)
  | code (path : String) (why : DesignFault)
  | uncreatable (directory : String) (why : FileFault)
  | unwritable (path : String) (why : FileFault)
  /-- Code was written, but not for these requests. -/
  | incomplete (failures : List Design.FailedRequest)

/-- What is said of a request without code. -/
def failureLine (f : Design.FailedRequest) : String := f.request ++ ": " ++ f.fault.message

/-- The messages of a fault: what could not be done, and then why. The first names the file, and the
    last is that of the innermost cause. -/
def RunFault.messages : RunFault → List String
  | .input why => ["failed to resolve input file paths", why.message]
  | .unreadable path why => ["failed to read " ++ path ++ ": " ++ why.message, why.message]
  | .notJson path none why => ["failed to parse JSON (" ++ path ++ ")", why.message]
  | .notJson path (some line) why =>
    ["failed to parse JSON (" ++ path ++ ", line " ++ toString line ++ ")", why.message]
  | .noSelection path pointer =>
    ["failed to preprocess " ++ path, "JSON pointer `" ++ pointer ++ "` selects nothing"]
  | .filter path => ["failed to preprocess " ++ path, "jq preprocessing failed"]
  | .design path why => ["invalid design in " ++ path, why.message]
  | .code path why => ["failed to compile the design in " ++ path, why.message]
  | .uncreatable directory why => ["failed to create " ++ directory, why.message]
  | .unwritable path why => ["failed to write " ++ path, why.message]
  | .incomplete failures =>
    [toString failures.length ++ " request(s) produced no code:\n  "
      ++ "\n  ".intercalate (failures.map failureLine)]

/-! ## Documents -/

/-- The value of each line that is not blank; the first line has the number `number`. -/
def lineDocuments (path : String) (number : Nat) : List String → Except RunFault (List Json.Value)
  | [] => .ok []
  | line :: rest => do
    if line.toList.all Text.isBlank then lineDocuments path (number + 1) rest
    else
      match Json.parse line with
      | .error why => .error (.notJson path (some number) why)
      | .ok v => return v :: (← lineDocuments path (number + 1) rest)

/-- The documents in a text. -/
def documents (s : Settings) (path text : String) : Except RunFault (List Json.Value) :=
  if s.ndjson then lineDocuments path 1 (Text.lines text)
  else
    match Json.parse text with
    | .error why => .error (.notJson path none why)
    | .ok v => .ok [v]

/-- The part of a document that the pointer selects. -/
def selected (s : Settings) (path : String) (v : Json.Value) : Except RunFault Json.Value :=
  match s.pointer with
  | none => .ok v
  | some pointer =>
    match Json.Pointer.select pointer v with
    | some w => .ok w
    | none => .error (.noSelection path pointer)

/-- What the filter makes of a document. -/
def filtered (s : Settings) (path : String) (v : Json.Value) : Except RunFault (List Json.Value) :=
  match s.filter with
  | none => .ok [v]
  | some filter =>
    match Filter.run? filter v with
    | some vs => .ok vs
    | none => .error (.filter path)

/-- A design and the file it comes from. -/
structure Loaded where
  path : String
  design : Design

/-- The designs of a document. -/
def documentDesigns (s : Settings) (path : String) (v : Json.Value) :
    Except RunFault (List Loaded) := do
  let vs ← filtered s path (← selected s path v)
  vs.mapM fun v =>
    match Design.ofValue v with
    | .ok design => .ok ⟨path, design⟩
    | .error why => .error (.design path why)

/-- The designs in the text of a file. All documents are read before any is loaded. -/
def designs (s : Settings) (path text : String) : Except RunFault (List Loaded) := do
  return (← (← documents s path text).mapM (documentDesigns s path)).flatten

/-! ## Output -/

/-- What a command makes of a design. -/
structure Chunk where
  text : String
  failures : List Design.FailedRequest := []

/-- What a command makes of one design: the code of its conversions, of its views or of its
    validators, or a summary of the design. Only conversions can fail one by one. -/
def Command.chunk (command : Command) (d : Design) : Except DesignFault Chunk := do
  match command with
  | .transform =>
    let code ← d.compileConversions
    let funcs := code.functions ++ code.helpers.map (·.func)
    return { text := Fragment.print { funcs }, failures := code.failures }
  | .views =>
    let packages ← d.compileProjections
    return { text := "\n".intercalate (packages.map (·.fragment.print)) }
  | .validate =>
    return { text := Fragment.print { funcs := ← d.compileValidations } }
  | .inspect =>
    return { text := (← d.summary.mapError .fault).spread 0 ++ "\n" }

/-- What a command makes of a design, under the name of its file. -/
def Command.ofLoaded (command : Command) (l : Loaded) : Except RunFault Chunk :=
  (command.chunk l.design).mapError (.code l.path)

/-- The text of all chunks, with an empty line between those that have any. Chunks without text
    leave no trace, so the output does not begin or end with an empty line of theirs. -/
def joined (chunks : List Chunk) : String :=
  "\n".intercalate ((chunks.map (·.text)).filter fun s => !s.isEmpty)

/-! ## Running -/

variable {m : Type → Type} [Monad m]

/-- The designs of files, file by file. -/
def loadAll (host : Host m) (s : Settings) : List String → m (Except RunFault (List Loaded))
  | [] => return .ok []
  | path :: rest => do
    match ← host.read path with
    | .error why => return .error (.unreadable path why)
    | .ok text =>
      match designs s path text with
      | .error why => return .error why
      | .ok found => return (← loadAll host s rest).map (found ++ ·)

/-- Writes the output, to a file whose directory is made if it is missing. Without a file it is
    printed, and that cannot fail. -/
def writeOutput (host : Host m) (out : Option String) (text : String) :
    m (Except RunFault Unit) := do
  match out with
  | none => return .ok (← host.print text)
  | some path =>
    let parent := Path.parent? path
    let made ← match parent with
      | none => pure (.ok ())
      | some directory => host.makeDirectories directory
    match made with
    | .error why => return .error (.uncreatable (parent.getD "") why)
    | .ok () =>
      match ← host.write path text with
      | .error why => return .error (.unwritable path why)
      | .ok () => return .ok ()

/-- Carries a command out. The failures of single conversions are reported last, when the code of
    the others has been written. -/
def run (host : Host m) (i : Invocation) : m (Except RunFault Unit) := do
  if i.settings.noOp then return .ok ()
  match ← Inputs.resolve host i.settings.inputs with
  | .error why => return .error (.input why)
  | .ok paths =>
    match ← loadAll host i.settings paths with
    | .error why => return .error why
    | .ok loaded =>
      match loaded.mapM i.command.ofLoaded with
      | .error why => return .error why
      | .ok chunks =>
        match ← writeOutput host i.settings.out (joined chunks) with
        | .error why => return .error why
        | .ok () =>
          let failures := chunks.flatMap (·.failures)
          return if failures.isEmpty then .ok () else .error (.incomplete failures)

end CommandLine
end Shapewright
