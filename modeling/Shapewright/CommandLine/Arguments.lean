/-!
# Arguments

A command line is a command and its settings. A parameter takes its values from the arguments after
it, and what it was given is looked at when the next flag or parameter comes. An argument that is
not known at all is found before that.

## Which fault is reported

Several things can be wrong with a command line, and the fault that is reported is the one that is
met first when the arguments are taken in order. Since a parameter is judged late, a value that
cannot be used is met only when something follows that has dashes, or at the end. `Progress` keeps
the parameter that waits for this reason.

Before the command there are flags only, so nothing waits there, and help and version are answered
at once. They are faults too: like an error, they end the reading of the command line.
-/

namespace Shapewright
namespace CommandLine

/-- What a command makes of designs. -/
inductive Command where
  /-- The conversion functions and their helpers. -/
  | transform
  /-- The types and functions of views. -/
  | views
  | validate
  /-- A summary of the designs. -/
  | inspect
deriving Repr, DecidableEq

/-- The command of a name. -/
def Command.ofName? : String → Option Command
  | "transform" => some .transform
  | "views" => some .views
  | "validate" => some .validate
  | "inspect" => some .inspect
  | _ => none

structure Settings where
  /-- Paths or patterns of paths. -/
  inputs : List String := []
  /-- Every line of an input is a document of its own. -/
  ndjson : Bool := false
  /-- Selects a part of each document. -/
  pointer : Option String := none
  /-- Makes any number of documents from each document. -/
  filter : Option String := none
  /-- The file that is written; the standard output if there is none. -/
  out : Option String := none
  /-- Nothing is read or written. -/
  noOp : Bool := false
  verbose : Bool := false
deriving Repr, DecidableEq

structure Invocation where
  command : Command
  settings : Settings
deriving Repr, DecidableEq

/-- Why a command line is not carried out. -/
inductive UsageFault where
  | help
  | version
  | unknownArgument
  | unknownCommand
  | missingCommand
  /-- A parameter has no value, or one that it cannot have. -/
  | unusableValue
  /-- A flag or parameter that is given once at most was repeated. -/
  | repeated
  /-- A flag has a value. -/
  | unwantedValue
  | missingInput
deriving Repr, DecidableEq

namespace Arguments

/-- A flag takes no value. -/
inductive Flag where
  | ndjson
  | noOp
  | verbose
  | help
  | version
deriving Repr, DecidableEq

/-- A parameter takes values. -/
inductive Parameter where
  | input
  | pointer
  | filter
  | out
deriving Repr, DecidableEq

/-- What an argument with dashes names. -/
inductive Named where
  | flag (f : Flag)
  | parameter (p : Parameter)
deriving Repr, DecidableEq

/-- A flag of every command. -/
def Flag.ofName? : String → Option Flag
  | "ndjson" => some .ndjson
  | "no-op" => some .noOp
  | "verbose" => some .verbose
  | "help" => some .help
  | _ => none

/-- The flag or parameter of a long name. -/
def longName? (name : String) : Option Named :=
  match name with
  | "input" => some (.parameter .input)
  | "json-pointer" => some (.parameter .pointer)
  | "jq-expr" => some (.parameter .filter)
  | "out" => some (.parameter .out)
  | _ => (Flag.ofName? name).map .flag

/-- The flag or parameter of a letter. -/
def letter? : Char → Option Named
  | 'v' => some (.flag .verbose)
  | 'h' => some (.flag .help)
  | 'i' => some (.parameter .input)
  | 'o' => some (.parameter .out)
  | _ => none

/-- The flag of a long name before the command. -/
def rootLongName? : String → Option Flag
  | "verbose" => some .verbose
  | "help" => some .help
  | "version" => some .version
  | _ => none

/-- The flag of a letter before the command. -/
def rootLetter? : Char → Option Flag
  | 'v' => some .verbose
  | 'h' => some .help
  | 'V' => some .version
  | _ => none

/-- A long argument, after its dashes: its name, and its value after an equals sign. -/
def splitValue (cs : List Char) : String × Option String :=
  let name := String.ofList (cs.takeWhile (· != '='))
  match cs.dropWhile (· != '=') with
  | [] => (name, none)
  | _ :: value => (name, some (String.ofList value))

/-- A parameter that waits for more values. -/
structure Pending where
  parameter : Parameter
  values : List String
deriving Repr, DecidableEq

/-- What is known of a command in the course of its arguments. -/
structure Progress where
  settings : Settings := {}
  pending : Option Pending := none
deriving Repr, DecidableEq

/-- A setting that is given once at most. -/
def once (known : Option String) (value : String) : Except UsageFault (Option String) :=
  if known.isSome then .error .repeated else .ok (some value)

/-- Puts a parameter into the settings. Inputs may be given several times and add up; any other
    parameter is given once at most, and takes one value. -/
def store (s : Settings) (p : Pending) : Except UsageFault Settings :=
  match p.parameter, p.values with
  | _, [] => .error .unusableValue
  | .input, values => .ok { s with inputs := s.inputs ++ values }
  | .pointer, value :: _ => do return { s with pointer := ← once s.pointer value }
  | .filter, value :: _ => do return { s with filter := ← once s.filter value }
  | .out, value :: _ => do
    let out ← once s.out value
    if value.isEmpty then .error .unusableValue else return { s with out }

/-- Puts the parameter that waits into the settings. -/
def settle (p : Progress) : Except UsageFault Settings :=
  match p.pending with
  | none => .ok p.settings
  | some pending => store p.settings pending

/-- Puts a flag into the settings. -/
def raise (s : Settings) : Flag → Except UsageFault Settings
  | .ndjson => if s.ndjson then .error .repeated else .ok { s with ndjson := true }
  | .noOp => if s.noOp then .error .repeated else .ok { s with noOp := true }
  | .verbose => if s.verbose then .error .repeated else .ok { s with verbose := true }
  | .help => .error .help
  | .version => .error .version

/-- Takes a flag. -/
def takeFlag (p : Progress) (f : Flag) : Except UsageFault Progress := do
  return { settings := ← raise (← settle p) f }

/-- Takes a parameter: with a value of its own it is complete, otherwise it waits for arguments
    without dashes. What waited before it is settled first. -/
def takeParameter (p : Progress) (o : Parameter) (value : Option String) :
    Except UsageFault Progress := do
  let settings ← settle p
  match value with
  | some v => return { settings := ← store settings ⟨o, [v]⟩ }
  | none => return { settings, pending := some ⟨o, []⟩ }

/-- Takes an argument of letters, one flag after another. The letters after that of a parameter are
    its value, with or without an equals sign before them. -/
def takeLetters (p : Progress) : List Char → Except UsageFault Progress
  | [] => .ok p
  | c :: cs =>
    match letter? c with
    | none => .error .unknownArgument
    | some (.flag f) => do takeLetters (← takeFlag p f) cs
    | some (.parameter o) =>
      match cs with
      | [] => takeParameter p o none
      | '=' :: value => takeParameter p o (some (String.ofList value))
      | value => takeParameter p o (some (String.ofList value))

/-- Takes a long argument. -/
def takeLong (p : Progress) (cs : List Char) : Except UsageFault Progress :=
  let (name, value) := splitValue cs
  match longName? name with
  | none => .error .unknownArgument
  | some (.parameter o) => takeParameter p o value
  | some (.flag f) => do
    let settings ← settle p
    if value.isSome then .error .unwantedValue else return { settings := ← raise settings f }

/-- Takes an argument without dashes, which only a waiting parameter has use for. -/
def takeValue (p : Progress) (value : String) : Except UsageFault Progress :=
  match p.pending with
  | some ⟨o, values⟩ =>
    if o = .input || values.isEmpty then
      .ok { p with pending := some ⟨o, values ++ [value]⟩ }
    else .error .unknownArgument
  | none => .error .unknownArgument

/-- Takes one argument of a command. -/
def take (p : Progress) (arg : String) : Except UsageFault Progress :=
  match arg.toList with
  | '-' :: '-' :: cs => takeLong p cs
  | '-' :: c :: cs => takeLetters p (c :: cs)
  | _ => takeValue p arg

/-- Takes the arguments of a command. Nothing can follow two dashes alone. -/
def takeAll (p : Progress) : List String → Except UsageFault Progress
  | [] => .ok p
  | "--" :: rest => if rest.isEmpty then .ok p else .error .unknownArgument
  | arg :: rest => do takeAll (← take p arg) rest

/-- The settings of a command. -/
def settings (verbose : Bool) (args : List String) : Except UsageFault Settings := do
  let s ← settle (← takeAll {} args)
  if s.inputs.isEmpty then .error .missingInput
  else return { s with verbose := verbose || s.verbose }

/-- Takes a flag before the command. -/
def rootFlag (verbose : Bool) : Flag → Except UsageFault Bool
  | .help => .error .help
  | .version => .error .version
  | _ => if verbose then .error .repeated else .ok true

/-- Takes an argument of letters before the command. -/
def rootLetters (verbose : Bool) : List Char → Except UsageFault Bool
  | [] => .ok verbose
  | c :: cs =>
    match rootLetter? c with
    | none => .error .unknownArgument
    | some f => do rootLetters (← rootFlag verbose f) cs

/-- Asks for help on commands. Help is given if all names are those of commands, and otherwise the
    first one that is not is the fault. -/
def helpOn : List String → UsageFault
  | [] => .help
  | name :: rest =>
    if name = "help" ∨ (Command.ofName? name).isSome then helpOn rest else .unknownCommand

/-- Reads a command line from the arguments that are left. Flags that go for all commands may stand
    in front of the command. Behind it, the settings of the command are read. -/
def root (verbose : Bool) : List String → Except UsageFault Invocation
  | [] => .error .missingCommand
  | arg :: rest =>
    match Command.ofName? arg with
    | some command => do return ⟨command, ← settings verbose rest⟩
    | none =>
      match arg.toList with
      | ['-', '-'] =>
        match rest with
        | [] => .error .missingCommand
        | name :: _ =>
          .error (if (Command.ofName? name).isSome then .unknownArgument else .unknownCommand)
      | '-' :: '-' :: cs =>
        let (name, value) := splitValue cs
        match rootLongName? name with
        | none => .error .unknownArgument
        | some f =>
          if value.isSome then .error .unwantedValue
          else do root (← rootFlag verbose f) rest
      | '-' :: c :: cs => do root (← rootLetters verbose (c :: cs)) rest
      | _ => .error (if arg = "help" then helpOn rest else .unknownCommand)

/-- Reads a command line. -/
def read (args : List String) : Except UsageFault Invocation := root false args

end Arguments
end CommandLine
end Shapewright
