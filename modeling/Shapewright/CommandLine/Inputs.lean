import Shapewright.CommandLine.Host
import Shapewright.CommandLine.Wildcard

/-!
# Inputs

The files that inputs name. An input with wildcards names the files it matches, which are looked for
directory by directory, the names of a directory in ascending order. Any other input is a path as it
stands.

A pattern is matched part by part: each part is a pattern of one name, and a part that stands for
any directories matches the directory itself and all that are below it. What is found this way is in
the order of a walk from the top, and the same file is found once for each input that names it.

The walk needs a bound, since a host may present directories that contain themselves. It is a depth
that no real tree reaches.
-/

namespace Shapewright
namespace CommandLine

/-- What is wrong with an input. -/
inductive InputFault where
  | malformed (input : String) (position : Nat) (why : WildcardFault)
  | noMatch (input : String)
deriving Repr, DecidableEq

/-- The text of a fault, with the position where a pattern is wrong. -/
def InputFault.message : InputFault → String
  | .malformed input position why =>
    "invalid input pattern: " ++ input ++ ": Pattern syntax error near position "
      ++ toString position ++ ": " ++ why.message
  | .noMatch input => "invalid input pattern: glob pattern matched no files: " ++ input

namespace Inputs

/-- Whether an input has wildcards. -/
def isPattern (input : String) : Bool :=
  input.toList.any fun c => c == '*' || c == '?' || c == '[' || c == '\x7b'

/-- A pattern, as a list of patterns of names. -/
structure Pattern where
  /-- The directory where matching starts. -/
  start : String
  names : List (List Wildcard)
  /-- Whether only directories match. -/
  directories : Bool
deriving Repr, DecidableEq

/-- What stands between slashes, except for an empty part at the end. -/
def parts (s : String) : List String :=
  let ps := s.splitOn "/"
  if ps.getLast? = some "" then ps.dropLast else ps

/-- Reads a pattern. It is read as a whole first and then part by part; either can be wrong. One
    that begins with a slash starts at the root, and one that ends with a slash is for directories
    only. -/
def pattern (input : String) : Except InputFault Pattern :=
  let fault (why : Nat × WildcardFault) : InputFault := .malformed input why.1 why.2
  match Wildcard.ofText input with
  | .error why => .error (fault why)
  | .ok _ =>
    let absolute := input.startsWith "/"
    let rest := if absolute then String.ofList (input.toList.drop 1) else input
    match (parts rest).mapM Wildcard.ofText with
    | .error why => .error (fault why)
    | .ok names =>
      .ok { start := if absolute then "/" else ".", names, directories := input.endsWith "/" }

/-- The path of a name in a directory; the working directory is left out of paths. -/
def below (directory name : String) : String :=
  if directory = "." then name else Path.join directory name

variable {m : Type → Type} [Monad m]

/-- Whether a pattern of a name is that of any directories. -/
def isAnyDirectories (ws : List Wildcard) : Bool := ws.contains .anyDirectories

mutual

/-- The matches in a directory, for the patterns of the names that are left. If `only` is set, just
    directories are matches. -/
def inDirectory (host : Host m) (only : Bool) :
    (fuel : Nat) → List (List Wildcard) → (directory : String) → m (List String)
  | 0, _, _ | _, [], _ => return []
  | fuel + 1, ws :: rest, directory => do
    match Wildcard.literal? ws with
    | some cs =>
      let name := String.ofList cs
      let path := below directory name
      let found ← if name = "." || name = ".." then host.isDirectory directory
        else do pure (← host.entry? path).isSome
      if found then matched host only fuel rest path else return []
    | none =>
      if !(← host.isDirectory directory) then return []
      let specials := if ws.head? = some (.char '.') then
          ["..", "."].filter fun s => Wildcard.matchesName ws s.toList
        else []
      let special ← specials.mapM fun s =>
        matched host only fuel rest (Path.join directory s)
      let names := (← host.list directory).mergeSort fun a b => a ≤ b
      let found ← names.mapM fun name =>
        atName host only fuel (ws :: rest) name (below directory name)
      return special.flatten ++ found.flatten

/-- The matches from a path that matched a pattern, for the patterns that are left. -/
def matched (host : Host m) (only : Bool) :
    (fuel : Nat) → List (List Wildcard) → (path : String) → m (List String)
  | 0, _, _ => return []
  | fuel + 1, rest, path => do
    if !rest.isEmpty then inDirectory host only fuel rest path
    else if !only then return [path]
    else if ← host.isDirectory path then return [path]
    else return []

/-- The matches at a name and below it. A part that stands for any number of directories is tried
    with none first, and is kept for what is below. -/
def atName (host : Host m) (only : Bool) :
    (fuel : Nat) → List (List Wildcard) → (name path : String) → m (List String)
  | 0, _, _, _ => return []
  | fuel + 1, patterns, name, path => do
    let rest := patterns.dropWhile isAnyDirectories
    let here ← match rest with
      | [] => if ← host.isDirectory path then pure [path] else pure []
      | ws :: rest =>
        if Wildcard.matchesName ws name.toList then matched host only fuel rest path else pure []
    let deeper := rest.length < patterns.length
    let below ← if deeper then do
        if ← host.isDirectory path then inDirectory host only fuel ([.anyDirectories] :: rest) path
        else pure []
      else pure []
    return here ++ below

end

/-- The directories inside one another that are looked at. -/
def depthLimit : Nat := 4096

/-- The files that one input names. -/
def ofInput (host : Host m) (input : String) : m (Except InputFault (List String)) := do
  if !isPattern input then return .ok [input]
  match pattern input with
  | .error why => return .error why
  | .ok p =>
    let found ← inDirectory host p.directories (3 * depthLimit) p.names p.start
    return if found.isEmpty then .error (.noMatch input) else .ok found

/-- The files that inputs name, in the order of the inputs. -/
def resolve (host : Host m) : List String → m (Except InputFault (List String))
  | [] => return .ok []
  | input :: rest => do
    match ← ofInput host input with
    | .error why => return .error why
    | .ok found => return (← resolve host rest).map (found ++ ·)

end Inputs
end CommandLine
end Shapewright
