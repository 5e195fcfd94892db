import Shapewright.CommandLine.Path

/-!
# Hosts

What a command needs from the machine it runs on. Commands are written for any host, so that they
run on a file system as well as on a tree of files in memory.

A host reports faults and does not decide about them. That a directory which could not be made may
be there already, or that the directories around it have to be made first, is the same on every host
and is written here once. Directories are made from the inside out: the first attempt is for the
directory itself, and only where its parent is missing is the parent made before.
-/

namespace Shapewright
namespace CommandLine

/-- Why a file or directory cannot be used. -/
inductive FileFault where
  | notFound
  | exists
  | notDirectory
  | isDirectory
  | notText
  | other (message : String)
deriving Repr, DecidableEq

/-- The text of a fault, as an operating system words it. -/
def FileFault.message : FileFault → String
  | .notFound => "No such file or directory (os error 2)"
  | .exists => "File exists (os error 17)"
  | .notDirectory => "Not a directory (os error 20)"
  | .isDirectory => "Is a directory (os error 21)"
  | .notText => "stream did not contain valid UTF-8"
  | .other message => message

/-- What a path leads to. -/
inductive Entry where
  | file
  | directory
deriving Repr, DecidableEq

structure Host (m : Type → Type) where
  /-- What a path leads to, if it leads to anything. -/
  entry? : (path : String) → m (Option Entry)
  /-- The names in a directory, in no particular order. -/
  list : (path : String) → m (List String)
  /-- The text of a file. -/
  read : (path : String) → m (Except FileFault String)
  /-- Makes a directory whose parent is there. -/
  makeDirectory : (path : String) → m (Except FileFault Unit)
  /-- Writes a file, in place of one that is there. -/
  write : (path text : String) → m (Except FileFault Unit)
  /-- Writes to the standard output. -/
  print : (text : String) → m Unit

namespace Host

variable {m : Type → Type} [Monad m]

/-- Whether a path leads to a directory. -/
def isDirectory (host : Host m) (path : String) : m Bool := do
  return (← host.entry? path) == some .directory

/-- A directory that could not be made may be there already. -/
def unlessThere (host : Host m) (path : String) (made : Except FileFault Unit) :
    m (Except FileFault Unit) := do
  match made with
  | .ok () => return .ok ()
  | .error why => if ← host.isDirectory path then return .ok () else return .error why

/-- Makes a directory and those around it that are missing. The fuel bounds their number. A
    directory that is there already is no fault, whoever made it. -/
def makeWithin (host : Host m) : (fuel : Nat) → (path : String) → m (Except FileFault Unit)
  | 0, _ => return .error .notFound
  | fuel + 1, path => do
    if path.isEmpty then return .ok ()
    match ← host.makeDirectory path with
    | .error .notFound =>
      match Path.parent? path with
      | none => return .error .notFound
      | some parent =>
        match ← makeWithin host fuel parent with
        | .error why => return .error why
        | .ok () => unlessThere host path (← host.makeDirectory path)
    | made => unlessThere host path made

/-- Makes a directory and those around it that are missing. A path has no more directories around it
    than it has characters, so the fuel lasts. -/
def makeDirectories (host : Host m) (path : String) : m (Except FileFault Unit) :=
  host.makeWithin (path.length + 1) path

end Host
end CommandLine
end Shapewright
