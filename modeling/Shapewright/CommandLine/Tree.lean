import Shapewright.CommandLine.Host
import Shapewright.Ordered

/-!
# Trees of files

A host in memory. It holds the working directory and what is below it; what is outside is not there.

Places are lists of names, so that a path has to be followed once and two paths that lead to the
same file give the same place. A path can be wrong in the ways that it can be on a file system: a
name is missing, something that is no directory has names below it, or a directory stands where a
file is asked for. The faults are told apart as a file system tells them.
-/

namespace Shapewright
namespace CommandLine

/-- A place below the working directory: names from the outside in. -/
abbrev Place := List String

structure Tree where
  files : List (Place × ByteArray) := []
  /-- The directories other than the working directory. -/
  directories : List Place := []
  /-- What was printed. -/
  printed : String := ""

namespace Tree

/-- What is at a place, if there is anything. -/
def entry? (t : Tree) (p : Place) : Option Entry :=
  if (t.files.lookup p).isSome then some .file
  else if p.isEmpty || t.directories.contains p then some .directory
  else none

/-- The place that names lead to from a directory. All but the last name must be directories; the
    last one need not be there. -/
def follow (t : Tree) (directory : Place) : List String → Except FileFault Place
  | [] => .ok directory
  | name :: rest =>
    let next? : Except FileFault Place :=
      if name = ".." then
        if directory.isEmpty then .error .notFound else .ok directory.dropLast
      else .ok (directory ++ [name])
    match next? with
    | .error why => .error why
    | .ok next =>
      if rest.isEmpty then .ok next
      else
        match t.entry? next with
        | some .directory => follow t next rest
        | some .file => .error .notDirectory
        | none => .error .notFound

/-- The place of a path, and whether the path asks for a directory. -/
def place (t : Tree) (path : String) : Except FileFault (Place × Bool) :=
  if path.isEmpty || path.startsWith "/" then .error .notFound
  else do
    let parts := Path.parts path
    let place ← t.follow [] (parts.filter fun p => p != "" && p != ".")
    return (place, parts.getLast?.any fun p => p == "" || p == ".")

/-- What a path leads to. -/
def stat (t : Tree) (path : String) : Except FileFault (Place × Entry) := do
  let (place, wantsDirectory) ← t.place path
  match t.entry? place with
  | none => .error .notFound
  | some .file => if wantsDirectory then .error .notDirectory else .ok (place, .file)
  | some .directory => .ok (place, .directory)

/-- The names in a directory. -/
def names (t : Tree) (p : Place) : List String :=
  let inside := t.files.map Prod.fst ++ t.directories
  (inside.filter fun q => q.dropLast == p && !q.isEmpty).filterMap List.getLast?

/-- The text of a file. Bytes that are no text are a fault of their own. Directories are found but
    have no text. -/
def read (t : Tree) (path : String) : Except FileFault String := do
  match ← t.stat path with
  | (_, .directory) => .error .isDirectory
  | (place, .file) =>
    match t.files.lookup place with
    | none => .error .notFound
    | some bytes =>
      match String.fromUTF8? bytes with
      | some text => .ok text
      | none => .error .notText

/-- The tree with one more directory, whose parent must be there. -/
def makeDirectory (t : Tree) (path : String) : Except FileFault Tree := do
  let (place, _) ← t.place path
  match t.entry? place with
  | some _ => .error .exists
  | none => .ok { t with directories := t.directories ++ [place] }

/-- The tree with a file, in place of one that is there. -/
def write (t : Tree) (path text : String) : Except FileFault Tree := do
  let (place, wantsDirectory) ← t.place path
  match t.entry? place, wantsDirectory with
  | some .directory, _ | none, true => .error .isDirectory
  | some .file, true => .error .notDirectory
  | _, false => .ok { t with files := Ordered.insert t.files place text.toUTF8 }

/-- The tree with a file and the directories around it. -/
def withFile (t : Tree) (path : String) (bytes : ByteArray) : Tree :=
  let place := Path.parts path
  let around := (List.range place.length).map place.take
  let missing := around.filter fun p => !p.isEmpty && !t.directories.contains p
  { t with files := Ordered.insert t.files place bytes,
           directories := t.directories ++ missing }

/-- Runs an action that may change the tree. -/
def change (action : Tree → Except FileFault Tree) : StateM Tree (Except FileFault Unit) := do
  match action (← get) with
  | .ok t => do
    set t
    return .ok ()
  | .error why => return .error why

/-- A tree as a host. Nothing in it depends on the world, so a run of the program can be stated and
    computed. -/
def host : Host (StateM Tree) where
  entry? path := do
    match (← get).stat path with
    | .ok (_, entry) => return some entry
    | .error _ => return none
  list path := do
    match (← get).stat path with
    | .ok (place, .directory) => return (← get).names place
    | _ => return []
  read path := do return (← get).read path
  makeDirectory path := change fun t => t.makeDirectory path
  write path text := change fun t => t.write path text
  print text := modify fun t => { t with printed := t.printed ++ text }

end Tree
end CommandLine
end Shapewright
