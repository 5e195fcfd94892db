/-!
# Paths

A path is text; its parts are what stands between slashes. Empty parts and parts that are a single
point lead nowhere, except for a point at the start, which is a part like any other.

Nothing is looked up here: two points are a part like any other, and links are a matter of the host.
What the functions have to get right is which paths have a parent, because an output file is written
only after the directory around it has been made.
-/

namespace Shapewright
namespace CommandLine
namespace Path

/-- What stands between slashes. -/
def parts (path : String) : List String := path.splitOn "/"

/-- Parts without those at the end that lead nowhere. The first part stays in any case. -/
def trimmed : List String → List String
  | [] => []
  | first :: rest => first :: (rest.reverse.dropWhile fun p => p == "" || p == ".").reverse

/-- The path of parts. -/
def ofParts : List String → String
  | [""] => "/"
  | ps => "/".intercalate ps

/-- The path without its last part; the root and the empty path have no parent. Parts at the end
    that lead nowhere are no last parts. -/
def parent? (path : String) : Option String :=
  match trimmed (parts path) with
  | [] => none
  | [only] => if only.isEmpty then none else some ""
  | ps => some (ofParts (trimmed ps.dropLast))

/-- The path of a name in a directory. -/
def join (directory name : String) : String :=
  if directory.isEmpty || directory.endsWith "/" then directory ++ name
  else directory ++ "/" ++ name

end Path
end CommandLine
end Shapewright
