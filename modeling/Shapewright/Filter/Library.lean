import Shapewright.Filter.Builtin
import Shapewright.Filter.Grammar

/-!
# The library of filters

Functions that filters define, and the reading of a filter that knows them.

The definitions are texts, read by the same grammar as a filter and each known to those behind it.
So they show what they mean, and they make values and errors in the way that any filter does. A
filter that is read has all of them around it, whether it uses them or not.
-/

namespace Shapewright
namespace Filter

/-- Functions that are defined by filters, each by those before it and by the table. They are read
    when a filter is, in the order in which they stand here. -/
def library : List String :=
  ["def select(f): if f then . else empty end;",
   "def values: select(. != null);",
   "def nulls: select(. == null);",
   "def booleans: select(type == \"boolean\");",
   "def numbers: select(type == \"number\");",
   "def strings: select(type == \"string\");",
   "def arrays: select(type == \"array\");",
   "def objects: select(type == \"object\");",
   "def iterables: select(type == \"array\" or type == \"object\");",
   "def scalars: select(type != \"array\" and type != \"object\");",
   "def recurse(f): def rec: ., (f | rec); rec;",
   "def recurse: recurse(.[]?);",
   "def recurse(f; condition): recurse(f | select(condition));",
   "def map(f): [.[] | f];",
   "def map_values(f): .[] |= f;",
   "def walk(f): .. |= f;",
   "def del(f): f |= empty;",
   "def add(f): reduce f as $x (null; . + $x);",
   "def add: add(.[]);",
   "def isempty(f): first((f | false), true);",
   "def any(f; condition): first((f | condition | select(.) | true), false);",
   "def any(f): any(.[]; f);",
   "def any: any(.);",
   "def all(f; condition): first((f | condition | select(not) | false), true);",
   "def all(f): all(.[]; f);",
   "def all: all(.);",
   "def first: .[0];",
   "def last: .[-1];",
   "def nth($n): .[$n];",
   "def nth($n; f): first(skip($n; f));",
   "def while(condition; f): def rec: if condition then ., (f | rec) else empty end; rec;",
   "def until(condition; f): def rec: if condition then . else f | rec end; rec;",
   "def repeat(f): def rec: ., (f | rec); rec;",
   "def range($low; $high; $by): $low | if $by > 0 then while(. < $high; . + $by) " ++
     "elif $by < 0 then while(. > $high; . + $by) else empty end;",
   "def range($low; $high): range($low; $high; 1);",
   "def range($high): range(0; $high; 1);",
   "def keys: keys_unsorted | sort_by(.);",
   "def sort: sort_by(.);",
   "def unique: unique_by(.);",
   "def min: min_by(.);",
   "def max: max_by(.);",
   "def flatten($depth): if $depth < 0 then error(\"depth\") else [.[] | " ++
     "if type == \"array\" then (if $depth == 0 then . else flatten($depth - 1)[] end) " ++
     "else . end] end;",
   "def flatten: [recurse(arrays[]) | select(type != \"array\")];",
   "def to_entries: [keys_unsorted[] as $k | \x7bkey: $k, value: .[$k]\x7d];",
   "def from_entries: reduce .[] as $x (\x7b\x7d; . + \x7b($x.key): $x.value\x7d);",
   "def with_entries(f): to_entries | map(f) | from_entries;",
   "def getpath($path): reduce $path[] as $key (.; .[$key]);",
   "def paths: def rec($path): (iterables | keys_unsorted[]) as $key | " ++
     "($path + [$key]) as $to | $to, (.[$key] | rec($to)); rec([]);",
   "def paths(f): paths as $path | select(getpath($path) | f) | $path;",
   "def leaf_paths: paths(scalars);",
   "def in(xs): . as $x | xs | has($x);",
   "def inside(xs): . as $x | xs | contains($x);",
   "def index(x): indices(x)[0];",
   "def rindex(x): indices(x)[-1];",
   "def join($separator): reduce .[] as $x (null; " ++
     "(if . == null then \"\" else . + $separator end) + " ++
     "($x | if . == null then \"\" else tostring end)) // \"\";",
   "def debug: .;"]

/-- Definitions of the library around a filter. -/
def withDefinitions (f : Filter) (defs : List (String × List Param × Filter)) : Filter :=
  defs.foldr (fun (name, params, body) rest => .define name params body rest) f

/-- The names of the functions of the table. -/
def builtinNames : Names := { functions := Builtin.table.map Prod.fst }

/-- A text as a filter that knows the library. -/
def ofText? (text : String) : Option Filter := do
  let tokens ← Token.ofText (" ".intercalate library)
  let (defs, names) ← Grammar.definitions (Grammar.fuelFor tokens) builtinNames tokens
  let f ← Grammar.read? names text
  return withDefinitions f defs

end Filter
end Shapewright
