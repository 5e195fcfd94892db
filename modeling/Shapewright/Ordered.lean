/-!
# Lists of pairs in order of first arrival

Fields, contexts and types keep the order in which they were declared. `Ordered` holds the two
operations on such lists: looking a key up, and writing a key, which keeps the place of a key that
is already there.

A list may have a key twice if it was not made by writing keys, and then the first entry is the one
that counts, for looking up as for writing.
-/

namespace Shapewright
namespace Ordered

variable {κ : Type} {α : Type} [BEq κ]

/-- The value of a key, the first one if it is there more than once. -/
def get? (entries : List (κ × α)) (key : κ) : Option α :=
  match entries with
  | [] => none
  | (k, v) :: rest => if k == key then some v else get? rest key

/-- Writes a key: a key that is there keeps its place, a new key goes to the end. -/
def insert (entries : List (κ × α)) (key : κ) (value : α) : List (κ × α) :=
  match entries with
  | [] => [(key, value)]
  | (k, v) :: rest => if k == key then (k, value) :: rest else (k, v) :: insert rest key value

/-- The keys, in order. -/
def keys (entries : List (κ × α)) : List κ := entries.map Prod.fst

end Ordered
end Shapewright
