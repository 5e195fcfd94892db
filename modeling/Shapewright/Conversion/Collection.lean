import Shapewright.Conversion

/-!
# Converting arrays and maps

A collection is allocated in its full length and filled by a loop. The variables of a loop are
chosen by its depth, so that no loop rebinds a variable of a loop around it.

The names are short and run out: indices are letters from `i` on, and the other variables carry the
letters from `b` on behind them. Past `z` both go on with numbers, each at its own depth. A number
can never be one of the letters, so the two schemes do not meet.

An array is stored by its index, so its elements are converted into the place at once. A map has no
place for a key that is still to be converted, so its keys and elements go through variables.
-/

namespace Shapewright
namespace Conversion

/-! ## The variables of loops -/

/-- The letter `shift` places after `first`. -/
def letterAfter (first : Char) (shift : Nat) : String :=
  String.singleton (Char.ofNat (first.toNat + shift))

/-- The index of the loop at a depth: `i`, `j`, and so on to `z`, then numbered. The numbers are
    those of the depth, so they need not be counted from one. -/
def loopIndex (depth : Nat) : String :=
  if depth ≤ 17 then letterAfter 'i' depth else "i" ++ toString depth

/-- What tells the variables of the loop at a depth from those of the others: nothing outermost,
    then `b`, `c`, and so on to `z`, then a number. -/
def loopSuffix (depth : Nat) : String :=
  if depth = 0 then "" else if depth < 26 then letterAfter 'a' depth else toString depth

/-- The element that a loop is at. -/
def loopValue (depth : Nat) : String := "val" ++ loopSuffix depth

/-- The key that a loop over a map is at. -/
def loopKey (depth : Nat) : String := "key" ++ loopSuffix depth

/-- The converted key. -/
def loopNewKey (depth : Nat) : String := "tk" ++ loopSuffix depth

/-- The converted element. -/
def loopNewValue (depth : Nat) : String := "tv" ++ loopSuffix depth

/-- Every variable that the loop at a depth may bind. -/
def loopVariables (depth : Nat) : List String :=
  [loopIndex depth, loopValue depth, loopKey depth, loopNewKey depth, loopNewValue depth]

/-- Every variable that the loops around a depth may have bound. -/
def loopScope (depth : Nat) : List String := (List.range depth).flatMap loopVariables

end Conversion

namespace Site

open Conversion

/-- The site of the elements of an array, stored by their index. They are part of what is stored
    already, so nothing has to be declared. -/
def element (s : Site) (source target : Attribute) : Site where
  source
  target
  value := .ident (loopValue s.depth)
  place := s.place.index (.ident (loopIndex s.depth))
  declare := false
  depth := s.depth + 1

/-- The site of the keys of a map. A key is converted into a variable first, since the place in the
    map is not there before its key is. -/
def key (s : Site) (source target : Attribute) : Site where
  source
  target
  value := .ident (loopKey s.depth)
  place := .ident (loopNewKey s.depth)
  declare := true
  depth := s.depth + 1

/-- The site of the elements of a map. An element is converted into a variable as well, and stored
    under the new key at the end of the loop. -/
def entry (s : Site) (source target : Attribute) : Site where
  source
  target
  value := .ident (loopValue s.depth)
  place := .ident (loopNewValue s.depth)
  declare := true
  depth := s.depth + 1

end Site

namespace Conversion

/-! ## Arrays and maps -/

/-- The code of a site with arrays on both sides: the place gets a new array of the same length, and
    a loop over the value fills it by index. -/
def array (c : Conversion) (emit : Emit) (s : Site) : Walk Block := do
  match ← c.registry.elem? s.source, ← c.registry.elem? s.target with
  | some source, some target =>
    let type ← c.targetRef target
    let body ← c.nested emit (s.element source target)
    pure [s.store (.make (.slice type) (.len s.value)),
      .range (some (loopIndex s.depth)) (some (loopValue s.depth)) s.value body]
  | _, _ => .defect .notArray

/-- The code of a site with maps on both sides: the place gets a new map, and in a loop over the
    value, key and element are converted into variables before the pair is stored. -/
def map (c : Conversion) (emit : Emit) (s : Site) : Walk Block := do
  match ← c.registry.entry? s.source, ← c.registry.entry? s.target with
  | some (sourceKey, sourceElem), some (targetKey, targetElem) =>
    let keyType ← c.targetRef targetKey
    let elemType ← c.targetRef targetElem
    let keyCode ← c.nested emit (s.key sourceKey targetKey)
    let elemCode ← c.nested emit (s.entry sourceElem targetElem)
    let newKey := Expr.ident (loopNewKey s.depth)
    let newValue := Expr.ident (loopNewValue s.depth)
    pure [s.store (.make (.map keyType elemType) (.len s.value)),
      .range (some (loopKey s.depth)) (some (loopValue s.depth)) s.value
        (keyCode ++ elemCode ++ [.set (s.place.index newKey) newValue])]
  | _, _ => .defect .notMap

end Conversion
end Shapewright
