import Shapewright.Pattern.Escape

/-!
# Bracketed classes

A class is a union of characters, ranges, named classes and classes in brackets, or two of these
joined by an operation on sets. Classes may be empty. In byte mode a class must stay within ASCII; a
class holds all bytes beyond ASCII or none, so one truth value is enough to know.

A class is read from the left with the parts behind the last operation kept apart. An operation
takes everything before it as its first operand, and what follows up to the next one as its second,
so operations associate to the left and bind less tightly than standing side by side. Nesting is
counted along, since a pattern may not be nested too deeply.
-/

namespace Shapewright
namespace Pattern

/-- What is known of a part of a class. -/
structure ClassShape where
  /-- The levels of nesting. -/
  depth : Nat
  /-- In byte mode, whether it holds the bytes beyond ASCII. -/
  high : Bool

namespace ClassShape

/-- A part without parts. -/
def leaf (high : Bool) : ClassShape := ⟨0, high⟩

/-- The union of some parts. One part is not nested. -/
def union : List ClassShape → ClassShape
  | [] => leaf false
  | [s] => s
  | ss => ⟨(ss.map (·.depth)).foldl max 0 + 1, ss.any (·.high)⟩

end ClassShape

inductive ClassOp where
  | intersection
  | difference
  | symmetricDifference
deriving DecidableEq

namespace ClassOp

/-- Joins two parts. -/
def join (op : ClassOp) (a b : ClassShape) : ClassShape where
  depth := max a.depth b.depth + 1
  high := match op with
    | .intersection => a.high && b.high
    | .difference => a.high && !b.high
    | .symmetricDifference => a.high != b.high

end ClassOp

/-- A class while it is read: what stands before the last operation, and the parts behind it. -/
structure OpenClass where
  left : Option (ClassOp × ClassShape) := none
  parts : List ClassShape := []

namespace OpenClass

/-- What is known of the class that has been read so far. -/
def shape (k : OpenClass) : ClassShape :=
  let right := ClassShape.union k.parts
  match k.left with
  | none => right
  | some (op, left) => op.join left right

/-- The class with one more part. -/
def add (k : OpenClass) (s : ClassShape) : OpenClass := { k with parts := s :: k.parts }

/-- The class with an operation behind it, which takes all of it for an operand. -/
def operate (k : OpenClass) (op : ClassOp) : OpenClass := ⟨some (op, k.shape), []⟩

end OpenClass

/-- The names of ASCII classes. -/
def asciiClasses : List (List Char) :=
  ["alnum", "alpha", "ascii", "blank", "cntrl", "digit", "graph", "lower", "print", "punct",
    "space", "upper", "word", "xdigit"].map String.toList

/-- An ASCII class such as `[:alpha:]` at the start of a text: whether it is negated, and what
    follows it. -/
def asciiClass? : List Char → Option (Bool × List Char)
  | '[' :: ':' :: cs =>
    let (negated, cs) := match cs with
      | '^' :: cs => (true, cs)
      | cs => (false, cs)
    let name := cs.takeWhile (· ≠ ':')
    match cs.drop name.length with
    | ':' :: ']' :: rest => if asciiClasses.contains name then some (negated, rest) else none
    | _ => none
  | _ => none

namespace Scan

/-- Takes one member of a class. -/
def member : Scan Atom := do
  let c ← next
  if c == '\\' then escape else pure (.literal c false)

/-- The character that an atom stands for as the end of a range. -/
def bound (a : Atom) : Scan Char := do
  match a with
  | .literal c byte =>
    require ((← mode).unicode || c.toNat < 0x80 || (byte && c.toNat < 0x80))
    pure c
  | _ => refuse

/-- What is known of an atom as a part of a class. Assertions are no part of a class. Without
    Unicode it may not take in more than single bytes, so a negated class of characters is
    refused. -/
def part (a : Atom) : Scan ClassShape := do
  let unicode := (← mode).unicode
  match a with
  | .literal _ _ => do
    let _ ← bound a
    pure (.leaf false)
  | .perl negated => do
    require (unicode || !negated)
    pure (.leaf false)
  | .property => do
    require unicode
    pure (.leaf false)
  | .dot | .assertion => refuse

/-- Takes a member of a class or a range. A hyphen before the closing bracket stands for itself, and
    two hyphens are an operation. -/
def range : Scan ClassShape := do
  let first ← member
  skipSpace
  match ← rest with
  | '-' :: after =>
    let following := if (← mode).spaced then dropSpace after.length after else after
    match following with
    | [] => refuse
    | ']' :: _ | '-' :: _ => part first
    | _ =>
      let _ ← nextSpaced
      let last ← member
      let low ← bound first
      let high ← bound last
      require (low ≤ high)
      pure (.leaf false)
  | [] => refuse
  | _ => part first

/-- Takes the opening of a class, whose bracket was taken: whether it is negated, and its first
    members. Hyphens at the front stand for themselves, and so does a closing bracket. -/
def openClass : Scan (Bool × OpenClass) := do
  skipSpace
  let negated := (← peek) == some '^'
  if negated then
    let _ ← nextSpaced
  let hyphens ← takeAllSpaced (· == '-')
  let k : OpenClass := { parts := hyphens.map fun _ => .leaf false }
  if hyphens.isEmpty && (← peek) == some ']' then
    let _ ← nextSpaced
    require (← peek).isSome
    pure (negated, k.add (.leaf false))
  else
    require (← peek).isSome
    pure (negated, k)

/-- The class that ends here. -/
def closeClass (negated : Bool) (k : OpenClass) : Scan ClassShape := do
  let s := k.shape
  let high := s.high != negated
  require ((← mode).unicode || !high)
  pure ⟨s.depth + 1, high⟩

/-- Takes the rest of a class, with at most `limit` parts in all. Two signs in a row combine what
    stands before them with what follows, and a bracket opens a class inside. -/
def classRest (negated : Bool) : (limit : Nat) → OpenClass → Scan ClassShape
  | 0, _ => refuse
  | limit + 1, k => do
    skipSpace
    match ← rest with
    | [] => refuse
    | ']' :: _ => do
      let _ ← next
      closeClass negated k
    | '&' :: '&' :: after => do
      setRest after
      classRest negated limit (k.operate .intersection)
    | '-' :: '-' :: after => do
      setRest after
      classRest negated limit (k.operate .difference)
    | '~' :: '~' :: after => do
      setRest after
      classRest negated limit (k.operate .symmetricDifference)
    | '[' :: inside =>
      match asciiClass? ('[' :: inside) with
      | some (high, after) => do
        setRest after
        classRest negated limit (k.add (.leaf high))
      | none => do
        setRest inside
        let (innerNegated, inner) ← openClass
        let s ← classRest innerNegated limit inner
        classRest negated limit (k.add s)
    | _ => do
      let s ← range
      classRest negated limit (k.add s)

/-- Takes a class, whose bracket was taken. -/
def bracketed : Scan ClassShape := do
  let (negated, k) ← openClass
  classRest negated ((← rest).length + 1) k

end Scan
end Pattern
end Shapewright
