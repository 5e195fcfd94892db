/-!
# Reading patterns

Patterns are regular expressions without look-around and back-references, whose matches are found in
linear time. Whether a text is a pattern is all that is asked here; the reader therefore builds no
tree, but goes through the text once and refuses it where it is no pattern.

A reader keeps the text that is left, the flags that are set and the names of groups, and it can
refuse. It says nothing of the place or the reason. Messages about a pattern name the pattern and
the attribute that it is declared for, and no more is needed for that.
-/

namespace Shapewright
namespace Pattern

/-- What flags set in a pattern say about its text. -/
structure Mode where
  /-- White space and comments stand for nothing. -/
  spaced : Bool := false
  /-- Classes are sets of characters; otherwise they are sets of bytes. -/
  unicode : Bool := true

structure State where
  rest : List Char
  mode : Mode := {}
  /-- The names of the groups so far. -/
  names : List String := []

/-- A reader that goes forward in a pattern or refuses it. -/
abbrev Scan (α : Type) := StateT State Option α

namespace Scan

/-- Refuses the pattern. -/
def refuse {α : Type} : Scan α := StateT.lift none

/-- Refuses the pattern unless `ok` holds. -/
def require (ok : Bool) : Scan Unit := if ok then pure () else refuse

/-- The text that is left. -/
def rest : Scan (List Char) := do return (← get).rest

/-- The flags that are set. -/
def mode : Scan Mode := do return (← get).mode

/-- Goes to another place in the text. -/
def setRest (rest : List Char) : Scan Unit := modify fun s => { s with rest }

/-- The next character, which stays. -/
def peek : Scan (Option Char) := do return (← rest).head?

/-- Takes the next character, which must be there. -/
def next : Scan Char := do
  match ← rest with
  | [] => refuse
  | c :: cs =>
    setRest cs
    pure c

/-- Takes a text if it comes next. -/
def accept (text : List Char) : Scan Bool := do
  let cs ← rest
  if text.isPrefixOf cs then
    setRest (cs.drop text.length)
    pure true
  else pure false

/-- Takes a text, which must come next. -/
def expect (text : List Char) : Scan Unit := do require (← accept text)

/-- Takes characters while they satisfy `p`. -/
def takeWhile (p : Char → Bool) : Scan (List Char) := do
  let cs ← rest
  setRest (cs.dropWhile p)
  pure (cs.takeWhile p)

end Scan
end Pattern
end Shapewright
