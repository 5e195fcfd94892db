import Shapewright.Pattern.Scan
import Shapewright.Text.Blank

/-!
# Space and numbers in patterns

Where a flag says so, white space and comments may stand between the parts of a pattern.

The readers here skip it, and they are the only ones that look at the flag. Inside the braces of a
count white space is allowed in every mode. A comment runs up to the end of its line, so skipping
takes turns between white space and comments, and each turn takes at least one character.
-/

namespace Shapewright
namespace Pattern

/-- A text without the white space and the comments it starts with, of which there are at most
    `limit`. A comment ends with its line. -/
def dropSpace : (limit : Nat) → List Char → List Char
  | 0, cs => cs
  | limit + 1, cs =>
    match cs.dropWhile Text.isBlank with
    | '#' :: rest => dropSpace limit ((rest.dropWhile (· ≠ '\n')).drop 1)
    | rest => rest

namespace Scan

/-- Skips white space and comments, where they stand for nothing. -/
def skipSpace : Scan Unit := do
  if (← mode).spaced then
    let cs ← rest
    setRest (dropSpace cs.length cs)

/-- Takes the next character and the space behind it. -/
def nextSpaced : Scan Char := do
  let c ← next
  skipSpace
  pure c

/-- Skips white space in every mode. -/
def skipBlank : Scan Unit := do
  let _ ← takeWhile Text.isBlank
  pure ()

/-- Takes at most `limit` characters that satisfy `p`, with space behind each. Where spaces are
    ignored they separate nothing, so the characters are read as if they were not there. -/
def takeSpaced (p : Char → Bool) : (limit : Nat) → Scan (List Char)
  | 0 => pure []
  | limit + 1 => do
    match ← peek with
    | some c =>
      if p c then
        let _ ← nextSpaced
        return c :: (← takeSpaced p limit)
      else pure []
    | none => pure []

/-- Takes as many characters as satisfy `p`, with space behind each. -/
def takeAllSpaced (p : Char → Bool) : Scan (List Char) := do
  takeSpaced p (← rest).length

/-- The largest count. -/
def countLimit : Nat := Nat.pow 2 32

/-- Takes a count, with white space around it; nothing if there are no digits. -/
def count? : Scan (Option Nat) := do
  skipBlank
  let ds ← takeAllSpaced Char.isDigit
  skipBlank
  if ds.isEmpty then return none
  let n := ds.foldl (fun n d => n * 10 + (d.toNat - '0'.toNat)) 0
  require (n < countLimit)
  return some n

end Scan
end Pattern
end Shapewright
