import Shapewright.Pattern.Property
import Shapewright.Pattern.Space

/-!
# Escapes

What may follow a backslash: characters with a meaning of their own, characters given by their
number, classes, properties and assertions. Letters and digits that mean nothing are refused, and so
are references to groups.

An escape is read into an atom, which says only what decides whether a pattern is one: a character
with its number, since it can be the end of a range, and of anything else whether it is an assertion
and whether it goes beyond ASCII. In byte mode an escape may be the number of a byte instead of a
character.
-/

namespace Shapewright
namespace Pattern

/-- The smallest parts of a pattern. -/
inductive Atom where
  /-- A character; `byte` if it was given by two hexadecimal digits, and so may stand for a byte. -/
  | literal (c : Char) (byte : Bool)
  /-- A class with a letter of its own. Only a negated one reaches beyond ASCII in byte mode. -/
  | perl (negated : Bool)
  | property
  | dot
  | assertion

/-- ASCII letters and digits are not escapeable, and neither are the marks of word boundaries. -/
def isEscapeable (c : Char) : Bool :=
  c.toNat < 0x80 && !c.isAlphanum && c != '<' && c != '>'

/-- Whether a character is a hexadecimal digit, in either case. -/
def isHexDigit (c : Char) : Bool :=
  c.isDigit || ('a' ≤ c && c ≤ 'f') || ('A' ≤ c && c ≤ 'F')

/-- The value of a hexadecimal digit. -/
def hexValue (c : Char) : Nat :=
  if c.isDigit then c.toNat - '0'.toNat
  else if 'a' ≤ c then c.toNat - 'a'.toNat + 10
  else c.toNat - 'A'.toNat + 10

/-- The character with a number, if there is one. -/
def charOfNumber? (n : Nat) : Option Char :=
  if h : n.isValidChar then some (Char.ofNatAux n h) else none

/-- The names of assertions about the bounds of words. -/
def wordBounds : List (List Char) :=
  ["start", "end", "start-half", "end-half"].map String.toList

namespace Scan

/-- Takes the character that hexadecimal digits stand for. -/
def numbered (digits : List Char) : Scan Char := do
  match charOfNumber? (digits.foldl (fun n d => n * 16 + hexValue d) 0) with
  | some c => pure c
  | none => refuse

/-- Takes `count` hexadecimal digits. -/
def hexDigits : (count : Nat) → Scan (List Char)
  | 0 => pure []
  | count + 1 => do
    let d ← nextSpaced
    require (isHexDigit d)
    return d :: (← hexDigits count)

/-- Takes a character given by `count` hexadecimal digits, or by any number of them in braces. The
    number has to be that of a character. -/
def hexEscape (count : Nat) : Scan Atom := do
  skipSpace
  if (← peek) == some '{' then
    let _ ← nextSpaced
    let ds ← takeAllSpaced isHexDigit
    let close ← nextSpaced
    require (close == '}' && !ds.isEmpty)
    return .literal (← numbered ds) false
  else
    let c ← numbered (← hexDigits count)
    return .literal c (count == 2)

/-- Takes a property: one letter, or a name in braces. The name has to be one that is known, and its
    spelling is not strict. -/
def propertyEscape : Scan Atom := do
  skipSpace
  let c ← nextSpaced
  if c == '{' then
    let name ← takeAllSpaced (· ≠ '}')
    let _ ← next
    require (Property.isKnown name)
  else
    require (c != '\\' && Property.isNamed [c])
  pure .property

/-- Takes the name of a bound of words, if one follows in braces. What follows may be the count of a
    repetition instead. -/
def wordBound : Scan Atom := do
  let before ← get
  if ← accept ['{'] then
    skipSpace
    match ← peek with
    | none => refuse
    | some c =>
      if c.isAlpha || c == '-' then
        let name ← takeAllSpaced fun c => c.isAlpha || c == '-'
        expect ['}']
        require (wordBounds.contains name)
        pure .assertion
      else
        set before
        pure .assertion
  else pure .assertion

/-- Takes an escape, whose backslash was taken. Signs stand for themselves behind a backslash, and
    other letters and digits are refused. -/
def escape : Scan Atom := do
  let c ← next
  match c with
  | 'x' => hexEscape 2
  | 'u' => hexEscape 4
  | 'U' => hexEscape 8
  | 'p' | 'P' => propertyEscape
  | 'd' | 's' | 'w' => pure (.perl false)
  | 'D' | 'S' | 'W' => pure (.perl true)
  | 'a' => pure (.literal '\x07' false)
  | 'f' => pure (.literal '\x0C' false)
  | 't' => pure (.literal '\t' false)
  | 'n' => pure (.literal '\n' false)
  | 'r' => pure (.literal '\r' false)
  | 'v' => pure (.literal '\x0B' false)
  | 'b' => wordBound
  | 'A' | 'z' | 'B' | '<' | '>' => pure .assertion
  | c => do
    require (isEscapeable c)
    pure (.literal c false)

end Scan
end Pattern
end Shapewright
