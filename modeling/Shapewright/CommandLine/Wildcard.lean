/-!
# Wildcards

Patterns of names: `?` stands for one character, `*` for any characters, a class in brackets for one
character in it or, after `!`, for one that is not in it. The pattern `**` stands for any
directories and must be alone between slashes.

A pattern is read once, with the position of every fault, and matched afterwards without one. That
`**` stands alone can only be seen from what is before and behind it, which is why the reader keeps
the character before the place that it is at. A class need not be closed by the first bracket: the
first character in it may be one itself.
-/

namespace Shapewright
namespace CommandLine

/-- An element of a pattern. -/
inductive Wildcard where
  | char (c : Char)
  | anyChar
  | anyChars
  | anyDirectories
  /-- A character in one of the ranges. -/
  | within (ranges : List (Char × Char))
  | except (ranges : List (Char × Char))
deriving Repr, DecidableEq

/-- Why a text is no pattern. -/
inductive WildcardFault where
  | tooManyStars
  | starsNotAlone
  | openClass
deriving Repr, DecidableEq

/-- The text of a fault. -/
def WildcardFault.message : WildcardFault → String
  | .tooManyStars => "wildcards are either regular `*` or recursive `**`"
  | .starsNotAlone => "recursive wildcards must form a single path component"
  | .openClass => "invalid range pattern"

namespace Wildcard

/-- The ranges of a class; a character alone is a range of its own. -/
def ranges : List Char → List (Char × Char)
  | low :: '-' :: high :: rest => (low, high) :: ranges rest
  | c :: rest => (c, c) :: ranges rest
  | [] => []

/-- The class from inside its bracket, with the text after it. A class has at least one character,
    which may be a closing bracket. -/
def class? (cs : List Char) : Option (Wildcard × List Char) :=
  let (negated, cs) := match cs with
    | '!' :: rest => (true, rest)
    | _ => (false, cs)
  match cs with
  | [] => none
  | first :: rest =>
    match rest.dropWhile (· != ']') with
    | [] => none
    | _ :: after =>
      let found := ranges (first :: rest.takeWhile (· != ']'))
      some (if negated then .except found else .within found, after)

/-- Reads a pattern. `position` counts the characters before `cs`, and `before` is the last one of
    them. -/
def read : (fuel : Nat) → (position : Nat) → (before : Option Char) → List Char →
    Except (Nat × WildcardFault) (List Wildcard)
  | 0, _, _, _ | _, _, _, [] => .ok []
  | fuel + 1, position, before, c :: cs =>
    if c = '?' then (read fuel (position + 1) (some c) cs).map (.anyChar :: ·)
    else if c = '*' then
      let after := cs.dropWhile (· == '*')
      let stars := 1 + (cs.length - after.length)
      if stars > 2 then .error (position + 2, .tooManyStars)
      else if stars = 1 then (read fuel (position + 1) (some c) after).map (.anyChars :: ·)
      else if before.any (· != '/') then .error (position - 1, .starsNotAlone)
      else
        match after with
        | [] => .ok [.anyDirectories]
        | '/' :: rest => (read fuel (position + 3) (some '/') rest).map (.anyDirectories :: ·)
        | _ => .error (position + 2, .starsNotAlone)
    else if c = '[' then
      match class? cs with
      | none => .error (position, .openClass)
      | some (w, after) =>
        (read fuel (position + 1 + (cs.length - after.length)) (some ']') after).map (w :: ·)
    else (read fuel (position + 1) (some c) cs).map (.char c :: ·)

/-- The elements of a pattern, or the place where it is wrong. -/
def ofText (s : String) : Except (Nat × WildcardFault) (List Wildcard) :=
  read (s.length + 1) 0 none s.toList

/-- Whether a character is in a class. -/
def inRanges (found : List (Char × Char)) (c : Char) : Bool :=
  found.any fun r => r.1 ≤ c && c ≤ r.2

/-- Whether one element can stand for one character. -/
def accepts (w : Wildcard) (c : Char) : Bool :=
  match w with
  | .char d => c == d
  | .anyChar | .anyChars | .anyDirectories => true
  | .within found => inRanges found c
  | .except found => !inRanges found c

/-- Whether a pattern stands for a name. A star is tried with no character first, and then with one
    more at a time. -/
def matchesName : List Wildcard → List Char → Bool
  | [], cs => cs.isEmpty
  | .anyChars :: ws, [] => matchesName ws []
  | .anyChars :: ws, c :: cs => matchesName ws (c :: cs) || matchesName (.anyChars :: ws) cs
  | _ :: _, [] => false
  | w :: ws, c :: cs => w.accepts c && matchesName ws cs
termination_by ws cs => ws.length + cs.length

/-- The name that a pattern without wildcards is. -/
def literal? : List Wildcard → Option (List Char)
  | [] => some []
  | .char c :: ws => (literal? ws).map (c :: ·)
  | _ :: _ => none

end Wildcard
end CommandLine
end Shapewright
