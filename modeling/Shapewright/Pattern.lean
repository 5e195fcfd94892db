import Shapewright.Pattern.Class
import Shapewright.Text.Letter

/-!
# Patterns

The grammar of a pattern: alternatives of sequences of parts, each of which may be repeated. Groups
have names of their own, flags hold to the end of the group they stand in, and the nesting of a
pattern is limited.

The recogniser stands in for the engine that a loaded design's patterns are meant for, and it is
what the program hands to the checks of a design (`Design.load`). Nothing that is proved of loaded
designs rests on it: the checks take any predicate for what a pattern is. It says what the engine's
documentation says of its syntax and of the levels of nesting, and no more. An engine also limits
the memory that an automaton may take, which depends on how it builds one; that limit has no
counterpart here.
-/

namespace Shapewright
namespace Pattern

/-- The levels of nesting that a pattern may have. -/
def depthLimit : Nat := 250

/-- The nesting of parts one after another, or of alternatives. One part is not nested. -/
def joined : List Nat → Nat
  | [] => 0
  | [depth] => depth
  | depths => depths.foldl max 0 + 1

/-- Parts of a sequence: flags match nothing and cannot be repeated. -/
inductive Part where
  | flags
  | matching (depth : Nat)

namespace Part

/-- The nesting of a part. -/
def depth : Part → Nat
  | .flags => 0
  | .matching depth => depth

end Part

/-- A flag, or the sign behind which flags are cleared. -/
inductive FlagItem where
  | flag (letter : Char)
  | negation
deriving DecidableEq

/-- The letters of flags. -/
def flagLetters : List Char := ['i', 'm', 's', 'U', 'u', 'R', 'x']

/-- The item that a character stands for. -/
def flagItem? (c : Char) : Option FlagItem :=
  if c == '-' then some .negation
  else if flagLetters.contains c then some (.flag c)
  else none

/-- Sets and clears the flags of a list in order. -/
def Mode.apply (m : Mode) (on : Bool) : List FlagItem → Mode
  | [] => m
  | .negation :: rest => m.apply false rest
  | .flag c :: rest =>
    let m := if c == 'x' then { m with spaced := on }
      else if c == 'u' then { m with unicode := on }
      else m
    m.apply on rest

/-- Whether a character may stand in the name of a group. -/
def isNameChar (first : Bool) (c : Char) : Bool :=
  if first then c == '_' || Text.isAlphabetic c
  else c == '_' || c == '.' || c == '[' || c == ']' || Text.isAlphanumeric c

/-- A pattern while it is read: the alternatives that are complete, and the parts of the one that is
    not, last first. -/
structure OpenPattern where
  done : List Nat := []
  parts : List Part := []

namespace OpenPattern

/-- The nesting of the sequence that is being read. -/
def last (p : OpenPattern) : Nat := joined (p.parts.map Part.depth)

/-- The nesting of a pattern, as far as it was read. -/
def depth (p : OpenPattern) : Nat := joined (p.last :: p.done)

def add (p : OpenPattern) (part : Part) : OpenPattern := { p with parts := part :: p.parts }

/-- Begins another alternative. -/
def branch (p : OpenPattern) : OpenPattern := ⟨p.last :: p.done, []⟩

end OpenPattern

namespace Scan

/-- Takes flags up to a colon or a closing parenthesis. No flag and no sign occurs twice, and the
    sign is not last. -/
def flags : Scan (List FlagItem) := do
  let letters ← takeWhile fun c => c ≠ ':' && c ≠ ')'
  match letters.mapM flagItem? with
  | none => refuse
  | some items =>
    require items.Nodup
    require (items.getLast? != some .negation)
    pure items

/-- Takes the name of a group and the angle bracket behind it. The names in a pattern differ. It
    starts with a letter or an underscore, and goes on with digits, dots and brackets too. -/
def groupName : Scan Unit := do
  let name ← takeWhile (· ≠ '>')
  let _ ← next
  match name with
  | [] => refuse
  | c :: rest =>
    require (isNameChar true c && rest.all (isNameChar false))
    let text := String.ofList name
    let s ← get
    require (!s.names.contains text)
    set { s with names := text :: s.names }

/-- Whether an atom may stand outside classes. In byte mode it must not match a part of a
    character. -/
def single (a : Atom) : Scan Unit := do
  let unicode := (← mode).unicode
  match a with
  | .literal c byte => require (unicode || !byte || c.toNat < 0x80)
  | .perl negated => require (unicode || !negated)
  | .property | .dot => require unicode
  | .assertion => pure ()

/-- Takes the smallest part of a pattern. -/
def atom : Scan Atom := do
  let c ← next
  match c with
  | '\\' => escape
  | '.' => pure .dot
  | '^' | '$' => pure .assertion
  | c => pure (.literal c false)

/-- Takes the question mark that makes a repetition lazy, if it is there. -/
def lazyMark : Scan Unit := do
  let _ ← accept ['?']
  pure ()

/-- Takes the counts of a repetition, whose brace was taken: the least and, behind a comma, the
    most. The most may be left out, and is not below the least. -/
def counts : Scan Unit := do
  skipSpace
  require (← peek).isSome
  let least ← count?
  let inOrder ← if ← accept [','] then do
      skipSpace
      if (← peek) == some '}' then
        require least.isSome
        pure true
      else
        match least, ← count? with
        | some n, some m => pure (decide (n ≤ m))
        | _, _ => refuse
    else
      require least.isSome
      pure true
  expect ['}']
  skipSpace
  lazyMark
  require inOrder

/-- Repeats the last part, which must match something. A repetition is one more level. -/
def repeatLast (p : OpenPattern) : Scan OpenPattern := do
  match p.parts with
  | .matching depth :: rest => pure { p with parts := .matching (depth + 1) :: rest }
  | _ => refuse

/-- How a group begins. -/
inductive Opening where
  /-- No group: flags for what follows. -/
  | flags
  | group

/-- Takes the beginning of a group, whose parenthesis was taken, and sets its flags. Groups that
    look ahead or back are refused. Flags can stand alone, or in front of the pattern that they are
    for. -/
def opening : Scan Opening := do
  skipSpace
  let cs ← rest
  require (["?=", "?!", "?<=", "?<!"].all fun look => !look.toList.isPrefixOf cs)
  let named ← if ← accept "?P<".toList then pure true else accept "?<".toList
  if named then
    groupName
    pure .group
  else if ← accept ['?'] then
    let items ← flags
    modify fun s => { s with mode := s.mode.apply true items }
    let close ← next
    if close == ')' then
      require !items.isEmpty
      pure .flags
    else pure .group
  else pure .group

/-- Takes a pattern up to its end or to a closing parenthesis, with at most `limit` parts in all.
    Flags that are set inside a group end with it. The result is how deep the levels of the pattern
    go. -/
def patternRest : (limit : Nat) → OpenPattern → Scan Nat
  | 0, _ => refuse
  | limit + 1, p => do
    skipSpace
    match ← peek with
    | none | some ')' => pure p.depth
    | some '(' => do
      let _ ← next
      let outside ← mode
      match ← opening with
      | .flags => patternRest limit (p.add .flags)
      | .group => do
        let inner ← patternRest limit {}
        expect [')']
        modify fun s => { s with mode := outside }
        patternRest limit (p.add (.matching (inner + 1)))
    | some '|' => do
      let _ ← next
      patternRest limit p.branch
    | some '[' => do
      let _ ← next
      let k ← bracketed
      patternRest limit (p.add (.matching k.depth))
    | some '?' => do
      let _ ← next
      lazyMark
      patternRest limit (← repeatLast p)
    | some '*' => do
      let _ ← next
      lazyMark
      patternRest limit (← repeatLast p)
    | some '+' => do
      let _ ← next
      lazyMark
      patternRest limit (← repeatLast p)
    | some '{' => do
      let _ ← next
      counts
      patternRest limit (← repeatLast p)
    | some _ => do
      single (← atom)
      patternRest limit (p.add (.matching 0))

/-- Takes a whole pattern. -/
def pattern : Scan Unit := do
  let depth ← patternRest ((← rest).length + 1) {}
  require (← rest).isEmpty
  require (depth ≤ depthLimit)

end Scan

/-- Whether a text is a pattern. -/
def isValid (text : String) : Bool := (Scan.pattern.run { rest := text.toList }).isSome

end Pattern
end Shapewright
