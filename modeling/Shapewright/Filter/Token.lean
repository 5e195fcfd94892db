import Shapewright.Json.Draft.Scalar
import Shapewright.Json.Value
import Shapewright.Text.Blank

/-!
# Tokens of filters

A text inside a filter may have holes with filters in them. Tokens are flat: a text is a run of
tokens between `textOpen` and `textClose`, and a hole in it a run between `holeOpen` and
`holeClose`.

A hole ends at the parenthesis that matches its opening one, so parentheses have to be counted while
tokens are read. The counts of the holes around a place are kept in a list, since holes contain
texts and texts contain holes.
-/

namespace Shapewright
namespace Filter

inductive Token where
  | word (s : String)
  /-- A name after a dollar sign. -/
  | dollar (name : String)
  /-- A name after an at sign. -/
  | format (name : String)
  | number (v : Json.Value)
  /-- A name right after a point. -/
  | field (name : String)
  | symbol (s : String)
  | textOpen
  | textPlain (s : String)
  | holeOpen
  | holeClose
  | textClose
deriving Inhabited

namespace Token

/-- Whether a name can start with a character. -/
def startsName (c : Char) : Bool := c.isAlpha || c == '_'

/-- Whether a name can go on with a character. -/
def continuesName (c : Char) : Bool := c.isAlphanum || c == '_'

/-- Splits a name off. -/
def name (cs : List Char) : String × List Char :=
  (String.ofList (cs.takeWhile continuesName), cs.dropWhile continuesName)

/-- The symbols of more than one character, the longer ones first. -/
def longSymbols : List String :=
  ["//=", "//", "|=", "+=", "-=", "*=", "/=", "%=", "==", "!=", "<=", ">=", ".."]

/-- The symbols of one character. -/
def shortSymbols : List Char :=
  ['|', ',', ':', ';', '(', ')', '[', ']', '\x7b', '\x7d', '+', '-', '*', '/', '%', '=', '<', '>',
   '.', '?']

/-- Splits a symbol off. -/
def symbol? (cs : List Char) : Option (String × List Char) :=
  match longSymbols.find? fun s => s.toList.isPrefixOf cs with
  | some s => some (s, cs.drop s.length)
  | none =>
    match cs with
    | c :: rest => if shortSymbols.contains c then some (c.toString, rest) else none
    | [] => none

/-- Splits an escape off, after its backslash. -/
def escape? (cs : List Char) : Option (Char × List Char) :=
  match cs with
  | 'u' :: rest => (Json.Draft.unicodeEscape rest).toOption
  | c :: rest => (Json.Draft.letterEscape? c).map (·, rest)
  | [] => none

/-- A number as a value. -/
def number? (cs : List Char) : Option (Token × List Char) :=
  match Json.Draft.number false cs with
  | .ok (.integer i, rest) => some (.number (.integer i), rest)
  | .ok (.float x, rest) => some (.number (.float x), rest)
  | _ => none

/-- Puts a token before what comes after it. -/
def before (t : Token) (rest : Option (List Token)) : Option (List Token) := rest.map (t :: ·)

mutual

/-- The tokens of a filter. `holes` holds, for every hole around the place, innermost first, the
    number of parentheses open in it. -/
def code : (fuel : Nat) → (holes : List Nat) → List Char → Option (List Token)
  | 0, _, _ => none
  | _ + 1, holes, [] => if holes.isEmpty then some [] else none
  | fuel + 1, holes, c :: cs =>
    if Text.isBlank c then code fuel holes cs
    else if c = '#' then code fuel holes (cs.dropWhile (· != '\n'))
    else if c = '"' then before .textOpen (text fuel holes [] cs)
    else if startsName c then
      let (s, rest) := name (c :: cs)
      before (.word s) (code fuel holes rest)
    else if c.isDigit then
      (number? (c :: cs)).bind fun (t, rest) => before t (code fuel holes rest)
    else if startsName (cs.headD ' ') && (c == '$' || c == '@' || c == '.') then
      let (s, rest) := name cs
      let token := if c = '$' then .dollar s else if c = '@' then .format s else .field s
      before token (code fuel holes rest)
    else
      match c, holes with
      | ')', 0 :: outer => before .holeClose (text fuel outer [] cs)
      | ')', (n + 1) :: outer => before (.symbol ")") (code fuel (n :: outer) cs)
      | '(', n :: outer => before (.symbol "(") (code fuel ((n + 1) :: outer) cs)
      | _, _ =>
        (symbol? (c :: cs)).bind fun (s, rest) => before (.symbol s) (code fuel holes rest)

/-- The tokens from inside a text on; `met` holds the characters since the last token, the last
    one first. -/
def text : (fuel : Nat) → (holes : List Nat) → (met : List Char) → List Char → Option (List Token)
  | 0, _, _, _ => none
  | _ + 1, _, _, [] => none
  | fuel + 1, holes, met, c :: cs =>
    let plain := textPlain (String.ofList met.reverse)
    if c = '"' then before plain (before .textClose (code fuel holes cs))
    else if c = '\\' then
      match cs with
      | '(' :: rest => before plain (before .holeOpen (code fuel (0 :: holes) rest))
      | _ => (escape? cs).bind fun (d, rest) => text fuel holes (d :: met) rest
    else text fuel holes (c :: met) cs

end

/-- The tokens of a filter, if it has any form at all. -/
def ofText (s : String) : Option (List Token) := code (s.length + 1) [] s.toList

end Token
end Filter
end Shapewright
