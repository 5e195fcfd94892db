import Shapewright.Decimal.Layout
import Shapewright.Json.Value
import Shapewright.Text.Quoted

/-!
# Printing JSON

The compact form has no blanks at all. The spread form puts every item and member on a line of its
own, two blanks deeper than its container. Strings keep every character but the quote, the backslash
and the control characters below the blank.

Floats are written by the layout for JSON, so a number that is a float keeps its point and is one
again when it is read. JSON has no text for infinities and for what is no number, so `null` stands
for them; such a value is not read back as it was.
-/

namespace Shapewright
namespace Json

/-- How one character is written inside a JSON string. All that need not be escaped is written as it
    is, beyond ASCII too. -/
def escapeChar (c : Char) : List Char :=
  if c = '"' then ['\\', '"']
  else if c = '\\' then ['\\', '\\']
  else if c = '\n' then ['\\', 'n']
  else if c = '\r' then ['\\', 'r']
  else if c = '\t' then ['\\', 't']
  else if c.toNat == 0x08 then ['\\', 'b']
  else if c.toNat == 0x0C then ['\\', 'f']
  else if c.toNat < 0x20 then ['\\', 'u', '0', '0'] ++ Text.Quoted.hexPair c.toNat
  else [c]

/-- A JSON string, quotes included. -/
def quote (s : String) : String :=
  String.ofList ('"' :: s.toList.flatMap escapeChar ++ ['"'])

/-- A number that is not an integer; JSON has no text for infinities. -/
def floatText (x : Float) : String :=
  if x.isNaN || x.isInf then "null" else Decimal.jsonLayout.text x

namespace Value

mutual

/-- The text of a value without blanks. -/
def compact : Value → String
  | .null => "null"
  | .bool b => if b then "true" else "false"
  | .integer i => toString i
  | .float x => floatText x
  | .string s => quote s
  | .array items => "[" ++ ",".intercalate (compactItems items) ++ "]"
  | .object members => "\x7b" ++ ",".intercalate (compactMembers members) ++ "\x7d"

/-- The texts of the items of an array. -/
def compactItems : List Value → List String
  | [] => []
  | v :: rest => compact v :: compactItems rest

/-- The texts of the members of an object. -/
def compactMembers : List (String × Value) → List String
  | [] => []
  | (k, v) :: rest => (quote k ++ ":" ++ compact v) :: compactMembers rest

end

/-- The blanks before a line at some depth. -/
def margin (depth : Nat) : String := String.ofList (List.replicate (2 * depth) ' ')

/-- Lines of one container between its brackets; an empty container stays on one line. -/
def spreadBody (depth : Nat) (opening closing : String) (lines : List String) : String :=
  if lines.isEmpty then opening ++ closing
  else
    let pad := margin (depth + 1)
    opening ++ "\n" ++ ",\n".intercalate (lines.map (pad ++ ·)) ++ "\n" ++ margin depth ++ closing

mutual

/-- The text of a value over several lines, inside a container at `depth`. -/
def spread (depth : Nat) : Value → String
  | .array items => spreadBody depth "[" "]" (spreadItems (depth + 1) items)
  | .object members => spreadBody depth "\x7b" "\x7d" (spreadMembers (depth + 1) members)
  | .null => "null"
  | .bool b => if b then "true" else "false"
  | .integer i => toString i
  | .float x => floatText x
  | .string s => quote s

/-- The items of an array over several lines. -/
def spreadItems (depth : Nat) : List Value → List String
  | [] => []
  | v :: rest => spread depth v :: spreadItems depth rest

/-- The members of an object over several lines. -/
def spreadMembers (depth : Nat) : List (String × Value) → List String
  | [] => []
  | (k, v) :: rest => (quote k ++ ": " ++ spread depth v) :: spreadMembers depth rest

end

end Value
end Json
end Shapewright
