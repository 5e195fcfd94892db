/-!
# Lines

A line ends with a line feed, which takes a carriage return before it along. Nothing after the last
line feed is no line.

Documents with one value on each line are cut this way, and the number of a line is shown in
messages. So empty lines are lines: they are passed over by those who read them, after they have
been counted.
-/

namespace Shapewright
namespace Text

/-- The texts between line feeds; the last one is what follows the last line feed. -/
def splitLines (cs : List Char) : List (List Char) :=
  cs.foldr
    (fun c ls => if c = '\n' then [] :: ls else (c :: ls.headD []) :: ls.tail)
    [[]]

/-- A line without the carriage return at its end. -/
def dropReturn (line : List Char) : List Char :=
  if line.getLast? = some '\r' then line.dropLast else line

/-- The lines of a text. The text after the last line feed keeps its carriage return. -/
def lineChars (cs : List Char) : List (List Char) :=
  match (splitLines cs).reverse with
  | [] => []
  | last :: ended =>
    let ended := ended.reverse.map dropReturn
    if last.isEmpty then ended else ended ++ [last]

/-- The lines of a text. -/
def lines (s : String) : List String := (lineChars s.toList).map String.ofList

end Text
end Shapewright
