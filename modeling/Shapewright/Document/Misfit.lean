import Shapewright.Json.Draft
import Shapewright.Json.Printer
import Shapewright.Text.Debug

/-!
# Misfits

Why a JSON document is no design document, and where. The place of a misfit is the innermost part of
the document that was being read.

Places are kept as lists of steps, innermost first, since a reader goes inwards and only puts a step
in front. They are turned into text at the very end, where a key is shown as it is. A key with a
point in it then looks like two steps, so the text of a place is for readers, and what is said of
places is said of the steps.
-/

namespace Shapewright

/-- One step into a document. -/
inductive Step where
  | item (index : Nat)
  | member (key : String)
  /-- A member whose key could not be read. -/
  | unreadable
deriving Repr, DecidableEq

/-- A place in a document: the steps that lead there, innermost first. -/
abbrev Place := List Step

namespace Place

/-- The text of a step; `first` where nothing stands before it. -/
def stepText (first : Bool) : Step → String
  | .item index => "[" ++ toString index ++ "]"
  | .member key => if first then key else "." ++ key
  | .unreadable => if first then "?" else ".?"

/-- The text of a place: a point for the whole document, otherwise its steps. -/
def text (p : Place) : String :=
  match p.reverse with
  | [] => "."
  | step :: steps => stepText true step ++ String.join (steps.map (stepText false))

end Place

/-- What was found where something else was expected. -/
inductive Found where
  | null
  | bool (b : Bool)
  | integer (i : Int)
  | float (x : Float)
  | string (s : String)
  | sequence
  | map

namespace Found

/-- The text for what was found. Scalars are shown with their value, containers are not. -/
def text : Found → String
  | .null => "null"
  | .bool b => "boolean `" ++ (if b then "true" else "false") ++ "`"
  | .integer i => "integer `" ++ toString i ++ "`"
  | .float x => "floating point `" ++ Json.floatText x ++ "`"
  | .string s => "string " ++ Text.Debug.quote s
  | .sequence => "sequence"
  | .map => "map"

end Found

/-- What is wrong at a place of a document. -/
inductive Misfit.Cause where
  | malformed (fault : Json.SyntaxFault)
  | wrongType (found : Found) (expected : String)
  | wrongValue (found : Found) (expected : String)
  | wrongLength (length : Nat) (expected : String)
  | missing (field : String)
  | duplicate (field : String)
  | unknownField (field : String) (known : List String)
  | unknownVariant (variant : String) (known : List String)
  /-- No way of reading the data fits any variant of a type. -/
  | noVariant (type : String)

structure Misfit where
  place : Place
  cause : Misfit.Cause

namespace Misfit

/-- The names that were expected. Two are joined by a word, and more are listed. -/
def oneOf (names : List String) : String :=
  let quoted := names.map fun name => "`" ++ name ++ "`"
  match quoted with
  | [one] => one
  | [one, other] => one ++ " or " ++ other
  | _ => "one of " ++ ", ".intercalate quoted

/-- The message of a cause, without its place. Data are named by their type and value, fields and
    variants by their names. -/
def Cause.message : Cause → String
  | .malformed fault => fault.message
  | .wrongType found expected => "invalid type: " ++ found.text ++ ", expected " ++ expected
  | .wrongValue found expected => "invalid value: " ++ found.text ++ ", expected " ++ expected
  | .wrongLength length expected =>
    "invalid length " ++ toString length ++ ", expected " ++ expected
  | .missing field => "missing field `" ++ field ++ "`"
  | .duplicate field => "duplicate field `" ++ field ++ "`"
  | .unknownField field known => "unknown field `" ++ field ++ "`, expected " ++ oneOf known
  | .unknownVariant variant known =>
    "unknown variant `" ++ variant ++ "`, expected " ++ oneOf known
  | .noVariant type => "data did not match any variant of untagged enum " ++ type

/-- The message of a misfit: where it is, and what is wrong there. -/
def message (m : Misfit) : String :=
  "invalid design at JSON path " ++ m.place.text ++ " → " ++ m.cause.message

end Misfit
end Shapewright
