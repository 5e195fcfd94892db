import Shapewright.Ordered

/-!
# JSON values

Integers are kept apart from floating-point numbers, and an object is the list of its members in the
order of first arrival.

Which of the two a number is depends on how it is written more than on its value: with a point or an
exponent it is a float, even if it is integral, and without them it is an integer unless 64 bits do
not hold it. Readers of documents treat the two differently, so the difference has to be kept.
-/

namespace Shapewright
namespace Json

/-- A value. Nothing keeps an object from having a key twice, but no value that is read from a text
    has. -/
inductive Value where
  | null
  | bool (b : Bool)
  | integer (i : Int)
  | float (x : Float)
  | string (s : String)
  | array (items : List Value)
  | object (members : List (String × Value))
deriving Inhabited

namespace Value

/-- The member of an object, if there is one. -/
def get? (v : Value) (key : String) : Option Value :=
  match v with
  | .object members => Ordered.get? members key
  | _ => none

end Value
end Json
end Shapewright
