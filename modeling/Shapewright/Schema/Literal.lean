import Shapewright.Schema.Primitive

/-!
# Literals

The values that defaults and enumerations are made of. Integers range over the signed and the
unsigned 64-bit integers together.

Literals are compared as values and not as texts. For floats that means two exceptions from the
comparison that they come with: a float that is not a number equals itself here, so that a design
equals itself, and zero has no sign. Whether a literal can be a value of a kind depends on what it
is and not on how large it is.
-/

namespace Shapewright

inductive Literal where
  | bool (b : Bool)
  | integer (i : Int)
  | float (x : Float)
  | string (s : String)
  | array (items : List Literal)
deriving Inhabited

namespace Literal

/-- Whether two floats are the same value. The sign of a zero does not count, and no float that is
    not a number differs from another. -/
def sameFloat (x y : Float) : Bool := x == y || x.isNaN && y.isNaN

mutual

/-- Whether two literals are the same value. Numbers are the same only within one variant, so an
    integer is no float. -/
def beq : Literal → Literal → Bool
  | .bool a, .bool b => a == b
  | .integer i, .integer j => i == j
  | .float x, .float y => sameFloat x y
  | .string s, .string t => s == t
  | .array items, .array items' => beqAll items items'
  | _, _ => false

def beqAll : List Literal → List Literal → Bool
  | [], [] => true
  | l :: rest, m :: rest' => l.beq m && beqAll rest rest'
  | _, _ => false

end

instance : BEq Literal := ⟨beq⟩

/-- Whether the literal can be the value of a primitive kind. An unsigned kind takes no negative
    integer; the width of a kind is not looked at. -/
def fits : Literal → Primitive → Bool
  | _, .any => true
  | .bool _, .boolean => true
  | .integer i, p => if p.isInteger then !p.isUnsigned || 0 ≤ i else p.isFloat
  | .float _, p => p.isFloat
  | .string _, .string => true
  | .string _, .bytes => true
  | _, _ => false

end Literal
end Shapewright
