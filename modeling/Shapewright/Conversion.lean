import Shapewright.Bounded
import Shapewright.Code.Printer
import Shapewright.Compatibility
import Shapewright.Design.Request
import Shapewright.Scope

/-!
# Conversions

A conversion turns a value of one attribute into a value of another. Its code is built for a *site*:
the expression that gives the value and the place that takes the result. Code is written in place,
except where both attributes name a type: there a helper is called, which is what keeps cyclic types
from being unfolded without end.

The families of emitters are in the modules below this one. They call back into the whole through an
argument of type `Emit`, the emitter for nested sites.

A site says all that an emitter may use: the two attributes, the two expressions, whether the place
is to be declared, and how many loops are around the code. An emitter does not see the code around
it. Names that must not clash with those of other code are therefore made from what the site says,
from its depth above all.
-/

namespace Shapewright

/-- What all code of one conversion has in common. -/
structure Conversion where
  scope : Scope
  /-- How values that are converted are represented. -/
  source : Context
  /-- How results are represented. -/
  target : Context
  /-- The first word of the names of helpers; there may be none. -/
  verb : String := "transform"
  /-- The side that may have boxes which the other side lacks. -/
  wire : Side := .target

/-- A position at which a value is converted. -/
structure Site where
  source : Attribute
  target : Attribute
  /-- The value that is converted. -/
  value : Expr
  /-- Where the result goes. -/
  place : Expr
  /-- Whether the place is a variable that the code has to declare. -/
  declare : Bool
  /-- The number of loops around the site. -/
  depth : Nat := 0
  /-- Whether the site is the inside of a box, where no further box is opened. -/
  inBox : Bool := false

/-- Builds the code of a site. -/
abbrev Emit := Site → Walk Block

/-- The generated name of the field of a box. -/
def boxFieldName : String := "Field"

namespace Site

/-- The texts of the value and the place, for messages. -/
def paths (s : Site) : Registry.Paths := ⟨s.value.print, s.place.print⟩

/-- The site of a conversion from one variable into another. All that is asked for begins at such a
    site, for the request itself and for each helper. -/
def between (source target : Attribute) (value place : String) (declare : Bool := true)
    (depth : Nat := 0) (inBox : Bool := false) : Site where
  source
  target
  value := .ident value
  place := .ident place
  declare
  depth
  inBox

/-- Stores a value as the result. -/
def store (s : Site) (result : Expr) : Stmt := .assign s.place result s.declare

end Site

namespace Expr

/-- A new value of a type: behind a pointer type, the address of one. -/
def allocate (type : TypeRef) (fields : List (String × Expr)) : Expr :=
  match type with
  | .pointer inner => .composite inner fields true
  | type => .composite type fields false

end Expr

namespace Conversion

/-- The types that the attributes of a conversion refer to. -/
def registry (c : Conversion) : Registry := c.scope.registry

/-- The type of values. -/
def sourceRef (c : Conversion) (a : Attribute) : Except Fault TypeRef := c.scope.typeRef c.source a

/-- The type of results. -/
def targetRef (c : Conversion) (a : Attribute) : Except Fault TypeRef := c.scope.typeRef c.target a

/-- Fails unless the attributes of a site are compatible. -/
def compatible (c : Conversion) (s : Site) : Walk Unit :=
  c.registry.compatible s.source s.target s.paths

/-- The verb as it stands in names. -/
def verbName (c : Conversion) : String :=
  if c.verb.isEmpty then "" else Identifier.exported c.verb

/-- The name of the helper for two named attributes: verb, source, `To` and target, where the names
    carry the packages of their contexts. The parts are joined without a mark between them. -/
def helperName (c : Conversion) (source target : Attribute) : Except Fault String := do
  let s ← c.scope.qualifiedName c.source source
  let t ← c.scope.qualifiedName c.target target
  return Identifier.lowerCamel (c.verbName ++ s ++ "To" ++ t)

/-- Whether a nested conversion calls a helper: both attributes name a type, the source is
    structured, and no box stands between them. A named primitive is converted in place. -/
def callsHelper (c : Conversion) (source target : Attribute) : Walk Bool := do
  if source.userId?.isNone || target.userId?.isNone then pure false
  else if ← c.registry.isPrimitive source then pure false
  else c.registry.isCompatible source target

/-- The code of a nested site: a call of a helper, or code in place. The call is an expression, so
    it is stored like any other. Whether there is a helper depends on the two attributes alone. -/
def nested (c : Conversion) (emit : Emit) (s : Site) : Walk Block := do
  if ← c.callsHelper s.source s.target then
    let name ← c.helperName s.source s.target
    pure [s.store (.call name [s.value])]
  else emit s

end Conversion
end Shapewright
