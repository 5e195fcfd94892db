import Shapewright.Context
import Shapewright.Schema.UserType

/-!
# Design documents

What a design document holds: types, named contexts, and requests for code.

Everything in a document has a default except for what identifies it, so a document can be as short
as its types. References are by the identities of types and by the names of contexts; nothing here
says that they lead anywhere. A document is what was written down, and it becomes a design only when
it is checked.
-/

namespace Shapewright

/-- The side of a conversion that is a wire representation. Only that side may have boxes that the
    other side lacks. -/
inductive Side where
  | source
  | target
deriving Repr, DecidableEq, Inhabited

namespace Side

/-- The name of a side. -/
def name : Side → String
  | .source => "source"
  | .target => "target"

end Side

/-- How generated validators report. -/
structure Reporting where
  /-- The package with the functions that make and merge errors. -/
  runtime : String := "goa"
  /-- The name of the validated argument, which is also the root of error paths. -/
  arg : String := "result"
deriving Repr, DecidableEq, Inhabited

/-- A function that converts one named type into another. -/
structure ConversionRequest where
  /-- The name of the function, made from the types if absent. -/
  name : Option String := none
  source : TypeId
  target : TypeId
  sourceContext : String := "service"
  targetContext : String := "service"
  /-- The first word of the names of helpers. -/
  verb : String := "transform"
  wire : Side := .target
deriving Repr, DecidableEq, Inhabited

/-- The views of a result type. -/
structure ProjectionRequest where
  type : TypeId
  /-- The context of the full type. -/
  context : String := "service"
  package : String := "views"
deriving Repr, DecidableEq, Inhabited

/-- The validators of a type. -/
structure ValidationRequest where
  type : TypeId
  view : Option String := none
  context : String := "service"
deriving Repr, DecidableEq, Inhabited

/-- A document, with its contexts by their names. -/
structure Document where
  types : List UserType := []
  contexts : List (String × Context) := []
  conversions : List ConversionRequest := []
  projections : List ProjectionRequest := []
  validations : List ValidationRequest := []
  reporting : Reporting := {}
deriving Inhabited

end Shapewright
