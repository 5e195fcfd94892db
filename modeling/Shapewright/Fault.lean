import Shapewright.Schema.Attribute

/-!
# Faults

Why a conversion, a validator or a projection cannot be built. Faults are causes; their wording is
in one place. A `Defect` is a broken promise between the parts of the library, not a mistake in a
design.

The difference decides what becomes of a conversion that is asked for. A fault that is no defect
belongs to the request that met it, and the other requests are carried out. A defect says that some
part of the library was used in a way that it is not made for, so nothing that comes after it can be
relied on. That accepted designs do not meet certain defects is proved for each kind of request.
-/

namespace Shapewright

/-- A broken promise between parts of the library. -/
inductive Defect where
  /-- A chain of references that never reaches a structure. -/
  | circularAlias (id : TypeId)
  /-- A type without a name where a helper has to be named after it. -/
  | namelessType
  | noAlternative (union : String) (index : Nat)
  | notArray
  | notMap
  | notUnion
  | notObjectSource
  | notObjectTarget
  | declaredPlace
  | helperClash (name : String)
  | validationClash (name : String)
  | unbuiltProjection (id : TypeId)
  | unstructuredProjection (id : TypeId)
  | notObject (id : TypeId)
  | namelessElement (id : TypeId)
  /-- A walk over types that does not end. -/
  | endless
deriving Repr, DecidableEq

namespace Defect

/-- The wording of a defect. Defects are promises of the library that were broken, not mistakes in a
    design. -/
def message : Defect → String
  | .circularAlias id => "user type `" ++ id ++ "` is an alias of itself"
  | .namelessType => "no helper name for anonymous type"
  | .noAlternative union index => "union " ++ union ++ " has no alternative " ++ toString index
  | .notArray => "array transform of a non-array attribute"
  | .notMap => "map transform of a non-map attribute"
  | .notUnion => "union transform of a non-union attribute"
  | .notObjectSource => "object transform of a non-object source"
  | .notObjectTarget => "object transform of a non-object target"
  | .declaredPlace => "declared union target must be a plain variable"
  | .helperClash name => "two different helpers named `" ++ name ++ "`"
  | .validationClash name => "two different validations named `" ++ name ++ "`"
  | .unbuiltProjection id => "projected type `" ++ id ++ "` was never built"
  | .unstructuredProjection id => "cannot project non-structured type `" ++ id ++ "`"
  | .notObject id => "`" ++ id ++ "` is not an object"
  | .namelessElement id => "collection `" ++ id ++ "` has no named element type"
  | .endless => "the types contain one another without end"

end Defect

/-- Why something cannot be built from the types of a design. -/
inductive Fault where
  | incompatible (sourcePath sourceKind targetPath targetKind : String)
  | arity (source : String) (sourceCount : Nat) (target : String) (targetCount : Nat)
  | unknownType (id : TypeId)
  | unknownView (typeName view : String)
  | defect (d : Defect)
deriving Repr, DecidableEq

namespace Fault

/-- The wording of a fault. Kinds are given by their names, and the two places by the expressions
    that stand for them in the code. -/
def message : Fault → String
  | .incompatible sp sk tp tk =>
    "cannot transform " ++ sp ++ " (" ++ sk ++ ") into " ++ tp ++ " (" ++ tk
      ++ "): incompatible types"
  | .arity s sc t tc =>
    "cannot transform union attribute " ++ s ++ " with " ++ toString sc
      ++ " types to union attribute " ++ t ++ " with " ++ toString tc ++ " types"
  | .unknownType id => "unknown type `" ++ id ++ "`"
  | .unknownView typeName view => "type `" ++ typeName ++ "` has no view named `" ++ view ++ "`"
  | .defect d => "internal error: " ++ d.message

/-- Whether the fault is a broken promise of the library. -/
def isDefect : Fault → Bool
  | .defect _ => true
  | _ => false

end Fault
end Shapewright
