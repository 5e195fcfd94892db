import Shapewright.Conversion

/-!
# Converting primitives

Two primitives may be represented differently: by named types, by overrides of a type's name, or by
the widths that an encoding prescribes. Then the value goes through a type conversion.

Representations are compared as types in code, so it does not matter for which of these reasons they
differ. Kinds are not looked at here: primitives of different kinds do not fit, and a site whose
attributes do not fit has no code.
-/

namespace Shapewright
namespace Conversion

/-- The value as a result, if it cannot be stored as it is. A value behind a pointer is read first.
    A target of the kind `any` takes every value as it is. -/
def converted? (c : Conversion) (source target : Attribute) (isPointer : Bool) (value : Expr) :
    Except Fault (Option Expr) := do
  let s ← c.sourceRef source
  let t ← c.targetRef target
  if s == t || t == .primitive .any then return none
  return some (.convert t (if isPointer then value.deref else value))

/-- The code of a site with primitives on both sides: one store, of the converted value or of the
    value itself. -/
def primitive (c : Conversion) (s : Site) : Walk Block := do
  let result ← c.converted? s.source s.target false s.value
  pure [s.store (result.getD s.value)]

end Conversion
end Shapewright
