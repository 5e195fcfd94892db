import Shapewright.Schema.Registry

/-!
# Matching fields

Two objects correspond in the fields that both declare under the same name. An object is seen
through the references that lead to it.

A field has two names: the one in the design, by which fields correspond, and the one in code, which
each side generates for itself. What is required belongs to the object and not to the field, so an
object is kept together with the attribute that declares it (`ObjectView`).
-/

namespace Shapewright

/-- An object behind an attribute, with what its declaration requires. -/
structure ObjectView where
  /-- The attribute that declares the object. -/
  declared : Attribute
  fields : List (String × Attribute)

namespace ObjectView

/-- The object behind an attribute, if it is one. References are followed, and the rules that come
    with the fields are those at their end. -/
def of? (reg : Registry) (a : Attribute) : Except Fault (Option ObjectView) := do
  let r ← reg.resolve a
  match r.type with
  | .object fields => .ok (some ⟨r, fields⟩)
  | _ => .ok none

/-- The field of a name, if the object declares one. -/
def field? (v : ObjectView) (name : String) : Option Attribute := Ordered.get? v.fields name

/-- Whether the object requires the field of a name. -/
def requires (v : ObjectView) (name : String) : Bool := v.declared.requires name

/-- The default of a field, if it has one. -/
def default? (v : ObjectView) (name : String) : Option Literal :=
  (v.field? name).bind (·.default)

/-- The generated name of a field. -/
def fieldName (v : ObjectView) (name : String) : String :=
  ((v.field? name).getD v.declared).fieldName name

end ObjectView

/-- A field that two objects share. -/
structure FieldMatch where
  name : String
  source : Attribute
  target : Attribute

/-- The fields that both objects declare, in the order of the first. A field that one of them lacks
    is left out without a fault. -/
def matchFields (source target : ObjectView) : List FieldMatch :=
  source.fields.filterMap fun (name, s) => (target.field? name).map fun t => ⟨name, s, t⟩

end Shapewright
