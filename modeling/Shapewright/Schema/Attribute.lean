import Shapewright.Identifier
import Shapewright.Ordered
import Shapewright.Schema.Literal

/-!
# Attributes

An attribute is a data type together with what a design declares about it: the rules its values
obey, overrides of naming and representation, and a default. `DataType` is one layer of structure
over whatever stands at the nested positions; an `Attribute` ties the knot. Named types are referred
to by their identity, so a cyclic graph of types needs no cyclic data.

Since attributes are finite trees, functions on them are structural: they go on to the fields, the
elements and the alternatives, and stop at references. What stands behind a reference is known to
the registry only, and functions that follow references take one.
-/

namespace Shapewright

/-- The stable identity of a named type. -/
abbrev TypeId := String

/-- One layer of a type, with `α` at the positions below it. -/
inductive DataType (α : Type) where
  | primitive (p : Primitive)
  | array (elem : α)
  | map (key elem : α)
  /-- Fields in the order of their declaration. -/
  | object (fields : List (String × α))
  /-- Alternatives correspond by position. -/
  | union (name : String) (alternatives : List (String × α))
  /-- A reference to a named type. -/
  | user (id : TypeId)
deriving Inhabited

/-- What a design demands of the values of an attribute. -/
structure Rules where
  required : List String := []
  enum : List Literal := []
  format : Option Format := none
  pattern : Option String := none
  minLength : Option Nat := none
  maxLength : Option Nat := none
  minimum : Option Float := none
  maximum : Option Float := none
deriving Inhabited

namespace Rules

/-- Whether nothing is demanded. -/
def isEmpty (r : Rules) : Bool :=
  r.required.isEmpty && r.enum.isEmpty && r.format.isNone && r.pattern.isNone && r.minLength.isNone
    && r.maxLength.isNone && r.minimum.isNone && r.maximum.isNone

theorem eq_of_isEmpty {r : Rules} (h : r.isEmpty) : r = {} := by
  obtain ⟨_, _, _, _, _, _, _, _⟩ := r
  simp_all [isEmpty]

/-- Whether a rule speaks of the value itself, which all rules but `required` do. -/
def hasValueRules (r : Rules) : Bool := !{ r with required := [] }.isEmpty

end Rules

/-- Overrides of naming and representation. -/
structure Overrides where
  /-- The name of the generated field. -/
  fieldName : Option String := none
  /-- Forces, or forbids, a pointer for a primitive field. -/
  pointer : Option Bool := none
  /-- A named type that stands for a primitive. -/
  typeName : Option String := none
  /-- The view under which a field of a result type is shown. -/
  view : Option String := none
deriving Inhabited, DecidableEq

namespace Overrides

/-- Whether nothing is overridden. -/
def isEmpty (o : Overrides) : Bool :=
  o.fieldName.isNone && o.pointer.isNone && o.typeName.isNone && o.view.isNone

theorem eq_of_isEmpty {o : Overrides} (h : o.isEmpty) : o = {} := by
  obtain ⟨_, _, _, _⟩ := o
  simp_all [isEmpty]

end Overrides

structure Attribute where
  type : DataType Attribute
  description : Option String := none
  rules : Rules := {}
  overrides : Overrides := {}
  default : Option Literal := none
deriving Inhabited

namespace Attribute

/-- A reference to a named type, with nothing else declared. -/
def user (id : TypeId) : Attribute := { type := .user id }

/-- The identity of the named type that the attribute refers to. -/
def userId? (a : Attribute) : Option TypeId :=
  match a.type with
  | .user id => some id
  | _ => none

/-- Whether the attribute requires the field `name`. -/
def requires (a : Attribute) (name : String) : Bool := a.rules.required.contains name

/-- The generated name of the field that holds the attribute and is called `name` in the design. -/
def fieldName (a : Attribute) (name : String) : String :=
  a.overrides.fieldName.getD (Identifier.exported name)

mutual

/-- The number of positions in the attribute, itself included. References count as one. It bounds
    every recursion on attributes that does not follow references. -/
def size (a : Attribute) : Nat :=
  match a with
  | { type := .primitive _, .. } => 1
  | { type := .array elem, .. } => elem.size + 1
  | { type := .map key elem, .. } => key.size + elem.size + 1
  | { type := .object fields, .. } => sizeAll fields + 1
  | { type := .union _ alternatives, .. } => sizeAll alternatives + 1
  | { type := .user _, .. } => 1

/-- The number of positions below the fields of an object or the alternatives of a union. -/
def sizeAll : List (String × Attribute) → Nat
  | [] => 0
  | (_, a) :: rest => a.size + sizeAll rest

end

end Attribute
end Shapewright
