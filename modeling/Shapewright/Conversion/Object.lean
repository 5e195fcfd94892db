import Shapewright.Conversion.Collection
import Shapewright.Conversion.Primitive
import Shapewright.Matching

/-!
# Converting objects

The code allocates the target with those primitive fields that need no look at the value, and stores
the others afterwards. Only fields that both objects declare are converted. A field that may be
absent is stored behind a check for nil, and a default of the target stands in for it where the
target's context says so.

## What decides about a field

Whether a field is a pointer is asked once for each side, and so is whether it is required and
whether it has a default. All code for the field is a function of these answers (`FieldSite`). A
primitive that is a value on both sides can stand in the literal. One that is a pointer on the
source side has to be checked, unless it is required there, and one that is converted to a pointer
needs a variable whose address can be taken.

## The order of the code

Primitive fields come first, in the literal and behind it, and then structured fields and defaults
in the order of the fields. A default is put in after the value. That the value is absent is seen
from the value, where it can be nil, and otherwise from a place that still holds the zero value.
-/

namespace Shapewright

/-- What the code of a field depends on. -/
structure FieldSite where
  name : String
  source : Attribute
  target : Attribute
  /-- The field of the value. -/
  value : Expr
  /-- The field of the result. -/
  place : Expr
  /-- The generated name of the field of the result. -/
  placeName : String
  /-- Whether the source requires the field. -/
  required : Bool
  sourcePrimitive : Bool
  targetPrimitive : Bool
  sourcePointer : Bool
  targetPointer : Bool

namespace FieldSite

/-- Whether both sides of the field are primitives. -/
def isPrimitive (f : FieldSite) : Bool := f.sourcePrimitive && f.targetPrimitive

/-- The site of the field inside `depth` loops. A primitive behind a pointer is read first. What is
    read is then a value like any other, so the emitters below know nothing of pointers. -/
def site (f : FieldSite) (depth : Nat) : Site where
  source := f.source
  target := f.target
  value := if f.sourcePrimitive && f.sourcePointer then f.value.deref else f.value
  place := f.place
  declare := false
  depth

/-- Runs code only where the field of the value is there. It is for fields of the value that can be
    nil. -/
def ifPresent (f : FieldSite) (body : Block) : Stmt := .when f.value.notNil body

end FieldSite

/-- Where code for the fields of an object goes: into the literal that allocates the object, and
    behind it. -/
structure ObjectCode where
  literal : List (String × Expr) := []
  after : Block := []

namespace ObjectCode

/-- Code for fields, and behind it code for others. -/
def append (a b : ObjectCode) : ObjectCode := ⟨a.literal ++ b.literal, a.after ++ b.after⟩

end ObjectCode

namespace Conversion

/-- The site of a field that both objects declare. Primitive fields are compared at once, others
    when their code is built, so of two misfits that of a primitive field is reported. -/
def fieldSite (c : Conversion) (s : Site) (source target : ObjectView) (m : FieldMatch) :
    Walk FieldSite := do
  let reg := c.registry
  let required := source.requires m.name
  let placeName := target.fieldName m.name
  let value := s.value.field (source.fieldName m.name)
  let place := s.place.field placeName
  let sourcePrimitive ← reg.isPrimitive m.source
  let targetPrimitive ← reg.isPrimitive m.target
  if sourcePrimitive && targetPrimitive then
    reg.compatible m.source m.target ⟨value.print, place.print⟩
  let sourcePointer ← c.source.holdsPointer reg m.source required
  let targetPointer ← c.target.holdsPointer reg m.target (target.requires m.name)
  pure { name := m.name, source := m.source, target := m.target, value, place, placeName, required,
         sourcePrimitive, targetPrimitive, sourcePointer, targetPointer }

/-! ## Primitive fields -/

/-- A variable for the converted value of a field, apart from those in `taken`. One more
    candidate is tried than names are taken. -/
def temporary (field : String) (taken : List String) : String :=
  let name := Identifier.unexported field
  let candidates := (List.range (taken.length + 1)).map fun k =>
    name ++ String.join (List.replicate k "Tmp")
  (candidates.find? fun n => !taken.contains n).getD name

/-- Stores a converted value behind the literal. A converted value has no address: for a pointer it
    goes through a variable. -/
def storeConverted (f : FieldSite) (taken : List String) (result : Expr) : Block :=
  if f.targetPointer then
    let held := Expr.ident (temporary f.name taken)
    [.assign held result true, .set f.place held.addr]
  else [.set f.place result]

/-- The code of a field with primitives on both sides, given the converted value if there is
    one. -/
def primitiveFieldCode (f : FieldSite) (taken : List String) : Option Expr → ObjectCode
  | some result =>
    if !f.targetPointer && (f.required || !f.sourcePointer) then
      { literal := [(f.placeName, result)] }
    else
      let store := storeConverted f taken result
      { after := if f.sourcePointer && !f.required then [f.ifPresent store] else store }
  | none =>
    if f.sourcePointer && !f.targetPointer then
      if f.required then { literal := [(f.placeName, f.value.deref)] }
      else { after := [f.ifPresent [.set f.place f.value.deref]] }
    else if !f.sourcePointer && f.targetPointer then { literal := [(f.placeName, f.value.addr)] }
    else { literal := [(f.placeName, f.value)] }

/-- The code of the primitive fields. Part of it goes into the literal of the object and the rest
    behind it, so the two are kept apart. -/
def primitiveFields (c : Conversion) (taken : List String) :
    List FieldSite → Except Fault ObjectCode
  | [] => .ok {}
  | f :: rest => do
    let result ← c.converted? f.source f.target f.sourcePointer f.value
    let code := primitiveFieldCode f taken result
    return code.append (← c.primitiveFields taken rest)

/-! ## Other fields and defaults -/

/-- The code of a field that is structured, or a primitive that is boxed on one side. -/
def structuredField (c : Conversion) (emit : Emit) (depth : Nat) (f : FieldSite) : Walk Block := do
  let code ← c.nested emit (f.site depth)
  if code.isEmpty || (f.sourcePrimitive && !f.sourcePointer) then pure code
  else pure [f.ifPresent code]

/-- Puts the target's default into a field whose value is absent: nil where the value can be nil,
    otherwise the zero value. The default of a boxed field is inside the box. -/
def defaultField (c : Conversion) (f : FieldSite) (default : Literal) : Except Fault Block := do
  let ctx := c.target
  if !ctx.useDefault || ctx.pointerForRequired || f.required
      || f.sourcePrimitive != f.targetPrimitive then return []
  let isReference := (← c.registry.primitive? f.source).any (·.isReference)
  let type ← c.targetRef f.target
  let value := Expr.lit default type
  if f.sourcePointer || !f.sourcePrimitive || isReference then
    let body : Block :=
      if f.targetPointer && f.targetPrimitive then
        [.declare "tmp" type (some value), .set f.place (Expr.ident "tmp").addr]
      else [.set f.place value]
    return [.when f.value.isNil body]
  else if f.targetPointer then return []
  else
    return [.block [.declare "zero" type none,
      .when (.binary .eq f.place (.ident "zero")) [.set f.place value]]]

/-- The code that converts the value of a field behind the allocation. Primitives were converted
    before. -/
def laterValue (c : Conversion) (emit : Emit) (depth : Nat) (f : FieldSite) : Walk Block :=
  if f.isPrimitive then pure [] else c.structuredField emit depth f

/-- The code for the default of a field, if its target has one. -/
def laterDefault (c : Conversion) (f : FieldSite) : Except Fault Block :=
  match f.target.default with
  | some value => c.defaultField f value
  | none => .ok []

/-- The code that follows the allocation, field by field: structured values and defaults. A default
    comes right behind the value of its field, as it is for the case that there was none. -/
def laterFields (c : Conversion) (emit : Emit) (depth : Nat) : List FieldSite → Walk Block
  | [] => pure []
  | f :: rest => do
    let code ← c.laterValue emit depth f
    let default ← c.laterDefault f
    pure (code ++ default ++ (← c.laterFields emit depth rest))

/-- The code of a site with objects on both sides: the allocation with its literal, the primitive
    fields that are stored behind it, and then the structured fields and the defaults. -/
def object (c : Conversion) (emit : Emit) (s : Site) : Walk Block := do
  match ← ObjectView.of? c.registry s.source with
  | none => .defect .notObjectSource
  | some source =>
    match ← ObjectView.of? c.registry s.target with
    | none => .defect .notObjectTarget
    | some target =>
      let fields ← (matchFields source target).mapM (c.fieldSite s source target)
      let taken := loopScope s.depth ++ s.value.root?.toList ++ s.place.root?.toList
      let code ← c.primitiveFields taken (fields.filter (·.isPrimitive))
      let type ← c.targetRef s.target
      let later ← c.laterFields emit s.depth fields
      pure (s.store (.allocate type code.literal) :: (code.after ++ later))

end Conversion
end Shapewright
