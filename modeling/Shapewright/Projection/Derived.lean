import Shapewright.Projection

/-!
# Projected types

The projected type of a type under a view has the fields of the view, in the view's order. Named
structures below it are replaced by their own projections: results under the view that a tag names,
otherwise under the default view. Aliases become the primitives they stand for, and unions stay as
they are. The identity of a projected type is known before its fields are, so cycles of types become
cycles of projected types.

## Building

A projected type is asked for by its type and its view. The first time it is asked for, its identity
is noted and its definition built, which asks for others; later it is only referred to. What was
asked for and what was built are kept apart, because a type that is asked for again while it is
being built is already known and not yet there. In the end all that was asked for is built, and the
types are added behind those they project.
-/

namespace Shapewright
namespace Projection

/-- The projected types of a request, behind the types that they project. -/
structure Derived where
  registry : Registry
  /-- The identities of the projected types, in the order in which they were asked for. -/
  ids : List (ViewedType × TypeId)

/-- Projected types while they are being built. -/
structure Progress where
  ids : List (ViewedType × TypeId) := []
  built : List (TypeId × UserType) := []

/-- A walk that builds projected types. -/
abbrev Deriving (α : Type) := StateT Progress Walk α

/-- The identity of the projected type. -/
def ViewedType.projectedId (k : ViewedType) : TypeId := k.type ++ "#" ++ k.view

/-- The name of the projected type of `t`. -/
def projectedName (t : UserType) (view : String) : String :=
  Identifier.exported t.name ++ "View" ++ viewSuffix view

/-- The projection of a reference to a named type, with `project` for the types themselves. A
    structure is projected as a type of its own, a primitive is put in place of its alias, and a
    union is kept. The rules behind an alias are taken over only where the attribute has none. -/
def projectUser (reg : Registry) (project : ViewedType → Deriving TypeId) (a : Attribute)
    (id : TypeId) (view : Option String) : Deriving Attribute := do
  match ← reg.kind a with
  | .object | .array | .map =>
    let t ← reg.get id
    let shown := if t.kind = .result then view.getD defaultView else defaultView
    return { a with type := .user (← project ⟨id, shown⟩) }
  | .primitive _ =>
    let resolved ← reg.resolve a
    return { a with
      type := resolved.type, rules := if a.rules.isEmpty then resolved.rules else a.rules }
  | .union => return a

mutual

/-- The projection of an attribute, whose value is shown under `view`. Collections hand the view on
    to their elements; the fields of an object in place have tags of their own. -/
def projectAttr (reg : Registry) (project : ViewedType → Deriving TypeId) (a : Attribute)
    (view : Option String) : Deriving Attribute :=
  match a with
  | ⟨.user id, description, rules, overrides, default⟩ =>
    projectUser reg project ⟨.user id, description, rules, { overrides with view := none }, default⟩
      id view
  | ⟨.array elem, description, rules, overrides, default⟩ => do
    let elem ← projectAttr reg project elem view
    return ⟨.array elem, description, rules, { overrides with view := none }, default⟩
  | ⟨.map key elem, description, rules, overrides, default⟩ => do
    let elem ← projectAttr reg project elem view
    return ⟨.map key elem, description, rules, { overrides with view := none }, default⟩
  | ⟨.object fields, description, rules, overrides, default⟩ => do
    let fields ← projectFields reg project fields
    return ⟨.object fields, description, rules, { overrides with view := none }, default⟩
  | ⟨.primitive p, description, rules, overrides, default⟩ =>
    return ⟨.primitive p, description, rules, { overrides with view := none }, default⟩
  | ⟨.union name values, description, rules, overrides, default⟩ =>
    return ⟨.union name values, description, rules, { overrides with view := none }, default⟩

/-- The projections of the fields of an object in place. They are shown under the tags that they
    declare, because an object in place has no views. -/
def projectFields (reg : Registry) (project : ViewedType → Deriving TypeId) :
    List (String × Attribute) → Deriving (List (String × Attribute))
  | [] => return []
  | (name, a) :: rest => do
    let projected ← projectAttr reg project a a.overrides.view
    return (name, projected) :: (← projectFields reg project rest)

end

/-- The fields of a view: each field once, where it is shown first. A tag in the view goes before
    one at the field. A field that is not declared is reported as an unknown view, with its name. -/
def projectShown (reg : Registry) (project : ViewedType → Deriving TypeId) (typeName view : String)
    (fields : List (String × Attribute)) :
    (shown : List (String × Attribute)) → List ViewAttribute → Deriving (List (String × Attribute))
  | shown, [] => return shown
  | shown, va :: rest => do
    match Ordered.get? fields va.field with
    | none => throw (.unknownView typeName (view ++ " (field " ++ va.field ++ ")"))
    | some a =>
      let projected ← projectAttr reg project a (va.view?.or a.overrides.view)
      projectShown reg project typeName view fields (Ordered.insert shown va.field projected) rest

/-- The projection of an object: the fields of the view, or all fields where there is no view.
    What is required stays required. -/
def projectObject (reg : Registry) (project : ViewedType → Deriving TypeId) (t : UserType)
    (view : String) : Deriving Attribute := do
  let resolved ← reg.resolve t.definition
  match resolved.type with
  | .object fields =>
    let members := match ← reg.view? t.id view with
      | some view => view.attributes
      | none => fields.map fun (name, _) => .name name
    let shown ← projectShown reg project t.name view fields [] members
    let required := (members.map (·.field)).filter resolved.requires
    return { type := .object shown, description := t.definition.description, rules := { required } }
  | _ => throw (.defect (.notObject t.id))

/-- The definition of a projected type. A collection passes its view on to its elements. -/
def projectDefinition (reg : Registry) (project : ViewedType → Deriving TypeId) (t : UserType)
    (view : String) : Deriving Attribute := do
  match ← reg.kind t.definition with
  | .object => projectObject reg project t view
  | .array | .map => projectAttr reg project t.definition (some view)
  | _ => throw (.defect (.unstructuredProjection t.id))

/-- The identity of the projected type of a type under a view. The type is built unless it was asked
    for before. At most `levels` types are built inside one another. -/
def projectWithin (reg : Registry) : (levels : Nat) → ViewedType → Deriving TypeId
  | levels, k => do
    match Ordered.get? (← get).ids k with
    | some id => return id
    | none =>
      match levels with
      | 0 => StateT.lift .exhausted
      | levels + 1 =>
        let t ← reg.get k.type
        let id := ViewedType.projectedId k
        modify fun s => { s with ids := Ordered.insert s.ids k id }
        let definition ← projectDefinition reg (projectWithin reg levels) t k.view
        let projected : UserType := { id, name := projectedName t k.view, definition }
        modify fun s => { s with built := Ordered.insert s.built id projected }
        return id

/-- More than the number of projected types there can be, where `requested` views are asked for. -/
def projectionBudget (reg : Registry) (requested : Nat) : Nat :=
  let tags := (reg.types.flatMap fun t => t.views.flatMap (·.attributes)).length
  reg.size * (requested + reg.positions + tags + 1) + 1

/-- The projected types of all views of a list. -/
def projectAll (reg : Registry) (id : TypeId) (views : List String) : Deriving Unit :=
  views.forM fun view => do
    let _ ← projectWithin reg (projectionBudget reg views.length) ⟨id, view⟩

/-- Adds the types that were built, in the order in which they were asked for. One that has the
    identity of a type of the registry takes its place. -/
def extend (built : List (TypeId × UserType)) :
    Registry → List TypeId → Except Fault Registry
  | reg, [] => .ok reg
  | reg, id :: rest =>
    match Ordered.get? built id with
    | none => .error (.defect (.unbuiltProjection id))
    | some t => extend built (reg.insert t) rest

/-- The projected types of a type under some views and of all types that they lead to. -/
def derive (reg : Registry) (id : TypeId) (views : List String) : Walk Derived := do
  let ((), progress) ← (projectAll reg id views).run {}
  return { registry := ← extend progress.built reg (progress.ids.map (·.2)), ids := progress.ids }

end Projection
end Shapewright
