import Shapewright.Context

/-!
# Scopes

A scope is a registry together with a Go identifier for each of its types. Identifiers are given in
the order of the registry; a type whose natural identifier is taken gets the first free one with a
number behind it, counted from two.

A scope also says what type in code an attribute has, and this depends on the context: on its
package for named types and on its encoding for primitives. Objects are behind pointers everywhere.
Whether a primitive is cannot be said of the attribute alone, so fields have a function of their own
(`fieldType`).
-/

namespace Shapewright

/-- The identifier for a new type, where `used` are taken. One more numbered candidate is tried
    than identifiers are taken, so one of them is free. -/
def freshIdentifier (used : List String) (base : String) : String :=
  if used.contains base then
    let numbered := (List.range (used.length + 1)).map fun k => base ++ toString (k + 2)
    (numbered.find? fun name => !used.contains name).getD base
  else base

/-- The identifiers of some types, after those that are taken. A type that comes later gives way to
    those before it, so adding types changes no names. -/
def identifiers (used : List String) : List UserType → List (TypeId × String)
  | [] => []
  | t :: rest =>
    let name := freshIdentifier used (Identifier.exported t.name)
    (t.id, name) :: identifiers (name :: used) rest

structure Scope where
  registry : Registry
  names : List (TypeId × String)

namespace Scope

/-- The scope of a registry. -/
def ofRegistry (registry : Registry) : Scope := ⟨registry, identifiers [] registry.types⟩

/-- The identifier of a type. -/
def name (s : Scope) (id : TypeId) : Except Fault String :=
  match Ordered.get? s.names id with
  | some name => .ok name
  | none => .error (.unknownType id)

/-- The type of a primitive: a named type where one is given and the encoding has any. -/
def primitiveRef (ctx : Context) (a : Attribute) (p : Primitive) : TypeRef :=
  match a.overrides.typeName, ctx.encoding with
  | some name, .native => .named none name
  | _, _ => .primitive (ctx.encoding.primitive p)

/-- The type of a reference to a named type. An object is a pointer to it. The wire format has no
    aliases, so one of a primitive is that primitive there. -/
def userRef (s : Scope) (ctx : Context) (a : Attribute) (id : TypeId) : Except Fault TypeRef := do
  let name := ctx.qualify (← s.name id)
  match ← s.registry.kind a with
  | .primitive p =>
    if ctx.encoding = .protobuf then .ok (.primitive (ctx.encoding.primitive p)) else .ok name
  | .object => .ok (.pointer name)
  | _ => .ok name

mutual

/-- The type of a value of an attribute. Objects are held behind pointers. Whether a primitive is,
    is up to the field that holds it. -/
def typeRef (s : Scope) (ctx : Context) (a : Attribute) : Except Fault TypeRef :=
  match a with
  | { type := .primitive p, overrides, .. } =>
    .ok (primitiveRef ctx { type := .primitive p, overrides } p)
  | { type := .user id, .. } => s.userRef ctx (.user id) id
  | { type := .array elem, .. } => do
    .ok (.slice (← s.typeRef ctx elem))
  | { type := .map key elem, .. } => do
    let k ← s.typeRef ctx key
    let e ← s.typeRef ctx elem
    .ok (.map k e)
  | { type := .object fields, rules, .. } => do
    .ok (.pointer (.struct (← s.structFields ctx rules.required fields)))
  | { type := .union name _, .. } => .ok (ctx.qualify (Identifier.exported name))

/-- The fields of a struct that holds an object in place. A primitive field is a pointer where its
    absence has to be told from a zero value, and a description becomes its comment. -/
def structFields (s : Scope) (ctx : Context) (required : List String) :
    List (String × Attribute) → Except Fault (List (StructField TypeRef))
  | [] => .ok []
  | (name, a) :: rest => do
    let type ← s.typeRef ctx a
    let pointer ← ctx.holdsPointer s.registry a (required.contains name)
    let field : StructField TypeRef :=
      { name := a.fieldName name, type := if pointer then .pointer type else type,
        doc := a.description }
    .ok (field :: (← s.structFields ctx required rest))

end

/-- The type of a field that holds an attribute. An absent value is nil, so what has to be told from
    absent is held by a pointer. -/
def fieldType (s : Scope) (ctx : Context) (a : Attribute) (required : Bool) :
    Except Fault TypeRef := do
  let type ← s.typeRef ctx a
  let pointer ← ctx.holdsPointer s.registry a required
  .ok (if pointer then .pointer type else type)

/-- The name of a type in the names of helpers, with the context's package in front. Unions have a
    name too. Anything else without a name of its own has none. -/
def qualifiedName (s : Scope) (ctx : Context) (a : Attribute) : Except Fault String := do
  let name ← match a.type with
    | .user id => s.name id
    | .union name _ => .ok (Identifier.exported name)
    | _ => .error (.defect .namelessType)
  if ctx.package.isEmpty then .ok name else .ok (Identifier.exported ctx.package ++ name)

/-- Whether an attribute is a reference to a named object. -/
def isNamedObject (s : Scope) (a : Attribute) : Except Fault Bool := do
  match a.userId? with
  | none => .ok false
  | some _ => .ok ((← s.registry.kind a) = .object)

/-- The concrete type of one alternative of a union: named objects stand for themselves, and every
    other alternative has a named wrapper. -/
def alternativeRef (s : Scope) (ctx : Context) (union : String)
    (alternatives : List (String × Attribute)) (index : Nat) : Except Fault TypeRef := do
  match alternatives[index]? with
  | none => .error (.defect (.noAlternative union index))
  | some (name, a) =>
    if ← s.isNamedObject a then s.typeRef ctx a
    else .ok (ctx.qualify (Identifier.exported union ++ a.fieldName name))

end Scope
end Shapewright
