import Shapewright.Validation.Rules

/-!
# The checks of a validator

The walk over an attribute that builds the body of a validator. It stays inside one type: a value of
another named type is left to the validator of that type, which is called if there is one. So the
walk finds two things at once, the code and the validators that it would call.

## What is known only later

Whether there is a validator for another type depends on what that one would call in its turn. The
walk is therefore given the answer as a predicate (`isBuilt`), and is made twice: first to find out
who calls whom, then to build the code. The calls that it finds do not depend on the predicate.

## Nil

A value that may be missing is checked only behind a check for nil. If it is required, that it is
missing is reported besides. Whether a missing value shows depends on the context: a
primitive that is a plain value has no missing value.
-/

namespace Shapewright
namespace Validation

/-- Code that checks something, and the subjects whose validators it calls or would call. -/
structure Checks where
  code : Block := []
  calls : List Subject := []

namespace Checks

/-- Checks, and others behind them. -/
def append (a b : Checks) : Checks := ⟨a.code ++ b.code, a.calls ++ b.calls⟩

/-- The same calls in other code. -/
def mapCode (f : Block → Block) (a : Checks) : Checks := { a with code := f a.code }

end Checks

/-- A value that is checked. -/
structure Position where
  var : Expr
  /-- What errors call the value. -/
  path : String
  /-- The view under which it is checked. -/
  view : Option String := none
  /-- The number of loops around it. -/
  depth : Nat := 0

/-- The variable for the elements of a collection inside `depth` loops. -/
def elementName (depth : Nat) : String := if depth = 0 then "e" else "e" ++ toString (depth + 1)

namespace Position

/-- The elements of a collection. -/
def element (p : Position) : Position :=
  { p with var := .ident (elementName p.depth), path := p.path ++ "[*]", depth := p.depth + 1 }

/-- Checks of the elements as checks of the collection. -/
def loop (p : Position) (checks : Checks) : Checks :=
  checks.mapCode fun code =>
    if code.isEmpty then [] else [.range none (some (elementName p.depth)) p.var code]

end Position

/-- Whether a missing value shows, because it is nil. -/
def showsMissing (v : Validation) (a : Attribute) : Except Fault Bool := do
  match ← v.registry.primitive? a with
  | some p => if p.isReference then return true else v.context.holdsPointer v.registry a true
  | none => return true

/-- The view of the value in a field under a view: that of its tag, otherwise the default view of a
    type with views. An array stands for its elements. -/
def nestedView (v : Validation) (a : Attribute) (tag : Option String) :
    Except Fault (Option String) := do
  if tag.isSome then return tag
  let target := (← v.registry.elem? a).getD a
  match target.userId? with
  | some id =>
    let t ← v.registry.get id
    return if t.views.isEmpty then none else some defaultView
  | none => return none

/-- The check that a required field is there. It compares with nil, so it is made only where the
    absence of a value shows. -/
def missingCheck (v : Validation) (required : List String) (p : Position) (name : String)
    (a : Attribute) : Except Fault Block := do
  if !required.contains name then return []
  if ← v.showsMissing a then
    let missing := v.report "MissingFieldError" [.str name, .str p.path]
    return [v.mergeWhen (p.var.field (a.fieldName name)).isNil missing]
  else return []

/-- The checks that required fields are there. They come before the checks of the fields
    themselves. -/
def missingChecks (v : Validation) (required : List String) (p : Position) :
    List (String × Attribute) → Except Fault Block
  | [] => .ok []
  | (name, a) :: rest => do
    let check ← v.missingCheck required p name a
    return check ++ (← v.missingChecks required p rest)

/-- The position of a field of an object, and whether it is a pointer to a primitive. The view is
    found for the field if the value is seen under one at all. -/
def fieldPosition (v : Validation) (required : List String) (p : Position) (name : String)
    (a : Attribute) (tag : Option String) : Except Fault (Bool × Position) := do
  let pointer ← v.context.holdsPointer v.registry a (required.contains name)
  let view ← if p.view.isSome then v.nestedView a tag else pure none
  return (pointer,
    { p with var := p.var.field (a.fieldName name), path := p.path ++ "." ++ name, view })

/-- The checks of a value of a named structured type: a call of its validator if `isBuilt` says that
    there is one. -/
def delegated (v : Validation) (isBuilt : Subject → Bool) (id : TypeId) (mayBeNil : Bool)
    (p : Position) : Except Fault Checks := do
  let s ← v.subject id p.view
  if isBuilt s then
    let name ← v.functionName s.type s.view
    let found := Expr.ident "err2"
    let call := Stmt.cond (some (.assign found (.call name [p.var]) true)) found.notNil
      [v.merge found] []
    return ⟨guarded mayBeNil p.var [call], [s]⟩
  else return ⟨[], [s]⟩

/-- The checks of a value of a named type. An alias of a primitive is checked in place, for its own
    rules and those of the primitive. What has a validator is handed over to it, and an object only
    if it is there. -/
def userChecks (v : Validation) (isBuilt : Subject → Bool) (a : Attribute) (id : TypeId)
    (pointer : Bool) (p : Position) : Except Fault Checks := do
  match ← v.registry.kind a with
  | .primitive kind =>
    let value := if pointer then p.var.deref else p.var
    return ⟨guarded pointer p.var (← v.primitiveChecks a kind value p.path), []⟩
  | .object => v.delegated isBuilt id true p
  | .array | .map => v.delegated isBuilt id false p
  | .union => return {}

mutual

/-- The checks of a value, where `pointer` says that it is a primitive behind a pointer. The code
    reads the value through the variable of the position, and goes down to elements and fields in
    place. What is of a named structured type is handed over to the validator of that type. -/
def value (v : Validation) (isBuilt : Subject → Bool) (a : Attribute) (pointer : Bool)
    (p : Position) : Except Fault Checks :=
  match a with
  | ⟨.primitive kind, _, rules, overrides, _⟩ => do
    let a : Attribute := { type := .primitive kind, rules, overrides }
    let value := if pointer then p.var.deref else p.var
    return ⟨guarded pointer p.var (← v.primitiveChecks a kind value p.path), []⟩
  | ⟨.user id, _, rules, overrides, _⟩ =>
    v.userChecks isBuilt { type := .user id, rules, overrides } id pointer p
  | ⟨.object fields, _, rules, _, _⟩ => do
    let missing ← v.missingChecks rules.required p fields
    let checks ← v.fields isBuilt rules.required p fields
    return checks.mapCode fun code => guarded true p.var (missing ++ code)
  | ⟨.array elem, _, rules, _, _⟩ => do
    let checks ← v.value isBuilt elem false p.element
    return (p.loop checks).mapCode (v.lengthChecks rules (.len p.var) p.var p.path ++ ·)
  | ⟨.map _ elem, _, rules, _, _⟩ => do
    let checks ← v.value isBuilt elem false p.element
    return (p.loop checks).mapCode (v.lengthChecks rules (.len p.var) p.var p.path ++ ·)
  | ⟨.union _ _, _, _, _, _⟩ => .ok {}

/-- The checks of the fields of an object in place. A field in place is seen under the tag that it
    declares. -/
def fields (v : Validation) (isBuilt : Subject → Bool) (required : List String) (p : Position) :
    List (String × Attribute) → Except Fault Checks
  | [] => .ok {}
  | (name, a) :: rest => do
    let (pointer, inner) ← v.fieldPosition required p name a a.overrides.view
    let checks ← v.value isBuilt a pointer inner
    return checks.append (← v.fields isBuilt required p rest)

end

/-- A field of a named object that is checked, with the view that its declaration or the view of
    the object gives it. -/
structure ShownField where
  name : String
  attr : Attribute
  tag : Option String

/-- The fields of an object, or those that a view shows, in the view's order. -/
def shownFields (fields : List (String × Attribute)) : Option View → List ShownField
  | none => fields.map fun (name, a) => ⟨name, a, a.overrides.view⟩
  | some view => view.attributes.filterMap fun va =>
    (Ordered.get? fields va.field).map fun a => ⟨va.field, a, va.view?.or a.overrides.view⟩

/-- The checks of some fields of a named object. The tag of a field may come from the view. -/
def shownChecks (v : Validation) (isBuilt : Subject → Bool) (required : List String)
    (p : Position) : List ShownField → Except Fault Checks
  | [] => .ok {}
  | f :: rest => do
    let (pointer, inner) ← v.fieldPosition required p f.name f.attr f.tag
    let checks ← v.value isBuilt f.attr pointer inner
    return checks.append (← v.shownChecks isBuilt required p rest)

/-- The value that is validated for a subject. -/
def argument (v : Validation) (s : Subject) : Position :=
  ⟨.ident v.reporting.arg, v.reporting.arg, s.view, 0⟩

/-- The view that selects the fields of a subject. -/
def shownView (v : Validation) (s : Subject) : Except Fault (Option View) :=
  match s.view with
  | some name => v.registry.view? s.type name
  | none => .ok none

/-- The checks of a subject. Collections carry their view to each element. A result is checked for
    the fields that its view shows, and everything else for all of its fields. What is neither an
    object nor a collection has no checks. -/
def body (v : Validation) (isBuilt : Subject → Bool) (s : Subject) : Except Fault Checks := do
  let t ← v.registry.get s.type
  let view ← v.shownView s
  let a ← v.registry.resolve t.definition
  let arg := v.argument s
  match a.type with
  | .object fields =>
    let shown := shownFields fields view
    let missing ← v.missingChecks a.rules.required arg (shown.map fun f => (f.name, f.attr))
    let checks ← v.shownChecks isBuilt a.rules.required arg shown
    return checks.mapCode (missing ++ ·)
  | .array elem | .map _ elem => return arg.loop (← v.value isBuilt elem false arg.element)
  | _ => return {}

end Validation
end Shapewright
