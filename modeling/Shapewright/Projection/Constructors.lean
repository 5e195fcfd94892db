import Shapewright.Conversion.Helper
import Shapewright.Projection.Derived
import Shapewright.Validation

/-!
# Constructors of projected types

For a result and a view there are two functions, to the projected type and back. An object is
converted field by field; a collection calls the functions of its elements. Two more functions
choose between the views by name and wrap the projected value with the name of its view.

The functions for objects are conversions like any other, in the context of projected types, where
every primitive is behind a pointer. What a view leaves out has no counterpart on the other side, so
it stays zero on the way back. Both ways may call helpers, and all constructors of a projection
share one list of helpers, in which each has been made once.

The names of constructors consist of the name of the type and that of the view. Two views can
therefore lead to one name, and what becomes of that is settled where the functions are put
together.
-/

namespace Shapewright

/-- What the declarations of one projection have in common. -/
structure Projector where
  /-- The scope of the projected types and the types that they project. -/
  scope : Scope
  ids : List (ViewedType × TypeId)
  service : Context
  /-- The context of projected types, seen from the package of the service. -/
  projected : Context

namespace Projector

/-- The context of projected types, seen from their own package. -/
def localContext : Context := Context.projected ""

/-- The identity of the projected type of a type under a view. -/
def projectedId (p : Projector) (id : TypeId) (view : String) : Except Fault TypeId :=
  match Ordered.get? p.ids ⟨id, view⟩ with
  | some pid => .ok pid
  | none => .error (.unknownView id view)

/-- The type of values of a named type. -/
def userRef (p : Projector) (ctx : Context) (id : TypeId) : Except Fault TypeRef :=
  p.scope.typeRef ctx (.user id)

/-- The name of the function from the full type. -/
def toViewName (p : Projector) (id : TypeId) (view : String) : Except Fault String := do
  return "new" ++ (← p.scope.name (← p.projectedId id view))

/-- The name of the function to the full type. -/
def fromViewName (p : Projector) (id : TypeId) (view : String) : Except Fault String := do
  return "new" ++ (← p.scope.name id) ++ viewSuffix view

/-! ## Documentation -/

/-- What the function from the full type says of itself. -/
def toViewDoc (name full projected view : String) : String :=
  name ++ " projects result type " ++ full ++ " to projected type " ++ projected ++ " using the \""
    ++ view ++ "\" view."

/-- What the function to the full type says of itself. -/
def fromViewDoc (name full projected : String) : String :=
  name ++ " converts projected type " ++ projected ++ " to service type " ++ full ++ "."

/-! ## Objects -/

/-- The code and the helpers that turn a value of the type `source` into one of the type `target`,
    from the variable `value` into the variable `place`. -/
def convert (p : Projector) (source target : Context) (a b : TypeId) (value place : String) :
    Walk Conversion.Compiled :=
  let c : Conversion := { scope := p.scope, source, target }
  (c.compile (.between (.user a) (.user b) value place)).alone

/-- The function from an object to its projection, and all helpers so far. Its body is the code of
    the conversion between the two types, and the helpers of the conversion join those that are
    given. -/
def objectToView (p : Projector) (id : TypeId) (view : String) (helpers : List Helper) :
    Walk (Func × List Helper) := do
  let pid ← p.projectedId id view
  let code ← p.convert p.service p.projected id pid "res" "vres"
  let helpers ← Helper.union helpers code.helpers
  let name ← p.toViewName id view
  let func : Func :=
    { name, doc := some (toViewDoc name (← p.scope.name id) (← p.scope.name pid) view),
      params := [⟨some "res", ← p.userRef p.service id⟩],
      results := [⟨none, ← p.userRef p.projected pid⟩],
      body := code.body ++ [.ret [.ident "vres"]] }
  return (func, helpers)

/-- The function from the projection of an object to the object, and all helpers so far. Fields
    outside the view stay zero. -/
def objectFromView (p : Projector) (id : TypeId) (view : String) (helpers : List Helper) :
    Walk (Func × List Helper) := do
  let pid ← p.projectedId id view
  let code ← p.convert p.projected p.service pid id "vres" "res"
  let helpers ← Helper.union helpers code.helpers
  let name ← p.fromViewName id view
  let func : Func :=
    { name, doc := some (fromViewDoc name (← p.scope.name id) (← p.scope.name pid)),
      params := [⟨some "vres", ← p.userRef p.projected pid⟩],
      results := [⟨none, ← p.userRef p.service id⟩],
      body := code.body ++ [.ret [.ident "res"]] }
  return (func, helpers)

/-! ## Collections -/

/-- Makes `output` from `input` by calling a function for every element. The collection is made as
    long as the one that is given, and an element that is nil is left to the function. -/
def collectionLoop (type : TypeRef) (input output func : String) : Block :=
  let out := Expr.ident output
  [.assign out (.make type (.len (.ident input))) true,
    .range (some "i") (some "n") (.ident input)
      [.set (out.index (.ident "i")) (.call func [.ident "n"])],
    .ret [out]]

/-- The function from a collection to its projection. Its body is a loop that calls the function for
    the elements under the same view. -/
def collectionToView (p : Projector) (id elem : TypeId) (view : String) : Except Fault Func := do
  let pid ← p.projectedId id view
  let type ← p.userRef p.projected pid
  let name ← p.toViewName id view
  let elemName ← p.toViewName elem view
  return { name, doc := some (toViewDoc name (← p.scope.name id) (← p.scope.name pid) view),
           params := [⟨some "res", ← p.userRef p.service id⟩],
           results := [⟨none, type⟩],
           body := collectionLoop type "res" "vres" elemName }

/-- The function from the projection of a collection to the collection. It calls the function for
    the elements in a loop. -/
def collectionFromView (p : Projector) (id elem : TypeId) (view : String) :
    Except Fault Func := do
  let pid ← p.projectedId id view
  let type ← p.userRef p.service id
  let name ← p.fromViewName id view
  let elemName ← p.fromViewName elem view
  return { name, doc := some (fromViewDoc name (← p.scope.name id) (← p.scope.name pid)),
           params := [⟨some "vres", ← p.userRef p.projected pid⟩],
           results := [⟨none, type⟩],
           body := collectionLoop type "vres" "res" elemName }

/-- The functions of a type under a view, through at most `levels` collections, and all helpers so
    far. Those of a collection follow those of its elements. -/
def constructorsWithin (p : Projector) (view : String) :
    (levels : Nat) → TypeId → List Helper → Walk (List Func × List Helper)
  | levels, id, helpers => do
    let reg := p.scope.registry
    let t ← reg.get id
    if (← reg.kind t.definition) = .array then
      match (← reg.elem? t.definition).bind (·.userId?) with
      | none => .defect (.namelessElement id)
      | some elem =>
        match levels with
        | 0 => .exhausted
        | levels + 1 =>
          let (funcs, helpers) ← constructorsWithin p view levels elem helpers
          let toView ← p.collectionToView id elem view
          let fromView ← p.collectionFromView id elem view
          return (funcs ++ [toView, fromView], helpers)
    else
      let (toView, helpers) ← p.objectToView id view helpers
      let (fromView, helpers) ← p.objectFromView id view helpers
      return ([toView, fromView], helpers)

/-- The functions of a type under a view, and all helpers so far. -/
def constructors (p : Projector) (id : TypeId) (view : String) (helpers : List Helper) :
    Walk (List Func × List Helper) :=
  p.constructorsWithin view p.scope.registry.size id helpers

/-! ## Viewed results -/

/-- The case of a view in the function that wraps a full value. A view without a projection is a
    fault here, although the name alone would do. -/
def wrapCase (p : Projector) (id : TypeId) (view : String) :
    Except Fault (List Expr × Block) := do
  let _ ← p.projectedId id view
  let func ← p.toViewName id view
  return (Validation.viewValues view, [.set (.ident "p") (.call func [.ident "res"])])

/-- The case of a view in the function that unwraps a projected value. The stored value is asserted
    to be of the projected type of the view, since it is held as any value. -/
def unwrapCase (p : Projector) (id : TypeId) (view : String) :
    Except Fault (List Expr × Block) := do
  let type ← p.userRef p.projected (← p.projectedId id view)
  let func ← p.fromViewName id view
  let projected := Expr.assert ((Expr.ident "vres").field "Projected") type
  return (Validation.viewValues view, [.set (.ident "res") (.call func [projected])])

/-- The functions that choose between the views by name: the first wraps a full value, the second
    unwraps it. -/
def viewedConstructors (p : Projector) (id : TypeId) (views : List String) :
    Except Fault (List Func) := do
  let name ← p.scope.name id
  let wrapper := p.projected.qualify name
  let full ← p.userRef p.service id
  let wrap ← views.mapM (p.wrapCase id)
  let unwrap ← views.mapM (p.unwrapCase id)
  let view := Expr.ident "view"
  let newViewed : Func :=
    { name := "NewViewed" ++ name,
      doc := some ("NewViewed" ++ name ++ " initializes viewed result type " ++ name
        ++ " from result type " ++ name ++ " using the given view."),
      params := [⟨some "res", full⟩, ⟨some "view", .primitive .string⟩],
      results := [⟨none, .pointer wrapper⟩],
      body := [
        .declare "p" (.primitive .any) none,
        .switch view wrap [],
        .ret [.composite wrapper [("Projected", .ident "p"), ("View", view)] true]] }
  let newFull : Func :=
    { name := "New" ++ name,
      doc := some ("New" ++ name ++ " initializes result type " ++ name
        ++ " from viewed result type " ++ name ++ "."),
      params := [⟨some "vres", .pointer wrapper⟩],
      results := [⟨none, full⟩],
      body := [
        .declare "res" full none,
        .switch ((Expr.ident "vres").field "View") unwrap [],
        .ret [.ident "res"]] }
  return [newViewed, newFull]

end Projector
end Shapewright
