import Shapewright.Projection.Constructors
import Shapewright.Validation.Validators

/-!
# The code of a projection

Everything that is generated for the views of one result type: the type of viewed results, the
projected types, the constructors with their helpers, and the validators.

The parts are built over one registry, that of the projected types, so that names are given once and
the parts fit each other. Where several views lead to functions of one name, the first one is kept,
and whether the later one was the same is not asked.
-/

namespace Shapewright

/-- The code that is generated for the views of a result type. -/
structure ViewPackage where
  /-- The type of viewed results, followed by the projected types. -/
  types : List TypeDecl
  constructors : List Func
  helpers : List Helper
  /-- The validator of viewed results, followed by those of the projected types. -/
  validators : List Func

/-- Adds the functions whose names are not there yet. -/
def appendNew (funcs : List Func) : List Func → List Func
  | [] => funcs
  | f :: rest => appendNew (if funcs.any (·.name == f.name) then funcs else funcs ++ [f]) rest

namespace Projector

/-- The type of viewed results: a projected value with the name of its view. It is called like the
    result type itself, in the package of the projections. -/
def wrapperType (p : Projector) (id : TypeId) : Except Fault TypeDecl := do
  let name ← p.scope.name id
  let fields : List (StructField TypeRef) :=
    [{ name := "Projected", type := .primitive .any, doc := some "Type to project" },
      { name := "View", type := .primitive .string, doc := some "View to render" }]
  return { name,
           doc := some (name ++ " is the viewed result type that is projected based on a view."),
           definition := .struct fields }

/-- The declaration of a projected type. The definition is written in place, so a type that is an
    object is a struct and not a pointer. -/
def typeDecl (p : Projector) (pid : TypeId) : Except Fault TypeDecl := do
  let t ← p.scope.registry.get pid
  let type ← p.scope.typeRef localContext t.definition
  let name ← p.scope.name pid
  return { name, doc := some (name ++ " is a type that runs validations on a projected type."),
           definition := type.pointee }

/-- The constructors of some views, each under a name of its own, and their helpers. Functions and
    helpers of a view join those of the views before it. -/
def allConstructors (p : Projector) (id : TypeId) :
    (funcs : List Func) → (helpers : List Helper) → (views : List String) →
      Walk (List Func × List Helper)
  | funcs, helpers, [] => pure (funcs, helpers)
  | funcs, helpers, view :: rest => do
    let (more, helpers) ← p.constructors id view helpers
    p.allConstructors id (appendNew funcs more) helpers rest

/-- The validators of the projections of a type under some views, with the cases of the validator of
    viewed results. -/
def allValidators (p : Projector) (v : Validation) (id : TypeId) :
    (funcs : List Func) → (views : List String) → Walk (List Func × List Validation.ViewedCase)
  | funcs, [] => pure (funcs, [])
  | funcs, view :: rest => do
    let pid ← p.projectedId id view
    let more ← v.compileAll pid none
    let projected ← p.userRef localContext pid
    let (funcs, cases) ← p.allValidators v id (appendNew funcs more) rest
    return (funcs, ⟨view, projected, more.head?.map (·.name)⟩ :: cases)

end Projector

namespace Projection

/-- The code for the views of a result type. Types and validators are for the package of the
    projections, constructors and helpers for that of the service. -/
def compile (reg : Registry) (id : TypeId) (options : ProjectionOptions) : Walk ViewPackage := do
  let views ← reg.resultViews id
  let derived ← derive reg id views
  let scope := Scope.ofRegistry derived.registry
  let p : Projector :=
    { scope, ids := derived.ids, service := options.service,
      projected := Context.projected options.package }
  let wrapper ← p.wrapperType id
  let projectedTypes ← derived.ids.mapM fun (_, pid) => (p.typeDecl pid : Except Fault TypeDecl)
  let (constructors, helpers) ← p.allConstructors id [] [] views
  let viewed ← p.viewedConstructors id views
  let v : Validation :=
    { scope, context := Projector.localContext, reporting := options.reporting }
  let (validators, cases) ← p.allValidators v id [] views
  let name ← scope.name id
  let dispatch := v.viewed name (.pointer (.named none name)) cases
  return { types := wrapper :: projectedTypes, constructors := constructors ++ viewed, helpers,
           validators := dispatch :: validators }

end Projection

namespace ViewPackage

/-- All declarations: types, constructors, helpers, validators. -/
def fragment (p : ViewPackage) : Fragment where
  types := p.types
  funcs := p.constructors ++ p.helpers.map (·.func) ++ p.validators

end ViewPackage
end Shapewright
