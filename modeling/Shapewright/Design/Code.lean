import Shapewright.Design
import Shapewright.Projection.Package

/-!
# The code of a design

The code that the requests of a design ask for. A conversion that cannot be built because its types
do not fit is reported beside the others; all other faults end the work.

The requests of one kind share what they need. Helpers of all conversions are kept in one list by
name, and validators are kept in the order in which they are first asked for. In both lists a name
stands for one function, and two different functions of one name are a fault. The functions of the
requests themselves are only appended.
-/

namespace Shapewright
namespace Design

/-- The context of a name, which the checks of the design have seen. -/
def requireContext (d : Design) (name : String) : Except DesignFault Context :=
  match d.context? name with
  | some ctx => .ok ctx
  | none => .error (.violation name .missingContext)

/-- The scope of the design's types. -/
def scope (d : Design) : Scope := Scope.ofRegistry d.registry

/-! ## Conversions -/

/-- A conversion that cannot be built. -/
structure FailedRequest where
  /-- The name of the function, or the types. -/
  request : String
  fault : Fault

/-- The code of the conversions of a design. -/
structure ConversionCode where
  functions : List Func := []
  /-- The helpers of all functions, by name. -/
  helpers : List Helper := []
  failures : List FailedRequest := []

/-- What a request is called in reports. -/
def requestName (r : ConversionRequest) : String := r.name.getD (r.source ++ " -> " ++ r.target)

/-- The name of the function of a request, made from its types unless it is given. It is exported,
    and the names of the types are qualified by their packages. -/
def functionName (c : Conversion) (r : ConversionRequest) : Except Fault String :=
  match r.name with
  | some name => .ok name
  | none => do
    let source ← c.scope.qualifiedName c.source (.user r.source)
    let target ← c.scope.qualifiedName c.target (.user r.target)
    return Identifier.exported r.verb ++ source ++ "To" ++ target

/-- The function of a request and the helpers it calls. The function takes the value as `v` and
    returns the variable `res`, which its body declares. -/
def conversionFunc (c : Conversion) (r : ConversionRequest) : Walk (Func × List Helper) := do
  let source := Attribute.user r.source
  let target := Attribute.user r.target
  let name ← functionName c r
  let param ← c.sourceRef source
  let result ← c.targetRef target
  let code ← (c.compile (.between source target "v" "res")).alone
  let func : Func :=
    { name, doc := some (name ++ " converts a " ++ r.source ++ " into a " ++ r.target ++ "."),
      params := [⟨some "v", param⟩], results := [⟨none, result⟩],
      body := code.body ++ [.ret [.ident "res"]] }
  return (func, code.helpers)

/-- Builds the function of a request. Each request has a conversion of its own, so no names are
    known from the requests before it. -/
def compileConversion (d : Design) (r : ConversionRequest) :
    Except DesignFault (Func × List Helper) := do
  let c : Conversion :=
    { scope := d.scope, source := ← d.requireContext r.sourceContext,
      target := ← d.requireContext r.targetContext, verb := r.verb, wire := r.wire }
  (conversionFunc c r).settle.mapError .fault

/-- Adds the code of a request, or reports that it has none. A fault that is no defect is collected
    with the name of its request. A defect, a clash of helpers or a failure outside of the compiler
    ends the whole. -/
def addConversion (d : Design) (code : ConversionCode) (r : ConversionRequest) :
    Except DesignFault ConversionCode :=
  match d.compileConversion r with
  | .ok (func, helpers) => do
    let helpers ← (Helper.union code.helpers helpers).mapError .fault
    return { code with functions := code.functions ++ [func], helpers }
  | .error (.fault f) =>
    if f.isDefect then .error (.fault f)
    else .ok { code with failures := code.failures ++ [⟨requestName r, f⟩] }
  | .error why => .error why

/-- The code of all conversions, in the order of the requests. -/
def compileConversions (d : Design) : Except DesignFault ConversionCode :=
  d.conversions.foldlM d.addConversion {}

/-! ## Projections -/

/-- The package of the views of a result. -/
def compileProjection (d : Design) (r : ProjectionRequest) : Except DesignFault ViewPackage := do
  let options : ProjectionOptions :=
    { service := ← d.requireContext r.context, package := r.package, reporting := d.reporting }
  (Projection.compile d.registry r.type options).settle.mapError .fault

/-- The code of all projections, in the order of the requests. -/
def compileProjections (d : Design) : Except DesignFault (List ViewPackage) :=
  d.projections.mapM d.compileProjection

/-! ## Validations -/

/-- The validators of a type in a context, its own one first. -/
def compileValidation (d : Design) (r : ValidationRequest) : Except DesignFault (List Func) := do
  let v : Validation :=
    { scope := d.scope, context := ← d.requireContext r.context, reporting := d.reporting }
  (v.compileAll r.type r.view).settle.mapError .fault

/-- Adds functions that are not there yet. Two functions of one name are the same, and it is a
    defect of the program if they are not. -/
def addValidators (funcs : List Func) : List Func → Except Fault (List Func)
  | [] => .ok funcs
  | f :: rest =>
    match funcs.find? (·.name == f.name) with
    | none => addValidators (funcs ++ [f]) rest
    | some known =>
      if known == f then addValidators funcs rest
      else .error (.defect (.validationClash f.name))

/-- The validators of all requests, each where it is first needed. -/
def compileValidations (d : Design) : Except DesignFault (List Func) := do
  let funcs ← d.validations.mapM d.compileValidation
  (addValidators [] funcs.flatten).mapError .fault

end Design
end Shapewright
