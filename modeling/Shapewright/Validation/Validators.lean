import Shapewright.Bounded
import Shapewright.Reachable
import Shapewright.Validation.Checks

/-!
# The validators of a type

A validator is built for a subject if there is something to check: if its own code checks a rule, or
that of a subject it calls, directly or through others. All subjects are found first, and the code
is built when it is known which validators there are.

Subjects may call each other in circles. A search from each subject for one that checks something of
its own takes care of that, where a definition by recursion would not end. Code is built in the
order in which the subjects were found, so the validator that was asked for comes first.
-/

namespace Shapewright
namespace Validation

/-- A subject that was found, whether it checks something of its own, and the subjects it calls. -/
structure Found where
  subject : Subject
  checks : Bool
  calls : List Subject

/-- The number of subjects there can be. -/
def subjectBudget (reg : Registry) : Nat :=
  (reg.types.map fun t => t.views.length + 1).foldr (· + ·) 0

/-- The subjects found from those that are pending, behind those found before. Bodies are built here
    as if no validator existed, so that it can be told which of them have checks of their own. -/
def exploreWithin (v : Validation) :
    (limit : Nat) → (found : List Found) → (pending : List Subject) → Walk (List Found)
  | limit, found, pending =>
    match pending.dropWhile fun s => found.any (·.subject == s) with
    | [] => pure found
    | s :: rest =>
      match limit with
      | 0 => .exhausted
      | limit + 1 => do
        let checks ← v.body (fun _ => false) s
        exploreWithin v limit (found ++ [⟨s, !checks.code.isEmpty, checks.calls⟩])
          (rest ++ checks.calls)

/-- The subjects reachable from one, itself first. The budget has room for one subject more than
    there can be, so that a subject whose type is unknown is looked at, and fails. -/
def explore (v : Validation) (root : Subject) : Walk (List Found) :=
  v.exploreWithin (subjectBudget v.registry + 1) [] [root]

/-- The subjects that a subject calls. -/
def callsOf (found : List Found) (s : Subject) : List Subject :=
  ((found.find? (·.subject == s)).map (·.calls)).getD []

/-- Whether a subject, or one that it reaches, checks something of its own. -/
def reachesChecks (found : List Found) (s : Subject) : Bool :=
  let reached := Reachable.within (callsOf found) found.length [] [s]
  found.any fun f => f.checks && reached.contains f.subject

/-- The subjects for which there is a validator. -/
def built (found : List Found) : List Subject :=
  (found.map (·.subject)).filter (reachesChecks found)

/-- The validator of a subject, with its checks. It takes the value and returns an error by name, so
    that its body only has to merge into it. -/
def func (v : Validation) (s : Subject) (checks : Block) : Except Fault Func := do
  let name ← v.functionName s.type s.view
  let typeName ← v.scope.name s.type
  let ending := match s.view with
    | some view => " using the \"" ++ view ++ "\" view."
    | none => "."
  let type ← v.scope.typeRef v.context (.user s.type)
  return { name,
           doc := some (name ++ " runs the validations defined on " ++ typeName ++ ending),
           params := [⟨some v.reporting.arg, type⟩],
           results := [⟨some "err", .error⟩],
           body := checks ++ [.ret []] }

/-- The validators of the subjects reachable from one, in the order in which they are found. A
    subject is left out if neither it nor any other that it comes to has checks, and no calls of it
    are written then. -/
def closure (v : Validation) (root : Subject) : Walk (List (Subject × Func)) := do
  let subjects := built (← v.explore root)
  subjects.mapM fun s => do
    let checks ← (v.body subjects.contains s : Except Fault Checks)
    return (s, ← (v.func s checks.code : Except Fault Func))

/-- The validator of a type under a view, if there is anything to check. -/
def compile (v : Validation) (id : TypeId) (view : Option String) : Walk (Option Func) := do
  let root ← v.subject id view
  return ((← v.closure root).find? fun (s, _) => s == root).map (·.2)

/-- The validator of a type under a view and those that it calls, itself first. -/
def compileAll (v : Validation) (id : TypeId) (view : Option String) : Walk (List Func) := do
  let root ← v.subject id view
  return (← v.closure root).map (·.2)

/-! ## Viewed results -/

/-- A view that a viewed result may be stored under. -/
structure ViewedCase where
  view : String
  /-- The type of the stored value. -/
  projected : TypeRef
  /-- The name of the validator of that type, if there is one. -/
  validator : Option String

/-- The validation of a result that is stored with the name of its view. It goes by the name of the
    view to the validator of the projection, and reports a name that is none of the views. -/
def viewed (v : Validation) (name : String) (wrapper : TypeRef) (views : List ViewedCase) : Func :=
  let arg := Expr.ident v.reporting.arg
  let view := arg.field "View"
  let cases := views.map fun c =>
    let checks : Block := match c.validator with
      | some func => [.set error (.call func [.assert (arg.field "Projected") c.projected])]
      | none => []
    (viewValues c.view, checks)
  let known := anySlice (views.map fun c => .string c.view)
  { name := "Validate" ++ name,
    doc := some ("Validate" ++ name ++ " runs the validations defined on the viewed result type "
      ++ name ++ "."),
    params := [⟨some v.reporting.arg, wrapper⟩],
    results := [⟨some "err", .error⟩],
    body := [
      .switch view cases
        [.set error (v.report "InvalidEnumValueError" [.str "view", view, known])],
      .ret []] }

end Validation
end Shapewright
