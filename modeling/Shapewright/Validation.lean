import Shapewright.Design.Request
import Shapewright.Scope

/-!
# Validators

A validator is a function that checks a value of a named type and merges everything it finds wrong
into one error. A type has at most one validator for each of its views, and one for no view. Values
of other named types are checked by calling their validators.

A type and a view together are a `Subject`, and all bookkeeping is about subjects: which ones a
validator calls, and for which ones there is a validator at all. A default view that is asked for
where none is declared means no view, so a subject is the same whichever way it was asked for. Names
leave the default view out, though, and are shared in that case.
-/

namespace Shapewright

/-- What all validators of one run have in common. -/
structure Validation where
  scope : Scope
  /-- How the validated values are represented. -/
  context : Context
  reporting : Reporting := {}

namespace Validation

/-- What a validator is for. A view is one that the type declares. -/
structure Subject where
  type : TypeId
  view : Option String
deriving Repr, DecidableEq

/-- The types that are validated. -/
def registry (v : Validation) : Registry := v.scope.registry

/-- The subject for a type under a view. A default view that is not declared is no view. -/
def subject (v : Validation) (id : TypeId) (view : Option String) : Except Fault Subject :=
  match view with
  | none => .ok ⟨id, none⟩
  | some name => do return ⟨id, (← v.registry.view? id name).map (·.name)⟩

/-- The name of the validator of a type: the view is named unless it is the default view. -/
def functionName (v : Validation) (id : TypeId) (view : Option String) : Except Fault String := do
  return "Validate" ++ (← v.scope.name id) ++ (view.map viewSuffix).getD ""

/-- A call into the package that makes and merges errors. -/
def report (v : Validation) (func : String) (args : List Expr) : Expr :=
  .call (v.reporting.runtime ++ "." ++ func) args

/-- The error that a validator returns. -/
def error : Expr := .ident "err"

/-- Merges an error into the one that is returned. -/
def merge (v : Validation) (found : Expr) : Stmt :=
  .set error (v.report "MergeErrors" [error, found])

/-- Merges an error if a test holds. -/
def mergeWhen (v : Validation) (test found : Expr) : Stmt := .when test [v.merge found]

/-- A list of literals as an argument. -/
def anySlice (items : List Literal) : Expr := .lit (.array items) (.slice (.primitive .any))

/-- The names that a view goes by. The empty name is the default view. -/
def viewValues (view : String) : List Expr :=
  if view = defaultView then [.str view, .str ""] else [.str view]

/-- Runs checks only where a value that may be nil is not. -/
def guarded (mayBeNil : Bool) (var : Expr) (checks : Block) : Block :=
  if !mayBeNil || checks.isEmpty then checks else [.when var.notNil checks]

end Validation
end Shapewright
