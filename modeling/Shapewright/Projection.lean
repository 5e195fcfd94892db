import Shapewright.Bounded
import Shapewright.Design.Request
import Shapewright.Schema.Registry

/-!
# Projections

A projection of a result type shows it through its views: for every view there is a reduced type
with the fields of the view, all of them optional in code, and functions that convert between the
full type and the reduced one. A collection of results has the views of its elements.

This module says which views a type has. Collections may hold collections, so the views are found by
a walk that follows elements as long as they are collections themselves. It is bounded by the number
of types, and a collection that is its own element uses that up.
-/

namespace Shapewright

/-- The contexts and names of a projection. -/
structure ProjectionOptions where
  /-- The context of the full type. -/
  service : Context := {}
  /-- The package of the projected types and their validators. -/
  package : String := "views"
  reporting : Reporting := {}
deriving Inhabited

/-- A type under a view. -/
structure ViewedType where
  type : TypeId
  view : String
deriving Repr, DecidableEq

namespace Registry

/-- The result type whose elements are in the collection `t`, if it is a collection of results. -/
def resultElement? (reg : Registry) (t : UserType) : Except Fault (Option TypeId) := do
  match (← reg.elem? t.definition).bind (·.userId?) with
  | none => return none
  | some id => return if (← reg.get id).kind = .result then some id else none

/-- The views of a result type, through at most `levels` collections. A collection has those of its
    elements. A result without a view of its own has none to be compiled for. -/
def resultViewsWithin (reg : Registry) : (levels : Nat) → TypeId → Walk (List String)
  | levels, id => do
    let t ← reg.get id
    match ← reg.resultElement? t with
    | some elem =>
      match levels with
      | 0 => .exhausted
      | levels + 1 => resultViewsWithin reg levels elem
    | none =>
      if t.kind = .result && !t.views.isEmpty then pure (t.views.map (·.name))
      else throw (.unknownView t.name defaultView)

/-- The names of the views of a result type. A collection of results has those of its elements. -/
def resultViews (reg : Registry) (id : TypeId) : Walk (List String) :=
  reg.resultViewsWithin reg.size id

end Registry
end Shapewright
