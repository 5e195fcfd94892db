import Shapewright.Fault

/-!
# Bounded walks

Walks over a registry may go round in circles. They are written against a budget of steps, and
running out of it is an outcome of its own, apart from success and from the faults of a design.

Failing and running out are kept apart because a comparison may be tried once more with a box
opened, and a walk that ran out must not count as a comparison that failed. So `outcome` makes
failures into values and lets running out pass. Only at the very end, where a walk was given enough
steps, is running out turned into a fault, and that is one of the program, not of the design
(`settle`).
-/

namespace Shapewright

/-- A walk that runs out of steps, fails, or succeeds. The layers are in this order because running
    out of steps overrides everything, while a failure can be caught. -/
abbrev Walk (α : Type) := ExceptT Fault Option α

namespace Walk

/-- The walk that has no steps left. -/
def exhausted {α : Type} : Walk α := ExceptT.mk none

/-- Fails for a broken promise. -/
def defect {α : Type} (d : Defect) : Walk α := throw (.defect d)

/-- The outcome of a walk, failure included; only running out is passed on. What follows can then
    decide by the outcome, as a comparison does that tries a box next. -/
def outcome {α : Type} (w : Walk α) : Walk (Except Fault α) := ExceptT.mk (w.run.map .ok)

/-- Whether a walk succeeds. -/
def succeeds {α : Type} (w : Walk α) : Walk Bool := do
  match ← w.outcome with
  | .ok _ => pure true
  | .error _ => pure false

/-- The outcome of a walk that was given enough steps. A walk that runs out all the same has met a
    defect of the program, and this is what is reported. -/
def settle {α : Type} (w : Walk α) : Except Fault α :=
  w.run.getD (.error (.defect .endless))

end Walk
end Shapewright
