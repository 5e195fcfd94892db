import Shapewright.Bounded
import Shapewright.Schema.Registry

/-!
# Compatibility

Whether values of one attribute can be converted into values of another, as far as that shows
without looking into objects and unions. Equal kinds are compatible, anything converts into `any`,
and the elements of collections may differ by one box on either side. Paths name the two places in
messages only.

## What is left for later

Objects fit objects and unions fit unions here, whatever is in them: their fields and alternatives
are compared where the conversion comes to them. So a comparison follows arrays and maps alone, and
may still go on without end, through a collection that holds itself. The steps of a comparison are
bounded by the number of pairs of positions there are.

Boxes are opened for elements only. For the value as a whole that is a matter of the conversion,
which also knows which side the boxes are on.
-/

namespace Shapewright
namespace Registry

/-- A path in messages; the empty one is the whole value. -/
def displayPath (path : String) : String := if path.isEmpty then "<root>" else path

/-- The two places that are compared. -/
structure Paths where
  source : String := ""
  target : String := ""

namespace Paths

/-- Both places, one step further in. -/
def step (p : Paths) (suffix : String) : Paths := ⟨p.source ++ suffix, p.target ++ suffix⟩

end Paths

/-- Whether a comparison succeeds with what is inside a box. Without a box it does not. -/
def insideBox (reg : Registry) (box : Attribute) (compare : Attribute → Walk Unit) : Walk Bool := do
  match ← reg.unbox? box with
  | some inner => (compare inner).succeeds
  | none => pure false

/-- Compares elements: as they are, else without a box around the first, else without a box around
    the second. The fault is that of the plain comparison, since this is what was asked for. -/
def elementsVia (reg : Registry) (compare : Attribute → Attribute → Paths → Walk Unit)
    (a b : Attribute) (p : Paths) : Walk Unit := do
  match ← (compare a b p).outcome with
  | .ok () => pure ()
  | .error why =>
    if ← reg.insideBox a fun inner => compare inner b p then pure ()
    else if ← reg.insideBox b fun inner => compare a inner p then pure ()
    else throw why

/-- One step of the comparison, which goes on with `compare`. A target that takes anything is looked
    at before the kinds are compared, so even a collection fits it. -/
def compatibleVia (reg : Registry) (compare : Attribute → Attribute → Paths → Walk Unit)
    (a b : Attribute) (p : Paths) : Walk Unit := do
  let ka ← reg.kind a
  let kb ← reg.kind b
  let incompatible : Fault :=
    .incompatible (displayPath p.source) ka.name (displayPath p.target) kb.name
  if kb = .primitive .any then pure ()
  else match ka, kb with
    | .primitive x, .primitive y => if x = y then pure () else throw incompatible
    | .array, .array =>
      match ← reg.elem? a, ← reg.elem? b with
      | some ea, some eb => reg.elementsVia compare ea eb (p.step "[0]")
      | _, _ => throw incompatible
    | .map, .map =>
      match ← reg.entry? a, ← reg.entry? b with
      | some (keyA, ea), some (keyB, eb) => do
        compare keyA keyB (p.step "[key]")
        reg.elementsVia compare ea eb (p.step "[*]")
      | _, _ => throw incompatible
    | .object, .object => pure ()
    | .union, .union => pure ()
    | _, _ => throw incompatible

/-- The comparison within a number of steps. -/
def compatibleWithin (reg : Registry) : (steps : Nat) → Attribute → Attribute → Paths → Walk Unit
  | 0, _, _, _ => .exhausted
  | steps + 1, a, b, p => reg.compatibleVia (reg.compatibleWithin steps) a b p

/-- More steps than a walk over pairs of positions can take without going round in circles. A
    position is a part of the attribute at hand or of the definition of some type. -/
def pairBudget (reg : Registry) (a b : Attribute) : Nat :=
  (reg.positions + a.size) * (reg.positions + b.size) + 2

/-- Fails if `a` cannot be converted into `b`, and then names the two places and what kinds they
    have. -/
def compatible (reg : Registry) (a b : Attribute) (p : Paths) : Walk Unit :=
  reg.compatibleWithin (reg.pairBudget a b) a b p

/-- Whether `a` can be converted into `b`. -/
def isCompatible (reg : Registry) (a b : Attribute) : Walk Bool :=
  (reg.compatible a b {}).succeeds

end Registry
end Shapewright
