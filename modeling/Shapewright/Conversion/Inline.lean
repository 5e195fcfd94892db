import Shapewright.Conversion.Object
import Shapewright.Conversion.Union

/-!
# Code in place

The emitter of a site: it opens a box of the wire side where the attributes do not fit otherwise,
and goes on by the kind of the source.

This is where the emitters of arrays, maps, objects, unions and primitives are tied together. Each
of them takes an emitter for the sites below, and `attrWithin` gives it the one with a level less. A
conversion that calls itself in place therefore runs out of levels, which is told apart from a
conversion that fails.
-/

namespace Shapewright
namespace Conversion

/-- The code of a site whose source is of a kind. The kind is that of the source, and each emitter
    looks at the target itself. -/
def ofKind (c : Conversion) (emit : Emit) (s : Site) : Kind → Walk Block
  | .array => c.array emit s
  | .map => c.map emit s
  | .object => c.object emit s
  | .union => c.union emit s
  | .primitive _ => c.primitive s

/-- The code of a site whose attributes are compatible. Structured values of the kind `any` are
    stored as they are. -/
def byKind (c : Conversion) (emit : Emit) (s : Site) : Walk Block := do
  let source ← c.registry.kind s.source
  let target ← c.registry.kind s.target
  if target = .primitive .any && !source.isPrimitive then pure [s.store s.value]
  else c.ofKind emit s source

/-- The site inside the box of the wire side, with the code that makes the box of a result.
    Without a box the fault is `why`. -/
def unboxed (c : Conversion) (s : Site) (why : Fault) : Walk (Block × Site) := do
  match c.wire with
  | .target =>
    match ← c.registry.unbox? s.target with
    | none => throw why
    | some inner =>
      let box ← c.targetRef s.target
      pure ([s.store (.allocate box [])],
        { s with target := inner, place := s.place.field boxFieldName, declare := false })
  | .source =>
    match ← c.registry.unbox? s.source with
    | none => throw why
    | some inner => pure ([], { s with source := inner, value := s.value.field boxFieldName })

/-- The code of a site, with `emit` for the sites below it. The attributes are compared first, and
    only if they do not fit is a box looked for; if there is none, the fault of the comparison is
    the result. -/
def attrVia (c : Conversion) (emit : Emit) (s : Site) : Walk Block := do
  match ← (c.compatible s).outcome with
  | .ok () => c.byKind emit s
  | .error why =>
    if s.inBox then throw why
    else
      let (box, inner) ← c.unboxed s why
      c.compatible inner
      pure (box ++ (← c.byKind emit inner))

/-- The code of a site, in which at most `levels` sites are nested. -/
def attrWithin (c : Conversion) : (levels : Nat) → Emit
  | 0 => fun _ => .exhausted
  | levels + 1 => c.attrVia (c.attrWithin levels)

/-- The code of a site. The levels are more than code can have that does not come back to a pair of
    positions. -/
def inline (c : Conversion) (s : Site) : Walk Block :=
  c.attrWithin (c.registry.pairBudget s.source s.target) s

end Conversion
end Shapewright
