import Shapewright.Conversion.Inline

/-!
# Helpers

A helper is a function that converts between two named types. Helpers are found by the same walk
that code takes, without building it: a helper is built at the first pair of types that asks for its
name. The names that were met are kept, also when the walk fails, so that later conversions do not
build a helper again.

## Names and bodies

A name is all that is remembered of a helper while others are looked for. That one name stands for
one body is not ensured by the search: lists of helpers that were built for different requests are
joined by name, and joining compares the bodies and stops where two differ (`append`).

## The end of the search

Below a pair the search follows what is converted in place, and at a helper it goes into the helper
once. So on a cyclic graph it ends because there are only so many names, while a cycle that calls no
helper is unfolded without end by the code and by the search alike, and uses up the budget.
-/

namespace Shapewright

/-- A function that converts a value of one named type into another. -/
structure Helper where
  name : String
  param : TypeRef
  result : TypeRef
  /-- The whole body, which ends by returning the result. -/
  body : Block
deriving BEq, Inhabited

namespace Helper

def func (h : Helper) : Func where
  name := h.name
  doc := some (h.name ++ " builds a value of type " ++ h.result.print ++ " from a value of type "
    ++ h.param.print ++ ".")
  params := [⟨some "v", h.param⟩]
  results := [⟨none, h.result⟩]
  body := h.body

/-- Helpers by name. -/
def sorted (helpers : List Helper) : List Helper :=
  helpers.mergeSort fun a b => decide (a.name ≤ b.name)

/-- Adds helpers behind those that are there, leaving out those that are there already. Stops at one
    that differs from a helper of its name; what was added before that stays added. -/
def append (into : List Helper) : List Helper → List Helper × Option Fault
  | [] => (into, none)
  | h :: rest =>
    match into.find? (·.name == h.name) with
    | none => append (into ++ [h]) rest
    | some known =>
      if known == h then append into rest
      else (into, some (.defect (.helperClash h.name)))

/-- Adds helpers and sorts all of them by name. When that fails, what was added before stays behind
    the others, unsorted. -/
def merge (into more : List Helper) : List Helper × Option Fault :=
  match append into more with
  | (all, none) => (sorted all, none)
  | (all, some clash) => (all, some clash)

/-- All of some helpers and others, by name. -/
def union (into more : List Helper) : Except Fault (List Helper) :=
  match merge into more with
  | (all, none) => .ok all
  | (_, some clash) => .error clash

end Helper

/-- A walk that keeps the names of the helpers it has met. The names are under the fault, so they
    are kept when a walk fails, but are gone when it runs out of steps. -/
abbrev HelperWalk (α : Type) := ExceptT Fault (StateT (List String) Option) α

namespace HelperWalk

/-- A walk that meets no helpers. -/
def ofWalk {α : Type} (w : Walk α) : HelperWalk α := ExceptT.mk (StateT.lift w.run)

instance : MonadLift Walk HelperWalk := ⟨ofWalk⟩

/-- Meets a helper: whether it is new. A helper is met before it is built, so that its own code may
    call it. -/
def meet (name : String) : HelperWalk Bool := do
  let met ← get
  if met.contains name then pure false
  else
    set (name :: met)
    pure true

end HelperWalk

/-- Two attributes of which one is converted into the other somewhere, and whether the value is
    known not to be nil there. -/
structure HelperSite where
  source : Attribute
  target : Attribute
  required : Bool

namespace HelperSite

/-- The site inside the helper, from its parameter to its result. -/
def inner (x : HelperSite) : Site := .between x.source x.target "v" "res"

/-- The code in front of it. Where the value may be nil, so may the result, and the helper returns
    at once. -/
def guard (x : HelperSite) : Block :=
  if x.required then [] else [.when (Expr.ident "v").isNil [.ret [.nil]]]

end HelperSite

namespace Conversion

/-- The two attributes with the box of the wire side opened, if that side is a box. The other side
    is left as it is, even if it is a box too. -/
def openBox? (c : Conversion) (source target : Attribute) :
    Except Fault (Option (Attribute × Attribute)) := do
  match c.wire with
  | .target => return (← c.registry.unbox? target).map fun inner => (source, inner)
  | .source => return (← c.registry.unbox? source).map fun inner => (inner, target)

/-- The two attributes, or what a box of the wire side makes of them if they do not fit
    otherwise. -/
def reconcile (c : Conversion) (source target : Attribute) : Walk (Attribute × Attribute) := do
  match ← (c.registry.compatible source target {}).outcome with
  | .ok () => pure (source, target)
  | .error why =>
    match ← c.openBox? source target with
    | none => throw why
    | some inner =>
      c.registry.compatible inner.1 inner.2 {}
      pure inner

/-- The pairs of attributes one level below two attributes. With each comes whether its value is
    sure to be there. Elements, keys and entries may be nil, an alternative is what the switch has
    found, and for a field it is what the source declares. -/
def members (c : Conversion) (source target : Attribute) : Except Fault (List HelperSite) := do
  let reg := c.registry
  match ← reg.kind source with
  | .primitive _ => return []
  | .array =>
    match ← reg.elem? source, ← reg.elem? target with
    | some s, some t => return [⟨s, t, false⟩]
    | _, _ => return []
  | .map =>
    match ← reg.entry? source, ← reg.entry? target with
    | some (sk, se), some (tk, te) => return [⟨sk, tk, false⟩, ⟨se, te, false⟩]
    | _, _ => return []
  | .union =>
    match ← reg.union? target with
    | none => return []
    | some _ =>
      let (s, t) ← c.unions source target
      return (s.2.zip t.2).map fun ((_, a), (_, b)) => ⟨a, b, true⟩
  | .object =>
    match ← ObjectView.of? reg source, ← ObjectView.of? reg target with
    | some s, some t =>
      return (matchFields s t).map fun m => ⟨m.source, m.target, s.requires m.name⟩
    | _, _ => return []

/-- The helper of a site. It takes the value as `v` and returns `res`. The check for nil stands in
    front, unless the value was required at the position that asks for the helper. -/
def helper (c : Conversion) (name : String) (site : HelperSite) : Walk Helper := do
  let param ← c.sourceRef site.source
  let result ← c.targetRef site.target
  let code ← c.inline site.inner
  pure { name, param, result, body := site.guard ++ code ++ [.ret [.ident "res"]] }

/-! ## The search for helpers

The search makes something of every helper it meets for the first time, which is the helper itself
where code is built. -/

section

variable {α : Type}

/-- What is made below some sites, with `collect` for one site. They are gone through in order, and
    each finds met what was met for those before it. -/
def collectAll (collect : HelperSite → HelperWalk (List α)) :
    List HelperSite → HelperWalk (List α)
  | [] => pure []
  | site :: rest => do
    let made ← collect site
    return made ++ (← collectAll collect rest)

/-- What is made below two attributes, which are themselves converted in place. -/
def collectMembers (c : Conversion) (collect : HelperSite → HelperWalk (List α))
    (source target : Attribute) : HelperWalk (List α) := do
  let (s, t) ← c.reconcile source target
  collectAll collect (← c.members s t)

/-- What is made at a site and below it, within a number of levels. A site that calls a helper is
    where something is made, if the name is new; below a helper that was met before there is nothing
    new. Any other site is converted in place, and only what is below it counts. -/
def collectWithin (c : Conversion) (make : String → HelperSite → Walk α) :
    (levels : Nat) → HelperSite → HelperWalk (List α)
  | 0, _ => HelperWalk.ofWalk .exhausted
  | levels + 1, site => do
    if ← c.callsHelper site.source site.target then
      let name ← c.helperName site.source site.target
      if ← HelperWalk.meet name then
        let made ← make name site
        return made :: (← c.collectMembers (c.collectWithin make levels) site.source site.target)
      else return []
    else c.collectMembers (c.collectWithin make levels) site.source site.target

/-- More levels than a search can have without going round in circles: one round over the pairs
    of positions for each helper. -/
def searchBudget (c : Conversion) (source target : Attribute) : Nat :=
  let pairs := c.registry.pairBudget source target
  pairs * pairs

/-- What is made below two attributes, in the order in which it is met. -/
def collect (c : Conversion) (make : String → HelperSite → Walk α) (source target : Attribute) :
    HelperWalk (List α) :=
  c.collectMembers (c.collectWithin make (c.searchBudget source target)) source target

end

/-- The new helpers that a conversion of one attribute into another calls, by name. The order in
    which they are found does not show in the result. -/
def helpers (c : Conversion) (source target : Attribute) : HelperWalk (List Helper) := do
  return Helper.sorted (← c.collect c.helper source target)

/-- The code of a conversion, and the helpers it calls that are not there yet. -/
structure Compiled where
  body : Block
  helpers : List Helper

/-- Builds the code of a site and its new helpers. The code comes first, so a fault of the code is
    reported before any of the helpers. -/
def compile (c : Conversion) (s : Site) : HelperWalk Compiled := do
  let body ← c.inline s
  return { body, helpers := ← c.helpers s.source s.target }

end Conversion

namespace HelperWalk

/-- The walk when no helpers were met before. -/
def alone {α : Type} (w : HelperWalk α) : Walk α := ExceptT.mk ((w.run.run []).map (·.1))

/-- The outcome of a walk after the helpers in `met`, and the helpers met after it. -/
def outcomeFrom {α : Type} (met : List String) (w : HelperWalk α) : Except Fault α × List String :=
  (w.run.run met).getD (.error (.defect .endless), met)

end HelperWalk
end Shapewright
