import Shapewright.Conversion.Helper

/-!
# Plans

A request is carried out along a plan, which says how the two sides are represented and keeps track
of where the emitters are: how many loops are around them, whether they are inside of a box, and
which helpers they have met. The first two are changed on the way into a nested position and put
back on the way out, whatever became of the code there, so that one plan serves many requests.

The emitters here are those of the modules above, with the plan in place of what a site says about
its surroundings.
-/

namespace Shapewright

structure Plan where
  source : Context
  target : Context
  /-- The first word of the names of helpers; there may be none. -/
  verb : String := "transform"
  /-- The side that may have boxes which the other side lacks. -/
  wire : Side := .target
  /-- Set while the inside of a box is converted, where no further box is opened. -/
  inBox : Bool := false
  /-- The number of loops around the position. -/
  depth : Nat := 0
  /-- The helpers that are built already, or being built. -/
  met : List String := []

/-- A walk along a plan. What it has changed when it fails stays changed. -/
abbrev PlanWalk (α : Type) := ExceptT Fault (StateT Plan Option) α

namespace PlanWalk

variable {α : Type}

/-- A walk that does without the plan. -/
def ofWalk (w : Walk α) : PlanWalk α := ExceptT.mk (StateT.lift w.run)

instance : MonadLift Walk PlanWalk := ⟨ofWalk⟩

/-- The outcome of a walk, failure included. -/
def outcome (w : PlanWalk α) : PlanWalk (Except Fault α) := ExceptT.mk (.ok <$> w.run)

/-- Goes on with an outcome. -/
def resume (o : Except Fault α) : PlanWalk α := ExceptT.mk (pure o)

/-- Walks with the mark of a box set or not. The mark is put back as it was, whether the walk fails
    or not. -/
def boxed (inBox : Bool) (w : PlanWalk α) : PlanWalk α := do
  let saved := (← get).inBox
  modify fun p => { p with inBox }
  let o ← w.outcome
  modify fun p => { p with inBox := saved }
  resume o

/-- Walks inside of one more loop. The depth is put back, whether the walk fails or not. -/
def looped (w : PlanWalk α) : PlanWalk α := do
  modify fun p => { p with depth := p.depth + 1 }
  let o ← w.outcome
  modify fun p => { p with depth := p.depth - 1 }
  resume o

/-- Walks through the body of a function, which has no loops around it. The depth is put back as it
    was, whether the walk fails or not. -/
def unlooped (w : PlanWalk α) : PlanWalk α := do
  let saved := (← get).depth
  modify fun p => { p with depth := 0 }
  let o ← w.outcome
  modify fun p => { p with depth := saved }
  resume o

/-- Meets a helper: whether it is new. -/
def meet (name : String) : PlanWalk Bool := do
  let p ← get
  if p.met.contains name then pure false
  else
    set { p with met := name :: p.met }
    pure true

end PlanWalk

/-- Builds the code of a site along a plan. -/
abbrev PlanEmit := Site → PlanWalk Block

namespace Site

/-- The site where the plan says that it is. -/
def under (s : Site) (p : Plan) : Site := { s with depth := p.depth, inBox := p.inBox }

end Site

namespace Plan

open PlanWalk (boxed looped unlooped)

variable (scope : Scope)

/-- The conversion that the plan is for. The flag, the depth and the names are left out, as they
    change along a walk. -/
def conversion (p : Plan) : Conversion where
  scope
  source := p.source
  target := p.target
  verb := p.verb
  wire := p.wire

/-- The conversion of the plan that is walked along. -/
def current : PlanWalk Conversion := do return (← get).conversion scope

/-! ## Code in place -/

/-- The code of a nested site: a call of a helper, or code in place, where a box may be opened
    again. -/
def nested (emit : PlanEmit) (s : Site) : PlanWalk Block := do
  let c ← current scope
  if ← c.callsHelper s.source s.target then
    let name ← c.helperName s.source s.target
    pure [s.store (.call name [s.value])]
  else boxed false (emit s)

def array (emit : PlanEmit) (s : Site) : PlanWalk Block := do
  let c ← current scope
  match ← c.registry.elem? s.source, ← c.registry.elem? s.target with
  | some source, some target =>
    let type ← c.targetRef target
    let s := s.under (← get)
    let body ← looped (nested scope emit (s.element source target))
    pure [s.store (.make (.slice type) (.len s.value)),
      .range (some (Conversion.loopIndex s.depth)) (some (Conversion.loopValue s.depth)) s.value
        body]
  | _, _ => throw (.defect .notArray)

/-- The code that converts a key and an element. -/
def entry (emit : PlanEmit) (key elem : Site) : PlanWalk (Block × Block) := do
  let keyCode ← nested scope emit key
  let elemCode ← nested scope emit elem
  pure (keyCode, elemCode)

def map (emit : PlanEmit) (s : Site) : PlanWalk Block := do
  let c ← current scope
  match ← c.registry.entry? s.source, ← c.registry.entry? s.target with
  | some (sourceKey, sourceElem), some (targetKey, targetElem) =>
    let keyType ← c.targetRef targetKey
    let elemType ← c.targetRef targetElem
    let s := s.under (← get)
    let (keyCode, elemCode) ← looped
      (entry scope emit (s.key sourceKey targetKey) (s.entry sourceElem targetElem))
    let newKey := Expr.ident (Conversion.loopNewKey s.depth)
    let newValue := Expr.ident (Conversion.loopNewValue s.depth)
    pure [s.store (.make (.map keyType elemType) (.len s.value)),
      .range (some (Conversion.loopKey s.depth)) (some (Conversion.loopValue s.depth)) s.value
        (keyCode ++ elemCode ++ [.set (s.place.index newKey) newValue])]
  | _, _ => throw (.defect .notMap)

/-- The code of a field that is structured, or a primitive that is boxed on one side. -/
def structuredField (emit : PlanEmit) (f : FieldSite) : PlanWalk Block := do
  let code ← nested scope emit (f.site (← get).depth)
  if code.isEmpty || (f.sourcePrimitive && !f.sourcePointer) then pure code
  else pure [f.ifPresent code]

def laterValue (emit : PlanEmit) (f : FieldSite) : PlanWalk Block :=
  if f.isPrimitive then pure [] else structuredField scope emit f

/-- The code that follows the allocation of an object, field by field. -/
def laterFields (emit : PlanEmit) : List FieldSite → PlanWalk Block
  | [] => pure []
  | f :: rest => do
    let c ← current scope
    let code ← laterValue scope emit f
    let default ← c.laterDefault f
    pure (code ++ default ++ (← laterFields emit rest))

def object (emit : PlanEmit) (s : Site) : PlanWalk Block := do
  let c ← current scope
  match ← ObjectView.of? c.registry s.source with
  | none => throw (.defect .notObjectSource)
  | some source =>
    match ← ObjectView.of? c.registry s.target with
    | none => throw (.defect .notObjectTarget)
    | some target =>
      let walk : Walk (List FieldSite) :=
        (matchFields source target).mapM (c.fieldSite s source target)
      let fields ← walk
      let s := s.under (← get)
      let taken := Conversion.loopScope s.depth ++ s.value.root?.toList ++ s.place.root?.toList
      let code ← c.primitiveFields taken (fields.filter (·.isPrimitive))
      let type ← c.targetRef s.target
      let later ← laterFields scope emit fields
      pure (s.store (.allocate type code.literal) :: (code.after ++ later))

/-- The code for one alternative of a union. Where the source is a named object the value is
    converted as it stands. Otherwise it is stored in the wrapper of the target's alternative, by
    way of a variable unless it is a primitive. -/
def alternative (emit : PlanEmit) (s : Site) (target : UnionType) (index : Nat) (a b : Attribute) :
    PlanWalk Block := do
  let c ← current scope
  let s := s.under (← get)
  let site := s.alternative a b
  if ← c.scope.isNamedObject a then nested scope emit site
  else
    let wrapper ← c.scope.alternativeRef c.target target.1 target.2 index
    if ← c.registry.isPrimitive a then
      c.compatible site
      pure [.set s.place (.convert wrapper site.value)]
    else
      let inner := s.wrapped a b
      let code ← boxed false (emit inner)
      pure (code ++ [.set s.place (.convert wrapper inner.place)])

def cases (emit : PlanEmit) (s : Site) (source target : UnionType) :
    (index : Nat) → List (Attribute × Attribute) → PlanWalk (List (TypeRef × Block))
  | _, [] => pure []
  | index, (a, b) :: rest => do
    let c ← current scope
    let type ← c.scope.alternativeRef c.source source.1 source.2 index
    let body ← alternative scope emit s target index a b
    pure ((type, body) :: (← cases emit s source target (index + 1) rest))

def union (emit : PlanEmit) (s : Site) : PlanWalk Block := do
  let c ← current scope
  let (source, target) ← c.unions s.source s.target
  let declared ← c.declaration s
  let pairs := (source.2.map Prod.snd).zip (target.2.map Prod.snd)
  let cases ← cases scope emit s source target 0 pairs
  pure (declared ++ [.typeSwitch "actual" s.value cases])

/-- The code of a site whose attributes are compatible. Anything but a primitive is stored as it is
    where the target takes any value. -/
def byKind (emit : PlanEmit) (s : Site) : PlanWalk Block := do
  let c ← current scope
  let source ← c.registry.kind s.source
  let target ← c.registry.kind s.target
  if target = .primitive .any && !source.isPrimitive then pure [s.store s.value]
  else
    match source with
    | .array => array scope emit s
    | .map => map scope emit s
    | .object => object scope emit s
    | .union => union scope emit s
    | .primitive _ => c.primitive s

/-- The code of a site, with `emit` for the sites below it. Where the two do not fit, a box on the
    wire side is opened once. Inside a box no other one is. -/
def attrVia (emit : PlanEmit) (s : Site) : PlanWalk Block := do
  let c ← current scope
  let s := s.under (← get)
  match ← (c.compatible s).outcome with
  | .ok () => boxed false (byKind scope emit s)
  | .error why =>
    if s.inBox then throw why
    else
      let (box, inner) ← c.unboxed s why
      c.compatible inner
      pure (box ++ (← boxed true (byKind scope emit inner)))

/-- The code of a site, in which at most `levels` sites are nested. -/
def attrWithin : (levels : Nat) → PlanEmit
  | 0 => fun _ => PlanWalk.ofWalk .exhausted
  | levels + 1 => attrVia scope (attrWithin levels)

/-- The code of a site. -/
def inline (s : Site) : PlanWalk Block :=
  attrWithin scope (scope.registry.pairBudget s.source s.target) s

/-! ## Helpers -/

/-- The helper of a site. -/
def helper (name : String) (site : HelperSite) : PlanWalk Helper := do
  let c ← current scope
  let param ← c.sourceRef site.source
  let result ← c.targetRef site.target
  let code ← unlooped (boxed false (inline scope site.inner))
  pure { name, param, result, body := site.guard ++ code ++ [.ret [.ident "res"]] }

/-- The helpers below some sites, with `collect` for one site. -/
def collectAll (collect : HelperSite → PlanWalk (List Helper)) :
    List HelperSite → PlanWalk (List Helper)
  | [] => pure []
  | site :: rest => do
    let made ← collect site
    pure (made ++ (← collectAll collect rest))

def collectMembers (collect : HelperSite → PlanWalk (List Helper)) (source target : Attribute) :
    PlanWalk (List Helper) := do
  let c ← current scope
  let (s, t) ← c.reconcile source target
  collectAll collect (← c.members s t)

def collectWithin : (levels : Nat) → HelperSite → PlanWalk (List Helper)
  | 0, _ => PlanWalk.ofWalk .exhausted
  | levels + 1, site => do
    let c ← current scope
    if ← c.callsHelper site.source site.target then
      let name ← c.helperName site.source site.target
      if ← PlanWalk.meet name then
        let made ← helper scope name site
        pure (made :: (← collectMembers scope (collectWithin levels) site.source site.target))
      else pure []
    else collectMembers scope (collectWithin levels) site.source site.target

/-- The new helpers that a conversion of one attribute into another calls, by name. They are sorted
    by name, so the order in which they were found does not show. -/
def helpers (source target : Attribute) : PlanWalk (List Helper) := do
  let c ← current scope
  let found ← collectMembers scope (collectWithin scope (c.searchBudget source target)) source
    target
  pure (Helper.sorted found)

/-- Builds the code of a conversion between two variables, and its new helpers. The code is built
    first. Helpers are looked for on their own, along the same types. -/
def compile (source target : Attribute) (value place : String) (declare : Bool) :
    PlanWalk Conversion.Compiled := do
  let body ← inline scope (.between source target value place declare)
  let helpers ← helpers scope source target
  pure { body, helpers }

end Plan

namespace PlanWalk

/-- The outcome of a walk along a plan, and the plan after it. -/
def outcomeFrom {α : Type} (p : Plan) (w : PlanWalk α) : Except Fault α × Plan :=
  (w.run.run p).getD (.error (.defect .endless), p)

end PlanWalk
end Shapewright
