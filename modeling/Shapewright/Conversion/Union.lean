import Shapewright.Conversion

/-!
# Converting unions

The code switches over the type of the value. Alternatives correspond by position, whatever their
names.

Values of a union are stored behind an interface, so what an alternative is stored as has to be one
of the types that implement it. A named object is such a type itself. For any other alternative
there is a wrapper with one field, whose name is made of the union and the alternative. Which of the
two is used is decided by the alternative of the source alone.

Where the place is to be declared, that happens in front of the switch, since every case assigns it.
-/

namespace Shapewright

/-- A union: its name and its alternatives. -/
abbrev UnionType := String × List (String × Attribute)

namespace Site

/-- The site of an alternative that is stored as it is. -/
def alternative (s : Site) (source target : Attribute) : Site where
  source
  target
  value := .ident "actual"
  place := s.place
  declare := false
  depth := s.depth

/-- The site of an alternative that is stored in a wrapper. -/
def wrapped (s : Site) (source target : Attribute) : Site :=
  { s.alternative source target with place := .ident "conv", declare := true }

end Site

namespace Conversion

/-- The unions behind two attributes, which must have equally many alternatives. Names and types of
    the alternatives are not compared here. -/
def unions (c : Conversion) (source target : Attribute) : Except Fault (UnionType × UnionType) := do
  match ← c.registry.union? source, ← c.registry.union? target with
  | some s, some t =>
    if s.2.length = t.2.length then return (s, t)
    else throw (.arity s.1 s.2.length t.1 t.2.length)
  | _, _ => throw (.defect .notUnion)

/-- The code for one alternative: the value is bound to `actual`. A named object is stored as it
    is, any other alternative in the wrapper of the alternative it becomes. -/
def alternative (c : Conversion) (emit : Emit) (s : Site) (target : UnionType) (index : Nat)
    (a b : Attribute) : Walk Block := do
  let site := s.alternative a b
  if ← c.scope.isNamedObject a then c.nested emit site
  else
    let wrapper ← c.scope.alternativeRef c.target target.1 target.2 index
    if ← c.registry.isPrimitive a then
      c.compatible site
      pure [.set s.place (.convert wrapper site.value)]
    else
      let inner := s.wrapped a b
      let code ← emit inner
      pure (code ++ [.set s.place (.convert wrapper inner.place)])

/-- The cases of the switch, from the alternative at `index` on. The index counts along in both
    unions, which have equally many alternatives. -/
def cases (c : Conversion) (emit : Emit) (s : Site) (source target : UnionType) :
    (index : Nat) → List (Attribute × Attribute) → Walk (List (TypeRef × Block))
  | _, [] => pure []
  | index, (a, b) :: rest => do
    let type ← c.scope.alternativeRef c.source source.1 source.2 index
    let body ← c.alternative emit s target index a b
    pure ((type, body) :: (← c.cases emit s source target (index + 1) rest))

/-- The declaration of the place, where the site asks for one. A union is an interface value and
    cannot be declared by storing in it, as each case stores something else. -/
def declaration (c : Conversion) (s : Site) : Walk Block := do
  if s.declare then
    match s.place with
    | .ident name => pure [.declare name (← c.targetRef s.target) none]
    | _ => .defect .declaredPlace
  else pure []

/-- The code of a site with unions on both sides. Nothing is stored where the value is none of the
    alternatives, so a value that is nil stays nil. -/
def union (c : Conversion) (emit : Emit) (s : Site) : Walk Block := do
  let (source, target) ← c.unions s.source s.target
  let declared ← c.declaration s
  let pairs := (source.2.map Prod.snd).zip (target.2.map Prod.snd)
  let cases ← c.cases emit s source target 0 pairs
  pure (declared ++ [.typeSwitch "actual" s.value cases])

end Conversion
end Shapewright
