import Shapewright.Proofs.Conversion.Closure
import Shapewright.Proofs.Guards

/-!
# Code looks at pointers before it follows them

Whatever the code of a conversion dereferences is known not to be nil: a test around the place says
so, or the source declares that the field is required. And the code for a field whose source is not
a primitive, be it in place or the call of a helper, is inside a test of that very field.

Both are said of the steps of the code. A step belongs to the site whose emitter wrote it (`Does`),
and on the way to that site it passes the fields that have to be tested around it. The proof goes
through the emitters once, with what is known around a site as the invariant (`Site.Shielded`); the
induction on the levels of nesting comes last.

## What has to be tested

A field that is a structure may be nil whatever its type says, and even if it is required: the code
tests it in any case, and `FieldSite.guards` asks for that. A required primitive is different. Where
its side holds it by a pointer, the pointer is followed without a test. This is what the second
alternative in `Guarded.derefs` admits, and it is the only one.

The second half needs to say which fields a step takes part in converting. Reading this off the text
would be hopeless, as the same expression may turn up for another reason. So `Does` repeats the
nesting of the emitters as a relation between sites and statements, and collects the guards of the
fields it goes through. It covers loops, tests and defaults as well as what is stored at the end.

## The proof

`StepAt` says what one emitter contributes: steps of its own, which follow only what is known, and
the code of sites below, behind what has to be tested there. There is one lemma for each emitter, of
which those for objects are the long ones. They split a field by the representation of its two
sides, and whether it is required, has a default or needs a conversion of types.
`attrWithin_guarded` then composes the levels: below a site code only ever stands behind more tests.
-/

namespace Shapewright

namespace Site

/-- What the value of the site dereferences is known not to be nil. The place dereferences nothing,
    as it is made of variables, fields and indices. -/
structure Shielded (s : Site) (known : List Expr) : Prop where
  value : s.value.derefs ⊆ known
  place : s.place.derefs = []

namespace Shielded

variable {s : Site} {known : List Expr}

theorem ident_derefs (name : String) : (Expr.ident name).derefs ⊆ known := by
  rw [Expr.derefs]
  exact List.nil_subset known

theorem between (a b : Attribute) (value place : String) (declare : Bool) (depth : Nat)
    (inBox : Bool) : (Site.between a b value place declare depth inBox).Shielded known where
  value := ident_derefs value
  place := by rw [Site.between, Expr.derefs]

theorem store (hs : s.Shielded known) (e : Expr) : (s.store e).derefs = e.derefs := by
  rw [Site.store, Stmt.derefs, hs.place, List.nil_append]

theorem element (hs : s.Shielded known) (x y : Attribute) : (s.element x y).Shielded known where
  value := ident_derefs _
  place := by rw [Site.element, Expr.derefs, Expr.derefs, hs.place, List.append_nil]

theorem key (s : Site) (x y : Attribute) : (s.key x y).Shielded known where
  value := ident_derefs _
  place := by rw [Site.key, Expr.derefs]

theorem entry (s : Site) (x y : Attribute) : (s.entry x y).Shielded known where
  value := ident_derefs _
  place := by rw [Site.entry, Expr.derefs]

theorem alternative (hs : s.Shielded known) (x y : Attribute) :
    (s.alternative x y).Shielded known where
  value := ident_derefs _
  place := hs.place

theorem wrapped (s : Site) (x y : Attribute) : (s.wrapped x y).Shielded known where
  value := ident_derefs _
  place := by rw [Site.wrapped, Expr.derefs]

end Shielded
end Site

/-- What has to be tested around the code of a field: the field, unless its source is primitive.
    Structures are tested even where they are required. -/
def FieldSite.guards (f : FieldSite) : List Expr := if f.sourcePrimitive then [] else [f.value]

namespace Conversion

open Relation

variable {c : Conversion} {emit : Emit} {s t : Site} {b : Block} {known : List Expr}
  {step : CodeStep}

/-! ## Which site a step belongs to -/

/-- The field site is that of a field of the objects at the site. Everything that is known of a
    field in code is drawn from this. -/
inductive FieldAt (c : Conversion) (s : Site) (f : FieldSite) : Prop where
  | intro {v w : ObjectView} {m : FieldMatch}
      (hv : ObjectView.of? c.registry s.source = .ok (some v))
      (hw : ObjectView.of? c.registry s.target = .ok (some w)) (hm : m ∈ matchFields v w)
      (hf : (c.fieldSite s v w m).Yields f)

theorem FieldAt.of_mem {v w : ObjectView} {fields : List FieldSite}
    (hv : ObjectView.of? c.registry s.source = .ok (some v))
    (hw : ObjectView.of? c.registry s.target = .ok (some w))
    (hfields : List.Forall₂ (fun m f => (c.fieldSite s v w m).Yields f) (matchFields v w) fields)
    (hf : f ∈ fields) : c.FieldAt s f := by
  obtain ⟨m, hm, hfm⟩ := forall₂_mem_right hfields hf
  exact .intro hv hw hm hfm

/-- A field that is not primitive on both sides has a site of its own. -/
theorem FieldAt.below {f : FieldSite} (h : c.FieldAt s f) (hp : f.isPrimitive = false) :
    c.Below s (f.site s.depth) := by
  cases h with
  | intro hv hw hm hf => exact .field hv hw hm hf hp

/-- The step is one that the emitter of a site writes itself, not one of a site below. One
    constructor for each thing that is written. -/
inductive Own (c : Conversion) (s : Site) : Stmt → Prop where
  | store (result : Expr) : Own c s (s.store result)
  | loop (key value : String) : Own c s (.range (some key) (some value) s.value [])
  | pair (key value : Expr) : Own c s (.set (s.place.index key) value)
  | declare {name : String} (type : TypeRef) (hp : s.place = .ident name) :
      Own c s (.declare name type none)
  | switch (binding : String) : Own c s (.typeSwitch binding s.value [])
  | wrap (type : TypeRef) (value : Expr) : Own c s (.set s.place (.convert type value))
  | test {f : FieldSite} (hf : c.FieldAt s f) : Own c s (.when f.value.notNil [])
  | primitive {f : FieldSite} {taken : List String} {result : Option Expr} {step : CodeStep}
      {known : List Expr} (hf : c.FieldAt s f) (hp : f.isPrimitive = true)
      (hr : c.converted? f.source f.target f.sourcePointer f.value = .ok result)
      (hm : step ∈ (primitiveFieldCode f taken result).after.steps known) : Own c s step.stmt
  | default {f : FieldSite} {b : Block} {step : CodeStep} {known : List Expr} (hf : c.FieldAt s f)
      (hd : c.laterDefault f = .ok b) (hm : step ∈ b.steps known) : Own c s step.stmt

/-- The second site is one level below the first, behind `guards`. Items of a collection and
    alternatives of a union need no test: what is nil is left to the helper. -/
inductive Enters (c : Conversion) (s : Site) : List Expr → Site → Prop where
  | item {t : Site} (hb : c.Below s t) (hk : c.registry.kind s.source ≠ .ok .object) :
      Enters c s [] t
  | field {f : FieldSite} (hf : c.FieldAt s f) (hp : f.isPrimitive = false) :
      Enters c s f.guards (f.site s.depth)
  | wrapped {t : Site} (ht : c.Wraps s t) : Enters c s [] t

/-- The code of the site does the step, by itself or for a site below it. The conversions that the
    step is part of are those of the fields `guards` and, between them, of what needs no test. -/
inductive Does (c : Conversion) : Site → List Expr → Stmt → Prop where
  | own {s inner : Site} {stmt : Stmt} (ho : c.Opens s inner) (h : c.Own inner stmt) :
      Does c s [] stmt
  | box {s inner : Site} (ho : c.Opens s inner) (type : TypeRef) :
      Does c s [] (s.store (.allocate type []))
  | call {s inner t : Site} {guards : List Expr} {name : String} (ho : c.Opens s inner)
      (he : c.Enters inner guards t) (hc : (c.callsHelper t.source t.target).Yields true)
      (hn : c.helperName t.source t.target = .ok name) :
      Does c s guards (t.store (.call name [t.value]))
  | nested {s inner t : Site} {guards more : List Expr} {stmt : Stmt} (ho : c.Opens s inner)
      (he : c.Enters inner guards t)
      (hc : (c.callsHelper t.source t.target).Yields false ∨ c.Wraps inner t)
      (h : Does c t more stmt) : Does c s (guards ++ more) stmt

/-- The expression selects a field that the source of the site declares as required. Such a field is
    followed without a test: that it is not nil is up to whoever gives the value. -/
inductive RequiredAt (c : Conversion) (s : Site) : Expr → Prop where
  | intro {v w : ObjectView} {m : FieldMatch}
      (hv : ObjectView.of? c.registry s.source = .ok (some v))
      (hw : ObjectView.of? c.registry s.target = .ok (some w)) (hm : m ∈ matchFields v w)
      (hr : v.requires m.name = true) : RequiredAt c s (s.value.field (v.fieldName m.name))

/-- The expression selects a required field of some source object whose conversion is in place in
    the code of the site. -/
def RequiredField (c : Conversion) (s : Site) (e : Expr) : Prop :=
  ∃ u inner, ReflTransGen c.InPlace s u ∧ c.Opens u inner ∧ c.RequiredAt inner e

/-- What the step follows is known not to be nil, or is a required field. And every field that the
    step takes part in converting is known not to be nil, unless its source is a primitive. -/
structure Guarded (c : Conversion) (s : Site) (step : CodeStep) : Prop where
  derefs : ∀ e ∈ step.stmt.derefs, e ∈ step.known ∨ c.RequiredField s e
  fields : ∃ guards, c.Does s guards step.stmt ∧ guards ⊆ step.known

/-- The code of a site is guarded throughout. Nothing is known to be there at its beginning. -/
def NilSafe (c : Conversion) (s : Site) (b : Block) : Prop :=
  ∀ step ∈ b.steps [], c.Guarded s step

/-- A helper has guarded code between a check of its parameter and the return of the result, and
    these two follow nothing. -/
inductive SafeHelper (c : Conversion) (h : Helper) : Prop where
  | intro {x : HelperSite} {code : Block} (hyields : (c.helper h.name x).Yields h)
      (shape : h.body = x.guard ++ code ++ [.ret [.ident "res"]]) (safe : c.NilSafe x.inner code)
      (derefs : ∀ step ∈ h.body.steps [], ∀ e ∈ step.stmt.derefs,
        e ∈ step.known ∨ c.RequiredField x.inner e) : SafeHelper c h

/-! ## One level -/

/-- The step is one that the emitter of a site writes, or one in the code of a site one level
    below, which stands behind what has to be tested there. -/
inductive StepAt (c : Conversion) (emit : Emit) (s : Site) (step : CodeStep) : Prop where
  | own (ho : c.Own s step.stmt)
      (hd : ∀ e ∈ step.stmt.derefs, e ∈ step.known ∨ c.RequiredAt s e) : StepAt c emit s step
  | nested {t : Site} {guards known : List Expr} {code : Block} (hb : c.Below s t)
      (he : c.Enters s guards t) (hs : t.Shielded known) (hg : guards ⊆ known)
      (hc : (c.nested emit t).Yields code) (hm : step ∈ code.steps known) : StepAt c emit s step
  | wrapped {t : Site} {known : List Expr} {code : Block} (ht : c.Wraps s t)
      (hs : t.Shielded known) (hc : (emit t).Yields code) (hm : step ∈ code.steps known) :
      StepAt c emit s step

/-- A step that follows nothing but what is known is the site's own. -/
theorem StepAt.plain {stmt : Stmt} (ho : c.Own s stmt) (hd : stmt.derefs ⊆ known) :
    c.StepAt emit s ⟨known, stmt⟩ :=
  .own ho fun _ he => Or.inl (hd he)

theorem StepAt.store (hs : s.Shielded known) {e : Expr} (he : e.derefs ⊆ known) :
    c.StepAt emit s ⟨known, s.store e⟩ :=
  .plain (.store e) (by rwa [hs.store])

theorem array_steps (hs : s.Shielded known) (h : (c.array emit s).Yields b)
    (hm : step ∈ b.steps known) : c.StepAt emit s step := by
  obtain ⟨x, y, type, body, hx, hy, -, hb, rfl⟩ := array_yields.mp h
  have hk : c.registry.kind s.source ≠ .ok .object := by simp [Registry.kind_of_elem hx]
  rw [Site.store, Block.steps_cons, Stmt.steps_assign, Block.steps_cons, Stmt.steps_range,
    Block.steps_nil, List.append_nil, List.singleton_append, List.mem_cons, List.mem_cons] at hm
  rcases hm with rfl | rfl | hm
  · refine .store hs ?_
    rw [Expr.derefs, Expr.derefs]
    exact hs.value
  · exact .plain (.loop _ _) hs.value
  · exact .nested (.element hx hy) (.item (.element hx hy) hk) (hs.element x y)
      (List.nil_subset known) hb hm

theorem map_steps (hs : s.Shielded known) (h : (c.map emit s).Yields b)
    (hm : step ∈ b.steps known) : c.StepAt emit s step := by
  obtain ⟨k, x, l, y, keyType, elemType, keyCode, elemCode, hx, hy, -, -, hkey, helem, rfl⟩ :=
    map_yields.mp h
  have hk : c.registry.kind s.source ≠ .ok .object := by simp [Registry.kind_of_entry hx]
  rw [Site.store, Block.steps_cons, Stmt.steps_assign, Block.steps_cons, Stmt.steps_range,
    Block.steps_append, Block.steps_append, Block.steps_cons, Stmt.set, Stmt.steps_assign,
    Block.steps_nil, List.append_nil, List.append_nil, List.singleton_append, List.mem_cons,
    List.mem_cons, List.mem_append, List.mem_append, List.mem_singleton] at hm
  -- The allocation, the loop, the code for key and entry, and the pair that is stored at the end.
  rcases hm with rfl | rfl | (hm | hm) | rfl
  · refine .store hs ?_
    rw [Expr.derefs, Expr.derefs]
    exact hs.value
  · exact .plain (.loop _ _) hs.value
  · exact .nested (.key hx hy) (.item (.key hx hy) hk) (.key s k l) (List.nil_subset known) hkey hm
  · exact .nested (.entry hx hy) (.item (.entry hx hy) hk) (.entry s x y) (List.nil_subset known)
      helem hm
  · refine .plain (.pair _ _) ?_
    rw [Stmt.derefs, Expr.derefs, Expr.derefs, Expr.derefs, hs.place]
    exact List.nil_subset known

theorem declaration_steps (h : (c.declaration s).Yields b) (hm : step ∈ b.steps known) :
    c.StepAt emit s step := by
  unfold declaration at h
  split at h
  · split at h
    · rename_i name hp
      simp only [Walk.yields_bind, Walk.yields_liftM, Walk.yields_pure] at h
      obtain ⟨type, -, rfl⟩ := h
      rw [Block.steps_cons, Stmt.steps, Block.steps_nil, List.append_nil, List.mem_singleton] at hm
      subst hm
      exact .plain (.declare type hp) (by rw [Stmt.derefs]; exact List.nil_subset known)
    · simp at h
  · rw [Walk.yields_pure] at h
    rw [← h, Block.steps_nil] at hm
    exact absurd hm List.not_mem_nil

theorem alternative_steps {u v : UnionType} {index : Nat} {x y : Attribute}
    (hs : s.Shielded known) (hu : c.unions s.source s.target = .ok (u, v))
    (hxy : (x, y) ∈ (u.2.map Prod.snd).zip (v.2.map Prod.snd))
    (h : (c.alternative emit s v index x y).Yields b) (hm : step ∈ b.steps known) :
    c.StepAt emit s step := by
  have hk : c.registry.kind s.source ≠ .ok .object := by
    simp [Registry.kind_of_union (unions_eq_ok.mp hu).1]
  -- The value of an alternative is a variable, and so is the place of one in a wrapper.
  have hwrap : ∀ (type : TypeRef) (name : String),
      c.StepAt emit s ⟨known, .set s.place (.convert type (.ident name))⟩ := by
    intro type name
    refine .plain (.wrap type _) ?_
    rw [Stmt.set, Stmt.derefs, hs.place, Expr.derefs, Expr.derefs]
    exact List.nil_subset known
  rcases alternative_yields.mp h with
    ⟨hn, hcode⟩ | ⟨hn, wrapper, -, ⟨-, -, rfl⟩ | ⟨hp, code, hcode, rfl⟩⟩
  · exact .nested (.alternative hu hxy hn) (.item (.alternative hu hxy hn) hk)
      (hs.alternative x y) (List.nil_subset known) hcode hm
  · rw [Block.steps_cons, Stmt.set, Stmt.steps_assign, Block.steps_nil, List.append_nil,
      List.mem_singleton] at hm
    exact hm ▸ hwrap wrapper _
  · rw [Block.steps_append, Block.steps_cons, Stmt.set, Stmt.steps_assign, Block.steps_nil,
      List.append_nil, List.mem_append, List.mem_singleton] at hm
    rcases hm with hm | rfl
    · exact .wrapped (.alternative hu hxy hn hp) (.wrapped s x y) hcode hm
    · exact hwrap wrapper _

theorem union_steps (hs : s.Shielded known) (h : (c.union emit s).Yields b)
    (hm : step ∈ b.steps known) : c.StepAt emit s step := by
  obtain ⟨u, v, declared, cases, hu, hd, hcases, rfl⟩ := union_yields h
  rw [Block.steps_append, Block.steps_cons, Stmt.steps, Block.steps_nil, List.append_nil,
    List.mem_append, List.mem_cons] at hm
  rcases hm with hm | rfl | hm
  · exact declaration_steps hd hm
  · exact .plain (.switch "actual") hs.value
  · obtain ⟨x, hx, hm⟩ := Block.mem_steps_cases.mp hm
    obtain ⟨⟨a, d⟩, hq, index, hb⟩ := forall₂_mem_right (cases_yields hcases) hx
    exact alternative_steps hs hu hq hb hm

/-! ## Objects -/

theorem FieldAt.describes {f : FieldSite} (h : c.FieldAt s f) :
    ∃ v w m, ObjectView.of? c.registry s.source = .ok (some v) ∧
      ObjectView.of? c.registry s.target = .ok (some w) ∧ m ∈ matchFields v w ∧
      c.Describes s v w m f := by
  cases h with
  | intro hv hw hm hf => exact ⟨_, _, _, hv, hw, hm, fieldSite_describes hf⟩

theorem FieldAt.required {f : FieldSite} (h : c.FieldAt s f) (hr : f.required = true) :
    c.RequiredAt s f.value := by
  obtain ⟨v, w, m, hv, hw, hm, hd⟩ := h.describes
  rw [hd.value]
  exact .intro hv hw hm (hd.required ▸ hr)

/-- What the expressions of the field dereference is known not to be nil. A place is never reached
    through a pointer that is followed by hand. -/
structure FieldShielded (f : FieldSite) (known : List Expr) : Prop where
  value : f.value.derefs ⊆ known
  place : f.place.derefs = []

theorem FieldAt.shielded {f : FieldSite} (h : c.FieldAt s f) (hs : s.Shielded known) :
    FieldShielded f known := by
  obtain ⟨v, w, m, -, -, -, hd⟩ := h.describes
  constructor
  · rw [hd.value, Expr.derefs]
    exact hs.value
  · rw [hd.place, Expr.derefs, hs.place]

theorem FieldShielded.mono {f : FieldSite} {more : List Expr} (hf : FieldShielded f known)
    (h : known ⊆ more) : FieldShielded f more where
  value := List.Subset.trans hf.value h
  place := hf.place

/-- The expression is known not to be nil, or it is the field, which is required. A required field
    has been checked when the value was decoded, and is not checked again. -/
def Follows (f : FieldSite) (known : List Expr) (e : Expr) : Prop :=
  e ∈ known ∨ (e = f.value ∧ f.required = true)

/-- Code that follows nothing else. -/
structure CodeFollows (f : FieldSite) (known : List Expr) (code : ObjectCode) : Prop where
  literal : ∀ x ∈ code.literal, ∀ e ∈ x.2.derefs, Follows f known e
  after : ∀ step ∈ code.after.steps known, ∀ e ∈ step.stmt.derefs, Follows f step.known e

section Fields

variable {f : FieldSite} (hf : FieldShielded f known)
include hf

theorem FieldShielded.set {e : Expr} (he : ∀ x ∈ e.derefs, Follows f known x) :
    ∀ step ∈ Block.steps known [.set f.place e], ∀ x ∈ step.stmt.derefs,
      Follows f step.known x := by
  intro step hm x hx
  rw [Block.steps_cons, Stmt.set, Stmt.steps_assign, Block.steps_nil, List.append_nil,
    List.mem_singleton] at hm
  subst hm
  rw [Stmt.derefs, hf.place, List.nil_append] at hx
  exact he x hx

/-- Behind a test of the field, the field may be followed. The test makes the field known in the
    body only, so nothing behind the statement can rely on it. -/
theorem FieldShielded.ifPresent {body : Block}
    (h : ∀ step ∈ body.steps (f.value :: known), ∀ x ∈ step.stmt.derefs, Follows f step.known x) :
    ∀ step ∈ Block.steps known [f.ifPresent body], ∀ x ∈ step.stmt.derefs,
      Follows f step.known x := by
  intro step hm
  rw [Block.steps_cons, FieldSite.ifPresent, Stmt.steps_when, Block.steps_nil, List.append_nil,
    List.mem_cons, Expr.proves_notNil, List.singleton_append] at hm
  rcases hm with rfl | hm
  · intro x hx
    rw [Stmt.when, Stmt.derefs, Expr.derefs_notNil] at hx
    exact Or.inl (hf.value hx)
  · exact h step hm

theorem storeConverted_follows {taken : List String} {result : Expr}
    (hr : ∀ x ∈ result.derefs, Follows f known x) :
    ∀ step ∈ (storeConverted f taken result).steps known, ∀ x ∈ step.stmt.derefs,
      Follows f step.known x := by
  unfold storeConverted
  split
  · intro step hm x hx
    rw [Block.steps_cons, Stmt.steps_assign, List.singleton_append, List.mem_cons] at hm
    rcases hm with rfl | hm
    · rw [Stmt.derefs, Expr.derefs, List.nil_append] at hx
      exact hr x hx
    · refine hf.set ?_ step hm x hx
      simp [Expr.derefs]
  · exact hf.set hr

theorem converted?_follows {result : Option Expr}
    (h : c.converted? f.source f.target f.sourcePointer f.value = .ok result) {e : Expr}
    (he : e ∈ result) : ∀ x ∈ e.derefs, (f.sourcePointer = true ∧ x = f.value) ∨ x ∈ known := by
  unfold converted? at h
  simp only [except_bind_eq_ok] at h
  obtain ⟨source, -, target, -, h⟩ := h
  split at h
  · rw [except_pure_eq_ok] at h
    simp [← h] at he
  · rw [except_pure_eq_ok] at h
    rw [← h, Option.mem_some_iff] at he
    intro x hx
    rw [← he, Expr.derefs] at hx
    split at hx
    · rename_i hp
      rw [Expr.derefs, List.mem_cons] at hx
      exact hx.imp (fun hx => ⟨hp, hx⟩) (fun hx => hf.value hx)
    · exact Or.inr (hf.value hx)

/-- One case for each way a primitive field is stored: with or without a conversion of types, from
    and to a pointer or not, in the literal or after it. Only a required pointer is followed
    untested. -/
theorem primitiveFieldCode_follows {taken : List String} {result : Option Expr}
    (h : c.converted? f.source f.target f.sourcePointer f.value = .ok result) :
    CodeFollows f known (primitiveFieldCode f taken result) := by
  have literal : ∀ {e : Expr}, (∀ x ∈ e.derefs, Follows f known x) →
      CodeFollows f known { literal := [(f.placeName, e)] } := by
    intro e he
    refine ⟨fun x hx => ?_, fun step hm => ?_⟩
    · rw [List.mem_singleton.mp hx]
      exact he
    · exact absurd (Block.steps_nil ▸ hm) List.not_mem_nil
  have after : ∀ {code : Block}, (∀ step ∈ code.steps known, ∀ x ∈ step.stmt.derefs,
      Follows f step.known x) → CodeFollows f known { after := code } :=
    fun hcode => ⟨fun x hx => absurd hx List.not_mem_nil, hcode⟩
  have hvalue : ∀ x ∈ f.value.derefs, Follows f known x := fun x hx => Or.inl (hf.value hx)
  have hpresent : FieldShielded f (f.value :: known) := hf.mono (List.subset_cons_self _ _)
  cases result with
  | some e =>
    -- Where the field is a pointer, the converted value follows it.
    have he := converted?_follows hf h (Option.mem_some_self e)
    have hfollows : (f.sourcePointer = true → f.required = true) →
        ∀ x ∈ e.derefs, Follows f known x := by
      intro hr x hx
      rcases he x hx with ⟨hp, rfl⟩ | hx
      · exact Or.inr ⟨rfl, hr hp⟩
      · exact Or.inl hx
    unfold primitiveFieldCode
    dsimp only
    split
    · rename_i hif
      refine literal (hfollows fun hp => ?_)
      simp only [hp, Bool.and_eq_true, Bool.not_true, Bool.or_false] at hif
      exact hif.2
    · split
      · refine after (hf.ifPresent (storeConverted_follows hpresent fun x hx => Or.inl ?_))
        rcases he x hx with ⟨-, rfl⟩ | hx
        · exact List.mem_cons_self
        · exact List.mem_cons_of_mem _ hx
      · rename_i hif
        refine after (storeConverted_follows hf (hfollows fun hp => ?_))
        simpa [hp] using hif
  | none =>
    unfold primitiveFieldCode
    dsimp only
    split
    · split
      · rename_i hr
        refine literal fun x hx => ?_
        rw [Expr.derefs, List.mem_cons] at hx
        exact hx.elim (fun hx => Or.inr ⟨hx, hr⟩) (hvalue x)
      · refine after (hf.ifPresent (hpresent.set fun x hx => Or.inl ?_))
        rw [Expr.derefs] at hx
        exact List.cons_subset_cons f.value hf.value hx
    · split
      · refine literal fun x hx => hvalue x ?_
        rwa [Expr.derefs] at hx
      · exact literal hvalue

/-- The default of a field follows nothing but what is known. It is stored where the field is found
    nil, so there is nothing to follow. -/
theorem laterDefault_follows (h : c.laterDefault f = .ok b) :
    ∀ step ∈ b.steps known, ∀ x ∈ step.stmt.derefs, x ∈ step.known := by
  -- What is stored in the end follows no pointer, neither on the left nor on the right.
  have hset : ∀ {step : CodeStep} {more : List Expr} {e : Expr}, e.derefs = [] →
      step ∈ Block.steps more [.set f.place e] → step.stmt.derefs = [] := by
    intro step more e he hm
    rw [Block.steps_cons, Stmt.set, Stmt.steps_assign, Block.steps_nil, List.append_nil,
      List.mem_singleton] at hm
    rw [hm, Stmt.derefs, hf.place, he, List.append_nil]
  have hlit : ∀ {value type}, (Expr.lit value type).derefs = [] := by
    intro value type
    rw [Expr.derefs]
  -- The test asks whether the field is nil and looks no further than that.
  have htest : ∀ x ∈ (Stmt.when f.value.isNil []).derefs, x ∈ known := by
    intro x hx
    rw [Stmt.when, Stmt.derefs, Expr.derefs_isNil] at hx
    exact hf.value hx
  unfold laterDefault at h
  split at h
  · intro step hm x hx
    cases defaultField_shape h with
    | idle => simp at hm
    | held _ _ type =>
      rw [Block.steps_cons, Stmt.steps_when, Block.steps_nil, List.append_nil, List.mem_cons,
        Block.steps_cons, Stmt.steps_declare, List.singleton_append, List.mem_cons] at hm
      rcases hm with rfl | rfl | hm
      · exact htest x hx
      · rw [Stmt.derefs, hlit] at hx
        exact absurd hx List.not_mem_nil
      · rw [hset (by rw [Expr.derefs, Expr.derefs]) hm] at hx
        exact absurd hx List.not_mem_nil
    | stored _ _ type =>
      rw [Block.steps_cons, Stmt.steps_when, Block.steps_nil, List.append_nil, List.mem_cons] at hm
      rcases hm with rfl | hm
      · exact htest x hx
      · rw [hset hlit hm] at hx
        exact absurd hx List.not_mem_nil
    | zero _ _ type =>
      rw [Block.steps_cons, Stmt.steps_block, Block.steps_nil, List.append_nil, Block.steps_cons,
        Stmt.steps_declare, List.singleton_append, List.mem_cons, Block.steps_cons,
        Stmt.steps_when, Block.steps_nil, List.append_nil, List.mem_cons] at hm
      rcases hm with rfl | rfl | hm
      · rw [Stmt.derefs] at hx
        exact absurd hx List.not_mem_nil
      · rw [Stmt.when, Stmt.derefs, Expr.derefs, hf.place, Expr.derefs] at hx
        exact absurd hx List.not_mem_nil
      · rw [hset hlit hm] at hx
        exact absurd hx List.not_mem_nil
  · cases h
    simp

/-- The value of the field is looked at before it is converted, unless it is a primitive that is
    always there. -/
theorem FieldShielded.site {depth : Nat} {more : List Expr}
    (hk : known ⊆ more) (hv : (f.sourcePrimitive && f.sourcePointer) = true → f.value ∈ more) :
    (f.site depth).Shielded more where
  value := by
    rw [FieldSite.site]
    split
    · rename_i hp
      rw [Expr.derefs, List.cons_subset]
      exact ⟨hv hp, List.Subset.trans hf.value hk⟩
    · exact List.Subset.trans hf.value hk
  place := hf.place

end Fields

/-- The code of a field that is not primitive stands behind a test of the field, unless its source
    is a primitive that is always there. -/
theorem laterValue_steps {f : FieldSite} (ha : c.FieldAt s f) (hs : s.Shielded known)
    (h : (c.laterValue emit s.depth f).Yields b) (hm : step ∈ b.steps known) :
    c.StepAt emit s step := by
  have hf := ha.shielded hs
  unfold laterValue at h
  split at h
  · rw [Walk.yields_pure] at h
    simp [← h] at hm
  · rename_i hp
    have hp : f.isPrimitive = false := by simpa using hp
    obtain ⟨code, hcode, rfl⟩ := structuredField_yields.mp h
    have hbelow := ha.below hp
    split at hm
    -- No test is printed if the value is always there, or if there is no code to be guarded.
    · rename_i hif
      rw [Bool.or_eq_true, List.isEmpty_iff] at hif
      rcases hif with rfl | hplain
      · simp at hm
      · simp only [Bool.and_eq_true, Bool.not_eq_true'] at hplain
        have hsite : (f.site s.depth).Shielded known :=
          hf.site (List.Subset.refl known) fun hb => by simp [hplain] at hb
        have hguards : f.guards ⊆ known := by simp [FieldSite.guards, hplain]
        exact .nested hbelow (.field ha hp) hsite hguards hcode hm
    · rw [Block.steps_cons, FieldSite.ifPresent, Stmt.steps_when, Block.steps_nil, List.append_nil,
        List.mem_cons, Expr.proves_notNil, List.singleton_append] at hm
      rcases hm with rfl | hm
      · refine .plain (.test ha) ?_
        rw [Stmt.when, Stmt.derefs, Expr.derefs_notNil]
        exact hf.value
      · have hsite : (f.site s.depth).Shielded (f.value :: known) :=
          hf.site (List.subset_cons_self _ _) fun _ => List.mem_cons_self
        have hguards : f.guards ⊆ f.value :: known := by
          unfold FieldSite.guards
          split
          · exact List.nil_subset _
          · simp
        exact .nested hbelow (.field ha hp) hsite hguards hcode hm

theorem allocate_derefs (type : TypeRef) (fields : List (String × Expr)) :
    (Expr.allocate type fields).derefs = Expr.derefsFields fields := by
  unfold Expr.allocate
  split
  · rw [Expr.derefs]
  · rw [Expr.derefs]

/-- The steps of an object are those of its literal and, field by field, of what comes after it. A
    literal evaluates its parts with nothing known but what stands around it, which is enough for
    fields that are required. -/
theorem object_steps (hs : s.Shielded known) (h : (c.object emit s).Yields b)
    (hm : step ∈ b.steps known) : c.StepAt emit s step := by
  obtain ⟨v, w, fields, code, type, later, hv, hw, hfields, hcode, -, hlater, rfl⟩ :=
    object_yields h
  have hat : ∀ f ∈ fields, c.FieldAt s f := fun _ hf => .of_mem hv hw hfields hf
  -- A required pointer may be followed without a test, which is what its being required promises.
  have hrequired : ∀ {f : FieldSite} {known : List Expr} {e : Expr}, f ∈ fields →
      Follows f known e → e ∈ known ∨ c.RequiredAt s e := by
    intro f known e hf he
    rcases he with he | ⟨rfl, hr⟩
    · exact Or.inl he
    · exact Or.inr ((hat f hf).required hr)
  obtain ⟨codes, hliteral, hafter, hcodes⟩ := primitiveFields_parts hcode
  obtain ⟨parts, rfl, hparts⟩ := laterFields_yields hlater
  rw [Site.store, Block.steps_cons, Stmt.steps_assign, List.singleton_append, List.mem_cons,
    Block.steps_append, hafter, Block.steps_flatMap, Block.steps_flatMap, List.mem_append] at hm
  rcases hm with rfl | hm | hm
  · -- The literal follows the required pointers among the primitive fields.
    refine .own (.store _) fun e he => ?_
    rw [Stmt.derefs, hs.place, List.nil_append, allocate_derefs] at he
    obtain ⟨x, hx, he⟩ := Expr.mem_derefsFields.mp he
    rw [hliteral] at hx
    obtain ⟨part, hpart, hx⟩ := List.mem_flatMap.mp hx
    obtain ⟨f, hf, result, hresult, rfl⟩ := forall₂_mem_right hcodes hpart
    have hf := List.mem_of_mem_filter hf
    have hshielded := (hat f hf).shielded hs
    exact hrequired hf ((primitiveFieldCode_follows hshielded hresult).literal x hx e he)
  · obtain ⟨part, hpart, hm⟩ := List.mem_flatMap.mp hm
    obtain ⟨f, hf, result, hresult, rfl⟩ := forall₂_mem_right hcodes hpart
    obtain ⟨hf, hp⟩ := List.mem_filter.mp hf
    have hshielded := (hat f hf).shielded hs
    exact .own (.primitive (hat f hf) hp hresult hm) fun e he =>
      hrequired hf ((primitiveFieldCode_follows hshielded hresult).after step hm e he)
  · obtain ⟨part, hpart, hm⟩ := List.mem_flatMap.mp hm
    obtain ⟨f, hf, hvalue, hdefault⟩ := forall₂_mem_right hparts hpart
    rw [Block.steps_append, List.mem_append] at hm
    rcases hm with hm | hm
    · exact laterValue_steps (hat f hf) hs hvalue hm
    · exact .plain (.default (hat f hf) hdefault hm)
        (laterDefault_follows ((hat f hf).shielded hs) hdefault step hm)

/-! ## Any kind, and boxes -/

theorem primitive_steps (hs : s.Shielded known) (h : (c.primitive s).Yields b)
    (hm : step ∈ b.steps known) : c.StepAt emit s step := by
  unfold primitive at h
  simp only [Walk.yields_bind, Walk.yields_liftM, Walk.yields_pure] at h
  obtain ⟨result, hresult, rfl⟩ := h
  rw [Site.store, Block.steps_cons, Stmt.steps_assign, Block.steps_nil, List.append_nil,
    List.mem_singleton] at hm
  subst hm
  refine .store hs ?_
  unfold converted? at hresult
  simp only [except_bind_eq_ok] at hresult
  obtain ⟨source, -, target, -, h⟩ := hresult
  split at h
  · rw [except_pure_eq_ok] at h
    rw [← h]
    exact hs.value
  · rw [except_pure_eq_ok] at h
    rw [← h, Option.getD_some, Expr.derefs]
    exact hs.value

/-- One case for each kind of the source, and one for the target that takes anything. For each of
    them the steps that are not of nested code are known from the lemmas above. -/
theorem byKind_steps (hs : s.Shielded known) (h : (c.byKind emit s).Yields b)
    (hm : step ∈ b.steps known) : c.StepAt emit s step := by
  obtain ⟨kind, target, -, -, ⟨-, -, rfl⟩ | ⟨-, h⟩⟩ := byKind_yields.mp h
  · rw [Site.store, Block.steps_cons, Stmt.steps_assign, Block.steps_nil, List.append_nil,
      List.mem_singleton] at hm
    subst hm
    exact .store hs hs.value
  · cases kind with
    | array => exact array_steps hs h hm
    | map => exact map_steps hs h hm
    | object => exact object_steps hs h hm
    | union => exact union_steps hs h hm
    | primitive p => exact primitive_steps hs h hm

/-- Opening a box of the source selects its field, and selecting is not following. The value of the
    box itself is one that may be followed, because the box stands where the value would. -/
theorem Unboxed.shielded {box : Block} {inner : Site} (h : c.Unboxed s box inner)
    (hs : s.Shielded known) :
    inner.Shielded known ∧ (box = [] ∨ ∃ type, box = [s.store (.allocate type [])]) := by
  cases h with
  | target type =>
    refine ⟨⟨hs.value, ?_⟩, Or.inr ⟨type, rfl⟩⟩
    rw [Expr.derefs, hs.place]
  | source =>
    refine ⟨⟨?_, hs.place⟩, Or.inl rfl⟩
    rw [Expr.derefs]
    exact hs.value

theorem Opens.shielded {inner : Site} (ho : c.Opens s inner) (hs : s.Shielded known) :
    inner.Shielded known := by
  cases ho with
  | plain => exact hs
  | boxed _ _ ho => exact ((unboxed_yields ho).shielded hs).1

/-- Every step in the code of a site makes a box, or is one of the site that the code is about. The
    first case is the allocation for a box of the target, which follows nothing. -/
theorem attrVia_steps (hs : s.Shielded known) (h : (c.attrVia emit s).Yields b)
    (hm : step ∈ b.steps known) : ∃ inner, c.Opens s inner ∧
      ((∃ type, step = ⟨known, s.store (.allocate type [])⟩) ∨ c.StepAt emit inner step) := by
  obtain ⟨inner, box, code, ho, hcode, rfl, hbox⟩ := attrVia_yields h
  refine ⟨inner, ho, ?_⟩
  rw [Block.steps_append, List.mem_append] at hm
  rcases hm with hm | hm
  · have hshape : box = [] ∨ ∃ type, box = [s.store (.allocate type [])] := by
      rcases hbox with ⟨-, rfl⟩ | ⟨why, hbox⟩
      · exact Or.inl rfl
      · exact ((unboxed_yields hbox).shielded hs).2
    rcases hshape with rfl | ⟨type, rfl⟩
    · simp at hm
    · rw [Site.store, Block.steps_cons, Stmt.steps_assign, Block.steps_nil, List.append_nil,
        List.mem_singleton] at hm
      exact Or.inl ⟨type, hm⟩
  · exact Or.inr (byKind_steps (ho.shielded hs) hcode hm)

/-! ## All levels -/

theorem InPlace.guarded {guards : List Expr} {inner : Site} (ho : c.Opens s inner)
    (hp : c.InPlace s t) (he : c.Enters inner guards t)
    (hc : (c.callsHelper t.source t.target).Yields false ∨ c.Wraps inner t)
    (hg : guards ⊆ step.known) (h : c.Guarded t step) : c.Guarded s step := by
  obtain ⟨hderefs, more, hdoes, hmore⟩ := h
  constructor
  · intro e hd
    rcases hderefs e hd with hk | ⟨u, inner', htu, hr⟩
    · exact Or.inl hk
    · exact Or.inr ⟨u, inner', .head hp htu, hr⟩
  · exact ⟨guards ++ more, .nested ho he hc hdoes, List.append_subset.mpr ⟨hg, hmore⟩⟩

/-- What the levels preserve: code below a site only ever stands behind more tests. The invariant on
    the way down is `Site.Shielded`, as the value of a nested site may be what was tested. -/
theorem attrWithin_guarded : ∀ {levels : Nat} {s : Site} {b : Block} {known : List Expr},
    s.Shielded known → (c.attrWithin levels s).Yields b → ∀ step ∈ b.steps known,
      c.Guarded s step := by
  intro levels
  induction levels with
  | zero => intro s b known _ h; exact absurd h Walk.yields_exhausted
  | succ levels ih =>
    intro s b known hs h step hm
    obtain ⟨inner, ho, ⟨type, rfl⟩ | hstep⟩ := attrVia_steps hs h hm
    · refine ⟨fun e he => ?_, [], .box ho type, List.nil_subset known⟩
      rw [hs.store, allocate_derefs, Expr.derefsFields] at he
      exact absurd he List.not_mem_nil
    · cases hstep with
      | own hown hd =>
        refine ⟨fun e he => ?_, [], .own ho hown, List.nil_subset step.known⟩
        exact (hd e he).imp id fun hr => ⟨s, inner, .refl, ho, hr⟩
      | @nested t guards more code hb he hst hg hc hmem =>
        have hknown : more ⊆ step.known := Block.subset_known hmem
        -- A call follows at most its argument, and nested code is guarded by induction.
        rcases nested_yields.mp hc with ⟨hcalls, name, hname, rfl⟩ | ⟨hcalls, hcode⟩
        · rw [Site.store, Block.steps_cons, Stmt.steps_assign, Block.steps_nil, List.append_nil,
            List.mem_singleton] at hmem
          subst hmem
          refine ⟨fun e hd => Or.inl ?_, guards, .call ho he hcalls hname, hg⟩
          rw [Stmt.derefs, hst.place, List.nil_append, Expr.derefs, Expr.derefsAll,
            Expr.derefsAll, List.append_nil] at hd
          exact hst.value hd
        · exact InPlace.guarded ho (.unfolded ho hb hcalls) he (Or.inl hcalls)
            (List.Subset.trans hg hknown) (ih hst hcode step hmem)
      | wrapped ht hst hc hmem =>
        exact InPlace.guarded ho (.wrapped ho ht) (.wrapped ht) (Or.inr ht) (List.nil_subset _)
          (ih hst hc step hmem)

theorem inline_nilSafe {a d : Attribute} {value place : String} {declare : Bool} {depth : Nat}
    {inBox : Bool} (h : (c.inline (.between a d value place declare depth inBox)).Yields b) :
    c.NilSafe (.between a d value place declare depth inBox) b :=
  attrWithin_guarded (.between a d value place declare depth inBox) h

theorem guard_derefs (x : HelperSite) : ∀ step ∈ x.guard.steps [], step.stmt.derefs = [] := by
  intro step hm
  unfold HelperSite.guard at hm
  split at hm
  · simp at hm
  · rw [Block.steps_cons, Stmt.steps_when, Block.steps_nil, List.append_nil, List.mem_cons,
      Block.steps_cons, Stmt.steps, Block.steps_nil, List.append_nil, List.mem_singleton] at hm
    rcases hm with rfl | rfl
    · rw [Stmt.when, Stmt.derefs, Expr.derefs_isNil, Expr.derefs]
    · rw [Stmt.derefs, Expr.derefsAll, Expr.derefs, Expr.derefsAll, List.append_nil]

theorem helper_safe {name : String} {x : HelperSite} {h : Helper}
    (hyields : (c.helper name x).Yields h) : c.SafeHelper h := by
  obtain ⟨param, result, code, -, -, hcode, hshape⟩ := helper_yields.mp hyields
  have hsafe : c.NilSafe x.inner code := inline_nilSafe hcode
  obtain rfl : name = h.name := by rw [hshape]
  have hbody : h.body = x.guard ++ code ++ [.ret [.ident "res"]] := by rw [hshape]
  refine .intro hyields hbody hsafe fun step hm e he => ?_
  rw [hbody, Block.steps_append, Block.steps_append, List.mem_append, List.mem_append,
    Block.steps_cons, Stmt.steps, Block.steps_nil, List.append_nil, List.mem_singleton] at hm
  rcases hm with (hm | hm) | rfl
  · rw [guard_derefs x step hm] at he
    exact absurd he List.not_mem_nil
  · exact (hsafe step hm).derefs e he
  · rw [Stmt.derefs, Expr.derefsAll, Expr.derefs, Expr.derefsAll] at he
    exact absurd he List.not_mem_nil

/-- Neither the code of a request nor one of its helpers follows a pointer that may be nil, but for
    the fields that a source object requires. And whatever takes part in converting a field whose
    source is not a primitive stands behind a test of that field. -/
theorem compile_nilSafe (c : Conversion) (a b : Attribute) (value place : String) (declare : Bool)
    (depth : Nat) (inBox : Bool) (met met' : List String) (out : Compiled)
    (h : (c.compile (.between a b value place declare depth inBox)).Yields met out met') :
    c.NilSafe (.between a b value place declare depth inBox) out.body ∧
      ∀ k ∈ out.helpers, c.SafeHelper k := by
  obtain ⟨hbody, made, hmade, hout⟩ := compile_yields.mp h
  obtain ⟨found, -, hmadeOf⟩ := collect_factors (p := (a, b)) hmade
  refine ⟨inline_nilSafe hbody, fun k hk => ?_⟩
  rw [hout] at hk
  obtain ⟨x, -, hyields⟩ := forall₂_mem_right hmadeOf ((sorted_perm made).mem_iff.mp hk)
  exact helper_safe hyields

/-- A type with a required primitive, an optional one, and a field that holds the type itself. -/
def pageRegistry : Registry where
  types := [{
    id := "Page", name := "Page"
    definition := {
      type := .object [("title", { type := .primitive .string }),
        ("note", { type := .primitive .string }), ("next", .user "Page")]
      rules := { required := ["title"] } } }]

/-- Decoded pages, in which everything is a pointer, become pages of the service. -/
def pageConversion : Conversion where
  scope := .ofRegistry pageRegistry
  source := .body
  target := .service

def pages : Attribute := { type := .array (.user "Page") }

/-- Pages that were decoded, where a note may be absent and a title may not. -/
theorem compile_nilSafe_pages : ∃ out met',
    (pageConversion.compile (.between pages pages "v" "res")).Yields [] out met' ∧
    pageConversion.NilSafe (.between pages pages "v" "res") out.body ∧
    ∀ k ∈ out.helpers, pageConversion.SafeHelper k := by
  obtain ⟨out, met', h⟩ : ∃ out met',
      (pageConversion.compile (.between pages pages "v" "res")).Yields [] out met' := by
    decide +kernel
  exact ⟨out, met', h, compile_nilSafe pageConversion pages pages "v" "res" true 0 false [] met' out
    h⟩

end Conversion
end Shapewright
