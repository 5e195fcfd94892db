import Shapewright.Projection.Constructors
import Shapewright.Proofs.Conversion.Flat
import Shapewright.Proofs.Conversion.Meaning
import Shapewright.Proofs.Projection.Derivation

/-!
# To a view and back

A result whose fields are primitives is projected to one of its views and converted back. On the way
to the view nothing is lost: projected types use no defaults, and whatever may be absent in the
result may be absent in its projection. On the way back the defaults of the result are put in, so
what was absent comes back as its default. The same goes for a zero value that neither type can tell
from an absent one.

## What comes back

`restored` says what is in a shown field in the end. Without a default, or if the field is required,
it is what was there. Otherwise the default comes in for what was absent: an optional field with a
default is no pointer in the service, so it is absent only where its kind is a reference or the
design asks for a pointer. Fields that the view does not show come back zero; the converter does not
know of them.

So a round trip is not the identity. `memo_note_replaced` shows a small case of it: a note that was
absent comes back as the text that is its default.

## The proof

There is nothing in it about code. Each converter is an instance of the rule for flat objects, which
says what every field holds after its run (`FieldRule`), so a round trip is the rule taken twice.
What has to be shown is that the two contexts agree on when a field is a pointer: whatever is one in
the service is one in the projection (`holdsPointer_projected`), so on the way out nothing has to be
stored that has no place. Types that convert into themselves are asked of the machine, since the
converters only ever go between an alias and its primitive.
-/

namespace Shapewright
namespace Projection

open Execution Conversion

variable {δ : Type} [DecidableEq δ] {M : Machine δ}

/-! ## Pointers -/

section Pointers

variable {reg : Registry} {a b : Attribute} {p : Primitive} {required pointer : Bool}

/-- In the service a primitive is a pointer if it is optional and has no default, unless the design
    says otherwise. -/
theorem holdsPointer_service (hp : reg.primitive? a = .ok (some p)) :
    Context.service.holdsPointer reg a required = .ok (!p.isReference &&
      a.overrides.pointer.getD (!required && a.default.isNone)) := by
  unfold Context.holdsPointer
  rw [hp]
  show (if p.isReference then _ else _) = _
  cases p.isReference with
  | true => rfl
  | false =>
    cases a.overrides.pointer with
    | some pointer => rfl
    | none =>
      cases required with
      | true => rfl
      | false =>
        cases a.default with
        | none => rfl
        | some default => rfl

/-- In a projection every primitive is a pointer, unless the design says otherwise. Being required
    makes no difference there, because a projected value may lack any field. -/
theorem holdsPointer_projected (package : String) (hp : reg.primitive? a = .ok (some p)) :
    (Context.projected package).holdsPointer reg a required =
      .ok (!p.isReference && a.overrides.pointer.getD true) := by
  unfold Context.holdsPointer
  rw [hp]
  show (if p.isReference then _ else _) = _
  cases p.isReference with
  | true => rfl
  | false =>
    cases a.overrides.pointer with
    | some pointer => rfl
    | none =>
      cases required with
      | true => rfl
      | false =>
        show (if a.default.isSome && false then _ else _) = _
        rw [Bool.and_false]
        rfl

end Pointers

/-! ## Field by field -/

/-- The value of a field after the way to the view and back. The default comes in for what is
    absent, or for a zero value that could not be told from it. -/
def restored (M : Machine δ) (type : TypeRef) (reference required : Bool) (a : Attribute)
    (x : Option (Value δ)) : Option (Value δ) :=
  match a.default with
  | none => x
  | some default =>
    if !required && (x = none ||
        (x = some (M.zero type) && a.overrides.pointer = some false && !reference)) then
      some (M.literal default type)
    else x

section Restored

variable {type : TypeRef} {reference required : Bool} {a : Attribute} {x : Option (Value δ)}

theorem restored_ne_none (h : x ≠ none) : restored M type reference required a x ≠ none := by
  unfold restored
  split
  · exact h
  · split
    · exact Option.some_ne_none _
    · exact h

/-- Literals are not nil. -/
theorem restored_ne_nil (h : x ≠ some .nil) :
    restored M type reference required a x ≠ some .nil := by
  unfold restored
  split
  · exact h
  · split
    · exact fun heq => M.literal_ne_nil _ _ (Option.some.inj heq)
    · exact h

theorem restored_eq_none (h : restored M type reference required a x = none) : x = none := by
  by_contra hx
  exact restored_ne_none hx h

end Restored

/-- What is in a field that holds the value, behind a pointer where `pointer` says so. -/
def presented (pointer : Bool) : Option (Value δ) → Content δ
  | none => .plain .nil
  | some y => .of pointer y

section Fields

variable {σ σ₀ : State δ} {l : Loc} {pointer reference : Bool} {x : Option (Value δ)}
  {f : FieldSite} {source target : TypeRef}

omit [DecidableEq δ] in
/-- What is presented is read as it was, if nothing is presented only where nil can be. -/
theorem reads_of_presented (h : σ.Holds l (presented pointer x))
    (habsent : x = none → (pointer || reference) = true)
    (hne : reference = true → pointer = false ∧ x ≠ some .nil) : Reads σ l pointer reference x := by
  cases x with
  | none => exact .absent h (habsent rfl)
  | some y =>
    cases pointer with
    | true =>
      obtain ⟨k, -, hl, hk⟩ := h
      exact .behind rfl hl hk
    | false => exact .plain rfl h fun hr heq => (hne hr).2 (congrArg some heq)

omit [DecidableEq δ] in
theorem carry_eq (hM : ∀ type y, M.convert type y = y) (y : Value δ) :
    carry M source target y = y := by
  unfold carry
  split
  · rfl
  · exact hM target y

omit [DecidableEq δ] in
theorem converted_eq_presented (hM : ∀ type y, M.convert type y = y)
    (hp : x = none → f.sourcePointer = true → f.targetPointer = true) :
    converted M f source target x = presented f.targetPointer x := by
  cases x with
  | none =>
    by_cases hs : f.sourcePointer = true
    · rw [converted, if_pos hs, blank, if_pos (hp rfl hs), M.zero_pointer, presented]
    · rw [converted, if_neg hs, presented]
  | some y => rw [converted, carry_eq hM, presented]

/-- Where the type of a projection can tell a zero value from an absent one, a value stays. A value
    that cannot be told from an absent one is the zero value of a field that no pointer stands
    for. -/
theorem kept {a : Attribute} {y : Value δ}
    (hs : f.sourcePointer = (!reference && a.overrides.pointer.getD true))
    (h : ¬ (y = M.zero target ∧ a.overrides.pointer = some false ∧ reference = false)) :
    f.sourcePointer = true ∨ reference = true ∨ f.targetPointer = true ∨ y ≠ M.zero target := by
  by_contra hno
  rw [not_or, not_or, not_or, not_not, Bool.not_eq_true, Bool.not_eq_true] at hno
  obtain ⟨hsource, hreference, -, hy⟩ := hno
  refine h ⟨hy, ?_, hreference⟩
  rw [hs, hreference] at hsource
  cases hpointer : a.overrides.pointer with
  | none => simp [hpointer] at hsource
  | some pointer =>
    cases pointer with
    | true => simp [hpointer] at hsource
    | false => rfl

/-- Back in the service, the rule for fields is what `restored` says. By cases on the default, on
    whether the field is required and on whether there is a value. -/
theorem outcome_eq_presented {c : Conversion} {required : Bool} {a : Attribute}
    (hM : ∀ type y, M.convert type y = y) (htarget : c.target = .service)
    (ha : f.target = a) (hrequired : f.required = required)
    (hs : f.sourcePointer = (!reference && a.overrides.pointer.getD true))
    (ht : f.targetPointer =
      (!reference && a.overrides.pointer.getD (!required && a.default.isNone)))
    (hx : x = none → (f.targetPointer || reference) = true) :
    outcome M c f source target reference x =
      presented f.targetPointer (restored M target reference required a x) := by
  have hconverted : converted M f source target x = presented f.targetPointer x := by
    refine converted_eq_presented hM fun hnone hpointer => ?_
    have hreference : reference = false := by
      cases reference with
      | true => simp [hs] at hpointer
      | false => rfl
    simpa [hreference] using hx hnone
  -- On the way back the service is the target, and there a required field has no default put in.
  have hstandIn : c.standIn? f = if required then none else a.default := by
    rw [standIn?, htarget, hrequired, ha]
    cases required with
    | true => rfl
    | false => rfl
  unfold restored
  cases hd : a.default with
  | none =>
    rw [outcome_of_no_default (by rw [hstandIn, hd, ite_self]), hconverted]
  | some default =>
    rw [hd] at hstandIn
    cases required with
    | true =>
      rw [outcome_of_no_default hstandIn, hconverted]
      rfl
    | false =>
      have hstandIn : c.standIn? f = some default := hstandIn
      cases x with
      | none =>
        rw [outcome_absent hstandIn]
        rfl
      | some y =>
        -- A value that is there is replaced in one case: it is the zero value, and nothing on
        -- either side can be nil.
        by_cases hzero : y = M.zero target ∧ a.overrides.pointer = some false ∧ reference = false
        · obtain ⟨rfl, hpointer, rfl⟩ := hzero
          have hs : f.sourcePointer = false := by
            rw [hs, hpointer]
            rfl
          have ht : f.targetPointer = false := by
            rw [ht, hpointer]
            rfl
          rw [outcome_zero hstandIn hs rfl ht (carry_eq hM _), ht]
          simp [hpointer, presented, Content.of]
        · have hkept : f.sourcePointer = true ∨ reference = true ∨ f.targetPointer = true ∨
              carry M source target y ≠ M.zero target := by
            rw [carry_eq hM]
            exact kept hs hzero
          rw [outcome_present hkept, hconverted]
          dsimp only
          rw [if_neg]
          simpa using hzero

omit [DecidableEq δ] in
theorem nillable_of_reads (h : Reads σ l pointer reference x) :
    x = none → (pointer || reference) = true := by
  rintro rfl
  cases h with
  | absent _ hn => exact hn

omit [DecidableEq δ] in
theorem ne_nil_of_reads (h : Reads σ l pointer reference x) (hp : pointer = false)
    (hr : reference = true) : x ≠ some .nil := by
  rintro rfl
  cases h with
  | behind hpointer => simp [hp] at hpointer
  | plain _ _ hne => exact hne hr rfl

section Rules

variable {c : Conversion} {s : Site} {v w : ObjectView} {m : FieldMatch} {n k : Nat}
  {package : String}

omit [DecidableEq δ] in
theorem reads_of_fieldHolds {reg : Registry} {ctx : Context} {name : String} {a : Attribute}
    {p : Primitive} (h : FieldHolds reg ctx v σ n name a x)
    (hp : reg.primitive? a = .ok (some p))
    (hpointer : ctx.holdsPointer reg a (v.requires name) = .ok pointer) :
    Reads σ (.field n (v.fieldName name)) pointer p.isReference x ∧
      (v.requires name = true → pointer = true → x ≠ none) := by
  obtain ⟨hp', hpointer', hx, hr⟩ := h
  obtain rfl := Option.some.inj (Except.ok.inj (hp'.symm.trans hp))
  obtain rfl := Except.ok.inj (hpointer'.symm.trans hpointer)
  exact ⟨hx, hr⟩

omit [DecidableEq δ] in
theorem grows_of_fieldHolds {reg reg' : Registry} {ctx : Context} {name : String} {a : Attribute}
    (hg : reg.Grows reg') (h : FieldHolds reg ctx v σ n name a x) :
    FieldHolds reg' ctx v σ n name a x := by
  obtain ⟨hp, hpointer, hx, hr⟩ := h
  exact .intro (hg.primitive? hp) (hg.holdsPointer hpointer) hx hr

/-- A view takes every field as it is. No default comes in, as projected types have none. Aliases
    are cast, and a cast keeps the value, which is what the premise on `convert` says. -/
theorem projected_of_rule (hM : ∀ type y, M.convert type y = y) (hsource : c.source = .service)
    (htarget : c.target = .projected package) (hshown : ShownAs c.registry m.source m.target)
    (hrequires : w.requires m.name = v.requires m.name)
    (hx : FieldHolds c.registry .service v σ₀ n m.name m.source x)
    (h : FieldRule M c s v w σ k m x) :
    FieldHolds c.registry (.projected package) w σ k m.name m.target x := by
  obtain ⟨hd, -, -, hp, hholds⟩ := h
  rename_i f source target p
  have hq : c.registry.primitive? m.target = .ok (some p) := hshown.primitive?.trans hp
  have hsourcePointer := hd.sourcePointer
  have htargetPointer := hd.targetPointer
  rw [hsource, hd.source, hd.required] at hsourcePointer
  rw [htarget, hd.target] at htargetPointer
  obtain ⟨hreads, hpresent⟩ := reads_of_fieldHolds hx hp hsourcePointer
  rw [holdsPointer_service hp, Except.ok.injEq] at hsourcePointer
  have hboth : f.targetPointer = (!p.isReference && m.source.overrides.pointer.getD true) := by
    rw [holdsPointer_projected package hq, hshown.overrides] at htargetPointer
    exact (Except.ok.inj htargetPointer).symm
  -- A pointer in the result is a pointer in the view.
  have hpointer : f.sourcePointer = true → f.targetPointer = true := by
    rw [hboth, ← hsourcePointer, Bool.and_eq_true, Bool.and_eq_true]
    rintro ⟨hreference, hpointer⟩
    refine ⟨hreference, ?_⟩
    cases ho : m.source.overrides.pointer with
    | none => rfl
    | some pointer =>
      rw [ho] at hpointer
      exact hpointer
  have hstandIn : c.standIn? f = none := by
    rw [standIn?, htarget]
    rfl
  rw [outcome_of_no_default hstandIn, converted_eq_presented hM fun _ => hpointer] at hholds
  refine .intro hq htargetPointer (reads_of_presented hholds (fun hnone => ?_) fun hr => ?_) ?_
  · have hnil := nillable_of_reads hreads hnone
    rw [Bool.or_eq_true] at hnil ⊢
    exact hnil.imp_left hpointer
  · have hsp : f.sourcePointer = false := by
      rw [← hsourcePointer, hr]
      rfl
    refine ⟨?_, ne_nil_of_reads hreads hsp hr⟩
    rw [hboth, hr]
    rfl
  · rintro hr htp rfl
    have hnil := nillable_of_reads hreads rfl
    rw [Bool.or_eq_true] at hnil
    rcases hnil with hsp | href
    · exact hpresent (hrequires ▸ hr) hsp rfl
    · rw [hboth, href] at htp
      cases htp

/-- Back from a view, a field is what it was, or its default. In the second case the original was
    absent, or could not be told from an absent one. -/
theorem restored_of_rule (hM : ∀ type y, M.convert type y = y)
    (hsource : c.source = .projected package) (htarget : c.target = .service)
    (hshown : ShownAs c.registry m.target m.source)
    (hrequires : w.requires m.name = v.requires m.name)
    (hx : FieldHolds c.registry .service v σ₀ n m.name m.target x)
    (h : FieldRule M c s w v σ k m x) :
    ∃ type p, c.targetRef m.target = .ok type ∧ c.registry.primitive? m.target = .ok (some p) ∧
      FieldHolds c.registry .service v σ k m.name m.target
        (restored M type p.isReference (v.requires m.name) m.target x) := by
  obtain ⟨hd, -, ht, hp, hholds⟩ := h
  rename_i f source target p
  have hq : c.registry.primitive? m.target = .ok (some p) := hshown.primitive?.symm.trans hp
  have hsourcePointer := hd.sourcePointer
  have htargetPointer := hd.targetPointer
  rw [hsource, hd.source, holdsPointer_projected package hp, hshown.overrides,
    Except.ok.injEq] at hsourcePointer
  rw [htarget, hd.target] at htargetPointer
  obtain ⟨hreads, hpresent⟩ := reads_of_fieldHolds hx hq htargetPointer
  have hboth := htargetPointer
  rw [holdsPointer_service hq, Except.ok.injEq] at hboth
  -- Both sides have the same attribute apart from the tag, so they hold the same kind of thing:
  -- behind a pointer, plain, or a reference that may itself be nil.
  have hreference : p.isReference = true → f.targetPointer = false := by
    intro hr
    rw [← hboth, hr]
    rfl
  rw [outcome_eq_presented hM htarget hd.target (hd.required.trans hrequires) hsourcePointer.symm
    hboth.symm (nillable_of_reads hreads)] at hholds
  refine ⟨target, p, ht, hq, .intro hq htargetPointer
    (reads_of_presented hholds (fun hnone => ?_) fun hr => ⟨hreference hr, ?_⟩) fun hr hp => ?_⟩
  · exact nillable_of_reads hreads (restored_eq_none hnone)
  · exact restored_ne_nil (ne_nil_of_reads hreads (hreference hr) hr)
  · exact restored_ne_none (hpresent hr hp)

end Rules

end Fields

/-! ## Constructors -/

/-- The projector of derived types, for results in the context of the service. -/
def projector (derived : Derived) (package : String) : Projector where
  scope := .ofRegistry derived.registry
  ids := derived.ids
  service := .service
  projected := .projected package

/-- The conversion of full types into projected ones. -/
def toView (p : Projector) : Conversion where
  scope := p.scope
  source := p.service
  target := p.projected

/-- The conversion of projected types into full ones. -/
def fromView (p : Projector) : Conversion where
  scope := p.scope
  source := p.projected
  target := p.service

/-- The function converts a value in the variable `value` and returns the result. This is the shape
    of a constructor of a projection, in either direction. -/
structure Constructs (c : Conversion) (a b : TypeId) (value place : String) (f : Func) : Prop where
  params : ∃ type, f.params = [⟨some value, type⟩]
  body : ∃ code, (c.inline (.between (.user a) (.user b) value place)).Yields code ∧
    f.body = code ++ [.ret [.ident place]]

section Exists

variable {p : Projector} {id pid : TypeId} {view : String} {v w : ObjectView}
  (hscope : p.scope = .ofRegistry p.scope.registry)
include hscope

/-- A converter between flat objects exists, on its own. Fields are primitives, so the compiler
    needs no helpers and reports nothing. -/
theorem exists_convert {source target : Context} {a b : TypeId} (value place : String)
    (hv : ObjectView.of? p.scope.registry (.user a) = .ok (some v))
    (hw : ObjectView.of? p.scope.registry (.user b) = .ok (some w))
    (hm : ∀ m ∈ matchFields v w, SameKind { scope := p.scope, source, target } m) :
    ∃ code, (p.convert source target a b value place).Yields ⟨code, []⟩ ∧
      (({ scope := p.scope, source, target } : Conversion).inline
        (.between (.user a) (.user b) value place)).Yields code := by
  let c : Conversion := { scope := p.scope, source, target }
  have ht : ∃ type, c.targetRef (.user b) = .ok type := by
    show ∃ type, p.scope.typeRef target (.user b) = .ok type
    rw [hscope]
    exact Scope.exists_userRef (Registry.kind_of_view hw) target
  obtain ⟨code, hcode⟩ := exists_compile (c := c)
    (s := .between (.user a) (.user b) value place) hscope hv hw ht hm []
  exact ⟨code, HelperWalk.yields_alone.mpr ⟨[], hcode⟩, (compile_yields.mp hcode).1⟩

theorem exists_name {a : TypeId} (hv : ObjectView.of? p.scope.registry (.user a) = .ok (some v)) :
    ∃ name, p.scope.name a = .ok name :=
  hscope ▸ Scope.exists_name_of_kind (Registry.kind_of_view hv)

theorem exists_userRef {a : TypeId}
    (hv : ObjectView.of? p.scope.registry (.user a) = .ok (some v)) (ctx : Context) :
    ∃ type, p.userRef ctx a = .ok type := by
  show ∃ type, p.scope.typeRef ctx (.user a) = .ok type
  rw [hscope]
  exact Scope.exists_userRef (Registry.kind_of_view hv) ctx

section Objects

variable (hpid : p.projectedId id view = .ok pid)
  (hv : ObjectView.of? p.scope.registry (.user id) = .ok (some v))
  (hw : ObjectView.of? p.scope.registry (.user pid) = .ok (some w))
include hpid hv hw

theorem exists_objectToView (hm : ∀ m ∈ matchFields v w, SameKind (toView p) m)
    (helpers : List Helper) :
    ∃ f, (p.objectToView id view helpers).Yields (f, Helper.sorted helpers) ∧
      Constructs (toView p) id pid "res" "vres" f := by
  obtain ⟨code, hcode, hinline⟩ := exists_convert hscope "res" "vres" hv hw hm
  obtain ⟨name, hname⟩ := exists_name hscope hv
  obtain ⟨name', hname'⟩ := exists_name hscope hw
  obtain ⟨type, htype⟩ := exists_userRef hscope hv p.service
  obtain ⟨type', htype'⟩ := exists_userRef hscope hw p.projected
  have hunion : Helper.union helpers [] = .ok (Helper.sorted helpers) := rfl
  have hfunc : p.toViewName id view = .ok ("new" ++ name') := by
    unfold Projector.toViewName
    simp only [except_bind_eq_ok, except_pure_eq_ok]
    exact ⟨pid, hpid, name', hname', rfl⟩
  unfold Projector.objectToView
  simp only [Walk.yields_bind, Walk.yields_liftM, Walk.yields_pure]
  exact ⟨_, ⟨pid, hpid, _, hcode, _, hunion, _, hfunc, name, hname, name', hname', type, htype,
    type', htype', rfl⟩, ⟨_, rfl⟩, code, hinline, rfl⟩

theorem exists_objectFromView (hm : ∀ m ∈ matchFields w v, SameKind (fromView p) m)
    (helpers : List Helper) :
    ∃ g, (p.objectFromView id view helpers).Yields (g, Helper.sorted helpers) ∧
      Constructs (fromView p) pid id "vres" "res" g := by
  obtain ⟨code, hcode, hinline⟩ := exists_convert hscope "vres" "res" hw hv hm
  obtain ⟨name, hname⟩ := exists_name hscope hv
  obtain ⟨name', hname'⟩ := exists_name hscope hw
  obtain ⟨type, htype⟩ := exists_userRef hscope hv p.service
  obtain ⟨type', htype'⟩ := exists_userRef hscope hw p.projected
  have hunion : Helper.union helpers [] = .ok (Helper.sorted helpers) := rfl
  have hfunc : p.fromViewName id view = .ok ("new" ++ name ++ viewSuffix view) := by
    unfold Projector.fromViewName
    simp only [except_bind_eq_ok, except_pure_eq_ok]
    exact ⟨name, hname, rfl⟩
  unfold Projector.objectFromView
  simp only [Walk.yields_bind, Walk.yields_liftM, Walk.yields_pure]
  exact ⟨_, ⟨pid, hpid, _, hcode, _, hunion, _, hfunc, name, hname, name', hname', type', htype',
    type, htype, rfl⟩, ⟨_, rfl⟩, code, hinline, rfl⟩

/-- Both constructors of a view exist, and are converters. That their bodies are the code of two
    conversions is kept in `Constructs`, so that they can be run. -/
theorem exists_constructors {t : UserType} (hf : p.scope.registry.find? id = some t)
    (hm : ∀ m ∈ matchFields v w, SameKind (toView p) m)
    (hm' : ∀ m ∈ matchFields w v, SameKind (fromView p) m) (helpers : List Helper) :
    ∃ f g helpers', (p.constructors id view helpers).Yields ([f, g], helpers') ∧
      Constructs (toView p) id pid "res" "vres" f ∧
      Constructs (fromView p) pid id "vres" "res" g := by
  obtain ⟨f, hfunc, hto⟩ := exists_objectToView hscope hpid hv hw hm helpers
  obtain ⟨g, hgunc, hfrom⟩ := exists_objectFromView hscope hpid hv hw hm' (Helper.sorted helpers)
  have hget : p.scope.registry.get id = .ok t := by
    rw [Registry.get, hf]
  obtain ⟨hr, hobject⟩ := Registry.view_eq_some.mp hv
  have hdefinition : p.scope.registry.kind t.definition = .ok .object := by
    rw [Registry.kind_eq_of_resolve (Registry.resolve_definition hf hr), hobject]
  refine ⟨f, g, Helper.sorted (Helper.sorted helpers), ?_, hto, hfrom⟩
  unfold Projector.constructors
  rw [Projector.constructorsWithin]
  simp only [Walk.yields_bind, Walk.yields_liftM]
  refine ⟨t, hget, _, hdefinition, ?_⟩
  -- The type is an object and no array, so there are no elements to go on to.
  rw [if_neg (by simp)]
  simp only [Walk.yields_bind, Walk.yields_pure]
  exact ⟨_, hfunc, _, hgunc, rfl⟩

end Objects

end Exists

/-- A call builds a new object, whatever is in the fields of the given one. It is found by running
    the body, and what each of its fields holds is what `FieldRule` says. -/
theorem Constructs.call {c : Conversion} {a b : TypeId} {value place : String} {f : Func}
    (h : Constructs c a b value place f) {v w : ObjectView}
    (hv : ObjectView.of? c.registry (.user a) = .ok (some v))
    (hw : ObjectView.of? c.registry (.user b) = .ok (some w)) (hdv : v.Distinct) (hdw : w.Distinct)
    (hprimitive : ∀ m ∈ matchFields v w, c.registry.isPrimitive m.source = .ok true ∧
      c.registry.isPrimitive m.target = .ok true)
    (hne : place ≠ value) (hvalue : value ≠ "tmp" ∧ value ≠ "zero")
    (hplace : place ≠ "tmp" ∧ place ≠ "zero") (hM : Declares M c (.user b)) {σ : State δ}
    (hb : σ.Bounded) {n : Nat} {x : String → Option (Value δ)}
    (hx : ∀ m ∈ matchFields v w,
      FieldHolds c.registry c.source v σ n m.name m.source (x m.name)) :
    ∃ k σ', M.call f (.object n) σ = some (.object k, σ') ∧ σ'.Bounded ∧
      (∀ m ∈ matchFields v w,
        FieldRule M c (.between (.user a) (.user b) value place) v w σ' k m (x m.name)) ∧
      ∀ y ∈ w.fields, y.1 ∉ v.fields.map Prod.fst → ∃ type,
        c.scope.fieldType c.target y.2 (w.requires y.1) = .ok type ∧
          σ'.memory (.field k (w.fieldName y.1)) = some (M.zero type) := by
  obtain ⟨type, hparams⟩ := h.params
  obtain ⟨code, hcode, hbody⟩ := h.body
  -- A call starts with a scope of its own, in which the parameter is the only variable. Memory is
  -- kept.
  let σ₀ : State δ := ({ σ with scope := [] } : State δ).bind value (.object n)
  have hentry : Works [] (.cell σ.next) { σ with scope := [] } σ₀ := .bind hb List.not_mem_nil
  have hmemory : ∀ l y, σ.memory l = some y → σ₀.memory l = some y := by
    intro l y hl
    exact State.memory_bind hb value (.object n) hl
  obtain ⟨emit, hobject⟩ := object_of_inline hv hw hcode
  obtain ⟨τ, hrun, hframe, hfields, hzero⟩ := object_run hv hw hdv hdw hprimitive hobject hne hvalue
    hplace hM hentry.bounded ⟨_, State.cell?_bind_self _ _ _, State.memory_bind_self _ _ _⟩
    fun m hm => (hx m hm).of_memory hmemory
  refine ⟨σ₀.next, τ.leave σ, Machine.call_eq hparams hbody hrun hframe.eval_place, hframe.bounded,
    fun m hm => ?_, hzero⟩
  obtain ⟨hd, hs, ht, hp, hholds⟩ := hfields m hm
  exact .intro hd hs ht hp hholds

/-! ## The round trip -/

/-- What is in a field after the way to a view that shows the fields with the names, and back. What
    is not shown is zero. -/
inductive FieldRestored (M : Machine δ) (reg : Registry) (s : Scope) (v : ObjectView)
    (names : List String) (σ : State δ) (n : Nat) (name : String) (a : Attribute)
    (x : Option (Value δ)) : Prop where
  | shown {type : TypeRef} {p : Primitive} (hname : name ∈ names)
      (ht : s.typeRef .service a = .ok type) (hp : reg.primitive? a = .ok (some p))
      (h : FieldHolds reg .service v σ n name a
        (restored M type p.isReference (v.requires name) a x)) :
      FieldRestored M reg s v names σ n name a x
  | hidden {type : TypeRef} (hname : name ∉ names)
      (ht : s.fieldType .service a (v.requires name) = .ok type)
      (h : σ.memory (.field n (v.fieldName name)) = some (M.zero type)) :
      FieldRestored M reg s v names σ n name a x

section RoundTrip

variable {reg : Registry} {id pid : TypeId} {v w : ObjectView} {names : List String}

theorem Projects.mem_matchFields (hw : Projects reg v names w) {m : FieldMatch}
    (hm : m ∈ matchFields w v) : (⟨m.name, m.target, m.source⟩ : FieldMatch) ∈ matchFields v w := by
  obtain ⟨hb, ha⟩ := mem_fields_of_mem_matchFields hm
  exact mem_matchFields_of_mem (Ordered.mem_of_get? ha) (hw.field? hb)

variable {derived : Derived} {package : String} (hgrows : reg.Grows derived.registry)
  (hw : Projects reg v names w) (hd : v.Distinct)
include hgrows hw hd

/-- A common field of an object and its projection is shown, and required if it was. -/
theorem Projects.shown_of_match {m : FieldMatch} (hm : m ∈ matchFields v w) :
    ShownAs derived.registry m.source m.target ∧ w.requires m.name = v.requires m.name := by
  obtain ⟨ha, hb⟩ := mem_fields_of_mem_matchFields hm
  have hb := Ordered.mem_of_get? hb
  have hname := hw.mem_names.mp (List.mem_map_of_mem hb)
  exact ⟨(hw.shownAs hb (hd.field? ha)).grows hgrows, hw.requires hname⟩

variable (hv : ObjectView.of? reg (.user id) = .ok (some v))
  (hwview : ObjectView.of? derived.registry (.user pid) = .ok (some w))
  (hM : ∀ type y, M.convert type y = y) {σ : State δ} {x : String → Option (Value δ)}
include hv hwview hM

/-- The way to the view. Every shown field holds what the result holds. The premises say what is in
    the struct of the projected type, and what the result holds. -/
theorem projected_run {f : Func}
    (hf : Constructs (toView (projector derived package)) id pid "res" "vres" f)
    (hdeclares : Declares M (toView (projector derived package)) (.user pid)) (hb : σ.Bounded)
    {n : Nat} (hx : ∀ y ∈ v.fields, FieldHolds derived.registry .service v σ n y.1 y.2 (x y.1)) :
    ∃ k σ', M.call f (.object n) σ = some (.object k, σ') ∧ σ'.Bounded ∧
      ∀ m ∈ matchFields w v, FieldHolds derived.registry (.projected package) w σ' k m.name m.source
        (x m.name) := by
  obtain ⟨k, σ', hcall, hb', hrules, -⟩ := hf.call (hgrows.view hv) hwview hd (hw.distinct hd)
    (fun m hm => (hw.shown_of_match hgrows hd hm).1.isPrimitive) (by decide) ⟨by decide, by decide⟩
    ⟨by decide, by decide⟩ hdeclares hb fun m hm => hx _ (mem_fields_of_mem_matchFields hm).1
  refine ⟨k, σ', hcall, hb', fun m hm => ?_⟩
  have hback := hw.mem_matchFields hm
  obtain ⟨hshown, hrequires⟩ := hw.shown_of_match hgrows hd hback
  have hrule := hrules ⟨m.name, m.target, m.source⟩ hback
  exact projected_of_rule (c := toView (projector derived package))
    (m := ⟨m.name, m.target, m.source⟩) hM rfl rfl hshown hrequires
    (hx _ (mem_fields_of_mem_matchFields hback).1) hrule

/-- The way back. Every field of the view holds what it held before, or its default. -/
theorem restored_run {g : Func}
    (hg : Constructs (fromView (projector derived package)) pid id "vres" "res" g)
    (hdeclares : Declares M (fromView (projector derived package)) (.user id)) (hb : σ.Bounded)
    {k : Nat} {σ₀ : State δ} {n : Nat}
    (hx : ∀ y ∈ v.fields, FieldHolds reg .service v σ₀ n y.1 y.2 (x y.1))
    (hview : ∀ m ∈ matchFields w v, FieldHolds derived.registry (.projected package) w σ k m.name
      m.source (x m.name)) :
    ∃ l σ', M.call g (.object k) σ = some (.object l, σ') ∧
      ∀ y ∈ v.fields, FieldRestored M reg (.ofRegistry derived.registry) v names σ' l y.1 y.2
        (x y.1) := by
  have hfrom : ∀ m ∈ matchFields w v, ShownAs derived.registry m.target m.source ∧
      w.requires m.name = v.requires m.name :=
    fun m hm => hw.shown_of_match hgrows hd (hw.mem_matchFields hm)
  obtain ⟨l, σ', hcall, -, hrules, hzero⟩ := hg.call hwview (hgrows.view hv) (hw.distinct hd) hd
    (fun m hm => (hfrom m hm).1.isPrimitive.symm) (by decide) ⟨by decide, by decide⟩
    ⟨by decide, by decide⟩ hdeclares hb hview
  refine ⟨l, σ', hcall, fun y hy => ?_⟩
  obtain ⟨name, a⟩ := y
  by_cases hname : name ∈ names
  · obtain ⟨⟨other, b⟩, hb, hother⟩ := List.mem_map.mp (hw.mem_names.mpr hname)
    obtain rfl : other = name := hother
    have hm := mem_matchFields_of_mem hb (hd.field? hy)
    obtain ⟨hshown, hrequires⟩ := hfrom _ hm
    obtain ⟨type, p, ht, hprimitive, hholds⟩ :=
      restored_of_rule (c := fromView (projector derived package)) (m := ⟨other, b, a⟩) hM rfl rfl
        hshown hrequires (grows_of_fieldHolds hgrows (hx _ hy)) (hrules _ hm)
    -- Kinds and pointers are those of the registry without the projected types.
    obtain ⟨hp, hpointer, -, -⟩ := hx _ hy
    obtain rfl := Option.some.inj (Except.ok.inj ((hgrows.primitive? hp).symm.trans hprimitive))
    obtain ⟨hreads, hpresent⟩ :=
      reads_of_fieldHolds hholds hprimitive (hgrows.holdsPointer hpointer)
    exact .shown hname ht hp (.intro hp hpointer hreads hpresent)
  · obtain ⟨type, ht, hmemory⟩ := hzero _ hy fun hmem => hname (hw.mem_names.mp hmem)
    exact .hidden hname ht hmemory

end RoundTrip

/-- For an object of primitives the derivation succeeds, and each of its views has a constructor to
    the projection and one back. On any machine that declares both types and converts between kinds
    without changing values, the two can be run one after the other, and every field of the object
    that comes out is what was there before, or its default, if the view shows it, and zero if it
    does not.

    The state before is any in which the fields of a value hold what their types allow; that the
    runs succeed is part of the conclusion. -/
theorem constructors_restore (reg : Registry) (id : TypeId) (views : List String) (package : String)
    (v : ObjectView) (hv : ObjectView.of? reg (.user id) = .ok (some v)) (hd : v.Distinct)
    (hp : ∀ y ∈ v.fields, reg.isPrimitive y.2 = .ok true)
    (hviews : ∀ view ∈ views, ∃ names, Shows reg id v view names)
    (hfresh : ∀ view ∈ views, reg.find? (ViewedType.projectedId ⟨id, view⟩) = none) :
    ∃ derived, (derive reg id views).Yields derived ∧
      ∀ view ∈ views, ∀ names, Shows reg id v view names → ∀ helpers,
        ∃ f g helpers',
          ((projector derived package).constructors id view helpers).Yields ([f, g], helpers') ∧
          ∀ (M : Machine δ), (∀ type y, M.convert type y = y) →
            Declares M (toView (projector derived package))
              (.user (ViewedType.projectedId ⟨id, view⟩)) →
            Declares M (fromView (projector derived package)) (.user id) →
            ∀ (σ : State δ) (n : Nat) (x : String → Option (Value δ)), σ.Bounded →
              (∀ y ∈ v.fields, FieldHolds reg .service v σ n y.1 y.2 (x y.1)) →
              ∃ k σ' l σ'', M.call f (.object n) σ = some (.object k, σ') ∧
                M.call g (.object k) σ' = some (.object l, σ'') ∧
                ∀ y ∈ v.fields, FieldRestored M reg (.ofRegistry derived.registry) v names σ'' l
                  y.1 y.2 (x y.1) := by
  obtain ⟨derived, hderive, hgrows, hall⟩ := exists_derive hv hp hviews hfresh
  refine ⟨derived, hderive, fun view hview names hshows helpers => ?_⟩
  obtain ⟨hget, names', w, hshows', hw, hwview⟩ := hall view hview
  obtain rfl := hshows'.unique hshows
  have hpid : (projector derived package).projectedId id view =
      .ok (ViewedType.projectedId ⟨id, view⟩) := by
    unfold Projector.projectedId projector
    rw [hget]
  obtain ⟨t, hf⟩ := Registry.find?_of_kind rfl (Registry.kind_of_view hv)
  have hto : ∀ m ∈ matchFields v w, SameKind (toView (projector derived package)) m :=
    fun m hm => (hw.shown_of_match hgrows hd hm).1.kind
  have hfrom : ∀ m ∈ matchFields w v, SameKind (fromView (projector derived package)) m :=
    fun m hm => (hto _ (hw.mem_matchFields hm)).imp fun _ hp => hp.symm
  obtain ⟨f, g, helpers', hfuncs, hcf, hcg⟩ := exists_constructors rfl hpid (hgrows.view hv) hwview
    (hgrows.find? hf) hto hfrom helpers
  refine ⟨f, g, helpers', hfuncs, fun M hM hdeclaresTo hdeclaresFrom σ n x hb hx => ?_⟩
  -- The state after the first call is where the second starts, with the object of the first in
  -- hand.
  obtain ⟨k, σ', hcallTo, hb', hview⟩ := projected_run hgrows hw hd hv hwview hM hcf hdeclaresTo hb
    fun y hy => grows_of_fieldHolds hgrows (hx y hy)
  obtain ⟨l, σ'', hcallFrom, hrestored⟩ := restored_run hgrows hw hd hv hwview hM hcg hdeclaresFrom
    hb' hx hview
  exact ⟨k, σ', l, σ'', hcallTo, hcallFrom, hrestored⟩

/-! ## A memo -/

def memoFields : List (String × Attribute) :=
  [("title", { type := .primitive .string }),
    ("note", { type := .primitive .string, overrides := { pointer := some true },
               default := some (.string "none") }),
    ("author", { type := .primitive .string })]

/-- A result whose note is nil where it is absent, although it has a default. -/
def memo : UserType where
  id := "Memo"
  name := "Memo"
  kind := .result
  definition := { type := .object memoFields, rules := { required := ["title"] } }
  views := [⟨"default", [.name "title", .name "note"]⟩]

def memoView : ObjectView := ⟨memo.definition, memoFields⟩

def memos : Registry := ⟨[memo], List.nodup_singleton _⟩

/-- The structs of memos and of their projections. -/
def memoStructs : TypeRef → List (StructField TypeRef)
  | .named none "Memo" =>
    [⟨"Title", .primitive .string, none⟩, ⟨"Note", .pointer (.primitive .string), none⟩,
      ⟨"Author", .pointer (.primitive .string), none⟩]
  | .named (some "views") "MemoView" =>
    [⟨"Title", .pointer (.primitive .string), none⟩, ⟨"Note", .pointer (.primitive .string), none⟩]
  | _ => []

/-- A memo with a title and an author and without a note. -/
def memoState : State String where
  scope := []
  memory
    | .field 0 "Title" => some (.data "Plan")
    | .field 0 "Note" => some .nil
    | .field 0 "Author" => some (.pointer (.cell 1))
    | .cell 1 => some (.data "Ann")
    | _ => none
  next := 2

def memoValue : String → Option (Value String)
  | "title" => some (.data "Plan")
  | "author" => some (.data "Ann")
  | _ => none

theorem memoState_bounded : memoState.Bounded := by
  intro l y hl
  show l.number < 2
  unfold memoState at hl
  dsimp only at hl
  split at hl
  · decide
  · decide
  · decide
  · decide
  · cases hl

theorem memo_holds : ∀ y ∈ memoView.fields,
    FieldHolds memos .service memoView memoState 0 y.1 y.2 (memoValue y.1) := by
  intro y hy
  rcases hy with _ | ⟨_, _ | ⟨_, _ | ⟨_, hy⟩⟩⟩
  · exact .intro rfl rfl (.plain rfl rfl (by decide)) fun _ _ => Option.some_ne_none _
  · exact .intro rfl rfl (.absent rfl rfl) fun hr => absurd hr (by decide)
  · exact .intro rfl rfl (.behind rfl rfl rfl) fun _ _ => Option.some_ne_none _
  · cases hy

theorem memo_primitive : ∀ y ∈ memoView.fields, memos.isPrimitive y.2 = .ok true := by
  intro y hy
  rcases hy with _ | ⟨_, _ | ⟨_, _ | ⟨_, hy⟩⟩⟩
  · rfl
  · rfl
  · rfl
  · cases hy

theorem memo_distinct : memoView.Distinct := by
  unfold ObjectView.Distinct
  decide

theorem memo_shows : Shows memos "Memo" memoView "default" ["title", "note"] :=
  ⟨⟨_, rfl, rfl⟩, by decide⟩

def memoProjected : UserType where
  id := "Memo#default"
  name := "MemoView"
  definition :=
    { type := .object (memoFields.take 2), rules := { required := ["title"] } }

def memoShown : ObjectView := ⟨memoProjected.definition, memoFields.take 2⟩

def memoDerived : Derived where
  registry := memos.insert memoProjected
  ids := [(⟨"Memo", "default"⟩, "Memo#default")]

theorem memo_projected (levels : Nat) :
    Deriving.Yields (projectWithin memos (levels + 1) ⟨"Memo", "default"⟩) {} "Memo#default"
      ⟨memoDerived.ids, [("Memo#default", memoProjected)]⟩ := by
  rw [projectWithin]
  rfl

theorem memo_derived : (derive memos "Memo" ["default"]).Yields memoDerived := by
  have hview : Deriving.Yields (do
      let _ ← projectWithin memos (projectionBudget memos 1) ⟨"Memo", "default"⟩) {} ()
      ⟨memoDerived.ids, [("Memo#default", memoProjected)]⟩ :=
    Deriving.yields_bind.mpr ⟨_, _, memo_projected _, rfl⟩
  unfold derive projectAll
  rw [List.forM_eq_forM, List.forM_cons, List.forM_nil]
  simp only [Walk.yields_bind, Walk.yields_liftM, Walk.yields_pure]
  exact ⟨((), _), Deriving.yields_bind.mpr ⟨(), _, hview, rfl⟩, _, rfl, rfl⟩

theorem memo_sameKind {c : Conversion} (hc : c.registry = memoDerived.registry) :
    (∀ m ∈ matchFields memoView memoShown, c.SameKind m) ∧
      ∀ m ∈ matchFields memoShown memoView, c.SameKind m := by
  unfold SameKind
  rw [hc]
  refine ⟨fun m hm => ?_, fun m hm => ?_⟩
  · rcases hm with _ | ⟨_, _ | ⟨_, hm⟩⟩
    · exact ⟨.string, rfl, rfl⟩
    · exact ⟨.string, rfl, rfl⟩
    · cases hm
  · rcases hm with _ | ⟨_, _ | ⟨_, hm⟩⟩
    · exact ⟨.string, rfl, rfl⟩
    · exact ⟨.string, rfl, rfl⟩
    · cases hm

/-- The conversion of a memo to its default view and back, with its title there and its note
    absent. -/
theorem constructors_restore_memo : ∃ derived f g helpers k σ l σ',
    (derive memos "Memo" ["default"]).Yields derived ∧
    ((projector derived "views").constructors "Memo" "default" []).Yields ([f, g], helpers) ∧
    (texts memoStructs).call f (.object 0) memoState = some (.object k, σ) ∧
    (texts memoStructs).call g (.object k) σ = some (.object l, σ') ∧
    ∀ y ∈ memoView.fields, FieldRestored (texts memoStructs) memos (.ofRegistry derived.registry)
      memoView ["title", "note"] σ' l y.1 y.2 (memoValue y.1) := by
  have hviews : ∀ view ∈ ["default"], ∃ names, Shows memos "Memo" memoView view names := by
    intro view hview
    obtain rfl := List.mem_singleton.mp hview
    exact ⟨_, memo_shows⟩
  have hfresh : ∀ view ∈ ["default"],
      memos.find? (ViewedType.projectedId ⟨"Memo", view⟩) = none := by
    intro view hview
    obtain rfl := List.mem_singleton.mp hview
    rfl
  obtain ⟨derived, hderive, hall⟩ := constructors_restore (δ := String) memos "Memo" ["default"]
    "views" memoView rfl memo_distinct memo_primitive hviews hfresh
  obtain ⟨f, g, helpers, hfuncs, hruns⟩ := hall "default" List.mem_cons_self _ memo_shows []
  obtain rfl := memo_derived.unique hderive
  -- The machine has the two structs of the memo and its view, with the fields that the code gives
  -- them.
  have hto : Declares (texts memoStructs) (toView (projector memoDerived "views"))
      (.user "Memo#default") := by
    intro w type hw htype
    cases hw
    cases htype
    rfl
  have hfrom : Declares (texts memoStructs) (fromView (projector memoDerived "views"))
      (.user "Memo") := by
    intro w type hw htype
    cases hw
    cases htype
    rfl
  obtain ⟨k, σ, l, σ', hcallTo, hcallFrom, h⟩ :=
    hruns (texts memoStructs) (fun _ _ => rfl) hto hfrom memoState 0 memoValue memoState_bounded
      memo_holds
  exact ⟨memoDerived, f, g, helpers, k, σ, l, σ', hderive, hfuncs, hcallTo, hcallFrom, h⟩

/-- The note that was absent comes back as its default. The memo was given to the first constructor
    and what it returned to the second, both as emitted. -/
theorem memo_note_replaced : memoView.Distinct ∧
    (∀ y ∈ memoView.fields, memos.isPrimitive y.2 = .ok true) ∧
    (∀ y ∈ memoView.fields,
      FieldHolds memos .service memoView memoState 0 y.1 y.2 (memoValue y.1)) ∧
    ∃ derived f g helpers k σ l σ' note,
      (derive memos "Memo" ["default"]).Yields derived ∧
      ((projector derived "views").constructors "Memo" "default" []).Yields ([f, g], helpers) ∧
      (texts memoStructs).call f (.object 0) memoState = some (.object k, σ) ∧
      (texts memoStructs).call g (.object k) σ = some (.object l, σ') ∧
      memoState.memory (.field 0 "Note") = some .nil ∧
      σ'.memory (.field l "Note") = some (.pointer note) ∧
      σ'.memory note = some (.data "none") := by
  refine ⟨memo_distinct, memo_primitive, memo_holds, ?_⟩
  have hid : (projector memoDerived "views").projectedId "Memo" "default" =
    .ok "Memo#default" := rfl
  obtain ⟨f, g, helpers, hfuncs, hto, hfrom⟩ := exists_constructors (v := memoView) (w := memoShown)
    (t := memo) rfl hid rfl rfl rfl (memo_sameKind rfl).1 (memo_sameKind rfl).2 []
  obtain ⟨type, hparams⟩ := hto.params
  obtain ⟨type', hparams'⟩ := hfrom.params
  obtain ⟨code, hcode, hbody⟩ := hto.body
  obtain ⟨code', hcode', hbody'⟩ := hfrom.body
  -- The code is what the compiler computes for memos, so the calls can be run.
  cases hcode
  cases hcode'
  unfold Machine.call
  refine ⟨memoDerived, f, g, helpers, ?_⟩
  rw [hparams, hbody, hparams', hbody']
  exact ⟨_, _, _, _, _, memo_derived, hfuncs, rfl, rfl, rfl, rfl, rfl⟩

end Projection
end Shapewright
