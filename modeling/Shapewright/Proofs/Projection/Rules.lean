import Shapewright.Proofs.Projection.Correspondence
import Shapewright.Proofs.Projection.Identities
import Shapewright.Proofs.Validation.Selection
import Shapewright.Projection.Constructors

/-!
# Rules that projections keep

In a projection an alias becomes the primitive that it stands for, and the validator of the
projected type sees the rules of that primitive and no others. The validator of the full type sees
those of the field and those of the type behind the alias. The projection has room for one of the
two: it takes the rules of the field if there are any, otherwise those behind the alias. So the two
validators make the same checks where the field has no rules, and where its rules say all that is
said behind the alias.

## What a validator makes of a field

The code for a primitive field is a test for a pointer around one check for each constraint. Which
constraints these are is a matter of the attribute and of the type at the end of its chain
(`constraintsThrough`), and where the code stands is a matter of the subject. `ChecksField` says
both, so it can be compared between two validators although they are built from two registries.

## Comparing the two

The value of the field is the same on both sides: it is written with the same variable, called the
same in an error, and held by a pointer in both or in neither, since a projected type requires what
its type requires (`Defines.requires`). What differs is the list of constraints. That of the
projection is always a part of the other, and it is all of it under `KeepsRules`.

The statement asks that no other projection has the identity of this one. Otherwise the type that is
found under the identity may be that of another type.
-/

namespace Shapewright

open Projection.ViewedType (projectedId)

theorem Rules.constraints_of_isEmpty {r : Rules} (h : r.isEmpty) (p : Primitive) :
    r.constraints p = [] := by
  rw [Rules.eq_of_isEmpty h]
  simp [constraints, enums, lengths, bounds]

namespace Projection

variable {reg reg' : Registry} {P : ViewedType → Prop} {a b r d : Attribute} {view : Option String}
  {p : Primitive} {t : UserType} {name : String}

/-! ## Primitives and their projections -/

/-- A primitive is shown with the rules of its attribute or, if there are none, with those of the
    type that it refers to. -/
theorem Image.of_primitive (h : Image reg P a view b) (hk : reg.kind a = .ok (.primitive p))
    (hr : reg.resolve a = .ok r) : b.type = .primitive p ∧ ShownAs reg a b ∧
      b.rules = if a.rules.isEmpty then r.rules else a.rules := by
  have htype := Registry.type_of_primitive hk hr
  -- What stands in place is what it resolves to, so it is neither an object nor a collection.
  have inPlace : a.userId? = none → a.type = .primitive p := by
    intro hu
    rw [Registry.resolve_of_userId?_eq_none hu] at hr
    rwa [Except.ok.inj hr]
  cases h with
  | structured _ hk' hs =>
    rw [hk] at hk'
    cases hk'
    simp at hs
  | unfolded _ _ hr' =>
    obtain rfl := Except.ok.inj (hr.symm.trans hr')
    exact ⟨htype, ⟨⟨p, hk, htype⟩, rfl, rfl⟩, rfl⟩
  | kept h =>
    rcases h with ⟨q, hq⟩ | hunion
    · have hu : a.userId? = none := by rw [Attribute.userId?, hq]
      have ha := inPlace hu
      rw [Registry.resolve_of_userId?_eq_none hu] at hr
      obtain rfl := Except.ok.inj hr
      exact ⟨ha, ⟨⟨p, hk, ha⟩, rfl, rfl⟩, (ite_self _).symm⟩
    · rw [hk] at hunion
      cases hunion
  | array ht => simp [inPlace (by rw [Attribute.userId?, ht])] at ht
  | map ht => simp [inPlace (by rw [Attribute.userId?, ht])] at ht
  | object ht => simp [inPlace (by rw [Attribute.userId?, ht])] at ht

/-- A primitive is held by a pointer where its projection is. -/
theorem ShownAs.holdsPointer_eq (h : ShownAs reg a b) (ctx : Context) (required : Bool) :
    ctx.holdsPointer reg' b required = ctx.holdsPointer reg a required := by
  obtain ⟨p, hk, htype⟩ := h.type
  have hb : reg'.kind b = .ok (.primitive p) := by
    have hu : b.userId? = none := by rw [Attribute.userId?, htype]
    rw [Registry.kind_eq_of_resolve (Registry.resolve_of_userId?_eq_none hu), htype]
  unfold Context.holdsPointer
  rw [Registry.primitive?_of_kind hk, Registry.primitive?_of_kind hb, h.overrides, h.default]

/-- The fields of a projected object that were required still are. This is said of the fields that
    the view lists. Of the others nothing is left to be required. -/
theorem Defines.requires {v : ObjectView} {found : Option View} (h : Defines reg P t name d)
    (hr : reg.resolve t.definition = .ok v.declared) (ht : v.declared.type = .object v.fields)
    (hfound : reg.view? t.id name = .ok found) {field : String}
    (hfield : field ∈ (listed found v).map (·.field)) : d.requires field = v.requires field := by
  cases h with
  | @object v' found' _ hv hfound' _ =>
    obtain ⟨hr', ht'⟩ := Registry.view_eq_some.mp hv
    obtain ⟨declared, fields⟩ := v
    obtain ⟨declared', fields'⟩ := v'
    obtain rfl : declared = declared' := Except.ok.inj (hr.symm.trans hr')
    obtain rfl : fields = fields' := DataType.object.inj (ht.symm.trans ht')
    obtain rfl := Except.ok.inj (hfound.symm.trans hfound')
    rw [Attribute.requires, Bool.eq_iff_iff, List.contains_iff_mem, List.mem_filter]
    exact and_iff_right hfield
  | collection hk hc =>
    rw [Registry.kind_eq_of_resolve hr, ht] at hk
    cases hk
    simp at hc

end Projection

namespace Validation

open Projection

variable {v v' : Validation} {isBuilt : Subject → Bool} {s : Subject} {a q : Attribute}
  {p : Primitive} {y : Place} {checks : Checks} {f : ShownField}

/-! ## The checks of one field -/

/-- The constraints that are checked of a primitive: those of its attribute `a`, and where that is a
    reference those of `q`, the last one on the chain. -/
def constraintsThrough (a q : Attribute) (p : Primitive) : List Constraint :=
  (if a.userId?.isSome then [a.rules, q.rules] else [a.rules]).flatMap (·.constraints p)

/-- The checks of some constraints on the primitive at a place, where there is a value. -/
def checksAt (v : Validation) (y : Place) (p : Primitive) (type : TypeRef)
    (cs : List Constraint) : Block :=
  guarded y.pointer y.position.var (cs.map (v.nativeCheck p type y.value y.position.path))

/-- The field is a primitive that the validator of the subject looks at. Of fields with one name it
    is the first. -/
def ShowsPrimitive (v : Validation) (s : Subject) (f : ShownField) (p : Primitive) : Prop :=
  ∃ r found fields, v.Describes s r found ∧ r.type = .object fields ∧
    f ∈ shownFields fields found ∧ Ordered.get? fields f.name = some f.attr ∧
    v.registry.kind f.attr = .ok (.primitive p)

/-- The place is that of a field in the value of the subject. What the validator finds at the place
    are the checks of the constraints, and they are in its code. -/
structure ChecksField (v : Validation) (isBuilt : Subject → Bool) (s : Subject) (name : String)
    (p : Primitive) (y : Place) (cs : List Constraint) : Prop where
  place : ∃ r found fields f, v.Describes s r found ∧ r.type = .object fields ∧
    f ∈ shownFields fields found ∧ f.name = name ∧
    v.HoldsField r.rules.required (v.argument s) f y
  kind : v.registry.kind y.attr = .ok (.primitive p)
  code : ∃ type checks before after, v.scope.typeRef v.context y.attr = .ok type ∧
    v.value isBuilt y.attr y.pointer y.position = .ok ⟨v.checksAt y p type cs, []⟩ ∧
    v.body isBuilt s = .ok checks ∧ checks.code = before ++ v.checksAt y p type cs ++ after

/-- Two places are for one value: it is written and called the same, and behind a pointer at both or
    at none. -/
structure Place.SameValue (y z : Place) : Prop where
  pointer : y.pointer = z.pointer
  var : y.position.var = z.position.var
  path : y.position.path = z.position.path

/-- A field is behind a pointer by what its attribute is and whether it is required. Its path is
    that of the object with the name of the field. -/
theorem position_of_holdsField {required : List String} {at' : Position}
    (h : v.HoldsField required at' f y) :
    v.context.holdsPointer v.registry f.attr (required.contains f.name) = .ok y.pointer ∧
      y.position.path = at'.path ++ "." ++ f.name := by
  obtain ⟨-, h⟩ := h
  unfold fieldPosition at h
  obtain ⟨pointer, hpointer, h⟩ := except_bind_eq_ok.mp h
  split at h
  all_goals
    obtain ⟨view, -, h⟩ := except_bind_eq_ok.mp h
    rw [except_pure_eq_ok, Prod.mk.injEq] at h
    rw [← h.1, ← h.2]
    exact ⟨hpointer, rfl⟩

/-- The checks of a primitive are those of its constraints, in the order in which they are
    declared. -/
theorem primitiveChecks_eq (hq : v.registry.resolve a = .ok q) {value : Expr} {path : String}
    {code : Block} (h : v.primitiveChecks a p value path = .ok code) :
    ∃ type, v.scope.typeRef v.context a = .ok type ∧
      code = (constraintsThrough a q p).map (v.nativeCheck p type value path) := by
  obtain ⟨resolved, type, hr, ht, rfl⟩ := primitiveChecks_eq_ok.mp h
  obtain rfl := Except.ok.inj (hq.symm.trans hr)
  exact ⟨type, ht, by rw [constraintsThrough, List.map_flatMap]⟩

/-- What is found at a primitive are the checks of its constraints. The order of the constraints is
    that in which they are written, first those of the attribute. -/
theorem value_of_primitive (hk : v.registry.kind y.attr = .ok (.primitive p))
    (hq : v.registry.resolve y.attr = .ok q)
    (h : v.value isBuilt y.attr y.pointer y.position = .ok checks) :
    ∃ type, v.scope.typeRef v.context y.attr = .ok type ∧
      checks = ⟨v.checksAt y p type (constraintsThrough y.attr q p), []⟩ := by
  obtain ⟨⟨type, description, rules, overrides, default⟩, pointer, position⟩ := y
  -- In place and behind a reference the code calls the same function.
  cases type with
  | primitive kind =>
    have hkind := Registry.type_of_primitive hk (Registry.resolve_of_userId?_eq_none rfl)
    obtain rfl : kind = p := DataType.primitive.inj hkind
    rw [value] at h
    obtain ⟨code, hc, h⟩ := except_bind_eq_ok.mp h
    cases h
    rw [primitiveChecks_primitive description rules overrides default] at hc
    obtain ⟨type, ht, rfl⟩ := primitiveChecks_eq hq hc
    exact ⟨type, ht, rfl⟩
  | user id =>
    have hsame : Attribute.BothRefer id { type := .user id, rules, overrides }
      ⟨.user id, description, rules, overrides, default⟩ := ⟨rfl, rfl⟩
    rw [value] at h
    obtain ⟨kind, hkind, h⟩ := except_bind_eq_ok.mp h
    rw [hsame.kind_eq] at hkind
    obtain rfl := Except.ok.inj (hkind.symm.trans hk)
    obtain ⟨code, hc, h⟩ := except_bind_eq_ok.mp h
    cases h
    rw [primitiveChecks_user id description rules overrides default] at hc
    obtain ⟨type, ht, rfl⟩ := primitiveChecks_eq hq hc
    exact ⟨type, ht, rfl⟩
  | _ => cases Registry.type_of_primitive hk (Registry.resolve_of_userId?_eq_none rfl)

/-- What is found at a field that the validator looks at is in its code. What stands before it and
    behind it are the checks of the other fields. -/
theorem exists_code_of_field {required : List String} {position : Position} :
    ∀ {fs : List ShownField} {checks : Checks},
      v.shownChecks isBuilt required position fs = .ok checks → f ∈ fs →
      ∃ y inner before after, v.HoldsField required position f y ∧
        v.value isBuilt y.attr y.pointer y.position = .ok inner ∧
        checks.code = before ++ inner.code ++ after := by
  intro fs
  -- Fields are checked in order: what is before the field stays before its code.
  induction fs with
  | nil => exact fun _ hf => absurd hf List.not_mem_nil
  | cons g rest ih =>
    intro checks h hf
    unfold shownChecks at h
    obtain ⟨⟨pointer, q⟩, hq, h⟩ := except_bind_eq_ok.mp h
    obtain ⟨first, hfirst, h⟩ := except_bind_eq_ok.mp h
    obtain ⟨others, hothers, h⟩ := except_bind_eq_ok.mp h
    cases h
    rcases List.mem_cons.mp hf with rfl | hf
    · exact ⟨⟨f.attr, pointer, q⟩, first, [], others.code, ⟨rfl, hq⟩, hfirst, rfl⟩
    · obtain ⟨y, inner, before, after, hy, hinner, hcode⟩ := ih hothers hf
      refine ⟨y, inner, first.code ++ before, after, hy, hinner, ?_⟩
      rw [List.append_assoc first.code, List.append_assoc first.code, ← hcode]
      rfl

/-- A primitive field is checked for the constraints of its attribute and of the type behind it.
    Both validators are brought to this form, so that only their constraints have to be compared. -/
theorem exists_checksField {r : Attribute} {found : Option View}
    {fields : List (String × Attribute)} {checks : Checks} (hb : v.body isBuilt s = .ok checks)
    (hd : v.Describes s r found)
    (ht : r.type = .object fields) (hf : f ∈ shownFields fields found)
    (hk : v.registry.kind f.attr = .ok (.primitive p)) (hq : v.registry.resolve f.attr = .ok q) :
    ∃ y, v.HoldsField r.rules.required (v.argument s) f y ∧
      v.ChecksField isBuilt s f.name p y (constraintsThrough f.attr q p) := by
  have hbody := hb
  obtain ⟨t, hget, hresolve⟩ := hd.type
  unfold body at hbody
  simp only [hget, hd.view, hresolve, ht, except_bind_eq_ok, Except.ok.injEq,
    exists_eq_left'] at hbody
  obtain ⟨missing, -, others, hothers, hbody⟩ := hbody
  cases hbody
  -- The checks of the field stand in the middle of the body: the missing fields and the fields
  -- before it come first.
  obtain ⟨y, inner, before, after, hy, hinner, hcode⟩ := exists_code_of_field hothers hf
  obtain ⟨type, htype, rfl⟩ := value_of_primitive (hy.1 ▸ hk) (hy.1 ▸ hq) hinner
  rw [hy.1] at hinner hcode
  refine ⟨y, hy, ⟨r, found, fields, f, hd, ht, hf, rfl, hy⟩, hy.1 ▸ hk,
    type, _, missing ++ before, after, htype, hy.1 ▸ hinner, hb, ?_⟩
  rw [List.append_assoc missing, List.append_assoc missing, ← hcode]
  rfl

/-! ## Checks that are kept -/

/-- The second validator is for the projections of the types that the first one is for, in the same
    context. -/
structure Faces (v v' : Validation) (derived : Derived) : Prop where
  registry : v'.registry = derived.registry
  context : v'.context = v.context
  reporting : v'.reporting = v.reporting

/-- Nothing is lost where the rules of a primitive are replaced by its own or, if it has none of its
    own, by those behind it. -/
def KeepsRules (reg : Registry) (a : Attribute) (p : Primitive) : Prop :=
  a.rules.isEmpty ∨ ∀ q, reg.resolve a = .ok q →
    ∀ c ∈ q.rules.constraints p, c ∈ a.rules.constraints p

/-- The constraints are those of the attribute and of the type that it leads to. Where it is no
    reference both are the same. -/
theorem mem_constraintsThrough {reg : Registry} {c : Constraint} (hq : reg.resolve a = .ok q) :
    c ∈ constraintsThrough a q p ↔
      c ∈ a.rules.constraints p ∨ c ∈ q.rules.constraints p := by
  unfold constraintsThrough
  cases hu : a.userId? with
  | some id => simp
  | none =>
    rw [Registry.resolve_of_userId?_eq_none hu] at hq
    obtain rfl := Except.ok.inj hq
    simp

/-- Of the constraints on a primitive, its projection has no others, and has all of them exactly if
    the rules are kept. -/
theorem constraintsThrough_image {reg : Registry} {b : Attribute} (hq : reg.resolve a = .ok q)
    (hu : b.userId? = none) (hb : b.rules = if a.rules.isEmpty then q.rules else a.rules) :
    (∀ c ∈ constraintsThrough b b p, c ∈ constraintsThrough a q p) ∧
      ((∀ c ∈ constraintsThrough a q p, c ∈ constraintsThrough b b p) ↔ KeepsRules reg a p) := by
  have hself : reg.resolve b = .ok b := Registry.resolve_of_userId?_eq_none hu
  simp only [mem_constraintsThrough hq, mem_constraintsThrough hself, or_self, hb]
  by_cases hempty : a.rules.isEmpty
  · simp [hempty, KeepsRules, Rules.constraints_of_isEmpty hempty]
  · simp only [hempty, Bool.false_eq_true, if_false, KeepsRules, false_or, hq, Except.ok.injEq,
      forall_eq']
    exact ⟨fun c hc => .inl hc, fun h c hc => h c (.inr hc), fun h c hc => hc.elim id (h c)⟩

/-- The validator of a projection checks a primitive field where the one of the full type does, and
    makes no checks but those. It makes all of them exactly if the rules of the field are kept. A
    field that is an alias keeps the rules of its type only if it has none of its own, while
    validators gather both. -/
theorem projection_checks_iff (reg : Registry) (id : TypeId) (views : List String)
    (derived : Derived) (h : (derive reg id views).Yields derived) (k : ViewedType)
    (hk : derived.Has k)
    (halone : ∀ k', derived.Has k' → ¬ Coincides k k' ∧ ¬ Coincides k' k)
    (v v' : Validation) (hv : v.registry = reg) (hv' : v.Faces v' derived) (s : Subject)
    (hs : v.subject k.type (some k.view) = .ok s) (isBuilt isBuilt' : Subject → Bool)
    (checks checks' : Checks) (hbody : v.body isBuilt s = .ok checks)
    (hbody' : v'.body isBuilt' ⟨projectedId k, none⟩ = .ok checks') (f : ShownField) (p : Primitive)
    (hf : v.ShowsPrimitive s f p) :
    ∃ y z cs shown, v.ChecksField isBuilt s f.name p y cs ∧
      v'.ChecksField isBuilt' ⟨projectedId k, none⟩ f.name p z shown ∧ y.SameValue z ∧
      (∀ c ∈ shown, c ∈ cs) ∧ ((∀ c ∈ cs, c ∈ shown) ↔ KeepsRules reg f.attr p) := by
  subst hv
  obtain ⟨r, found, fields, hd, ht, hf, hfirst, hkind⟩ := hf
  obtain ⟨k', t, u, hk', hsame, htype, hu, hdefines⟩ := (provides_of_derive h).1.defined k hk
  obtain rfl : k' = k := by
    rcases projectedId_eq_iff.mp hsame with heq | hno | hno
    · exact heq
    · exact absurd hno (halone k' hk').2
    · exact absurd hno (halone k' hk').1
  -- The projection shows the field, as the image of its attribute.
  have hr := hd.resolve (under_of_subject hs) htype
  obtain ⟨_, shown, hfound, hshown, hp⟩ := hdefines.of_object hr ht
  obtain rfl := Except.ok.inj (hd.view.symm.trans ((shownView_eq hs htype).trans hfound))
  have hlisted : f.name ∈ (listed found ⟨r, fields⟩).map (·.field) := field_mem_listed hf
  obtain ⟨b, hb⟩ := Ordered.exists_get? ((hp.names _).mpr hlisted)
  obtain ⟨_, -, -, a, ha, himage⟩ := hp.image _ (Ordered.mem_of_get? hb)
  obtain rfl := Option.some.inj (hfirst.symm.trans ha)
  obtain ⟨q, hq⟩ := Registry.exists_resolve hkind
  obtain ⟨hprimitive, himage, hrules⟩ := himage.of_primitive hkind hq
  have hu' : b.userId? = none := by rw [Attribute.userId?, hprimitive]
  have hself : v'.registry.resolve b = .ok b := Registry.resolve_of_userId?_eq_none hu'
  have hkind' : v'.registry.kind b = .ok (.primitive p) := by
    rw [Registry.kind_eq_of_resolve hself, hprimitive]
  have hdefinition : u.definition.userId? = none := by rw [Attribute.userId?, hshown]
  have hd' : v'.Describes ⟨projectedId k', none⟩ u.definition none :=
    ⟨⟨u, Registry.get_eq_ok.mpr (hv'.registry ▸ hu),
      Registry.resolve_of_userId?_eq_none hdefinition⟩, rfl⟩
  have hf' : (⟨f.name, b, b.overrides.view⟩ : ShownField) ∈ shownFields shown none :=
    List.mem_map_of_mem (f := fun x => (⟨x.1, x.2, x.2.overrides.view⟩ : ShownField))
      (Ordered.mem_of_get? hb)
  obtain ⟨y, hy, hcs⟩ := exists_checksField hbody hd ht hf hkind hq
  obtain ⟨z, hz, hshownCs⟩ := exists_checksField hbody' hd' hshown hf' hkind' hself
  -- Both places are for the field of the one argument, with one name in the code.
  have same : y.SameValue z := by
    obtain ⟨hpointer, hpath⟩ := position_of_holdsField hy
    obtain ⟨hpointer', hpath'⟩ := position_of_holdsField hz
    have hrequired : u.definition.rules.required.contains f.name =
        r.rules.required.contains f.name :=
      hdefines.requires (v := ⟨r, fields⟩) hr ht hfound hlisted
    have hargument : (v'.argument ⟨projectedId k', none⟩).var = (v.argument s).var ∧
        (v'.argument ⟨projectedId k', none⟩).path = (v.argument s).path := by
      simp only [argument, hv'.reporting, and_self]
    refine ⟨?_, ?_, ?_⟩
    · rw [hv'.context, himage.holdsPointer_eq, hrequired] at hpointer'
      exact Except.ok.inj (hpointer.symm.trans hpointer')
    · rw [hy.var, hz.var, Attribute.fieldName, Attribute.fieldName, himage.overrides, hargument.1]
    · rw [hpath, hpath', hargument.2]
  obtain ⟨hnone, hiff⟩ := constraintsThrough_image (p := p) hq hu' hrules
  exact ⟨y, z, _, _, hcs, hshownCs, same, hnone, hiff⟩

/-- Labels with a code, whose field has the rules. Codes are written in capital letters. -/
def labels (rules : Rules) : Registry where
  types := [
    { id := "Label", name := "Label", kind := .result
      definition := { type := .object [("code", { type := .user "Code", rules })] }
      views := [{ name := "default", attributes := [.name "code"] }] },
    { id := "Code", name := "Code"
      definition := { type := .primitive .string, rules := { pattern := some "^[A-Z]+$" } } }]
  nodup := by simp

def labelValidation (reg : Registry) : Validation where
  scope := .ofRegistry reg
  context := Projector.localContext

/-- The code of a label is a string that its validator looks at. -/
theorem labels_showsPrimitive (rules : Rules) : (labelValidation (labels rules)).ShowsPrimitive
    ⟨"Label", some "default"⟩ ⟨"code", { type := .user "Code", rules }, none⟩ .string :=
  ⟨{ type := .object [("code", { type := .user "Code", rules })] },
    some { name := "default", attributes := [.name "code"] },
    [("code", { type := .user "Code", rules })],
    ⟨⟨_, rfl, rfl⟩, rfl⟩, rfl, List.mem_cons_self, rfl, rfl⟩

/-- A code without rules of its own keeps those of the type. This is the case in which the
    projection takes the rules over. -/
theorem projection_checks_labels : ∃ derived s checks checks',
    (derive (labels {}) "Label" ["default"]).Yields derived ∧ derived.Has ⟨"Label", "default"⟩ ∧
    (labelValidation (labels {})).Faces (labelValidation derived.registry) derived ∧
    (labelValidation (labels {})).subject "Label" (some "default") = .ok s ∧
    (labelValidation (labels {})).body (fun _ => false) s = .ok checks ∧
    (labelValidation derived.registry).body (fun _ => false) ⟨"Label#default", none⟩ =
      .ok checks' ∧
    ∃ y z cs shown,
      (labelValidation (labels {})).ChecksField (fun _ => false) s "code" .string y cs ∧
      (labelValidation derived.registry).ChecksField (fun _ => false) ⟨"Label#default", none⟩ "code"
        .string z shown ∧ y.SameValue z ∧ ∀ c, c ∈ cs ↔ c ∈ shown := by
  obtain ⟨derived, h, hids, checks', hchecks'⟩ : ∃ derived,
      (derive (labels {}) "Label" ["default"]).Yields derived ∧
      derived.ids.map Prod.fst = [⟨"Label", "default"⟩] ∧
      ∃ checks', (labelValidation derived.registry).body (fun _ => false) ⟨"Label#default", none⟩ =
        .ok checks' := by
    decide +kernel
  obtain ⟨checks, hchecks⟩ : ∃ checks, (labelValidation (labels {})).body (fun _ => false)
      ⟨"Label", some "default"⟩ = .ok checks := by
    decide +kernel
  have hhas : ∀ k, derived.Has k ↔ k = ⟨"Label", "default"⟩ := by
    intro k
    rw [Derived.Has, hids, List.mem_singleton]
  -- With one projection there is none that could coincide with it.
  have halone : ∀ k', derived.Has k' → ¬ Coincides ⟨"Label", "default"⟩ k' ∧
      ¬ Coincides k' ⟨"Label", "default"⟩ := by
    intro k' hk'
    obtain rfl := (hhas k').mp hk'
    exact ⟨fun h => h.ne rfl, fun h => h.ne rfl⟩
  have hfaces : (labelValidation (labels {})).Faces (labelValidation derived.registry) derived :=
    ⟨rfl, rfl, rfl⟩
  obtain ⟨y, z, cs, shown, hcs, hshown, hsame, hsub, hall⟩ :=
    projection_checks_iff (labels {}) "Label" ["default"] derived h ⟨"Label", "default"⟩
      ((hhas _).mpr rfl) halone (labelValidation (labels {})) (labelValidation derived.registry) rfl
      hfaces ⟨"Label", some "default"⟩ rfl (fun _ => false) (fun _ => false) checks checks' hchecks
      hchecks' _ .string (labels_showsPrimitive {})
  exact ⟨derived, _, checks, checks', h, (hhas _).mpr rfl, hfaces, rfl, hchecks, hchecks', y, z, cs,
    shown, hcs, hshown, hsame, fun c => ⟨hall.mpr (.inl rfl) c, hsub c⟩⟩

/-- The code of a label, where it is validated. -/
def labelCode : Expr := (Expr.ident "result").field "Code"

/-- The check that a code is not too short. -/
def shortCheck (v : Validation) (code : Expr) : Stmt :=
  v.lengthCheck .lower (lengthOf .string code) code "result.code" 3

/-- The check that a code is written in capital letters. -/
def capitalsCheck (v : Validation) (code : Expr) : Stmt :=
  v.patternCheck code "result.code" "^[A-Z]+$"

/-- The code of a label is checked for its length and its letters, and in the projection for its
    length alone: the rule of the field has taken the place of that of the type. -/
theorem short_labels_lose_pattern : ∃ derived,
    (derive (labels { minLength := some 3 }) "Label" ["default"]).Yields derived ∧
    (∃ checks, (labelValidation (labels { minLength := some 3 })).body (fun _ => false)
        ⟨"Label", some "default"⟩ = .ok checks ∧
      (checks.code == [.when labelCode.notNil
        [shortCheck (labelValidation derived.registry)
            (.convert (.primitive .string) labelCode.deref),
          capitalsCheck (labelValidation derived.registry)
            (.convert (.primitive .string) labelCode.deref)]]) = true) ∧
    ∃ checks, (labelValidation derived.registry).body (fun _ => false) ⟨"Label#default", none⟩ =
        .ok checks ∧
      (checks.code == [.when labelCode.notNil
        [shortCheck (labelValidation derived.registry) labelCode.deref]]) = true := by
  decide +kernel

end Validation
end Shapewright
