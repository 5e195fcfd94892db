import Mathlib.Data.List.Forall2
import Mathlib.Logic.Relation
import Shapewright.Proofs.Validation.Constraints
import Shapewright.Validation.Validators

/-!
# The places that a validator looks at

The walk over the structure of a subject is a set of places: values inside the validated one, each
with its attribute and with the expression that stands for it in the code. From a place the walk
goes on to the elements of a collection in place and to the fields of an object in place; a value of
a named structured type is handed over to the validator of that type.

`Builds` says what code the walk makes of some places. Everything that is proved of validators is
proved by induction over it, with one case for each way of checking a value.

## From a recursion to a relation

The emitter is a recursion over attributes, which are nested through lists of fields, and at each
step it can fail. `Builds` is the same recursion with the failures gone: it relates a list of places
to the checks made of them, and its cases carry what was looked up. The one proof that goes through
the recursion itself is `builds_of_value`, by induction on the size of the attribute. After it the
emitter is not opened again.

Values are handed over in two ways. If the validator of the type is built, it is called; if not, the
call is left out but still listed, since whether it is built is only known once all types have been
looked at (`isBuilt`). So the walk is run twice with two answers, and what places it goes through
does not depend on the answer.

`Looks` is the set of places of a whole validator: those at the top, which are the fields or the
elements of its argument as the view shows them, and everything inside them.
-/

namespace Shapewright
namespace Validation

open Relation

/-- A value that is checked, and whether it is a primitive behind a pointer. The position has the
    expression in it, and the path that errors report. -/
structure Place where
  attr : Attribute
  pointer : Bool
  position : Position

/-- The value at a place, without the pointer. -/
def Place.value (y : Place) : Expr := if y.pointer then y.position.var.deref else y.position.var

section

variable (v : Validation)

/-- The place holds a field of the value at a position. Whether it is behind a pointer depends on
    whether the field is required. -/
def HoldsField (required : List String) (p : Position) (f : ShownField) (y : Place) : Prop :=
  y.attr = f.attr ∧ v.fieldPosition required p f.name f.attr f.tag = .ok (y.pointer, y.position)

/-- The elements of a collection. -/
def elementPlace (p : Position) (elem : Attribute) : Place := ⟨elem, false, p.element⟩

/-- The type is a collection of `elem`. The keys of a map are not looked at by validators. -/
def CollectionOf (type : DataType Attribute) (elem : Attribute) : Prop :=
  type = .array elem ∨ ∃ key, type = .map key elem

/-- The second place is one level inside the first, which is an object or a collection in place.
    Keys of maps are no places, as they are not checked. -/
inductive Inner (x : Place) : Place → Prop
  | field {fields : List (String × Attribute)} {f : ShownField} {y : Place}
      (ht : x.attr.type = .object fields) (hf : f ∈ shownFields fields none)
      (hy : v.HoldsField x.attr.rules.required x.position f y) : Inner x y
  | element {elem : Attribute} (ht : CollectionOf x.attr.type elem) :
      Inner x (elementPlace x.position elem)

/-- One of the places is `z`, or `z` is inside one of them. References to named structures are not
    followed, since their values are handed over. -/
def Within (ys : List Place) (z : Place) : Prop := ∃ y ∈ ys, ReflTransGen v.Inner y z

/-- The value at the place is left to the validator of a subject. It is of a named type, and
    structured. -/
inductive HandsOver (y : Place) (s : Subject) : Prop
  | intro {id : TypeId} {k : Kind} (hid : y.attr.userId? = some id)
      (hkind : v.registry.kind y.attr = .ok k) (hk : k = .object ∨ k = .array ∨ k = .map)
      (hs : v.subject id y.position.view = .ok s)

/-- The call of a validator, with the error that it may return. -/
def callCheck (name : String) (var : Expr) : Stmt :=
  .cond (some (.assign (.ident "err2") (.call name [var]) true)) (Expr.ident "err2").notNil
    [v.merge (.ident "err2")] []

variable (isBuilt : Subject → Bool)

/-- The checks that the walk makes of some places. One constructor for each way a value is
    checked. -/
inductive Builds : List Place → Checks → Prop
  | nil : Builds [] {}
  | cons {y : Place} {ys : List Place} {checks more : Checks} (h : Builds [y] checks)
      (hs : Builds ys more) : Builds (y :: ys) (checks.append more)
  | primitive {y : Place} {p : Primitive} {code : Block}
      (hk : v.registry.kind y.attr = .ok (.primitive p))
      (hc : v.primitiveChecks y.attr p y.value y.position.path = .ok code) :
      Builds [y] ⟨guarded y.pointer y.position.var code, []⟩
  | union {y : Place} (hk : v.registry.kind y.attr = .ok .union) : Builds [y] {}
  | left {y : Place} {s : Subject} (hs : v.HandsOver y s) (hb : isBuilt s = false) :
      Builds [y] ⟨[], [s]⟩
  | called {y : Place} {s : Subject} {name : String} (hs : v.HandsOver y s)
      (hb : isBuilt s = true) (hn : v.functionName s.type s.view = .ok name) {isObject : Bool}
      (ho : isObject = true ↔ v.registry.kind y.attr = .ok .object) :
      Builds [y] ⟨guarded isObject y.position.var [v.callCheck name y.position.var], [s]⟩
  | object {y : Place} {fields : List (String × Attribute)} {missing : Block} {zs : List Place}
      {checks : Checks} (ht : y.attr.type = .object fields)
      (hm : v.missingChecks y.attr.rules.required y.position fields = .ok missing)
      (hz : List.Forall₂ (v.HoldsField y.attr.rules.required y.position)
        (shownFields fields none) zs) (h : Builds zs checks) :
      Builds [y] (checks.mapCode fun code => guarded true y.position.var (missing ++ code))
  | collection {y : Place} {elem : Attribute} {checks : Checks}
      (ht : CollectionOf y.attr.type elem) (h : Builds [elementPlace y.position elem] checks) :
      Builds [y] ((y.position.loop checks).mapCode
        (v.lengthChecks y.attr.rules (.len y.position.var) y.position.var y.position.path ++ ·))

end

variable {v : Validation} {isBuilt : Subject → Bool}

/-! ## The walk builds -/

theorem fields_eq_shownChecks (required : List String) (p : Position)
    (fields : List (String × Attribute)) : v.fields isBuilt required p fields =
      v.shownChecks isBuilt required p (shownFields fields none) := by
  induction fields with
  | nil =>
    rw [Validation.fields]
    rfl
  | cons f rest ih =>
    rw [Validation.fields, ih]
    rfl

theorem shownFields_attr {fields : List (String × Attribute)} {f : ShownField}
    (h : f ∈ shownFields fields none) : (f.name, f.attr) ∈ fields := by
  obtain ⟨x, hx, rfl⟩ := List.mem_map.mp h
  exact hx

theorem delegated_builds {y : Place} {id : TypeId} {k : Kind} {checks : Checks}
    (hid : y.attr.userId? = some id) (hkind : v.registry.kind y.attr = .ok k)
    (hk : k = .object ∨ k = .array ∨ k = .map) {isObject : Bool}
    (ho : isObject = true ↔ k = .object)
    (h : v.delegated isBuilt id isObject y.position = .ok checks) :
    v.Builds isBuilt [y] checks := by
  unfold delegated at h
  obtain ⟨s, hs, h⟩ := except_bind_eq_ok.mp h
  have hands : v.HandsOver y s := ⟨hid, hkind, hk, hs⟩
  split at h
  · obtain ⟨name, hn, h⟩ := except_bind_eq_ok.mp h
    cases h
    refine .called hands ‹_› hn ?_
    rw [ho, hkind, Except.ok.injEq]
  · cases h
    exact .left hands (Bool.eq_false_of_not_eq_true ‹_›)

theorem userChecks_builds {id : TypeId} {description : Option String} {rules : Rules}
    {overrides : Overrides} {default : Option Literal} {pointer : Bool} {p : Position}
    {checks : Checks}
    (h : v.userChecks isBuilt { type := .user id, rules, overrides } id pointer p = .ok checks) :
    v.Builds isBuilt [⟨⟨.user id, description, rules, overrides, default⟩, pointer, p⟩] checks := by
  unfold userChecks at h
  obtain ⟨k, hk, h⟩ := except_bind_eq_ok.mp h
  -- The walk drops description and default of a reference. Neither has a part in what is built.
  have hsame : Attribute.BothRefer id { type := .user id, rules, overrides }
    ⟨.user id, description, rules, overrides, default⟩ := ⟨rfl, rfl⟩
  rw [hsame.kind_eq] at hk
  cases k with
  | primitive kind =>
    obtain ⟨code, hc, h⟩ := except_bind_eq_ok.mp h
    cases h
    rw [primitiveChecks_user id description rules overrides default] at hc
    exact .primitive hk hc
  | object => exact delegated_builds rfl hk (.inl rfl) (by simp) h
  | array => exact delegated_builds rfl hk (.inr (.inl rfl)) (by simp) h
  | map => exact delegated_builds rfl hk (.inr (.inr rfl)) (by simp) h
  | union =>
    cases h
    exact .union hk

/-- The fields of an object build what each of them builds. By induction on the fields. The premise
    is the recursion on values, for each of them. -/
theorem shownChecks_builds {required : List String} {p : Position} :
    ∀ {fs : List ShownField} {checks : Checks},
      (∀ f ∈ fs, ∀ {pointer q checks}, v.value isBuilt f.attr pointer q = .ok checks →
        v.Builds isBuilt [⟨f.attr, pointer, q⟩] checks) →
      v.shownChecks isBuilt required p fs = .ok checks →
      ∃ zs, List.Forall₂ (v.HoldsField required p) fs zs ∧ v.Builds isBuilt zs checks := by
  intro fs
  induction fs with
  | nil =>
    intro checks _ h
    cases h
    exact ⟨[], .nil, .nil⟩
  | cons f rest ih =>
    intro checks hvalue h
    rw [List.forall_mem_cons] at hvalue
    unfold shownChecks at h
    obtain ⟨⟨pointer, q⟩, hq, h⟩ := except_bind_eq_ok.mp h
    obtain ⟨first, hfirst, h⟩ := except_bind_eq_ok.mp h
    obtain ⟨others, hothers, h⟩ := except_bind_eq_ok.mp h
    cases h
    obtain ⟨zs, hz, hb⟩ := ih hvalue.2 hothers
    exact ⟨⟨f.attr, pointer, q⟩ :: zs, .cons ⟨rfl, hq⟩ hz, .cons (hvalue.1 hfirst) hb⟩

/-- What is built for a value follows its structure. A reference has no structure of its own: it is
    handed over, or is a primitive. -/
theorem builds_of_value : ∀ {a : Attribute} {pointer : Bool} {p : Position} {checks : Checks},
    v.value isBuilt a pointer p = .ok checks → v.Builds isBuilt [⟨a, pointer, p⟩] checks := by
  intro a
  -- Attributes are nested through lists of fields, so the induction is on their size.
  induction hn : a.size using Nat.strongRecOn generalizing a with
  | ind n ih =>
    intro pointer p checks h
    have below : ∀ {x : Attribute}, x ∈ a.children → ∀ {pointer p checks},
        v.value isBuilt x pointer p = .ok checks → v.Builds isBuilt [⟨x, pointer, p⟩] checks :=
      fun hx => ih _ (hn ▸ Attribute.size_lt_of_mem_children hx) rfl
    obtain ⟨type, description, rules, overrides, default⟩ := a
    -- The cases are those of the type. Only objects and collections in place go further down.
    cases type with
    | primitive kind =>
      rw [value] at h
      obtain ⟨code, hc, h⟩ := except_bind_eq_ok.mp h
      cases h
      rw [primitiveChecks_primitive description rules overrides default] at hc
      exact .primitive (Registry.kind_eq_of_resolve (Registry.resolve_of_userId?_eq_none rfl)) hc
    | user id =>
      rw [value] at h
      exact userChecks_builds h
    | object fields =>
      rw [value, fields_eq_shownChecks] at h
      obtain ⟨missing, hm, h⟩ := except_bind_eq_ok.mp h
      obtain ⟨inner, hi, h⟩ := except_bind_eq_ok.mp h
      cases h
      obtain ⟨zs, hz, hb⟩ := shownChecks_builds
        (fun f hf => below (List.mem_map_of_mem (shownFields_attr hf))) hi
      exact .object rfl hm hz hb
    | array elem =>
      rw [value] at h
      obtain ⟨inner, hi, h⟩ := except_bind_eq_ok.mp h
      cases h
      exact .collection (.inl rfl) (below (by simp [Attribute.children]) hi)
    | map key elem =>
      rw [value] at h
      obtain ⟨inner, hi, h⟩ := except_bind_eq_ok.mp h
      cases h
      exact .collection (.inr ⟨key, rfl⟩) (below (by simp [Attribute.children]) hi)
    | union name alternatives =>
      rw [value] at h
      cases h
      exact .union (Registry.kind_eq_of_resolve (Registry.resolve_of_userId?_eq_none rfl))

/-! ## The body of a validator -/

section

variable (v : Validation)

/-- The type of the subject is known and stands for `r`, seen through `view`. A type without views
    is seen as a whole. -/
structure Describes (s : Subject) (r : Attribute) (view : Option View) : Prop where
  type : ∃ t, v.registry.get s.type = .ok t ∧ v.registry.resolve t.definition = .ok r
  view : v.shownView s = .ok view

/-- The place is a field or the elements of the validated value. All other places of a subject are
    inside one of these, in structures that have no name. -/
inductive Top (s : Subject) : Place → Prop
  | field {r : Attribute} {view : Option View} {fields : List (String × Attribute)}
      {f : ShownField} {y : Place} (hd : v.Describes s r view) (ht : r.type = .object fields)
      (hf : f ∈ shownFields fields view) (hy : v.HoldsField r.rules.required (v.argument s) f y) :
      Top s y
  | element {r elem : Attribute} {view : Option View} (hd : v.Describes s r view)
      (ht : CollectionOf r.type elem) : Top s (elementPlace (v.argument s) elem)

/-- The validator of the subject looks at the place. A place it looks at may have nothing to
    check. -/
def Looks (s : Subject) (z : Place) : Prop := ∃ y, v.Top s y ∧ ReflTransGen v.Inner y z

/-- The checks in the validator of a subject. An alias of a primitive or a union has none. The cases
    are those of the code, without the walk that finds them. -/
inductive BuildsBody (isBuilt : Subject → Bool) (s : Subject) : Checks → Prop
  | object {r : Attribute} {view : Option View} {fields : List (String × Attribute)}
      {missing : Block} {zs : List Place} {checks : Checks} (hd : v.Describes s r view)
      (ht : r.type = .object fields)
      (hm : v.missingChecks r.rules.required (v.argument s)
        ((shownFields fields view).map fun f => (f.name, f.attr)) = .ok missing)
      (hz : List.Forall₂ (v.HoldsField r.rules.required (v.argument s))
        (shownFields fields view) zs) (h : v.Builds isBuilt zs checks) :
      BuildsBody isBuilt s (checks.mapCode (missing ++ ·))
  | collection {r elem : Attribute} {view : Option View} {checks : Checks}
      (hd : v.Describes s r view) (ht : CollectionOf r.type elem)
      (h : v.Builds isBuilt [elementPlace (v.argument s) elem] checks) :
      BuildsBody isBuilt s ((v.argument s).loop checks)
  | plain {r : Attribute} {view : Option View} (hd : v.Describes s r view)
      (ho : ∀ fields, r.type ≠ .object fields) (hc : ∀ elem, ¬ CollectionOf r.type elem) :
      BuildsBody isBuilt s {}

end

/-- The body of a validator starts as the walk does, but with the fields that its view shows. From
    here on the proofs go by what was built, and do not look at the compiler again. -/
theorem buildsBody_of_body {s : Subject} {checks : Checks}
    (h : v.body isBuilt s = .ok checks) : v.BuildsBody isBuilt s checks := by
  unfold body at h
  obtain ⟨t, ht, h⟩ := except_bind_eq_ok.mp h
  obtain ⟨view, hview, h⟩ := except_bind_eq_ok.mp h
  obtain ⟨r, hr, h⟩ := except_bind_eq_ok.mp h
  have hd : v.Describes s r view := ⟨⟨t, ht, hr⟩, hview⟩
  -- The body goes by the resolved type: an object, an array, a map, or something with no code of
  -- its own.
  split at h
  · rename_i fields hfields
    obtain ⟨missing, hm, h⟩ := except_bind_eq_ok.mp h
    obtain ⟨inner, hi, h⟩ := except_bind_eq_ok.mp h
    cases h
    obtain ⟨zs, hz, hb⟩ := shownChecks_builds (fun _ _ => builds_of_value) hi
    exact .object hd hfields hm hz hb
  · rename_i elem helem
    obtain ⟨inner, hi, h⟩ := except_bind_eq_ok.mp h
    cases h
    exact .collection hd (.inl helem) (builds_of_value hi)
  · rename_i key elem helem
    obtain ⟨inner, hi, h⟩ := except_bind_eq_ok.mp h
    cases h
    exact .collection hd (.inr ⟨key, helem⟩) (builds_of_value hi)
  · cases h
    refine .plain hd (by simp_all) fun elem h => ?_
    rcases h with h | ⟨key, h⟩ <;> simp_all

/-! ## Places inside places -/

section

variable {x y z w : Place} {ys zs : List Place} {s s' : Subject} {checks : Checks}

theorem CollectionOf.unique {type : DataType Attribute} {a b : Attribute}
    (ha : CollectionOf type a) (hb : CollectionOf type b) : a = b := by
  rcases ha with rfl | ⟨_, rfl⟩ <;> rcases hb with h | ⟨_, h⟩ <;> cases h <;> rfl

theorem CollectionOf.ne_object {type : DataType Attribute} {a : Attribute}
    {fields : List (String × Attribute)} (h : CollectionOf type a) : type ≠ .object fields := by
  rcases h with rfl | ⟨_, rfl⟩ <;> simp

/-- An object or a collection in place has the kind of its own structure. -/
theorem stands_object {a : Attribute} {fields : List (String × Attribute)}
    (ht : a.type = .object fields) :
    a.userId? = none ∧ v.registry.kind a = .ok .object := by
  have hu : a.userId? = none := by rw [Attribute.userId?, ht]
  rw [Registry.kind_eq_of_resolve (Registry.resolve_of_userId?_eq_none hu), ht]
  exact ⟨hu, rfl⟩

theorem stands_collection {a elem : Attribute} (ht : CollectionOf a.type elem) :
    a.userId? = none ∧ (v.registry.kind a = .ok .array ∨ v.registry.kind a = .ok .map) := by
  have hu : a.userId? = none := by
    rcases ht with ht | ⟨key, ht⟩ <;> rw [Attribute.userId?, ht]
  rw [Registry.kind_eq_of_resolve (Registry.resolve_of_userId?_eq_none hu)]
  rcases ht with ht | ⟨key, ht⟩
  · exact ⟨hu, .inl (by rw [ht])⟩
  · exact ⟨hu, .inr (by rw [ht])⟩

theorem CollectionOf.kind_ne_primitive {a elem : Attribute} {p : Primitive}
    (ht : CollectionOf a.type elem) : v.registry.kind a ≠ .ok (.primitive p) := by
  rcases (stands_collection (v := v) ht).2 with hk | hk <;> simp [hk]

/-- What has places inside stands in place and is an object or a collection. -/
theorem Inner.kind (h : v.Inner y z) : y.attr.userId? = none ∧
    ∃ k, v.registry.kind y.attr = .ok k ∧ (k = .object ∨ k = .array ∨ k = .map) := by
  cases h with
  | field ht => exact ⟨(stands_object (v := v) ht).1, _, (stands_object ht).2, .inl rfl⟩
  | element ht =>
    obtain ⟨hu, hk | hk⟩ := stands_collection (v := v) ht
    · exact ⟨hu, _, hk, .inr (.inl rfl)⟩
    · exact ⟨hu, _, hk, .inr (.inr rfl)⟩

theorem HoldsField.unique {required : List String} {p : Position} {f : ShownField}
    (hy : v.HoldsField required p f y) (hz : v.HoldsField required p f z) : y = z := by
  obtain ⟨ha, hp⟩ := hy
  obtain ⟨ha', hp'⟩ := hz
  rw [hp, Except.ok.injEq, Prod.mk.injEq] at hp'
  cases y
  cases z
  simp_all

/-- The places of some fields are those that hold one of them. -/
theorem holdsField_iff {required : List String} {p : Position} {fs : List ShownField}
    (hz : List.Forall₂ (v.HoldsField required p) fs zs) :
    (∃ f ∈ fs, v.HoldsField required p f w) ↔ w ∈ zs := by
  constructor
  · intro h
    obtain ⟨f, hf, hw⟩ := h
    obtain ⟨z, hz, hfz⟩ := forall₂_mem_left hz hf
    exact hw.unique hfz ▸ hz
  · exact forall₂_mem_right hz

/-- What is inside an object are the places of its fields. A place of a field is fixed by the field,
    so the list of places is fixed as well. -/
theorem inner_object {fields : List (String × Attribute)} (ht : y.attr.type = .object fields)
    (hz : List.Forall₂ (v.HoldsField y.attr.rules.required y.position)
      (shownFields fields none) zs) : v.Inner y w ↔ w ∈ zs := by
  rw [← holdsField_iff hz]
  constructor
  · intro h
    cases h with
    | field ht' hf hy =>
      rw [ht] at ht'
      cases ht'
      exact ⟨_, hf, hy⟩
    | element ht' => exact absurd ht ht'.ne_object
  · intro h
    obtain ⟨f, hf, hw⟩ := h
    exact .field ht hf hw

theorem inner_collection {elem : Attribute} (ht : CollectionOf y.attr.type elem) :
    v.Inner y w ↔ w ∈ [elementPlace y.position elem] := by
  rw [List.mem_singleton]
  constructor
  · intro h
    cases h with
    | field ht' => exact absurd ht' ht.ne_object
    | element ht' => rw [ht.unique ht']
  · rintro rfl
    exact .element ht

theorem not_within_nil : ¬ v.Within [] z := by
  intro h
  obtain ⟨y, hy, -⟩ := h
  simp at hy

theorem within_cons : v.Within (y :: ys) z ↔ v.Within [y] z ∨ v.Within ys z := by
  simp only [Within, List.mem_cons, List.not_mem_nil, or_false, or_and_right, exists_or,
    exists_eq_left]

theorem within_singleton (hin : ∀ w, v.Inner y w ↔ w ∈ zs) :
    v.Within [y] z ↔ z = y ∨ v.Within zs z := by
  simp only [Within, List.mem_singleton, exists_eq_left]
  rw [ReflTransGen.cases_head_iff, eq_comm]
  simp only [hin]

/-- There is nothing inside a value that is handed over, nor inside a primitive or a union. -/
theorem within_leaf (h : ∀ w, ¬ v.Inner y w) : v.Within [y] z ↔ z = y := by
  have hnone : ∀ w, v.Inner y w ↔ w ∈ ([] : List Place) := by simpa using h
  rw [within_singleton hnone]
  simp only [not_within_nil, or_false]

theorem exists_within_nil {P : Place → Prop} : ¬ ∃ z, v.Within [] z ∧ P z := fun ⟨_, hz, _⟩ =>
  not_within_nil hz

theorem exists_within_cons {P : Place → Prop} : (∃ z, v.Within (y :: ys) z ∧ P z) ↔
    (∃ z, v.Within [y] z ∧ P z) ∨ ∃ z, v.Within ys z ∧ P z := by
  rw [← exists_or]
  exact exists_congr fun z => by rw [within_cons, or_and_right]

theorem exists_within_singleton {P : Place → Prop} (hin : ∀ w, v.Inner y w ↔ w ∈ zs) :
    (∃ z, v.Within [y] z ∧ P z) ↔ P y ∨ ∃ z, v.Within zs z ∧ P z := by
  simp only [within_singleton hin, or_and_right, exists_or, exists_eq_left]

theorem exists_within_leaf {P : Place → Prop} (h : ∀ w, ¬ v.Inner y w) :
    (∃ z, v.Within [y] z ∧ P z) ↔ P y := by
  simp only [within_leaf h, exists_eq_left]

theorem not_inner_of_kind {k : Kind} (hk : v.registry.kind y.attr = .ok k)
    (hno : k ≠ .object ∧ k ≠ .array ∧ k ≠ .map) : ¬ v.Inner y w := by
  intro h
  obtain ⟨-, k', hk', hyes⟩ := h.kind
  rw [hk] at hk'
  cases hk'
  rcases hyes with rfl | rfl | rfl <;> simp at hno

namespace HandsOver

theorem not_inner (h : v.HandsOver y s) : ¬ v.Inner y w := by
  obtain ⟨hid, -, -, -⟩ := h
  intro hi
  rw [hi.kind.1] at hid
  cases hid

theorem unique (h : v.HandsOver y s) (h' : v.HandsOver y s') : s = s' := by
  obtain ⟨hid, -, -, hs⟩ := h
  obtain ⟨hid', -, -, hs'⟩ := h'
  rw [hid] at hid'
  cases hid'
  rw [hs] at hs'
  cases hs'
  rfl

end HandsOver

end

end Validation
end Shapewright
