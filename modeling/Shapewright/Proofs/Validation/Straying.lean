import Shapewright.Proofs.Faults
import Shapewright.Proofs.Validation.Safety

/-!
# Views that a type does not have

Where every reference leads to a structure, one thing can go wrong with a validator: a value is
handed over under a view that its type does not have. Such a place strays. The validators of a type
are built exactly if no place strays that one of its subjects looks at.

## What cannot go wrong

A body is built by a walk that may fail at every step: references are resolved, names are looked up,
pointers are decided on, and a required field is looked for. In a sound registry each of these
succeeds, which the lemmas under the second heading say one by one (`exists_showsMissing` and those
that follow). What is left is `Validation.subject`, which looks for the view.

## From the code and back

The two directions are proved on two sides. Where there is code, no place strays, by induction over
what was built (`Builds.not_strays`). Where the walk fails with a fault, some place strays with that
very fault, by induction over the walk itself. Places in bodies that are not reached do not matter,
so in the end both are put together along the calls (`GoesAstray`).
-/

namespace Shapewright

namespace Validation

open Relation

/-- The value at the place is of a named structured type, and is seen under a view that the type
    does not have. -/
inductive Strays (v : Validation) (y : Place) : Fault → Prop
  | intro {id : TypeId} {k : Kind} {t : UserType} {view : String}
      (hid : y.attr.userId? = some id) (hkind : v.registry.kind y.attr = .ok k)
      (hk : k = .object ∨ k = .array ∨ k = .map) (ht : v.registry.find? id = some t)
      (hview : y.position.view = some view) (hno : t.findView? view = none)
      (hd : view ≠ defaultView) : v.Strays y (.unknownView t.name view)

/-- A place strays that a subject looks at which is reached from `root`. The fault is the one that
    building the validators ends with. -/
def GoesAstray (v : Validation) (root : Subject) (f : Fault) : Prop :=
  ∃ s z, ReflTransGen v.Delegates root s ∧ v.Looks s z ∧ v.Strays z f

variable {v : Validation} {isBuilt : Subject → Bool} {y z : Place} {s root : Subject} {f : Fault}
  {id : TypeId} {t : UserType} {view : Option String}

/-! ## Straying places -/

/-- No subject is made of a type and a view exactly if the type does not declare the view. The
    default view counts as declared by every type. -/
theorem subject_eq_error (ht : v.registry.find? id = some t) : v.subject id view = .error f ↔
    ∃ name, view = some name ∧ t.findView? name = none ∧ name ≠ defaultView ∧
      f = .unknownView t.name name := by
  cases view with
  | none => simp [subject]
  | some name =>
    unfold subject
    simp only [except_bind_eq_error, Registry.view?_eq_error ht, Option.some.injEq, exists_eq_left',
      pure, Except.pure, reduceCtorEq, and_false, exists_false, or_false]

/-- A place strays exactly if no subject can be made for what its value is handed over to. The
    premise on kinds leaves out what is checked in place, for which no subject is made. -/
theorem strays_iff {k : Kind} (hid : y.attr.userId? = some id)
    (hkind : v.registry.kind y.attr = .ok k) (hk : k = .object ∨ k = .array ∨ k = .map) :
    v.Strays y f ↔ v.subject id y.position.view = .error f := by
  obtain ⟨t, ht⟩ := Registry.find?_of_kind hid hkind
  rw [subject_eq_error ht]
  constructor
  · intro h
    obtain ⟨hid', -, -, ht', hview, hno, hd⟩ := h
    rw [hid] at hid'
    cases hid'
    rw [ht] at ht'
    cases ht'
    exact ⟨_, hview, hno, hd, rfl⟩
  · intro h
    obtain ⟨name, hview, hno, hd, rfl⟩ := h
    exact .intro hid hkind hk ht hview hno hd

theorem HandsOver.not_strays (h : v.HandsOver y s) : ¬ v.Strays y f := by
  obtain ⟨hid, hkind, hk, hs⟩ := h
  rw [strays_iff hid hkind hk, hs]
  simp

theorem Strays.userId? (h : v.Strays y f) : y.attr.userId?.isSome := by
  obtain ⟨hid, -⟩ := h
  simp [hid]

theorem Strays.isSome_view (h : v.Strays y f) : y.position.view.isSome := by
  obtain ⟨-, -, -, -, hview, -⟩ := h
  simp [hview]

/-- A primitive value or a union is never handed over, so it does not stray. -/
theorem not_strays_of_kind {k : Kind} (hk : v.registry.kind y.attr = .ok k)
    (hno : k ≠ .object ∧ k ≠ .array ∧ k ≠ .map) : ¬ v.Strays y f := by
  intro h
  obtain ⟨-, hk', hyes, -⟩ := h
  rw [hk] at hk'
  cases hk'
  rcases hyes with rfl | rfl | rfl <;> simp at hno

/-- No place strays for which there is code. By recursion along what was built: there is a call for
    what is handed over, so its subject was made. -/
theorem Builds.not_strays {ys : List Place} {checks : Checks} (h : v.Builds isBuilt ys checks) :
    ∀ z f, v.Within ys z → ¬ v.Strays z f := by
  induction h with
  | nil => exact fun z f hz => absurd hz not_within_nil
  | cons _ _ ih ihs =>
    intro z f hz
    rcases within_cons.mp hz with hz | hz
    · exact ih z f hz
    · exact ihs z f hz
  | primitive hk hc =>
    intro z f hz
    obtain rfl := (within_leaf fun _ => not_inner_of_kind hk (by simp)).mp hz
    exact not_strays_of_kind hk (by simp)
  | union hk =>
    intro z f hz
    obtain rfl := (within_leaf fun _ => not_inner_of_kind hk (by simp)).mp hz
    exact not_strays_of_kind hk (by simp)
  -- A value that was handed over has a subject, so its view was found.
  | left hs | called hs =>
    intro z f hz
    obtain rfl := (within_leaf fun _ => hs.not_inner).mp hz
    exact hs.not_strays
  | object ht hm hzs _ ih =>
    intro z f hz
    rcases (within_singleton fun _ => inner_object ht hzs).mp hz with rfl | hz
    · intro h
      simpa [(stands_object (v := v) ht).1] using h.userId?
    · exact ih z f hz
  | collection ht _ ih =>
    intro z f hz
    rcases (within_singleton fun _ => inner_collection ht).mp hz with rfl | hz
    · intro h
      simpa [(stands_collection (v := v) ht).1] using h.userId?
    · exact ih z f hz

/-- Where a body was built, nothing strays that the subject looks at. So the request that fails is
    one for which some body could not be built. -/
theorem BuildsBody.not_strays {checks : Checks} (h : v.BuildsBody isBuilt s checks)
    (hz : v.Looks s z) : ¬ v.Strays z f := by
  cases h with
  | object hd ht hm hzs h =>
    obtain ⟨_, hw, rfl⟩ := (exists_looks fun _ => top_object hd ht hzs).mp ⟨z, hz, rfl⟩
    exact h.not_strays _ f hw
  | collection hd ht h =>
    obtain ⟨_, hw, rfl⟩ := (exists_looks fun _ => top_collection hd ht).mp ⟨z, hz, rfl⟩
    exact h.not_strays _ f hw
  | plain hd ho hc =>
    obtain ⟨y, hy, -⟩ := hz
    exact absurd hy (not_top_plain hd ho hc)

/-! ## Nothing else goes wrong -/

/-- Whether the absence of a value shows can be decided if its kind is known. Loading rules out
    references without a kind, so this is never what fails. -/
theorem exists_showsMissing {a : Attribute} {k : Kind} (hk : v.registry.kind a = .ok k) :
    ∃ shows, v.showsMissing a = .ok shows := by
  obtain ⟨o, ho⟩ := Registry.exists_primitive? hk
  obtain ⟨pointer, hp⟩ := Context.exists_holdsPointer hk v.context true
  unfold showsMissing
  rw [ho]
  simp only [except_bind_eq_ok, Except.ok.injEq, exists_eq_left']
  cases o with
  | none => exact ⟨true, rfl⟩
  | some p =>
    dsimp only
    split
    · exact ⟨true, rfl⟩
    · exact ⟨pointer, hp⟩

theorem exists_missingCheck {a : Attribute} {k : Kind} (hk : v.registry.kind a = .ok k)
    (required : List String) (p : Position) (name : String) :
    ∃ code, v.missingCheck required p name a = .ok code := by
  obtain ⟨missing, hm⟩ := exists_showsMissing hk
  unfold missingCheck
  split
  · exact ⟨[], rfl⟩
  · rw [hm]
    simp only [except_bind_eq_ok, Except.ok.injEq, exists_eq_left']
    split
    · exact ⟨_, rfl⟩
    · exact ⟨_, rfl⟩

/-- The checks for missing fields are made, whichever fields are required. By induction on the
    fields. -/
theorem exists_missingChecks (required : List String) (p : Position) :
    ∀ {fields : List (String × Attribute)}, (∀ f ∈ fields, ∃ k, v.registry.kind f.2 = .ok k) →
      ∃ code, v.missingChecks required p fields = .ok code := by
  intro fields
  induction fields with
  | nil => exact fun _ => ⟨[], rfl⟩
  | cons f rest ih =>
    intro h
    rw [List.forall_mem_cons] at h
    obtain ⟨⟨k, hk⟩, hrest⟩ := h
    obtain ⟨check, hc⟩ := exists_missingCheck hk required p f.1
    obtain ⟨others, ho⟩ := ih hrest
    unfold missingChecks
    rw [hc, ho]
    exact ⟨_, rfl⟩

/-- The checks of a primitive value are made: the type it is converted to has a name. -/
theorem exists_primitiveChecks (hscope : v.scope = .ofRegistry v.registry) {a : Attribute}
    (ha : v.registry.Resolves a) (p : Primitive) (value : Expr) (path : String) :
    ∃ code, v.primitiveChecks a p value path = .ok code := by
  obtain ⟨k, hk⟩ := ha.kind
  obtain ⟨r, hr⟩ := Registry.exists_resolve hk
  obtain ⟨type, ht⟩ := Scope.exists_typeRef v.context ha
  exact ⟨_, primitiveChecks_eq_ok.mpr ⟨r, type, hr, hscope ▸ ht, rfl⟩⟩

/-- A validator of a known type has a name. -/
theorem exists_functionName (hscope : v.scope = .ofRegistry v.registry)
    (ht : v.registry.find? id = some t) (view : Option String) :
    ∃ name, v.functionName id view = .ok name := by
  obtain ⟨hmem, rfl⟩ := Registry.mem_types_of_find? ht
  obtain ⟨name, hname⟩ := Scope.exists_name hmem
  unfold functionName
  rw [hscope, hname]
  exact ⟨_, rfl⟩

/-- To hand a value over goes wrong only by its view. The name of the validator and its type are
    there for every known type. -/
theorem delegated_error (hscope : v.scope = .ofRegistry v.registry) {k : Kind} {mayBeNil : Bool}
    (hid : y.attr.userId? = some id)
    (hkind : v.registry.kind y.attr = .ok k) (hk : k = .object ∨ k = .array ∨ k = .map)
    (h : v.delegated isBuilt id mayBeNil y.position = .error f) : v.Strays y f := by
  rw [strays_iff hid hkind hk]
  obtain ⟨t, ht⟩ := Registry.find?_of_kind hid hkind
  unfold delegated at h
  rcases except_bind_eq_error.mp h with h | ⟨s, hs, h⟩
  · exact h
  · obtain ⟨name, hname⟩ := exists_functionName hscope ht s.view
    rw [← type_of_subject hs] at hname
    rw [hname] at h
    split at h
    · cases h
    · cases h

/-- To check what a reference stands for goes wrong only where the value is handed over. What is
    checked in place are primitives and unions, and that does not fail. -/
theorem userChecks_error (hscope : v.scope = .ofRegistry v.registry)
    {description : Option String} {rules : Rules} {overrides : Overrides} {default : Option Literal}
    {pointer : Bool} {p : Position}
    (ha : v.registry.Resolves ⟨.user id, description, rules, overrides, default⟩)
    (h : v.userChecks isBuilt { type := .user id, rules, overrides } id pointer p = .error f) :
    v.Strays ⟨⟨.user id, description, rules, overrides, default⟩, pointer, p⟩ f := by
  have hsame : Attribute.BothRefer id { type := .user id, rules, overrides }
    ⟨.user id, description, rules, overrides, default⟩ := ⟨rfl, rfl⟩
  obtain ⟨k, hk⟩ := ha.kind
  unfold userChecks at h
  rw [hsame.kind_eq, hk] at h
  simp only [except_bind_eq_error, reduceCtorEq, Except.ok.injEq, exists_eq_left', false_or] at h
  -- A primitive is checked on the spot, with types that resolve; a structure is left to its own
  -- validator.
  cases k with
  | primitive kind =>
    obtain ⟨code, hc⟩ := exists_primitiveChecks hscope ha kind
      (if pointer then p.var.deref else p.var) p.path
    rw [← primitiveChecks_user id description rules overrides default] at hc
    dsimp only at h
    rw [hc] at h
    cases h
  | object => exact delegated_error hscope rfl hk (.inl rfl) h
  | array => exact delegated_error hscope rfl hk (.inr (.inl rfl)) h
  | map => exact delegated_error hscope rfl hk (.inr (.inr rfl)) h
  | union => cases h

theorem within_self (y : Place) : v.Within [y] y := ⟨y, List.mem_singleton_self y, .refl⟩

theorem Within.inner {x : Place} (hxy : v.Inner x y) (hz : v.Within [y] z) : v.Within [x] z := by
  obtain ⟨w, hw, hz⟩ := hz
  obtain rfl := List.mem_singleton.mp hw
  exact ⟨x, List.mem_singleton_self x, .head hxy hz⟩

/-- From a known type only known types are reached. -/
theorem known_of_reached (ht : v.registry.find? root.type = some t)
    (h : ReflTransGen v.Delegates root s) : ∃ t, v.registry.find? s.type = some t := by
  rcases ReflTransGen.cases_tail h with rfl | ⟨_, -, hstep⟩
  · exact ⟨t, ht⟩
  · obtain ⟨z, -, hid, hkind, -, hs⟩ := hstep
    rw [type_of_subject hs]
    exact Registry.find?_of_kind hid hkind

theorem mem_shownFields {fields : List (String × Attribute)} {view : Option View} {x : ShownField}
    (h : x ∈ shownFields fields view) : (x.name, x.attr) ∈ fields := by
  cases view with
  | none => exact shownFields_attr h
  | some view =>
    obtain ⟨va, -, h⟩ := List.mem_filterMap.mp h
    obtain ⟨a, ha, rfl⟩ := Option.map_eq_some_iff.mp h
    exact Ordered.mem_of_get? ha

/-- The fields of a subject are selected by a view that its type declares. A subject under no view
    shows all fields, so it needs none. -/
theorem exists_shownView (hd : v.Declared s) (ht : v.registry.find? s.type = some t) :
    ∃ view, v.shownView s = .ok view ∧ (s.view.isSome → ∃ w ∈ t.views, view = some w) := by
  unfold shownView
  cases hview : s.view with
  | none => exact ⟨none, rfl, by simp⟩
  | some name =>
    obtain ⟨t', w, ht', hw, rfl⟩ := hd name hview
    rw [ht] at ht'
    cases ht'
    cases hfind : t.findView? w.name with
    | none => simpa using List.find?_eq_none.mp hfind w hw
    | some w' =>
      exact ⟨some w', Registry.view?_of_findView? ht hfind,
        fun _ => ⟨w', List.mem_of_find?_eq_some hfind, rfl⟩⟩

theorem exists_func (hs : v.registry.Sound) (hscope : v.scope = .ofRegistry v.registry)
    (ht : v.registry.find? s.type = some t) (code : Block) : ∃ func, v.func s code = .ok func := by
  obtain ⟨name, hname⟩ := exists_functionName hscope ht s.view
  obtain ⟨k, hk⟩ := hs.kind_user ht
  obtain ⟨typeName, htypeName⟩ := Scope.exists_name_of_kind hk
  obtain ⟨type, htype⟩ := Scope.exists_userRef hk v.context
  unfold func
  rw [hname, hscope, htypeName, htype]
  exact ⟨_, rfl⟩

section

variable (hs : v.registry.Sound)
include hs

theorem exists_nestedView {a : Attribute} (ha : v.registry.Resolves a) (tag : Option String) :
    ∃ view, v.nestedView a tag = .ok view := by
  obtain ⟨k, hk⟩ := ha.kind
  -- Without a tag, the type that is asked is the one referred to, by the attribute or by the
  -- elements of an array. Both are known.
  obtain ⟨elem, helem⟩ := Registry.exists_elem? hk
  have htarget : v.registry.Resolves (elem.getD a) := by
    cases elem with
    | none => exact ha
    | some x => exact hs.resolves_elem ha helem
  obtain ⟨k', hk'⟩ := htarget.kind
  unfold nestedView
  split
  · exact ⟨tag, rfl⟩
  · rw [helem]
    simp only [except_bind_eq_ok, Except.ok.injEq, exists_eq_left']
    split
    · rename_i id hid
      obtain ⟨t, ht⟩ := Registry.find?_of_kind hid hk'
      rw [Registry.get_eq_ok.mpr ht]
      exact ⟨_, rfl⟩
    · exact ⟨none, rfl⟩

theorem exists_fieldPosition {a : Attribute} (ha : v.registry.Resolves a) (required : List String)
    (p : Position) (name : String) (tag : Option String) :
    ∃ x, v.fieldPosition required p name a tag = .ok x := by
  obtain ⟨k, hk⟩ := ha.kind
  obtain ⟨pointer, hp⟩ := Context.exists_holdsPointer hk v.context (required.contains name)
  obtain ⟨view, hview⟩ := exists_nestedView hs ha tag
  unfold fieldPosition
  rw [hp, hview]
  cases p.view.isSome with
  | true => exact ⟨_, rfl⟩
  | false => exact ⟨_, rfl⟩

/-- What is wrong with the fields of an object is wrong with one of them. By induction on the
    fields, up to the first that fails. -/
theorem shownChecks_error {required : List String} {p : Position} :
    ∀ {fs : List ShownField}, (∀ x ∈ fs, v.registry.Resolves x.attr) →
      v.shownChecks isBuilt required p fs = .error f →
      ∃ x ∈ fs, ∃ y, v.HoldsField required p x y ∧
        v.value isBuilt y.attr y.pointer y.position = .error f := by
  intro fs
  induction fs with
  | nil =>
    intro _ h
    cases h
  | cons x rest ih =>
    intro hr h
    rw [List.forall_mem_cons] at hr
    -- Where a field is held can always be said, so the fault is one of its value.
    obtain ⟨⟨pointer, q⟩, hq⟩ := exists_fieldPosition hs hr.1 required p x.name x.tag
    unfold shownChecks at h
    rw [hq] at h
    simp only [except_bind_eq_error, reduceCtorEq, Except.ok.injEq, exists_eq_left',
      false_or] at h
    rcases h with h | ⟨first, -, h | ⟨others, -, h⟩⟩
    · exact ⟨x, List.mem_cons_self, ⟨x.attr, pointer, q⟩, ⟨rfl, hq⟩, h⟩
    · obtain ⟨x', hx', hy⟩ := ih hr.2 h
      exact ⟨x', List.mem_cons_of_mem _ hx', hy⟩
    · cases h

variable (hscope : v.scope = .ofRegistry v.registry)
include hscope

/-- What is wrong with a value is a place that strays. By recursion on the attribute, following the
    walk to where it stopped. -/
theorem value_error : ∀ {a : Attribute} {pointer : Bool} {p : Position},
    v.registry.Resolves a → v.value isBuilt a pointer p = .error f →
      ∃ z, v.Within [⟨a, pointer, p⟩] z ∧ v.Strays z f := by
  intro a
  -- By induction on the size, through the fields of objects in place.
  induction hn : a.size using Nat.strongRecOn generalizing a with
  | ind n ih =>
    intro pointer p ha h
    have below : ∀ {x : Attribute}, x ∈ a.children → ∀ {pointer p},
        v.value isBuilt x pointer p = .error f →
          ∃ z, v.Within [⟨x, pointer, p⟩] z ∧ v.Strays z f :=
      fun hx _ _ => ih _ (hn ▸ Attribute.size_lt_of_mem_children hx) rfl (ha.child hx)
    obtain ⟨k, hk⟩ := ha.kind
    obtain ⟨type, description, rules, overrides, default⟩ := a
    cases type with
    | primitive kind =>
      rw [value] at h
      obtain ⟨code, hc⟩ := exists_primitiveChecks hscope ha kind
        (if pointer then p.var.deref else p.var) p.path
      rw [← primitiveChecks_primitive description rules overrides default] at hc
      rw [hc] at h
      cases h
    | user id =>
      rw [value] at h
      exact ⟨_, within_self _, userChecks_error hscope ha h⟩
    | object fields =>
      rw [value, fields_eq_shownChecks] at h
      obtain ⟨missing, hm⟩ := exists_missingChecks (v := v) rules.required p
        fun x hx => (ha.child (List.mem_map_of_mem hx)).kind
      rw [hm] at h
      simp only [except_bind_eq_error, reduceCtorEq, Except.ok.injEq, exists_eq_left',
        false_or] at h
      rcases h with h | ⟨_, -, h⟩
      · obtain ⟨x, hx, y, hy, h⟩ := shownChecks_error hs
          (fun x hx => ha.child (List.mem_map_of_mem (shownFields_attr hx))) h
        obtain ⟨z, hz, hstray⟩ := below (hy.1 ▸ List.mem_map_of_mem (shownFields_attr hx)) h
        exact ⟨z, hz.inner (.field rfl hx hy), hstray⟩
      · cases h
    | array elem =>
      rw [value] at h
      rcases except_bind_eq_error.mp h with h | ⟨_, -, h⟩
      · obtain ⟨z, hz, hstray⟩ := below (by simp [Attribute.children]) h
        exact ⟨z, hz.inner (.element (.inl rfl)), hstray⟩
      · cases h
    | map key elem =>
      rw [value] at h
      rcases except_bind_eq_error.mp h with h | ⟨_, -, h⟩
      · obtain ⟨z, hz, hstray⟩ := below (by simp [Attribute.children]) h
        exact ⟨z, hz.inner (.element (.inr ⟨key, rfl⟩)), hstray⟩
      · cases h
    | union name alternatives =>
      rw [value] at h
      cases h

/-- What is wrong with the body of a validator is a place that strays. Together with
    `Builds.not_strays` this says that the walk fails exactly where something strays. -/
theorem body_error (hd : v.Declared s) (ht : v.registry.find? s.type = some t)
    (h : v.body isBuilt s = .error f) : ∃ z, v.Looks s z ∧ v.Strays z f := by
  obtain ⟨view, hview, -⟩ := exists_shownView hd ht
  have hdefinition := hs t (Registry.mem_types_of_find? ht).1
  obtain ⟨k, hk⟩ := hdefinition.kind
  obtain ⟨r, hr⟩ := Registry.exists_resolve hk
  have hdescribes : v.Describes s r view := ⟨⟨t, Registry.get_eq_ok.mpr ht, hr⟩, hview⟩
  have hresolves : v.registry.Resolves r := hs.of_mem_standing hdefinition
    (Registry.resolve_mem_standing hr (Registry.mem_standing_self _ _))
  -- Arrays and maps check their elements alike, at the one place that stands for any element.
  have element : ∀ {elem}, CollectionOf r.type elem → elem ∈ r.children →
      v.value isBuilt elem false (v.argument s).element = .error f →
      ∃ z, v.Looks s z ∧ v.Strays z f := by
    intro elem helem hmem h
    obtain ⟨z, ⟨w, hw, hz⟩, hstray⟩ := value_error hs hscope (hresolves.child hmem) h
    obtain rfl := List.mem_singleton.mp hw
    exact ⟨z, ⟨_, .element hdescribes helem, hz⟩, hstray⟩
  unfold body at h
  simp only [Registry.get_eq_ok.mpr ht, hview, hr, except_bind_eq_error, reduceCtorEq,
    Except.ok.injEq, exists_eq_left', false_or] at h
  split at h
  · rename_i fields hfields
    have hshown : ∀ x ∈ shownFields fields view, v.registry.Resolves x.attr := fun x hx =>
      hresolves.child (by
        rw [Attribute.children, hfields]
        exact List.mem_map_of_mem (mem_shownFields hx))
    have hkinds : ∀ x ∈ (shownFields fields view).map fun x => (x.name, x.attr),
        ∃ k, v.registry.kind x.2 = .ok k := by
      intro x hx
      obtain ⟨x', hx', rfl⟩ := List.mem_map.mp hx
      exact (hshown x' hx').kind
    obtain ⟨missing, hm⟩ := exists_missingChecks r.rules.required (v.argument s) hkinds
    rw [hm] at h
    simp only [except_bind_eq_error, reduceCtorEq, Except.ok.injEq, exists_eq_left',
      false_or] at h
    rcases h with h | ⟨_, -, h⟩
    · obtain ⟨x, hx, y, hy, h⟩ := shownChecks_error hs hshown h
      obtain ⟨z, ⟨w, hw, hz⟩, hstray⟩ := value_error hs hscope (hy.1 ▸ hshown x hx) h
      obtain rfl := List.mem_singleton.mp hw
      exact ⟨z, ⟨_, .field hdescribes hfields hx hy, hz⟩, hstray⟩
    · cases h
  · rename_i elem helem
    rcases except_bind_eq_error.mp h with h | ⟨_, -, h⟩
    · exact element (.inl helem) (by simp [Attribute.children, helem]) h
    · cases h
  · rename_i key elem helem
    rcases except_bind_eq_error.mp h with h | ⟨_, -, h⟩
    · exact element (.inr ⟨key, helem⟩) (by simp [Attribute.children, helem]) h
    · cases h
  · cases h

/-! ## The validators of a type -/

section

variable (hroot : v.Declared root) (ht : v.registry.find? root.type = some t)
include hroot ht

/-- What is wrong with the body of a subject that is reached is a place that strays. -/
theorem goesAstray_of_body (hreached : ReflTransGen v.Delegates root s)
    (h : v.body isBuilt s = .error f) : v.GoesAstray root f := by
  obtain ⟨u, hu⟩ := known_of_reached ht hreached
  obtain ⟨z, hz, hstray⟩ := body_error hs hscope (hroot.reached hreached) hu h
  exact ⟨s, z, hreached, hz, hstray⟩

theorem exploreWithin_failsOnly : ∀ {limit : Nat} {found : List Found} {pending : List Subject},
    v.Explores root found pending →
      (v.exploreWithin limit found pending).FailsOnly (v.GoesAstray root) := by
  intro limit
  induction limit with
  | zero =>
    intro found pending h
    unfold exploreWithin
    dsimp only
    split
    · exact Walk.failsOnly_pure
    · exact Walk.failsOnly_exhausted
  | succ limit ih =>
    intro found pending h
    have hskip := h.skip
    unfold exploreWithin
    dsimp only
    split
    · exact Walk.failsOnly_pure
    · rename_i s rest hcons
      rw [hcons] at hskip
      -- The subject whose body fails was reached from the root, by the invariant of the search.
      obtain ⟨x, hx, hreached⟩ := hskip.search.reached s (.inr List.mem_cons_self)
      obtain rfl := List.mem_singleton.mp hx
      have hfresh := fresh_of_dropWhile hcons
      rw [Walk.failsOnly_bind, Walk.failsOnly_liftM]
      exact ⟨fun f hf => goesAstray_of_body hs hscope hroot ht hreached hf,
        fun checks hb => ih (hskip.push hfresh (Walk.yields_liftM.mp hb))⟩

theorem closure_failsOnly : (v.closure root).FailsOnly (v.GoesAstray root) := by
  have hlimit : subjectBudget v.registry <
      subjectBudget v.registry + 1 + ([] : List Found).length := Nat.lt_succ_self _
  unfold closure explore
  refine Walk.failsOnly_bind.mpr
    ⟨exploreWithin_failsOnly hs hscope hroot ht (.init v root), fun found hfound => ?_⟩
  have hex := (exploreWithin_explores hroot (.init v root) hlimit).2 found hfound
  refine Walk.failsOnly_mapM fun s hbuilt => ?_
  have hreached := (hex.mem_built.mp hbuilt).1
  obtain ⟨u, hu⟩ := known_of_reached ht hreached
  refine Walk.failsOnly_bind.mpr ⟨?_, fun checks _ => Walk.failsOnly_bind.mpr
    ⟨Walk.failsOnly_of_ok (exists_func hs hscope hu checks.code), fun _ _ => Walk.failsOnly_pure⟩⟩
  exact Walk.failsOnly_liftM.mpr fun f hf => goesAstray_of_body hs hscope hroot ht hreached hf

/-- Nothing goes wrong with the validators of a type but that a place strays. -/
theorem compileAll_failsOnly (hsubject : v.subject id view = .ok root) :
    (v.compileAll id view).FailsOnly (v.GoesAstray root) := by
  unfold compileAll
  refine Walk.failsOnly_bind.mpr ⟨Walk.failsOnly_of_ok ⟨root, hsubject⟩, fun s hs' => ?_⟩
  rw [Walk.yields_liftM, hsubject] at hs'
  cases hs'
  exact Walk.failsOnly_bind.mpr
    ⟨closure_failsOnly hs hscope hroot ht, fun _ _ => Walk.failsOnly_pure⟩

end

end

/-- There is a body for each subject that is found, so no place strays that it looks at. Bodies are
    built for subjects whether or not they turn out to be needed. -/
theorem not_goesAstray_of_yields {funcs : List Func} (hsubject : v.subject id view = .ok root)
    (h : (v.compileAll id view).Yields funcs) : ¬ v.GoesAstray root f := by
  have hroot := declared_of_subject hsubject
  have hlimit : subjectBudget v.registry <
      subjectBudget v.registry + 1 + ([] : List Found).length := Nat.lt_succ_self _
  unfold compileAll closure explore at h
  simp only [Walk.yields_bind, Walk.yields_liftM, hsubject, Except.ok.injEq,
    exists_eq_left'] at h
  obtain ⟨listed, ⟨found, hfound, -⟩, -⟩ := h
  have hex := (exploreWithin_explores hroot (.init v root) hlimit).2 found hfound
  intro hstray
  obtain ⟨s, z, hreached, hz, hstray⟩ := hstray
  obtain ⟨x, hx, rfl⟩ := List.mem_map.mp (hex.reached_iff.mpr hreached)
  obtain ⟨checks, hb, -⟩ := hex.bodies x hx
  exact (buildsBody_of_body hb).not_strays hz hstray

/-- The validators of a type can be built exactly if no place strays. That they are found in
    finitely many steps is known by then, so nothing else can go wrong. -/
theorem exists_compileAll_iff (hs : v.registry.Sound) (hscope : v.scope = .ofRegistry v.registry)
    (ht : v.registry.find? id = some t) (hsubject : v.subject id view = .ok root) :
    (∃ funcs, (v.compileAll id view).Yields funcs) ↔ ∀ f, ¬ v.GoesAstray root f := by
  constructor
  · exact fun ⟨_, h⟩ _ => not_goesAstray_of_yields hsubject h
  · intro hno
    have hfaults := compileAll_failsOnly hs hscope (declared_of_subject hsubject)
      ((type_of_subject hsubject).symm ▸ ht) hsubject
    rcases Walk.finishes_iff.mp (compileAll_listed v id view).1 with ⟨f, hf⟩ | hyields
    · exact absurd (hfaults f hf) (hno f)
    · exact hyields

end Validation
end Shapewright
