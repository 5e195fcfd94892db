import Shapewright.Proofs.Projection.Images
import Shapewright.Proofs.Validation.Views

/-!
# Views that validators and projections select

A validator and a projection walk through the same values, and both decide under which view a value
of a result type is seen. The projection takes the tag of the field, otherwise the default view, and
keeps to it in collections of any depth. The validator keeps track of a view of its own, which gets
lost on the way. The two are walked side by side here: they select the same view exactly where the
validator still has one, and where there is but one to select.

## Two walks

`Beside` relates a place in the value to the attribute in the projection that is for it. It takes a
step on both sides at once, into a field of one name or into the elements of a collection, and stops
at references. `Paired` goes on from there, to the subject that the validator hands the value to and
the projection that the attribute refers to. Along both, the invariant is that the subject is under
the view of the projection or under none (`Subject.Under`).

## Where they part

The second half says that nothing is lost in the other direction: where the subject is for the view
of the projection, whatever the validator looks at has an attribute beside it. A type that is
another name for a collection is left out, since its projection refers to that of the collection,
while its validator looks into it.
-/

namespace Shapewright
namespace Validation

open Projection Relation

/-- What the views and the fields of a design must be for its projections to show what the views
    list: only results have views, a view lists a field once, and so does the declaration of an
    object. -/
structure Orderly (reg : Registry) : Prop where
  results : ∀ t ∈ reg.types, ∀ w ∈ t.views, t.kind = .result
  once : ∀ t ∈ reg.types, ∀ w ∈ t.views, (w.attributes.map (·.field)).Nodup
  names : ∀ t ∈ reg.types, ∀ fields, reg.fields? t.definition = .ok (some fields) →
    (fields.map Prod.fst).Nodup

/-- The place, in a value of the subject, and the attribute, in the projected type that is defined
    by `d`, are for one and the same value. -/
inductive Beside (v : Validation) (s : Subject) (d : Attribute) : Place → Attribute → Prop
  | field {r b : Attribute} {found : Option View} {fields shown : List (String × Attribute)}
      {f : ShownField} {y : Place} (hs : v.Describes s r found) (ht : r.type = .object fields)
      (hf : f ∈ shownFields fields found)
      (hy : v.HoldsField r.rules.required (v.argument s) f y) (hd : d.type = .object shown)
      (hb : Ordered.get? shown f.name = some b) : Beside v s d y b
  | element {r elem b : Attribute} {found : Option View} (hs : v.Describes s r found)
      (ht : CollectionOf r.type elem) (hb : CollectionOf d.type b) :
      Beside v s d (elementPlace (v.argument s) elem) b
  | innerField {y z : Place} {c b : Attribute} {fields shown : List (String × Attribute)}
      {f : ShownField} {i : Nat} (h : Beside v s d y c) (ht : y.attr.type = .object fields)
      (hf : (shownFields fields none)[i]? = some f)
      (hz : v.HoldsField y.attr.rules.required y.position f z) (hc : c.type = .object shown)
      (hb : shown[i]? = some (f.name, b)) : Beside v s d z b
  | innerElement {y : Place} {c elem b : Attribute} (h : Beside v s d y c)
      (ht : CollectionOf y.attr.type elem) (hb : CollectionOf c.type b) :
      Beside v s d (elementPlace y.position elem) b

/-- On the way from a request, the validator comes to the subject where the projection comes to the
    view of its type. -/
inductive Paired (v : Validation) (root : Subject) (first : ViewedType) :
    Subject → ViewedType → Prop
  | first : Paired v root first root first
  | step {s s' : Subject} {k : ViewedType} {d b : Attribute} {z : Place} {view : String}
      (h : Paired v root first s k) (hd : Derives v.registry k d) (hb : v.Beside s d z b)
      (hz : v.HandsOver z s') (ht : b.type = .user (ViewedType.projectedId ⟨s'.type, view⟩)) :
      Paired v root first s' ⟨s'.type, view⟩

/-- The subject is for the type, and under no other view than this one. It may be under none, where
    the validator has lost the view on its way. -/
structure Subject.Under (s : Subject) (k : ViewedType) : Prop where
  type : s.type = k.type
  view : ∀ name, s.view = some name → name = k.view

variable {v : Validation} {s s' root : Subject} {k first : ViewedType} {d b : Attribute} {z : Place}
  {t : UserType} {id : TypeId} {name : String} {P : ViewedType → Prop}

/-! ## Subjects -/

/-- The subject of a type under a view is under that view if the type has it. The default view
    stands for none where the type does not have it. -/
theorem subject_some_eq_ok (ht : v.registry.find? id = some t) :
    v.subject id (some name) = .ok s ↔ s.type = id ∧
      (s.view = some name ∧ (t.findView? name).isSome ∨
        s.view = none ∧ name = defaultView ∧ t.findView? name = none) := by
  obtain ⟨type, view⟩ := s
  have hnamed : ∀ w, t.findView? name = some w → w.name = name := by
    intro w hw
    simpa using List.find?_some hw
  unfold subject
  simp only [except_bind_eq_ok, except_pure_eq_ok, Registry.view?_eq_ok ht, Subject.mk.injEq]
  constructor
  · intro h
    obtain ⟨found, ⟨hfound, hd⟩, rfl, rfl⟩ := h
    -- The view was found under its own name, or none was found and the default was asked for.
    cases found with
    | none => exact ⟨rfl, .inr ⟨rfl, hd rfl, hfound⟩⟩
    | some w => exact ⟨rfl, .inl ⟨by rw [Option.map_some, hnamed w hfound], by simp [hfound]⟩⟩
  · intro h
    obtain ⟨rfl, ⟨hview, hsome⟩ | ⟨hview, hd, hno⟩⟩ := h
    · obtain ⟨w, hw⟩ := Option.isSome_iff_exists.mp hsome
      exact ⟨some w, ⟨hw, by simp⟩, rfl, by rw [Option.map_some, hnamed w hw, hview]⟩
    · exact ⟨none, ⟨hno, fun _ => hd⟩, rfl, hview.symm⟩

/-- A subject under a view is under the view that was asked for. -/
theorem view_of_subject {view : Option String} (ht : v.registry.find? id = some t)
    (h : v.subject id view = .ok s) (hs : s.view = some name) :
    view = some name ∧ (t.findView? name).isSome := by
  cases view with
  | none =>
    cases h
    cases hs
  | some asked =>
    rcases ((subject_some_eq_ok ht).mp h).2 with ⟨hview, hsome⟩ | ⟨hview, -⟩
    · rw [hs] at hview
      cases hview
      exact ⟨rfl, hsome⟩
    · rw [hs] at hview
      cases hview

theorem under_of_subject (h : v.subject id (some name) = .ok s) : s.Under ⟨id, name⟩ := by
  refine ⟨type_of_subject h, fun view hview => ?_⟩
  obtain ⟨t, w, ht, -⟩ := declared_of_subject h view hview
  rw [type_of_subject h] at ht
  exact (Option.some.inj (view_of_subject ht h hview).1).symm

/-! ## Side by side -/

/-- The image of a collection is one of the images of its elements. -/
theorem image_of_collection {reg : Registry} {a elem : Attribute} {view : Option String}
    (h : Image reg P a view b) (ht : CollectionOf a.type elem) :
    ∃ y, CollectionOf b.type y ∧ Image reg P elem view y := by
  rcases ht with ht | ⟨key, ht⟩
  · obtain ⟨y, hy, himage⟩ := h.of_array ht
    exact ⟨y, .inl hy, himage⟩
  · obtain ⟨y, hy, himage⟩ := h.of_map ht
    exact ⟨y, .inr ⟨key, hy⟩, himage⟩

/-- What a field of an object is seen under is its tag, otherwise the default view. -/
theorem view_of_holdsField {required : List String} {p : Position} {f : ShownField}
    (hy : v.HoldsField required p f z) (hname : z.position.view = some name) :
    p.view.isSome ∧ f.tag.getD defaultView = name := by
  rcases view_of_fieldPosition hy.2 with ⟨-, hnone⟩ | ⟨hsome, hnested⟩
  · rw [hnone] at hname
    cases hname
  · rw [hname] at hnested
    rcases nestedView_eq_some hnested with htag | ⟨htag, rfl, -⟩
    · exact ⟨hsome, by rw [htag, Option.getD_some]⟩
    · exact ⟨hsome, by rw [htag, Option.getD_none]⟩

/-- Without a view all fields are shown, each with the tag it declares. -/
theorem shownFields_getElem? {fields : List (String × Attribute)} {f : ShownField} {i : Nat}
    (h : (shownFields fields none)[i]? = some f) :
    fields[i]? = some (f.name, f.attr) ∧ f.tag = f.attr.overrides.view := by
  unfold shownFields at h
  rw [List.getElem?_map] at h
  obtain ⟨x, hx, rfl⟩ := Option.map_eq_some_iff.mp h
  exact ⟨hx, rfl⟩

/-- Lists of one length, with the same names, have entries at the same positions. -/
theorem exists_getElem?_of_names {fields shown : List (String × Attribute)} {i : Nat}
    {a : Attribute} (hn : shown.map Prod.fst = fields.map Prod.fst)
    (h : fields[i]? = some (name, a)) : ∃ b, shown[i]? = some (name, b) := by
  have hi : (shown.map Prod.fst)[i]? = some name := by
    rw [hn, List.getElem?_map, h, Option.map_some]
  rw [List.getElem?_map] at hi
  obtain ⟨⟨_, b⟩, hb, rfl⟩ := Option.map_eq_some_iff.mp hi
  exact ⟨b, hb⟩

/-- A field that the validator sees is one that the projection lists. -/
theorem field_mem_listed {found : Option View} {w : ObjectView} {f : ShownField}
    (h : f ∈ shownFields w.fields found) : f.name ∈ (listed found w).map (·.field) := by
  cases found with
  | none =>
    have hmem := List.mem_map_of_mem (f := fun x => ViewAttribute.name x.1) (shownFields_attr h)
    exact List.mem_map.mpr ⟨_, hmem, rfl⟩
  | some view =>
    obtain ⟨va, hva, h⟩ := List.mem_filterMap.mp h
    obtain ⟨a, -, rfl⟩ := Option.map_eq_some_iff.mp h
    exact List.mem_map_of_mem hva

/-- A subject under a view selects its fields by what the projection lists. -/
theorem shownView_eq (hs : v.subject k.type (some k.view) = .ok s)
    (ht : v.registry.find? k.type = some t) : v.shownView s = v.registry.view? t.id k.view := by
  obtain ⟨-, hid⟩ := Registry.mem_types_of_find? ht
  obtain ⟨htype, ⟨hview, -⟩ | ⟨hview, hd, hno⟩⟩ := (subject_some_eq_ok ht).mp hs
  · rw [shownView, hview, htype, hid]
  · rw [shownView, hview, hid, (Registry.view?_eq_ok ht).mpr ⟨hno, fun _ => hd⟩]

/-- The subject is described by what the type of the projection leads to. -/
theorem Describes.resolve {r : Attribute} {found : Option View} (hs : v.Describes s r found)
    (hu : s.Under k) (ht : v.registry.find? k.type = some t) :
    v.registry.resolve t.definition = .ok r := by
  obtain ⟨t', ht', hr⟩ := hs.type
  rw [Registry.get_eq_ok, hu.type, ht] at ht'
  cases ht'
  exact hr

/-- An attribute that leads to a collection is of the kind of one. -/
theorem kind_of_collection {reg : Registry} {a r elem : Attribute} (hr : reg.resolve a = .ok r)
    (ht : CollectionOf r.type elem) :
    ∃ kind, reg.kind a = .ok kind ∧ (kind = .array ∨ kind = .map) := by
  rw [Registry.kind_eq_of_resolve hr]
  rcases ht with ht | ⟨key, ht⟩
  · exact ⟨_, by rw [ht], .inl rfl⟩
  · exact ⟨_, by rw [ht], .inr rfl⟩

section

variable (ho : Orderly v.registry) (ht : v.registry.find? k.type = some t)
  (hd : Defines v.registry P t k.view d)
include ho ht hd

/-- Fields of one name, in the object and in its projection, have one tag. It is the tag that the
    view lists, or the one that the field declares. -/
theorem image_of_shown {r : Attribute} {found : Option View}
    {fields shown : List (String × Attribute)} {f : ShownField} (hu : s.Under k)
    (hdeclared : v.Declared s) (hs : v.Describes s r found) (htype : r.type = .object fields)
    (hf : f ∈ shownFields fields found) (hshown : d.type = .object shown)
    (hb : Ordered.get? shown f.name = some b) :
    ∃ view, Image v.registry P f.attr view b ∧ (s.view.isSome → view = f.tag) := by
  have hr := hs.resolve hu ht
  have hview := hs.view
  obtain ⟨hmem, hid⟩ := Registry.mem_types_of_find? ht
  have hfields := Registry.fields?_eq_some.mpr ⟨r, hr, htype⟩
  have hattr := Ordered.get?_of_mem (ho.names t hmem fields hfields) (mem_shownFields hf)
  obtain ⟨found', _, hfound, hshown', hp⟩ := hd.of_object hr htype
  rw [hshown] at hshown'
  cases hshown'
  obtain ⟨va, hva, hname, a, ha, himage⟩ := hp.image _ (Ordered.mem_of_get? hb)
  obtain rfl := Option.some.inj (hattr.symm.trans ha)
  refine ⟨_, himage, fun hsome => ?_⟩
  -- Under a view the validator and the projection go by the same list of fields.
  obtain ⟨name, hname'⟩ := Option.isSome_iff_exists.mp hsome
  obtain ⟨_, hshown, hselects⟩ := exists_shownView hdeclared (hu.type ▸ ht)
  obtain ⟨w, hw, rfl⟩ := hselects hsome
  rw [hview] at hshown
  cases hshown
  have hsame : v.shownView s = v.registry.view? t.id k.view := by
    rw [shownView, hname', hu.view name hname', hu.type, hid]
  rw [hsame, hfound] at hview
  cases hview
  obtain ⟨va', hva', hf⟩ := List.mem_filterMap.mp hf
  obtain ⟨a, ha, rfl⟩ := Option.map_eq_some_iff.mp hf
  obtain rfl := List.inj_on_of_nodup_map (ho.once t hmem w hw) hva hva' hname
  rfl

/-- What stands beside a place is the image of its attribute, under the view that the validator sees
    the place under, if it does see it under one. -/
theorem image_of_beside (hu : s.Under k) (hdeclared : v.Declared s) (h : v.Beside s d z b) :
    ∃ view, Image v.registry P z.attr view b ∧
      ∀ name, z.position.view = some name → view.getD defaultView = name := by
  -- By induction on the way down: at the top the view of the subject selects fields, and below that
  -- everything is projected as it stands.
  induction h with
  | field hs htype hf hy hshown hb =>
    obtain ⟨view, himage, htag⟩ := image_of_shown ho ht hd hu hdeclared hs htype hf hshown hb
    refine ⟨view, hy.1 ▸ himage, fun name hname => ?_⟩
    obtain ⟨hsome, hname⟩ := view_of_holdsField hy hname
    rw [htag hsome, hname]
  | element hs htype hb =>
    have hr := hs.resolve hu ht
    obtain ⟨kind, hk, hc⟩ := kind_of_collection hr htype
    have himage := hd.of_collection hk hc
    cases hid : t.definition.userId? with
    | some id =>
      obtain ⟨_, -, -, hreference⟩ := himage.of_user hid hk (.inr hc)
      rw [hreference] at hb
      rcases hb with hb | ⟨_, hb⟩ <;> cases hb
    | none =>
      rw [Registry.resolve_of_userId?_eq_none hid] at hr
      cases hr
      obtain ⟨y, hy, himage⟩ := image_of_collection himage htype
      refine ⟨some k.view, hy.unique hb ▸ himage, fun name hname => ?_⟩
      rw [Option.getD_some, hu.view name hname]
  | innerField _ htype hf hz hc hb ih =>
    obtain ⟨view, himage, -⟩ := ih
    obtain ⟨shown, hshown, -, himages⟩ := himage.of_object htype
    rw [hc] at hshown
    cases hshown
    obtain ⟨hx, htag⟩ := shownFields_getElem? hf
    have himage := himages _ _ _ hx hb
    dsimp only at himage
    rw [← htag, ← hz.1] at himage
    exact ⟨_, himage, fun name hname => (view_of_holdsField hz hname).2⟩
  | innerElement _ htype hb ih =>
    obtain ⟨view, himage, hview⟩ := ih
    obtain ⟨y, hy, himage⟩ := image_of_collection himage htype
    exact ⟨view, hy.unique hb ▸ himage, hview⟩

end

/-- The subjects on the way are under the views that the projections have come to, or under none. By
    induction along the way. Where the two walks differ, the subject is under none. -/
theorem Paired.under (ho : Orderly v.registry) (hroot : root.Under first)
    (hdeclared : v.Declared root) (h : v.Paired root first s k) : s.Under k ∧ v.Declared s := by
  induction h with
  | first => exact ⟨hroot, hdeclared⟩
  | step _ hd hb hz hreference ih =>
    obtain ⟨t, ht, hdefines⟩ := hd.defines
    obtain ⟨view, himage, hview⟩ := image_of_beside ho ht hdefines ih.1 ih.2 hb
    obtain ⟨hid, hkind, hk, hs⟩ := hz
    obtain ⟨u, hu, -, hselected⟩ := himage.of_user hid hkind hk
    refine ⟨⟨rfl, fun name hname => ?_⟩, declared_of_subject hs⟩
    obtain ⟨hname, hsome⟩ := view_of_subject hu hs hname
    obtain ⟨w, hw⟩ := Option.isSome_iff_exists.mp hsome
    have hresult := ho.results u (Registry.mem_types_of_find? hu).1 w (List.mem_of_find?_eq_some hw)
    rw [hselected, Attribute.shownAs, DataType.user.injEq, type_of_subject hs] at hreference
    rw [← projectedId_injective hreference, UserType.shownUnder, if_pos hresult, hview name hname]

/-- The type is not another name for a collection. The projection of such a name is a reference to
    another one, so nothing stands at the top of it. -/
def Own (reg : Registry) (id : TypeId) : Prop := ∀ t, reg.find? id = some t →
  t.definition.userId? = none ∨ reg.kind t.definition = .ok .object

/-- Where the subject is for the view of the projection, the projection has what is at the top of
    the validated value. -/
theorem exists_beside_top (hown : Own v.registry k.type) (ht : v.registry.find? k.type = some t)
    (hd : Defines v.registry P t k.view d) (hs : v.subject k.type (some k.view) = .ok s)
    (hy : v.Top s z) : ∃ b, v.Beside s d z b := by
  have hu : s.Under k := under_of_subject hs
  cases hy with
  | field hdescribes htype hf hy =>
    have hview := hdescribes.view
    obtain ⟨found, shown, hfound, hshown, hp⟩ := hd.of_object (hdescribes.resolve hu ht) htype
    rw [shownView_eq hs ht, hfound] at hview
    cases hview
    obtain ⟨b, hb⟩ := Ordered.exists_get? ((hp.names _).mpr (field_mem_listed hf))
    exact ⟨b, .field hdescribes htype hf hy hshown hb⟩
  | element hdescribes htype =>
    have hr := hdescribes.resolve hu ht
    obtain ⟨kind, hk, hc⟩ := kind_of_collection hr htype
    -- The type is a collection itself and no alias of one, so what it declares was projected in
    -- place.
    rcases hown t ht with hid | hobject
    · rw [Registry.resolve_of_userId?_eq_none hid] at hr
      cases hr
      obtain ⟨b, hb, -⟩ := image_of_collection (hd.of_collection hk hc) htype
      exact ⟨b, .element hdescribes htype hb⟩
    · obtain rfl := Except.ok.inj (hk.symm.trans hobject)
      simp at hc

/-- Where the subject is for the view of the projection, the projection has everything that the
    validator looks at. -/
theorem exists_beside (ho : Orderly v.registry) (hown : Own v.registry k.type)
    (ht : v.registry.find? k.type = some t) (hd : Defines v.registry P t k.view d)
    (hs : v.subject k.type (some k.view) = .ok s) (hz : v.Looks s z) :
    ∃ b, v.Beside s d z b := by
  obtain ⟨y, hy, hinside⟩ := hz
  have hu : s.Under k := under_of_subject hs
  -- The counterpart of a place leads to those of the places inside it.
  induction hinside with
  | refl => exact exists_beside_top hown ht hd hs hy
  | tail _ hinner ih =>
    obtain ⟨c, hc⟩ := ih
    obtain ⟨view, himage, -⟩ := image_of_beside ho ht hd hu (declared_of_subject hs) hc
    cases hinner with
    | field htype hf hz =>
      obtain ⟨shown, hshown, hnames, -⟩ := himage.of_object htype
      obtain ⟨i, hi⟩ := List.getElem?_of_mem hf
      obtain ⟨b, hb⟩ := exists_getElem?_of_names hnames (shownFields_getElem? hi).1
      exact ⟨b, .innerField hc htype hi hz hshown hb⟩
    | element htype =>
      obtain ⟨b, hb, -⟩ := image_of_collection himage htype
      exact ⟨b, .innerElement hc htype hb⟩

/-- For a value of a result type the projection selects a view. The validator checks the value under
    that view exactly if it still has a view there, or if the type has no view to be checked under
    and is shown as a whole.

    `Paired` goes along with both walks at once, so this holds at any depth below the request. The
    second part says that nothing is left out: whatever a validator looks at has a counterpart in
    the projection. -/
theorem selected_view_iff (v : Validation) (ho : Orderly v.registry) (id : TypeId) (view : String)
    (root : Subject) (hroot : v.subject id (some view) = .ok root) (s : Subject) (k : ViewedType)
    (d : Attribute) (hp : v.Paired root ⟨id, view⟩ s k) (hd : Derives v.registry k d) :
    (∀ z b s' t, v.Beside s d z b → v.HandsOver z s' → v.registry.find? s'.type = some t →
      t.kind = .result →
      ∃ selected, b.type = .user (ViewedType.projectedId ⟨s'.type, selected⟩) ∧
        (v.subject s'.type (some selected) = .ok s' ↔
          z.position.view.isSome ∨ selected = defaultView ∧ t.findView? defaultView = none)) ∧
    (v.subject k.type (some k.view) = .ok s → Own v.registry k.type →
      ∀ z, v.Looks s z → ∃ b, v.Beside s d z b) := by
  obtain ⟨hu, hdeclared⟩ := hp.under ho (under_of_subject hroot) (declared_of_subject hroot)
  obtain ⟨u, hku, hdefines⟩ := hd.defines
  refine ⟨fun z b s' t hb hz ht hresult => ?_,
    fun hs hown z hz => exists_beside ho hown hku hdefines hs hz⟩
  obtain ⟨selected, himage, hview⟩ := image_of_beside ho hku hdefines hu hdeclared hb
  obtain ⟨hid, hkind, hk, hs⟩ := hz
  obtain rfl := type_of_subject hs
  obtain ⟨t', ht', -, rfl⟩ := himage.of_user hid hkind hk
  rw [ht] at ht'
  cases ht'
  rw [UserType.shownUnder, if_pos hresult]
  refine ⟨_, rfl, ?_⟩
  -- Under a view, both sides take that view. Without one the validator takes the type as a whole,
  -- and the projection takes the default view if there is one.
  cases hseen : z.position.view with
  | some name =>
    rw [hseen] at hs
    simp only [hview name hseen, hs, Option.isSome_some, true_or]
  | none =>
    rw [hseen] at hs
    have hnone : s'.view = none := congrArg Subject.view (Except.ok.inj hs).symm
    rw [subject_some_eq_ok ht, hnone]
    simp only [true_and, reduceCtorEq, false_and, false_or, Option.isSome_none, Bool.false_eq_true]
    refine and_congr_right fun hd => ?_
    rw [hd]

/-- A shelf shows its first book and the others. -/
def shelf : UserType where
  id := "Shelf"
  name := "Shelf"
  kind := .result
  definition := {
    type := .object [
      ("first", .user "Book"),
      ("others", { type := .map { type := .primitive .string } (.user "Book") })] }
  views := [{ name := "default", attributes := [.name "first", .name "others"] }]

/-- Shelves hold one book in a field and others by their names. -/
def shelves : Registry where
  types := [
    { id := "Book", name := "Book", kind := .result
      definition := {
        type := .object [
          ("title", { type := .primitive .string, rules := { minLength := some 1 } }),
          ("isbn", { type := .primitive .string, rules := { minLength := some 1 } })] }
      views := [{ name := "default", attributes := [.name "title"] }] },
    shelf]
  nodup := by decide

def shelfValidation : Validation where
  scope := .ofRegistry shelves
  context := .service

/-- The projection of a shelf: all its books are shown under their default view. -/
def shownShelf : Attribute where
  type := .object [
    ("first", .user "Book#default"),
    ("others", { type := .map { type := .primitive .string } (.user "Book#default") })]

/-- Views list fields once, and so do declarations. -/
theorem shelves_orderly : Orderly shelves := by
  refine ⟨by decide, by decide, fun t ht fields hfields => ?_⟩
  have hnames : ∀ t ∈ shelves.types, ∃ shown, shelves.fields? t.definition = .ok (some shown) ∧
      (shown.map Prod.fst).Nodup := by
    simp only [shelves, List.forall_mem_cons, List.not_mem_nil, false_implies, implies_true,
      and_true]
    exact ⟨⟨_, rfl, by decide⟩, ⟨_, rfl, by decide⟩⟩
  obtain ⟨shown, hshown, hnodup⟩ := hnames t ht
  rw [hfields] at hshown
  cases hshown
  exact hnodup

/-- The projection of a book, which shows the title only. -/
def shownBook : UserType where
  id := "Book#default"
  name := "BookView"
  definition := {
    type := .object [("title", { type := .primitive .string, rules := { minLength := some 1 } })] }

/-- The projection of a book has been asked for and built. -/
def bookProgress : Progress where
  ids := [(⟨"Book", "default"⟩, "Book#default")]
  built := [("Book#default", shownBook)]

/-- The first reference to a book has its projection built. -/
theorem book_projected : Deriving.Yields (projectAttr shelves (projectWithin shelves 1)
    (.user "Book") none) {} (.user "Book#default") bookProgress := by
  have hbuilt : Deriving.Yields (projectWithin shelves 1 ⟨"Book", "default"⟩) {} "Book#default"
      bookProgress := by
    rw [projectWithin]
    rfl
  exact Deriving.yields_bind.mpr ⟨.object, {}, rfl, Deriving.yields_bind.mpr ⟨_, {}, rfl,
    Deriving.yields_bind.mpr ⟨_, _, hbuilt, rfl⟩⟩⟩

/-- Every other reference finds it there. -/
theorem book_known : Deriving.Yields (projectAttr shelves (projectWithin shelves 1)
    (.user "Book") none) bookProgress (.user "Book#default") bookProgress := by
  have hknown : Deriving.Yields (projectWithin shelves 1 ⟨"Book", "default"⟩) bookProgress
      "Book#default" bookProgress := by
    rw [projectWithin]
    rfl
  exact Deriving.yields_bind.mpr ⟨.object, _, rfl, Deriving.yields_bind.mpr ⟨_, _, rfl,
    Deriving.yields_bind.mpr ⟨_, _, hknown, rfl⟩⟩⟩

/-- The projection of a shelf is defined as `shownShelf` says. -/
theorem shelf_derives : Derives shelves ⟨"Shelf", "default"⟩ shownShelf := by
  refine ⟨shelf, 1, {}, bookProgress, rfl, by simp [Progress.Identified], ?_⟩
  have hothers : Deriving.Yields (projectAttr shelves (projectWithin shelves 1)
      { type := .map { type := .primitive .string } (.user "Book") } none) bookProgress
      { type := .map { type := .primitive .string } (.user "Book#default") } bookProgress :=
    Deriving.yields_bind.mpr ⟨_, _, book_known, rfl⟩
  have hshown : Deriving.Yields (projectShown shelves (projectWithin shelves 1) "Shelf" "default"
      [("first", .user "Book"),
        ("others", { type := .map { type := .primitive .string } (.user "Book") })] []
      [.name "first", .name "others"]) {}
      [("first", .user "Book#default"),
        ("others", { type := .map { type := .primitive .string } (.user "Book#default") })]
      bookProgress :=
    Deriving.yields_bind.mpr ⟨_, _, book_projected,
      Deriving.yields_bind.mpr ⟨_, _, hothers, rfl⟩⟩
  exact Deriving.yields_bind.mpr ⟨.object, _, rfl, Deriving.yields_bind.mpr ⟨_, _, rfl,
    Deriving.yields_bind.mpr ⟨_, _, rfl, Deriving.yields_bind.mpr ⟨_, _, hshown, rfl⟩⟩⟩⟩

/-- The book that stands first on a shelf is in a field, so both walks come to its default view. The
    books beside it are in a map, where the two walks part. -/
theorem selected_view_shelf : ∃ root, Orderly shelfValidation.registry ∧
    shelfValidation.subject "Shelf" (some "default") = .ok root ∧
    shelfValidation.Paired root ⟨"Shelf", "default"⟩ root ⟨"Shelf", "default"⟩ ∧
    Derives shelfValidation.registry ⟨"Shelf", "default"⟩ shownShelf ∧
    (∀ z b s' t, shelfValidation.Beside root shownShelf z b → shelfValidation.HandsOver z s' →
      shelfValidation.registry.find? s'.type = some t → t.kind = .result →
      ∃ selected, b.type = .user (ViewedType.projectedId ⟨s'.type, selected⟩) ∧
        (shelfValidation.subject s'.type (some selected) = .ok s' ↔
          z.position.view.isSome ∨ selected = defaultView ∧ t.findView? defaultView = none)) ∧
    (shelfValidation.subject "Shelf" (some "default") = .ok root →
      Own shelfValidation.registry "Shelf" →
      ∀ z, shelfValidation.Looks root z → ∃ b, shelfValidation.Beside root shownShelf z b) := by
  have hroot : shelfValidation.subject "Shelf" (some "default") = .ok ⟨"Shelf", some "default"⟩ :=
    rfl
  exact ⟨_, shelves_orderly, hroot, .first, shelf_derives,
    selected_view_iff shelfValidation shelves_orderly "Shelf" "default" _ hroot _ _ shownShelf
      .first shelf_derives⟩

/-- A book that is held by its name is projected under its default view, and validated as a
    whole. -/
theorem shelf_views_disagree : ∃ root z b s',
    shelfValidation.subject "Shelf" (some "default") = .ok root ∧
    Derives shelfValidation.registry ⟨"Shelf", "default"⟩ shownShelf ∧
    shelfValidation.Beside root shownShelf z b ∧ shelfValidation.HandsOver z s' ∧
    b.type = .user (ViewedType.projectedId ⟨"Book", "default"⟩) ∧
    shelfValidation.subject "Book" (some "default") ≠ .ok s' ∧ s' = ⟨"Book", none⟩ := by
  let root : Subject := ⟨"Shelf", some "default"⟩
  let others : Attribute := { type := .map { type := .primitive .string } (.user "Book") }
  let p := shelfValidation.argument root
  let q : Position := ⟨p.var.field (others.fieldName "others"), p.path ++ "." ++ "others", none, 0⟩
  have hfield : shelfValidation.Beside root shownShelf ⟨others, false, q⟩
      { type := .map { type := .primitive .string } (.user "Book#default") } :=
    .field ⟨⟨_, rfl, rfl⟩, rfl⟩ rfl (List.mem_cons_of_mem _ List.mem_cons_self) ⟨rfl, rfl⟩ rfl rfl
  have hbook : shelfValidation.Beside root shownShelf (elementPlace q (.user "Book"))
      (.user "Book#default") := .innerElement hfield (.inr ⟨_, rfl⟩) (.inr ⟨_, rfl⟩)
  exact ⟨root, _, _, ⟨"Book", none⟩, rfl, shelf_derives, hbook, ⟨rfl, rfl, .inl rfl, rfl⟩, rfl,
    by decide, rfl⟩

end Validation
end Shapewright
