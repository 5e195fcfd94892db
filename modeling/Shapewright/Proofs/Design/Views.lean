import Shapewright.Proofs.Design.Conversions
import Shapewright.Proofs.Design.Requests
import Shapewright.Proofs.Validation.Straying

/-!
# Views of a design that was loaded

What the checks of a design establish for views: only results have them, and where the view of an
object says under which view a field is seen, the field is of a result type with that view, or an
array in place of such values. Nothing is established for the views of a collection, nor for what is
written deeper inside a field.

## What is left open

The checks go over the fields of a result, and over them only. An array may stand in place in a
field, and then its elements are looked at in its stead; a map, or an array inside an array, is not
looked into. So `Registry.Offers` has two cases and no recursion. A view of a type that is no object
is accepted whatever it says, as there are no fields to compare it with.

Both gaps matter where validators and projections are built, and the statements there name them.
-/

namespace Shapewright

namespace Registry

variable {reg : Registry} {view : String} {a : Attribute}

/-- The attribute refers to a result type that has the view. The default view need not be declared,
    since a result without one shows all of its fields. -/
def Shows (reg : Registry) (view : String) (a : Attribute) : Prop :=
  ∃ id t, a.userId? = some id ∧ reg.find? id = some t ∧ t.kind = .result ∧
    ∃ w, reg.view? id view = .ok w

/-- The attribute can be seen under the view: it refers to a result type that has it, or it is an
    array in place of such values. -/
def Offers (reg : Registry) (view : String) (a : Attribute) : Prop :=
  reg.Shows view a ∨ ∃ elem, a.type = .array elem ∧ reg.Shows view elem

/-- What the checks of a design establish for views: only results have them, what they show is
    declared, and a tag of a shown field names a view that its type offers. -/
structure Viewable (reg : Registry) : Prop where
  results : ∀ t ∈ reg.types, ∀ w ∈ t.views, t.kind = .result
  tags : ∀ t ∈ reg.types, ∀ fields, reg.fields? t.definition = .ok (some fields) →
    ∀ w ∈ t.views, ∀ va ∈ w.attributes, ∃ a, Ordered.get? fields va.field = some a ∧
      ∀ tag, va.view?.or a.overrides.view = some tag → reg.Offers tag a

end Registry

namespace Design

variable {d : Design} {reg : Registry} {location : String} {t : UserType}
  {fields : List (String × Attribute)} {isPattern : String → Bool}

theorem located_eq_ok {α : Type} {x : Except Fault α} {a : α} :
    located location x = .ok a ↔ x = .ok a := mapError_eq_ok

/-- A tag that was checked is one under which the attribute can be seen. A collection in place can
    be seen under a tag if its elements can. -/
theorem offers_of_checkTag {a : Attribute} {view : String}
    (h : checkTag reg location a view = .ok ()) : reg.Offers view a := by
  unfold checkTag at h
  simp only [except_bind_eq_ok, located_eq_ok] at h
  obtain ⟨elem, helem, h⟩ := h
  -- The check looks at the element of an array only where the attribute itself names no type.
  have hshows : reg.Shows view (if a.userId?.isNone then elem.getD a else a) := by
    split at h
    · cases h
    · rename_i id hid
      rw [except_bind_eq_ok] at h
      obtain ⟨t, ht, h⟩ := h
      rw [located_eq_ok, Registry.get_eq_ok] at ht
      split at h
      · cases h
      · rename_i hkind
        rw [except_bind_eq_ok] at h
        obtain ⟨w, hw, -⟩ := h
        exact ⟨id, t, hid, ht, by simpa using hkind, w, located_eq_ok.mp hw⟩
  cases hu : a.userId? with
  | some id =>
    rw [hu] at hshows
    exact .inl hshows
  | none =>
    rw [hu] at hshows
    cases elem with
    | none => exact .inl hshows
    | some x =>
      obtain ⟨r, hr, hx⟩ := Registry.elem?_eq_some.mp helem
      rw [Registry.resolve_of_userId?_eq_none hu] at hr
      cases hr
      exact .inr ⟨x, hx, hshows⟩

/-- A field that a view shows exists, and its tag was checked. The tag of the view goes before that
    of the field. -/
theorem checkShown_eq_ok {va : ViewAttribute} (h : checkShown reg location fields va = .ok ()) :
    ∃ a, Ordered.get? fields va.field = some a ∧
      ∀ tag, va.view?.or a.overrides.view = some tag → reg.Offers tag a := by
  unfold checkShown at h
  split at h
  · cases h
  · rename_i a ha
    refine ⟨a, ha, fun tag htag => ?_⟩
    rw [htag] at h
    exact offers_of_checkTag h

/-- The views of a type are checked one after the other, with the names of those before to find
    views of one name. -/
theorem checkViewList_eq_ok : ∀ {views : List View} {met : List String},
    checkViewList reg t fields met views = .ok () →
      ∀ w ∈ views, ∀ va ∈ w.attributes, ∃ location, checkShown reg location fields va = .ok () := by
  intro views
  induction views with
  | nil => simp
  | cons view rest ih =>
    intro met h
    unfold checkViewList at h
    split at h
    · cases h
    · rw [except_bind_eq_ok] at h
      obtain ⟨⟨⟩, hshown, hrest⟩ := h
      exact List.forall_mem_cons.mpr ⟨fun va hva => ⟨_, forM_eq_ok hshown va hva⟩, ih hrest⟩

/-- A type that was checked has views only if it is a result, and shows in them fields that it
    has. -/
theorem checkViews_eq_ok (h : checkViews reg t = .ok ()) : (∀ w ∈ t.views, t.kind = .result) ∧
    ∀ fields, reg.fields? t.definition = .ok (some fields) →
      ∀ w ∈ t.views, ∀ va ∈ w.attributes, ∃ a, Ordered.get? fields va.field = some a ∧
        ∀ tag, va.view?.or a.overrides.view = some tag → reg.Offers tag a := by
  unfold checkViews at h
  split at h
  · split at h
    · rename_i hempty
      rw [List.isEmpty_iff.mp hempty]
      simp
    · cases h
  · rename_i hkind
    refine ⟨fun _ _ => by simpa using hkind, fun fields hfields w hw va hva => ?_⟩
    rw [hfields] at h
    obtain ⟨location, hshown⟩ := checkViewList_eq_ok h w hw va hva
    exact checkShown_eq_ok hshown

/-- The checks of a design are those of its types and those of its requests. The first of them
    include those of views, for every type of the registry. -/
theorem viewable_of_check (h : d.check isPattern = .ok ()) : d.registry.Viewable := by
  unfold check at h
  simp only [except_bind_eq_ok] at h
  obtain ⟨⟨⟩, -, ⟨⟩, htypes, -⟩ := h
  have hviews : ∀ t ∈ d.registry.types, checkViews d.registry t = .ok () := by
    intro t ht
    have hchecked := forM_eq_ok htypes t ht
    rw [except_bind_eq_ok] at hchecked
    obtain ⟨⟨⟩, -, hviews⟩ := hchecked
    exact hviews
  exact ⟨fun t ht => (checkViews_eq_ok (hviews t ht)).1,
    fun t ht => (checkViews_eq_ok (hviews t ht)).2⟩

end Design
end Shapewright
