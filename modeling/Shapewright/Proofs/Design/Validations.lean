import Shapewright.Proofs.Design.Views
import Shapewright.Proofs.Validation.Views

/-!
# Validators of a design that was loaded

The checks of a design look at the views under which the fields of a result are seen. So the
validators of a design can be built, but for one thing that is not checked: a collection may declare
views of its own, and carries them to values that need not have them.

## What is shown of fields

`Design.Views` says what the checks establish for a tag of a field: the field can be seen under it.
By `Validation.Views` a field is seen under its tag or under the default view, and neither makes a
value stray. So whatever strays is looked at by a subject that is no object
(`carriesView_of_strays`).

## What is shown of requests

A request is checked to name a type, a view of it and a context, which makes up a subject to start
from. Then `compileAll_failsOnly` leaves one kind of fault, and the statement about requests reads
off when it occurs. It holds for whichever patterns the checks accept, since validators quote a
pattern and never look into it.
-/

namespace Shapewright

open Relation Validation

namespace Validation

variable {v : Validation} {y z : Place} {s root : Subject} {f : Fault} {a : Attribute}
  {name : String} {tag : Option String}

/-! ## Values seen under a view -/

theorem refers_of_offers (h : v.registry.Offers name a) : Refers a := by
  rcases h with ⟨id, t, hid, -⟩ | ⟨elem, ht, id, t, hid, -⟩
  · exact .inl (by rw [hid]; rfl)
  · exact .inr ⟨elem, ht, by rw [hid]; rfl⟩

/-- A value of a type that has the view does not stray. It is its own witness: the view it has is
    the one that the value is looked at under. -/
theorem not_strays_of_shows (h : v.registry.Shows name z.attr) (hz : z.position.view = some name) :
    ¬ v.Strays z f := by
  intro hstray
  obtain ⟨hid, -, -, ht, hview, hno, hd⟩ := hstray
  obtain ⟨id, t, hid', ht', -, w, hw⟩ := h
  rw [hid] at hid'
  cases hid'
  rw [hz] at hview
  cases hview
  rw [(Registry.view?_eq_error ht).mpr ⟨hno, hd, rfl⟩] at hw
  cases hw

/-- The default view is no reason to stray: a type without it is validated as a whole. -/
theorem not_strays_of_default (hz : z.position.view = some defaultView) : ¬ v.Strays z f := by
  intro hstray
  obtain ⟨-, -, -, -, hview, -, hd⟩ := hstray
  rw [hz] at hview
  cases hview
  exact hd rfl

/-- No value strays in a field that can be seen under the view of its tag. Loading has checked the
    tags that a view lists, so this rules out everything below an object that is listed. -/
theorem not_strays_of_field {required : List String} {p : Position} {x : ShownField}
    (hy : v.HoldsField required p x y) (hz : ReflTransGen v.Inner y z)
    (hoffers : ∀ tag, x.tag = some tag → v.registry.Offers tag x.attr) : ¬ v.Strays z f := by
  intro hstray
  obtain ⟨hattr, hposition⟩ := hy
  cases hview : y.position.view with
  | none =>
    have hnone := view_eq_none_of_inside hz hview
    simpa [hnone] using hstray.isSome_view
  | some name =>
    obtain ⟨-, hnested⟩ := (view_of_fieldPosition hposition).resolve_left (by simp [hview])
    rw [hview] at hnested
    -- The view is that of the tag, which was checked against the field's type, or the default view,
    -- which every result has.
    rcases nestedView_eq_some hnested with htag | ⟨-, rfl, hrefers⟩
    · have hname := hoffers name htag
      rw [← hattr] at hname
      rcases inside_refers (refers_of_offers hname) hz with rfl | ⟨elem, ht, rfl⟩
      · rcases hname with hshows | ⟨elem, ht, -⟩
        · exact not_strays_of_shows hshows hview hstray
        · have hu := hstray.userId?
          rw [(stands_collection (v := v) (.inl ht)).1] at hu
          cases hu
      · rcases hname with ⟨id, t, hid, -⟩ | ⟨elem', ht', hshows⟩
        · rw [Attribute.type_of_userId? hid] at ht
          cases ht
        · rw [ht] at ht'
          cases ht'
          exact not_strays_of_shows (z := elementPlace y.position elem) hshows hview hstray
    · rw [← hattr] at hrefers
      rcases inside_refers hrefers hz with rfl | ⟨elem, ht, rfl⟩
      · exact not_strays_of_default hview hstray
      · exact not_strays_of_default (z := elementPlace y.position elem) hview hstray

/-- The subject is a collection with a view of its own, which its values are seen under. Loading
    does not look at the elements of a collection, so whether they have its view is open. -/
def CarriesView (v : Validation) (s : Subject) : Prop :=
  s.view.isSome ∧ ∃ r view elem, v.Describes s r view ∧ CollectionOf r.type elem

/-- What the view of an object shows does not stray, so what strays is in a collection. The view of
    a collection is handed to its elements, and whether they have it is what loading does not
    check. -/
theorem carriesView_of_strays (hviews : v.registry.Viewable) (hd : v.Declared s)
    (hz : v.Looks s z) (h : v.Strays z f) : v.CarriesView s := by
  have hsome : s.view.isSome := by
    by_contra hnone
    have := view_eq_none_of_looks (Option.not_isSome_iff_eq_none.mp hnone) hz
    simpa [this] using h.isSome_view
  obtain ⟨y, hy, hinside⟩ := hz
  cases hy with
  | element hdescribes ht => exact ⟨hsome, _, _, _, hdescribes, ht⟩
  | field hdescribes ht hx hy =>
    -- A field of a result stands in one of its views, and the tags of all views were checked when
    -- the design was loaded.
    exfalso
    obtain ⟨⟨t, hget, hr⟩, hview⟩ := hdescribes
    rw [Registry.get_eq_ok] at hget
    obtain ⟨_, hshown, hdeclared⟩ := exists_shownView hd hget
    obtain ⟨w, hw, rfl⟩ := hdeclared hsome
    rw [hshown] at hview
    cases hview
    obtain ⟨va, hva, hx⟩ := List.mem_filterMap.mp hx
    obtain ⟨a, ha, rfl⟩ := Option.map_eq_some_iff.mp hx
    obtain ⟨a', ha', htags⟩ := hviews.tags _ (Registry.mem_types_of_find? hget).1 _
      (Registry.fields?_eq_some.mpr ⟨_, hr, ht⟩) w hw va hva
    rw [ha] at ha'
    cases ha'
    exact not_strays_of_field hy hinside htags h

end Validation

namespace Design

variable {d : Design} {r : ValidationRequest} {isPattern : String → Bool}

/-! ## Requests -/

/-- The validators of a request, under a given context. -/
def validator (d : Design) (context : Context) : Validation :=
  { scope := d.scope, context, reporting := d.reporting }

/-- A request that was checked is for a known type, under a view that it has and in a known
    context. -/
theorem subject_of_checkValidation {index : Nat} (h : d.checkValidation index r = .ok ()) :
    ∃ t context root, d.registry.find? r.type = some t ∧ d.context? r.context = some context ∧
      (d.validator context).subject r.type r.view = .ok root := by
  unfold checkValidation at h
  simp only [except_bind_eq_ok] at h
  obtain ⟨⟨⟩, htype, ⟨⟩, hcontext, h⟩ := h
  obtain ⟨t, ht⟩ := find?_of_checkKnown htype
  obtain ⟨context, hcontext⟩ := context_of_checkContext hcontext
  refine ⟨t, context, ?_⟩
  cases hview : r.view with
  | none => exact ⟨_, ht, hcontext, rfl⟩
  | some view =>
    rw [hview] at h
    simp only [except_bind_eq_ok, located_eq_ok] at h
    obtain ⟨w, hw, -⟩ := h
    exact ⟨_, ht, hcontext, except_bind_eq_ok.mpr ⟨w, hw, rfl⟩⟩

/-- Each request of a design that was checked has been checked by itself. -/
theorem validation_of_check (h : d.check isPattern = .ok ()) (hr : r ∈ d.validations) :
    ∃ index, d.checkValidation index r = .ok () := by
  unfold check at h
  simp only [except_bind_eq_ok] at h
  obtain ⟨⟨⟩, -, ⟨⟩, -, ⟨⟩, -, ⟨⟩, -, hvalidations⟩ := h
  exact checkEach_eq_ok hvalidations r hr

/-- The validators that a request asks for can be built, unless a collection carries a view that it
    declares to a value of a type without that view; and that is the one fault there can be. Only
    collections of results carry a view to values that nobody has compared it with: a field has its
    tag checked when the design is loaded. -/
theorem load_compileValidation (doc : Document) (d : Design) (h : load doc isPattern = .ok d)
    (r : ValidationRequest) (hr : r ∈ d.validations) :
    ∃ context root, d.context? r.context = some context ∧
      (d.validator context).subject r.type r.view = .ok root ∧
      ((∃ funcs, d.compileValidation r = .ok funcs) ↔
        ∀ s z f, ReflTransGen (d.validator context).Delegates root s →
          (d.validator context).CarriesView s → (d.validator context).Looks s z →
          ¬ (d.validator context).Strays z f) ∧
      ∀ why, d.compileValidation r = .error why →
        ∃ type view, why = .fault (.unknownView type view) := by
  have hcheck := check_of_load h
  have hsound := (consistent_of_check hcheck).sound
  obtain ⟨index, hrequest⟩ := validation_of_check hcheck hr
  obtain ⟨t, context, root, ht, hcontext, hsubject⟩ := subject_of_checkValidation hrequest
  have hroot := declared_of_subject hsubject
  have hcompile : d.compileValidation r =
      ((d.validator context).compileAll r.type r.view).settle.mapError .fault := by
    unfold compileValidation requireContext
    rw [hcontext]
    rfl
  have hfaults := compileAll_failsOnly (v := d.validator context) hsound rfl hroot
    ((type_of_subject hsubject).symm ▸ ht) hsubject
  have hsettle := hfaults.settle (compileAll_listed _ _ _).1
  rw [hcompile]
  refine ⟨context, root, hcontext, hsubject, ?_, fun why hwhy => ?_⟩
  · simp only [mapError_eq_ok, Walk.settle_eq_ok]
    rw [exists_compileAll_iff (v := d.validator context) hsound rfl ht hsubject]
    -- Every subject below the root was declared by the one that it was reached from, so the
    -- condition may ask for the ones that carry views only.
    constructor
    · exact fun hno s z f hs _ hz hstray => hno f ⟨s, z, hs, hz, hstray⟩
    · intro hno f hstray
      obtain ⟨s, z, hs, hz, hstray⟩ := hstray
      have hcarries := carriesView_of_strays (v := d.validator context) (viewable_of_check hcheck)
        (hroot.reached hs) hz hstray
      exact hno s z f hs hcarries hz hstray
  · rcases hsettle with ⟨funcs, hfuncs⟩ | ⟨f, hf, hstray⟩
    · rw [hfuncs] at hwhy
      cases hwhy
    · rw [hf] at hwhy
      cases hwhy
      obtain ⟨s, z, -, -, hstray⟩ := hstray
      cases hstray
      exact ⟨_, _, rfl⟩

/-- The validators of a menu, seen under its tiny view. -/
def menuRequest : ValidationRequest := { type := "Menu", view := some "tiny" }

/-- A menu is a collection of dishes that declares a view of its own. -/
def menuDocument (dish : UserType) : Document where
  types := [
    dish,
    { id := "Menu", name := "Menu", kind := .result
      definition := { type := .array (.user "Dish") }
      views := [{ name := "tiny", attributes := [] }] }]
  validations := [menuRequest]

/-- A dish with a view of the same name. -/
def tinyDish : UserType where
  id := "Dish"
  name := "Dish"
  kind := .result
  definition := {
    type := .object [
      ("name", { type := .primitive .string, rules := { minLength := some 1 } }),
      ("side", .user "Dish")] }
  views := [{ name := "tiny", attributes := [.name "name", .tagged "side" (some "tiny")] }]

/-- The menu of dishes that have a tiny view, too: its validators are built. With the view added to
    the dish nothing strays any more, and the request gives the functions that it should. -/
theorem load_compileValidation_menu : ∃ d, load (menuDocument tinyDish) = .ok d ∧
    menuRequest ∈ d.validations ∧ (∃ funcs, d.compileValidation menuRequest = .ok funcs) ∧
    ∃ context root, d.context? menuRequest.context = some context ∧
      (d.validator context).subject menuRequest.type menuRequest.view = .ok root ∧
      ((∃ funcs, d.compileValidation menuRequest = .ok funcs) ↔
        ∀ s z f, ReflTransGen (d.validator context).Delegates root s →
          (d.validator context).CarriesView s → (d.validator context).Looks s z →
          ¬ (d.validator context).Strays z f) ∧
      ∀ why, d.compileValidation menuRequest = .error why →
        ∃ type view, why = .fault (.unknownView type view) := by
  obtain ⟨d, h⟩ : ∃ d, load (menuDocument tinyDish) = .ok d := ⟨_, rfl⟩
  have hr : menuRequest ∈ d.validations := by
    cases h
    exact List.mem_singleton_self _
  have hcompiles : ∃ funcs, d.compileValidation menuRequest = .ok funcs := by
    cases h
    exact ⟨_, rfl⟩
  exact ⟨d, h, hr, hcompiles, load_compileValidation _ d h menuRequest hr⟩

/-- A dish that has its default view only. -/
def plainDish : UserType where
  id := "Dish"
  name := "Dish"
  kind := .result
  definition := { type := .object [("name", { type := .primitive .string })] }

/-- The menu carries its view to dishes without it: the design is loaded, and its validators are not
    built. -/
theorem menu_view_unknown : ∃ d, load (menuDocument plainDish) = .ok d ∧
    menuRequest ∈ d.validations ∧
    d.compileValidation menuRequest = .error (.fault (.unknownView "Dish" "tiny")) := by
  obtain ⟨d, h⟩ : ∃ d, load (menuDocument plainDish) = .ok d := ⟨_, rfl⟩
  refine ⟨d, h, ?_, ?_⟩
  · cases h
    exact List.mem_singleton_self _
  · cases h
    rfl

end Design
end Shapewright
