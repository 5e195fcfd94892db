import Shapewright.Proofs.Design.Views
import Shapewright.Proofs.Projection.Package

/-!
# Projections of a design that was loaded

The checks of a design see to it that a projection is asked for of a result type with views, and
that the views of objects list what is declared. They do not look at the view of a field that is not
listed itself, being in an object in place, in a plain type or in a collection; nor at what
constructors take of the elements of a collection; nor at the helpers of different views. So a
projection of a design that was loaded fails only where one of these is wrong.

## What the statement assumes

That declarations list a field once and identities have no separator is not checked when a design is
loaded. Both are properties of the text and are decided by looking at it. Whether building the code
comes to an end is the third assumption (`Design.ProjectionEnds`): arrays of named arrays that lead
back to themselves have constructors without end. Where there is code it has ended, so in that
direction nothing is assumed.

## How it is used

The views of the request are found when it is checked, and every other part of the code can fail
only as `Obstructed` lists. The patterns of the design play no part in this, so the theorem holds
for whichever of them the checks accept.
-/

namespace Shapewright

open Projection

namespace Design

variable {d : Design} {r : ProjectionRequest} {f : Fault} {isPattern : String → Bool}

/-! ## What the checks establish -/

/-- Where views show what is declared, they list what is declared. -/
theorem listsDeclared_of_viewable {reg : Registry} (h : reg.Viewable) : ListsDeclared reg := by
  intro t ht v hv w hw va hva
  obtain ⟨hr, htype⟩ := Registry.view_eq_some.mp hv
  obtain ⟨a, ha, -⟩ :=
    h.tags t ht v.fields (Registry.fields?_eq_some.mpr ⟨_, hr, htype⟩) w hw va hva
  exact ⟨a, ha⟩

/-- Each request of a design that was checked has been checked by itself. -/
theorem projection_of_check (h : d.check isPattern = .ok ()) (hr : r ∈ d.projections) :
    ∃ index, d.checkProjection index r = .ok () := by
  unfold check at h
  simp only [except_bind_eq_ok] at h
  obtain ⟨⟨⟩, -, ⟨⟩, -, ⟨⟩, -, ⟨⟩, hprojections, -⟩ := h
  exact checkEach_eq_ok hprojections r hr

/-- A request that was checked is for a known type with views, and in a known context. -/
theorem views_of_checkProjection {index : Nat} (h : d.checkProjection index r = .ok ()) :
    ∃ t context views, d.registry.find? r.type = some t ∧ d.context? r.context = some context ∧
      (d.registry.resultViews r.type).Yields views := by
  unfold checkProjection at h
  simp only [except_bind_eq_ok, located_eq_ok] at h
  obtain ⟨⟨⟩, htype, ⟨⟩, hcontext, views, hviews, -⟩ := h
  obtain ⟨t, ht⟩ := find?_of_checkKnown htype
  obtain ⟨context, hcontext⟩ := context_of_checkContext hcontext
  exact ⟨t, context, views, ht, hcontext, Walk.settle_eq_ok.mp hviews⟩

/-! ## Requests -/

/-- The contexts and names of the projection that a request asks for, under a given context. -/
def projectionOptions (d : Design) (r : ProjectionRequest) (service : Context) :
    ProjectionOptions :=
  { service, package := r.package, reporting := d.reporting }

/-- Building the code of the request comes to an end. What may keep it from ending is a comparison
    of types that hold themselves through collections. -/
def ProjectionEnds (d : Design) (r : ProjectionRequest) : Prop :=
  ∀ service, d.context? r.context = some service →
    (Projection.compile d.registry r.type (d.projectionOptions r service)).Finishes

/-- The request is answered by compiling its type in its context. -/
theorem compileProjection_eq {service : Context} (hservice : d.context? r.context = some service) :
    d.compileProjection r =
      (Projection.compile d.registry r.type (d.projectionOptions r service)).settle.mapError
        .fault := by
  unfold compileProjection requireContext
  rw [hservice]
  rfl

theorem projectionEnds_of_ok {code : ViewPackage} (h : d.compileProjection r = .ok code) :
    d.ProjectionEnds r := by
  intro service hservice
  rw [compileProjection_eq hservice, mapError_eq_ok, Walk.settle_eq_ok] at h
  exact h.finishes

/-- The code for the views of a type is built exactly if nothing is wrong with the projections that
    they lead to and with their constructors. Nothing else can go wrong: what is missing then is a
    view of a type, or something that the library relies on. -/
theorem load_compileProjection (doc : Document) (d : Design) (h : load doc isPattern = .ok d)
    (htidy : d.registry.Tidy) (hsep : Separable d.registry) (r : ProjectionRequest)
    (hr : r ∈ d.projections) (hends : d.ProjectionEnds r) :
    ∃ service views, d.context? r.context = some service ∧
      (d.registry.resultViews r.type).Yields views ∧
      ((∃ code, d.compileProjection r = .ok code) ↔
        ∀ f, ¬ Obstructed d.registry r.type views (d.projectionOptions r service) f) ∧
      ∀ why, d.compileProjection r = .error why → ∃ f, why = .fault f ∧
        Obstructed d.registry r.type views (d.projectionOptions r service) f ∧
        ((∃ type view, f = .unknownView type view) ∨ f.isDefect) := by
  have hcheck := check_of_load h
  -- All that the lemmas about projections ask of the registry is told by the check of the design.
  have hsound := (consistent_of_check hcheck).sound
  have hlists := listsDeclared_of_viewable (viewable_of_check hcheck)
  obtain ⟨index, hrequest⟩ := projection_of_check hcheck hr
  obtain ⟨t, service, views, ht, hservice, hviews⟩ := views_of_checkProjection hrequest
  have hfinishes := hends service hservice
  refine ⟨service, views, hservice, hviews, ?_, fun why hwhy => ?_⟩
  · simp only [compileProjection_eq hservice, mapError_eq_ok, Walk.settle_eq_ok]
    exact exists_compile_iff hsound htidy hsep hlists ht hviews hfinishes
  · have hfaults : (Projection.compile d.registry r.type (d.projectionOptions r service)).FailsOnly
        (Obstructed d.registry r.type views (d.projectionOptions r service)) :=
      compile_failsOnly hsound htidy hsep hlists ht hviews
    rw [compileProjection_eq hservice] at hwhy
    -- The derivation ends, so an error is a fault of the code and none of these is out of fuel.
    rcases hfaults.settle hfinishes with ⟨code, hcode⟩ | ⟨f, hf, hobstructed⟩
    · rw [hcode] at hwhy
      cases hwhy
    · rw [hf] at hwhy
      cases hwhy
      exact ⟨f, rfl, hobstructed, hobstructed.unknownView_or_defect⟩

/-- All views of parcels. -/
def parcelRequest : ProjectionRequest := { type := "Parcel" }

/-- A parcel holds an item in an object in place, where the item is shown under a view. -/
def parcelDocument (view : Option String) : Document where
  types := [
    { id := "Item", name := "Item", kind := .result
      definition := { type := .object [("name", { type := .primitive .string })] } },
    { id := "Parcel", name := "Parcel", kind := .result
      definition := {
        type := .object [
          ("content", {
            type := .object [("item", { type := .user "Item", overrides := { view } })] })] } }]
  projections := [parcelRequest]

/-- Without the tag the code is there, and nothing obstructs it. So the condition can be met by a
    design that was loaded. -/
theorem load_compileProjection_parcel : ∃ d, load (parcelDocument none) = .ok d ∧
    d.registry.Tidy ∧ Separable d.registry ∧ parcelRequest ∈ d.projections ∧
    d.ProjectionEnds parcelRequest ∧ (∃ code, d.compileProjection parcelRequest = .ok code) ∧
    ∃ service views, d.context? parcelRequest.context = some service ∧
      (d.registry.resultViews parcelRequest.type).Yields views ∧
      ((∃ code, d.compileProjection parcelRequest = .ok code) ↔
        ∀ f, ¬ Obstructed d.registry parcelRequest.type views
          (d.projectionOptions parcelRequest service) f) ∧
      ∀ why, d.compileProjection parcelRequest = .error why → ∃ f, why = .fault f ∧
        Obstructed d.registry parcelRequest.type views
          (d.projectionOptions parcelRequest service) f ∧
        ((∃ type view, f = .unknownView type view) ∨ f.isDefect) := by
  have hparcel : ∃ d, load (parcelDocument none) = .ok d ∧ d.registry.Tidy ∧
      Separable d.registry ∧ parcelRequest ∈ d.projections ∧
      ∃ code, d.compileProjection parcelRequest = .ok code := by
    decide +kernel
  obtain ⟨d, h, htidy, hsep, hr, code, hcode⟩ := hparcel
  have hends := projectionEnds_of_ok hcode
  exact ⟨d, h, htidy, hsep, hr, hends, ⟨code, hcode⟩,
    load_compileProjection _ d h htidy hsep parcelRequest hr hends⟩

/-- A fault can be recognised, also where results cannot be compared. -/
instance decidableEqFault {α : Type} (x : Except DesignFault α) (f : Fault) :
    Decidable (x = .error (.fault f)) :=
  match x with
  | .error (.fault g) => decidable_of_iff (g = f) (by simp)
  | .error (.misfit _) => isFalse (by simp)
  | .error (.violation _ _) => isFalse (by simp)
  | .ok _ => isFalse (by simp)

/-- The tag of a field of an object in place is not looked at when a design is loaded, so a view
    that does not exist is found only when the code is built. -/
theorem parcel_view_unknown : ∃ d, load (parcelDocument (some "tiny")) = .ok d ∧
    parcelRequest ∈ d.projections ∧
    d.compileProjection parcelRequest = .error (.fault (.unknownView "Item" "tiny")) := by
  decide +kernel

end Design
end Shapewright
