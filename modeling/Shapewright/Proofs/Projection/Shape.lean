import Shapewright.Proofs.Projection.Conversions
import Shapewright.Proofs.Projection.Finiteness
import Shapewright.Proofs.Projection.Identities

/-!
# The shape of projections

Each type is projected once under each view that it is reached under. The projection of an object
has the fields of the view and what is required of them; that of a collection has the projections of
its elements. Below, everything is as it was, of one kind with what it was made of at every depth,
but for references to structures: these refer to the projections of their types, so that the
projected types refer to each other as the types do.

## Two layers

`Portrays` is about a type and its projection, that is about the first layer, where a view selects.
`Corresponds` is about everything below, where nothing is selected any more. The second is said one
level at a time, and what it says of the next level is again `Image`; with the last part of
`derive_portrays` it can be applied to that, and so to any depth.

## Duplicates in a view

A view may list a field twice. Then it is shown once, where it stands first and as the last of its
members has it. The example has such a view, since it is the one point at which the order of the
fields is not simply that of the view.
-/

namespace Shapewright

open Relation
open Projection.ViewedType (projectedId)

namespace Projection

variable {reg : Registry} {derived : Derived} {a b : Attribute} {view : Option String}
  {k : ViewedType} {t u : UserType} {id : TypeId} {views : List String}

/-- The second attribute corresponds to the first, whose value is shown under the view, and what is
    written below it are images again. -/
structure Corresponds (reg : Registry) (derived : Derived) (a : Attribute) (view : Option String)
    (b : Attribute) : Prop where
  kind : ∃ kind, reg.kind a = .ok kind ∧ derived.registry.kind b = .ok kind
  reference : ∀ id kind, a.userId? = some id → reg.kind a = .ok kind →
    kind = .object ∨ kind = .array ∨ kind = .map → ∃ t, reg.find? id = some t ∧
      derived.Has ⟨id, t.shownUnder view⟩ ∧
      b = a.shownAs (.user (projectedId ⟨id, t.shownUnder view⟩))
  array : ∀ x, a.type = .array x → ∃ y, b.type = .array y ∧ Image reg derived.Has x view y
  map : ∀ key x, a.type = .map key x →
    ∃ y, b.type = .map key y ∧ Image reg derived.Has x view y
  object : ∀ fields, a.type = .object fields →
    ∃ shown, b.type = .object shown ∧ List.Forall₂ (fun x y => y.1 = x.1 ∧
      Image reg derived.Has x.2 x.2.overrides.view y.2) fields shown

/-- The type `u` shows the object or the collection `t` under the view: the fields that the view
    lists, in its order and each once, of which those are required that were, and of a collection
    the elements. -/
structure Portrays (reg : Registry) (derived : Derived) (t u : UserType) (view : String) :
    Prop where
  kind : ∃ kind, (kind = .object ∨ kind = .array ∨ kind = .map) ∧
    reg.kind t.definition = .ok kind ∧ derived.registry.kind u.definition = .ok kind
  object : ∀ v, ObjectView.of? reg t.definition = .ok (some v) → ∃ found w,
    reg.view? t.id view = .ok found ∧
    ObjectView.of? derived.registry u.definition = .ok (some w) ∧
    w.fields.map Prod.fst = ((listed found v).map (·.field)).eraseDups ∧
    (∀ name, w.requires name = true ↔ name ∈ w.fields.map Prod.fst ∧ v.requires name = true) ∧
    ∀ y ∈ w.fields, ∃ va, IsLast va (listed found v) ∧ va.field = y.1 ∧
      ∃ a, v.field? y.1 = some a ∧ Image reg derived.Has a (va.view?.or a.overrides.view) y.2
  collection : reg.kind t.definition ≠ .ok .object →
    Image reg derived.Has t.definition (some view) u.definition

/-- An image corresponds to what it is the image of. What is added is that references to projections
    lead to types of the registry that was derived. -/
theorem Image.corresponds (hx : Extends reg derived) (h : Image reg derived.Has a view b) :
    Corresponds reg derived a view b where
  kind := by
    obtain ⟨kind, hk⟩ := h.exists_kind
    obtain ⟨kind', hk', hb⟩ := (h.faces hx).kind
    obtain rfl := Except.ok.inj ((hx.grows.kind hk).symm.trans hk')
    exact ⟨kind, hk, hb⟩
  reference := fun _ _ hid hk hs => h.of_user hid hk hs
  array := fun _ ht => h.of_array ht
  map := fun _ _ ht => h.of_map ht
  object := by
    intro fields ht
    obtain ⟨shown, htype, hnames, himages⟩ := h.of_object ht
    refine ⟨shown, htype, List.forall₂_iff_get.mpr ⟨?_, fun i hi hi' => ?_⟩⟩
    · simpa using (congrArg List.length hnames).symm
    · have hname := congrArg (·[i]?) hnames
      simp only [List.getElem?_map, List.getElem?_eq_getElem hi, List.getElem?_eq_getElem hi',
        Option.map_some, Option.some.injEq] at hname
      exact ⟨hname, himages i _ _ (List.getElem?_eq_getElem hi) (List.getElem?_eq_getElem hi')⟩

/-- What is projected is portrayed. All that is said of a projected type follows from how its
    definition came about. -/
theorem Defines.portrays {view : String} (hx : Extends reg derived)
    (h : Defines reg derived.Has t view u.definition) : Portrays reg derived t u view := by
  generalize hdef : u.definition = d at h
  cases h with
  | @object v found shown hv hfound hp =>
    have hresolve : derived.registry.resolve u.definition = .ok u.definition :=
      Registry.resolve_of_userId?_eq_none (by rw [hdef]; rfl)
    have hkind := Registry.kind_of_view hv
    refine ⟨⟨.object, .inl rfl, hkind, ?_⟩, fun v' hv' => ?_, fun hne => absurd hkind hne⟩
    · rw [Registry.kind_eq_of_resolve hresolve, hdef]
    · obtain rfl := Option.some.inj (Except.ok.inj (hv.symm.trans hv'))
      refine ⟨found, ⟨u.definition, shown⟩, hfound, ?_, hp.order, fun name => ?_, hp.last⟩
      · exact Registry.view_eq_some.mpr ⟨hresolve, by rw [hdef]⟩
      · rw [hp.names name]
        simp [ObjectView.requires, Attribute.requires, hdef]
  -- A collection has no fields to be listed, and its image is all that there is to say.
  | collection hk hc himage =>
    subst hdef
    obtain ⟨kind, hkind, hkind'⟩ := (himage.corresponds hx).kind
    obtain rfl := Except.ok.inj (hk.symm.trans hkind)
    refine ⟨⟨_, .inr hc, hk, hkind'⟩, fun v hv => ?_, fun _ => himage⟩
    obtain rfl := Except.ok.inj (hk.symm.trans (Registry.kind_of_view hv))
    simp at hc

/-- A derivation ends. Where it succeeds, every type and view that the request leads to has one
    projection, under an identity of its own; each of them shows its type, and at every depth
    whatever is shown corresponds to what it was made of. -/
theorem derive_portrays (reg : Registry) (hsep : Separable reg) (id : TypeId)
    (views : List String) :
    (derive reg id views).Finishes ∧ ∀ derived, (derive reg id views).Yields derived →
      (derived.ids.map Prod.fst).Nodup ∧ Fresh reg derived ∧
      (∀ k, derived.Has k ↔ ∃ view ∈ views, ReflTransGen (RefersTo reg) ⟨id, view⟩ k) ∧
      (∀ e ∈ derived.ids, ∃ t u, reg.find? e.1.type = some t ∧
        derived.registry.find? e.2 = some u ∧ Portrays reg derived t u e.1.view) ∧
      ∀ a view b, Image reg derived.Has a view b → Corresponds reg derived a view b := by
  refine ⟨finishes_derive reg id views, fun derived h => ?_⟩
  obtain ⟨hx, -⟩ := extends_of_derive hsep h
  refine ⟨nodup_of_derive h, fresh_of_separable h hsep, fun k => derived_iff hsep h,
    fun e he => ?_, fun a view b himage => himage.corresponds hx⟩
  obtain ⟨t, u, ht, hu, hd⟩ := hx.defined e.1 (List.mem_map_of_mem he)
  exact ⟨t, u, ht, hx.ids e he ▸ hu, hd.portrays hx⟩

/-- Authors are shown with their books, and books with their authors under a view of their own. -/
def authors : Registry where
  types := [
    { id := "Author", name := "Author", kind := .result
      definition := {
        type := .object [("name", { type := .primitive .string }),
          ("books", { type := .array (.user "Book") }), ("born", { type := .primitive .int })]
        rules := { required := ["name", "born"] } }
      views := [
        { name := "default", attributes := [.name "books", .name "name", .name "books"] },
        { name := "link", attributes := [.name "name"] }] },
    { id := "Book", name := "Book", kind := .result
      definition := {
        type := .object [
          ("author", { type := .user "Author", overrides := { view := some "link" } }),
          ("sequels", { type := .map { type := .primitive .string } (.user "Book") })] }
      views := [{ name := "default", attributes := [.name "author", .name "sequels"] }] }]
  nodup := by decide

/-- The three projections that authors lead to. Their books are listed twice in the default view,
    and link back to authors under the other one. -/
theorem derive_portrays_authors : Separable authors ∧
    (derive authors "Author" ["default"]).Finishes ∧
    ∃ derived, (derive authors "Author" ["default"]).Yields derived ∧
      derived.ids = [(⟨"Author", "default"⟩, "Author#default"),
        (⟨"Book", "default"⟩, "Book#default"), (⟨"Author", "link"⟩, "Author#link")] ∧
      (derived.ids.map Prod.fst).Nodup ∧ Fresh authors derived ∧
      (∀ k, derived.Has k ↔
        ∃ view ∈ ["default"], ReflTransGen (RefersTo authors) ⟨"Author", view⟩ k) ∧
      (∀ e ∈ derived.ids, ∃ t u, authors.find? e.1.type = some t ∧
        derived.registry.find? e.2 = some u ∧ Portrays authors derived t u e.1.view) ∧
      ∀ a view b, Image authors derived.Has a view b → Corresponds authors derived a view b := by
  have hsep : Separable authors := by decide
  obtain ⟨hfinishes, hshape⟩ := derive_portrays authors hsep "Author" ["default"]
  obtain ⟨derived, h, hids⟩ : ∃ derived, (derive authors "Author" ["default"]).Yields derived ∧
      derived.ids = [(⟨"Author", "default"⟩, "Author#default"),
        (⟨"Book", "default"⟩, "Book#default"), (⟨"Author", "link"⟩, "Author#link")] := by
    decide +kernel
  exact ⟨hsep, hfinishes, derived, h, hids, hshape derived h⟩

end Projection
end Shapewright
