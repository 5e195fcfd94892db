import Shapewright.Projection.Package
import Shapewright.Proofs.Projection.Constructors
import Shapewright.Proofs.Validation.Views

/-!
# What can be wrong with the code of a projection

The code for the views of a type is there exactly if all the projections can be derived that they
lead to, constructors can be written down to the innermost elements, and no two helpers of the
constructors clash. The declarations of projected types, the conversions and the validators never
fail, whatever the types and views are.

## The parts

What is compiled for the views of a type has five parts: the type that wraps the views, the
projected types, the constructors, the functions that select a constructor by the name of the view,
and the validators. Four of them only look up what was derived (`Serves.exists_wrapperType` and
those that follow). The validators check values of projected types, which have no views, and nothing
can stray without a view. So the constructors are all that is left.

## From a registry to its code

`Obstructed` says what is wrong in terms of the registry and the views that are asked for. Its
second case speaks of the projections that the views lead to, which are the ones that were derived
(`derived_iff`); this is how the statement about the search and the one about the code are put
together.
-/

namespace Shapewright

open Relation
open Projection.ViewedType (projectedId)

namespace Projection

variable {reg : Registry} {derived : Derived} {p : Projector} {id : TypeId} {view : String}
  {views : List String} {t : UserType} {helpers : List Helper} {f : Fault} {H : Helper → Prop}

section

variable (h : Serves reg derived p)
include h

/-! ## Declarations -/

theorem Serves.exists_wrapperType (ht : reg.find? id = some t) :
    ∃ decl, p.wrapperType id = .ok decl := by
  obtain ⟨name, hname⟩ := h.exists_name (h.kind_of_known ht)
  exact ⟨_, except_bind_eq_ok.mpr ⟨name, hname, rfl⟩⟩

/-- There is a declaration of each projected type. The registry that was derived has the type, and
    its name is in the scope. -/
theorem Serves.exists_typeDecl {e : ViewedType × TypeId} (he : e ∈ derived.ids) :
    ∃ decl, p.typeDecl e.2 = .ok decl := by
  have hk : derived.Has e.1 := List.mem_map_of_mem he
  have hsound := extends_sound h.grown h.sound
  obtain ⟨_, u, -, hu, -⟩ := h.grown.defined _ hk
  obtain ⟨name, hname⟩ := h.exists_name (h.kind_of_has hk)
  obtain ⟨type, htype⟩ := Scope.exists_typeRef Projector.localContext
    (hsound u (Registry.mem_types_of_find? hu).1)
  rw [h.grown.ids e he]
  unfold Projector.typeDecl
  simp only [except_bind_eq_ok, except_pure_eq_ok]
  exact ⟨_, u, h.registry ▸ Registry.get_eq_ok.mpr hu, type, h.scope ▸ htype, name, hname, rfl⟩

/-- The functions that select a view can be written, if the views have projections. They dispatch on
    the name of the view and need names only. -/
theorem Serves.exists_viewedConstructors (ht : reg.find? id = some t)
    (hviews : ∀ view ∈ views, derived.Has ⟨id, view⟩) :
    ∃ funcs, p.viewedConstructors id views = .ok funcs := by
  obtain ⟨name, hname⟩ := h.exists_name (h.kind_of_known ht)
  obtain ⟨type, htype⟩ := h.exists_userRef p.service (h.kind_of_known ht)
  have hwrap : ∀ view ∈ views, ∃ x, p.wrapCase id view = .ok x := by
    intro view hview
    obtain ⟨func, hfunc⟩ := h.exists_toViewName (hviews view hview)
    unfold Projector.wrapCase
    simp only [except_bind_eq_ok, except_pure_eq_ok]
    exact ⟨_, _, h.projectedId_of_has (hviews view hview), func, hfunc, rfl⟩
  have hunwrap : ∀ view ∈ views, ∃ x, p.unwrapCase id view = .ok x := by
    intro view hview
    obtain ⟨func, hfunc⟩ := h.exists_fromViewName view ht
    obtain ⟨type, htype⟩ := h.exists_userRef p.projected (h.kind_of_has (hviews view hview))
    unfold Projector.unwrapCase
    simp only [except_bind_eq_ok, except_pure_eq_ok]
    exact ⟨_, _, h.projectedId_of_has (hviews view hview), type, htype, func, hfunc, rfl⟩
  obtain ⟨wrap, hwrap⟩ := exists_mapM_eq_ok hwrap
  obtain ⟨unwrap, hunwrap⟩ := exists_mapM_eq_ok hunwrap
  unfold Projector.viewedConstructors
  simp only [except_bind_eq_ok, except_pure_eq_ok]
  exact ⟨_, name, hname, type, htype, wrap, hwrap, unwrap, hunwrap, rfl⟩

/-! ## Validators -/

/-- The validators of projected types can always be built: they check values without views. Straying
    is a matter of views, so a walk that has none cannot go wrong by it. -/
theorem Serves.allValidators_failsOnly {v : Validation} (hv : v.scope = p.scope) :
    ∀ {views : List String} {funcs : List Func}, (∀ view ∈ views, derived.Has ⟨id, view⟩) →
      (p.allValidators v id funcs views).FailsOnly fun _ => False := by
  -- The validators are built over the registry of the derivation, where each projection is a type
  -- like any other.
  have hregistry : v.registry = derived.registry := by
    rw [Validation.registry, hv, h.registry]
  have hsound : v.registry.Sound := hregistry ▸ extends_sound h.grown h.sound
  have hscope : v.scope = .ofRegistry v.registry := by
    rw [hv, h.scope, hregistry]
  intro views
  induction views with
  | nil =>
    intro funcs _
    rw [Projector.allValidators]
    exact Walk.failsOnly_pure
  | cons view rest ih =>
    intro funcs hviews
    rw [List.forall_mem_cons] at hviews
    obtain ⟨hview, hrest⟩ := hviews
    obtain ⟨_, u, -, hu, -⟩ := h.grown.defined _ hview
    rw [← hregistry] at hu
    have htype := h.exists_userRef Projector.localContext (h.kind_of_has hview)
    rw [Projector.allValidators]
    simp only [h.projectedId_of_has hview, Walk.liftM_ok_bind]
    refine Walk.failsOnly_bind.mpr
      ⟨Validation.compileAll_none_failsOnly hsound hscope hu, fun more _ => ?_⟩
    refine Walk.failsOnly_bind.mpr ⟨Walk.failsOnly_of_ok htype, fun type _ => ?_⟩
    exact Walk.failsOnly_bind.mpr ⟨ih hrest, fun _ _ => Walk.failsOnly_pure⟩

/-! ## Constructors -/

/-- Each view has its constructors, and all of them share their helpers. The helpers are handed on
    from view to view, and a clash may be between two views. -/
theorem Serves.allConstructors_settles (ht : reg.find? id = some t) :
    ∀ {views : List String} {funcs : List Func} {helpers : List Helper} {H : Helper → Prop},
      Helper.Collected H helpers →
      Settles (p.allConstructors id funcs helpers views)
        (fun f => ∃ view ∈ views, Unconstructible reg derived.Has id view f)
        fun k => H k ∨ ∃ view ∈ views, Helps reg p id view k := by
  intro views
  induction views with
  | nil =>
    intro funcs helpers H hcollected
    rw [Projector.allConstructors]
    refine ⟨Walk.failsOnly_pure, fun a helpers' hyields => ?_⟩
    cases Walk.yields_pure.mp hyields
    exact ⟨by simp, hcollected.congr (by simp)⟩
  | cons view rest ih =>
    intro funcs helpers H hcollected
    rw [Projector.allConstructors]
    have hfirst : Settles (p.constructors id view helpers)
        (Unconstructible reg derived.Has id view) fun k => H k ∨ Helps reg p id view k :=
      h.constructorsWithin_settles ⟨t, ht⟩ hcollected
    -- The helpers of one view are the start for the next, so a clash may be between two views.
    refine Settles.congr (hfirst.bind
      (M := fun f => ∃ view ∈ rest, Unconstructible reg derived.Has id view f)
      (K := fun k => (H k ∨ Helps reg p id view k) ∨ ∃ view ∈ rest, Helps reg p id view k)
      (fun k hk => .inl hk) fun more helpers' hcollected' => ih hcollected')
      (fun f => by simp) (fun k => by simp [or_assoc])

/-! ## The code for the views of a type -/

end

/-- What is wrong with the constructors of a type under some views, where the projections `P` are
    there. -/
def Unassembled (reg : Registry) (P : ViewedType → Prop) (p : Projector) (id : TypeId)
    (views : List String) (f : Fault) : Prop :=
  (∃ view ∈ views, Unconstructible reg P id view f) ∨
    Helper.Clash (fun helper => ∃ view ∈ views, Helps reg p id view helper) f

/-- The code for the views of a type, once the projections are there. -/
def package (p : Projector) (v : Validation) (id : TypeId) (views : List String) :
    Walk ViewPackage := do
  let wrapper ← p.wrapperType id
  let projectedTypes ← p.ids.mapM fun (_, pid) => (p.typeDecl pid : Except Fault TypeDecl)
  let (constructors, helpers) ← p.allConstructors id [] [] views
  let viewed ← p.viewedConstructors id views
  let (validators, cases) ← p.allValidators v id [] views
  let name ← p.scope.name id
  let dispatch := v.viewed name (.pointer (.named none name)) cases
  return { types := wrapper :: projectedTypes, constructors := constructors ++ viewed, helpers,
           validators := dispatch :: validators }

section

variable (h : Serves reg derived p) (ht : reg.find? id = some t)
include h ht

theorem Serves.constructors_settle :
    Settles (p.allConstructors id [] [] views)
      (fun f => ∃ view ∈ views, Unconstructible reg derived.Has id view f)
      fun k => ∃ view ∈ views, Helps reg p id view k :=
  (h.allConstructors_settles ht .nil).congr (fun _ => Iff.rfl) fun k => by simp

/-- Once the projections are there, nothing but the constructors can fail. Types and validators are
    always there. -/
theorem Serves.package_failsOnly {v : Validation} (hv : v.scope = p.scope)
    (hviews : ∀ view ∈ views, derived.Has ⟨id, view⟩) :
    (package p v id views).FailsOnly (Unassembled reg derived.Has p id views) := by
  unfold package
  refine Walk.failsOnly_bind.mpr
    ⟨Walk.failsOnly_of_ok (h.exists_wrapperType ht), fun wrapper _ => ?_⟩
  refine Walk.failsOnly_bind.mpr ⟨Walk.failsOnly_mapM fun e he => ?_, fun types _ => ?_⟩
  · exact Walk.failsOnly_of_ok (h.exists_typeDecl (h.ids ▸ he))
  refine Walk.failsOnly_bind.mpr ⟨(h.constructors_settle ht).fails, fun x _ => ?_⟩
  refine Walk.failsOnly_bind.mpr
    ⟨Walk.failsOnly_of_ok (h.exists_viewedConstructors ht hviews), fun viewed _ => ?_⟩
  refine Walk.failsOnly_bind.mpr
    ⟨(h.allValidators_failsOnly hv hviews).mono fun _ hf => hf.elim, fun y _ => ?_⟩
  exact Walk.failsOnly_bind.mpr ⟨Walk.failsOnly_of_ok (h.exists_name (h.kind_of_known ht)),
    fun _ _ => Walk.failsOnly_pure⟩

/-- Where there is code, all constructors could be written down. -/
theorem Serves.not_unassembled {v : Validation} {code : ViewPackage}
    (hcode : (package p v id views).Yields code) : ¬ Unassembled reg derived.Has p id views f := by
  unfold package at hcode
  simp only [Walk.yields_bind] at hcode
  obtain ⟨_, -, _, -, x, hconstructors, -⟩ := hcode
  obtain ⟨hno, hcollected⟩ := (h.constructors_settle ht).yields x.1 x.2 hconstructors
  exact fun hf => hf.elim (hno f) hcollected.not_clash

end

/-- What the declarations for the views of a type have in common. -/
def Derived.projector (derived : Derived) (options : ProjectionOptions) : Projector where
  scope := .ofRegistry derived.registry
  ids := derived.ids
  service := options.service
  projected := Context.projected options.package

/-- The code is put together once the views are known and their projections derived. -/
theorem compile_eq (reg : Registry) (id : TypeId) (options : ProjectionOptions) :
    compile reg id options = (do
      let views ← reg.resultViews id
      let derived ← derive reg id views
      let p := derived.projector options
      package p { scope := p.scope, context := Projector.localContext,
                  reporting := options.reporting } id views) := rfl

/-- The projections of the type under the views lead to this one. Several of the views can lead to
    the same projection. -/
def Leads (reg : Registry) (id : TypeId) (views : List String) (k : ViewedType) : Prop :=
  ∃ view ∈ views, ReflTransGen (RefersTo reg) ⟨id, view⟩ k

/-- What is wrong with the code for the views of a type: a projection that they lead to cannot be
    derived, or constructors cannot be written down. -/
inductive Obstructed (reg : Registry) (id : TypeId) (views : List String)
    (options : ProjectionOptions) (f : Fault) : Prop
  | underivable {view : String} (hview : view ∈ views) (h : Underivable reg ⟨id, view⟩ f) :
      Obstructed reg id views options f
  | unassembled {derived : Derived} (hderived : (derive reg id views).Yields derived)
      (h : Unassembled reg (Leads reg id views) (derived.projector options) id views f) :
      Obstructed reg id views options f

/-- What is wrong is that a type has no view, or that a promise of the library is broken. So a
    request that fails tells the user about a view, or is a case for the maintainers. -/
theorem Obstructed.unknownView_or_defect {options : ProjectionOptions}
    (h : Obstructed reg id views options f) :
    (∃ type view, f = .unknownView type view) ∨ f.isDefect := by
  cases h with
  | underivable _ h =>
    obtain ⟨k, -, hk⟩ := h
    cases hk with
    | view => exact .inl ⟨_, _, rfl⟩
    | plain => exact .inr rfl
  | unassembled _ h =>
    rcases h with ⟨view, -, h⟩ | h
    · cases h with
      | nameless => exact .inr rfl
      | unprojected => exact .inl ⟨_, _, rfl⟩
    · cases h
      exact .inr rfl

section

variable {options : ProjectionOptions} (hs : reg.Sound) (htidy : reg.Tidy) (hsep : Separable reg)
  (hlists : ListsDeclared reg) (ht : reg.find? id = some t)
include hs htidy hsep hlists ht

omit hlists ht in
/-- What was derived is what the views lead to, and declarations can be made of it. -/
theorem serves_of_derive (h : (derive reg id views).Yields derived) :
    Serves reg derived (derived.projector options) ∧ derived.Has = Leads reg id views ∧
      ∀ view ∈ views, derived.Has ⟨id, view⟩ := by
  obtain ⟨hx, hhas⟩ := extends_of_derive hsep h
  exact ⟨⟨rfl, rfl, hx, hs, htidy⟩, funext fun k => propext (derived_iff hsep h), hhas⟩

variable (hviews : (reg.resultViews id).Yields views)
include hviews

/-- The code for the views of a type fails only where something is wrong with it. What can be wrong
    is named by `Obstructed`, in terms of the registry and not of the run. -/
theorem compile_failsOnly :
    (compile reg id options).FailsOnly (Obstructed reg id views options) := by
  rw [compile_eq]
  refine Walk.failsOnly_bind.mpr ⟨fun f hf => absurd hviews (Walk.Fails.not_yields ⟨f, hf⟩),
    fun views' hviews' => ?_⟩
  obtain rfl := hviews.unique hviews'
  refine Walk.failsOnly_bind.mpr ⟨(derive_failsOnly hs hlists ht).mono ?_,
    fun derived hderived => ?_⟩
  · exact fun f ⟨view, hview, hf⟩ => .underivable hview hf
  · obtain ⟨hserves, hleads, hhas⟩ := serves_of_derive hs htidy hsep hderived
    exact (hserves.package_failsOnly ht rfl hhas).mono
      fun f hf => .unassembled hderived (hleads ▸ hf)

omit hlists in
/-- Where there is code for the views of a type, nothing is wrong with it. This is the converse of
    `compile_failsOnly`, and both together are the equivalence. -/
theorem not_obstructed_of_compile {code : ViewPackage} (h : (compile reg id options).Yields code) :
    ¬ Obstructed reg id views options f := by
  rw [compile_eq] at h
  obtain ⟨views', hviews', h⟩ := Walk.yields_bind.mp h
  obtain rfl := hviews.unique hviews'
  obtain ⟨derived, hderived, h⟩ := Walk.yields_bind.mp h
  obtain ⟨hserves, hleads, hhas⟩ := serves_of_derive hs htidy hsep hderived
  intro hf
  cases hf with
  | underivable hview hf => exact hserves.grown.not_underivable (hhas _ hview) hf
  | unassembled hderived' hf =>
    obtain rfl := hderived.unique hderived'
    exact hserves.not_unassembled ht h (hleads ▸ hf)

/-- There is code for the views of a type exactly if nothing is wrong with it, where the walks over
    the types come to an end. -/
theorem exists_compile_iff (hfinishes : (compile reg id options).Finishes) :
    (∃ code, (compile reg id options).Yields code) ↔ ∀ f, ¬ Obstructed reg id views options f := by
  constructor
  · exact fun ⟨_, h⟩ _ => not_obstructed_of_compile hs htidy hsep ht hviews h
  · intro hno
    rcases Walk.finishes_iff.mp hfinishes with ⟨f, hf⟩ | hyields
    · exact absurd (compile_failsOnly hs htidy hsep hlists ht hviews f hf) (hno f)
    · exact hyields

end

end Projection
end Shapewright
