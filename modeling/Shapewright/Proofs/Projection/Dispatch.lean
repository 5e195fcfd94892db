import Shapewright.Proofs.Projection.Package
import Shapewright.Proofs.Validation.Names

/-!
# Choosing constructors by view

For each view of a type, two functions choose constructors by their names, and each name is only
given to one constructor: the first that asks for it. The constructors to the views and those back
are named by different rules, so that one name can be made for two of them. Then the second is not
there, and the first is called in its place, with a value of another type. If no two constructors
are namesakes, every view has the constructors that were made for it.

## Routes

A constructor leads from a type to one of its projections or back, which is a `Route`, and a
function is a constructor for a route if it has the name, the parameter and the result that belong
there (`Travels`). The routes for which functions are made do not depend on the code: they are those
of the types down to the innermost elements, under each of the views (`Requested`).

## Losing a function

All functions are collected in a list in which a name is used once (`appendNew`). So a function that
was made may be missing, but its name never is. If no other route has the name, the function that
has it was made for this route, and the rest of the proof is the comparison of names: four ways in
which two routes get one name, and no more (`eq_or_namesakes`).

## Cases of a switch

The two functions that choose have one case for each view. That a view has no other case than its
own uses that the values of a case determine the view (`viewValues_injective`).
-/

namespace Shapewright

open Relation
open Projection.ViewedType (projectedId)

namespace Projection

/-- A constructor: of a type under a view, or back from there. The name of the function is made from
    the route, and different routes may share one. -/
inductive Route where
  | toView (k : ViewedType)
  | fromView (k : ViewedType)

/-- The type and the view at the ends of the route. -/
def Route.viewed : Route → ViewedType
  | .toView k => k
  | .fromView k => k

/-- The name that is made for the constructor. -/
def Route.name (p : Projector) : Route → Except Fault String
  | .toView k => p.toViewName k.type k.view
  | .fromView k => p.fromViewName k.type k.view

/-- The function is a constructor for the route: it has the name of the route, and it takes and
    gives what stands at its ends. -/
inductive Travels (p : Projector) : Route → Func → Prop
  | toView {k : ViewedType} {func : Func} {pid : TypeId} {full shown : TypeRef}
      (hname : p.toViewName k.type k.view = .ok func.name)
      (hid : p.projectedId k.type k.view = .ok pid) (hfull : p.userRef p.service k.type = .ok full)
      (hshown : p.userRef p.projected pid = .ok shown)
      (hparams : func.params = [⟨some "res", full⟩])
      (hresults : func.results = [⟨none, shown⟩]) : Travels p (.toView k) func
  | fromView {k : ViewedType} {func : Func} {pid : TypeId} {full shown : TypeRef}
      (hname : p.fromViewName k.type k.view = .ok func.name)
      (hid : p.projectedId k.type k.view = .ok pid) (hfull : p.userRef p.service k.type = .ok full)
      (hshown : p.userRef p.projected pid = .ok shown)
      (hparams : func.params = [⟨some "vres", shown⟩])
      (hresults : func.results = [⟨none, full⟩]) : Travels p (.fromView k) func

/-- A constructor is made for the route: its view is one of the type, and its type is on the way to
    the innermost elements. -/
def Requested (p : Projector) (id : TypeId) (views : List String) (r : Route) : Prop :=
  r.viewed.view ∈ views ∧ ReflTransGen (Encloses p.scope.registry) id r.viewed.type

/-- One name is made for both constructors. Names are texts that are joined without marks, and each
    case is a way in which two of them can be the same text. -/
inductive Namesakes (p : Projector) : Route → Route → Prop
  /-- Two projections of one identity. -/
  | identities {k k' : ViewedType} {pid : TypeId} (hne : k ≠ k')
      (hid : p.projectedId k.type k.view = .ok pid)
      (hid' : p.projectedId k'.type k'.view = .ok pid) : Namesakes p (.toView k) (.toView k')
  /-- Two views with one identifier. -/
  | views {id : TypeId} {view view' : String} (hd : view ≠ defaultView) (hd' : view' ≠ defaultView)
      (hne : view ≠ view') (he : Identifier.exported view = Identifier.exported view') :
      Namesakes p (.fromView ⟨id, view⟩) (.fromView ⟨id, view'⟩)
  /-- The view of the first starts with what the name of the second type has more. -/
  | types {k k' : ViewedType} {name more : String} (hn : p.scope.name k.type = .ok name)
      (hn' : p.scope.name k'.type = .ok (name ++ more)) (hne : more ≠ "")
      (hd : k.view ≠ defaultView)
      (he : Identifier.exported k.view = more ++ viewSuffix k'.view) :
      Namesakes p (.fromView k) (.fromView k')
  /-- The name of a projection is that of a type with a view behind it. -/
  | projection {k k' : ViewedType} {pid : TypeId} {name : String}
      (hid : p.projectedId k.type k.view = .ok pid) (hn' : p.scope.name k'.type = .ok name)
      (hn : p.scope.name pid = .ok (name ++ viewSuffix k'.view)) :
      Namesakes p (.toView k) (.fromView k')

/-- No two constructors that are made are namesakes. Then the name of a constructor tells what it
    converts, which is all that a call goes by. -/
def Unambiguous (p : Projector) (id : TypeId) (views : List String) : Prop :=
  ∀ r r', Requested p id views r → Requested p id views r' → ¬ Namesakes p r r'

/-- For the view, the function that wraps calls `toName`, and the function that unwraps calls
    `fromName` on a value of the type. -/
structure Chooses (p : Projector) (id : TypeId) (funcs : List Func) (view toName fromName : String)
    (type : TypeRef) : Prop where
  wraps : ∃ name func cases, p.scope.name id = .ok name ∧ func ∈ funcs ∧
    func.name = "NewViewed" ++ name ∧ Stmt.switch (.ident "view") cases [] ∈ func.body ∧
    ∀ body, (Validation.viewValues view, body) ∈ cases ↔
      body = [.set (.ident "p") (.call toName [.ident "res"])]
  unwraps : ∃ name func cases, p.scope.name id = .ok name ∧ func ∈ funcs ∧
    func.name = "New" ++ name ∧
    Stmt.switch ((Expr.ident "vres").field "View") cases [] ∈ func.body ∧
    ∀ body, (Validation.viewValues view, body) ∈ cases ↔ body =
      [.set (.ident "res") (.call fromName [.assert ((Expr.ident "vres").field "Projected") type])]

/-- Every constructor that is made is among the functions, and for each view those are called that
    give and take what is asserted for the view. -/
structure Consistent (p : Projector) (id : TypeId) (views : List String) (funcs : List Func) :
    Prop where
  listed : ∀ r, Requested p id views r → ∃ func ∈ funcs, Travels p r func
  dispatch : ∀ view ∈ views, ∃ toName fromName type full,
    Chooses p id funcs view toName fromName type ∧ p.userRef p.service id = .ok full ∧
    (∃ func ∈ funcs, func.name = toName ∧ func.results = [⟨none, type⟩]) ∧
    ∃ func ∈ funcs, func.name = fromName ∧ func.params = [⟨some "vres", type⟩] ∧
      func.results = [⟨none, full⟩]

variable {reg : Registry} {derived : Derived} {p : Projector} {id elem pid : TypeId} {view : String}
  {views : List String} {k k' : ViewedType} {r r' : Route} {name name' : String}
  {func : Func} {funcs more : List Func} {helpers helpers' : List Helper}

/-! ## Names that are given once -/

/-- Functions may be added in one go or one after the other. -/
theorem appendNew_append (funcs : List Func) : ∀ more others : List Func,
    appendNew funcs (more ++ others) = appendNew (appendNew funcs more) others := by
  intro more
  induction more generalizing funcs with
  | nil => intro others; rfl
  | cons f rest ih =>
    intro others
    rw [List.cons_append, appendNew, appendNew, ih]

/-- What is in the list afterwards was there or has been added. -/
theorem mem_appendNew : ∀ {more funcs : List Func}, func ∈ appendNew funcs more →
    func ∈ funcs ∨ func ∈ more := by
  intro more
  induction more with
  | nil => exact fun h => .inl h
  | cons f rest ih =>
    intro funcs h
    rw [appendNew] at h
    rcases ih h with h | h
    · split at h
      · exact .inl h
      · rw [List.mem_append, List.mem_singleton] at h
        exact h.imp_right fun heq => List.mem_cons.mpr (.inl heq)
    · exact .inr (List.mem_cons_of_mem _ h)

/-- No name is given twice, and none is lost. The functions themselves may be lost, where two of
    them have one name. -/
theorem names_appendNew : ∀ (more funcs : List Func), (funcs.map (·.name)).Nodup →
    ((appendNew funcs more).map (·.name)).Nodup ∧
      ∀ f, f ∈ funcs ∨ f ∈ more → f.name ∈ (appendNew funcs more).map (·.name) := by
  intro more
  induction more with
  | nil =>
    intro funcs hn
    exact ⟨hn, fun f hf => List.mem_map_of_mem (hf.resolve_right List.not_mem_nil)⟩
  | cons g rest ih =>
    intro funcs hn
    rw [appendNew]
    split
    · rename_i hg
      obtain ⟨hnodup, hmem⟩ := ih funcs hn
      refine ⟨hnodup, fun f hf => ?_⟩
      rw [List.mem_cons] at hf
      obtain hf | rfl | hf := hf
      · exact hmem f (.inl hf)
      -- The name was given to another function.
      · obtain ⟨g, hg, heq⟩ := List.any_eq_true.mp hg
        exact eq_of_beq heq ▸ hmem g (.inl hg)
      · exact hmem f (.inr hf)
    · rename_i hg
      have hnew : ((funcs ++ [g]).map (·.name)).Nodup := by
        rw [List.map_append, List.map_singleton]
        refine List.nodup_append.mpr ⟨hn, List.nodup_singleton _, fun x hx y hy heq => hg ?_⟩
        obtain ⟨f, hf, rfl⟩ := List.mem_map.mp hx
        rw [List.mem_singleton] at hy
        exact List.any_eq_true.mpr ⟨f, hf, by rw [heq, hy, beq_self_eq_true]⟩
      obtain ⟨hnodup, hmem⟩ := ih _ hnew
      refine ⟨hnodup, fun f hf => hmem f ?_⟩
      rw [List.mem_append, List.mem_singleton]
      rw [List.mem_cons] at hf
      exact or_assoc.mpr hf

/-! ## The constructors that are made -/

/-- For each of the routes a function was made. Of namesakes the first one is kept, and what was
    made is listed before that. -/
structure Made (p : Projector) (wanted : Route → Prop) (made : List (Route × Func)) : Prop where
  travels : ∀ x ∈ made, Travels p x.1 x.2
  routes : ∀ r, r ∈ made.map Prod.fst ↔ wanted r

/-- The function that shows an object is a constructor to the view. -/
theorem travels_objectToView
    (h : (p.objectToView id view helpers).Yields (func, helpers')) :
    Travels p (.toView ⟨id, view⟩) func := by
  unfold Projector.objectToView at h
  simp only [Walk.yields_bind, Walk.yields_liftM, Walk.yields_pure, Prod.mk.injEq] at h
  obtain ⟨pid, hid, code, -, _, -, name, hname, _, -, _, -, full, hfull, shown, hshown, rfl, -⟩ := h
  exact .toView hname hid hfull hshown rfl rfl

/-- The function back is one from the view. -/
theorem travels_objectFromView
    (h : (p.objectFromView id view helpers).Yields (func, helpers')) :
    Travels p (.fromView ⟨id, view⟩) func := by
  unfold Projector.objectFromView at h
  simp only [Walk.yields_bind, Walk.yields_liftM, Walk.yields_pure, Prod.mk.injEq] at h
  obtain ⟨pid, hid, code, -, _, -, name, hname, _, -, _, -, shown, hshown, full, hfull, rfl, -⟩ := h
  exact .fromView hname hid hfull hshown rfl rfl

/-- The function that shows a collection is a constructor to the view. -/
theorem travels_collectionToView (h : p.collectionToView id elem view = .ok func) :
    Travels p (.toView ⟨id, view⟩) func := by
  unfold Projector.collectionToView at h
  simp only [except_bind_eq_ok, except_pure_eq_ok] at h
  obtain ⟨pid, hid, shown, hshown, name, hname, _, -, _, -, _, -, full, hfull, rfl⟩ := h
  exact .toView hname hid hfull hshown rfl rfl

/-- The function back to a collection is one from the view. -/
theorem travels_collectionFromView (h : p.collectionFromView id elem view = .ok func) :
    Travels p (.fromView ⟨id, view⟩) func := by
  unfold Projector.collectionFromView at h
  simp only [except_bind_eq_ok, except_pure_eq_ok] at h
  obtain ⟨pid, hid, full, hfull, name, hname, _, -, _, -, _, -, shown, hshown, rfl⟩ := h
  exact .fromView hname hid hfull hshown rfl rfl

theorem mem_routes : r ∈ [Route.toView k, Route.fromView k] ↔ r.viewed = k := by
  cases r <;> simp [Route.viewed]

/-- A type that is no collection has two constructors, of its own. -/
theorem requested_single (hid : Single p.scope.registry id) :
    Requested p id [view] r ↔ r.viewed = ⟨id, view⟩ := by
  constructor
  · intro ⟨hview, hreached⟩
    rw [List.mem_singleton] at hview
    rw [← hview, ← hid.reached hreached]
  · intro hr
    rw [Requested, hr]
    exact ⟨List.mem_singleton_self view, .refl⟩

/-- A collection has two more than its elements. Those two are its own, one for each direction. -/
theorem requested_encloses (hid : Encloses p.scope.registry id elem) :
    Requested p id [view] r ↔ Requested p elem [view] r ∨ r.viewed = ⟨id, view⟩ := by
  constructor
  · intro ⟨hview, hreached⟩
    rcases ReflTransGen.cases_head hreached with hsame | ⟨elem', helem, hreached⟩
    · rw [List.mem_singleton] at hview
      rw [← hview, hsame]
      exact .inr rfl
    · exact .inl ⟨hview, hid.unique helem ▸ hreached⟩
  · intro hr
    rcases hr with ⟨hview, hreached⟩ | hr
    · exact ⟨hview, .head hid hreached⟩
    · rw [Requested, hr]
      exact ⟨List.mem_singleton_self view, .refl⟩

/-- The two functions of a type under a view follow those that were made before. Which function is
    for which route is recorded here, since names alone may not tell it. -/
theorem Made.append {wanted : Route → Prop} {made : List (Route × Func)} {toView fromView : Func}
    (h : Made p wanted made) (hto : Travels p (.toView k) toView)
    (hfrom : Travels p (.fromView k) fromView) :
    Made p (fun r => wanted r ∨ r.viewed = k)
      (made ++ [(.toView k, toView), (.fromView k, fromView)]) where
  travels := by
    intro x hx
    rcases List.mem_append.mp hx with hx | hx
    · exact h.travels x hx
    · obtain rfl | rfl : x = (.toView k, toView) ∨ x = (.fromView k, fromView) := by simpa using hx
      · exact hto
      · exact hfrom
  routes := by
    intro r
    rw [List.map_append, List.mem_append, h.routes]
    exact or_congr_right mem_routes

theorem Made.congr {wanted wanted' : Route → Prop} {made : List (Route × Func)}
    (h : Made p wanted made) (hiff : ∀ r, wanted r ↔ wanted' r) : Made p wanted' made :=
  ⟨h.travels, fun r => (h.routes r).trans (hiff r)⟩

/-- The two functions of a type that is no collection are made for its routes. -/
theorem made_single {toView fromView : Func} {helpers₁ : List Helper}
    (hid : Single p.scope.registry id)
    (hto : (p.objectToView id view helpers).Yields (toView, helpers₁))
    (hfrom : (p.objectFromView id view helpers₁).Yields (fromView, helpers')) :
    Made p (Requested p id [view])
      [(.toView ⟨id, view⟩, toView), (.fromView ⟨id, view⟩, fromView)] := by
  have hnone : Made p (fun _ => False) [] := ⟨by simp, by simp⟩
  refine (hnone.append (travels_objectToView hto) (travels_objectFromView hfrom)).congr fun r => ?_
  rw [requested_single hid]
  exact or_iff_right not_false

/-- The constructors of a type are two conversions, or they follow those of its elements. Everything
    below goes by these two cases, so the compiler is opened only here. -/
theorem constructorsWithin_cases {levels : Nat}
    (h : (p.constructorsWithin view levels id helpers).Yields (funcs, helpers')) :
    (Single p.scope.registry id ∧ ∃ toView fromView helpers₁,
      (p.objectToView id view helpers).Yields (toView, helpers₁) ∧
      (p.objectFromView id view helpers₁).Yields (fromView, helpers') ∧
      funcs = [toView, fromView]) ∨
    ∃ elem n others toView fromView, levels = n + 1 ∧ Encloses p.scope.registry id elem ∧
      (p.constructorsWithin view n elem helpers).Yields (others, helpers') ∧
      p.collectionToView id elem view = .ok toView ∧
      p.collectionFromView id elem view = .ok fromView ∧ funcs = others ++ [toView, fromView] := by
  rw [Projector.constructorsWithin] at h
  simp only [Walk.yields_bind, Walk.yields_liftM, Registry.get_eq_ok] at h
  obtain ⟨t, ht, kind, hk, h⟩ := h
  split at h
  -- Only arrays are gone into. The constructors of their elements come first, as they are called.
  · rename_i harray
    subst harray
    obtain ⟨x, hx⟩ := Registry.exists_elem hk
    simp only [Walk.yields_bind, Walk.yields_liftM, hx, Except.ok.injEq, exists_eq_left',
      Option.bind_some] at h
    cases hid : x.userId? with
    | none => simp [hid, Walk.defect] at h
    | some elem =>
      simp only [hid] at h
      cases levels with
      | zero => simp at h
      | succ n =>
        simp only [Walk.yields_bind, Walk.yields_liftM, Walk.yields_pure, Prod.mk.injEq] at h
        obtain ⟨⟨others, helpers₁⟩, hothers, toView, hto, fromView, hfrom, rfl, rfl⟩ := h
        exact .inr ⟨elem, n, others, toView, fromView, rfl, ⟨x, ⟨t, ht, hk, hx⟩, hid⟩, hothers,
          hto, hfrom, rfl⟩
  · rename_i hne
    simp only [Walk.yields_bind, Walk.yields_pure, Prod.mk.injEq] at h
    obtain ⟨⟨toView, helpers₁⟩, hto, ⟨fromView, helpers₂⟩, hfrom, rfl, rfl⟩ := h
    exact .inl ⟨⟨t, kind, ht, hk, hne⟩, toView, fromView, helpers₁, hto, hfrom, rfl⟩

/-- The constructors of one view, from the innermost elements outwards. By induction on the levels,
    of which there is one for each collection around the elements. -/
theorem made_of_constructorsWithin : ∀ {levels : Nat} {id : TypeId} {funcs : List Func}
    {helpers helpers' : List Helper},
    (p.constructorsWithin view levels id helpers).Yields (funcs, helpers') →
    ∃ made, made.map Prod.snd = funcs ∧ Made p (Requested p id [view]) made := by
  intro levels
  induction levels with
  | zero =>
    intro id funcs helpers helpers' h
    rcases constructorsWithin_cases h with ⟨hid, _, _, _, hto, hfrom, rfl⟩ | ⟨_, _, _, _, _, hn, -⟩
    · exact ⟨_, rfl, (made_single hid hto hfrom)⟩
    · cases hn
  | succ levels ih =>
    intro id funcs helpers helpers' h
    rcases constructorsWithin_cases h with ⟨hid, _, _, _, hto, hfrom, rfl⟩ |
      ⟨elem, n, others, _, _, hn, hid, hothers, hto, hfrom, rfl⟩
    · exact ⟨_, rfl, (made_single hid hto hfrom)⟩
    · cases hn
      -- The routes of a collection are its own two and those of its elements.
      obtain ⟨made, rfl, hmade⟩ := ih hothers
      refine ⟨_, List.map_append, ((hmade.append (travels_collectionToView hto)
        (travels_collectionFromView hfrom)).congr fun r => (requested_encloses hid).symm)⟩

/-- The constructors of all views, in the order of the views. Of each name the first one is kept.
    Two views of a collection share no functions, so it is names only that can meet. -/
theorem made_of_allConstructors : ∀ {views : List String} {funcs all : List Func}
    {helpers helpers' : List Helper},
    (p.allConstructors id funcs helpers views).Yields (all, helpers') →
    ∃ made, all = appendNew funcs (made.map Prod.snd) ∧ Made p (Requested p id views) made := by
  intro views
  induction views with
  | nil =>
    intro funcs all helpers helpers' h
    rw [Projector.allConstructors, Walk.yields_pure, Prod.mk.injEq] at h
    exact ⟨[], h.1.symm, by simp, by simp [Requested]⟩
  | cons view rest ih =>
    intro funcs all helpers helpers' h
    rw [Projector.allConstructors, Walk.yields_bind] at h
    obtain ⟨⟨more, helpers₁⟩, hmore, h⟩ := h
    obtain ⟨made, rfl, hmade⟩ := made_of_constructorsWithin hmore
    obtain ⟨others, rfl, hothers⟩ := ih h
    -- All that was made is kept in the list here, so that each constructor has its route. Which of
    -- one name are dropped is left to `appendNew`.
    refine ⟨made ++ others, by rw [List.map_append, appendNew_append], fun x hx => ?_, fun r => ?_⟩
    · exact (List.mem_append.mp hx).elim (hmade.travels x) (hothers.travels x)
    · rw [List.map_append, List.mem_append, hmade.routes, hothers.routes]
      simp [Requested, or_and_right]

/-! ## Namesakes -/

/-- An identity that is found is that of a projection. -/
theorem mem_ids_of_projectedId (h : p.projectedId id view = .ok pid) :
    (⟨id, view⟩, pid) ∈ p.ids := by
  unfold Projector.projectedId at h
  split at h
  · rename_i hget
    cases h
    exact Ordered.mem_of_get? hget
  · cases h

theorem name_toView : Route.name p (.toView k) = .ok name ↔ ∃ pid n,
    p.projectedId k.type k.view = .ok pid ∧ p.scope.name pid = .ok n ∧ "new" ++ n = name := by
  unfold Route.name Projector.toViewName
  simp only [except_bind_eq_ok, except_pure_eq_ok, exists_and_left]

theorem name_fromView : Route.name p (.fromView k) = .ok name ↔ ∃ n,
    p.scope.name k.type = .ok n ∧ "new" ++ n ++ viewSuffix k.view = name := by
  unfold Route.name Projector.fromViewName
  simp only [except_bind_eq_ok, except_pure_eq_ok]

/-- Namesakes have one name. -/
theorem Namesakes.name_eq (h : Namesakes p r r') : r.name p = r'.name p := by
  cases h with
  | identities _ hid hid' => simp only [Route.name, Projector.toViewName, hid, hid']
  | views hd hd' _ he =>
    simp only [Route.name, Projector.fromViewName, viewSuffix_of_ne hd, viewSuffix_of_ne hd', he]
  | types hn hn' _ hd he =>
    rw [name_fromView.mpr ⟨_, hn, rfl⟩, name_fromView.mpr ⟨_, hn', rfl⟩, viewSuffix_of_ne hd, he]
    simp only [String.append_assoc]
  | projection hid hn' hn =>
    rw [name_toView.mpr ⟨_, _, hid, hn, rfl⟩, name_fromView.mpr ⟨_, hn', rfl⟩, String.append_assoc]

/-- Namesakes are two different constructors. -/
theorem Namesakes.ne (h : Namesakes p r r') : r ≠ r' := by
  intro heq
  cases h with
  | identities hne => exact hne (Route.toView.inj heq)
  | views _ _ hne => exact hne (congrArg ViewedType.view (Route.fromView.inj heq))
  | types hn hn' hne =>
    obtain rfl := Route.fromView.inj heq
    rw [hn, Except.ok.injEq, eq_comm] at hn'
    exact hne (String.append_eq_left_iff.mp hn')
  | projection => cases heq

/-- Where all names are different, no constructors are namesakes. -/
theorem unambiguous_of_nodup {routes : List Route} (hmem : ∀ r, Requested p id views r → r ∈ routes)
    (h : (routes.map (Route.name p)).Nodup) : Unambiguous p id views := fun r r' hr hr' hsame =>
  hsame.ne (List.inj_on_of_nodup_map h (hmem r hr) (hmem r' hr') hsame.name_eq)

/-- What the name of one type has more than that of another comes from a view. -/
theorem namesakes_of_longer {more : String} (hn : p.scope.name k.type = .ok name)
    (hn' : p.scope.name k'.type = .ok (name ++ more)) (hne : more ≠ "")
    (hs : viewSuffix k.view = more ++ viewSuffix k'.view) :
    Namesakes p (.fromView k) (.fromView k') := by
  have hd : k.view ≠ defaultView := by
    intro hd
    rw [viewSuffix_eq_empty.mpr hd] at hs
    exact hne (String.append_eq_empty_iff.mp hs.symm).1
  rw [viewSuffix_of_ne hd] at hs
  exact .types hn hn' hne hd hs

/-- Two constructors back from one type have one name only if their views have one identifier. The
    name of a constructor back is that of the type and of the view, and says nothing else. -/
theorem namesakes_of_viewSuffix (ht : k.type = k'.type)
    (h : viewSuffix k.view = viewSuffix k'.view) :
    k = k' ∨ Namesakes p (.fromView k) (.fromView k') := by
  obtain ⟨type, view⟩ := k
  obtain ⟨type', view'⟩ := k'
  cases ht
  by_cases hsame : view = view'
  · exact .inl (by rw [hsame])
  · have hd : view ≠ defaultView := by
      intro hd
      rw [viewSuffix_eq_empty.mpr hd] at h
      exact hsame (hd.trans (viewSuffix_eq_empty.mp h.symm).symm)
    have hd' : view' ≠ defaultView := by
      intro hd'
      rw [viewSuffix_eq_empty.mpr hd'] at h
      exact hd (viewSuffix_eq_empty.mp h)
    rw [viewSuffix_of_ne hd, viewSuffix_of_ne hd'] at h
    exact .inr (.views hd hd' hsame h)

section

variable (hscope : p.scope = .ofRegistry p.scope.registry)
include hscope

theorem type_eq_of_name_eq {i j : TypeId} (hi : p.scope.name i = .ok name)
    (hj : p.scope.name j = .ok name) : i = j := by
  rw [hscope] at hi hj
  exact Scope.name_injective hi hj

/-- Where the types differ, one has the longer name, and what it has more is taken from the view of
    the other. -/
theorem eq_or_namesakes_fromView (hr : Route.name p (.fromView k) = .ok name)
    (hr' : Route.name p (.fromView k') = .ok name) :
    k = k' ∨ Namesakes p (.fromView k) (.fromView k') ∨
      Namesakes p (.fromView k') (.fromView k) := by
  obtain ⟨n, hn, rfl⟩ := name_fromView.mp hr
  obtain ⟨n', hn', heq⟩ := name_fromView.mp hr'
  rw [String.append_assoc, String.append_assoc, String.append_right_inj] at heq
  by_cases hsame : n = n'
  · subst hsame
    rw [String.append_right_inj] at heq
    exact (namesakes_of_viewSuffix (type_eq_of_name_eq hscope hn hn') heq.symm).imp_right .inl
  · rcases append_eq_append_cases heq.symm hsame with ⟨more, hne, rfl, hs⟩ | ⟨more, hne, rfl, hs⟩
    · exact .inr (.inl (namesakes_of_longer hn hn' hne hs))
    · exact .inr (.inr (namesakes_of_longer hn' hn hne hs))

omit hscope in
/-- One name for both directions is that of a projection. -/
theorem namesakes_of_directions (hr : Route.name p (.toView k) = .ok name)
    (hr' : Route.name p (.fromView k') = .ok name) : Namesakes p (.toView k) (.fromView k') := by
  obtain ⟨pid, n, hid, hn, rfl⟩ := name_toView.mp hr
  obtain ⟨n', hn', heq⟩ := name_fromView.mp hr'
  rw [String.append_assoc, String.append_right_inj] at heq
  exact .projection hid hn' (heq ▸ hn)

/-- Constructors of one name are the same, or namesakes. So the names of all constructors are
    different if no two of them are namesakes. -/
theorem eq_or_namesakes (hr : r.name p = .ok name) (hr' : r'.name p = .ok name) :
    r = r' ∨ Namesakes p r r' ∨ Namesakes p r' r := by
  cases r with
  | toView k =>
    cases r' with
    | toView k' =>
      obtain ⟨pid, n, hid, hn, rfl⟩ := name_toView.mp hr
      obtain ⟨pid', n', hid', hn', heq⟩ := name_toView.mp hr'
      rw [String.append_right_inj] at heq
      obtain rfl := type_eq_of_name_eq hscope hn (heq ▸ hn')
      by_cases hne : k = k'
      · exact .inl (by rw [hne])
      · exact .inr (.inl (.identities hne hid hid'))
    | fromView k' => exact .inr (.inl (namesakes_of_directions hr hr'))
  | fromView k =>
    cases r' with
    | toView k' => exact .inr (.inr (namesakes_of_directions hr' hr))
    | fromView k' =>
      exact (eq_or_namesakes_fromView hscope hr hr').imp_left (congrArg Route.fromView)

end

/-! ## The functions that choose -/

theorem Travels.name_eq (h : Travels p r func) : r.name p = .ok func.name := by
  cases h with
  | toView hname => exact hname
  | fromView hname => exact hname

/-- A view has its constructors also among more functions. -/
theorem Chooses.mono {toName fromName : String} {type : TypeRef} (hsub : funcs ⊆ more)
    (h : Chooses p id funcs view toName fromName type) :
    Chooses p id more view toName fromName type := by
  obtain ⟨n, wrap, cases, hn, hwrap, hname, hswitch, hcases⟩ := h.wraps
  obtain ⟨n', unwrap, cases', hn', hunwrap, hname', hswitch', hcases'⟩ := h.unwraps
  exact ⟨⟨n, wrap, cases, hn, hsub hwrap, hname, hswitch, hcases⟩,
    ⟨n', unwrap, cases', hn', hsub hunwrap, hname', hswitch', hcases'⟩⟩

/-- A view can be told from the values of its case. The default view has the empty text for a second
    value, and no other view has two. -/
theorem viewValues_injective : Function.Injective Validation.viewValues := by
  intro view view' h
  unfold Validation.viewValues at h
  split at h
  · rename_i hd
    split at h
    · rename_i hd'
      exact hd.trans hd'.symm
    · cases h
  · split at h
    · cases h
    · simpa using h

/-- A view has the one case that was made for it. Views may be listed twice, and then the case is
    there twice as well. -/
theorem mem_cases_iff {f : String → Except Fault (List Expr × Block)}
    {cases : List (List Expr × Block)} {made body : Block} (hcases : views.mapM f = .ok cases)
    (hview : view ∈ views)
    (hvalues : ∀ view case, f view = .ok case → case.1 = Validation.viewValues view)
    (hmade : f view = .ok (Validation.viewValues view, made)) :
    (Validation.viewValues view, body) ∈ cases ↔ body = made := by
  rw [except_mapM_eq_ok] at hcases
  constructor
  · intro hcase
    obtain ⟨view', -, hother⟩ := forall₂_mem_right hcases hcase
    obtain rfl := viewValues_injective (hvalues view' _ hother)
    rw [hmade, Except.ok.injEq, Prod.mk.injEq] at hother
    exact hother.2.symm
  · intro hbody
    obtain ⟨case, hcase, hsame⟩ := forall₂_mem_left hcases hview
    rw [hmade, Except.ok.injEq] at hsame
    rwa [hbody, hsame]

theorem wrapCase_eq_ok {case : List Expr × Block} : p.wrapCase id view = .ok case ↔
    ∃ pid toName, p.projectedId id view = .ok pid ∧ p.toViewName id view = .ok toName ∧
      (Validation.viewValues view, [.set (.ident "p") (.call toName [.ident "res"])]) = case := by
  unfold Projector.wrapCase
  simp only [except_bind_eq_ok, except_pure_eq_ok, exists_and_left, exists_and_right]

/-- The case back asserts the type of the projection and calls the constructor from it. -/
theorem unwrapCase_eq_ok {case : List Expr × Block} : p.unwrapCase id view = .ok case ↔
    ∃ pid type fromName, p.projectedId id view = .ok pid ∧
      p.userRef p.projected pid = .ok type ∧ p.fromViewName id view = .ok fromName ∧
      (Validation.viewValues view, [.set (.ident "res") (.call fromName
        [.assert ((Expr.ident "vres").field "Projected") type])]) = case := by
  unfold Projector.unwrapCase
  simp only [except_bind_eq_ok, except_pure_eq_ok, exists_and_left]

/-- The functions that choose call what was named for the view. It is not said yet that a function
    of this name was made, nor that it was made for the view. -/
theorem chooses_of_viewedConstructors {viewed : List Func}
    (h : p.viewedConstructors id views = .ok viewed) (hview : view ∈ views) :
    ∃ pid toName fromName type, p.projectedId id view = .ok pid ∧
      p.toViewName id view = .ok toName ∧ p.fromViewName id view = .ok fromName ∧
      p.userRef p.projected pid = .ok type ∧ Chooses p id viewed view toName fromName type := by
  unfold Projector.viewedConstructors at h
  simp only [except_bind_eq_ok, except_pure_eq_ok] at h
  obtain ⟨n, hn, full, hfull, wrap, hwrap, unwrap, hunwrap, rfl⟩ := h
  obtain ⟨case, -, hto⟩ := forall₂_mem_left (except_mapM_eq_ok.mp hwrap) hview
  obtain ⟨pid, toName, hid, htoName, rfl⟩ := wrapCase_eq_ok.mp hto
  obtain ⟨case, -, hfrom⟩ := forall₂_mem_left (except_mapM_eq_ok.mp hunwrap) hview
  obtain ⟨pid', type, fromName, hid', htype, hfromName, rfl⟩ := unwrapCase_eq_ok.mp hfrom
  obtain rfl := Except.ok.inj (hid.symm.trans hid')
  refine ⟨pid, toName, fromName, type, hid, htoName, hfromName, htype, ⟨?_, ?_⟩⟩
  -- All cases for one view have the same body, so it does not matter which of them is taken.
  · refine ⟨n, _, wrap, hn, List.mem_cons_self, rfl, by simp, fun body => ?_⟩
    refine mem_cases_iff hwrap hview (fun view case hcase => ?_) hto
    obtain ⟨_, _, -, -, rfl⟩ := wrapCase_eq_ok.mp hcase
    rfl
  · refine ⟨n, _, unwrap, hn, List.mem_cons_of_mem _ List.mem_cons_self, rfl, by simp,
      fun body => ?_⟩
    refine mem_cases_iff hunwrap hview (fun view case hcase => ?_) hfrom
    obtain ⟨_, _, _, -, -, -, rfl⟩ := unwrapCase_eq_ok.mp hcase
    rfl

/-- The names of the functions that choose. -/
theorem names_viewedConstructors {viewed : List Func}
    (h : p.viewedConstructors id views = .ok viewed) :
    ∃ n, viewed.map (·.name) = ["NewViewed" ++ n, "New" ++ n] := by
  unfold Projector.viewedConstructors at h
  simp only [except_bind_eq_ok, except_pure_eq_ok] at h
  obtain ⟨n, -, full, -, wrap, -, unwrap, -, rfl⟩ := h
  exact ⟨n, rfl⟩

/-! ## Constructors and their names -/

/-- If no two of the constructors are namesakes, each has its name. What is called by name in the
    functions that choose is then the constructor for the view. -/
theorem consistent_of_unambiguous {made : List (Route × Func)} {viewed : List Func}
    (hscope : p.scope = .ofRegistry p.scope.registry)
    (hmade : Made p (Requested p id views) made)
    (hviewed : p.viewedConstructors id views = .ok viewed) (hno : Unambiguous p id views) :
    Consistent p id views (appendNew [] (made.map Prod.snd) ++ viewed) := by
  have listed : ∀ r, Requested p id views r →
      ∃ func ∈ appendNew [] (made.map Prod.snd), Travels p r func := by
    intro r hr
    obtain ⟨x, hx, rfl⟩ := List.mem_map.mp ((hmade.routes r).mpr hr)
    -- The function that has the name was made for a route, too, which can be no other.
    obtain ⟨func, hfunc, hname⟩ := List.mem_map.mp
      ((names_appendNew (made.map Prod.snd) [] List.nodup_nil).2 x.2
        (.inr (List.mem_map_of_mem hx)))
    obtain ⟨y, hy, rfl⟩ := List.mem_map.mp ((mem_appendNew hfunc).resolve_left List.not_mem_nil)
    have hx' := (hmade.travels x hx).name_eq
    have hy' := (hmade.travels y hy).name_eq
    have hry := (hmade.routes y.1).mp (List.mem_map_of_mem hy)
    rcases eq_or_namesakes hscope (hname ▸ hy') hx' with heq | hsame | hsame
    · exact ⟨y.2, hfunc, heq ▸ hmade.travels y hy⟩
    · exact absurd hsame (hno _ _ hry hr)
    · exact absurd hsame (hno _ _ hr hry)
  refine ⟨fun r hr => ?_, fun view hview => ?_⟩
  · obtain ⟨func, hfunc, htravels⟩ := listed r hr
    exact ⟨func, List.mem_append_left _ hfunc, htravels⟩
  · obtain ⟨pid, toName, fromName, type, hid, hto, hfrom, htype, hchooses⟩ :=
      chooses_of_viewedConstructors hviewed hview
    obtain ⟨func, hfunc, htravels⟩ := listed (.toView ⟨id, view⟩) ⟨hview, .refl⟩
    obtain ⟨func', hfunc', htravels'⟩ := listed (.fromView ⟨id, view⟩) ⟨hview, .refl⟩
    cases htravels with
    | toView hname hid' _ hshown _ hresults =>
    cases htravels' with
    | @fromView _ _ _ full _ hname' hid'' hfull hshown' hparams hresults' =>
    obtain rfl := Except.ok.inj (hid.symm.trans hid')
    obtain rfl := Except.ok.inj (hid.symm.trans hid'')
    obtain rfl := Except.ok.inj (htype.symm.trans hshown)
    obtain rfl := Except.ok.inj (htype.symm.trans hshown')
    obtain rfl := Except.ok.inj (hto.symm.trans hname)
    obtain rfl := Except.ok.inj (hfrom.symm.trans hname')
    exact ⟨_, _, type, full, hchooses.mono (List.subset_append_right ..), hfull,
      ⟨func, List.mem_append_left _ hfunc, rfl, hresults⟩,
      func', List.mem_append_left _ hfunc', rfl, hparams, hresults'⟩

/-- No name is given twice: those of the functions that choose start with a capital. Those of the
    constructors start with a small letter and are kept apart by `appendNew`. -/
theorem nodup_names_constructors {made : List (Route × Func)} {viewed : List Func}
    (hmade : Made p (Requested p id views) made)
    (hviewed : p.viewedConstructors id views = .ok viewed) :
    ((appendNew [] (made.map Prod.snd) ++ viewed).map (·.name)).Nodup := by
  have small : ∀ func ∈ appendNew [] (made.map Prod.snd), ∃ n, func.name = "new" ++ n := by
    intro func hfunc
    obtain ⟨x, hx, rfl⟩ := List.mem_map.mp ((mem_appendNew hfunc).resolve_left List.not_mem_nil)
    have hname := (hmade.travels x hx).name_eq
    cases hr : x.1 with
    | toView k =>
      obtain ⟨_, n, -, -, hn⟩ := name_toView.mp (hr ▸ hname)
      exact ⟨n, hn.symm⟩
    | fromView k =>
      obtain ⟨n, -, hn⟩ := name_fromView.mp (hr ▸ hname)
      exact ⟨_, hn.symm.trans (String.append_assoc ..)⟩
  obtain ⟨n, hnames⟩ := names_viewedConstructors hviewed
  rw [List.map_append, hnames]
  refine List.nodup_append.mpr
    ⟨(names_appendNew _ [] List.nodup_nil).1, ?_, fun name hname name' hname' heq => ?_⟩
  · simp
  · obtain ⟨func, hfunc, rfl⟩ := List.mem_map.mp hname
    obtain ⟨m, hm⟩ := small func hfunc
    rw [hm] at heq
    have hchars := congrArg String.toList heq
    rw [List.mem_cons, List.mem_singleton] at hname'
    -- Small letters and capitals differ in the first character.
    rcases hname' with rfl | rfl <;> simp at hchars

/-- A function is a constructor for two namesakes only where the separator is in a type. A function
    shows in its signature which two types it goes between, and so it tells its route. -/
theorem Travels.not_namesakes (hscope : p.scope = .ofRegistry derived.registry)
    (hids : p.ids = derived.ids) (hx : Extends reg derived) (hsep : Separable reg)
    (h : Travels p r func) (h' : Travels p r' func) : ¬ Namesakes p r r' := by
  have identified : ∀ {k : ViewedType} {pid : TypeId}, p.projectedId k.type k.view = .ok pid →
      derived.Has k ∧ pid = projectedId k := by
    intro k pid hpid
    have hmem := mem_ids_of_projectedId hpid
    rw [hids] at hmem
    exact ⟨List.mem_map_of_mem hmem, hx.ids _ hmem⟩
  have unique : ∀ {k k' : ViewedType} {pid : TypeId}, p.projectedId k.type k.view = .ok pid →
      p.projectedId k'.type k'.view = .ok pid → k = k' := by
    intro k k' pid hid hid'
    obtain ⟨hk, hpid⟩ := identified hid
    obtain ⟨hk', hpid'⟩ := identified hid'
    obtain ⟨t, _, ht, -⟩ := hx.defined k hk
    obtain ⟨t', _, ht', -⟩ := hx.defined k' hk'
    exact hsep.projectedId_inj ⟨t, ht⟩ ⟨t', ht'⟩ (hpid.symm.trans hpid')
  intro hsame
  cases hsame with
  | identities hne hid hid' => exact hne (unique hid hid')
  | views _ _ hne =>
    cases h with
    | fromView _ hid _ hshown hparams =>
    cases h' with
    | fromView _ hid' _ hshown' hparams' =>
    -- The parameter is of one type, so that there is one projection.
    have htype := hparams.symm.trans hparams'
    obtain rfl : _ = _ := by simpa using htype
    obtain ⟨hk, rfl⟩ := identified hid
    obtain ⟨hk', rfl⟩ := identified hid'
    obtain ⟨_, hs, -, hkind⟩ := hx.kind hk
    obtain ⟨_, hs', -, hkind'⟩ := hx.kind hk'
    rw [Projector.userRef, hscope] at hshown hshown'
    have hpid := Scope.typeRef_user_injective hkind hs hkind' hs' hshown hshown'
    exact hne (congrArg ViewedType.view (unique hid (hpid ▸ hid')))
  | types hn hn' hmore =>
    cases h with
    | fromView _ hid hfull _ _ hresults =>
    cases h' with
    | fromView _ hid' hfull' _ _ hresults' =>
    -- The result is of one type, which has one name.
    have htype := hresults.symm.trans hresults'
    obtain rfl : _ = _ := by simpa using htype
    obtain ⟨_, hs, hkind, -⟩ := hx.kind (identified hid).1
    obtain ⟨_, hs', hkind', -⟩ := hx.kind (identified hid').1
    rw [Projector.userRef, hscope] at hfull hfull'
    have htypes := Scope.typeRef_user_injective hkind hs hkind' hs' hfull hfull'
    rw [htypes, hn', Except.ok.injEq] at hn
    exact hmore (String.append_eq_left_iff.mp hn)
  | projection =>
    cases h with
    | toView _ _ _ _ hparams =>
    cases h' with
    | fromView _ _ _ _ hparams' => simpa using hparams.symm.trans hparams'

/-- Where two constructors are namesakes, one of them is missing. So names that are apart are not
    only enough but needed. -/
theorem Consistent.unambiguous (hscope : p.scope = .ofRegistry derived.registry)
    (hids : p.ids = derived.ids) (hx : Extends reg derived) (hsep : Separable reg)
    (hnodup : (funcs.map (·.name)).Nodup) (h : Consistent p id views funcs) :
    Unambiguous p id views := by
  intro r r' hr hr' hsame
  obtain ⟨func, hfunc, ht⟩ := h.listed r hr
  obtain ⟨func', hfunc', ht'⟩ := h.listed r' hr'
  obtain rfl := List.inj_on_of_nodup_map hnodup hfunc hfunc'
    (Except.ok.inj (ht.name_eq.symm.trans (hsame.name_eq.trans ht'.name_eq)))
  exact ht.not_namesakes hscope hids hx hsep ht' hsame

/-- Where there is code for the views of a type, no two of its constructors have one name. If none
    are namesakes, each view has those that were made for it; a separator in no type given, it has
    them only then. -/
theorem compile_consistent (reg : Registry) (id : TypeId) (options : ProjectionOptions)
    (code : ViewPackage) (h : (compile reg id options).Yields code) :
    ∃ views derived, (reg.resultViews id).Yields views ∧ (derive reg id views).Yields derived ∧
      (code.constructors.map (·.name)).Nodup ∧
      (Unambiguous (derived.projector options) id views →
        Consistent (derived.projector options) id views code.constructors) ∧
      (Separable reg → Consistent (derived.projector options) id views code.constructors →
        Unambiguous (derived.projector options) id views) := by
  rw [compile_eq] at h
  obtain ⟨views, hviews, h⟩ := Walk.yields_bind.mp h
  obtain ⟨derived, hderived, h⟩ := Walk.yields_bind.mp h
  refine ⟨views, derived, hviews, hderived, ?_⟩
  unfold package at h
  simp only [Walk.yields_bind, Walk.yields_liftM, Walk.yields_pure] at h
  obtain ⟨_, -, _, -, ⟨funcs, _⟩, hfuncs, viewed, hviewed, _, -, _, -, rfl⟩ := h
  obtain ⟨made, rfl, hmade⟩ := made_of_allConstructors hfuncs
  have hnodup := nodup_names_constructors hmade hviewed
  refine ⟨hnodup, consistent_of_unambiguous rfl hmade hviewed, fun hsep hc => ?_⟩
  exact hc.unambiguous rfl rfl (extends_of_derive hsep hderived).1 hsep hnodup

/-- Racks of cups, under the views of cups. -/
def racks : Registry where
  types := [
    { id := "Rack", name := "Rack", kind := .result
      definition := { type := .array (.user "Cup") }
      views := [{ name := "default", attributes := [] }, { name := "tiny", attributes := [] }] },
    { id := "Cup", name := "Cup", kind := .result
      definition := {
        type := .object [("color", { type := .primitive .string }),
          ("size", { type := .primitive .int })] }
      views := [
        { name := "default", attributes := [.name "color", .name "size"] },
        { name := "tiny", attributes := [.name "color"] }] }]
  nodup := by decide

/-- The constructors for racks and for their cups. -/
def rackRoutes : List Route :=
  (["Rack", "Cup"].product ["default", "tiny"]).flatMap fun (type, view) =>
    [.toView ⟨type, view⟩, .fromView ⟨type, view⟩]

theorem mem_rackRoutes (hg : racks.Grows p.scope.registry)
    (h : Requested p "Rack" ["default", "tiny"] r) : r ∈ rackRoutes := by
  have hrack : Encloses p.scope.registry "Rack" "Cup" :=
    ⟨.user "Cup", ⟨_, hg.find? rfl, hg.kind rfl, hg.elem? rfl⟩, rfl⟩
  have hcup : Single p.scope.registry "Cup" :=
    ⟨_, .object, hg.find? rfl, hg.kind rfl, by simp⟩
  obtain ⟨hview, hreached⟩ := h
  have htype : r.viewed.type ∈ ["Rack", "Cup"] := by
    rcases ReflTransGen.cases_head hreached with hsame | ⟨elem, helem, hreached⟩
    · exact hsame ▸ List.mem_cons_self
    · obtain rfl := hrack.unique helem
      exact hcup.reached hreached ▸ List.mem_cons_of_mem _ List.mem_cons_self
  refine List.mem_flatMap.mpr ⟨⟨_, _⟩, List.pair_mem_product.mpr ⟨htype, hview⟩, ?_⟩
  exact mem_routes.mpr rfl

/-- A rack of cups under two views has ten constructors, and each view has those that were made for
    it. -/
theorem compile_consistent_racks : ∃ code, (compile racks "Rack" {}).Yields code ∧
    code.constructors.map (·.name) = ["newCupView", "newCup", "newRackView", "newRack",
      "newCupViewTiny", "newCupTiny", "newRackViewTiny", "newRackTiny", "NewViewedRack",
      "NewRack"] ∧
    ∃ derived, (derive racks "Rack" ["default", "tiny"]).Yields derived ∧
      Unambiguous (derived.projector {}) "Rack" ["default", "tiny"] ∧
      Consistent (derived.projector {}) "Rack" ["default", "tiny"] code.constructors := by
  obtain ⟨code, h, hnames⟩ : ∃ code, (compile racks "Rack" {}).Yields code ∧
      code.constructors.map (·.name) = ["newCupView", "newCup", "newRackView", "newRack",
        "newCupViewTiny", "newCupTiny", "newRackViewTiny", "newRackTiny", "NewViewedRack",
        "NewRack"] := by
    decide +kernel
  obtain ⟨views', hviews', rfl⟩ : ∃ views, (racks.resultViews "Rack").Yields views ∧
      views = ["default", "tiny"] := by
    decide +kernel
  -- The names are compared along the list of all routes. That it holds them all was shown before.
  obtain ⟨derived', hderived', hdistinct⟩ : ∃ derived,
      (derive racks "Rack" ["default", "tiny"]).Yields derived ∧
      (rackRoutes.map (Route.name (derived.projector {}))).Nodup := by
    decide +kernel
  obtain ⟨views, derived, hviews, hderived, -, hconsistent, -⟩ :=
    compile_consistent racks "Rack" {} code h
  obtain rfl := hviews'.unique hviews
  obtain rfl := hderived'.unique hderived
  have hx := (extends_of_derive (by decide) hderived).1
  have hno := unambiguous_of_nodup (fun r => mem_rackRoutes hx.grows) hdistinct
  exact ⟨code, h, hnames, derived', hderived, hno, hconsistent hno⟩

/-- Cups with a view that is called a view. -/
def cups : Registry where
  types := [
    { id := "Cup", name := "Cup", kind := .result
      definition := {
        type := .object [("color", { type := .primitive .string }),
          ("size", { type := .primitive .int })] }
      views := [
        { name := "default", attributes := [.name "color"] },
        { name := "view", attributes := [.name "color", .name "size"] }] }]
  nodup := by decide

/-- How cups are unwrapped: `newCupView` is called for a projection under the second view. -/
def cupsUnwrapped : Stmt :=
  .switch ((Expr.ident "vres").field "View") [
    ([.str "default", .str ""], [.set (.ident "res") (.call "newCup"
      [.assert ((Expr.ident "vres").field "Projected")
        (.pointer (.named (some "views") "CupView"))])]),
    ([.str "view"], [.set (.ident "res") (.call "newCupView"
      [.assert ((Expr.ident "vres").field "Projected")
        (.pointer (.named (some "views") "CupViewView"))])])] []

/-- Back from the view there is no constructor: its name was given to the one that shows a cup under
    its default view, which is called for a projection and takes a cup. -/
theorem compile_cups_not_consistent : ∃ derived code,
    (cups.resultViews "Cup").Yields ["default", "view"] ∧
    (derive cups "Cup" ["default", "view"]).Yields derived ∧ (compile cups "Cup" {}).Yields code ∧
    code.constructors.map (·.name) =
      ["newCupView", "newCup", "newCupViewView", "NewViewedCup", "NewCup"] ∧
    code.constructors[4]?.any (·.body.any (· == cupsUnwrapped)) = true ∧
    code.constructors[0]?.any (·.params == [⟨some "res", .pointer (.named none "Cup")⟩]) = true ∧
    ¬ Consistent (derived.projector {}) "Cup" ["default", "view"] code.constructors := by
  have hsep : Separable cups := by decide
  obtain ⟨_, hviews, rfl⟩ : ∃ views, (cups.resultViews "Cup").Yields views ∧
      views = ["default", "view"] := by
    decide +kernel
  obtain ⟨derived, h, hid, hname, hshown⟩ : ∃ derived,
      (derive cups "Cup" ["default", "view"]).Yields derived ∧
      (derived.projector {}).projectedId "Cup" "default" = .ok "Cup#default" ∧
      (derived.projector {}).scope.name "Cup" = .ok "Cup" ∧
      (derived.projector {}).scope.name "Cup#default" = .ok "CupView" := by
    decide +kernel
  obtain ⟨code, hcode, hnames, hcalls, htakes⟩ : ∃ code, (compile cups "Cup" {}).Yields code ∧
      code.constructors.map (·.name) =
        ["newCupView", "newCup", "newCupViewView", "NewViewedCup", "NewCup"] ∧
      code.constructors[4]?.any (·.body.any (· == cupsUnwrapped)) = true ∧
      code.constructors[0]?.any
        (·.params == [⟨some "res", .pointer (.named none "Cup")⟩]) = true := by
    decide +kernel
  refine ⟨derived, code, hviews, h, hcode, hnames, hcalls, htakes, fun hc => ?_⟩
  -- Were the code consistent, no two routes would be namesakes. These two are, by the name of the
  -- projection.
  have hno := hc.unambiguous rfl rfl (extends_of_derive hsep h).1 hsep (by rw [hnames]; decide)
  have hsame : Namesakes (derived.projector {}) (.toView ⟨"Cup", "default"⟩)
      (.fromView ⟨"Cup", "view"⟩) := .projection hid hname hshown
  exact hno _ _ ⟨List.mem_cons_self, .refl⟩ ⟨by decide, .refl⟩ hsame

end Projection
end Shapewright
