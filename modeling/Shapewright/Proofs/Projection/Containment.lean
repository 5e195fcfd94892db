import Shapewright.Proofs.Conversion.Mentions
import Shapewright.Proofs.Projection.Dispatch

/-!
# What the code of a projection refers to

The types of a projection stand in a package of their own. The constructors and their helpers take
from it what is declared there: the type of viewed results and the projected types. The types
themselves refer to each other.

This ends where a projected type keeps something as it was declared. A union is not projected: its
name, its wrappers and the types of its alternatives are taken from the package of the projected
types, which does not declare them. Nothing is said here of the keys of maps, which are kept too.

## From definitions to code

The definition of a projection is composed of what stands in place, of references to projections and
of what is kept (`Composed`). A walk that starts from a projected type stays among these until it
comes to something that is kept, and then anything can follow (`Shown`, `Kept`). By
`Conversion.Mentions` the names that a conversion writes belong to attributes that are met on either
side. On the side of the projection they are the names of projected types, or names that something
kept has put there (`Shown.spells`).

The constructors write these names and those in their signatures. A projector is looked at with a
property of names that may be written (`Permits`), and the property is chosen at the end.
-/

namespace Shapewright

open Projection.ViewedType (projectedId)

namespace Registry

/-- What stands in the type of an attribute decides of what kind it is. Rules and overrides are not
    looked at, so a tag that was taken off makes no difference. -/
theorem kind_shownAs (reg : Registry) (a : Attribute) :
    reg.kind (a.shownAs a.type) = reg.kind a := by
  cases hu : a.userId? with
  | some id =>
    have hsame : Attribute.BothRefer id (a.shownAs a.type) a := ⟨hu, hu⟩
    exact hsame.kind_eq
  | none =>
    have hshown : (a.shownAs a.type).userId? = none := hu
    rw [kind_eq_of_resolve (resolve_of_userId?_eq_none hu),
      kind_eq_of_resolve (resolve_of_userId?_eq_none hshown), Attribute.shownAs]

end Registry

/-- There is a type of the name among the declarations. Names are compared as they are written in
    declarations, without a package. -/
def ViewPackage.Declares (code : ViewPackage) (name : String) : Prop :=
  ∃ d ∈ code.types, d.name = name

/-- Declarations can be searched for a name. -/
instance ViewPackage.decidableDeclares (code : ViewPackage) (name : String) :
    Decidable (code.Declares name) :=
  inferInstanceAs (Decidable (∃ d ∈ code.types, d.name = name))

namespace Projection

variable {reg : Registry} {P : ViewedType → Prop} {a b c d x y : Attribute} {view : Option String}
  {t : UserType} {derived : Derived} {k : ViewedType} {id pid : TypeId} {views : List String}
  {s : Scope} {ctx : Context} {n : TypeName}

/-! ## What a projection is composed of -/

/-- The definition keeps the attribute as it was declared: it is a union, or the key of a map. All
    else in a definition is replaced by what shows it. -/
inductive Retains (reg : Registry) (d : Attribute) : Attribute → Prop
  | union {y : Attribute} (hy : y ∈ d.parts) (hk : reg.kind y = .ok .union) : Retains reg d y
  | key {m key elem : Attribute} (hm : m ∈ d.parts) (ht : m.type = .map key elem) :
      Retains reg d key

/-- The attribute is no reference, or refers to a projection, or stands in what is kept. -/
inductive Composed (reg : Registry) (P : ViewedType → Prop) (d x : Attribute) : Prop
  | inPlace (hu : x.userId? = none)
  | projected {k : ViewedType} (hk : P k) (hid : x.userId? = some (projectedId k))
  | retained {y : Attribute} (hy : Retains reg d y) (hx : x ∈ y.parts)

theorem Retains.of_part (h : Retains reg c y) (hc : c ∈ d.parts) : Retains reg d y := by
  cases h with
  | union hy hk => exact .union (Attribute.parts_subset hc hy) hk
  | key hm ht => exact .key (Attribute.parts_subset hc hm) ht

theorem Composed.of_part (h : Composed reg P c x) (hc : c ∈ d.parts) : Composed reg P d x := by
  cases h with
  | inPlace hu => exact .inPlace hu
  | projected hk hid => exact .projected hk hid
  | retained hy hx => exact .retained (hy.of_part hc) hx

/-- An attribute in place is composed of what is one level below it. -/
theorem composed_of_children (hu : d.userId? = none)
    (h : ∀ c ∈ d.children, ∀ x ∈ c.parts, Composed reg P d x) :
    ∀ x ∈ d.parts, Composed reg P d x := by
  intro x hx
  rcases Attribute.mem_parts_iff.mp hx with rfl | ⟨c, hc, hx⟩
  · exact .inPlace hu
  · exact h c hc x hx

/-- The image of an attribute is composed of these, at any depth. Induction along the image: what it
    keeps is composed as it was, and what it replaces leads to projections. -/
theorem Image.composed (h : Image reg P a view b) : ∀ x ∈ b.parts, Composed reg P b x := by
  induction h with
  -- A structured reference becomes one to a projection. An alias leaves a primitive, and what is
  -- kept has no reference in it or is a union.
  | structured _ _ _ _ hp =>
    intro x hx
    rcases Attribute.mem_parts_iff.mp hx with rfl | ⟨c, hc, -⟩
    · exact .projected hp rfl
    · cases hc
  | @unfolded a r _ _ p _ hk hr =>
    have hrtype : r.type = .primitive p := Registry.type_of_primitive hk hr
    refine composed_of_children ?_ fun c hc => ?_
    · rw [Attribute.userId?, Attribute.shownAs, hrtype]
    · simp [Attribute.children, Attribute.shownAs, hrtype] at hc
  | @kept a _ h =>
    rcases h with ⟨p, hp⟩ | hk
    · refine composed_of_children ?_ fun c hc => ?_
      · rw [Attribute.userId?, Attribute.shownAs, hp]
      · simp [Attribute.children, Attribute.shownAs, hp] at hc
    · have hshown := (Registry.kind_shownAs reg a).trans hk
      exact fun x hx => .retained (.union (Attribute.mem_parts_self _) hshown) hx
  | @array a x y _ _ _ ih =>
    refine composed_of_children rfl fun c hc z hz => ?_
    obtain rfl : c = y := List.mem_singleton.mp hc
    exact (ih z hz).of_part (Attribute.mem_parts_of_mem_children hc)
  | @map a key x y _ _ _ ih =>
    refine composed_of_children rfl fun c hc z hz => ?_
    -- The key of a map is kept as it was, which is why keys are among what is retained.
    obtain rfl | rfl : c = key ∨ c = y := List.mem_pair.mp hc
    · exact .retained (.key (Attribute.mem_parts_self _) rfl) hz
    · exact (ih z hz).of_part (Attribute.mem_parts_of_mem_children hc)
  | @object a _ fields shown _ hn _ ih =>
    refine composed_of_children rfl fun c hc z hz => ?_
    have hpart := Attribute.mem_parts_of_mem_children hc
    obtain ⟨e, he, rfl⟩ := List.mem_map.mp hc
    obtain ⟨i, hi⟩ := List.mem_iff_getElem?.mp he
    have hlt : i < fields.length := by
      have hlength : shown.length = fields.length := by simpa using congrArg List.length hn
      exact hlength ▸ (List.getElem?_eq_some_iff.mp hi).1
    exact (ih i fields[i] e (List.getElem?_eq_getElem hlt) hi z hz).of_part hpart

/-- The definition of a projected type is composed of these, at any depth. An object is composed of
    images, and everything else is an image as a whole. -/
theorem Defines.composed {name : String} (h : Defines reg P t name d) :
    ∀ x ∈ d.parts, Composed reg P d x := by
  cases h with
  | object _ _ hs =>
    refine composed_of_children rfl fun c hc z hz => ?_
    have hpart := Attribute.mem_parts_of_mem_children hc
    obtain ⟨e, he, rfl⟩ := List.mem_map.mp hc
    obtain ⟨_, -, -, _, -, himage⟩ := hs.image e he
    exact (himage.composed z hz).of_part hpart
  | collection _ _ himage => exact himage.composed

/-- Where a definition is itself a reference, it is one to another projection. A result that is an
    alias of another result is projected to such a reference. -/
theorem Defines.reference {name : String} (h : Defines reg P t name d) :
    d.userId? = none ∨ ∃ k, P k ∧ d.userId? = some (projectedId k) := by
  cases h with
  | object => exact .inl rfl
  | collection hk hc himage =>
    cases himage with
    | structured _ _ _ _ hp => exact .inr ⟨_, hp, rfl⟩
    | unfolded _ hk' =>
      obtain rfl := Except.ok.inj (hk.symm.trans hk')
      simp at hc
    | kept h =>
      rcases h with ⟨p, hp⟩ | hk'
      · exact .inl (by rw [Attribute.userId?, Attribute.shownAs, hp])
      · obtain rfl := Except.ok.inj (hk.symm.trans hk')
        simp at hc
    | array => exact .inl rfl
    | map => exact .inl rfl
    | object => exact .inl rfl

/-! ## What a walk meets in projections -/

/-- The attribute is the definition of a projection. It is the attribute that stands in the registry
    that was derived. -/
def Derived.Definition (derived : Derived) (d : Attribute) : Prop :=
  ∃ k u, derived.Has k ∧ derived.registry.find? (projectedId k) = some u ∧ u.definition = d

/-- The attribute refers to a projection, or stands in the definition of one. Code that is written
    for such attributes names projected types, apart from what is kept. -/
inductive Shown (derived : Derived) (a : Attribute) : Prop
  | projected {k : ViewedType} (hk : derived.Has k) (hid : a.userId? = some (projectedId k))
  | inPlace {d : Attribute} (hd : derived.Definition d) (ha : a ∈ d.parts) (hu : a.userId? = none)

/-- A walk meets the attribute from what a projection keeps as it was declared. From there on
    references are followed into the full types, which nobody projects. -/
def Kept (reg : Registry) (derived : Derived) (a : Attribute) : Prop :=
  ∃ d y, derived.Definition d ∧ Retains reg d y ∧ derived.registry.Meets y a

/-- Every definition among the projections is composed of these. Where it is a reference, it is one
    to a projection. -/
theorem Provides.composed (hp : Provides reg derived) (hd : derived.Definition d) :
    (∀ x ∈ d.parts, Composed reg derived.Has d x) ∧
      (d.userId? = none ∨ ∃ k, derived.Has k ∧ d.userId? = some (projectedId k)) := by
  obtain ⟨k, u, hk, hu, rfl⟩ := hd
  obtain ⟨k', t, u', -, -, -, hu', hdefines⟩ := hp.defined k hk
  rw [hu] at hu'
  cases hu'
  exact ⟨hdefines.composed, hdefines.reference⟩

/-- What stands in a definition is shown, or belongs to what is kept. -/
theorem Provides.shown_or_kept (hp : Provides reg derived) (hd : derived.Definition d)
    (hx : x ∈ d.parts) : Shown derived x ∨ Kept reg derived x := by
  cases (hp.composed hd).1 x hx with
  | inPlace hu => exact .inl (.inPlace hd hx hu)
  | projected hk hid => exact .inl (.projected hk hid)
  | retained hy hxy => exact .inr ⟨d, _, hd, hy, Registry.meets_of_mem_parts hxy⟩

/-- A reference to a projection leads to the definition of one, by way of others maybe. The
    recursion is on the references that may still be followed, and every one on the way is to a
    projection. -/
theorem Provides.resolve (hp : Provides reg derived) : ∀ {hops : Nat} {a r : Attribute}
    {k : ViewedType}, derived.Has k → a.userId? = some (projectedId k) →
    derived.registry.resolveWithin hops a = .ok r → derived.Definition r ∧ r.userId? = none := by
  intro hops
  induction hops with
  | zero =>
    intro a r k hk hid h
    rw [Registry.resolveWithin, Attribute.type_of_userId? hid] at h
    dsimp only at h
    split at h <;> cases h
  | succ hops ih =>
    intro a r k hk hid h
    rw [Registry.resolveWithin, Attribute.type_of_userId? hid] at h
    dsimp only at h
    split at h
    · cases h
    · rename_i u hu
      have hd : derived.Definition u.definition := ⟨k, u, hk, hu, rfl⟩
      -- The definition of a projection has a structure of its own, or refers to another projection.
      rcases (hp.composed hd).2 with hnone | ⟨k', hk', hid'⟩
      · rw [Registry.resolveWithin_of_userId?_eq_none hnone] at h
        cases h
        exact ⟨hd, hnone⟩
      · exact ih hk' hid' h

/-- One step from a projection leads to a projection, or to what is kept. What is kept are the parts
    of unions and the keys of maps, and from there on everything may be met. -/
theorem Shown.step (hp : Provides reg derived) (ha : Shown derived a)
    (h : derived.registry.Steps a x) : Shown derived x ∨ Kept reg derived x := by
  rcases h with hchild | hresolve
  · cases ha with
    | projected _ hid => simp [Attribute.children, Attribute.type_of_userId? hid] at hchild
    | inPlace hd ha _ =>
      exact hp.shown_or_kept hd
        (Attribute.parts_subset ha (Attribute.mem_parts_of_mem_children hchild))
  · cases ha with
    | projected hk hid =>
      obtain ⟨hd, hu⟩ := hp.resolve hk hid hresolve
      exact .inl (.inPlace hd (Attribute.mem_parts_self _) hu)
    | inPlace hd ha hu =>
      rw [Registry.resolve_of_userId?_eq_none hu] at hresolve
      cases hresolve
      exact .inl (.inPlace hd ha hu)

/-- Any number of steps from a projection leads to a projection, or to what is kept. -/
theorem Shown.meets (hp : Provides reg derived) (ha : Shown derived a)
    (h : derived.registry.Meets a x) : Shown derived x ∨ Kept reg derived x := by
  induction h with
  | refl => exact .inl ha
  | tail _ hstep ih =>
    rcases ih with hshown | ⟨d, y, hd, hy, hmeets⟩
    · exact hshown.step hp hstep
    · exact .inr ⟨d, y, hd, hy, hmeets.tail hstep⟩

/-! ## Names -/

/-- What is kept puts the name into types. Such a name is written in the package of the projections
    although it is not declared there. -/
def Lent (reg : Registry) (derived : Derived) (s : Scope) (ctx : Context) (n : TypeName) : Prop :=
  ∃ a, Kept reg derived a ∧ a.Spells s ctx n

/-- A primitive in a projection has a type of its own, of this name. The design gives that name, so
    no declaration can be asked for. -/
def Overridden (derived : Derived) (name : String) : Prop :=
  ∃ d p a, derived.Definition d ∧ a ∈ d.parts ∧ a.type = .primitive p ∧
    a.overrides.typeName = some name

/-- The name that a projection puts into types is that of a projected type, unless the type of a
    primitive was chosen. -/
theorem Shown.spells (ha : Shown derived a) (hn : a.Spells s ctx n) :
    (∃ k name, derived.Has k ∧ s.name (projectedId k) = .ok name ∧ n = ctx.typeName name) ∨
      (∃ name, Overridden derived name ∧ n = (none, name)) ∨ Lent reg derived s ctx n := by
  -- A union that stands in a projection is one that it keeps.
  have kept : ∀ {name : String} {alternatives : List (String × Attribute)},
      a.type = .union name alternatives → Kept reg derived a := by
    intro name alternatives ht
    have hu : a.userId? = none := by rw [Attribute.userId?, ht]
    cases ha with
    | projected _ hid => simp [hu] at hid
    | inPlace hd ha _ =>
      have hk : reg.kind a = .ok .union := by
        rw [Registry.kind_eq_of_resolve (Registry.resolve_of_userId?_eq_none hu), ht]
      exact ⟨_, a, hd, .union ha hk, .refl⟩
  cases hn with
  | user hid hname =>
    cases ha with
    | projected hk hid' =>
      obtain rfl := Option.some.inj (hid.symm.trans hid')
      exact .inl ⟨_, _, hk, hname, rfl⟩
    | inPlace _ _ hu => simp [hu] at hid
  | union ht => exact .inr (.inr ⟨a, kept ht, .union ht⟩)
  | wrapper ht hx => exact .inr (.inr ⟨a, kept ht, .wrapper ht hx⟩)
  | override ht ho =>
    cases ha with
    | projected _ hid => simp [Attribute.userId?, ht] at hid
    | inPlace hd ha _ => exact .inr (.inl ⟨_, ⟨_, _, a, hd, ha, ht, ho⟩, rfl⟩)

/-! ## Constructors -/

/-- The names of a projection that may be written: those of full types, and those that what is met
    from a projection puts into types. -/
structure Permits (p : Projector) (W : TypeName → Prop) : Prop where
  full : ∀ {a : Attribute} {n : TypeName}, a.Spells p.scope p.service n → W n
  shown : ∀ {pid : TypeId} {a : Attribute} {n : TypeName}, pid ∈ p.ids.map Prod.snd →
    p.scope.registry.Meets (.user pid) a → a.Spells p.scope p.projected n → W n

/-- All names in the function may be written. -/
def Writes (W : TypeName → Prop) (f : Func) : Prop := ∀ n ∈ f.typeNames, W n

/-- All names in the functions and the helpers may be written. -/
structure AllWrite (W : TypeName → Prop) (funcs : List Func) (helpers : List Helper) : Prop where
  funcs : ∀ f ∈ funcs, Writes W f
  helpers : ∀ h ∈ helpers, Writes W h.func

section Constructors

variable {p : Projector} {W : TypeName → Prop} {elem : TypeId} {view : String} {func : Func}
  {funcs : List Func} {helpers helpers' more : List Helper} {full shown : TypeRef}

/-- A function writes the types of its parameters and its result, and what is in its body. The
    comment is a text and names no types. -/
theorem writes_func {name : String} {doc : Option String} {params : List Param} {u : TypeRef}
    {body : Block} (hp : ∀ x ∈ params, ∀ n ∈ x.type.names, W n) (hu : ∀ n ∈ u.names, W n)
    (hb : ∀ n ∈ Block.typeNames body, W n) :
    Writes W { name, doc, params, results := [⟨none, u⟩], body } := by
  intro n hn
  rw [Func.typeNames, List.mem_append, List.mem_append, List.mem_flatMap] at hn
  rcases hn with (⟨x, hx, hn⟩ | hn) | hn
  · exact hp x hx n hn
  · exact hu n (by simpa using hn)
  · exact hb n hn

/-- A conversion writes what is met from either side. The code of a conversion names the types of
    its two sides and of what is nested in them, so what may be written is asked of both. -/
theorem convert_writes {source target : Context} {i j : TypeId} {value place : String}
    {code : Conversion.Compiled}
    (hsource : ∀ {x n}, p.scope.registry.Meets (.user i) x → x.Spells p.scope source n → W n)
    (htarget : ∀ {x n}, p.scope.registry.Meets (.user j) x → x.Spells p.scope target n → W n)
    (h : (p.convert source target i j value place).Yields code) :
    (∀ n ∈ Block.typeNames (code.body ++ [.ret [.ident place]]), W n) ∧
      ∀ h ∈ code.helpers, Writes W h.func := by
  unfold Projector.convert at h
  obtain ⟨met, hcode⟩ := HelperWalk.yields_alone.mp h
  obtain ⟨hbody, hhelpers⟩ := Conversion.compile_mentions (.between ..) hcode
  have permitted : ∀ {n}, Conversion.Mentions { scope := p.scope, source, target }
      (.user i, .user j) n → W n := by
    rintro n ⟨q, hq, hspells | hspells⟩
    · exact hsource hq.source hspells
    · exact htarget hq.target hspells
  refine ⟨fun n hn => permitted (hbody n ?_), fun h hh n hn => permitted (hhelpers h hh n hn)⟩
  simpa [Stmt.typeNames, Expr.typeNamesAll, Expr.typeNames] using hn

theorem typeNames_collectionLoop (type : TypeRef) (input output func : String) :
    Block.typeNames (Projector.collectionLoop type input output func) = type.names := by
  simp [Projector.collectionLoop, Stmt.typeNames, Stmt.typeNamesAll, Expr.typeNames,
    Expr.typeNamesAll]

variable (hw : Permits p W)
include hw

theorem Permits.full_ref (h : p.userRef p.service id = .ok full) : ∀ n ∈ full.names, W n := by
  intro n hn
  obtain ⟨x, -, hspells⟩ := Scope.spells_of_typeRef h hn
  exact hw.full hspells

/-- The type of a projection may be written. -/
theorem Permits.shown_ref (hid : p.projectedId id view = .ok pid)
    (h : p.userRef p.projected pid = .ok shown) : ∀ n ∈ shown.names, W n := by
  intro n hn
  obtain ⟨x, hx, hspells⟩ := Scope.spells_of_typeRef h hn
  exact hw.shown (List.mem_map_of_mem (mem_ids_of_projectedId hid))
    (Registry.meets_of_mem_parts hx) hspells

/-- The function that shows an object writes the types of both sides, and so do its helpers. The
    function takes the one type and returns the other, and both are references of the scope. -/
theorem Permits.objectToView (hh : ∀ h ∈ helpers, Writes W h.func)
    (h : (p.objectToView id view helpers).Yields (func, helpers')) :
    AllWrite W [func] helpers' := by
  unfold Projector.objectToView at h
  simp only [Walk.yields_bind, Walk.yields_liftM, Walk.yields_pure, Prod.mk.injEq] at h
  obtain ⟨pid, hid, code, hcode, _, hunion, name, -, _, -, _, -, full, hfull, shown, hshown, rfl,
    rfl⟩ := h
  have hmem := List.mem_map_of_mem (f := Prod.snd) (mem_ids_of_projectedId hid)
  obtain ⟨hbody, hmore⟩ := convert_writes (fun _ => hw.full) (hw.shown hmem) hcode
  refine ⟨List.forall_mem_singleton.mpr ?_, fun h hh' => ?_⟩
  · exact writes_func (List.forall_mem_singleton.mpr (hw.full_ref hfull))
      (hw.shown_ref hid hshown) hbody
  · exact (Helper.mem_of_union hunion hh').elim (hh h) (hmore h)

theorem Permits.objectFromView (hh : ∀ h ∈ helpers, Writes W h.func)
    (h : (p.objectFromView id view helpers).Yields (func, helpers')) :
    AllWrite W [func] helpers' := by
  unfold Projector.objectFromView at h
  simp only [Walk.yields_bind, Walk.yields_liftM, Walk.yields_pure, Prod.mk.injEq] at h
  obtain ⟨pid, hid, code, hcode, _, hunion, name, -, _, -, _, -, shown, hshown, full, hfull, rfl,
    rfl⟩ := h
  have hmem := List.mem_map_of_mem (f := Prod.snd) (mem_ids_of_projectedId hid)
  obtain ⟨hbody, hmore⟩ := convert_writes (hw.shown hmem) (fun _ => hw.full) hcode
  refine ⟨List.forall_mem_singleton.mpr ?_, fun h hh' => ?_⟩
  · exact writes_func (List.forall_mem_singleton.mpr (hw.shown_ref hid hshown))
      (hw.full_ref hfull) hbody
  · exact (Helper.mem_of_union hunion hh').elim (hh h) (hmore h)

theorem Permits.collectionToView (h : p.collectionToView id elem view = .ok func) :
    Writes W func := by
  unfold Projector.collectionToView at h
  simp only [except_bind_eq_ok, except_pure_eq_ok] at h
  obtain ⟨pid, hid, shown, hshown, name, -, _, -, _, -, _, -, full, hfull, rfl⟩ := h
  have hnames := hw.shown_ref hid hshown
  refine writes_func (List.forall_mem_singleton.mpr (hw.full_ref hfull)) hnames ?_
  rwa [typeNames_collectionLoop]

theorem Permits.collectionFromView (h : p.collectionFromView id elem view = .ok func) :
    Writes W func := by
  unfold Projector.collectionFromView at h
  simp only [except_bind_eq_ok, except_pure_eq_ok] at h
  obtain ⟨pid, hid, full, hfull, name, -, _, -, _, -, _, -, shown, hshown, rfl⟩ := h
  have hnames := hw.full_ref hfull
  refine writes_func (List.forall_mem_singleton.mpr (hw.shown_ref hid hshown)) hnames ?_
  rwa [typeNames_collectionLoop]

theorem Permits.constructorsWithin : ∀ {levels : Nat} {id : TypeId} {funcs : List Func}
    {helpers helpers' : List Helper}, (∀ h ∈ helpers, Writes W h.func) →
    (p.constructorsWithin view levels id helpers).Yields (funcs, helpers') →
    AllWrite W funcs helpers' := by
  intro levels
  induction levels with
  | zero =>
    intro id funcs helpers helpers' hh h
    rcases constructorsWithin_cases h with ⟨-, _, _, _, hto, hfrom, rfl⟩ | ⟨_, _, _, _, _, hn, -⟩
    · have hto := hw.objectToView hh hto
      have hfrom := hw.objectFromView hto.helpers hfrom
      exact ⟨List.forall_mem_append.mpr ⟨hto.funcs, hfrom.funcs⟩, hfrom.helpers⟩
    · cases hn
  | succ levels ih =>
    intro id funcs helpers helpers' hh h
    rcases constructorsWithin_cases h with ⟨-, _, _, _, hto, hfrom, rfl⟩ |
      ⟨elem, n, others, toView, fromView, hn, -, hothers, hto, hfrom, rfl⟩
    · have hto := hw.objectToView hh hto
      have hfrom := hw.objectFromView hto.helpers hfrom
      exact ⟨List.forall_mem_append.mpr ⟨hto.funcs, hfrom.funcs⟩, hfrom.helpers⟩
    · cases hn
      have hothers := ih hh hothers
      refine ⟨List.forall_mem_append.mpr ⟨hothers.funcs, ?_⟩, hothers.helpers⟩
      refine List.forall_mem_cons.mpr ⟨hw.collectionToView hto, ?_⟩
      exact List.forall_mem_singleton.mpr (hw.collectionFromView hfrom)

theorem Permits.allConstructors : ∀ {views : List String} {funcs all : List Func}
    {helpers helpers' : List Helper}, AllWrite W funcs helpers →
    (p.allConstructors id funcs helpers views).Yields (all, helpers') →
    AllWrite W all helpers' := by
  intro views
  induction views with
  | nil =>
    intro funcs all helpers helpers' hall h
    rw [Projector.allConstructors, Walk.yields_pure, Prod.mk.injEq] at h
    obtain ⟨rfl, rfl⟩ := h
    exact hall
  | cons view rest ih =>
    intro funcs all helpers helpers' hall h
    rw [Projector.allConstructors, Walk.yields_bind] at h
    obtain ⟨⟨more, helpers₁⟩, hmore, h⟩ := h
    have hmore := hw.constructorsWithin hall.helpers hmore
    refine ih ⟨fun f hf => ?_, hmore.helpers⟩ h
    exact (mem_appendNew hf).elim (hall.funcs f) (hmore.funcs f)

/-- The functions that choose between the views write the type of viewed results besides. It is the
    type that carries a projection together with the name of its view. -/
theorem Permits.viewedConstructors
    (hwrapper : ∀ name, p.scope.name id = .ok name → W (p.projected.typeName name))
    (h : p.viewedConstructors id views = .ok funcs) : ∀ f ∈ funcs, Writes W f := by
  unfold Projector.viewedConstructors at h
  simp only [except_bind_eq_ok, except_pure_eq_ok] at h
  obtain ⟨name, hname, full, hfull, wrap, hwrap, unwrap, hunwrap, rfl⟩ := h
  have hfull := hw.full_ref hfull
  have hwrapper := hwrapper name hname
  have hvalues : ∀ view, Expr.typeNamesAll (Validation.viewValues view) = [] := by
    intro view
    unfold Validation.viewValues
    split <;> simp [Expr.typeNamesAll, Expr.typeNames]
  -- Wrapping calls functions and writes no types; unwrapping asserts the projected type in each
  -- case.
  have hwrap : Stmt.typeNamesCases wrap = [] := by
    rw [List.eq_nil_iff_forall_not_mem]
    intro n hn
    obtain ⟨case, hcase, hn⟩ := Block.mem_typeNames_cases.mp hn
    obtain ⟨view, -, hmade⟩ := forall₂_mem_right (except_mapM_eq_ok.mp hwrap) hcase
    obtain ⟨_, _, -, -, rfl⟩ := wrapCase_eq_ok.mp hmade
    simp [hvalues, Expr.typeNames, Expr.typeNamesAll] at hn
  have hunwrap : ∀ n ∈ Stmt.typeNamesCases unwrap, W n := by
    intro n hn
    obtain ⟨case, hcase, hn⟩ := Block.mem_typeNames_cases.mp hn
    obtain ⟨view, -, hmade⟩ := forall₂_mem_right (except_mapM_eq_ok.mp hunwrap) hcase
    obtain ⟨pid, shown, _, hid, hshown, -, rfl⟩ := unwrapCase_eq_ok.mp hmade
    refine hw.shown_ref hid hshown n ?_
    simpa [hvalues, Expr.typeNames, Expr.typeNamesAll] using hn
  have hpointer : ∀ n ∈ (p.projected.qualify name).pointer.names, W n := by
    simpa [TypeRef.names] using hwrapper
  refine List.forall_mem_cons.mpr ⟨?_, List.forall_mem_singleton.mpr ?_⟩
  · refine writes_func (List.forall_mem_cons.mpr ⟨hfull, ?_⟩) hpointer ?_
    · simp [TypeRef.names]
    · simpa [Stmt.typeNames, Stmt.typeNamesAll, Expr.typeNames, Expr.typeNamesAll,
        Expr.typeNamesFields, TypeRef.names, hwrap] using hwrapper
  · refine writes_func (List.forall_mem_singleton.mpr hpointer) hfull ?_
    rw [Block.typeNames_cons, List.forall_mem_append]
    refine ⟨hfull, ?_⟩
    simpa [Stmt.typeNames, Stmt.typeNamesAll, Expr.typeNames, Expr.typeNamesAll] using hunwrap

end Constructors

/-! ## Declarations -/

/-- The declarations refer to each other, and else to what projections keep as it was declared. In
    the types, primitives can have types that were chosen for them. -/
structure Contained (reg : Registry) (derived : Derived) (package : String) (code : ViewPackage) :
    Prop where
  functions : ∀ f ∈ code.constructors ++ code.helpers.map (·.func), ∀ name,
    (some package, name) ∈ f.typeNames → code.Declares name ∨
      Lent reg derived (.ofRegistry derived.registry) (Context.projected package)
        (some package, name)
  types : ∀ d ∈ code.types, ∀ name, (none, name) ∈ d.definition.names → code.Declares name ∨
    Overridden derived name ∨
      Lent reg derived (.ofRegistry derived.registry) Projector.localContext (none, name)

theorem typeDecl_eq_ok {p : Projector} {decl : TypeDecl} (h : p.typeDecl pid = .ok decl) :
    ∃ u type, p.scope.registry.find? pid = some u ∧
      p.scope.typeRef Projector.localContext u.definition = .ok type ∧
      p.scope.name pid = .ok decl.name ∧ decl.definition = type.pointee := by
  unfold Projector.typeDecl at h
  simp only [except_bind_eq_ok, except_pure_eq_ok, Registry.get_eq_ok] at h
  obtain ⟨u, hu, type, htype, name, hname, rfl⟩ := h
  exact ⟨u, type, hu, htype, hname, rfl⟩

theorem wrapperType_eq_ok {p : Projector} {decl : TypeDecl} (h : p.wrapperType id = .ok decl) :
    p.scope.name id = .ok decl.name ∧ decl.definition.names = [] := by
  unfold Projector.wrapperType at h
  simp only [except_bind_eq_ok, except_pure_eq_ok] at h
  obtain ⟨name, hname, rfl⟩ := h
  exact ⟨hname, by simp [TypeRef.names, TypeRef.namesFields]⟩

/-- Each projection is declared under its name, so what is met from projections puts declared names
    into types, chosen ones, and those of what is kept. -/
theorem Provides.declares {p : Projector} {decls : List TypeDecl} (hp : Provides reg derived)
    (hdecls : List.Forall₂ (fun e decl => p.typeDecl e.2 = .ok decl) derived.ids decls)
    (ha : Shown derived a ∨ Kept reg derived a) (hn : a.Spells p.scope ctx n) :
    (∃ decl ∈ decls, n = ctx.typeName decl.name) ∨
      (∃ name, Overridden derived name ∧ n = (none, name)) ∨ Lent reg derived p.scope ctx n := by
  rcases ha with hshown | hkept
  · rcases hshown.spells hn with ⟨k, name, hk, hname, rfl⟩ | hrest
    · obtain ⟨e, he, rfl⟩ := List.mem_map.mp hk
      obtain ⟨decl, hmem, hdecl⟩ := forall₂_mem_left hdecls he
      obtain ⟨-, -, -, -, hdeclared, -⟩ := typeDecl_eq_ok hdecl
      rw [hp.ids e he, hname] at hdeclared
      exact .inl ⟨decl, hmem, by rw [Except.ok.inj hdeclared]⟩
    · exact .inr hrest
  · exact .inr (.inr ⟨a, hkept, hn⟩)

/-- A name that belongs to a package was not put there by what belongs to another. A context has one
    package for all the types it names, so the name tells the context. -/
theorem package_of_spells {package name : String} (h : a.Spells s ctx (some package, name)) :
    ctx.package = package := by
  have named : ∀ {other : String}, ctx.typeName other = (some package, name) →
      ctx.package = package := by
    intro other heq
    unfold Context.typeName at heq
    split at heq
    · cases heq
    · exact Option.some.inj (Prod.mk.inj heq).1
  generalize hn : (some package, name) = n at h
  cases h with
  | user => exact named hn.symm
  | union => exact named hn.symm
  | wrapper => exact named hn.symm
  | override => cases hn

theorem typeName_projected {package : String} (h : package ≠ "") (name : String) :
    (Context.projected package).typeName name = (some package, name) := by
  have hempty : package.isEmpty = false := by simpa using h
  rw [Context.typeName, Context.projected, hempty]
  rfl

section

variable {options : ProjectionOptions} {decls : List TypeDecl} {declared : String → Prop}
  (hp : Provides reg derived)
  (hdecls : List.Forall₂
    (fun e decl => (derived.projector options).typeDecl e.2 = .ok decl) derived.ids decls)
include hp hdecls

/-- Full types are in no need of the package, and projections are declared there. The second premise
    keeps the two packages apart, without which a full type could be taken for one that is shown. -/
theorem Provides.permits (hpackage : options.package ≠ "")
    (hservice : options.service.package ≠ options.package)
    (hdeclared : ∀ decl ∈ decls, declared decl.name) :
    Permits (derived.projector options) fun n => ∀ name, n = (some options.package, name) →
      declared name ∨ Lent reg derived (.ofRegistry derived.registry)
        (Context.projected options.package) n where
  full := by
    rintro a n hspells name rfl
    exact absurd (package_of_spells hspells) hservice
  -- A type that the package names is declared there, or belongs to a union that was lent to it.
  shown := by
    rintro pid a n hpid hmeets hspells name rfl
    obtain ⟨e, he, rfl⟩ := List.mem_map.mp hpid
    have hshown : Shown derived (.user e.2) :=
      .projected (List.mem_map_of_mem he) (congrArg some (hp.ids e he))
    rcases hp.declares hdecls (hshown.meets hp hmeets) hspells with
      ⟨decl, hmem, hname⟩ | ⟨_, -, hname⟩ | hlent
    · rw [Derived.projector, typeName_projected hpackage, Prod.mk.injEq] at hname
      exact .inl (hname.2 ▸ hdeclared decl hmem)
    · cases hname
    · exact .inr hlent

/-- The definitions of the declared types refer to what is declared, primitives with types of their
    own aside. -/
theorem Provides.types_contained (hdeclared : ∀ decl ∈ decls, declared decl.name)
    {decl : TypeDecl} (hmem : decl ∈ decls) {name : String}
    (hn : (none, name) ∈ decl.definition.names) : declared name ∨ Overridden derived name ∨
      Lent reg derived (.ofRegistry derived.registry) Projector.localContext (none, name) := by
  obtain ⟨e, he, hdecl⟩ := forall₂_mem_right hdecls hmem
  obtain ⟨u, type, hu, htype, -, hdefinition⟩ := typeDecl_eq_ok hdecl
  rw [hdefinition, TypeRef.names_pointee] at hn
  obtain ⟨x, hx, hspells⟩ := Scope.spells_of_typeRef htype hn
  rw [hp.ids e he] at hu
  have hd : derived.Definition u.definition := ⟨e.1, u, List.mem_map_of_mem he, hu, rfl⟩
  rcases hp.declares hdecls (hp.shown_or_kept hd hx) hspells with
    ⟨decl, hmem, hname⟩ | ⟨_, hover, hname⟩ | hlent
  · exact .inl ((Prod.mk.inj hname).2 ▸ hdeclared decl hmem)
  · obtain rfl := (Prod.mk.inj hname).2
    exact .inr (.inl hover)
  · exact .inr (.inr hlent)

omit hdecls in
theorem Provides.package_contained {v : Validation} {code : ViewPackage}
    (hpackage : options.package ≠ "") (hservice : options.service.package ≠ options.package)
    (h : (package (derived.projector options) v id views).Yields code) :
    Contained reg derived options.package code := by
  unfold package at h
  simp only [Walk.yields_bind, Walk.yields_liftM, Walk.yields_mapM, Walk.yields_pure] at h
  obtain ⟨wrapper, hwrapper, decls, hdecls, ⟨funcs, helpers⟩, hfuncs, viewed, hviewed, _, -, _, -,
    hcode⟩ := h
  obtain ⟨hname, hnames⟩ := wrapperType_eq_ok hwrapper
  -- The type of viewed results is declared in front of the projected types.
  have htypes : code.types = wrapper :: decls := hcode ▸ rfl
  have hdeclared : ∀ decl ∈ wrapper :: decls, code.Declares decl.name :=
    fun decl hdecl => ⟨decl, htypes ▸ hdecl, rfl⟩
  rw [List.forall_mem_cons] at hdeclared
  have hw := hp.permits hdecls hpackage hservice hdeclared.2
  have hmade := hw.allConstructors ⟨by simp, by simp⟩ hfuncs
  have hviewed := hw.viewedConstructors (fun name hname' other hother => .inl ?_) hviewed
  · constructor
    · subst hcode
      intro f hf name hn
      rcases List.mem_append.mp hf with hf | hf
      · rcases List.mem_append.mp hf with hf | hf
        · exact hmade.funcs f hf _ hn name rfl
        · exact hviewed f hf _ hn name rfl
      · obtain ⟨helper, hhelper, rfl⟩ := List.mem_map.mp hf
        exact hmade.helpers helper hhelper _ hn name rfl
    · intro decl hdecl name hn
      rcases List.mem_cons.mp (htypes ▸ hdecl) with rfl | hdecl
      · simp [hnames] at hn
      · exact hp.types_contained hdecls hdeclared.2 hdecl hn
  · rw [hname, Except.ok.injEq] at hname'
    rw [Derived.projector, typeName_projected hpackage, Prod.mk.injEq] at hother
    exact hother.2 ▸ hname' ▸ hdeclared.1

end

/-- What the code of a projection refers to in its own package is declared there, but for what stems
    from what a projected type keeps as it was declared. The package must have a name and be another
    one than that of the service, since otherwise names in the code do not tell what they refer
    to. -/
theorem compile_contained (reg : Registry) (id : TypeId) (options : ProjectionOptions)
    (hpackage : options.package ≠ "") (hservice : options.service.package ≠ options.package)
    (code : ViewPackage) (h : (compile reg id options).Yields code) :
    ∃ views derived, (reg.resultViews id).Yields views ∧ (derive reg id views).Yields derived ∧
      Contained reg derived options.package code := by
  rw [compile_eq] at h
  simp only [Walk.yields_bind] at h
  obtain ⟨views, hviews, derived, hderived, h⟩ := h
  exact ⟨views, derived, hviews, hderived,
    (provides_of_derive hderived).1.package_contained hpackage hservice h⟩

/-- A rack of cups under two views: the tiny view of a cup is referred to by a constructor and
    declared. -/
theorem compile_contained_racks : ∃ code, (compile racks "Rack" {}).Yields code ∧
    (∃ f ∈ code.constructors, (some "views", "CupViewTiny") ∈ f.typeNames) ∧
    code.Declares "CupViewTiny" ∧
    ∃ views derived, (racks.resultViews "Rack").Yields views ∧
      (derive racks "Rack" views).Yields derived ∧ Contained racks derived "views" code := by
  obtain ⟨code, h, hnames, hdeclares⟩ : ∃ code, (compile racks "Rack" {}).Yields code ∧
      (∃ f ∈ code.constructors, (some "views", "CupViewTiny") ∈ f.typeNames) ∧
      code.Declares "CupViewTiny" := by
    decide +kernel
  exact ⟨code, h, hnames, hdeclares,
    compile_contained racks "Rack" {} (by decide) (by decide) code h⟩

/-- A shape is a circle or a label. -/
def shapes : List (String × Attribute) :=
  [("circle", { type := .primitive .int }), ("label", { type := .primitive .string })]

/-- Figures whose shape is a union. -/
def figures : Registry where
  types := [
    { id := "Figure", name := "Figure", kind := .result
      definition := { type := .object [("shape", { type := .union "Shape" shapes })] }
      views := [{ name := "default", attributes := [.name "shape"] }] }]
  nodup := by decide

/-- The union is kept, and nobody declares it: the constructor makes a value of one of its wrappers,
    and the projected type has a field of the type of the union. -/
theorem compile_figures_not_declared : ∃ code, (compile figures "Figure" {}).Yields code ∧
    (∃ f ∈ code.constructors, (some "views", "ShapeCircle") ∈ f.typeNames) ∧
    ¬ code.Declares "ShapeCircle" ∧
    (∃ decl ∈ code.types, (none, "Shape") ∈ decl.definition.names) ∧
    ¬ code.Declares "Shape" := by
  decide +kernel

end Projection
end Shapewright
