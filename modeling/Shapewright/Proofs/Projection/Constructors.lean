import Shapewright.Projection.Constructors
import Shapewright.Proofs.Conversion.Merging
import Shapewright.Proofs.Projection.Conversions
import Shapewright.Proofs.Projection.Derivability

/-!
# What can be wrong with the constructors of a projection

The constructors of a collection call those of its elements, so every type on the way to the
innermost elements has to have a name and a projection under the view. The code of a constructor is
a conversion of a type and its projection, which never fails; but the helpers of all constructors
are kept together, and there must not be two different ones of one name.

## Down to the elements

Constructors are written for a type, then for the named type of its elements, and so on until there
is no array any more (`Encloses`, `Single`). An array of arrays in place has nothing to call for its
elements, and an array that leads back to itself has no end. The second is not a fault here but a
walk that gives no result, so the statements are about how a walk fails and what it yields, and not
about whether it ends.

## Helpers in the state

The functions are written one after the other and hand on the helpers of all before them. What is
said of such a walk is always the same: it fails for one of some faults, or since two helpers clash,
and otherwise none of the faults is there and the helpers are those of the code (`Settles`). The
property goes over to compositions, which turns the rest into a walk along the definitions.
-/

namespace Shapewright

open Relation
open Projection.ViewedType (projectedId)

/-! ## Helpers that are gathered -/

namespace Helper

/-- Two of the helpers differ and have one name. This is the fault that putting helpers together can
    end with, and there is no other. -/
inductive Clash (H : Helper → Prop) : Fault → Prop
  | intro {a b : Helper} (ha : H a) (hb : H b) (hname : a.name = b.name) (hne : (a == b) = false) :
      Clash H (.defect (.helperClash b.name))

/-- The helpers are those with the property, each of them once. They are gathered batch by batch,
    and the batches are remembered because a clash is between two of them. -/
def Collected (H : Helper → Prop) (helpers : List Helper) : Prop :=
  ∃ batches, IsUnion helpers batches ∧ ∀ h, h ∈ batches.flatten ↔ H h

variable {H H' : Helper → Prop} {helpers more all : List Helper} {f : Fault}

theorem Clash.mono (h : Clash H f) (hH : ∀ k, H k → H' k) : Clash H' f := by
  obtain ⟨ha, hb, hname, hne⟩ := h
  exact .intro (hH _ ha) (hH _ hb) hname hne

theorem Collected.congr (h : Collected H helpers) (hH : ∀ k, H k ↔ H' k) :
    Collected H' helpers := by
  obtain ⟨batches, hu, hmem⟩ := h
  exact ⟨batches, hu, fun k => (hmem k).trans (hH k)⟩

theorem Collected.nil : Collected (fun _ => False) [] := ⟨[], .nil, by simp⟩

/-- Helpers that were collected do not clash. -/
theorem Collected.not_clash (h : Collected H helpers) : ¬ Clash H f := by
  obtain ⟨batches, hu, hmem⟩ := h
  intro hclash
  obtain ⟨ha, hb, hname, hne⟩ := hclash
  have hsame := hu.gathers.agree _ ((hmem _).mpr ha) _ ((hmem _).mpr hb) hname
  rw [hne] at hsame
  cases hsame

theorem Collected.union (h : Collected H helpers) (hu : Helper.union helpers more = .ok all) :
    Collected (fun k => H k ∨ k ∈ more) all := by
  obtain ⟨batches, hbatches, hmem⟩ := h
  refine ⟨batches ++ [more], hbatches.of_union hu, fun k => ?_⟩
  rw [List.flatten_append, List.mem_append, hmem, List.flatten_singleton]

/-- Where helpers cannot be added to others, two of them clash. -/
theorem Collected.clash (h : Collected H helpers) (hu : Helper.union helpers more = .error f) :
    Clash (fun k => H k ∨ k ∈ more) f := by
  obtain ⟨batches, hbatches, hmem⟩ := h
  obtain ⟨a, ha, b, hb, hname, hne, rfl⟩ := clash_of_union hu
  refine .intro ?_ (.inr hb) hname hne
  exact (List.mem_append.mp ha).imp_left fun ha => (hmem a).mp (hbatches.gathers.subset ha)

end Helper

namespace Projection

/-! ## Collections -/

/-- The type is an array of the elements. The type may be an alias of the array, and the array may
    itself have a name. -/
def ArrayOf (reg : Registry) (id : TypeId) (x : Attribute) : Prop :=
  ∃ t, reg.find? id = some t ∧ reg.kind t.definition = .ok .array ∧
    reg.elem? t.definition = .ok (some x)

/-- The type is an array whose elements are of the named type. Its constructors call those of the
    elements, so the relation tells what is built for what. -/
def Encloses (reg : Registry) (id elem : TypeId) : Prop :=
  ∃ x, ArrayOf reg id x ∧ x.userId? = some elem

/-- The type is an array whose elements are of no named type. There is no function that could be
    called for its elements. -/
def HoldsNameless (reg : Registry) (id : TypeId) : Prop :=
  ∃ x, ArrayOf reg id x ∧ x.userId? = none

/-- The type is no array. Its constructors are conversions of their own. -/
def Single (reg : Registry) (id : TypeId) : Prop :=
  ∃ t k, reg.find? id = some t ∧ reg.kind t.definition = .ok k ∧ k ≠ .array

/-- What can be wrong with the constructors of a type under a view, where the projections `P` are
    there. -/
inductive Unconstructible (reg : Registry) (P : ViewedType → Prop) (id : TypeId) (view : String) :
    Fault → Prop
  | nameless {c : TypeId} (hc : ReflTransGen (Encloses reg) id c) (h : HoldsNameless reg c) :
      Unconstructible reg P id view (.defect (.namelessElement c))
  | unprojected {c : TypeId} (hc : ReflTransGen (Encloses reg) id c) (h : ¬ P ⟨c, view⟩) :
      Unconstructible reg P id view (.unknownView c view)

/-- The conversion of a type into its projection. -/
def projecting (p : Projector) (k : ViewedType) : Walk Conversion.Compiled :=
  p.convert p.service p.projected k.type (projectedId k) "res" "vres"

/-- The conversion of the projection of a type into the type. -/
def restoring (p : Projector) (k : ViewedType) : Walk Conversion.Compiled :=
  p.convert p.projected p.service (projectedId k) k.type "vres" "res"

/-- The helper is one that the code calls. The helpers of a piece of code are listed with it. -/
def Calls (w : Walk Conversion.Compiled) (h : Helper) : Prop :=
  ∃ code, w.Yields code ∧ h ∈ code.helpers

/-- The constructors of the type under the view call the helper. Those of a collection call none
    themselves, so the helpers are those of what is inside of all collections. -/
def Helps (reg : Registry) (p : Projector) (id : TypeId) (view : String) (h : Helper) : Prop :=
  ∃ c, ReflTransGen (Encloses reg) id c ∧ Single reg c ∧
    (Calls (projecting p ⟨c, view⟩) h ∨ Calls (restoring p ⟨c, view⟩) h)

variable {reg : Registry} {derived : Derived} {p : Projector} {id elem : TypeId} {view : String}
  {k : ViewedType} {t : UserType} {ctx : Context} {helpers : List Helper} {f : Fault}
  {H K : Helper → Prop} {N M : Fault → Prop} {α : Type}

/-- The elements of a type are determined by it. -/
theorem ArrayOf.unique {x y : Attribute} (hx : ArrayOf reg id x) (hy : ArrayOf reg id y) :
    x = y := by
  obtain ⟨t, ht, -, hx⟩ := hx
  obtain ⟨t', ht', -, hy⟩ := hy
  obtain rfl := Option.some.inj (ht.symm.trans ht')
  exact Option.some.inj (Except.ok.inj (hx.symm.trans hy))

/-- In a sound registry the type of the elements is known. -/
theorem Encloses.known (hs : reg.Sound) (h : Encloses reg id elem) :
    ∃ t, reg.find? elem = some t := by
  obtain ⟨x, ⟨t, ht, -, hx⟩, hid⟩ := h
  have hr := hs.resolves_elem (hs t (Registry.mem_types_of_find? ht).1) hx
  obtain ⟨k, hk⟩ := hr.kind
  exact Registry.find?_of_kind hid hk

/-- The way to the innermost elements has no branches. -/
theorem Encloses.unique {elem' : TypeId} (h : Encloses reg id elem) (h' : Encloses reg id elem') :
    elem = elem' := by
  obtain ⟨x, hx, hid⟩ := h
  obtain ⟨y, hy, hid'⟩ := h'
  obtain rfl := hx.unique hy
  exact Option.some.inj (hid.symm.trans hid')

/-- Elements are of a named type or they are not. -/
theorem Encloses.not_nameless (h : Encloses reg id elem) : ¬ HoldsNameless reg id := by
  intro h'
  obtain ⟨x, hx, hid⟩ := h
  obtain ⟨y, hy, hid'⟩ := h'
  obtain rfl := hx.unique hy
  rw [hid] at hid'
  cases hid'

/-- A single type has no elements. -/
theorem Single.not_arrayOf {x : Attribute} (h : Single reg id) : ¬ ArrayOf reg id x := by
  intro hx
  obtain ⟨t, k, ht, hk, hne⟩ := h
  obtain ⟨t', ht', harray, -⟩ := hx
  obtain rfl := Option.some.inj (ht.symm.trans ht')
  exact hne (Except.ok.inj (hk.symm.trans harray))

/-- A known type is a collection of named or of nameless elements, or it is single. The three
    exclude each other, and each has its own rule for how constructors are written. -/
theorem enclosure_cases (hs : reg.Sound) (ht : reg.find? id = some t) :
    HoldsNameless reg id ∨ (∃ elem, Encloses reg id elem) ∨ Single reg id := by
  obtain ⟨k, hk⟩ := (hs t (Registry.mem_types_of_find? ht).1).kind
  by_cases harray : k = .array
  · subst harray
    obtain ⟨x, hx⟩ := Registry.exists_elem hk
    cases hid : x.userId? with
    | none => exact .inl ⟨x, ⟨t, ht, hk, hx⟩, hid⟩
    | some elem => exact .inr (.inl ⟨elem, x, ⟨t, ht, hk, hx⟩, hid⟩)
  · exact .inr (.inr ⟨t, k, ht, hk, harray⟩)

/-- From a single type no other is reached. -/
theorem Single.reached {c : TypeId} (h : Single reg id) (hc : ReflTransGen (Encloses reg) id c) :
    c = id := by
  rcases ReflTransGen.cases_head hc with rfl | ⟨elem, ⟨x, hx, -⟩, -⟩
  · rfl
  · exact absurd hx h.not_arrayOf

variable {P : ViewedType → Prop} {helper : Helper}

/-- All that a single type takes is its own projection. -/
theorem not_unconstructible_single (hid : Single reg id) (hk : P ⟨id, view⟩) :
    ¬ Unconstructible reg P id view f := by
  intro hf
  cases hf with
  | nameless hc hnameless =>
    obtain ⟨x, hx, -⟩ := hnameless
    exact hid.not_arrayOf (hid.reached hc ▸ hx)
  | unprojected hc hno => exact hno (hid.reached hc ▸ hk)

/-- The helpers of a single type are those of its two conversions. -/
theorem helps_single (hid : Single reg id) : Helps reg p id view helper ↔
    Calls (projecting p ⟨id, view⟩) helper ∨ Calls (restoring p ⟨id, view⟩) helper := by
  constructor
  · intro hh
    obtain ⟨c, hc, -, hcalls⟩ := hh
    rwa [← hid.reached hc]
  · exact fun hh => ⟨id, .refl, hid, hh⟩

/-- What is wrong with the constructors of a collection is wrong with those of its elements, or the
    collection has no projection. -/
theorem unconstructible_encloses (hid : Encloses reg id elem) :
    Unconstructible reg P id view f ↔
      Unconstructible reg P elem view f ∨ ¬ P ⟨id, view⟩ ∧ f = .unknownView id view := by
  constructor
  · intro hf
    cases hf with
    | nameless hc hnameless =>
      -- The fault is found at the collection itself, or further inside, by way of its one kind of
      -- elements.
      rcases ReflTransGen.cases_head hc with rfl | ⟨elem', helem, hc⟩
      · exact absurd hnameless hid.not_nameless
      · exact .inl (.nameless (hid.unique helem ▸ hc) hnameless)
    | unprojected hc hno =>
      rcases ReflTransGen.cases_head hc with rfl | ⟨elem', helem, hc⟩
      · exact .inr ⟨hno, rfl⟩
      · exact .inl (.unprojected (hid.unique helem ▸ hc) hno)
  · intro hf
    rcases hf with hf | ⟨hno, rfl⟩
    · cases hf with
      | nameless hc hnameless => exact .nameless (.head hid hc) hnameless
      | unprojected hc hno => exact .unprojected (.head hid hc) hno
    · exact .unprojected .refl hno

/-- The functions of a collection are loops and call no helpers of their own. So the helpers of a
    collection are told from its elements alone, whatever the view is. -/
theorem helps_encloses (hid : Encloses reg id elem) :
    Helps reg p id view helper ↔ Helps reg p elem view helper := by
  constructor
  · intro hh
    obtain ⟨c, hc, hsingle, hcalls⟩ := hh
    rcases ReflTransGen.cases_head hc with rfl | ⟨elem', helem, hc⟩
    · obtain ⟨x, hx, -⟩ := hid
      exact absurd hx hsingle.not_arrayOf
    · exact ⟨c, hid.unique helem ▸ hc, hsingle, hcalls⟩
  · intro hh
    obtain ⟨c, hc, hsingle, hcalls⟩ := hh
    exact ⟨c, .head hid hc, hsingle, hcalls⟩

/-! ## Walks that collect helpers -/

/-- The walk fails for one of the faults, or because helpers clash; otherwise none of the faults is
    there, and it ends with the helpers. -/
structure Settles (w : Walk (α × List Helper)) (N : Fault → Prop) (H : Helper → Prop) : Prop where
  fails : w.FailsOnly fun f => N f ∨ Helper.Clash H f
  yields : ∀ a helpers, w.Yields (a, helpers) → (∀ f, ¬ N f) ∧ Helper.Collected H helpers

/-- Of faults and helpers it matters only which they are. -/
theorem Settles.congr {w : Walk (α × List Helper)} (h : Settles w N H) (hN : ∀ f, N f ↔ M f)
    (hH : ∀ k, H k ↔ K k) : Settles w M K where
  fails := h.fails.mono fun f hf => hf.imp (hN f).mp fun hclash => hclash.mono fun k => (hH k).mp
  yields := fun a helpers hw =>
    let ⟨hno, hcollected⟩ := h.yields a helpers hw
    ⟨fun f hf => hno f ((hN f).mpr hf), hcollected.congr hH⟩

/-- What is done one after the other fails for the faults of either part. The second part begins
    with the helpers that the first has collected. -/
theorem Settles.bind {β : Type} {w : Walk (α × List Helper)}
    {g : α × List Helper → Walk (β × List Helper)} (hw : Settles w N H)
    (hH : ∀ k, H k → K k)
    (hg : ∀ a helpers, Helper.Collected H helpers → Settles (g (a, helpers)) M K) :
    Settles (w >>= g) (fun f => N f ∨ M f) K where
  fails := by
    -- A clash among the helpers of the first part is one among those of both.
    refine Walk.failsOnly_bind.mpr ⟨hw.fails.mono fun f hf => ?_, fun x hx => ?_⟩
    · exact hf.imp .inl fun hclash => hclash.mono hH
    · refine ((hg x.1 x.2 (hw.yields x.1 x.2 hx).2).fails).mono fun f hf => hf.imp_left .inr
  yields := by
    intro b helpers' h
    obtain ⟨x, hx, hb⟩ := Walk.yields_bind.mp h
    obtain ⟨hno, hcollected⟩ := hw.yields x.1 x.2 hx
    obtain ⟨hno', hcollected'⟩ := (hg x.1 x.2 hcollected).yields b helpers' hb
    exact ⟨fun f hf => hf.elim (hno f) (hno' f), hcollected'⟩

/-- What follows the helpers does not fail. It is to hand the helpers on as they are, which is what
    the second part of `Yields` says. -/
theorem Settles.map {β : Type} {w : Walk (α × List Helper)}
    {g : α × List Helper → Walk (β × List Helper)} (hw : Settles w N H)
    (hg : ∀ x, (∀ f, ¬ N f) → ∃ b, (g x).Yields (b, x.2)) : Settles (w >>= g) N H where
  fails := by
    refine Walk.failsOnly_bind.mpr ⟨hw.fails, fun x hx f hf => ?_⟩
    obtain ⟨b, hb⟩ := hg x (hw.yields x.1 x.2 hx).1
    exact absurd hb (Walk.Fails.not_yields ⟨f, hf⟩)
  yields := by
    intro b helpers' h
    obtain ⟨x, hx, hb⟩ := Walk.yields_bind.mp h
    have hyields := hw.yields x.1 x.2 hx
    obtain ⟨b', hb'⟩ := hg x hyields.1
    cases hb.unique hb'
    exact hyields

theorem settles_of_fails {w : Walk (α × List Helper)} (hw : w.FailsOnly N)
    (hno : ∀ x, ¬ w.Yields x) : Settles w N H :=
  ⟨hw.mono fun _ hf => .inl hf, fun _ _ h => absurd h (hno _)⟩

/-- The helpers of a conversion that does not fail are added. Helpers that are in the way make a
    clash, which is not one of the faults that are named. -/
theorem settles_union {w : Walk Conversion.Compiled} (hw : w.FailsOnly fun _ => False)
    (hcollected : Helper.Collected H helpers) (func : Conversion.Compiled → α) :
    Settles (do
      let code ← w
      let helpers ← Helper.union helpers code.helpers
      return (func code, helpers))
      (fun _ => False) (fun k => H k ∨ Calls w k) := by
  -- A walk yields one result at most, so its helpers are those of the code at hand.
  have same : ∀ {code : Conversion.Compiled}, w.Yields code → ∀ k,
      Calls w k ↔ k ∈ code.helpers := by
    intro code hcode k
    constructor
    · intro h
      obtain ⟨code', hcode', hk⟩ := h
      rwa [hcode.unique hcode']
    · exact fun hk => ⟨code, hcode, hk⟩
  constructor
  · refine Walk.failsOnly_bind.mpr ⟨hw.mono fun f hf => hf.elim, fun code hcode => ?_⟩
    refine Walk.failsOnly_bind.mpr ⟨Walk.failsOnly_liftM.mpr fun f hf => ?_,
      fun _ _ => Walk.failsOnly_pure⟩
    exact .inr ((hcollected.clash hf).mono fun k hk => hk.imp_right (same hcode k).mpr)
  · intro a all h
    simp only [Walk.yields_bind, Walk.yields_liftM, Walk.yields_pure, Prod.mk.injEq] at h
    obtain ⟨code, hcode, _, hunion, -, rfl⟩ := h
    refine ⟨fun _ hf => hf, (hcollected.union hunion).congr fun k => ?_⟩
    rw [same hcode k]

/-! ## Conversions of types and projections -/

theorem tidy_user (id : TypeId) : (Attribute.user id).Tidy :=
  Attribute.tidy_iff_children.mpr ⟨List.nodup_nil, fun _ hb => absurd hb List.not_mem_nil⟩

/-- The conversions between a type and its projection fail only at a reference that leads to no
    structure, whatever the contexts are. -/
theorem conversions_lost (hscope : p.scope = .ofRegistry derived.registry)
    (hx : Extends reg derived) (htidy : reg.Tidy) (hk : derived.Has k) (source target : Context)
    (value place : String) :
    (p.convert source target k.type (projectedId k) value place).FailsOnly
        (derived.registry.LostBoth (.user k.type, .user (projectedId k))) ∧
      (p.convert source target (projectedId k) k.type value place).FailsOnly
        (derived.registry.LostBoth (.user (projectedId k), .user k.type)) := by
  have hfaces := faces_projected hx hk
  let c : Conversion := { scope := p.scope, source, target }
  have hregistry : p.scope.registry = derived.registry := by rw [hscope]; rfl
  have hc : c.registry = derived.registry := hregistry
  have convert : ∀ {a b : TypeId}, Alike reg derived (.user a, .user b) →
      (p.convert source target a b value place).FailsOnly
        (derived.registry.LostBoth (.user a, .user b)) := fun {a b} halike =>
    HelperWalk.FailsOnly.alone (Alike.compile (c := c)
      (s := .between (.user a) (.user b) value place) hx hc (extends_tidy hx htidy)
      (hc ▸ hscope) halike ⟨tidy_user a, tidy_user b⟩ ⟨rfl, fun _ => ⟨place, rfl⟩⟩)
  exact ⟨convert (.facing hfaces), convert (.faced hfaces)⟩

/-! ## Declarations of what was derived -/

/-- The declarations are made of the projections that were derived, over a registry in which
    references lead to types and no object declares a field twice. -/
structure Serves (reg : Registry) (derived : Derived) (p : Projector) : Prop where
  scope : p.scope = .ofRegistry derived.registry
  ids : p.ids = derived.ids
  grown : Extends reg derived
  sound : reg.Sound
  tidy : reg.Tidy

section

variable (h : Serves reg derived p)
include h

theorem Serves.registry : p.scope.registry = derived.registry := by
  rw [h.scope]
  rfl

/-- A projection that was derived is found under its identity. -/
theorem Serves.projectedId_of_has (hk : derived.Has ⟨id, view⟩) :
    p.projectedId id view = .ok (projectedId ⟨id, view⟩) := by
  obtain ⟨pid, hpid⟩ := Ordered.exists_get? hk
  unfold Projector.projectedId
  rw [h.ids, hpid]
  exact congrArg Except.ok (h.grown.ids _ (Ordered.mem_of_get? hpid))

/-- One that was not derived is reported as an unknown view. -/
theorem Serves.projectedId_of_not_has (hk : ¬ derived.Has ⟨id, view⟩) :
    p.projectedId id view = .error (.unknownView id view) := by
  unfold Projector.projectedId
  split
  · rename_i pid hpid
    rw [h.ids] at hpid
    exact absurd (List.mem_map_of_mem (Ordered.mem_of_get? hpid)) hk
  · rfl

theorem Serves.kind_of_known (ht : reg.find? id = some t) :
    ∃ kind, derived.registry.kind (.user id) = .ok kind := by
  obtain ⟨kind, hkind⟩ := h.sound.kind_user ht
  exact ⟨kind, h.grown.grows.kind hkind⟩

theorem Serves.kind_of_has (hk : derived.Has k) :
    ∃ kind, derived.registry.kind (.user (projectedId k)) = .ok kind := by
  obtain ⟨_, u, -, hu, -⟩ := h.grown.defined k hk
  exact (extends_sound h.grown h.sound).kind_user hu

theorem Serves.exists_name (hkind : ∃ kind, derived.registry.kind (.user id) = .ok kind) :
    ∃ name, p.scope.name id = .ok name := by
  obtain ⟨kind, hkind⟩ := hkind
  exact h.scope ▸ Scope.exists_name_of_kind hkind

/-- A type that has a kind can be referred to in any package. -/
theorem Serves.exists_userRef (ctx : Context)
    (hkind : ∃ kind, derived.registry.kind (.user id) = .ok kind) :
    ∃ type, p.userRef ctx id = .ok type := by
  obtain ⟨kind, hkind⟩ := hkind
  unfold Projector.userRef
  exact h.scope ▸ Scope.exists_userRef hkind ctx

theorem Serves.exists_toViewName (hk : derived.Has ⟨id, view⟩) :
    ∃ name, p.toViewName id view = .ok name := by
  obtain ⟨name, hname⟩ := h.exists_name (h.kind_of_has hk)
  exact ⟨_, except_bind_eq_ok.mpr ⟨_, h.projectedId_of_has hk, except_bind_eq_ok.mpr
    ⟨name, hname, rfl⟩⟩⟩

theorem Serves.exists_fromViewName (view : String) (ht : reg.find? id = some t) :
    ∃ name, p.fromViewName id view = .ok name := by
  obtain ⟨name, hname⟩ := h.exists_name (h.kind_of_known ht)
  exact ⟨_, except_bind_eq_ok.mpr ⟨name, hname, rfl⟩⟩

/-- A type converts into its projection and back. Both directions go back to `conversions_lost`, as
    what projections leave out is the only thing that may be lost. -/
theorem Serves.conversions_failsOnly (hk : derived.Has k) :
    (projecting p k).FailsOnly (fun _ => False) ∧ (restoring p k).FailsOnly fun _ => False := by
  have hsound := extends_sound h.grown h.sound
  have resolves : ∀ {id : TypeId}, (∃ kind, derived.registry.kind (.user id) = .ok kind) →
      derived.registry.Resolves (.user id) := fun hkind =>
    Registry.resolves_of_userId? rfl hkind.choose_spec
  obtain ⟨t, _, ht, -⟩ := h.grown.defined k hk
  have hfull := resolves (h.kind_of_known ht)
  have hprojected := resolves (h.kind_of_has hk)
  have hto := (conversions_lost h.scope h.grown h.tidy hk p.service p.projected "res" "vres").1
  have hfrom := (conversions_lost h.scope h.grown h.tidy hk p.projected p.service "vres" "res").2
  exact ⟨hto.mono fun _ hf => hf.elim (hsound.not_lost hfull) (hsound.not_lost hprojected),
    hfrom.mono fun _ hf => hf.elim (hsound.not_lost hprojected) (hsound.not_lost hfull)⟩

/-! ## Objects -/

/-- The function from an object to its projection is a conversion with a frame around it. The frame
    is not spelled out: a name, a comment and a return. All that follows about helpers is about the
    conversion. -/
theorem Serves.objectToView_eq (hk : derived.Has ⟨id, view⟩) (ht : reg.find? id = some t) :
    ∃ func : Conversion.Compiled → Func, ∀ helpers, p.objectToView id view helpers = do
      let code ← projecting p ⟨id, view⟩
      let helpers ← Helper.union helpers code.helpers
      return (func code, helpers) := by
  obtain ⟨func, hfunc⟩ := h.exists_toViewName hk
  obtain ⟨name, hname⟩ := h.exists_name (h.kind_of_known ht)
  obtain ⟨name', hname'⟩ := h.exists_name (h.kind_of_has hk)
  obtain ⟨type, htype⟩ := h.exists_userRef p.service (h.kind_of_known ht)
  obtain ⟨type', htype'⟩ := h.exists_userRef p.projected (h.kind_of_has hk)
  refine ⟨fun code =>
    { name := func, doc := some (Projector.toViewDoc func name name' view),
      params := [⟨some "res", type⟩], results := [⟨none, type'⟩],
      body := code.body ++ [.ret [.ident "vres"]] }, fun helpers => ?_⟩
  unfold Projector.objectToView
  simp only [h.projectedId_of_has hk, hfunc, hname, hname', htype, htype', Walk.liftM_ok_bind]
  rfl

/-- The function from the projection of an object is a conversion with a frame around it. As for the
    other direction, the frame is not spelled out. -/
theorem Serves.objectFromView_eq (hk : derived.Has ⟨id, view⟩) (ht : reg.find? id = some t) :
    ∃ func : Conversion.Compiled → Func, ∀ helpers, p.objectFromView id view helpers = do
      let code ← restoring p ⟨id, view⟩
      let helpers ← Helper.union helpers code.helpers
      return (func code, helpers) := by
  obtain ⟨func, hfunc⟩ := h.exists_fromViewName view ht
  obtain ⟨name, hname⟩ := h.exists_name (h.kind_of_known ht)
  obtain ⟨name', hname'⟩ := h.exists_name (h.kind_of_has hk)
  obtain ⟨type, htype⟩ := h.exists_userRef p.service (h.kind_of_known ht)
  obtain ⟨type', htype'⟩ := h.exists_userRef p.projected (h.kind_of_has hk)
  refine ⟨fun code =>
    { name := func, doc := some (Projector.fromViewDoc func name name'),
      params := [⟨some "vres", type'⟩], results := [⟨none, type⟩],
      body := code.body ++ [.ret [.ident "res"]] }, fun helpers => ?_⟩
  unfold Projector.objectFromView
  simp only [h.projectedId_of_has hk, hfunc, hname, hname', htype, htype', Walk.liftM_ok_bind]
  rfl

/-- Without the projection there is no constructor. -/
theorem Serves.objectToView_error (hk : ¬ derived.Has ⟨id, view⟩) :
    p.objectToView id view helpers = throw (.unknownView id view) := by
  unfold Projector.objectToView
  rw [h.projectedId_of_not_has hk]
  rfl

/-! ## Constructors -/

/-- What is an array before the projections are there is one with them. -/
theorem Serves.arrayOf {x : Attribute} (hx : ArrayOf reg id x) : ∃ t,
    p.scope.registry.get id = .ok t ∧ p.scope.registry.kind t.definition = .ok .array ∧
      p.scope.registry.elem? t.definition = .ok (some x) := by
  obtain ⟨t, ht, hk, hx⟩ := hx
  have hgrows := h.grown.grows
  rw [h.registry]
  exact ⟨t, Registry.get_eq_ok.mpr (hgrows.find? ht), hgrows.kind hk, hgrows.elem? hx⟩

/-- Elements without a name are a defect. -/
theorem Serves.constructorsWithin_nameless {levels : Nat} (hid : HoldsNameless reg id) :
    p.constructorsWithin view levels id helpers = .defect (.namelessElement id) := by
  obtain ⟨x, hx, hu⟩ := hid
  obtain ⟨t, hget, hkind, helem⟩ := h.arrayOf hx
  rw [Projector.constructorsWithin]
  simp only [hget, hkind, helem, hu, Walk.liftM_ok_bind, if_true, Option.bind_some]

/-- The levels run out only on the way down, at a collection. -/
theorem Serves.constructorsWithin_zero (hid : Encloses reg id elem) :
    p.constructorsWithin view 0 id helpers = .exhausted := by
  obtain ⟨x, hx, hu⟩ := hid
  obtain ⟨t, hget, hkind, helem⟩ := h.arrayOf hx
  rw [Projector.constructorsWithin]
  simp only [hget, hkind, helem, hu, Walk.liftM_ok_bind, if_true, Option.bind_some]

/-- The functions of a collection are written behind those of its elements. It is the recursion of
    the compiler, for a type that is known to enclose its elements. -/
theorem Serves.constructorsWithin_succ {levels : Nat} (hid : Encloses reg id elem) :
    p.constructorsWithin view (levels + 1) id helpers = do
      let (funcs, helpers) ← p.constructorsWithin view levels elem helpers
      let toView ← p.collectionToView id elem view
      let fromView ← p.collectionFromView id elem view
      return (funcs ++ [toView, fromView], helpers) := by
  obtain ⟨x, hx, hu⟩ := hid
  obtain ⟨t, hget, hkind, helem⟩ := h.arrayOf hx
  rw [Projector.constructorsWithin]
  simp only [hget, hkind, helem, hu, Walk.liftM_ok_bind, if_true, Option.bind_some]

/-- Those of a single type are the conversions in both directions. -/
theorem Serves.constructorsWithin_single {levels : Nat} (hid : Single reg id) :
    p.constructorsWithin view levels id helpers = do
      let (toView, helpers) ← p.objectToView id view helpers
      let (fromView, helpers) ← p.objectFromView id view helpers
      return ([toView, fromView], helpers) := by
  obtain ⟨t, k, ht, hk, hne⟩ := hid
  rw [Projector.constructorsWithin]
  simp only [h.registry, Registry.get_eq_ok.mpr (h.grown.grows.find? ht), h.grown.grows.kind hk,
    Walk.liftM_ok_bind, if_neg hne]

/-- The functions of a single type are two conversions. The second conversion adds its helpers to
    those of the first, so a clash may come from within the pair. -/
theorem Serves.single_settles {levels : Nat} (hid : Single reg id)
    (hcollected : Helper.Collected H helpers) :
    Settles (p.constructorsWithin view levels id helpers) (Unconstructible reg derived.Has id view)
      fun k => H k ∨ Helps reg p id view k := by
  rw [h.constructorsWithin_single hid]
  -- Both conversions need the projection, and the first to be built asks for it.
  by_cases hk : derived.Has ⟨id, view⟩
  · have ⟨t, _, ht, _⟩ := hid
    obtain ⟨toView, htoView⟩ := h.objectToView_eq hk ht
    obtain ⟨fromView, hfromView⟩ := h.objectFromView_eq hk ht
    obtain ⟨hprojects, hrestores⟩ := h.conversions_failsOnly hk
    have hto := settles_union hprojects hcollected toView
    rw [htoView]
    refine (hto.bind (M := fun _ => False)
      (K := fun k => (H k ∨ Calls (projecting p ⟨id, view⟩) k) ∨ Calls (restoring p ⟨id, view⟩) k)
      (fun k hk => .inl hk)
      fun func helpers' hcollected' => ?_).congr (fun f => ?_) (fun k => ?_)
    · dsimp only
      rw [hfromView]
      exact (settles_union hrestores hcollected' fromView).map
        fun _ _ => ⟨_, Walk.yields_pure.mpr rfl⟩
    · simp only [or_self, false_iff]
      exact not_unconstructible_single hid hk
    · rw [helps_single hid, or_assoc]
  · rw [h.objectToView_error hk]
    refine settles_of_fails (Walk.failsOnly_bind.mpr ⟨Walk.failsOnly_throw.mpr ?_, ?_⟩) ?_
    · exact .unprojected .refl hk
    · simp
    · simp

/-- The functions of a collection call those of its elements. They are written without a conversion
    of their own, so nothing in them can fail once both types have projections. -/
theorem Serves.exists_collections (hid : Encloses reg id elem) (hk : derived.Has ⟨id, view⟩)
    (hk' : derived.Has ⟨elem, view⟩) :
    (∃ func, p.collectionToView id elem view = .ok func) ∧
      ∃ func, p.collectionFromView id elem view = .ok func := by
  obtain ⟨u, hu⟩ := hid.known h.sound
  obtain ⟨_, ⟨t, ht, -⟩, -⟩ := hid
  obtain ⟨name, hname⟩ := h.exists_name (h.kind_of_known ht)
  obtain ⟨name', hname'⟩ := h.exists_name (h.kind_of_has hk)
  obtain ⟨type, htype⟩ := h.exists_userRef p.service (h.kind_of_known ht)
  obtain ⟨type', htype'⟩ := h.exists_userRef p.projected (h.kind_of_has hk)
  have hpid := h.projectedId_of_has hk
  constructor
  · obtain ⟨func, hfunc⟩ := h.exists_toViewName hk
    obtain ⟨called, hcalled⟩ := h.exists_toViewName hk'
    unfold Projector.collectionToView
    simp only [except_bind_eq_ok, except_pure_eq_ok]
    exact ⟨_, _, hpid, _, htype', _, hfunc, _, hcalled, _, hname, _, hname', _, htype, rfl⟩
  · obtain ⟨func, hfunc⟩ := h.exists_fromViewName view ht
    obtain ⟨called, hcalled⟩ := h.exists_fromViewName view hu
    unfold Projector.collectionFromView
    simp only [except_bind_eq_ok, except_pure_eq_ok]
    exact ⟨_, _, hpid, _, htype, _, hfunc, _, hcalled, _, hname, _, hname', _, htype', rfl⟩

/-- The functions of a collection follow those of its elements. Those of the elements come first in
    the list, and their faults are the faults of the collection. -/
theorem Serves.encloses_settles {levels : Nat} (hid : Encloses reg id elem)
    (helem : Settles (p.constructorsWithin view levels elem helpers)
      (Unconstructible reg derived.Has elem view) fun k => H k ∨ Helps reg p elem view k) :
    Settles (p.constructorsWithin view (levels + 1) id helpers)
      (Unconstructible reg derived.Has id view) fun k => H k ∨ Helps reg p id view k := by
  rw [h.constructorsWithin_succ hid]
  by_cases hk : derived.Has ⟨id, view⟩
  · refine Settles.congr (helem.map fun x hno => ?_) (fun f => ?_) (fun k => ?_)
    -- The functions of the elements were written, so their projection is there.
    · have hk' : derived.Has ⟨elem, view⟩ := by
        by_contra hk'
        exact hno _ (.unprojected .refl hk')
      obtain ⟨⟨toView, htoView⟩, fromView, hfromView⟩ := h.exists_collections hid hk hk'
      refine ⟨x.1 ++ [toView, fromView], ?_⟩
      simp only [Walk.yields_bind, Walk.yields_liftM, Walk.yields_pure]
      exact ⟨_, htoView, _, hfromView, rfl⟩
    · simp [unconstructible_encloses hid, hk]
    · rw [helps_encloses hid]
  -- The functions of the elements come first, so their fault is seen first if they have one.
  · have hfails : p.collectionToView id elem view = .error (.unknownView id view) := by
      unfold Projector.collectionToView
      rw [h.projectedId_of_not_has hk]
      rfl
    refine Settles.congr (helem.bind (M := fun f => f = .unknownView id view)
      (K := fun k => H k ∨ Helps reg p elem view k) (fun _ hk => hk) fun funcs helpers' _ => ?_)
      (fun f => ?_) (fun k => ?_)
    · dsimp only
      rw [hfails]
      refine settles_of_fails (Walk.failsOnly_bind.mpr ⟨by simp, by simp⟩) (by simp)
    · simp [unconstructible_encloses hid, hk]
    · rw [helps_encloses hid]

/-- The constructors of a type under a view fail for what is wrong with a type on the way to its
    innermost elements, or because of their helpers. -/
theorem Serves.constructorsWithin_settles : ∀ {levels : Nat} {id : TypeId} {helpers : List Helper},
    (∃ t, reg.find? id = some t) → Helper.Collected H helpers →
    Settles (p.constructorsWithin view levels id helpers) (Unconstructible reg derived.Has id view)
      fun k => H k ∨ Helps reg p id view k := by
  have nameless : ∀ {levels : Nat} {id : TypeId} {helpers : List Helper}, HoldsNameless reg id →
      Settles (p.constructorsWithin view levels id helpers)
        (Unconstructible reg derived.Has id view) fun k => H k ∨ Helps reg p id view k := by
    intro levels id helpers hid
    rw [h.constructorsWithin_nameless hid]
    refine settles_of_fails (Walk.failsOnly_throw.mpr (.nameless .refl hid)) ?_
    simp [Walk.defect]
  intro levels
  induction levels with
  | zero =>
    intro id helpers ht hcollected
    obtain ⟨t, ht⟩ := ht
    -- Without levels there is no way into a collection, and a fault is not what such a walk ends
    -- with.
    rcases enclosure_cases h.sound ht with hid | ⟨elem, hid⟩ | hid
    · exact nameless hid
    · rw [h.constructorsWithin_zero hid]
      exact settles_of_fails Walk.failsOnly_exhausted (by simp)
    · exact h.single_settles hid hcollected
  | succ levels ih =>
    intro id helpers ht hcollected
    obtain ⟨t, ht⟩ := ht
    rcases enclosure_cases h.sound ht with hid | ⟨elem, hid⟩ | hid
    · exact nameless hid
    · exact h.encloses_settles hid (ih (hid.known h.sound) hcollected)
    · exact h.single_settles hid hcollected

end

end Projection
end Shapewright
