import Mathlib.Logic.Relation
import Shapewright.Proofs.Faults
import Shapewright.Proofs.Projection.Extension

/-!
# Why a derivation fails

The projections of a type lead to those of the types that it mentions, each under the view that a
tag names, otherwise under the default view. Where all references lead to structures and views list
what is declared, there are two things that can be wrong with one of them: the type does not have
the view, or nothing of it can be projected.

## A graph of projections

`RefersTo` is read off the registry alone: a projection refers to those that its definition would
mention, whether or not it can be built. The search for projections goes along its edges. So a
derivation asks for what can be reached and nothing else, and if it fails, the fault is that of a
projection that can be reached (`projectWithin_confined`).

## One walk, two properties

To ask for little and to fail seldom are both kept when derivations are composed, and both are about
the same walk through attributes, fields and types. The walk is proved once for any property that
goes over to compositions (`Deriving.Closed`). `Deriving.Confined` is the one that is used here.

## The other direction

That a derivation fails where something that is reached cannot be projected follows from what it
yields: a definition refers to everything that is mentioned (`Defines.refersTo`), and for what
cannot be projected there is no definition.
-/

namespace Shapewright
namespace Projection

open Relation

/-! ## Derivations that are confined -/

namespace Deriving

variable {α β : Type} {s s' : Progress} {K K' : ViewedType → Prop} {P P' : Fault → Prop}

/-- The derivation asks for no other projections than those in `K`, and whatever fault it ends with
    has the property. -/
structure Confined (w : Deriving α) (s : Progress) (K : ViewedType → Prop) (P : Fault → Prop) :
    Prop where
  asked : ∀ a s', Yields w s a s' → ∀ k, s'.Asked k → s.Asked k ∨ K k
  fails : (w.run s).FailsOnly P

theorem Confined.mono {w : Deriving α} (h : Confined w s K P) (hK : ∀ k, K k → K' k)
    (hP : ∀ f, P f → P' f) : Confined w s K' P' :=
  ⟨fun a s' hw k hk => (h.asked a s' hw k hk).imp_right (hK k), h.fails.mono hP⟩

/-- A composition is confined if the second part is, from whatever the first leaves. The second part
    starts from the table that the first one leaves, and there can be different tables. -/
theorem Confined.bind {w : Deriving α} {f : α → Deriving β} (hw : Confined w s K P)
    (hf : ∀ a s', Yields w s a s' → Confined (f a) s' K P) : Confined (w >>= f) s K P where
  asked := by
    intro b s'' h k hk
    obtain ⟨a, s', ha, hb⟩ := yields_bind.mp h
    rcases (hf a s' ha).asked b s'' hb k hk with hk | hk
    · exact hw.asked a s' ha k hk
    · exact .inr hk
  fails := by
    rw [StateT.run_bind]
    exact Walk.failsOnly_bind.mpr ⟨hw.fails, fun x hx => (hf x.1 x.2 hx).fails⟩

theorem Confined.pure {a : α} : Confined (pure a) s K P where
  asked := by
    intro b s' h k hk
    obtain ⟨-, rfl⟩ := yields_pure.mp h
    exact .inl hk
  fails := Walk.failsOnly_pure

/-- To look at the state asks for nothing. -/
theorem Confined.get : Confined get s K P where
  asked := by
    intro b s' h k hk
    obtain ⟨-, rfl⟩ := yields_get.mp h
    exact .inl hk
  fails := Walk.failsOnly_pure

/-- To change the state asks for what the change adds. -/
theorem Confined.modify {f : Progress → Progress} (h : ∀ k, (f s).Asked k → s.Asked k ∨ K k) :
    Confined (modify f) s K P where
  asked := by
    intro b s' hs k hk
    obtain rfl := yields_modify.mp hs
    exact h k hk
  fails := Walk.failsOnly_pure

theorem Confined.lift {e : Except Fault α} (h : ∀ f, e = .error f → P f) :
    Confined (liftM e) s K P where
  asked := by
    intro b s' hs k hk
    obtain ⟨-, rfl⟩ := yields_liftM.mp hs
    exact .inl hk
  fails := by
    intro f hf
    cases e with
    | error why =>
      cases hf
      exact h _ rfl
    | ok a => cases hf

theorem Confined.throw {f : Fault} (h : P f) : Confined (throw f : Deriving α) s K P where
  asked := fun _ _ hs => absurd hs yields_throw
  fails := by
    intro g hg
    cases hg
    exact h

theorem Confined.exhausted : Confined (StateT.lift Walk.exhausted : Deriving α) s K P where
  asked := fun _ _ hs => absurd hs yields_exhausted
  fails := by
    intro f hf
    cases hf

/-- The property of derivations goes over to compositions, and holds where nothing is asked for and
    no fault is met but those in `E`. -/
structure Closed (T : (α : Type) → Deriving α → Prop) (E : Fault → Prop) : Prop where
  bind : ∀ {α β : Type} {w : Deriving α} {f : α → Deriving β}, T α w →
    (∀ a s s', Yields w s a s' → T β (f a)) → T β (w >>= f)
  pure : ∀ {α : Type} {a : α}, T α (pure a)
  lift : ∀ {α : Type} {e : Except Fault α}, (∀ f, e = .error f → E f) → T α (liftM e)
  throw : ∀ {α : Type} {f : Fault}, E f → T α (throw f)

theorem Closed.of_ok {T : (α : Type) → Deriving α → Prop} (hT : Closed T P)
    {e : Except Fault α} (h : ∃ a, e = .ok a) : T α (liftM e) := by
  obtain ⟨a, rfl⟩ := h
  exact hT.lift (by simp)

theorem closed_confined : Closed (fun _ w => ∀ s, Confined w s K P) P where
  bind := fun hw hf s => (hw s).bind fun a s' h => hf a s s' h s'
  pure := fun _ => .pure
  lift := fun h _ => .lift h
  throw := fun h _ => .throw h

end Deriving

/-! ## What a projection leads to -/

/-- The projection of the attribute, whose value is shown under the view, refers to a projection.
    Unions and the keys of maps are not looked into, because they stay as they are. -/
inductive Mentions (reg : Registry) : Attribute → Option String → ViewedType → Prop
  | structured {a : Attribute} {view : Option String} {id : TypeId} {kind : Kind} {t : UserType}
      (hid : a.userId? = some id) (hk : reg.kind a = .ok kind)
      (hs : kind = .object ∨ kind = .array ∨ kind = .map) (ht : reg.find? id = some t) :
      Mentions reg a view ⟨id, t.shownUnder view⟩
  | element {a x : Attribute} {view : Option String} {k : ViewedType}
      (ht : a.type = .array x ∨ ∃ key, a.type = .map key x) (h : Mentions reg x view k) :
      Mentions reg a view k
  | field {a : Attribute} {view : Option String} {fields : List (String × Attribute)}
      {x : String × Attribute} {k : ViewedType} (ht : a.type = .object fields) (hx : x ∈ fields)
      (h : Mentions reg x.2 x.2.overrides.view k) : Mentions reg a view k

/-- The first projection refers to the second: in a field that it shows, or as a collection. The
    derivation asks for the projections in this relation and for no others. -/
inductive RefersTo (reg : Registry) (k k' : ViewedType) : Prop
  | field {t : UserType} {v : ObjectView} {found : Option View} {va : ViewAttribute} {a : Attribute}
      (ht : reg.find? k.type = some t) (hv : ObjectView.of? reg t.definition = .ok (some v))
      (hfound : reg.view? t.id k.view = .ok found) (hva : va ∈ listed found v)
      (ha : v.field? va.field = some a)
      (h : Mentions reg a (va.view?.or a.overrides.view) k') : RefersTo reg k k'
  | element {t : UserType} {kind : Kind} (ht : reg.find? k.type = some t)
      (hk : reg.kind t.definition = .ok kind) (hc : kind = .array ∨ kind = .map)
      (h : Mentions reg t.definition (some k.view) k') : RefersTo reg k k'

/-- What can be wrong with a projection itself: an object does not have the view, or the type is
    neither an object nor a collection. -/
inductive Unprojectable (reg : Registry) (k : ViewedType) : Fault → Prop
  | view {t : UserType} (ht : reg.find? k.type = some t)
      (hk : reg.kind t.definition = .ok .object) (hno : t.findView? k.view = none)
      (hd : k.view ≠ defaultView) : Unprojectable reg k (.unknownView t.name k.view)
  | plain {t : UserType} {kind : Kind} (ht : reg.find? k.type = some t)
      (hk : reg.kind t.definition = .ok kind)
      (hs : kind ≠ .object ∧ kind ≠ .array ∧ kind ≠ .map) :
      Unprojectable reg k (.defect (.unstructuredProjection t.id))

/-- What can stop a projection itself: it cannot be built, a view lists a field that there is not,
    or a reference leads to no structure. -/
inductive Stuck (reg : Registry) (k : ViewedType) : Fault → Prop
  | unprojectable {f : Fault} (h : Unprojectable reg k f) : Stuck reg k f
  | undeclared {t : UserType} {v : ObjectView} {found : Option View} {va : ViewAttribute}
      (ht : reg.find? k.type = some t) (hv : ObjectView.of? reg t.definition = .ok (some v))
      (hfound : reg.view? t.id k.view = .ok found) (hva : va ∈ listed found v)
      (hno : v.field? va.field = none) :
      Stuck reg k (.unknownView t.name (k.view ++ " (field " ++ va.field ++ ")"))
  | lost {t : UserType} {x : Attribute} {f : Fault} (ht : reg.find? k.type = some t)
      (hx : x ∈ reg.standing t.definition) (h : reg.kind x = .error f) : Stuck reg k f

/-- The views of objects list fields that are declared. Loading a design checks it. -/
def ListsDeclared (reg : Registry) : Prop :=
  ∀ t ∈ reg.types, ∀ v, ObjectView.of? reg t.definition = .ok (some v) →
    ∀ w ∈ t.views, ∀ va ∈ w.attributes, ∃ a, v.field? va.field = some a

variable {reg : Registry} {project : ViewedType → Deriving TypeId} {K : ViewedType → Prop}
  {P : Fault → Prop} {a : Attribute} {view : Option String} {k k' : ViewedType} {t : UserType}
  {s : Progress}

theorem Mentions.known (h : Mentions reg a view k) : ∃ t, reg.find? k.type = some t := by
  induction h with
  | structured _ _ _ ht => exact ⟨_, ht⟩
  | element _ _ ih => exact ih
  | field _ _ _ ih => exact ih

theorem RefersTo.known (h : RefersTo reg k k') : ∃ t, reg.find? k'.type = some t := by
  cases h with
  | field _ _ _ _ _ h => exact h.known
  | element _ _ _ h => exact h.known

/-! ## Attributes -/

section

variable {T : (α : Type) → Deriving α → Prop} {E : Fault → Prop} (hT : Deriving.Closed T E)
include hT

/-- The projection of a reference looks at the kind, and asks for a projection if it is that of a
    structure. -/
theorem projectUser_closed {id : TypeId} (hid : a.userId? = some id)
    (hkind : ∀ f, reg.kind a = .error f → E f)
    (hproject : ∀ k, Mentions reg a view k → T TypeId (project k)) :
    T Attribute (projectUser reg project
      { a with overrides := { a.overrides with view := none } } id view) := by
  have hsame : Attribute.BothRefer id
      { a with overrides := { a.overrides with view := none } } a := ⟨hid, hid⟩
  -- Three kinds are projected as types of their own, all in the same way.
  have structured : ∀ {kind : Kind}, reg.kind a = .ok kind →
      kind = .object ∨ kind = .array ∨ kind = .map → T Attribute (do
        let t ← reg.get id
        let i ← project ⟨id, t.shownUnder view⟩
        return a.shownAs (.user i)) := by
    intro kind hk hs
    obtain ⟨t, ht⟩ := Registry.find?_of_kind hid hk
    refine hT.bind (hT.of_ok ⟨t, Registry.get_eq_ok.mpr ht⟩) fun t' s s' ht' => ?_
    rw [Deriving.yields_liftM, Registry.get_eq_ok] at ht'
    exact hT.bind (hproject _ (.structured hid hk hs ht'.1)) fun _ _ _ _ => hT.pure
  unfold projectUser
  refine hT.bind (hT.lift (hsame.kind_eq ▸ hkind)) fun kind s s' hk => ?_
  rw [Deriving.yields_liftM, hsame.kind_eq] at hk
  obtain ⟨hk, -⟩ := hk
  cases kind with
  | object => exact structured hk (.inl rfl)
  | array => exact structured hk (.inr (.inl rfl))
  | map => exact structured hk (.inr (.inr rfl))
  | primitive p =>
    obtain ⟨r, hr⟩ := Registry.exists_resolve hk
    exact hT.bind (hT.of_ok ⟨r, hsame.resolve_eq.trans hr⟩) fun _ _ _ _ => hT.pure
  | union => exact hT.pure

/-- The fields of an object in place are projected one by one. Each under its own tag, as there is
    no view that could give it one. -/
theorem projectFields_closed : ∀ {fields : List (String × Attribute)},
    (∀ x ∈ fields, T Attribute (projectAttr reg project x.2 x.2.overrides.view)) →
    T (List (String × Attribute)) (projectFields reg project fields) := by
  intro fields
  induction fields with
  | nil =>
    intro _
    rw [projectFields]
    exact hT.pure
  | cons x rest ih =>
    intro h
    rw [List.forall_mem_cons] at h
    rw [projectFields]
    exact hT.bind h.1 fun _ _ _ _ => hT.bind (ih h.2) fun _ _ _ _ => hT.pure

/-- The projection of an attribute asks for what it mentions, and fails where a reference in it
    leads to no structure. -/
theorem projectAttr_closed : ∀ {a : Attribute} {view : Option String},
    (∀ x ∈ a.parts, ∀ f, reg.kind x = .error f → E f) →
    (∀ k, Mentions reg a view k → T TypeId (project k)) →
    T Attribute (projectAttr reg project a view) := by
  -- On the size of what is written in place; references are left to `project`.
  intro a
  induction hn : a.size using Nat.strongRecOn generalizing a with
  | ind n ih =>
    intro view ha hproject
    have below : ∀ {x : Attribute} {view : Option String}, x ∈ a.children →
        (∀ k, Mentions reg x view k → T TypeId (project k)) →
        T Attribute (projectAttr reg project x view) := fun hx =>
      ih _ (hn ▸ Attribute.size_lt_of_mem_children hx) rfl fun y hy =>
        ha y (Attribute.parts_subset (Attribute.mem_parts_of_mem_children hx) hy)
    obtain ⟨type, description, rules, overrides, default⟩ := a
    cases type with
    | user id =>
      rw [projectAttr]
      exact projectUser_closed hT rfl (ha _ (Attribute.mem_parts_self _)) hproject
    | primitive p =>
      rw [projectAttr]
      exact hT.pure
    | union name alternatives =>
      rw [projectAttr]
      exact hT.pure
    | array x =>
      rw [projectAttr]
      refine hT.bind (below (by simp [Attribute.children]) ?_) fun _ _ _ _ => hT.pure
      exact fun k hk => hproject k (.element (.inl rfl) hk)
    | map key x =>
      rw [projectAttr]
      refine hT.bind (below (by simp [Attribute.children]) ?_) fun _ _ _ _ => hT.pure
      exact fun k hk => hproject k (.element (.inr ⟨key, rfl⟩) hk)
    | object fields =>
      rw [projectAttr]
      refine hT.bind (projectFields_closed hT fun x hx => ?_) fun _ _ _ _ => hT.pure
      exact below (List.mem_map_of_mem hx) fun k hk => hproject k (.field rfl hx hk)

/-! ## Types -/

/-- The fields that a view lists are projected one by one, if they are declared. A field that is
    listed and not declared is a fault of its own, for which the first premise is. -/
theorem projectShown_closed {typeName viewName : String} {fields : List (String × Attribute)} :
    ∀ {members : List ViewAttribute} {shown : List (String × Attribute)},
      (∀ va ∈ members, Ordered.get? fields va.field = none →
        E (.unknownView typeName (viewName ++ " (field " ++ va.field ++ ")"))) →
      (∀ va ∈ members, ∀ a, Ordered.get? fields va.field = some a →
        T Attribute (projectAttr reg project a (va.view?.or a.overrides.view))) →
      T (List (String × Attribute))
        (projectShown reg project typeName viewName fields shown members) := by
  intro members
  induction members with
  | nil =>
    intro shown _ _
    rw [projectShown]
    exact hT.pure
  | cons va rest ih =>
    intro shown hno hattr
    rw [List.forall_mem_cons] at hno hattr
    rw [projectShown]
    cases ha : Ordered.get? fields va.field with
    | none => exact hT.throw (hno.1 ha)
    | some a => exact hT.bind (hattr.1 a ha) fun _ _ _ _ => ih hno.2 hattr.2

/-- What is projected of a type is what it refers to, and a fault is what stops it. The property `T`
    is closed under whatever a derivation does, and this says what it has to be true of. -/
theorem projectDefinition_closed (ht : reg.find? k.type = some t)
    (hself : ∀ f, Stuck reg k f → E f)
    (hproject : ∀ k', RefersTo reg k k' → T TypeId (project k')) :
    T Attribute (projectDefinition reg project t k.view) := by
  have hid := (Registry.mem_types_of_find? ht).2
  -- A kind is asked for at the definition or at a part of a field, and both stand among what the
  -- type is made of.
  have lost : ∀ {x : Attribute}, x ∈ reg.standing t.definition →
      ∀ y ∈ x.parts, ∀ f, reg.kind y = .error f → E f := by
    intro x hx y hy f hf
    refine hself f (.lost ht ?_ hf)
    rcases List.mem_append.mp hx with hx | hx
    · exact List.mem_append_left _ (Attribute.parts_subset hx hy)
    · obtain ⟨u, hu, hx⟩ := List.mem_flatMap.mp hx
      exact List.mem_append_right _ (List.mem_flatMap.mpr ⟨u, hu, Attribute.parts_subset hx hy⟩)
  have hown := reg.mem_standing_self t.definition
  unfold projectDefinition
  refine hT.bind (hT.lift (lost hown _ (Attribute.mem_parts_self _))) fun kind _ _ h => ?_
  obtain ⟨hkind, -⟩ := Deriving.yields_liftM.mp h
  cases kind with
  | object =>
    obtain ⟨v, hv⟩ := Registry.exists_view hkind
    obtain ⟨hr, htype⟩ := Registry.view_eq_some.mp hv
    unfold projectObject
    refine hT.bind (hT.of_ok ⟨_, hr⟩) fun r _ _ h => ?_
    obtain ⟨hr', -⟩ := Deriving.yields_liftM.mp h
    obtain rfl := Except.ok.inj (hr.symm.trans hr')
    rw [htype]
    refine hT.bind (hT.lift fun f hf => ?_) fun found _ _ h => ?_
    · obtain ⟨hno, hd, rfl⟩ := (Registry.view?_eq_error ht).mp (hid ▸ hf)
      exact hself _ (.unprojectable (.view ht hkind hno hd))
    · obtain ⟨hfound, -⟩ := Deriving.yields_liftM.mp h
      refine hT.bind (projectShown_closed hT (fun va hva hno => ?_) fun va hva a ha => ?_)
        fun _ _ _ _ => hT.pure
      · exact hself _ (.undeclared ht hv hfound hva hno)
      -- The fields may be those of another type, if the definition is an alias.
      · have hstanding := Registry.field_mem_standing hv hown
          (List.mem_map_of_mem (Ordered.mem_of_get? ha))
        exact projectAttr_closed hT (lost hstanding) fun k' hk' =>
          hproject k' (.field ht hv hfound hva ha hk')
  | array =>
    exact projectAttr_closed hT (lost hown) fun k' hk' =>
      hproject k' (.element ht hkind (.inl rfl) hk')
  | map =>
    exact projectAttr_closed hT (lost hown) fun k' hk' =>
      hproject k' (.element ht hkind (.inr rfl) hk')
  | primitive p => exact hT.throw (hself _ (.unprojectable (.plain ht hkind (by simp))))
  | union => exact hT.throw (hself _ (.unprojectable (.plain ht hkind (by simp))))

end

section

variable (hlists : ListsDeclared reg) (ht : reg.find? k.type = some t)
include hlists ht

/-- What the projection of an object lists is declared. So the fault of a field that is not declared
    does not arise in a registry where views list declared fields. -/
theorem exists_field_of_listed {v : ObjectView} {found : Option View} {va : ViewAttribute}
    (hv : ObjectView.of? reg t.definition = .ok (some v))
    (hfound : reg.view? t.id k.view = .ok found) (hva : va ∈ listed found v) :
    ∃ a, v.field? va.field = some a := by
  obtain ⟨hmem, hid⟩ := Registry.mem_types_of_find? ht
  cases found with
  | none =>
    obtain ⟨x, hx, rfl⟩ := List.mem_map.mp hva
    exact Ordered.exists_get? (List.mem_map_of_mem hx)
  | some w =>
    rw [hid, Registry.view?_eq_ok ht] at hfound
    exact hlists t hmem v hv w (List.mem_of_find?_eq_some hfound.1) va hva

end

/-- Where all references lead to structures and views list what is declared, nothing else can stop
    a projection than that it cannot be built. -/
theorem Stuck.unprojectable_of_sound {f : Fault} (hs : reg.Sound) (hlists : ListsDeclared reg)
    (h : Stuck reg k f) : Unprojectable reg k f := by
  cases h with
  | unprojectable h => exact h
  | undeclared ht hv hfound hva hno =>
    obtain ⟨a, ha⟩ := exists_field_of_listed hlists ht hv hfound hva
    rw [hno] at ha
    cases ha
  | lost ht hx hf =>
    have hresolves := hs _ (Registry.mem_types_of_find? ht).1
    obtain ⟨kind, hkind⟩ := (hs.of_mem_standing hresolves hx).kind
    rw [hf] at hkind
    cases hkind

/-! ## Projections of a type -/

/-- A projection that one of the projections leads to cannot be built. Only one of them is reported,
    whichever is asked for first. -/
def Underivable (reg : Registry) (k : ViewedType) (f : Fault) : Prop :=
  ∃ k', ReflTransGen (RefersTo reg) k k' ∧ Unprojectable reg k' f

/-- A projection asks for what it leads to, and fails where one of these is stopped. By induction on
    the levels: what is asked for inside is led to from outside. -/
theorem projectWithin_confined : ∀ {levels : Nat} {k : ViewedType} {s : Progress},
    (∀ f, reg.get k.type = .error f → P f) →
    (∀ k', ReflTransGen (RefersTo reg) k k' → ∀ f, Stuck reg k' f → P f) →
      Deriving.Confined (projectWithin reg levels k) s (ReflTransGen (RefersTo reg) k) P := by
  intro levels
  induction levels with
  | zero =>
    intro k s _ _
    rw [projectWithin]
    refine .bind .get fun _ _ _ => ?_
    split
    · exact .pure
    · exact .exhausted
  | succ levels ih =>
    intro k s hget hstuck
    rw [projectWithin]
    refine .bind .get fun _ _ _ => ?_
    split
    · exact .pure
    · refine .bind (.lift hget) fun t s₁ h => ?_
      rw [Deriving.yields_liftM, Registry.get_eq_ok] at h
      obtain ⟨ht, rfl⟩ := h
      refine .bind (.modify fun k' hk' => ?_) fun _ s₂ _ => ?_
      · rcases asked_iff.mp hk' with rfl | hk'
        · exact .inr .refl
        · exact .inl hk'
      · refine .bind ?_ fun _ _ _ => .bind (.modify fun _ hk' => .inl hk') fun _ _ _ => .pure
        -- What the projections below lead to is one step further from this one.
        refine projectDefinition_closed Deriving.closed_confined ht (hstuck k .refl)
          (fun k' hk' s => ?_) s₂
        refine (ih (fun f hf => ?_) fun k'' hreached => hstuck k'' (.head hk' hreached)).mono
          (fun _ hreached => .head hk' hreached) fun _ hf => hf
        obtain ⟨t', ht'⟩ := hk'.known
        rw [Registry.get_eq_ok.mpr ht'] at hf
        cases hf

/-- All views of a type together ask for what any of them leads to. Views are asked for one after
    another, and a later one may find its projection in the table. -/
theorem projectAll_confined {id : TypeId} {views : List String}
    (hget : ∀ f, reg.get id = .error f → P f)
    (hstuck : ∀ view ∈ views, ∀ k, ReflTransGen (RefersTo reg) ⟨id, view⟩ k →
      ∀ f, Stuck reg k f → P f) :
    Deriving.Confined (projectAll reg id views) s
      (fun k => ∃ view ∈ views, ReflTransGen (RefersTo reg) ⟨id, view⟩ k) P := by
  -- Stated for any part of the list, since the induction leaves the views of the claim as they are.
  have each : ∀ {levels : Nat} {rest : List String} {s : Progress}, rest ⊆ views →
      Deriving.Confined (rest.forM fun view => do
        let _ ← projectWithin reg levels ⟨id, view⟩) s
        (fun k => ∃ view ∈ views, ReflTransGen (RefersTo reg) ⟨id, view⟩ k) P := by
    intro levels rest
    induction rest with
    | nil =>
      intro s _
      rw [List.forM_eq_forM, List.forM_nil]
      exact .pure
    | cons view rest ih =>
      intro s hrest
      obtain ⟨hview, hrest⟩ := List.cons_subset.mp hrest
      rw [List.forM_eq_forM, List.forM_cons]
      refine .bind (.bind ?_ fun _ _ _ => .pure) fun _ _ _ => ih hrest
      exact (projectWithin_confined hget (hstuck view hview)).mono
        (fun _ hk => ⟨view, hview, hk⟩) fun _ hf => hf
  exact each (List.Subset.refl views)

/-! ## Derived projections -/

/-- What an attribute mentions is referred to by its image. The references of an attribute are those
    of its parts, except for what a union or a key holds. -/
theorem Image.mentions {Q : ViewedType → Prop} {b : Attribute} (h : Image reg Q a view b)
    (hm : Mentions reg a view k) : Q k := by
  -- What is mentioned is nested in the attribute, and the image is nested in the same way.
  induction hm generalizing b with
  | structured hid hk hs ht =>
    obtain ⟨t, ht', hq, -⟩ := h.of_user hid hk hs
    rw [ht] at ht'
    cases ht'
    exact hq
  | element ht _ ih =>
    rcases ht with ht | ⟨key, ht⟩
    · obtain ⟨y, -, hy⟩ := h.of_array ht
      exact ih hy
    · obtain ⟨y, -, hy⟩ := h.of_map ht
      exact ih hy
  | @field _ _ fields _ _ ht hx _ ih =>
    obtain ⟨shown, -, hnames, himages⟩ := h.of_object ht
    obtain ⟨i, hi⟩ := List.getElem?_of_mem hx
    have hlength : shown.length = fields.length := by simpa using congrArg List.length hnames
    have hlt : i < shown.length := hlength ▸ (List.getElem?_eq_some_iff.mp hi).1
    exact ih (himages i _ _ hi (List.getElem?_eq_getElem hlt))

/-- The definition of a projection refers to everything that it leads to. This is the reason why the
    set of projections that are there is closed. -/
theorem Defines.refersTo {Q : ViewedType → Prop} {d : Attribute} (ht : reg.find? k.type = some t)
    (hd : Defines reg Q t k.view d) (h : RefersTo reg k k') : Q k' := by
  cases h with
  | field ht' hv hfound hva ha hm =>
    obtain rfl := Option.some.inj (ht.symm.trans ht')
    obtain ⟨hr, htype⟩ := Registry.view_eq_some.mp hv
    obtain ⟨found, _, hfound', -, hp⟩ := hd.of_object hr htype
    obtain rfl := Except.ok.inj (hfound.symm.trans hfound')
    obtain ⟨a, b, ha', himage⟩ := hp.listed _ hva
    obtain rfl := Option.some.inj (ha.symm.trans ha')
    exact himage.mentions hm
  | element ht' hk hc hm =>
    obtain rfl := Option.some.inj (ht.symm.trans ht')
    exact (hd.of_collection hk hc).mentions hm

/-- What cannot be projected is an object without the view, or has no structure. -/
theorem Unprojectable.of_known {f : Fault} (h : Unprojectable reg k f)
    (ht : reg.find? k.type = some t) :
    (reg.kind t.definition = .ok .object ∧ t.findView? k.view = none ∧ k.view ≠ defaultView) ∨
      ∃ kind, reg.kind t.definition = .ok kind ∧ kind ≠ .object ∧ kind ≠ .array ∧ kind ≠ .map := by
  cases h with
  | view ht' hk hno hd =>
    obtain rfl := Option.some.inj (ht.symm.trans ht')
    exact .inl ⟨hk, hno, hd⟩
  | plain ht' hk hs =>
    obtain rfl := Option.some.inj (ht.symm.trans ht')
    exact .inr ⟨_, hk, hs⟩

/-- There is no definition of what cannot be projected. A definition is the evidence that nothing
    was in the way. -/
theorem Defines.not_unprojectable {Q : ViewedType → Prop} {d : Attribute} {f : Fault}
    (ht : reg.find? k.type = some t) (hd : Defines reg Q t k.view d) :
    ¬ Unprojectable reg k f := by
  intro h
  cases hd with
  | object hv hfound =>
    rw [(Registry.mem_types_of_find? ht).2] at hfound
    rcases h.of_known ht with ⟨-, hno, hd⟩ | ⟨kind, hk, hne, -⟩
    · rw [(Registry.view?_eq_error ht).mpr ⟨hno, hd, rfl⟩] at hfound
      cases hfound
    · exact hne (Except.ok.inj (hk.symm.trans (Registry.kind_of_view hv)))
  | collection hk hc =>
    rcases h.of_known ht with ⟨hobject, -⟩ | ⟨kind, hk', -, harray, hmap⟩
    · obtain rfl := Except.ok.inj (hk.symm.trans hobject)
      simp at hc
    · obtain rfl := Except.ok.inj (hk.symm.trans hk')
      exact hc.elim harray hmap

variable {derived : Derived} {id : TypeId} {views : List String} {f : Fault}

/-- What a projection leads to has been derived with it. -/
theorem Extends.reached (hx : Extends reg derived) (hk : derived.Has k)
    (h : ReflTransGen (RefersTo reg) k k') : derived.Has k' := by
  induction h with
  | refl => exact hk
  | tail _ hstep ih =>
    obtain ⟨t, u, ht, -, hd⟩ := hx.defined _ ih
    exact hd.refersTo ht hstep

/-- What was derived can be derived. -/
theorem Extends.not_underivable (hx : Extends reg derived) (hk : derived.Has k) :
    ¬ Underivable reg k f := by
  intro h
  obtain ⟨k', hreached, hf⟩ := h
  obtain ⟨t, u, ht, -, hd⟩ := hx.defined _ (hx.reached hk hreached)
  exact hd.not_unprojectable ht hf

/-- Exactly the projections are derived that those lead to which are asked for. One direction is
    that nothing else is asked for, and the other that what is there refers to what is there. -/
theorem derived_iff (hsep : Separable reg) (h : (derive reg id views).Yields derived) :
    derived.Has k ↔ ∃ view ∈ views, ReflTransGen (RefersTo reg) ⟨id, view⟩ k := by
  obtain ⟨hx, hviews⟩ := extends_of_derive hsep h
  constructor
  · intro hk
    unfold derive at h
    simp only [Walk.yields_bind, Walk.yields_liftM, Walk.yields_pure] at h
    obtain ⟨⟨⟨⟩, s⟩, hall, reg', -, rfl⟩ := h
    have hconfined : Deriving.Confined (projectAll reg id views) {}
        (fun k => ∃ view ∈ views, ReflTransGen (RefersTo reg) ⟨id, view⟩ k) fun _ => True :=
      projectAll_confined (fun _ _ => trivial) fun _ _ _ _ _ _ => trivial
    refine (hconfined.asked () s hall k hk).resolve_left ?_
    simp [Progress.Asked]
  · intro hk
    obtain ⟨view, hview, hreached⟩ := hk
    exact hx.reached (hviews view hview) hreached

/-- A derivation fails for what is wrong with one of the projections. The premises are what loading
    a design establishes. Which of several faults is reported is left open. -/
theorem derive_failsOnly (hs : reg.Sound) (hlists : ListsDeclared reg)
    (ht : reg.find? id = some t) :
    (derive reg id views).FailsOnly fun f => ∃ view ∈ views, Underivable reg ⟨id, view⟩ f := by
  unfold derive
  refine Walk.failsOnly_bind.mpr
    ⟨(projectAll_confined (fun f hf => ?_) fun view hview k hk f hf => ?_).fails, fun x hx => ?_⟩
  · rw [Registry.get_eq_ok.mpr ht] at hf
    cases hf
  · exact ⟨view, hview, k, hk, hf.unprojectable_of_sound hs hlists⟩
  · obtain ⟨⟨⟩, s⟩ := x
    have hbuilt := (provided_of_projectAll hx).1.exists_built
    obtain ⟨reg', hextend, -⟩ := exists_extend reg hbuilt
    exact Walk.failsOnly_bind.mpr
      ⟨Walk.failsOnly_of_ok ⟨reg', hextend⟩, fun _ _ => Walk.failsOnly_pure⟩

end Projection
end Shapewright
