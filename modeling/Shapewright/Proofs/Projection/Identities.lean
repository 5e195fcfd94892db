import Shapewright.Proofs.Projection.Extension

/-!
# Identities of projections

The identity of a projection is that of its type, a separator and the name of the view. The
separator may stand in the identity of a type as well: then two projections can have one identity,
and a type of the registry can have that of a projection, which takes its place. These are the only
two ways in which identities coincide; without them the projections are added behind all types, and
every type stays where and as it was.

## Two readings of one text

Read `Tray#cup#tiny` as a type and a view: it is `Tray` under `cup#tiny`, or `Tray#cup` under
`tiny`. The separator of the one reading is inside a part of the other, and what stands between the
two is the end of a type and the beginning of a view. `Coincides` says that of a pair, and with
`projectedId_eq_iff` there is no other way for two identities to be equal.

## What becomes of the registry

Types are put into the registry under their identity, so one that is there already is replaced. The
types are kept in order, and where all identities are new, the registry that comes out is the one
that went in with the projections behind it (`types_of_extend`). Nothing in the code checks that
they are new.
-/

namespace Shapewright

open Projection.ViewedType (projectedId)

namespace Projection

variable {reg reg' : Registry} {k k' : ViewedType} {t : UserType} {s : Progress}
  {opens : List ViewedType} {derived : Derived} {id : TypeId} {views : List String}
  {built : List (TypeId × UserType)}

/-! ## Two identities -/

/-- What the identity of the second type has behind that of the first, from a separator on, is what
    the first view begins with, up to a separator of its own. -/
def Coincides (k k' : ViewedType) : Prop :=
  ∃ more, k'.type = k.type ++ "#" ++ more ∧ k.view = more ++ "#" ++ k'.view

/-- A type of the registry has the identity of the projection. Such a type would be replaced by the
    projection. -/
def Taken (reg : Registry) (k : ViewedType) : Prop := ∃ t ∈ reg.types, t.id = projectedId k

theorem Coincides.projectedId_eq (h : Coincides k k') : projectedId k = projectedId k' := by
  obtain ⟨more, htype, hview⟩ := h
  unfold projectedId
  rw [htype, hview]
  simp only [String.append_assoc]

/-- Projections that coincide are two different ones. -/
theorem Coincides.ne (h : Coincides k k') : k ≠ k' := by
  intro heq
  obtain ⟨more, htype, -⟩ := h
  rw [heq, String.append_assoc] at htype
  have hempty := String.append_eq_left_iff.mp htype.symm
  simp at hempty

/-- Where the second identity begins with the whole first type and more, the types differ by what
    the first view begins with. -/
theorem eq_or_coincides {more : List Char} (htype : k'.type.toList = k.type.toList ++ more)
    (hview : '#' :: k.view.toList = more ++ '#' :: k'.view.toList) : k = k' ∨ Coincides k k' := by
  cases more with
  | nil =>
    rw [List.append_nil, String.toList_inj] at htype
    rw [List.nil_append, List.cons.injEq, String.toList_inj] at hview
    obtain ⟨type, view⟩ := k
    obtain ⟨type', view'⟩ := k'
    exact .inl (ViewedType.mk.injEq .. ▸ ⟨htype.symm, hview.2⟩)
  | cons c more =>
    obtain ⟨rfl, hrest⟩ := List.cons.inj hview
    refine .inr ⟨String.ofList more, ?_, ?_⟩
    · rw [← String.toList_inj, htype]
      simp
    · rw [← String.toList_inj, hrest]
      simp

/-- Two identities are equal only for one projection, or for two that coincide. Two coincide if one
    has a separator where the other goes on from its type to its view. -/
theorem projectedId_eq_iff :
    projectedId k = projectedId k' ↔ k = k' ∨ Coincides k k' ∨ Coincides k' k := by
  constructor
  · intro h
    have hchars := congrArg String.toList h
    rw [toList_projectedId, toList_projectedId] at hchars
    rcases List.append_eq_append_iff.mp hchars with ⟨more, htype, hview⟩ | ⟨more, htype, hview⟩
    · exact (eq_or_coincides htype hview).imp_right .inl
    · exact (eq_or_coincides htype hview).imp Eq.symm .inr
  · intro h
    rcases h with rfl | h | h
    · rfl
    · exact h.projectedId_eq
    · exact h.projectedId_eq.symm

/-! ## Registries that grow at their end -/

/-- Types under identities that are all new are added behind the others. The order is that of the
    identities, because a new type goes behind all others. -/
theorem types_of_extend {ids : List TypeId} : ∀ {reg : Registry},
    (∀ i ∈ ids, ∃ u, Ordered.get? built i = some u ∧ u.id = i) → ids.Nodup →
    (∀ i ∈ ids, ∀ t ∈ reg.types, t.id ≠ i) → extend built reg ids = .ok reg' →
    ∃ added, reg'.types = reg.types ++ added ∧ added.map (·.id) = ids := by
  induction ids with
  | nil =>
    intro reg _ _ _ h
    obtain rfl := Except.ok.inj h
    exact ⟨[], by simp, rfl⟩
  | cons i rest ih =>
    intro reg hbuilt hnodup hfresh h
    rw [List.forall_mem_cons] at hbuilt hfresh
    rw [List.nodup_cons] at hnodup
    obtain ⟨⟨u, hu, hid⟩, hbuilt⟩ := hbuilt
    rw [extend, hu] at h
    have hnamed : u.named.withDefaultView.id = i := by
      rw [UserType.id_withDefaultView, UserType.id_named, hid]
    have htypes : (reg.insert u).types = reg.types ++ [u.named.withDefaultView] :=
      UserType.insertInto_eq_append fun t ht => hnamed ▸ hfresh.1 t ht
    -- The types that follow are new beside this one too, since the identities differ.
    have hrest : ∀ j ∈ rest, ∀ t ∈ (reg.insert u).types, t.id ≠ j := by
      intro j hj t ht
      rw [htypes, List.mem_append, List.mem_singleton] at ht
      rcases ht with ht | rfl
      · exact hfresh.2 j hj t ht
      · exact fun heq => hnodup.1 (hnamed.symm.trans heq ▸ hj)
    obtain ⟨added, hadded, hids⟩ := ih hbuilt hnodup.2 hrest h
    refine ⟨u.named.withDefaultView :: added, ?_, ?_⟩
    · rw [hadded, htypes, List.append_assoc, List.singleton_append]
    · rw [List.map_cons, hids, hnamed]

/-! ## Fresh identities -/

/-- Each projection has an identity of its own, which no type had before. The registry has all its
    types as they were, and the projections behind them. -/
structure Fresh (reg : Registry) (derived : Derived) : Prop where
  distinct : (derived.ids.map Prod.snd).Nodup
  unused : ∀ i ∈ derived.ids.map Prod.snd, reg.find? i = none
  added : ∃ added, derived.registry.types = reg.types ++ added ∧
    added.map (·.id) = derived.ids.map Prod.snd

theorem find?_eq_none_iff {i : TypeId} : reg.find? i = none ↔ ∀ t ∈ reg.types, t.id ≠ i := by
  unfold Registry.find?
  simp

section

variable (h : (derive reg id views).Yields derived)
include h

theorem nodup_of_derive : (derived.ids.map Prod.fst).Nodup := by
  obtain ⟨s, hids, hs, -⟩ := provided_of_derive h
  exact hids ▸ hs.nodup

theorem identities_of_derive :
    derived.ids.map Prod.snd = (derived.ids.map Prod.fst).map projectedId := by
  rw [List.map_map]
  exact List.map_congr_left fun e he => (provides_of_derive h).1.ids e he

/-- Identities are distinct where no two projections coincide. The projections themselves are the
    keys of a table, so only identities can be equal. -/
theorem distinct_iff : (derived.ids.map Prod.snd).Nodup ↔
    ∀ k k', derived.Has k → derived.Has k' → ¬ Coincides k k' := by
  rw [identities_of_derive h, List.nodup_map_iff_inj_on (nodup_of_derive h)]
  constructor
  · exact fun hinj k k' hk hk' hsame => hsame.ne (hinj k hk k' hk' hsame.projectedId_eq)
  · intro hno k hk k' hk' heq
    rcases projectedId_eq_iff.mp heq with heq | hsame | hsame
    · exact heq
    · exact absurd hsame (hno k k' hk hk')
    · exact absurd hsame (hno k' k hk' hk)

/-- No type had one of the identities exactly if none is taken. -/
theorem unused_iff : (∀ i ∈ derived.ids.map Prod.snd, reg.find? i = none) ↔
    ∀ k, derived.Has k → ¬ Taken reg k := by
  rw [identities_of_derive h, List.forall_mem_map]
  refine forall₂_congr fun k _ => ?_
  rw [find?_eq_none_iff, Taken]
  simp only [not_exists, not_and]

/-- Identities that are distinct and unused are fresh: their types are added behind the others. Each
    of the two conditions can fail on its own, and either way a type is lost. -/
theorem fresh_iff : Fresh reg derived ↔
    (∀ k k', derived.Has k → derived.Has k' → ¬ Coincides k k') ∧
      ∀ k, derived.Has k → ¬ Taken reg k := by
  constructor
  · exact fun hf => ⟨(distinct_iff h).mp hf.distinct, (unused_iff h).mp hf.unused⟩
  · intro ⟨hno, hfree⟩
    have hdistinct := (distinct_iff h).mpr hno
    have hunused := (unused_iff h).mpr hfree
    refine ⟨hdistinct, hunused, ?_⟩
    obtain ⟨s, hids, hs, -, hextend⟩ := provided_of_derive h
    rw [hids] at hdistinct hunused ⊢
    exact types_of_extend hs.exists_built hdistinct
      (fun i hi => find?_eq_none_iff.mp (hunused i hi)) hextend

/-- Identities are fresh where the separator is in no identity of a type. -/
theorem fresh_of_separable (hsep : Separable reg) : Fresh reg derived := by
  have hknown := (provides_of_derive h).1.known
  refine (fresh_iff h).mpr ⟨fun k k' hk hk' hsame => ?_, fun k _ htaken => ?_⟩
  · exact hsame.ne (hsep.projectedId_inj (hknown k hk) (hknown k' hk') hsame.projectedId_eq)
  · obtain ⟨t, ht, hid⟩ := htaken
    exact find?_eq_none_iff.mp (hsep.find?_projectedId k) t ht hid

end

/-- Every type and view is projected once, and the identities of the projections are fresh exactly
    if no two of them coincide and none is that of a type. A separator in no type is enough, since
    an identity is the type, the separator and the view. -/
theorem derive_fresh_iff (reg : Registry) (id : TypeId) (views : List String) (derived : Derived)
    (h : (derive reg id views).Yields derived) :
    (derived.ids.map Prod.fst).Nodup ∧
    (Fresh reg derived ↔ (∀ k k', derived.Has k → derived.Has k' → ¬ Coincides k k') ∧
      ∀ k, derived.Has k → ¬ Taken reg k) ∧
    (Separable reg → Fresh reg derived) :=
  ⟨nodup_of_derive h, fresh_iff h, fresh_of_separable h⟩

/-- Pots that are shown with their cups. -/
def pots : Registry where
  types := [
    { id := "Pot", name := "Pot", kind := .result
      definition := {
        type := .object [("cup", .user "Cup"), ("volume", { type := .primitive .int })] }
      views := [
        { name := "default", attributes := [.name "cup", .name "volume"] },
        { name := "tiny", attributes := [.tagged "cup" (some "tiny")] }] },
    { id := "Cup", name := "Cup", kind := .result
      definition := { type := .object [("color", { type := .primitive .string })] }
      views := [
        { name := "default", attributes := [.name "color"] },
        { name := "tiny", attributes := [] }] }]
  nodup := by decide

/-- The four projections of a pot and its cup have four identities. -/
theorem derive_fresh_pots : ∃ derived, (derive pots "Pot" ["default", "tiny"]).Yields derived ∧
    derived.ids.map Prod.snd = ["Pot#default", "Cup#default", "Pot#tiny", "Cup#tiny"] ∧
    (derived.ids.map Prod.fst).Nodup ∧
    (Fresh pots derived ↔ (∀ k k', derived.Has k → derived.Has k' → ¬ Coincides k k') ∧
      ∀ k, derived.Has k → ¬ Taken pots k) ∧
    (Separable pots → Fresh pots derived) := by
  obtain ⟨derived, h, hids⟩ : ∃ derived, (derive pots "Pot" ["default", "tiny"]).Yields derived ∧
      derived.ids.map Prod.snd = ["Pot#default", "Cup#default", "Pot#tiny", "Cup#tiny"] := by
    decide +kernel
  exact ⟨derived, h, hids, derive_fresh_iff pots "Pot" ["default", "tiny"] derived h⟩

/-- A lid for cups, under an identity that is written like that of a projection. -/
def lids : Registry where
  types := [
    { id := "Cup", name := "Cup", kind := .result
      definition := { type := .object [("color", { type := .primitive .string })] }
      views := [{ name := "default", attributes := [.name "color"] }] },
    { id := "Cup#default", name := "Lid"
      definition := { type := .object [("wide", { type := .primitive .boolean })] } }]
  nodup := by decide

/-- A tray with a cup, of which each has a separator somewhere. -/
def trays : Registry where
  types := [
    { id := "Tray", name := "Tray", kind := .result
      definition := { type := .object [("cup", .user "Tray#cup")] }
      views := [{ name := "cup#tiny", attributes := [.tagged "cup" (some "tiny")] }] },
    { id := "Tray#cup", name := "Cup", kind := .result
      definition := { type := .object [("color", { type := .primitive .string })] }
      views := [{ name := "tiny", attributes := [.name "color"] }] }]
  nodup := by decide

/-- The projection of a cup takes the place of the lid, and a tray and its cup are projected under
    one identity. -/
theorem derive_not_fresh :
    (∃ derived, (derive lids "Cup" ["default"]).Yields derived ∧ ¬ Fresh lids derived ∧
      (lids.find? "Cup#default").map (·.name) = some "Lid" ∧
      (derived.registry.find? "Cup#default").map (·.name) = some "CupView") ∧
    ∃ derived, (derive trays "Tray" ["cup#tiny"]).Yields derived ∧ ¬ Fresh trays derived ∧
      derived.ids =
        [(⟨"Tray", "cup#tiny"⟩, "Tray#cup#tiny"), (⟨"Tray#cup", "tiny"⟩, "Tray#cup#tiny")] := by
  -- First the base type that is replaced, then the two projections of one identity.
  constructor
  · obtain ⟨derived, h, hids, hname⟩ : ∃ derived, (derive lids "Cup" ["default"]).Yields derived ∧
        derived.ids.map Prod.snd = ["Cup#default"] ∧
        (derived.registry.find? "Cup#default").map (·.name) = some "CupView" := by
      decide +kernel
    refine ⟨derived, h, fun hfresh => ?_, rfl, hname⟩
    have hunused := hfresh.unused "Cup#default" (by simp [hids])
    cases hunused
  · obtain ⟨derived, h, hids⟩ : ∃ derived, (derive trays "Tray" ["cup#tiny"]).Yields derived ∧
        derived.ids =
          [(⟨"Tray", "cup#tiny"⟩, "Tray#cup#tiny"), (⟨"Tray#cup", "tiny"⟩, "Tray#cup#tiny")] := by
      decide +kernel
    refine ⟨derived, h, fun hfresh => ?_, hids⟩
    have hdistinct := hfresh.distinct
    rw [hids] at hdistinct
    simp at hdistinct

end Projection
end Shapewright
