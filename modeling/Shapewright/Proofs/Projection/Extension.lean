import Shapewright.Proofs.Projection.Images

/-!
# Registries with projections

The identity of a projection is reserved before the projection is built, so that cycles of types
come to an end: while a projection is open, it has been asked for and is not there yet. Once all are
closed, the registry has grown by one type for each projection that was asked for, each defined by
the type and the view that it projects. This takes identities that can be told apart, which they can
where the separator is in no identity of a type.

## Open projections

`Provided` is the invariant of the search. It has a list of the projections that are open, the
innermost first, since a projection is asked for in the middle of others and their definitions are
not there yet. `Provided.open` and `Provided.close` are the two steps; between them the invariant
holds with one more projection in the list.

## Identities

A projection is put under the identity of its type, a separator and the view. If an identity has a
separator in it, two projections may get one identity, and the one that is built later takes the
place of the other. Until the last section nothing is assumed about this: `Provides` says what the
registry has in any case, and `Extends` what follows where identities can be told apart.
-/

namespace Shapewright

open Projection.ViewedType (projectedId)

namespace Projection

/-- The identities of the types have no separator in them. The separator stands between the identity
    of a type and its view in that of a projection. -/
def Separable (reg : Registry) : Prop := ∀ t ∈ reg.types, '#' ∉ t.id.toList

/-- Whether a separator is in an identity can be read off it. -/
instance decidableSeparable (reg : Registry) : Decidable (Separable reg) :=
  inferInstanceAs (Decidable (∀ t ∈ reg.types, '#' ∉ t.id.toList))

variable {reg : Registry} {k k' : ViewedType} {t : UserType} {s s' : Progress}
  {opens : List ViewedType} {derived : Derived} {id : TypeId} {views : List String}

/-! ## Identities -/

theorem toList_projectedId (k : ViewedType) :
    (projectedId k).toList = k.type.toList ++ '#' :: k.view.toList := by
  unfold projectedId
  simp

/-- What is before the first separator and what is behind it. Neither of the first parts has one, so
    both texts are cut at the same place. -/
theorem eq_of_append_separator {x y z w : List Char} (hx : '#' ∉ x) (hy : '#' ∉ y)
    (h : x ++ '#' :: z = y ++ '#' :: w) : x = y ∧ z = w := by
  rcases List.append_eq_append_iff.mp h with ⟨m, hm, hrest⟩ | ⟨m, hm, hrest⟩
  -- Where one front is longer than the other, it holds the separator of the other.
  all_goals
    cases m with
    | nil =>
      rw [List.append_nil] at hm
      exact ⟨hm.symm ▸ rfl, by simpa [eq_comm] using hrest⟩
    | cons c m =>
      obtain ⟨rfl, -⟩ := List.cons.inj hrest
      simp [hm] at hx hy

/-- Where identities have no separator, two projections of known types never have one identity. Only
    the identities of the base types need to be without a separator. A view may have one. -/
theorem Separable.projectedId_inj (hsep : Separable reg) (hk : ∃ t, reg.find? k.type = some t)
    (hk' : ∃ t, reg.find? k'.type = some t) (h : projectedId k = projectedId k') : k = k' := by
  have separable : ∀ {k : ViewedType}, (∃ t, reg.find? k.type = some t) → '#' ∉ k.type.toList := by
    intro k hk
    obtain ⟨t, ht⟩ := hk
    obtain ⟨hmem, hid⟩ := Registry.mem_types_of_find? ht
    exact hid ▸ hsep t hmem
  have hchars := congrArg String.toList h
  rw [toList_projectedId, toList_projectedId] at hchars
  obtain ⟨htype, hview⟩ := eq_of_append_separator (separable hk) (separable hk') hchars
  obtain ⟨type, view⟩ := k
  obtain ⟨type', view'⟩ := k'
  rw [ViewedType.mk.injEq]
  exact ⟨String.toList_inj.mp htype, String.toList_inj.mp hview⟩

/-- Where identities have no separator, no type of the registry has that of a projection. -/
theorem Separable.find?_projectedId (hsep : Separable reg) (k : ViewedType) :
    reg.find? (projectedId k) = none := by
  by_contra hsome
  obtain ⟨t, ht⟩ := Option.ne_none_iff_exists'.mp hsome
  obtain ⟨hmem, hid⟩ := Registry.mem_types_of_find? ht
  refine hsep t hmem ?_
  rw [hid, toList_projectedId]
  exact List.mem_append_right _ List.mem_cons_self

/-! ## Projections while they are built -/

/-- Every projection that was asked for is that of a known type, and is open or there is a type
    under its identity. Where two projections have one identity, the type there is that of one of
    them. -/
structure Provided (reg : Registry) (opens : List ViewedType) (s : Progress) : Prop where
  nodup : (s.ids.map Prod.fst).Nodup
  identified : s.Identified
  known : ∀ k, s.Asked k → ∃ t, reg.find? k.type = some t
  built : ∀ k, s.Asked k → k ∈ opens ∨ ∃ k' t u, s.Asked k' ∧ projectedId k' = projectedId k ∧
    reg.find? k'.type = some t ∧ Ordered.get? s.built (projectedId k) = some u ∧
    u.id = projectedId k ∧ Defines reg s.Asked t k'.view u.definition

theorem asked_iff {ids : List (ViewedType × TypeId)} {built : List (TypeId × UserType)}
    {i : TypeId} : Progress.Asked ⟨Ordered.insert ids k i, built⟩ k' ↔
      k' = k ∨ Progress.Asked ⟨ids, built⟩ k' := Ordered.mem_keys_insert

theorem Provided.nothing : Provided reg [] {} :=
  ⟨by simp, by simp [Progress.Identified], by simp [Progress.Asked], by simp [Progress.Asked]⟩

/-- A projection is asked for: it is open then. Open means that its identity is known and its
    definition is still being built, as it is while its own fields are projected. -/
theorem Provided.open (h : Provided reg opens s) (ht : reg.find? k.type = some t) :
    Provided reg (k :: opens) { s with ids := Ordered.insert s.ids k (projectedId k) } := by
  refine ⟨Ordered.nodup_keys_insert h.nodup, h.identified.insert, fun k' hk' => ?_,
    fun k' hk' => ?_⟩
  · rcases asked_iff.mp hk' with rfl | hk'
    · exact ⟨t, ht⟩
    · exact h.known k' hk'
  · rcases asked_iff.mp hk' with rfl | hk'
    · exact .inl List.mem_cons_self
    · rcases h.built k' hk' with hopen | ⟨k'', t', u, hasked, hsame, ht', hu, hid, hd⟩
      · exact .inl (List.mem_cons_of_mem _ hopen)
      · exact .inr ⟨k'', t', u, asked_iff.mpr (.inr hasked), hsame, ht', hu, hid,
          hd.mono fun _ hasked => asked_iff.mpr (.inr hasked)⟩

/-- An open projection is built. Its type takes the place of one that has its identity. -/
theorem Provided.close (h : Provided reg (k :: opens) s) (hk : s.Asked k)
    (ht : reg.find? k.type = some t) {u : UserType} (hid : u.id = projectedId k)
    (hd : Defines reg s.Asked t k.view u.definition) :
    Provided reg opens { s with built := Ordered.insert s.built (projectedId k) u } := by
  refine ⟨h.nodup, h.identified, h.known, fun k' hk' => ?_⟩
  by_cases hsame : projectedId k' = projectedId k
  · rw [hsame]
    exact .inr ⟨k, t, u, hk, rfl, ht, Ordered.get?_insert_self, hid, hd⟩
  · rw [Ordered.get?_insert_ne hsame]
    refine (h.built k' hk').imp_left fun hmem => (List.mem_cons.mp hmem).resolve_left ?_
    exact fun heq => hsame (congrArg projectedId heq)

theorem asks_provided (reg : Registry) (levels : Nat) :
    Asks (projectWithin reg levels) (Provided reg []) :=
  asks_projectWithin reg (fun _ _ hs => hs.identified) (fun hs ht => hs.open ht)
    (fun hs hk ht hid hd => hs.close hk ht hid hd) levels []

/-- What holds before the first view is asked for and is kept by asking holds after the last. It is
    the induction that the derivation of several views needs, for any invariant of the table. -/
theorem asks_projectAll {I : Progress → Prop} (hasks : ∀ levels, Asks (projectWithin reg levels) I)
    (hI : I {}) (h : Deriving.Yields (projectAll reg id views) {} () s) :
    I s ∧ ∀ view ∈ views, s.Asked ⟨id, view⟩ := by
  -- What was asked for stays asked for. This is needed of each step, as later views are asked for
  -- after it.
  have each : ∀ {levels : Nat} {rest : List String} {s s' : Progress}, I s →
      Deriving.Yields (rest.forM fun view => do
        let _ ← projectWithin reg levels ⟨id, view⟩) s () s' →
      I s' ∧ (∀ view ∈ rest, s'.Asked ⟨id, view⟩) ∧ ∀ k, s.Asked k → s'.Asked k := by
    intro levels rest
    induction rest with
    | nil =>
      intro s s' hs h
      rw [List.forM_eq_forM, List.forM_nil, Deriving.yields_pure] at h
      obtain ⟨-, rfl⟩ := h
      exact ⟨hs, by simp, fun _ hk => hk⟩
    | cons view rest ih =>
      intro s s' hs h
      rw [List.forM_eq_forM, List.forM_cons] at h
      simp only [Deriving.yields_bind, Deriving.yields_pure] at h
      obtain ⟨⟨⟩, s₁, ⟨i, _, hi, -, rfl⟩, h⟩ := h
      obtain ⟨hs₁, -, hasked, hkeep⟩ := hasks levels hs hi
      obtain ⟨hs', hall, hkeep'⟩ := ih hs₁ h
      exact ⟨hs', List.forall_mem_cons.mpr ⟨hkeep' _ hasked, hall⟩,
        fun k hk => hkeep' k (hkeep k hk)⟩
  obtain ⟨hs, hasked, -⟩ := each hI h
  exact ⟨hs, hasked⟩

/-- Nothing is open before the first view is asked for, nor behind the last one. -/
theorem provided_of_projectAll (h : Deriving.Yields (projectAll reg id views) {} () s) :
    Provided reg [] s ∧ ∀ view ∈ views, s.Asked ⟨id, view⟩ :=
  asks_projectAll (asks_provided reg) Provided.nothing h

/-- The identities are those of the projections that were asked for. -/
theorem Provided.mem_ids (h : Provided reg opens s) {i : TypeId} :
    i ∈ s.ids.map Prod.snd ↔ ∃ k, s.Asked k ∧ i = projectedId k := by
  constructor
  · intro hi
    obtain ⟨e, he, rfl⟩ := List.mem_map.mp hi
    exact ⟨e.1, List.mem_map_of_mem he, h.identified e he⟩
  · intro hi
    obtain ⟨k, hk, rfl⟩ := hi
    obtain ⟨e, he, rfl⟩ := List.mem_map.mp hk
    exact h.identified e he ▸ List.mem_map_of_mem he

/-- Once nothing is open, everything that was asked for is there. -/
theorem Provided.exists_built (h : Provided reg [] s) :
    ∀ i ∈ s.ids.map Prod.snd, ∃ u, Ordered.get? s.built i = some u ∧ u.id = i := by
  intro i hi
  obtain ⟨k, hk, rfl⟩ := h.mem_ids.mp hi
  obtain ⟨_, _, u, -, -, -, hu, hid, -⟩ := (h.built k hk).resolve_left List.not_mem_nil
  exact ⟨u, hu, hid⟩

/-! ## Registries that were extended -/

/-- The projection is among those that were derived. It is asked for by its type and its view, and
    not by the identity that it has got. -/
def Derived.Has (derived : Derived) (k : ViewedType) : Prop := k ∈ derived.ids.map Prod.fst

/-- What was derived is what was built, and the types of the registry under all other identities. -/
theorem provided_of_derive (h : (derive reg id views).Yields derived) :
    ∃ s : Progress, derived.ids = s.ids ∧ Provided reg [] s ∧ (∀ view ∈ views, s.Asked ⟨id, view⟩) ∧
      extend s.built reg (s.ids.map Prod.snd) = .ok derived.registry := by
  unfold derive at h
  simp only [Walk.yields_bind, Walk.yields_liftM, Walk.yields_pure] at h
  obtain ⟨⟨⟨⟩, s⟩, hall, reg', hextend, rfl⟩ := h
  obtain ⟨hs, hviews⟩ := provided_of_projectAll hall
  exact ⟨s, rfl, hs, hviews, hextend⟩

/-- The registry of the projections has a type for each projection that was asked for, defined by a
    projection with its identity, and all other types of the registry that was extended. -/
structure Provides (reg : Registry) (derived : Derived) : Prop where
  size : reg.size ≤ derived.registry.size
  ids : ∀ e ∈ derived.ids, e.2 = projectedId e.1
  known : ∀ k, derived.Has k → ∃ t, reg.find? k.type = some t
  defined : ∀ k, derived.Has k → ∃ k' t u, derived.Has k' ∧ projectedId k' = projectedId k ∧
    reg.find? k'.type = some t ∧ derived.registry.find? (projectedId k) = some u ∧
    Defines reg derived.Has t k'.view u.definition
  kept : ∀ i, (¬ ∃ k, derived.Has k ∧ i = projectedId k) →
    derived.registry.find? i = reg.find? i

/-- What a derivation gives, whatever the identities are. What is missing is that the base types are
    still there, which takes identities that are apart. -/
theorem provides_of_derive (h : (derive reg id views).Yields derived) :
    Provides reg derived ∧ ∀ view ∈ views, derived.Has ⟨id, view⟩ := by
  obtain ⟨s, hids, hs, hviews, hextend⟩ := provided_of_derive h
  -- The derivation hands out the table as it was in the end.
  have hasked : derived.Has = s.Asked := by
    funext k
    rw [Derived.Has, hids, Progress.Asked]
  obtain ⟨_, hextended, hsize, hnew, hold⟩ := exists_extend reg hs.exists_built
  rw [hextend] at hextended
  cases hextended
  rw [hasked]
  refine ⟨⟨hsize, hids ▸ hs.identified, ?_, ?_, ?_⟩, hviews⟩
  all_goals rw [hasked]
  · exact hs.known
  · intro k hk
    obtain ⟨k', t, u, hk', hsame, ht, hu, -, hd⟩ :=
      (hs.built k hk).resolve_left List.not_mem_nil
    obtain ⟨u', hu', hfind⟩ := hnew _ (hs.mem_ids.mpr ⟨k, hk, rfl⟩)
    rw [hu] at hu'
    cases hu'
    refine ⟨k', t, _, hk', hsame, ht, hfind, ?_⟩
    rw [UserType.definition_withDefaultView, UserType.definition_named]
    exact hd
  · exact fun i hi => hold i (hi ∘ hs.mem_ids.mp)

/-- The registry of the projections is the other one with the projections that were asked for. Every
    identity in it is one that was there or that of a projection. -/
structure Extends (reg : Registry) (derived : Derived) : Prop where
  grows : reg.Grows derived.registry
  ids : ∀ e ∈ derived.ids, e.2 = projectedId e.1
  defined : ∀ k, derived.Has k → ∃ t u, reg.find? k.type = some t ∧
    derived.registry.find? (projectedId k) = some u ∧ Defines reg derived.Has t k.view u.definition
  cases : ∀ i u, derived.registry.find? i = some u →
    reg.find? i = some u ∨ ∃ k, derived.Has k ∧ i = projectedId k

/-- Where identities can be told apart, the registry has grown by exactly what was asked for. This
    is what most results about projections start from, and it says nothing of how the derivation
    goes. -/
theorem extends_of_derive (hsep : Separable reg) (h : (derive reg id views).Yields derived) :
    Extends reg derived ∧ ∀ view ∈ views, derived.Has ⟨id, view⟩ := by
  obtain ⟨hp, hviews⟩ := provides_of_derive h
  refine ⟨⟨⟨fun {i t} hf => ?_, hp.size⟩, hp.ids, fun k hk => ?_, fun i u hf => ?_⟩, hviews⟩
  -- An identity of the old registry has no separator, so no projection takes its place.
  · rw [hp.kept i ?_]
    · exact hf
    · rintro ⟨k, -, rfl⟩
      rw [hsep.find?_projectedId k] at hf
      cases hf
  · obtain ⟨k', t, u, hk', hsame, ht, hu, hd⟩ := hp.defined k hk
    obtain rfl := hsep.projectedId_inj (hp.known k' hk') (hp.known k hk) hsame
    exact ⟨t, u, ht, hu, hd⟩
  · by_cases hi : ∃ k, derived.Has k ∧ i = projectedId k
    · exact .inr hi
    · rw [hp.kept i hi] at hf
      exact .inl hf

end Projection
end Shapewright
