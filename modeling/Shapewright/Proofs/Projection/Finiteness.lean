import Mathlib.Data.Finset.Card
import Mathlib.Data.Finset.SDiff
import Shapewright.Proofs.Projection.Derivability

/-!
# Derivations come to an end

A projection is built once, and there are finitely many that can be asked for: a type is shown under
a view that was requested, under the default view, or under one that a tag names. Each projection
that is open leaves one less to be opened inside it. So a derivation ends, however the types refer
to each other.

## The measure

What can be asked for is written down as a list, `projections`, which is made of the types and the
views that occur in the registry and in the request. It does not matter that most of its members are
never asked for; what matters is that asking stays inside it (`RefersTo.mem_projections`) and that
it is shorter than the number of levels that the search is given (`length_projections_lt`).

The measure is the number of members that have not been asked for. Reserving an identity makes it
smaller before the search goes down, and nothing makes it larger. So along any path through open
projections it falls with each level.

## Ending together with a result

To know that the second part of a composition ends one has to know the state that the first part
leaves, so ending and keeping the measure are proved together (`Deriving.Carries`). The walk through
attributes is the one of `Deriving.Closed`, which is used here a second time.
-/

namespace Shapewright

open Projection.ViewedType (projectedId)

namespace Projection

variable {reg : Registry} {a : Attribute} {view : Option String} {views : List String}
  {k k' : ViewedType} {t : UserType} {s s' : Progress} {id : TypeId} {n : Nat}

/-! ## What can be asked for -/

/-- The views that are named by tags: of the fields of views, and of what is written in types. -/
def tags (reg : Registry) : List String :=
  (reg.types.flatMap fun t => t.views.flatMap (·.attributes)).filterMap (·.view?) ++
    (reg.types.flatMap (·.definition.parts)).filterMap (·.overrides.view)

/-- The types under the views that are requested, the default view, and those that tags name. -/
def projections (reg : Registry) (views : List String) : List ViewedType :=
  reg.types.flatMap fun t => (defaultView :: (views ++ tags reg)).map (⟨t.id, ·⟩)

/-- A projection is among them if its type is known and its view is one that occurs. The list is
    finite, and a derivation never leaves it. -/
theorem mem_projections : k ∈ projections reg views ↔ (∃ t, reg.find? k.type = some t) ∧
    (k.view = defaultView ∨ k.view ∈ views ∨ k.view ∈ tags reg) := by
  have known : (∃ t, reg.find? k.type = some t) ↔ ∃ t ∈ reg.types, t.id = k.type := by
    constructor
    · rintro ⟨t, ht⟩
      exact ⟨t, Registry.mem_types_of_find? ht⟩
    · rintro ⟨t, ht, hid⟩
      exact ⟨t, hid ▸ find?_of_nodup_map reg.nodup ht⟩
  obtain ⟨type, view⟩ := k
  rw [known]
  simp only [projections, List.mem_flatMap, List.mem_map, List.mem_cons, List.mem_append,
    ViewedType.mk.injEq]
  constructor
  · rintro ⟨t, ht, view', hview, hid, heq⟩
    exact ⟨⟨t, ht, hid⟩, heq ▸ hview⟩
  · rintro ⟨⟨t, ht, hid⟩, hview⟩
    exact ⟨t, ht, view, hview, hid, rfl⟩

/-- There are fewer projections than types may be built inside one another. The budget counts the
    views that are asked for, the tags of views and every attribute that could have one. -/
theorem length_projections_lt :
    (projections reg views).length < projectionBudget reg views.length := by
  have hpositions : (reg.types.flatMap (·.definition.parts)).length = reg.positions := by
    simp only [List.length_flatMap, Attribute.length_parts]
    rfl
  have htags : (tags reg).length ≤
      (reg.types.flatMap fun t => t.views.flatMap (·.attributes)).length + reg.positions := by
    unfold tags
    rw [List.length_append, ← hpositions]
    exact Nat.add_le_add (List.length_filterMap_le ..) (List.length_filterMap_le ..)
  have hlength : (projections reg views).length =
      reg.size * (views.length + (tags reg).length + 1) := by
    simp [projections, List.length_flatMap, Registry.size]
  rw [hlength, projectionBudget]
  exact Nat.lt_succ_of_le (Nat.mul_le_mul_left _ (by omega))

/-- A projection is mentioned under the view that is shown, the default view, or one of a tag. So
    only views occur that are in the list of tags, or were asked for. -/
theorem Mentions.shown (h : Mentions reg a view k) :
    k.view = defaultView ∨ view = some k.view ∨ ∃ x ∈ a.parts, x.overrides.view = some k.view := by
  induction h with
  -- A type that is no result is shown under its default view, whatever view was asked for.
  | @structured _ view _ _ t =>
    unfold UserType.shownUnder
    split
    · cases view with
      | none => exact .inl rfl
      | some view => exact .inr (.inl rfl)
    · exact .inl rfl
  | @element a x _ _ ht _ ih =>
    refine ih.imp_right (Or.imp_right fun ⟨y, hy, htag⟩ => ⟨y, ?_, htag⟩)
    refine Attribute.parts_subset (Attribute.mem_parts_of_mem_children ?_) hy
    rcases ht with ht | ⟨key, ht⟩ <;> simp [Attribute.children, ht]
  | @field a _ _ x _ ht hx _ ih =>
    have hpart : x.2 ∈ a.parts := by
      refine Attribute.mem_parts_of_mem_children ?_
      simp only [Attribute.children, ht]
      exact List.mem_map_of_mem hx
    rcases ih with hd | htag | ⟨y, hy, htag⟩
    · exact .inl hd
    · exact .inr (.inr ⟨x.2, hpart, htag⟩)
    · exact .inr (.inr ⟨y, Attribute.parts_subset hpart hy, htag⟩)

theorem mem_tags_of_written {x : Attribute} {tag : String}
    (hx : x ∈ reg.types.flatMap (·.definition.parts)) (htag : x.overrides.view = some tag) :
    tag ∈ tags reg :=
  List.mem_append_right _ (List.mem_filterMap.mpr ⟨x, hx, htag⟩)

/-- What a projection refers to can be asked for if it can be asked for itself. That is why all
    projections that a derivation comes to are in the list. -/
theorem RefersTo.mem_projections (h : RefersTo reg k k') (hk : k ∈ projections reg views) :
    k' ∈ projections reg views := by
  refine Projection.mem_projections.mpr ⟨h.known, ?_⟩
  have hview := (Projection.mem_projections.mp hk).2
  -- The views that can come up are those of the request, the default, and those written somewhere
  -- in the registry: in a tag or in a view.
  cases h with
  | @element t _ ht _ _ hm =>
    have hwritten : ∀ x ∈ t.definition.parts, x ∈ reg.types.flatMap (·.definition.parts) :=
      fun x hx => List.mem_flatMap.mpr ⟨t, (Registry.mem_types_of_find? ht).1, hx⟩
    rcases hm.shown with hd | hsame | ⟨x, hx, htag⟩
    · exact .inl hd
    · exact Option.some.inj hsame ▸ hview
    · exact .inr (.inr (mem_tags_of_written (hwritten x hx) htag))
  | @field t v found va a ht hv hfound hva ha hm =>
    obtain ⟨hmem, hid⟩ := Registry.mem_types_of_find? ht
    have hwritten : ∀ x ∈ a.parts, x ∈ reg.types.flatMap (·.definition.parts) := by
      have hstanding := Registry.field_mem_standing hv (reg.mem_standing_self t.definition)
        (List.mem_map_of_mem (Ordered.mem_of_get? ha))
      intro x hx
      rcases List.mem_append.mp hstanding with ha | ha
      · exact List.mem_flatMap.mpr ⟨t, hmem, Attribute.parts_subset ha hx⟩
      · obtain ⟨u, hu, ha⟩ := List.mem_flatMap.mp ha
        exact List.mem_flatMap.mpr ⟨u, hu, Attribute.parts_subset ha hx⟩
    rcases hm.shown with hd | hshown | ⟨x, hx, htag⟩
    · exact .inl hd
    · rcases Option.or_eq_some_iff.mp hshown with hown | ⟨-, htag⟩
      · -- A member has a tag of its own only where it is one of a view.
        cases found with
        | none =>
          obtain ⟨x, -, rfl⟩ := List.mem_map.mp hva
          cases hown
        | some w =>
          rw [hid, Registry.view?_eq_ok ht] at hfound
          refine .inr (.inr (List.mem_append_left _ (List.mem_filterMap.mpr ⟨va, ?_, hown⟩)))
          refine List.mem_flatMap.mpr ⟨t, hmem, List.mem_flatMap.mpr ⟨w, ?_, hva⟩⟩
          exact List.mem_of_find?_eq_some hfound.1
      · exact .inr (.inr (mem_tags_of_written (hwritten a a.mem_parts_self) htag))
    · exact .inr (.inr (mem_tags_of_written (hwritten x hx) htag))

/-! ## What is left to be asked for -/

/-- Whether a projection was asked for can be looked up. -/
instance decidableAsked (s : Progress) : DecidablePred s.Asked := fun k =>
  inferInstanceAs (Decidable (k ∈ s.ids.map Prod.fst))

/-- How many of the projections were not asked for. -/
def unasked (reg : Registry) (views : List String) (s : Progress) : Nat :=
  ((projections reg views).toFinset.filter (¬ s.Asked ·)).card

theorem unasked_lt_budget : unasked reg views s < projectionBudget reg views.length := by
  calc unasked reg views s ≤ (projections reg views).toFinset.card := Finset.card_filter_le ..
    _ ≤ (projections reg views).length := List.toFinset_card_le _
    _ < projectionBudget reg views.length := length_projections_lt

/-- Asking for a new projection leaves fewer. -/
theorem unasked_insert_lt {i : TypeId} (hk : k ∈ projections reg views) (hnew : ¬ s.Asked k) :
    unasked reg views { s with ids := Ordered.insert s.ids k i } < unasked reg views s := by
  refine Finset.card_lt_card (Finset.ssubset_iff_of_subset ?_ |>.mpr ⟨k, ?_, ?_⟩)
  · intro k' hk'
    rw [Finset.mem_filter] at hk' ⊢
    exact ⟨hk'.1, fun hasked => hk'.2 (asked_iff.mpr (.inr hasked))⟩
  · exact Finset.mem_filter.mpr ⟨List.mem_toFinset.mpr hk, hnew⟩
  · rw [Finset.mem_filter]
    exact fun h => h.2 (asked_iff.mpr (.inl rfl))

theorem not_asked_of_get? (h : Ordered.get? s.ids k = none) : ¬ s.Asked k := by
  intro hasked
  obtain ⟨i, hi⟩ := Ordered.exists_get? hasked
  rw [h] at hi
  cases hi

/-! ## Derivations that end -/

namespace Deriving

variable {α : Type} {I J : Progress → Prop}

/-- From all types in `I` the derivation ends, with types in `J` if it ends well. Derivations are
    put together from parts, and so are these statements. -/
structure Carries (w : Deriving α) (I J : Progress → Prop) : Prop where
  ends : ∀ s, I s → (w.run s).Finishes
  keeps : ∀ s a s', I s → Yields w s a s' → J s'

/-- Compositions end if both parts do, the second from where the first arrives. The measure `J` in
    the middle is what the first part hands on. -/
theorem Carries.bind {β : Type} {K : Progress → Prop} {w : Deriving α} {f : α → Deriving β}
    (hw : Carries w I J) (hf : ∀ a s s', Yields w s a s' → Carries (f a) J K) :
    Carries (w >>= f) I K where
  ends := by
    intro s hs
    rw [StateT.run_bind, Walk.finishes_bind]
    exact ⟨hw.ends s hs, fun x hx => (hf x.1 s x.2 hx).ends x.2 (hw.keeps s x.1 x.2 hs hx)⟩
  keeps := by
    intro s b s'' hs h
    obtain ⟨a, s', ha, hb⟩ := yields_bind.mp h
    exact (hf a s s' ha).keeps s' b s'' (hw.keeps s a s' hs ha) hb

theorem Carries.mono {I' J' : Progress → Prop} {w : Deriving α} (h : Carries w I J)
    (hI : ∀ s, I' s → I s) (hJ : ∀ s, J s → J' s) : Carries w I' J' :=
  ⟨fun s hs => h.ends s (hI s hs), fun s a s' hs hw => hJ s' (h.keeps s a s' (hI s hs) hw)⟩

theorem Carries.pure {a : α} : Carries (pure a) I I where
  ends := fun _ _ => Walk.finishes_pure
  keeps := by
    intro s b s' hs h
    obtain ⟨-, rfl⟩ := yields_pure.mp h
    exact hs

/-- What follows may depend on the types that there are. The table is read and not changed, so what
    held of it still holds. -/
theorem Carries.get {f : Progress → Deriving α}
    (hf : ∀ s, I s → Carries (f s) (fun s' => s' = s) J) :
    Carries (get >>= f) I J where
  ends := by
    intro s hs
    rw [StateT.run_bind, Walk.finishes_bind]
    refine ⟨Walk.finishes_pure, fun x hx => ?_⟩
    obtain ⟨a, s'⟩ := x
    obtain ⟨rfl, rfl⟩ := yields_get.mp hx
    exact (hf _ hs).ends _ rfl
  keeps := by
    intro s a s' hs h
    obtain ⟨_, _, hget, h⟩ := yields_bind.mp h
    obtain ⟨rfl, rfl⟩ := yields_get.mp hget
    exact (hf _ hs).keeps _ a s' rfl h

/-- To change what there is ends, with what it is changed to. -/
theorem Carries.modify {f : Progress → Progress} (h : ∀ s, I s → J (f s)) :
    Carries (modify f) I J where
  ends := fun _ _ => Walk.finishes_pure
  keeps := by
    intro s b s' hs h'
    obtain rfl := yields_modify.mp h'
    exact h s hs

theorem Carries.lift {e : Except Fault α} : Carries (liftM e) I I where
  ends := by
    intro s _
    cases e with
    | error f => exact ⟨_, rfl⟩
    | ok a => exact ⟨_, rfl⟩
  keeps := by
    intro s b s' hs h
    obtain ⟨-, rfl⟩ := yields_liftM.mp h
    exact hs

theorem Carries.throw {f : Fault} : Carries (throw f : Deriving α) I I where
  ends := fun _ _ => ⟨_, rfl⟩
  keeps := fun _ _ _ _ h => absurd h yields_throw

theorem closed_carries : Closed (fun _ w => Carries w I I) fun _ => True where
  bind := fun hw hf => hw.bind hf
  pure := .pure
  lift := fun _ => .lift
  throw := fun _ => .throw

end Deriving

open Deriving

/-- A projection ends if no more are left than may be built inside one another. By induction on the
    levels. A projection that is asked for is marked at once, so one fewer is left for what is
    inside. -/
theorem carries_projectWithin : ∀ {levels : Nat} {k : ViewedType}, k ∈ projections reg views →
    Carries (projectWithin reg levels k) (unasked reg views · ≤ levels)
      (unasked reg views · ≤ levels) := by
  intro levels
  induction levels with
  | zero =>
    intro k hk
    rw [projectWithin]
    refine .get fun s hs => ?_
    cases hasked : Ordered.get? s.ids k with
    | some i => exact Carries.pure.mono (fun s' heq => heq ▸ hs) fun _ hs => hs
    | none =>
      have hlt := unasked_insert_lt (i := projectedId k) hk (not_asked_of_get? hasked)
      omega
  | succ levels ih =>
    intro k hk
    rw [projectWithin]
    refine .get fun s hs => ?_
    cases hasked : Ordered.get? s.ids k with
    | some i => exact Carries.pure.mono (fun s' heq => heq ▸ hs) fun _ hs => hs
    | none =>
      -- The projection is put in the table before its definition is looked into, so one less is
      -- left for what is inside.
      have hlt := unasked_insert_lt (i := projectedId k) hk (not_asked_of_get? hasked)
      refine Carries.lift.bind fun t s₁ s₂ ht => ?_
      rw [yields_liftM, Registry.get_eq_ok] at ht
      refine Carries.bind (J := (unasked reg views · ≤ levels))
        (.modify fun s' heq => by subst heq; omega) fun _ _ _ _ => ?_
      refine Carries.bind (J := (unasked reg views · ≤ levels)) ?_ fun _ _ _ _ => ?_
      · exact projectDefinition_closed closed_carries ht.1 (fun _ _ => trivial)
          fun k' hk' => ih (hk'.mem_projections hk)
      · refine Carries.bind (J := (unasked reg views · ≤ levels + 1))
          (.modify fun s' hs' => Nat.le_succ_of_le hs') fun _ _ _ _ => .pure

/-- Nothing is built of a type that is not known. The fault comes before anything inside is asked
    for. -/
theorem carries_projectWithin_unknown {I : Progress → Prop} {levels : Nat} (hlevels : levels ≠ 0)
    (hk : reg.find? k.type = none) : Carries (projectWithin reg levels k) I I := by
  obtain ⟨levels, rfl⟩ := Nat.exists_eq_succ_of_ne_zero hlevels
  rw [projectWithin]
  refine .get fun s hs => ?_
  cases Ordered.get? s.ids k with
  | some i => exact Carries.pure.mono (fun s' heq => heq ▸ hs) fun _ hs => hs
  | none =>
    refine Carries.lift.bind fun t s₁ s₂ ht => ?_
    rw [yields_liftM, Registry.get_eq_ok, hk] at ht
    cases ht.1

/-- All projections that the views lead to are built, or there is a fault. The budget exceeds the
    number of projections, so it is never used up. -/
theorem finishes_projectAll (reg : Registry) (id : TypeId) (views : List String) (s : Progress) :
    ((projectAll reg id views).run s).Finishes := by
  let budget := projectionBudget reg views.length
  -- The budget is at least the number of projections that can be asked for. The root itself may be
  -- unknown, which is a fault and ends the walk.
  have each : ∀ {view : String}, view ∈ views → Carries (projectWithin reg budget ⟨id, view⟩)
      (unasked reg views · ≤ budget) (unasked reg views · ≤ budget) := by
    intro view hview
    cases ht : reg.find? id with
    | none => exact carries_projectWithin_unknown (Nat.succ_ne_zero _) ht
    | some t =>
      exact carries_projectWithin (mem_projections.mpr ⟨⟨t, ht⟩, .inr (.inl hview)⟩)
  have all : ∀ {rest : List String}, rest ⊆ views → Carries (rest.forM fun view => do
        let _ ← projectWithin reg budget ⟨id, view⟩)
      (unasked reg views · ≤ budget) (unasked reg views · ≤ budget) := by
    intro rest
    induction rest with
    | nil =>
      intro _
      rw [List.forM_eq_forM, List.forM_nil]
      exact .pure
    | cons view rest ih =>
      intro hrest
      obtain ⟨hview, hrest⟩ := List.cons_subset.mp hrest
      rw [List.forM_eq_forM, List.forM_cons]
      exact ((each hview).bind fun _ _ _ _ => .pure).bind fun _ _ _ _ => ih hrest
  exact (all (List.Subset.refl views)).ends s unasked_lt_budget.le

/-- The search for projections always comes to an end. -/
theorem finishes_derive (reg : Registry) (id : TypeId) (views : List String) :
    (derive reg id views).Finishes := by
  unfold derive
  simp only [Walk.finishes_bind, Walk.finishes_liftM, Walk.finishes_pure, implies_true, and_true]
  exact finishes_projectAll reg id views {}

end Projection
end Shapewright
