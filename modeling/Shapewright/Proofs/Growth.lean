import Shapewright.Proofs.Positions

/-!
# Growing registries

A projection adds types to a registry. As long as the identities of the new types are not taken,
whatever could be looked up before is found as it was: references resolve to the same attributes,
and attributes are of the same kind.

A type that is inserted takes the place of one with its identity, if there is any. So growth is not
a property of insertion but one of its result (`Grows`), and whether it holds is for those to show
who insert. It is stated by look-ups and not by lists of types. The order of the types is of no
account to a reference, while their number is: it limits the hops that a chain of references is
granted. So that there are no fewer types is the other half of the definition.

This cannot happen the other way round, and all lemmas here go in one direction. A look-up that
failed for want of a type may well succeed in a larger registry.

What `named` and `withDefaultView` add to a type on insertion is its name and a view. Neither has a
part in resolving references, as the first lemmas say.
-/

namespace Shapewright

namespace UserType

theorem definition_named (t : UserType) : t.named.definition = t.definition := by
  unfold named
  split
  · rfl
  · rfl

theorem definition_withDefaultView (t : UserType) :
    t.withDefaultView.definition = t.definition := by
  unfold withDefaultView
  split
  · rfl
  · split
    · rfl
    · rfl

theorem id_named (t : UserType) : t.named.id = t.id := by
  unfold named
  split
  · rfl
  · rfl

theorem id_withDefaultView (t : UserType) : t.withDefaultView.id = t.id := by
  unfold withDefaultView
  split
  · rfl
  · split
    · rfl
    · rfl

/-- An inserted type is found under its identity, and all others as before. A type that is there
    under the identity is replaced where it stands. -/
theorem find?_insertInto (t : UserType) (types : List UserType) (id : TypeId) :
    (t.insertInto types).find? (·.id == id) =
      if t.id = id then some t else types.find? (·.id == id) := by
  have hcons : ∀ (u : UserType) (rest : List UserType), (u :: rest).find? (·.id == id) =
      if u.id = id then some u else rest.find? (·.id == id) := by
    intro u rest
    by_cases h : u.id = id
    · rw [if_pos h, List.find?_cons_of_pos (by simp [h])]
    · rw [if_neg h, List.find?_cons_of_neg (by simp [h])]
  induction types with
  | nil => rw [insertInto, hcons]
  | cons u rest ih =>
    unfold insertInto
    -- The list keeps its order: the new type goes to the place of the type that it replaces, or to
    -- the end.
    by_cases hu : u.id = t.id
    · rw [if_pos hu, hcons, hcons, hu]
      by_cases ht : t.id = id
      · rw [if_pos ht, if_pos ht]
      · rw [if_neg ht, if_neg ht, if_neg ht]
    · rw [if_neg hu, hcons, hcons, ih]
      by_cases hid : u.id = id
      · have ht : t.id ≠ id := fun h => hu (hid.trans h.symm)
        rw [if_pos hid, if_neg ht, if_pos hid]
      · rw [if_neg hid, if_neg hid]

/-- A new identity goes behind all others, or takes the place of one behind them. -/
theorem insertInto_append {t : UserType} {ts : List UserType} (h : ∀ u ∈ ts, u.id ≠ t.id)
    (more : List UserType) : t.insertInto (ts ++ more) = ts ++ t.insertInto more := by
  induction ts with
  | nil => rfl
  | cons u rest ih =>
    rw [List.forall_mem_cons] at h
    rw [List.cons_append, insertInto, if_neg h.1, ih h.2, List.cons_append]

theorem insertInto_eq_append {t : UserType} {ts : List UserType} (h : ∀ u ∈ ts, u.id ≠ t.id) :
    t.insertInto ts = ts ++ [t] := by
  have happend := insertInto_append h []
  rwa [List.append_nil] at happend

theorem length_insertInto (t : UserType) (types : List UserType) :
    types.length ≤ (t.insertInto types).length := by
  induction types with
  | nil => simp
  | cons u rest ih =>
    unfold insertInto
    split
    · simp
    · simpa using ih

end UserType

namespace Registry

variable {reg reg' : Registry} {a r : Attribute} {id : TypeId} {t : UserType}

theorem find?_insert (reg : Registry) (t : UserType) (id : TypeId) :
    (reg.insert t).find? id = if t.id = id then some t.named.withDefaultView else reg.find? id := by
  unfold find? insert
  rw [UserType.find?_insertInto, UserType.id_withDefaultView, UserType.id_named]

theorem size_insert (reg : Registry) (t : UserType) : reg.size ≤ (reg.insert t).size :=
  UserType.length_insertInto _ _

/-- Every type of the first registry is in the second, as it was. There may be more of them, so a
    chain of references is granted no fewer hops. -/
structure Grows (reg reg' : Registry) : Prop where
  find? : ∀ {id t}, reg.find? id = some t → reg'.find? id = some t
  size : reg.size ≤ reg'.size

theorem Grows.refl (reg : Registry) : Grows reg reg := ⟨fun h => h, Nat.le_refl _⟩

/-- References that end within some steps end in the same attribute within more steps, and in a
    registry that has grown. -/
theorem Grows.resolveWithin (h : Grows reg reg') : ∀ {hops hops' : Nat} {a : Attribute},
    hops ≤ hops' → reg.resolveWithin hops a = .ok r → reg'.resolveWithin hops' a = .ok r := by
  intro hops
  -- By induction on the hops of the first chain; the second has at least as many.
  induction hops with
  | zero =>
    intro hops' a _ hr
    unfold Registry.resolveWithin at hr ⊢
    cases ht : a.type with
    | user id =>
      rw [ht] at hr
      dsimp only at hr
      split at hr
      · cases hr
      · cases hr
    | _ =>
      rw [ht] at hr
      exact hr
  | succ hops ih =>
    intro hops' a hle hr
    unfold Registry.resolveWithin at hr ⊢
    cases ht : a.type with
    | user id =>
      rw [ht] at hr
      dsimp only at hr ⊢
      cases hf : reg.find? id with
      | none =>
        rw [hf] at hr
        cases hr
      | some t =>
        rw [hf] at hr
        rw [h.find? hf]
        cases hops' with
        | zero => exact absurd hle (Nat.not_succ_le_zero hops)
        | succ hops' => exact ih (Nat.le_of_succ_le_succ hle) hr
    | _ =>
      rw [ht] at hr
      exact hr

theorem Grows.resolve (h : Grows reg reg') (hr : reg.resolve a = .ok r) : reg'.resolve a = .ok r :=
  h.resolveWithin h.size hr

theorem Grows.kind (h : Grows reg reg') {k : Kind} (hk : reg.kind a = .ok k) :
    reg'.kind a = .ok k := by
  unfold Registry.kind at hk ⊢
  simp only [except_bind_eq_ok] at hk ⊢
  obtain ⟨r, hr, hk⟩ := hk
  exact ⟨r, h.resolve hr, hk⟩

theorem Grows.primitive? (h : Grows reg reg') {p : Option Primitive}
    (hp : reg.primitive? a = .ok p) : reg'.primitive? a = .ok p := by
  unfold Registry.primitive? at hp ⊢
  simp only [except_bind_eq_ok] at hp ⊢
  obtain ⟨k, hk, hp⟩ := hp
  exact ⟨k, h.kind hk, hp⟩

theorem Grows.view (h : Grows reg reg') {v : ObjectView}
    (hv : ObjectView.of? reg a = .ok (some v)) : ObjectView.of? reg' a = .ok (some v) := by
  obtain ⟨hr, ht⟩ := view_eq_some.mp hv
  exact view_eq_some.mpr ⟨h.resolve hr, ht⟩

theorem Grows.holdsPointer (h : Grows reg reg') {ctx : Context} {required pointer : Bool}
    (hp : ctx.holdsPointer reg a required = .ok pointer) :
    ctx.holdsPointer reg' a required = .ok pointer := by
  unfold Context.holdsPointer at hp ⊢
  simp only [except_bind_eq_ok] at hp ⊢
  obtain ⟨p, hprimitive, hp⟩ := hp
  exact ⟨p, h.primitive? hprimitive, hp⟩

/-- A reference resolves to what the definition of its type resolves to. The definition is one hop
    nearer to the end, and hops that are left over do no harm. -/
theorem resolve_definition (hf : reg.find? id = some t) (hr : reg.resolve (.user id) = .ok r) :
    reg.resolve t.definition = .ok r := by
  unfold resolve at hr ⊢
  unfold Registry.resolveWithin Attribute.user at hr
  dsimp only at hr
  rw [hf] at hr
  cases hsize : reg.size with
  | zero =>
    rw [hsize] at hr
    cases hr
  | succ n =>
    rw [hsize] at hr
    exact (Grows.refl reg).resolveWithin (Nat.le_succ n) hr

theorem resolve_user (hf : reg.find? id = some t) (ht : t.definition.userId? = none) :
    reg.resolve (.user id) = .ok t.definition := by
  unfold resolve
  cases hsize : reg.size with
  | zero =>
    have hmem := (mem_types_of_find? hf).1
    rw [List.eq_nil_of_length_eq_zero hsize] at hmem
    exact absurd hmem List.not_mem_nil
  | succ n =>
    unfold Registry.resolveWithin Attribute.user
    dsimp only
    rw [hf]
    exact resolveWithin_of_userId?_eq_none ht

end Registry
end Shapewright
