import Shapewright.Proofs.Faults

/-!
# Comparisons both ways

Whether values of one attribute can be converted into values of another does not depend on the
direction, as long as the primitive `any` is not among what the two are made of: anything converts
into `any`, and `any` converts into nothing else. Since a comparison may have no end, the two
directions are compared by what they do not do: what is accepted one way is not refused the other.

## Why not both accepted

On cyclic types a comparison may go on for ever. Elements of arrays are compared again with a box
opened on either side, first the source's and then the target's, and only if the plain comparison
fails. Turned round, the two attempts change places. One direction may then succeed at its first
attempt, while the other starts with the one that has no end. So acceptance cannot be symmetric, and
that it is not refused is all that can be said (`not_compatible_fails_swap`). Where both directions
end this is symmetry.

## What the attributes are made of

`Spans` goes through structure and references alike, and does not care whether the comparison would
get there. Nothing is asked of objects and unions for comparisons, which look at their kind alone;
but conversions go into them, and there two fields of one name would matter (`DistinctFields`).
-/

namespace Shapewright

open Relation

namespace Registry

variable {reg : Registry} {a b x : Attribute} {p p' : Paths}

/-! ## What an attribute is made of -/

/-- The second attribute is one level below the first, or defines the type that the first names.
    Nothing else comes up in a comparison. -/
inductive Holds (reg : Registry) (a : Attribute) : Attribute → Prop where
  | child {b : Attribute} (hb : b ∈ a.children) : Holds reg a b
  | definition {id : TypeId} {t : UserType} (ha : a.userId? = some id)
      (ht : reg.find? id = some t) : Holds reg a t.definition

/-- The second attribute is reached from the first, through structure and references. What it says
    is closed under every look-up, as the lemmas below show. -/
def Spans (reg : Registry) : Attribute → Attribute → Prop := ReflTransGen reg.Holds

/-- The primitive `any` is not reached from the attribute. Anything fits into `any`, and `any` fits
    into nothing else, so with it the directions differ. -/
def NoAny (reg : Registry) (a : Attribute) : Prop :=
  ∀ x, reg.Spans a x → x.type ≠ .primitive .any

/-- The fields of every object that is reached from the attribute have different names. Fields are
    matched by name, from the source to the target, so a name that occurs twice would be matched
    once. -/
def DistinctFields (reg : Registry) (a : Attribute) : Prop :=
  ∀ x fields, reg.Spans a x → x.type = .object fields → (fields.map Prod.fst).Nodup

theorem NoAny.of_spans (h : reg.NoAny a) (hx : reg.Spans a x) : reg.NoAny x :=
  fun y hy => h y (hx.trans hy)

theorem DistinctFields.of_spans (h : reg.DistinctFields a) (hx : reg.Spans a x) :
    reg.DistinctFields x :=
  fun y fields hy => h y fields (hx.trans hy)

/-- There are finitely many such attributes, so that what is asked of all can be decided. -/
theorem mem_standing_of_spans (h : reg.Spans a x) : x ∈ reg.standing a := by
  induction h with
  | refl => exact reg.mem_standing_self a
  | tail _ hxy ih =>
    cases hxy with
    | child hb => exact mem_standing_of_mem_children ih hb
    | definition _ ht => exact definition_mem_standing ht

theorem spans_of_resolveWithin : ∀ {hops : Nat} {a r : Attribute},
    reg.resolveWithin hops a = .ok r → reg.Spans a r := by
  intro hops
  induction hops with
  | zero =>
    intro a r h
    unfold resolveWithin at h
    split at h
    · split at h <;> cases h
    · cases h
      exact .refl
  | succ hops ih =>
    intro a r h
    unfold resolveWithin at h
    split at h
    · rename_i id ht
      split at h
      · cases h
      · rename_i t hf
        exact .head (.definition (by rw [Attribute.userId?, ht]) hf) (ih h)
    · cases h
      exact .refl

theorem spans_of_resolve {r : Attribute} (h : reg.resolve a = .ok r) : reg.Spans a r :=
  spans_of_resolveWithin h

theorem spans_child {r : Attribute} (h : reg.resolve a = .ok r) (hx : x ∈ r.children) :
    reg.Spans a x :=
  (spans_of_resolve h).tail (.child hx)

theorem spans_elem (h : reg.elem? a = .ok (some x)) : reg.Spans a x := by
  obtain ⟨r, hr, ht⟩ := elem?_eq_some.mp h
  exact spans_child hr (by simp [Attribute.children, ht])

theorem spans_entry {k : Attribute} (h : reg.entry? a = .ok (some (k, x))) :
    reg.Spans a k ∧ reg.Spans a x := by
  obtain ⟨r, hr, ht⟩ := entry?_eq_some.mp h
  exact ⟨spans_child hr (by simp [Attribute.children, ht]),
    spans_child hr (by simp [Attribute.children, ht])⟩

theorem spans_alternative {u : String × List (String × Attribute)}
    (h : reg.union? a = .ok (some u)) (hx : x ∈ u.2.map Prod.snd) : reg.Spans a x := by
  obtain ⟨r, hr, ht⟩ := union?_eq_some.mp h
  exact spans_child hr (by simpa [Attribute.children, ht] using hx)

theorem spans_field {v : ObjectView} (h : ObjectView.of? reg a = .ok (some v))
    (hx : x ∈ v.fields.map Prod.snd) : reg.Spans a x := by
  obtain ⟨hr, ht⟩ := view_eq_some.mp h
  exact spans_child hr (by simpa [Attribute.children, ht] using hx)

theorem spans_content (h : reg.unbox? a = .ok (some x)) : reg.Spans a x := by
  obtain ⟨r, hr, ht⟩ := unbox?_eq_some h
  exact spans_child hr (by simp [Attribute.children, ht])

/-- What is asked of types is asked of kinds, since an alias spans its primitive. -/
theorem NoAny.kind_ne (h : reg.NoAny a) : reg.kind a ≠ .ok (.primitive .any) := by
  intro hk
  obtain ⟨r, hr⟩ := exists_resolve hk
  rw [kind_eq_of_resolve hr] at hk
  cases ht : r.type with
  | primitive p =>
    simp only [ht, Except.ok.injEq, Kind.primitive.injEq] at hk
    exact h r (spans_of_resolve hr) (by rw [ht, hk])
  | _ => simp [ht] at hk

theorem DistinctFields.nodup (h : reg.DistinctFields a) {v : ObjectView}
    (hv : ObjectView.of? reg a = .ok (some v)) : (v.fields.map Prod.fst).Nodup := by
  obtain ⟨hr, ht⟩ := view_eq_some.mp hv
  exact h _ _ (spans_of_resolve hr) ht

/-! ## Elements -/

/-- The attempt with a box opened succeeds if there is a box and what is in it fits. Where there is
    no box the attempt is not made, and that counts as no success. -/
theorem insideBox_yields_true {box : Attribute} {f : Attribute → Walk Unit} :
    (reg.insideBox box f).Yields true ↔
      ∃ inner, reg.unbox? box = .ok (some inner) ∧ (f inner).Yields () := by
  unfold insideBox
  simp only [Walk.yields_bind, Walk.yields_liftM]
  constructor
  · intro h
    obtain ⟨o, ho, h⟩ := h
    cases o with
    | none => simp at h
    | some inner =>
      obtain ⟨⟨⟩, h⟩ := Walk.yields_succeeds_true.mp h
      exact ⟨inner, ho, h⟩
  · intro h
    obtain ⟨inner, ho, h⟩ := h
    exact ⟨some inner, ho, Walk.yields_succeeds_true.mpr ⟨(), h⟩⟩

/-- The search for a box never fails because of what is in the box, since it only asks whether that
    fits. -/
theorem insideBox_fails {box : Attribute} {f : Attribute → Walk Unit}
    (h : (reg.insideBox box f).Fails) : ∃ why, reg.unbox? box = .error why := by
  unfold insideBox at h
  rcases Walk.fails_bind.mp h with h | ⟨o, -, h⟩
  · exact Walk.fails_liftM.mp h
  · cases o with
    | none => exact absurd h Walk.not_fails_pure
    | some inner =>
      obtain ⟨f, hf⟩ := h
      exact (Walk.failsOnly_succeeds (P := fun _ => False) f hf).elim

section Elements

variable {compare compare' : Attribute → Attribute → Paths → Walk Unit}

/-- Elements are accepted as they are, or with one box opened. The three are tried in this order,
    and the first that succeeds ends it. -/
theorem elementsVia_yields (h : (reg.elementsVia compare a b p).Yields ()) :
    (compare a b p).Yields () ∨
      (∃ i, reg.unbox? a = .ok (some i) ∧ (compare i b p).Yields ()) ∨
      ∃ i, reg.unbox? b = .ok (some i) ∧ (compare a i p).Yields () := by
  unfold elementsVia at h
  simp only [Walk.yields_bind, Walk.yields_outcome] at h
  obtain ⟨o, ho, h⟩ := h
  cases o with
  | ok _ => exact Or.inl ho
  | error why =>
    simp only [Walk.yields_bind] at h
    obtain ⟨first, hfirst, h⟩ := h
    -- The first element is tried in its box before the second, and the third attempt is the last.
    cases first with
    | true => exact Or.inr (Or.inl (insideBox_yields_true.mp hfirst))
    | false =>
      simp only [Bool.false_eq_true, ↓reduceIte, Walk.yields_bind] at h
      obtain ⟨second, hsecond, h⟩ := h
      cases second with
      | true => exact Or.inr (Or.inr (insideBox_yields_true.mp hsecond))
      | false => simp at h

/-- Elements that are refused are refused as they are and with either box opened. That the attempts
    are made needs the boxes to be found. -/
theorem elementsVia_fails (ha : ∃ o, reg.unbox? a = .ok o) (hb : ∃ o, reg.unbox? b = .ok o)
    (h : (reg.elementsVia compare a b p).Fails) :
    (compare a b p).Fails ∧ (∀ i, reg.unbox? a = .ok (some i) → (compare i b p).Fails) ∧
      ∀ i, reg.unbox? b = .ok (some i) → (compare a i p).Fails := by
  -- An attempt that came to nothing either found no box, or found one with a content that was
  -- refused.
  have opened : ∀ {box : Attribute} {f : Attribute → Walk Unit},
      (reg.insideBox box f).Yields false → ∀ i, reg.unbox? box = .ok (some i) → (f i).Fails := by
    intro box f hf i hi
    rcases insideBox_yields_false.mp hf with hnone | ⟨j, hj, hf⟩
    · rw [hnone] at hi
      cases hi
    · rw [hj] at hi
      cases hi
      exact hf
  obtain ⟨_, ha⟩ := ha
  obtain ⟨_, hb⟩ := hb
  unfold elementsVia at h
  obtain ⟨o, ho, h⟩ := (Walk.fails_bind.mp h).resolve_left Walk.not_fails_outcome
  have ho := Walk.yields_outcome.mp ho
  cases o with
  | ok _ => exact absurd h Walk.not_fails_pure
  | error why =>
    obtain ⟨first, hfirst, h⟩ := (Walk.fails_bind.mp h).resolve_left fun h => by
      obtain ⟨why, hwhy⟩ := insideBox_fails h
      rw [ha] at hwhy
      cases hwhy
    cases first with
    | true => exact absurd h Walk.not_fails_pure
    | false =>
      simp only [Bool.false_eq_true, ↓reduceIte] at h
      obtain ⟨second, hsecond, h⟩ := (Walk.fails_bind.mp h).resolve_left fun h => by
        obtain ⟨why, hwhy⟩ := insideBox_fails h
        rw [hb] at hwhy
        cases hwhy
      cases second with
      | true => exact absurd h Walk.not_fails_pure
      | false => exact ⟨⟨why, ho⟩, opened hfirst, opened hsecond⟩

/-- If no comparison of parts is refused the other way, neither is one of elements. The two attempts
    with a box change places, so what one direction finds the other finds as well. -/
theorem not_elementsVia_fails_swap (ha : reg.NoAny a) (hb : reg.NoAny b)
    (hkinds : ∀ {a b}, (compare a b p).Yields () →
      (∃ k, reg.kind a = .ok k) ∧ ∃ k, reg.kind b = .ok k)
    (hswap : ∀ {a b}, reg.NoAny a → reg.NoAny b → (compare a b p).Yields () →
      ¬ (compare' b a p').Fails)
    (h : (reg.elementsVia compare a b p).Yields ()) :
    ¬ (reg.elementsVia compare' b a p').Fails := by
  have h := elementsVia_yields h
  have opens : ∀ {x : Attribute}, (∃ k, reg.kind x = .ok k) → ∃ o, reg.unbox? x = .ok o :=
    fun ⟨_, hk⟩ => exists_unbox? hk
  -- What was compared has kinds, so the boxes of both sides can be looked for, whichever was
  -- opened.
  have hboxes : (∃ o, reg.unbox? a = .ok o) ∧ ∃ o, reg.unbox? b = .ok o := by
    rcases h with h | ⟨i, hi, h⟩ | ⟨i, hi, h⟩
    · exact ⟨opens (hkinds h).1, opens (hkinds h).2⟩
    · exact ⟨⟨_, hi⟩, opens (hkinds h).2⟩
    · exact ⟨opens (hkinds h).1, ⟨_, hi⟩⟩
  intro hfails
  obtain ⟨hplain, hfirst, hsecond⟩ := elementsVia_fails hboxes.2 hboxes.1 hfails
  rcases h with h | ⟨i, hi, h⟩ | ⟨i, hi, h⟩
  · exact hswap ha hb h hplain
  · exact hswap (ha.of_spans (spans_content hi)) hb h (hsecond i hi)
  · exact hswap ha (hb.of_spans (spans_content hi)) h (hfirst i hi)

end Elements

/-! ## Attributes -/

/-- What some number of steps accepts one way, no number of steps refuses the other way. The
    induction is on the steps of the first comparison: the second asks for the same parts. -/
theorem not_compatibleWithin_fails_swap : ∀ {n m : Nat} {a b : Attribute} {p p' : Paths},
    reg.NoAny a → reg.NoAny b → (reg.compatibleWithin n a b p).Yields () →
      ¬ (reg.compatibleWithin m b a p').Fails := by
  intro n
  -- Kinds agree where something is accepted, so the second comparison takes the same branch.
  induction n with
  | zero => intro _ _ _ _ _ _ _ h; exact absurd h Walk.yields_exhausted
  | succ n ih =>
    intro m a b p p' ha hb h
    obtain ⟨k, l, hk, hl, hkind⟩ := kinds_of_compatibleWithin h
    obtain rfl : k = l := hkind.resolve_left fun hany => hb.kind_ne (hany ▸ hl)
    have hany : k ≠ .primitive .any := fun hany => hb.kind_ne (hany ▸ hl)
    cases m with
    | zero => exact Walk.not_fails_exhausted
    | succ m =>
      have elements : ∀ {x y p p'}, reg.NoAny x → reg.NoAny y →
          (reg.elementsVia (reg.compatibleWithin n) x y p).Yields () →
          ¬ (reg.elementsVia (reg.compatibleWithin m) y x p').Fails := by
        intro x y p p' hx hy
        refine not_elementsVia_fails_swap hx hy (fun h => ?_) (fun ha hb h => ih ha hb h)
        obtain ⟨k, l, hk, hl, -⟩ := kinds_of_compatibleWithin h
        exact ⟨⟨k, hk⟩, l, hl⟩
      rw [compatibleWithin, compatibleVia] at h ⊢
      simp only [Walk.yields_bind, Walk.fails_bind, Walk.yields_liftM, Walk.fails_liftM, hk, hl,
        Except.ok.injEq, exists_eq_left', reduceCtorEq, exists_false, false_or, hany,
        ↓reduceIte] at h ⊢
      cases k with
      | primitive x => simp
      | object => simp
      | union => simp
      | array =>
        obtain ⟨x, hx⟩ := exists_elem hk
        obtain ⟨y, hy⟩ := exists_elem hl
        simp only [hx, hy, Walk.yields_bind, Walk.fails_bind, Walk.yields_liftM, Walk.fails_liftM,
          Except.ok.injEq, exists_eq_left', reduceCtorEq, exists_false, false_or] at h ⊢
        exact elements (ha.of_spans (spans_elem hx)) (hb.of_spans (spans_elem hy)) h
      | map =>
        obtain ⟨⟨i, x⟩, hx⟩ := exists_entry hk
        obtain ⟨⟨j, y⟩, hy⟩ := exists_entry hl
        simp only [hx, hy, Walk.yields_bind, Walk.fails_bind, Walk.yields_liftM, Walk.fails_liftM,
          Except.ok.injEq, exists_eq_left', reduceCtorEq, exists_false, false_or] at h ⊢
        have hxs := spans_entry hx
        have hys := spans_entry hy
        obtain ⟨⟨⟩, hkeys, h⟩ := h
        rintro (hf | ⟨-, -, hf⟩)
        · exact ih (ha.of_spans hxs.1) (hb.of_spans hys.1) hkeys hf
        · exact elements (ha.of_spans hxs.2) (hb.of_spans hys.2) h hf

theorem not_compatible_fails_swap (ha : reg.NoAny a) (hb : reg.NoAny b)
    (h : (reg.compatible a b p).Yields ()) : ¬ (reg.compatible b a p').Fails :=
  not_compatibleWithin_fails_swap ha hb h

end Registry
end Shapewright
