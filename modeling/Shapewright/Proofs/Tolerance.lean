import Shapewright.Proofs.Symmetry

/-!
# Compatibility is a tolerance

A relation that is reflexive and symmetric is a tolerance. Compatibility is one where references
lead to structures and no collection holds itself through collections alone: every attribute is
compatible with itself, and without the primitive `any` the direction does not matter.

## Both directions at once

`not_compatible_fails_swap` says of the two directions only that they do not contradict each other.
Here they are followed step by step, so that an end of the one is an end of the other
(`SwapsWithin`). The one difference between them is the order in which boxes are opened, and it is
none: two boxes are two objects, so of elements that do not fit as they are at most one is a box.

The primitive `any` has to be left out, because a target of this type takes every value, and a
source of this type fits no other target.

## An attribute and itself

Compatibility of an attribute with itself never opens a box, so the comparison is that of the parts
of a collection, and it ends where these are objects, unions or primitives. A type that is an array
of itself has no such end. `CollectionsEnd` excludes that, and from it comes an induction over the
collections, for the types that are named first and then for attributes as they are written
(`CollectionsEnd.acc`).
-/

namespace Shapewright

open Relation

/-- What a collection is made of, as it is written: its elements, and its keys if it is a map. -/
def Attribute.elements (a : Attribute) : List Attribute :=
  match a.type with
  | .array elem => [elem]
  | .map key elem => [key, elem]
  | _ => []

theorem Attribute.elements_subset_children {a : Attribute} : a.elements ⊆ a.children := by
  unfold elements children
  split <;> simp_all

/-- Two walks that both fail end the same way. -/
theorem Walk.Follows.of_fails {α : Type} {w w' : Walk α} (hw : w.Fails) (hw' : w'.Fails) :
    w.Follows w' :=
  ⟨fun h => absurd h hw.not_yields, fun _ => hw'⟩

namespace Registry

variable {reg : Registry} {a b x y : Attribute} {p p' : Paths} {n : Nat} {k l : Kind}

/-! ## One step of a comparison, by the kinds of the two attributes -/

/-- Two arrays are compared by their elements. -/
theorem within_arrays (ha : reg.kind a = .ok .array) (hb : reg.kind b = .ok .array)
    (hx : reg.elem? a = .ok (some x)) (hy : reg.elem? b = .ok (some y)) :
    reg.compatibleWithin (n + 1) a b p =
      reg.elementsVia (reg.compatibleWithin n) x y (p.step "[0]") := by
  rw [compatibleWithin, compatibleVia, ha, hb, hx, hy]
  rfl

/-- Two maps are compared by their keys, and then by their elements. -/
theorem within_maps {i j : Attribute} (ha : reg.kind a = .ok .map) (hb : reg.kind b = .ok .map)
    (hx : reg.entry? a = .ok (some (i, x))) (hy : reg.entry? b = .ok (some (j, y))) :
    reg.compatibleWithin (n + 1) a b p = (do
      reg.compatibleWithin n i j (p.step "[key]")
      reg.elementsVia (reg.compatibleWithin n) x y (p.step "[*]")) := by
  rw [compatibleWithin, compatibleVia, ha, hb, hx, hy]
  rfl

theorem within_objects (ha : reg.kind a = .ok .object) (hb : reg.kind b = .ok .object) :
    reg.compatibleWithin (n + 1) a b p = pure () := by
  rw [compatibleWithin, compatibleVia, ha, hb]
  rfl

theorem within_unions (ha : reg.kind a = .ok .union) (hb : reg.kind b = .ok .union) :
    reg.compatibleWithin (n + 1) a b p = pure () := by
  rw [compatibleWithin, compatibleVia, ha, hb]
  rfl

theorem within_primitive {t : Primitive} (ha : reg.kind a = .ok (.primitive t))
    (hb : reg.kind b = .ok (.primitive t)) : reg.compatibleWithin (n + 1) a b p = pure () := by
  rw [compatibleWithin, compatibleVia, ha, hb]
  simp only [Walk.liftM_ok_bind, ↓reduceIte, ite_self]

/-- Attributes of different kinds fit only where the target takes anything. -/
theorem within_apart (ha : reg.kind a = .ok k) (hb : reg.kind b = .ok l)
    (hany : l ≠ .primitive .any) (hkl : k ≠ l) : (reg.compatibleWithin (n + 1) a b p).Fails := by
  rw [compatibleWithin, compatibleVia, ha, hb]
  simp only [Walk.liftM_ok_bind, hany, ↓reduceIte]
  split <;> simp_all

/-- A reference to no structure fits nothing, on either side. -/
theorem within_lost {f : Fault} (h : reg.kind a = .error f ∨ reg.kind b = .error f) :
    (reg.compatibleWithin (n + 1) a b p).Fails := by
  rw [compatibleWithin, compatibleVia]
  cases ha : reg.kind a with
  | error why => exact ⟨why, rfl⟩
  | ok k =>
    obtain hb := h.resolve_left (by simp [ha])
    exact ⟨f, by rw [hb]; rfl⟩

/-! ## Boxes -/

/-- Where no box can be looked for, the reference leads to no structure. -/
theorem kind_of_unbox?_error {f : Fault} (h : reg.unbox? a = .error f) :
    ∃ f, reg.kind a = .error f := by
  cases hk : reg.kind a with
  | error why => exact ⟨why, rfl⟩
  | ok k =>
    obtain ⟨o, ho⟩ := exists_unbox? hk
    rw [ho] at h
    cases h

/-- Two boxes fit as they are. So where a comparison of kinds fails, one of the two sides at most is
    a box. -/
theorem unbox?_eq_none_of_fails (hfails : (reg.compatibleWithin n a b p).Fails)
    (ha : reg.unbox? a = .ok (some x)) (hb : reg.kind b = .ok l) : reg.unbox? b = .ok none := by
  obtain ⟨o, ho⟩ := exists_unbox? hb
  cases o with
  | none => exact ho
  | some y =>
    cases n with
    | zero => exact absurd hfails Walk.not_fails_exhausted
    | succ n =>
      rw [within_objects (kind_of_unbox ha) (kind_of_unbox ho)] at hfails
      exact absurd hfails Walk.not_fails_pure

section Elements

variable {compare : Attribute → Attribute → Paths → Walk Unit}

theorem insideBox_fails_iff {box : Attribute} {f : Attribute → Walk Unit} :
    (reg.insideBox box f).Fails ↔ ∃ why, reg.unbox? box = .error why := by
  refine ⟨insideBox_fails, fun h => ?_⟩
  unfold insideBox
  exact Walk.fails_bind.mpr (.inl (Walk.fails_liftM.mpr h))

/-- What does not fit the content of a box by the one comparison does not by another that fails
    where the first one does. -/
theorem insideBox_false_of_fails {box : Attribute} {f f' : Attribute → Walk Unit}
    (h : (reg.insideBox box f).Yields false)
    (hf : ∀ i, reg.unbox? box = .ok (some i) → (f i).Fails → (f' i).Fails) :
    (reg.insideBox box f').Yields false := by
  refine insideBox_yields_false.mpr ((insideBox_yields_false.mp h).imp_right ?_)
  intro h
  obtain ⟨i, hi, hfails⟩ := h
  exact ⟨i, hi, hf i hi hfails⟩

/-- Elements fit as they are, or with the first one opened, or with the second one opened if the
    first attempt came to nothing. -/
theorem elementsVia_yields_iff : (reg.elementsVia compare a b p).Yields () ↔
    (compare a b p).Yields () ∨ (compare a b p).Fails ∧
      ((reg.insideBox a fun i => compare i b p).Yields true ∨
        (reg.insideBox a fun i => compare i b p).Yields false ∧
          (reg.insideBox b fun i => compare a i p).Yields true) := by
  unfold elementsVia
  simp only [Walk.yields_bind, Walk.yields_outcome]
  constructor
  · rintro ⟨⟨why⟩ | ⟨⟩, ho, h⟩
    · refine .inr ⟨⟨why, ho⟩, ?_⟩
      simp only [Walk.yields_bind] at h
      obtain ⟨⟨⟩ | ⟨⟩, hfirst, h⟩ := h
      · simp only [Bool.false_eq_true, ↓reduceIte, Walk.yields_bind] at h
        obtain ⟨⟨⟩ | ⟨⟩, hsecond, h⟩ := h
        · simp at h
        · exact .inr ⟨hfirst, hsecond⟩
      · exact .inl hfirst
    · exact .inl ho
  · rintro (h | ⟨⟨why, ho⟩, h⟩)
    · exact ⟨_, h, by simp⟩
    · refine ⟨_, ho, Walk.yields_bind.mpr ?_⟩
      rcases h with hfirst | ⟨hfirst, hsecond⟩
      · exact ⟨_, hfirst, by simp⟩
      · exact ⟨_, hfirst, Walk.yields_bind.mpr ⟨_, hsecond, by simp⟩⟩

/-- Elements do not fit if none of the three ways to compare them succeeds. To fail is to find a
    misfit. A comparison that stops at a reference without a type does not count as one. -/
theorem elementsVia_fails_iff : (reg.elementsVia compare a b p).Fails ↔
    (compare a b p).Fails ∧
      ((reg.insideBox a fun i => compare i b p).Fails ∨
        (reg.insideBox a fun i => compare i b p).Yields false ∧
          ((reg.insideBox b fun i => compare a i p).Fails ∨
            (reg.insideBox b fun i => compare a i p).Yields false)) := by
  unfold elementsVia
  simp only [Walk.fails_bind, Walk.not_fails_outcome, Walk.yields_outcome, false_or]
  constructor
  · rintro ⟨⟨why⟩ | ⟨⟩, ho, h⟩
    · refine ⟨⟨why, ho⟩, ?_⟩
      simp only [Walk.fails_bind] at h
      refine h.imp_right ?_
      rintro ⟨⟨⟩ | ⟨⟩, hfirst, h⟩
      · simp only [Bool.false_eq_true, ↓reduceIte, Walk.fails_bind] at h
        refine ⟨hfirst, h.imp_right ?_⟩
        rintro ⟨⟨⟩ | ⟨⟩, hsecond, h⟩
        · exact hsecond
        · simp at h
      · simp at h
    · simp at h
  · rintro ⟨⟨why, ho⟩, h⟩
    refine ⟨_, ho, Walk.fails_bind.mpr (h.imp_right ?_)⟩
    rintro ⟨hfirst, h⟩
    refine ⟨_, hfirst, Walk.fails_bind.mpr (h.imp_right ?_)⟩
    exact fun hsecond => ⟨_, hsecond, by simp⟩

end Elements

/-! ## The other direction -/

/-- The two directions of a comparison with so many steps end the same way. Both succeed, or both
    refuse, or both get stuck. The paths are free, as they are only labels. -/
def SwapsWithin (reg : Registry) (n : Nat) : Prop :=
  ∀ {a b : Attribute}, reg.NoAny a → reg.NoAny b → ∀ p p' : Paths,
    (reg.compatibleWithin n a b p).Follows (reg.compatibleWithin n b a p')

/-- If the directions of a comparison do not matter, they do not for the elements of collections.
    The two attempts with a box are made in the opposite order then. -/
theorem SwapsWithin.elements (hn : reg.SwapsWithin n) (ha : reg.NoAny a) (hb : reg.NoAny b) :
    (reg.elementsVia (reg.compatibleWithin n) a b p).Follows
      (reg.elementsVia (reg.compatibleWithin n) b a p') where
  yields h := by
    refine elementsVia_yields_iff.mpr ((elementsVia_yields_iff.mp h).imp (hn ha hb p p').yields ?_)
    rintro ⟨hfails, hboxes⟩
    refine ⟨(hn ha hb p p').fails hfails, ?_⟩
    rcases hboxes with hfirst | ⟨-, hsecond⟩
    · -- Where the first one is a box, the second is none, so trying it first changes nothing.
      obtain ⟨i, hi, hyields⟩ := insideBox_yields_true.mp hfirst
      obtain ⟨_, l, -, hl, -⟩ := kinds_of_compatibleWithin hyields
      have hnone := unbox?_eq_none_of_fails hfails hi hl
      have hswap := (hn (ha.of_spans (spans_content hi)) hb p p').yields hyields
      exact .inr ⟨insideBox_yields_false.mpr (.inl hnone),
        insideBox_yields_true.mpr ⟨i, hi, hswap⟩⟩
    · obtain ⟨i, hi, hyields⟩ := insideBox_yields_true.mp hsecond
      have hswap := (hn ha (hb.of_spans (spans_content hi)) p p').yields hyields
      exact .inl (insideBox_yields_true.mpr ⟨i, hi, hswap⟩)
  fails h := by
    obtain ⟨hfails, hboxes⟩ := elementsVia_fails_iff.mp h
    refine elementsVia_fails_iff.mpr ⟨(hn ha hb p p').fails hfails, ?_⟩
    rcases hboxes with hlost | ⟨hfirst, hlost | hsecond⟩
    · -- What is inside the second one, if it is a box, does not fit a reference to no structure.
      obtain ⟨why, hwhy⟩ := insideBox_fails_iff.mp hlost
      obtain ⟨f, hk⟩ := kind_of_unbox?_error hwhy
      cases hb' : reg.unbox? b with
      | error why => exact .inl (insideBox_fails_iff.mpr ⟨why, hb'⟩)
      | ok o =>
        refine .inr ⟨insideBox_yields_false.mpr ?_, .inl (insideBox_fails_iff.mpr ⟨why, hwhy⟩)⟩
        cases o with
        | none => exact .inl hb'
        | some i =>
          cases n with
          | zero => exact absurd hfails Walk.not_fails_exhausted
          | succ n => exact .inr ⟨i, hb', within_lost (.inr hk)⟩
    · exact .inl (insideBox_fails_iff.mpr (insideBox_fails_iff.mp hlost))
    · refine .inr ⟨insideBox_false_of_fails hsecond fun i hi => ?_,
        .inr (insideBox_false_of_fails hfirst fun i hi => ?_)⟩
      · exact (hn ha (hb.of_spans (spans_content hi)) p p').fails
      · exact (hn (ha.of_spans (spans_content hi)) hb p p').fails

/-- The induction is on the steps, which both directions spend on the same parts. Each step compares
    what is one level further inside, in both directions. -/
theorem swapsWithin (reg : Registry) (n : Nat) : reg.SwapsWithin n := by
  -- -- Comparisons without steps left are exhausted on both sides.
  induction n with
  | zero => exact fun _ _ _ _ => .exhausted _
  | succ n ih =>
    intro a b ha hb p p'
    cases hk : reg.kind a with
    | error f => exact .of_fails (within_lost (.inl hk)) (within_lost (.inr hk))
    | ok k =>
      cases hl : reg.kind b with
      | error f => exact .of_fails (within_lost (.inr hl)) (within_lost (.inl hl))
      | ok l =>
        have hanyk : k ≠ .primitive .any := fun h => ha.kind_ne (h ▸ hk)
        have hanyl : l ≠ .primitive .any := fun h => hb.kind_ne (h ▸ hl)
        by_cases hkl : k = l
        · subst hkl
          cases k with
          | primitive t =>
            rw [within_primitive hk hl, within_primitive hl hk]
            exact .refl _
          | object =>
            rw [within_objects hk hl, within_objects hl hk]
            exact .refl _
          | union =>
            rw [within_unions hk hl, within_unions hl hk]
            exact .refl _
          | array =>
            obtain ⟨x, hx⟩ := exists_elem hk
            obtain ⟨y, hy⟩ := exists_elem hl
            rw [within_arrays hk hl hx hy, within_arrays hl hk hy hx]
            exact ih.elements (ha.of_spans (spans_elem hx)) (hb.of_spans (spans_elem hy))
          | map =>
            obtain ⟨⟨i, x⟩, hx⟩ := exists_entry hk
            obtain ⟨⟨j, y⟩, hy⟩ := exists_entry hl
            have hxs := spans_entry hx
            have hys := spans_entry hy
            rw [within_maps hk hl hx hy, within_maps hl hk hy hx]
            exact .bind (ih (ha.of_spans hxs.1) (hb.of_spans hys.1) _ _) fun _ =>
              ih.elements (ha.of_spans hxs.2) (hb.of_spans hys.2)
        · exact .of_fails (within_apart hk hl hanyl hkl) (within_apart hl hk hanyk (Ne.symm hkl))

/-- Without the primitive `any` the direction of a comparison does not matter. -/
theorem compatible_swaps (ha : reg.NoAny a) (hb : reg.NoAny b) :
    (reg.compatible a b p).Follows (reg.compatible b a p') := by
  have hbudget : reg.pairBudget a b = reg.pairBudget b a := by
    rw [pairBudget, pairBudget, Nat.mul_comm]
  rw [compatible, compatible, hbudget]
  exact reg.swapsWithin _ ha hb p p'

/-! ## An attribute and itself -/

/-- The second attribute is what the collection behind the first one is made of. References to the
    collection are followed, and what it is made of may be a reference again. -/
def Collects (reg : Registry) (a b : Attribute) : Prop :=
  ∃ r, reg.resolve a = .ok r ∧ b ∈ r.elements

/-- No type leads, through collections alone, to a collection that holds itself that way. Objects
    may hold themselves, as comparisons do not go into their fields. -/
def CollectionsEnd (reg : Registry) : Prop :=
  ∀ t ∈ reg.types, ∀ x, ReflTransGen reg.Collects t.definition x → ¬ TransGen reg.Collects x x

theorem collects_elem (h : reg.elem? a = .ok (some x)) : reg.Collects a x := by
  obtain ⟨r, hr, ht⟩ := elem?_eq_some.mp h
  exact ⟨r, hr, by simp [Attribute.elements, ht]⟩

theorem collects_entry {k : Attribute} (h : reg.entry? a = .ok (some (k, x))) :
    reg.Collects a k ∧ reg.Collects a x := by
  obtain ⟨r, hr, ht⟩ := entry?_eq_some.mp h
  exact ⟨⟨r, hr, by simp [Attribute.elements, ht]⟩, r, hr, by simp [Attribute.elements, ht]⟩

theorem Collects.mem_standing (h : reg.Collects a b) (ha : a ∈ reg.standing x) :
    b ∈ reg.standing x :=
  let ⟨_, hr, hb⟩ := h
  children_resolve_mem_standing hr ha (Attribute.elements_subset_children hb)

theorem mem_standing_of_collects (h : ReflTransGen reg.Collects a x) : x ∈ reg.standing a := by
  induction h with
  | refl => exact reg.mem_standing_self a
  | tail _ hxy ih => exact hxy.mem_standing ih

/-- A reference resolves to the definition of some type. So after one reference, what matters is the
    registry and not where the attribute is from. -/
theorem definition_of_resolveWithin : ∀ {hops : Nat} {a r : Attribute},
    reg.resolveWithin hops a = .ok r → r = a ∨ ∃ t ∈ reg.types, r = t.definition := by
  intro hops
  induction hops with
  | zero =>
    intro a r h
    unfold resolveWithin at h
    split at h
    · split at h <;> cases h
    · cases h
      exact .inl rfl
  | succ hops ih =>
    intro a r h
    unfold resolveWithin at h
    split at h
    · split at h
      · cases h
      · rename_i t ht
        have ht := (mem_types_of_find? ht).1
        rcases ih h with rfl | hr
        · exact .inr ⟨t, ht, rfl⟩
        · exact .inr hr
    · cases h
      exact .inl rfl

namespace CollectionsEnd

/-- Without a circle there is nowhere to go on for ever. -/
theorem acc_definition (hc : reg.CollectionsEnd) {t : UserType} (ht : t ∈ reg.types) :
    Acc (fun y x => reg.Collects x y) t.definition := by
  refine ends_of_acyclic (R := reg.Collects) (U := reg.standing t.definition)
    (fun _ x => Acc (fun y x => reg.Collects x y) x) t.definition (reg.mem_standing_self _)
    (fun x y hx hxy => hxy.mem_standing hx) (hc t ht) ?_ _ le_rfl
  exact fun _ x _ h => Acc.intro x h

/-- Every attribute leads to the types of the registry, if not to its own parts alone. Only
    collections are followed, and those of the registry end by the premise. -/
theorem acc (hc : reg.CollectionsEnd) (a : Attribute) :
    Acc (fun y x => reg.Collects x y) a := by
  -- -- On its own parts an attribute shrinks; a definition of a type has its chains ended already.
  induction hn : a.size using Nat.strongRecOn generalizing a with
  | ind n ih =>
    refine Acc.intro a fun b hab => ?_
    obtain ⟨r, hr, hb⟩ := hab
    rcases definition_of_resolveWithin hr with rfl | ⟨t, ht, rfl⟩
    · have hchild := Attribute.elements_subset_children hb
      exact ih _ (hn ▸ Attribute.size_lt_of_mem_children hchild) b rfl
    · have hself : reg.resolve t.definition = .ok t.definition :=
        resolve_of_userId?_eq_none (userId?_of_resolveWithin hr)
      exact (hc.acc_definition ht).inv ⟨_, hself, hb⟩

end CollectionsEnd

/-- An attribute is compatible with itself: its parts are, and are compared as they are. The
    premises say that references and collections end, without which the comparison would not. -/
theorem compatible_self (hs : reg.Sound) (hc : reg.CollectionsEnd) (ha : reg.Resolves a) :
    (reg.compatible a a p).Yields () := by
  -- A comparison goes down through collections only, and a chain of collections that comes back to
  -- its start is excluded. So the number of attributes is enough of a budget.
  have hends : ∀ n, (reg.standing a).length ≤ n →
      ∀ p, (reg.compatibleWithin n a a p).Yields () := by
    refine ends_of_acyclic (R := reg.Collects)
      (fun n x => ∀ p, (reg.compatibleWithin n x x p).Yields ()) a (reg.mem_standing_self a)
      (fun x y hx hxy => hxy.mem_standing hx)
      (fun x hx => not_transGen_self_of_acc (acc_of_reaches (hc.acc a) hx)) ?_
    intro n x hx ih p
    obtain ⟨k, hk⟩ := (hs.of_mem_standing ha (mem_standing_of_collects hx)).kind
    cases k with
    | primitive t => simp [within_primitive hk hk]
    | object => simp [within_objects hk hk]
    | union => simp [within_unions hk hk]
    | array =>
      obtain ⟨y, hy⟩ := exists_elem hk
      rw [within_arrays hk hk hy hy]
      exact elementsVia_yields_iff.mpr (.inl (ih y (collects_elem hy) _))
    | map =>
      obtain ⟨⟨key, y⟩, hy⟩ := exists_entry hk
      obtain ⟨hkey, helem⟩ := collects_entry hy
      rw [within_maps hk hk hy hy]
      exact Walk.yields_bind.mpr
        ⟨(), ih key hkey _, elementsVia_yields_iff.mpr (.inl (ih y helem _))⟩
  refine hends _ ?_ p
  rw [length_standing, pairBudget]
  exact Nat.le_add_right_of_le (Nat.le_mul_self _)

/-- Where references lead to structures, and no collection holds itself through collections alone,
    every attribute is compatible with itself. Two attributes from which the primitive `any` is not
    reached are compatible one way if and only if they are the other way, under whatever paths. -/
theorem compatible_tolerance (hs : reg.Sound) (hc : reg.CollectionsEnd) :
    (∀ a, reg.Resolves a → ∀ p, (reg.compatible a a p).Yields ()) ∧
    ∀ a b, reg.NoAny a → reg.NoAny b → ∀ p p',
      (reg.compatible a b p).Yields () ↔ (reg.compatible b a p').Yields () :=
  ⟨fun _ ha _ => compatible_self hs hc ha, fun _ _ ha hb _ _ =>
    ⟨(compatible_swaps ha hb).yields, (compatible_swaps hb ha).yields⟩⟩

/-- Whether every chain of collections from the attribute ends within a number of steps. -/
def endsWithin (reg : Registry) : Nat → Attribute → Bool
  | 0, _ => false
  | n + 1, a =>
    match reg.resolve a with
    | .ok r => r.elements.all (reg.endsWithin n)
    | .error _ => true

/-- If all chains end within a number of steps, there is no endless one. -/
theorem acc_of_endsWithin (h : reg.endsWithin n a = true) :
    Acc (fun y x => reg.Collects x y) a := by
  induction n generalizing a with
  | zero => cases h
  | succ n ih =>
    refine Acc.intro a fun b hab => ?_
    obtain ⟨r, hr, hb⟩ := hab
    simp only [endsWithin, hr, List.all_eq_true] at h
    exact ih (h b hb)

theorem collectionsEnd_of_endsWithin
    (h : ∀ t ∈ reg.types, reg.endsWithin n t.definition = true) : reg.CollectionsEnd :=
  fun t ht _ hx => not_transGen_self_of_acc (acc_of_reaches (acc_of_endsWithin (h t ht)) hx)

/-- Whether an attribute is the primitive `any`. -/
def takesAny (a : Attribute) : Bool :=
  match a.type with
  | .primitive .any => true
  | _ => false

theorem noAny_of_takesAny (h : ∀ x ∈ reg.standing a, takesAny x = false) : reg.NoAny a := by
  intro x hx ht
  have hplain := h x (mem_standing_of_spans hx)
  simp [takesAny, ht] at hplain

/-- An array of values of a type. -/
def listed (id : TypeId) : Attribute := { type := .array (.user id) }

/-- Trees, which hold trees through an object, forests of trees by name, and boxed forests. -/
def forests : Registry :=
  let name : Attribute := { type := .primitive .string }
  .ofList [
    { id := "Tree", definition := { type := .object [("name", name), ("below", listed "Tree")] } },
    { id := "Forest", definition := { type := .map name (listed "Tree") } },
    { id := "Box", definition := { type := .object [(boxField, .user "Forest")] } }]

/-- A box is opened on the one side or on the other. -/
theorem compatible_tolerance_forests :
    forests.Sound ∧ forests.CollectionsEnd ∧ forests.Resolves (listed "Box") ∧
    forests.NoAny (listed "Box") ∧ forests.NoAny (listed "Forest") ∧
    (forests.compatible (listed "Box") (listed "Box") ⟨"v", "res"⟩).Yields () ∧
    (forests.compatible (listed "Forest") (listed "Box") ⟨"v", "res"⟩).Yields () := by
  have hs : forests.Sound := by decide +kernel
  have hc : forests.CollectionsEnd := collectionsEnd_of_endsWithin (n := 4) (by decide +kernel)
  have ha : forests.Resolves (listed "Box") := by decide +kernel
  have hboxed : forests.NoAny (listed "Box") := noAny_of_takesAny (by decide +kernel)
  have hbare : forests.NoAny (listed "Forest") := noAny_of_takesAny (by decide +kernel)
  obtain ⟨⟨⟩, hopen⟩ : ∃ u, (forests.compatible (listed "Box") (listed "Forest") {}).Yields u := by
    decide +kernel
  obtain ⟨hself, hswap⟩ := compatible_tolerance hs hc
  exact ⟨hs, hc, ha, hboxed, hbare, hself _ ha _, (hswap _ _ hboxed hbare _ _).mp hopen⟩

end Registry
end Shapewright
