import Shapewright.Proofs.Conversion.Mirror

/-!
# Collections are converted where they fit

Whether two attributes fit is told without a look into objects. For objects and unions this says
little about their conversion, since their members may not fit. For collections it says all: where
the side on which no box is opened has primitives, arrays and maps in it and nothing else, a request
succeeds if and only if the two attributes fit, as they are or with the box of the wire side opened.

## Two ways to look for boxes

The comparison goes through all levels at once and opens one box at each level, on either side. The
emitters and the search ask again at each level, and open boxes of the wire side only. The two agree
because the other side has no boxes, and because a pair that fits leads to such pairs only
(`suits_of_member`). Nothing is assumed about the references on the wire side: whatever has to be
found there was found by the comparison.

## The home side

The side without boxes is called `home`. It is not changed when a box is opened, and each step that
a conversion takes goes to a component of it (`Nested.component`). As nothing on that side holds
itself, the steps come to an end, so that neither the comparison nor the search for code can run out
(`straight_of_bare`). This is where the converse comes from: what ends and does not fail yields
code.
-/

namespace Shapewright

variable {P : Fault → Prop}

namespace Registry

variable {reg : Registry} {a x k : Attribute}

/-- The second attribute is that of the elements or the keys of the first, a collection. References
    are followed before the collection is looked at. -/
inductive Component (reg : Registry) (a : Attribute) : Attribute → Prop where
  | element {x : Attribute} (h : reg.elem? a = .ok (some x)) : Component reg a x
  | key {k x : Attribute} (h : reg.entry? a = .ok (some (k, x))) : Component reg a k
  | entry {k x : Attribute} (h : reg.entry? a = .ok (some (k, x))) : Component reg a x

/-- A primitive has no members of any sort. -/
theorem lookups_of_primitive {y : Primitive} (h : reg.kind a = .ok (.primitive y)) :
    reg.elem? a = .ok none ∧ reg.entry? a = .ok none ∧ reg.union? a = .ok none ∧
      ObjectView.of? reg a = .ok none := by
  obtain ⟨r, hr⟩ := exists_resolve h
  obtain ht : r.type = .primitive y := by
    rw [kind_eq_of_resolve hr] at h
    split at h <;> simp_all
  unfold elem? entry? union? ObjectView.of?
  simp only [hr, except_bind_eq_ok, Except.ok.injEq, exists_eq_left', ht, and_self]

/-- A primitive has no components. -/
theorem not_component_of_primitive {y : Primitive} (h : reg.kind a = .ok (.primitive y)) :
    ¬ reg.Component a x := by
  obtain ⟨helem, hentry, -⟩ := lookups_of_primitive h
  rintro (hx | hx | hx)
  · cases helem.symm.trans hx
  · cases hentry.symm.trans hx
  · cases hentry.symm.trans hx

/-- The only component of an array is its elements. -/
theorem eq_of_component_of_elem {y : Attribute} (h : reg.elem? a = .ok (some x))
    (hy : reg.Component a y) : y = x := by
  rcases hy with hy | hy | hy
  · cases h.symm.trans hy
    rfl
  · cases (kind_of_elem h).symm.trans (kind_of_entry hy)
  · cases (kind_of_elem h).symm.trans (kind_of_entry hy)

/-- The components of a map are its keys and its elements. -/
theorem eq_of_component_of_entry {y : Attribute} (h : reg.entry? a = .ok (some (k, x)))
    (hy : reg.Component a y) : y = k ∨ y = x := by
  rcases hy with hy | hy | hy
  · cases (kind_of_entry h).symm.trans (kind_of_elem hy)
  · cases h.symm.trans hy
    exact .inl rfl
  · cases h.symm.trans hy
    exact .inr rfl

/-- There are only primitives, arrays and maps in the attribute, also where it refers to types, and
    no collection is inside of itself. -/
inductive Bare (reg : Registry) : Attribute → Prop where
  | primitive {a : Attribute} {y : Primitive} (h : reg.kind a = .ok (.primitive y)) : Bare reg a
  | array {a x : Attribute} (h : reg.elem? a = .ok (some x)) (hx : Bare reg x) : Bare reg a
  | map {a k x : Attribute} (h : reg.entry? a = .ok (some (k, x))) (hk : Bare reg k)
      (hx : Bare reg x) : Bare reg a

namespace Bare

/-- The components of what is bare are bare. -/
theorem component (h : reg.Bare a) (hx : reg.Component a x) : reg.Bare x := by
  cases h with
  | primitive h => exact absurd hx (not_component_of_primitive h)
  | array h hy => exact eq_of_component_of_elem h hx ▸ hy
  | map h hk hy =>
    rcases eq_of_component_of_entry h hx with rfl | rfl
    · exact hk
    · exact hy

/-- From what is bare there is no infinite way down. -/
theorem acc (h : reg.Bare a) : Acc (fun y x => reg.Component x y) a := by
  induction h with
  | primitive h => exact .intro _ fun y hy => absurd hy (not_component_of_primitive h)
  | array h _ ih => exact .intro _ fun y hy => eq_of_component_of_elem h hy ▸ ih
  | map h _ _ ihk ihx =>
    refine .intro _ fun y hy => ?_
    rcases eq_of_component_of_entry h hy with rfl | rfl
    · exact ihk
    · exact ihx

theorem kind (h : reg.Bare a) : ∃ k, reg.kind a = .ok k ∧ k ≠ .object ∧ k ≠ .union := by
  cases h with
  | primitive h => exact ⟨_, h, by simp⟩
  | array h _ => exact ⟨_, kind_of_elem h, by simp⟩
  | map h _ _ => exact ⟨_, kind_of_entry h, by simp⟩

theorem not_object (h : reg.Bare a) : reg.kind a ≠ .ok .object := by
  obtain ⟨k, hk, hobject, -⟩ := h.kind
  rw [hk]
  exact fun h => hobject (Except.ok.inj h)

theorem not_union (h : reg.Bare a) : reg.kind a ≠ .ok .union := by
  obtain ⟨k, hk, -, hunion⟩ := h.kind
  rw [hk]
  exact fun h => hunion (Except.ok.inj h)

theorem not_box (h : reg.Bare a) : reg.unbox? a ≠ .ok (some x) :=
  fun hx => h.not_object (kind_of_unbox hx)

end Bare

/-- An attribute of some kind resolves if all does that is written one level below. -/
theorem resolves_of_children {kind : Kind} (hk : reg.kind a = .ok kind)
    (h : ∀ x ∈ a.children, reg.Resolves x) : reg.Resolves a := by
  intro y hy
  rcases Attribute.mem_parts_iff.mp hy with rfl | ⟨x, hx, hy⟩
  · exact ⟨kind, hk⟩
  · exact h x hx y hy

/-- What is written below an attribute is not behind a reference. -/
theorem resolve_of_child (hx : x ∈ a.children) : reg.resolve a = .ok a := by
  refine resolve_of_userId?_eq_none ?_
  cases hu : a.userId? with
  | none => rfl
  | some id => simp [Attribute.children, Attribute.type_of_userId? hu] at hx

/-- What is written below a collection in place is one of its components. Components are followed
    through references as well, so this is one step of a longer way. -/
theorem component_of_child {kind : Kind} (hx : x ∈ a.children) (hk : reg.kind a = .ok kind)
    (hobject : kind ≠ .object) (hunion : kind ≠ .union) : reg.Component a x := by
  have hr : reg.resolve a = .ok a := resolve_of_child hx
  rw [kind_eq_of_resolve hr] at hk
  unfold Attribute.children at hx
  cases ht : a.type with
  | array y =>
    obtain rfl : x = y := by simpa [ht] using hx
    exact .element (elem?_eq_some.mpr ⟨a, hr, ht⟩)
  | map k y =>
    have he : reg.entry? a = .ok (some (k, y)) := entry?_eq_some.mpr ⟨a, hr, ht⟩
    rcases (by simpa [ht] using hx : x = k ∨ x = y) with rfl | rfl
    · exact .key he
    · exact .entry he
  | object => exact absurd (by simpa [ht] using hk.symm) hobject
  | union => exact absurd (by simpa [ht] using hk.symm) hunion
  | primitive => simp [ht] at hx
  | user => simp [ht] at hx

/-- A box resolves if its content does. -/
theorem resolves_of_content (h : reg.unbox? a = .ok (some x)) (hx : reg.Resolves x) :
    reg.Resolves a := by
  refine resolves_of_children (kind_of_unbox h) fun y hy => ?_
  obtain ⟨r, hr, ht⟩ := unbox?_eq_some h
  have ha : reg.resolve a = .ok a := resolve_of_child hy
  cases hr.symm.trans ha
  obtain rfl : y = x := by simpa [Attribute.children, ht] using hy
  exact hx

end Registry

namespace Conversion

open Relation

variable {c : Conversion} {p q inner : Pair} {s t : Site} {emit : Emit} {α : Type}
  {paths : Registry.Paths}

/-! ## The side without boxes -/

/-- The attribute of a pair on the side on which no box is opened. -/
def home (c : Conversion) (p : Pair) : Attribute :=
  match c.wire with
  | .source => p.2
  | .target => p.1

/-- What holds on both sides holds on the side without boxes. -/
theorem home_rel {R : Attribute → Attribute → Prop} (hsource : R p.1 q.1) (htarget : R p.2 q.2) :
    R (c.home p) (c.home q) := by
  unfold home
  cases c.wire with
  | source => exact htarget
  | target => exact hsource

theorem kind_home {k : Kind} {a b : Attribute} (ha : c.registry.kind a = .ok k)
    (hb : c.registry.kind b = .ok k) : c.registry.kind (c.home (a, b)) = .ok k :=
  home_rel (q := (a, b)) (R := fun x _ => c.registry.kind x = .ok k) ha hb

/-- To open a box leaves the other side alone. -/
theorem home_of_openBox (h : c.openBox? p.1 p.2 = .ok (some q)) : c.home q = c.home p := by
  unfold home
  rcases openBox?_eq_some h with ⟨hwire, hsource, -⟩ | ⟨hwire, htarget, -⟩
  · rw [hwire]
    exact hsource
  · rw [hwire]
    exact htarget

theorem home_of_reconcile (h : (c.reconcile p.1 p.2).Yields q) : c.home q = c.home p := by
  rcases reconcile_yields_iff.mp h with ⟨-, rfl⟩ | ⟨-, ho, -⟩
  · rfl
  · exact home_of_openBox ho

/-- What is inside a pair is a component of it on the side without boxes. Boxes are opened on the
    other side, so a box does not break the way. -/
theorem Member.component {x : HelperSite} (h : c.Member p x) (hp : c.registry.Bare (c.home p)) :
    c.registry.Component (c.home p) (c.home x.pair) := by
  cases h with
  | element ha hb => exact home_rel (q := (_, _)) (.element ha) (.element hb)
  | key ha hb => exact home_rel (q := (_, _)) (.key ha) (.key hb)
  | entry ha hb => exact home_rel (q := (_, _)) (.entry ha) (.entry hb)
  | alternative hu =>
    obtain ⟨ha, hb, -⟩ := unions_eq_ok.mp hu
    exact absurd (kind_home (Registry.kind_of_union ha) (Registry.kind_of_union hb)) hp.not_union
  | field ha hb =>
    exact absurd (kind_home (Registry.kind_of_view ha) (Registry.kind_of_view hb)) hp.not_object

theorem Nested.component (h : c.Nested p q) (hp : c.registry.Bare (c.home p)) :
    c.registry.Component (c.home p) (c.home q) := by
  obtain ⟨inner, required, hr, hm⟩ := h
  have hinner := home_of_reconcile hr
  exact hinner ▸ hm.component (hinner ▸ hp)

/-- A comparison of elements stays with that on the side without boxes. A comparison may open boxes
    on the wire side, and the home is the other one. -/
theorem home_of_comparesElements (h : c.registry.ComparesElements p q)
    (hp : c.registry.Bare (c.home p)) : c.home q = c.home p := by
  unfold home at hp ⊢
  cases h with
  | plain => rfl
  | first _ hx =>
    cases hw : c.wire with
    | source => rfl
    | target =>
      rw [hw] at hp
      exact absurd hx hp.not_box
  | second _ _ hy =>
    cases hw : c.wire with
    | source =>
      rw [hw] at hp
      exact absurd hy hp.not_box
    | target => rfl

/-- What a comparison goes on with is a component on that side. A comparison that goes on for ever
    would therefore go round in components, which those of a bare attribute do not. -/
theorem component_of_compares (h : c.registry.Compares p q) (hp : c.registry.Bare (c.home p)) :
    c.registry.Component (c.home p) (c.home q) := by
  cases h with
  | @element a b x y q ha hb hq =>
    have hc : c.registry.Component (c.home (a, b)) (c.home (x, y)) :=
      home_rel (.element ha) (.element hb)
    rwa [home_of_comparesElements hq (hp.component hc)]
  | key ha hb => exact home_rel (q := (_, _)) (.key ha) (.key hb)
  | @entry a b k x l y q ha hb _ hq =>
    have hc : c.registry.Component (c.home (a, b)) (c.home (x, y)) :=
      home_rel (.entry ha) (.entry hb)
    rwa [home_of_comparesElements hq (hp.component hc)]

/-! ## Requests end -/

/-- What goes on with the components of the side without boxes comes to an end. The types of a
    registry are finitely many, and a bare attribute comes back to none of them through
    components. -/
theorem acc_of_bare {R : Pair → Pair → Prop}
    (hR : ∀ p q, c.registry.Bare (c.home p) → R p q →
      c.registry.Component (c.home p) (c.home q))
    (hp : c.registry.Bare (c.home p)) : Acc (fun r q => R q r) p := by
  have hacc := hp.acc
  generalize ha : c.home p = a at hacc
  induction hacc generalizing p with
  | intro a _ ih =>
    refine .intro p fun q hq => ?_
    have hcomponent := hR p q hp hq
    exact ih (c.home q) (ha ▸ hcomponent) (hp.component hcomponent) rfl

/-- A comparison ends where the side without boxes is bare. -/
theorem compatible_finishes_of_bare (paths : Registry.Paths) (hp : c.registry.Bare (c.home p)) :
    (c.registry.compatible p.1 p.2 paths).Finishes := by
  refine Registry.compatible_finishes_iff.mpr ?_
  rintro ⟨q, hq, hround⟩
  have hacc : Acc (fun s r => c.registry.Compares r s) p :=
    acc_of_bare (fun _ _ hp h => component_of_compares h hp) hp
  exact not_transGen_self_of_acc (acc_of_reaches hacc hq) hround

theorem acc_nested (hp : c.registry.Bare (c.home p)) : Acc (fun r q => c.Nested q r) p :=
  acc_of_bare (fun _ _ hp h => h.component hp) hp

theorem Reaches.bare (h : c.Reaches p q) (hp : c.registry.Bare (c.home p)) :
    c.registry.Bare (c.home q) := by
  induction h with
  | refl => exact hp
  | tail _ hqr ih => exact ih.component (hqr.component ih)

/-- Where the side without boxes is bare, the search for code ends. The other side may be as cyclic
    as it likes, as it is walked in step with this one. -/
theorem straight_of_bare (hp : c.registry.Bare (c.home p)) : c.Straight p := by
  intro q hq hround
  have hq := hq.bare hp
  rcases hround with hround | ⟨r, hr, hround⟩
  · exact not_transGen_self_of_acc (acc_nested hq)
      (TransGen.mono (fun _ _ => Unfolds.nested) _ _ hround)
  · have hends : (c.registry.compatible r.1 r.2 {}).Finishes := by
      cases hr with
      | plain => exact compatible_finishes_of_bare {} hq
      | opened _ ho => exact compatible_finishes_of_bare {} (home_of_openBox ho ▸ hq)
    exact Registry.compatible_finishes_iff.mp hends hround

/-! ## Pairs that fit -/

/-- The attributes fit, as they are or with the box of the wire side opened, and there are
    collections of primitives on the other side. -/
structure Suits (c : Conversion) (p : Pair) : Prop where
  bare : c.registry.Bare (c.home p)
  reconciled : ∃ inner, (c.reconcile p.1 p.2).Yields inner

/-- A pair can be reconciled if it fits as it is, or with the box of the wire side opened. On bare
    pairs the comparisons end, so this is an equivalence and not just one direction. -/
theorem reconciled_iff (paths : Registry.Paths) (hp : c.registry.Bare (c.home p)) :
    (∃ inner, (c.reconcile p.1 p.2).Yields inner) ↔
      (c.registry.compatible p.1 p.2 paths).Yields () ∨
        ∃ inner, c.openBox? p.1 p.2 = .ok (some inner) ∧
          (c.registry.compatible inner.1 inner.2 paths).Yields () := by
  simp only [Registry.compatible_yields_iff paths {}]
  constructor
  · rintro ⟨inner, hr⟩
    rcases reconcile_yields_iff.mp hr with ⟨hc, -⟩ | ⟨-, ho, hc⟩
    · exact .inl hc
    · exact .inr ⟨inner, ho, hc⟩
  · rintro (hc | ⟨inner, ho, hc⟩)
    · exact ⟨p, reconcile_yields_iff.mpr (.inl ⟨hc, rfl⟩)⟩
    · -- A box is opened only where the attributes do not fit as they are.
      have hends := compatible_finishes_of_bare {} hp
      rcases Walk.finishes_iff.mp hends with hf | ⟨⟨⟩, hc'⟩
      · exact ⟨inner, reconcile_yields_iff.mpr (.inr ⟨hf, ho, hc⟩)⟩
      · exact ⟨p, reconcile_yields_iff.mpr (.inl ⟨hc', rfl⟩)⟩

theorem compatible_of_reconcile (h : (c.reconcile p.1 p.2).Yields inner) :
    (c.registry.compatible inner.1 inner.2 {}).Yields () := by
  rcases reconcile_yields_iff.mp h with ⟨hc, rfl⟩ | ⟨-, -, hc⟩
  · exact hc
  · exact hc

/-- The steps of a comparison suffice, so what some number of steps accepts fits. -/
theorem compatible_of_within {n : Nat} (hp : c.registry.Bare (c.home p))
    (h : (c.registry.compatibleWithin n p.1 p.2 paths).Yields ()) :
    (c.registry.compatible p.1 p.2 {}).Yields () :=
  Registry.Accepts.yields ⟨n, paths, h⟩ (compatible_finishes_of_bare {} hp)

/-- A comparison of elements opens a box on the wire side, if any. The comparison tries both sides
    for a box, and one of the two has none here. So it asks for what the search asks for. -/
theorem suits_of_elementsVia {n : Nat} (hp : c.registry.Bare (c.home p))
    (h : (c.registry.elementsVia (c.registry.compatibleWithin n) p.1 p.2 paths).Yields ()) :
    c.Suits p := by
  have opened : ∀ {q : Pair}, c.openBox? p.1 p.2 = .ok (some q) →
      (c.registry.compatibleWithin n q.1 q.2 paths).Yields () → c.Suits p := by
    intro q ho hq
    have hc := compatible_of_within (home_of_openBox ho ▸ hp) hq
    exact ⟨hp, (reconciled_iff {} hp).mpr (.inr ⟨q, ho, hc⟩)⟩
  rcases Registry.elementsVia_yields h with h | ⟨i, hi, h⟩ | ⟨i, hi, h⟩
  · exact ⟨hp, (reconciled_iff {} hp).mpr (.inl (compatible_of_within hp h))⟩
  · cases hw : c.wire with
    | source => exact opened (q := (i, p.2)) (by simp [openBox?, hw, hi]) h
    | target => exact absurd hi (by simpa [home, hw] using hp.not_box)
  · cases hw : c.wire with
    | source => exact absurd hi (by simpa [home, hw] using hp.not_box)
    | target => exact opened (q := (p.1, i)) (by simp [openBox?, hw, hi]) h

/-- The members of a pair that fits as it is were compared with it. The comparison of the whole went
    through the same positions as the search for helpers does, which is why its success is enough
    for the search. -/
theorem suits_of_member {x : HelperSite} (hp : c.registry.Bare (c.home p))
    (hc : (c.registry.compatible p.1 p.2 {}).Yields ()) (h : c.Member p x) : c.Suits x.pair := by
  -- The comparison goes down through arrays and maps alone. Fields and alternatives are no members
  -- of a pair whose home is bare.
  have hx : c.registry.Bare (c.home x.pair) := hp.component (h.component hp)
  rw [Registry.compatible, Registry.pairBudget, Registry.compatibleWithin,
    Registry.compatibleVia] at hc
  simp only [Walk.yields_bind, Walk.yields_liftM] at hc
  obtain ⟨k, hk, l, hl, hc⟩ := hc
  cases h with
  | element ha hb =>
    cases hk.symm.trans (Registry.kind_of_elem ha)
    cases hl.symm.trans (Registry.kind_of_elem hb)
    simp only [reduceCtorEq, ↓reduceIte, Walk.yields_bind, Walk.yields_liftM, ha, hb,
      Except.ok.injEq, exists_eq_left'] at hc
    exact suits_of_elementsVia hx hc
  | key ha hb =>
    cases hk.symm.trans (Registry.kind_of_entry ha)
    cases hl.symm.trans (Registry.kind_of_entry hb)
    simp only [reduceCtorEq, ↓reduceIte, Walk.yields_bind, Walk.yields_liftM, ha, hb,
      Except.ok.injEq, exists_eq_left'] at hc
    obtain ⟨⟨⟩, hkeys, -⟩ := hc
    exact ⟨hx, (reconciled_iff {} hx).mpr (.inl (compatible_of_within hx hkeys))⟩
  | entry ha hb =>
    cases hk.symm.trans (Registry.kind_of_entry ha)
    cases hl.symm.trans (Registry.kind_of_entry hb)
    simp only [reduceCtorEq, ↓reduceIte, Walk.yields_bind, Walk.yields_liftM, ha, hb,
      Except.ok.injEq, exists_eq_left'] at hc
    obtain ⟨-, -, helements⟩ := hc
    exact suits_of_elementsVia hx helements
  | alternative hu =>
    obtain ⟨ha, hb, -⟩ := unions_eq_ok.mp hu
    exact absurd (kind_home (Registry.kind_of_union ha) (Registry.kind_of_union hb)) hp.not_union
  | field ha hb =>
    exact absurd (kind_home (Registry.kind_of_view ha) (Registry.kind_of_view hb)) hp.not_object

theorem Suits.nested (h : c.Suits p) (hq : c.Nested p q) : c.Suits q := by
  obtain ⟨inner, required, hr, hm⟩ := hq
  exact suits_of_member (home_of_reconcile hr ▸ h.bare) (compatible_of_reconcile hr) hm

/-! ## Types of results -/

/-- A component of the target of a pair that fits as it is faces one of the source. Needed for what
    can be said of the target only by way of the source, such as that its references resolve. -/
theorem exists_member {x : Attribute} {k : Kind} (hk : c.registry.kind p.1 = .ok k)
    (hl : c.registry.kind p.2 = .ok k) (hx : c.registry.Component p.2 x) :
    ∃ y required, c.Member p ⟨y, x, required⟩ := by
  cases hx with
  | element hx =>
    cases hl.symm.trans (Registry.kind_of_elem hx)
    obtain ⟨y, hy⟩ := Registry.exists_elem hk
    exact ⟨y, _, .element hy hx⟩
  | key hx =>
    cases hl.symm.trans (Registry.kind_of_entry hx)
    obtain ⟨⟨l, y⟩, hy⟩ := Registry.exists_entry hk
    exact ⟨l, _, .key hy hx⟩
  | entry hx =>
    cases hl.symm.trans (Registry.kind_of_entry hx)
    obtain ⟨⟨l, y⟩, hy⟩ := Registry.exists_entry hk
    exact ⟨y, _, .entry hy hx⟩

/-- The kinds of a pair that fits as it is: equal, and those of collections or primitives, unless
    the target takes anything. -/
theorem kinds_of_bare (hp : c.registry.Bare (c.home p))
    (hc : (c.registry.compatible p.1 p.2 {}).Yields ()) :
    ∃ k l, c.registry.kind p.1 = .ok k ∧ c.registry.kind p.2 = .ok l ∧
      (l = .primitive .any ∨ k = l ∧ l ≠ .object ∧ l ≠ .union) := by
  obtain ⟨k, l, hk, hl, rfl | rfl⟩ := Registry.kinds_of_compatible hc
  · exact ⟨k, _, hk, hl, .inl rfl⟩
  · refine ⟨k, k, hk, hl, .inr ⟨rfl, ?_, ?_⟩⟩
    · rintro rfl
      exact hp.not_object (kind_home hk hl)
    · rintro rfl
      exact hp.not_union (kind_home hk hl)

/-- Where a pair fits, so do the references of its target, as far as they are followed. A helper
    writes the type of its target, and that type has to be there. -/
theorem Suits.resolves_target (h : c.Suits p) : c.registry.Resolves p.2 := by
  -- What is nested in the pair has components for targets, whose references resolve before.
  induction acc_nested h.bare with
  | intro p _ ih =>
    obtain ⟨inner, hr⟩ := h.reconciled
    have hbare : c.registry.Bare (c.home inner) := home_of_reconcile hr ▸ h.bare
    have hinner : c.registry.Resolves inner.2 := by
      obtain ⟨k, l, hk, hl, rfl | ⟨rfl, hobject, hunion⟩⟩ :=
        kinds_of_bare hbare (compatible_of_reconcile hr)
      · exact Registry.resolves_of_primitive hl
      · refine Registry.resolves_of_children hl fun x hx => ?_
        obtain ⟨y, required, hm⟩ :=
          exists_member hk hl (Registry.component_of_child hx hl hobject hunion)
        have hq : c.Nested p (y, x) := ⟨inner, required, hr, hm⟩
        exact ih (y, x) hq (h.nested hq)
    rcases reconcile_yields_iff.mp hr with ⟨-, rfl⟩ | ⟨-, ho, -⟩
    · exact hinner
    · rcases openBox?_eq_some ho with ⟨-, -, ho⟩ | ⟨-, htarget, -⟩
      · exact Registry.resolves_of_content ho hinner
      · exact htarget ▸ hinner

theorem Suits.exists_targetRef (h : c.Suits p) (hc : c.scope = .ofRegistry c.registry) :
    ∃ type, c.targetRef p.2 = .ok type := by
  rw [targetRef, hc]
  exact Scope.exists_typeRef c.target h.resolves_target

/-! ## Code in place

Nothing fails for a pair that fits. This is said by an arbitrary property `P` of faults that all
faults have, so that the rules for walks apply as they are.
-/

theorem Suits.exists_kind (h : c.Suits p) : ∃ k, c.registry.kind p.1 = .ok k := by
  obtain ⟨inner, hr⟩ := h.reconciled
  rcases reconcile_yields_iff.mp hr with ⟨hc, -⟩ | ⟨-, ho, hc⟩
  · obtain ⟨k, -, hk, -⟩ := Registry.kinds_of_compatible hc
    exact ⟨k, hk⟩
  · rcases openBox?_eq_some ho with ⟨-, hsource, -⟩ | ⟨-, -, ho⟩
    · obtain ⟨k, -, hk, -⟩ := Registry.kinds_of_compatible hc
      exact ⟨k, hsource ▸ hk⟩
    · exact ⟨_, Registry.kind_of_unbox ho⟩

/-- Whether a helper is called can be decided for a pair that suits. The comparison succeeds, and
    whether both sides have a name can be seen from the references. -/
theorem Suits.callsHelper_failsOnly (h : c.Suits p) : (c.callsHelper p.1 p.2).FailsOnly P := by
  obtain ⟨k, hk⟩ := h.exists_kind
  unfold callsHelper
  split
  · exact Walk.failsOnly_pure
  · refine Walk.failsOnly_bind.mpr
      ⟨Walk.failsOnly_of_ok ⟨_, Registry.isPrimitive_of_kind hk⟩, fun isPrimitive _ => ?_⟩
    split
    · exact Walk.failsOnly_pure
    · exact Walk.failsOnly_succeeds

section

variable (hc : c.scope = .ofRegistry c.registry)
  (hemit : ∀ t, t.Ready → c.Suits t.pair → (emit t).FailsOnly P)

include hc

/-- A primitive is converted without a fault. The two kinds are the same or the target takes
    anything, so there is a type to convert to. -/
theorem primitive_failsOnly_of_kinds {x y : Primitive}
    (hsource : c.registry.kind s.source = .ok (.primitive x))
    (htarget : c.registry.kind s.target = .ok (.primitive y)) : (c.primitive s).FailsOnly P := by
  obtain ⟨type, htype⟩ := Scope.exists_typeRef c.source (Registry.resolves_of_primitive hsource)
  obtain ⟨type', htype'⟩ := Scope.exists_typeRef c.target (Registry.resolves_of_primitive htarget)
  unfold primitive
  refine Walk.failsOnly_bind.mpr
    ⟨Walk.failsOnly_liftM.mpr fun f hf => ?_, fun _ _ => Walk.failsOnly_pure⟩
  unfold converted? sourceRef targetRef at hf
  simp only [hc, htype, htype', except_bind_eq_error, reduceCtorEq, Except.ok.injEq,
    exists_eq_left', false_or] at hf
  split at hf <;> cases hf

include hemit

/-- Code for a pair that suits is emitted in place. -/
theorem Suits.nested_failsOnly (h : c.Suits t.pair) (hready : t.Ready) :
    (c.nested emit t).FailsOnly P := by
  unfold Conversion.nested
  refine Walk.failsOnly_bind.mpr ⟨h.callsHelper_failsOnly, fun calls hcalls => ?_⟩
  cases calls with
  | false => exact hemit t hready h
  | true =>
    refine Walk.failsOnly_bind.mpr ⟨Walk.failsOnly_of_ok ?_, fun _ _ => Walk.failsOnly_pure⟩
    exact exists_helperName (p := t.pair) hc hcalls

section

variable (hp : c.registry.Bare (c.home s.pair))
  (hfits : (c.registry.compatible s.pair.1 s.pair.2 {}).Yields ())

include hp hfits

/-- An array that fits is converted without a fault. Both have elements, and those fit with or
    without a box. -/
theorem array_failsOnly_of_bare (hsource : c.registry.kind s.source = .ok .array)
    (htarget : c.registry.kind s.target = .ok .array) : (c.array emit s).FailsOnly P := by
  obtain ⟨x, hx⟩ := Registry.exists_elem hsource
  obtain ⟨y, hy⟩ := Registry.exists_elem htarget
  have helem : c.Suits (x, y) := suits_of_member hp hfits (.element hx hy)
  unfold array
  simp only [Walk.failsOnly_bind, Walk.yields_liftM, hx, hy, Except.ok.injEq, forall_eq']
  refine ⟨Walk.failsOnly_of_ok ⟨_, rfl⟩, Walk.failsOnly_of_ok ⟨_, rfl⟩,
    Walk.failsOnly_of_ok (helem.exists_targetRef hc), fun _ _ => ?_⟩
  have hready : (s.element x y).Ready := Below.ready (c := c) (.element hx hy)
  exact ⟨helem.nested_failsOnly hc hemit hready, fun _ _ => Walk.failsOnly_pure⟩

/-- A map that fits is converted without a fault. Keys and elements suit each other as the maps do,
    and below them the induction goes on. -/
theorem map_failsOnly_of_bare (hsource : c.registry.kind s.source = .ok .map)
    (htarget : c.registry.kind s.target = .ok .map) : (c.map emit s).FailsOnly P := by
  obtain ⟨⟨k, x⟩, hx⟩ := Registry.exists_entry hsource
  obtain ⟨⟨l, y⟩, hy⟩ := Registry.exists_entry htarget
  have hkey : c.Suits (k, l) := suits_of_member hp hfits (.key hx hy)
  have helem : c.Suits (x, y) := suits_of_member hp hfits (.entry hx hy)
  unfold map
  simp only [Walk.failsOnly_bind, Walk.yields_liftM, hx, hy, Except.ok.injEq, forall_eq']
  refine ⟨Walk.failsOnly_of_ok ⟨_, rfl⟩, Walk.failsOnly_of_ok ⟨_, rfl⟩,
    Walk.failsOnly_of_ok (hkey.exists_targetRef hc), fun _ _ =>
      ⟨Walk.failsOnly_of_ok (helem.exists_targetRef hc), fun _ _ => ⟨?_, fun _ _ => ⟨?_, fun _ _ =>
        Walk.failsOnly_pure⟩⟩⟩⟩
  · exact hkey.nested_failsOnly hc hemit (Below.ready (c := c) (s := s) (.key hx hy))
  · exact helem.nested_failsOnly hc hemit (Below.ready (c := c) (s := s) (.entry hx hy))

/-- Whatever fits is converted without a fault. One case for each kind that a bare pair can have.
    Objects and unions are not among them. -/
theorem byKind_failsOnly_of_bare : (c.byKind emit s).FailsOnly P := by
  obtain ⟨k, l, hk, hl, hkinds⟩ := kinds_of_bare hp hfits
  change c.registry.kind s.source = .ok k at hk
  change c.registry.kind s.target = .ok l at hl
  unfold byKind
  simp only [Walk.failsOnly_bind, Walk.yields_liftM, hk, hl, Except.ok.injEq, forall_eq']
  refine ⟨Walk.failsOnly_of_ok ⟨_, rfl⟩, Walk.failsOnly_of_ok ⟨_, rfl⟩, ?_⟩
  rcases hkinds with rfl | ⟨rfl, hobject, hunion⟩
  · cases k with
    | primitive x => exact primitive_failsOnly_of_kinds hc hk hl
    | _ => exact Walk.failsOnly_pure
  · cases k with
    | primitive x =>
      simp only [Kind.isPrimitive, Bool.not_true, Bool.and_false, Bool.false_eq_true, ↓reduceIte]
      exact primitive_failsOnly_of_kinds hc hk hl
    | array => exact array_failsOnly_of_bare hc hemit hp hfits hk hl
    | map => exact map_failsOnly_of_bare hc hemit hp hfits hk hl
    | object => exact absurd rfl hobject
    | union => exact absurd rfl hunion

end

omit hemit in
/-- The box that is opened is there, and so is its type. The comparison failed, and the pair was
    reconciled all the same, which is possible with a box only. -/
theorem Suits.unboxed_failsOnly {why : Fault} (h : c.Suits s.pair)
    (hf : (c.registry.compatible s.source s.target {}).Fails) : (c.unboxed s why).FailsOnly P := by
  obtain ⟨inner, hr⟩ := h.reconciled
  unfold unboxed
  rcases reconcile_yields_iff.mp hr with ⟨hy, -⟩ | ⟨-, ho, -⟩
  · exact absurd hy hf.not_yields
  · rcases openBox?_eq_some ho with ⟨hwire, -, ho⟩ | ⟨hwire, -, ho⟩
    · change c.registry.unbox? s.target = _ at ho
      rw [hwire]
      simp only [Walk.failsOnly_bind, Walk.yields_liftM, ho, Except.ok.injEq, forall_eq']
      exact ⟨Walk.failsOnly_of_ok ⟨_, rfl⟩, Walk.failsOnly_of_ok (h.exists_targetRef hc),
        fun _ _ => Walk.failsOnly_pure⟩
    · change c.registry.unbox? s.source = _ at ho
      rw [hwire]
      simp only [Walk.failsOnly_bind, Walk.yields_liftM, ho, Except.ok.injEq, forall_eq']
      exact ⟨Walk.failsOnly_of_ok ⟨_, rfl⟩, Walk.failsOnly_pure⟩

theorem Suits.attrVia_failsOnly (h : c.Suits s.pair) (hready : s.Ready) :
    (c.attrVia emit s).FailsOnly P := by
  obtain ⟨opened, hr⟩ := h.reconciled
  unfold attrVia
  refine Walk.failsOnly_bind.mpr ⟨Walk.failsOnly_outcome, fun o ho => ?_⟩
  have ho := Walk.yields_outcome.mp ho
  cases o with
  | ok _ => exact byKind_failsOnly_of_bare hc hemit h.bare (compatible_yields.mp ho)
  | error why =>
    have hf : (c.registry.compatible s.source s.target {}).Fails := compatible_fails.mp ⟨why, ho⟩
    dsimp only
    -- Right below a collection no box has been opened yet, so one may be opened here.
    rw [if_neg (by rw [hready.inBox]; exact Bool.false_ne_true)]
    refine Walk.failsOnly_bind.mpr ⟨h.unboxed_failsOnly hc hf, fun ⟨box, inner⟩ hx => ?_⟩
    have hbox : c.openBox? s.source s.target = .ok (some inner.pair) := (unboxed_yields hx).opened
    -- The search reconciled the pair, and not as it stands: it must have opened this very box.
    have hfits : (c.registry.compatible inner.source inner.target {}).Yields () := by
      rcases reconcile_yields_iff.mp hr with ⟨hy, -⟩ | ⟨-, ho, hc⟩
      · exact absurd hy hf.not_yields
      · cases hbox.symm.trans ho
        exact hc
    have hp : c.registry.Bare (c.home inner.pair) := home_of_openBox (p := s.pair) hbox ▸ h.bare
    refine Walk.failsOnly_bind.mpr ⟨(compatible_yields.mpr hfits).failsOnly, fun _ _ => ?_⟩
    refine Walk.failsOnly_bind.mpr ⟨?_, fun _ _ => Walk.failsOnly_pure⟩
    exact byKind_failsOnly_of_bare hc hemit hp hfits

omit hemit in
/-- Code for a pair that fits can be built, however many levels it takes. -/
theorem Suits.attrWithin_failsOnly : ∀ {levels : Nat} {s : Site}, c.Suits s.pair → s.Ready →
    (c.attrWithin levels s).FailsOnly P := by
  intro levels
  induction levels with
  | zero => intro s _ _; exact Walk.failsOnly_exhausted
  | succ levels ih =>
    intro s h hready
    exact h.attrVia_failsOnly hc (fun t ht hsuits => ih hsuits ht) hready

omit hemit in
/-- A helper has types: the name of the source leads to something, and the target resolves. Its code
    cannot fail by the induction, so what is left are the two types of its signature. -/
theorem Suits.helper_failsOnly {name : String} {x : HelperSite} (h : c.Suits x.pair)
    (hcalls : (c.callsHelper x.source x.target).Yields true) : (c.helper name x).FailsOnly P := by
  obtain ⟨k, hk⟩ := h.exists_kind
  obtain ⟨id, hid⟩ := Option.isSome_iff_exists.mp
    (callsHelper_yields_true (p := x.pair).mp hcalls).1
  have hsource : ∃ type, c.sourceRef x.source = .ok type := by
    rw [sourceRef, hc]
    exact Scope.exists_typeRef c.source (Registry.resolves_of_userId? hid hk)
  unfold Conversion.helper
  refine Walk.failsOnly_bind.mpr ⟨Walk.failsOnly_of_ok hsource, fun _ _ => ?_⟩
  refine Walk.failsOnly_bind.mpr ⟨Walk.failsOnly_of_ok (h.exists_targetRef hc), fun _ _ => ?_⟩
  refine Walk.failsOnly_bind.mpr ⟨?_, fun _ _ => Walk.failsOnly_pure⟩
  exact Suits.attrWithin_failsOnly hc (s := x.inner) h ⟨rfl, fun _ => ⟨_, rfl⟩⟩

end

/-! ## The search -/

/-- The positions below a pair that fits as it is can be listed. The list may be empty: a pair whose
    target takes anything has no members. -/
theorem exists_members (hp : c.registry.Bare (c.home p))
    (hc : (c.registry.compatible p.1 p.2 {}).Yields ()) :
    ∃ sites, c.members p.1 p.2 = .ok sites := by
  -- The search looks at the kind of the source first, and at the target only if that can have
  -- members. So a target of another kind is met in each of the five cases.
  obtain ⟨k, l, hk, hl, rfl | ⟨rfl, hobject, hunion⟩⟩ := kinds_of_bare hp hc
  · obtain ⟨helem, hentry, hunion, hview⟩ := Registry.lookups_of_primitive hl
    cases k with
    | primitive => exact ⟨[], by simp only [members, hk]; rfl⟩
    | array =>
      obtain ⟨x, hx⟩ := Registry.exists_elem hk
      exact ⟨[], by simp only [members, hk, hx, helem]; rfl⟩
    | map =>
      obtain ⟨x, hx⟩ := Registry.exists_entry hk
      exact ⟨[], by simp only [members, hk, hx, hentry]; rfl⟩
    | object =>
      obtain ⟨x, hx⟩ := Registry.exists_view hk
      exact ⟨[], by simp only [members, hk, hx, hview]; rfl⟩
    | union => exact ⟨[], by simp only [members, hk, hunion]; rfl⟩
  · cases k with
    | primitive => exact ⟨[], by simp only [members, hk]; rfl⟩
    | array =>
      obtain ⟨x, hx⟩ := Registry.exists_elem hk
      obtain ⟨y, hy⟩ := Registry.exists_elem hl
      exact ⟨_, by simp only [members, hk, hx, hy]; rfl⟩
    | map =>
      obtain ⟨x, hx⟩ := Registry.exists_entry hk
      obtain ⟨y, hy⟩ := Registry.exists_entry hl
      exact ⟨_, by simp only [members, hk, hx, hy]; rfl⟩
    | object => exact absurd rfl hobject
    | union => exact absurd rfl hunion

section

variable {collect : HelperSite → HelperWalk (List α)}

theorem Suits.collectMembers_failsOnly (h : c.Suits p)
    (hcollect : ∀ x, c.Suits x.pair → (collect x).FailsOnly P) :
    (c.collectMembers collect p.1 p.2).FailsOnly P := by
  obtain ⟨inner, hr⟩ := h.reconciled
  have hp : c.registry.Bare (c.home inner) := home_of_reconcile hr ▸ h.bare
  have hfits := compatible_of_reconcile hr
  unfold collectMembers
  refine HelperWalk.failsOnly_bind (HelperWalk.failsOnly_liftM.mpr hr.failsOnly)
    fun inner' _ _ hinner => ?_
  obtain rfl := (HelperWalk.yields_liftM.mp hinner).1.unique hr
  obtain ⟨sites, hsites⟩ := exists_members hp hfits
  refine HelperWalk.failsOnly_bind
    (HelperWalk.failsOnly_liftExcept fun f hf => absurd (hsites.symm.trans hf) (by simp))
    fun sites' _ _ hsites' => collectAll_failsOnly fun x hx => hcollect x ?_
  exact suits_of_member hp hfits
    (member_of_mem_members (HelperWalk.yields_liftExcept.mp hsites').1 hx)

theorem Suits.collectWithin_failsOnly (hc : c.scope = .ofRegistry c.registry) :
    ∀ {levels : Nat} {x : HelperSite}, c.Suits x.pair →
      (c.collectWithin c.helper levels x).FailsOnly P := by
  intro levels
  induction levels with
  -- Running out of levels is no fault here. `Termination` says when there are enough of them.
  | zero =>
    intro x _
    exact HelperWalk.failsOnly_ofWalk.mpr Walk.failsOnly_exhausted
  | succ levels ih =>
    intro x h
    have hmembers : (c.collectMembers (c.collectWithin c.helper levels) x.source
        x.target).FailsOnly P := h.collectMembers_failsOnly fun x hx => ih hx
    rw [collectWithin]
    refine HelperWalk.failsOnly_bind (HelperWalk.failsOnly_liftM.mpr h.callsHelper_failsOnly)
      fun calls _ _ hcalls => ?_
    have hcalls := (HelperWalk.yields_liftM.mp hcalls).1
    -- A pair is unfolded in place if it calls no helper. One that does is unfolded only when its
    -- helper is new, and never before the helper itself is built.
    cases calls with
    | false => exact hmembers
    | true =>
      obtain ⟨name, hname⟩ := exists_helperName (p := x.pair) hc hcalls
      refine HelperWalk.failsOnly_bind
        (HelperWalk.failsOnly_liftExcept fun f hf => absurd (hname.symm.trans hf) (by simp))
        fun name _ _ _ => ?_
      refine HelperWalk.failsOnly_bind (HelperWalk.failsOnly_meet name) fun isNew _ _ _ => ?_
      cases isNew with
      | false => exact HelperWalk.failsOnly_pure
      | true =>
        refine HelperWalk.failsOnly_bind
          (HelperWalk.failsOnly_liftM.mpr (h.helper_failsOnly hc hcalls)) fun _ _ _ _ => ?_
        exact HelperWalk.failsOnly_bind hmembers fun _ _ _ _ => HelperWalk.failsOnly_pure

end

/-! ## Requests -/

theorem Suits.compile_failsOnly (h : c.Suits s.pair) (hc : c.scope = .ofRegistry c.registry)
    (hready : s.Ready) : (c.compile s).FailsOnly P := by
  have hcollect : (c.collect c.helper s.source s.target).FailsOnly P :=
    h.collectMembers_failsOnly fun x hx => hx.collectWithin_failsOnly hc
  unfold compile helpers
  refine HelperWalk.failsOnly_bind
    (HelperWalk.failsOnly_liftM.mpr (h.attrWithin_failsOnly hc hready)) fun _ _ _ _ => ?_
  refine HelperWalk.failsOnly_bind ?_ fun _ _ _ _ => HelperWalk.failsOnly_pure
  exact HelperWalk.failsOnly_bind hcollect fun _ _ _ _ => HelperWalk.failsOnly_pure

theorem reconciled_of_compile {out : Compiled} {met met' : List String}
    (h : (c.compile s).Yields met out met') :
    ∃ inner, (c.reconcile s.source s.target).Yields inner := by
  have hinline := (compile_yields.mp h).1
  rw [inline, Registry.pairBudget, attrWithin] at hinline
  obtain ⟨inner, -, -, ho, -⟩ := attrVia_yields hinline
  exact ⟨inner.pair, ho.reconcile⟩

/-- A request between two attributes of which one, on the side without boxes, has nothing in it but
    primitives, arrays and maps: it ends, and it succeeds if and only if the attributes fit, as they
    are or with the box of the wire side opened. This is so whatever stands in the registry and on
    the wire side, and whatever helpers were met before. -/
theorem compile_yields_iff_compatible (c : Conversion) (a b : Attribute) (value place : String)
    (declare : Bool) (met : List String) (paths : Registry.Paths)
    (hc : c.scope = .ofRegistry c.registry) (hp : c.registry.Bare (c.home (a, b))) :
    (c.compile (.between a b value place declare)).Finishes met ∧
      ((∃ out met', (c.compile (.between a b value place declare)).Yields met out met') ↔
        (c.registry.compatible a b paths).Yields () ∨
          ∃ inner, c.openBox? a b = .ok (some inner) ∧
            (c.registry.compatible inner.1 inner.2 paths).Yields ()) := by
  have hends : (c.compile (.between a b value place declare)).Finishes met :=
    (straight_of_bare hp : c.Straight (Site.between a b value place declare).pair).compile met
  refine ⟨hends, ?_⟩
  rw [← reconciled_iff (p := (a, b)) paths hp]
  constructor
  · rintro ⟨out, met', h⟩
    exact reconciled_of_compile (s := .between a b value place declare) h
  · intro hr
    have hsuits : c.Suits (a, b) := ⟨hp, hr⟩
    have hready : (Site.between a b value place declare).Ready := ⟨rfl, fun _ => ⟨_, rfl⟩⟩
    have hfails := hsuits.compile_failsOnly (s := .between a b value place declare)
      (P := fun _ => False) hc hready
    exact (hfails.yields_or hends).resolve_right fun ⟨_, hf⟩ => hf

/-- Strings, two arrays deep. -/
def nestedStrings : Attribute :=
  { type := .array { type := .array { type := .primitive .string } } }

/-- Boxed strings, two arrays deep. -/
def nestedBoxes : Attribute := { type := .array { type := .array (.user "Box") } }

/-- Both arrays in a box, too. -/
def boxedNest : Attribute := { type := .object [(boxField, nestedBoxes)] }

/-- A box is opened around the arrays, and another one for each string. Both are on the side of the
    target, and one position opens one box at most, so the two are at different positions. -/
theorem compile_yields_iff_compatible_boxed :
    boxWriter.registry.Bare (boxWriter.home (nestedStrings, boxedNest)) ∧
    boxWriter.openBox? nestedStrings boxedNest = .ok (some (nestedStrings, nestedBoxes)) ∧
    ∃ out met,
      (boxWriter.compile (.between nestedStrings boxedNest "v" "res")).Yields [] out met := by
  have hbare : boxWriter.registry.Bare (boxWriter.home (nestedStrings, boxedNest)) :=
    .array rfl (.array rfl (.primitive rfl))
  have hbox : boxWriter.openBox? nestedStrings boxedNest =
      .ok (some (nestedStrings, nestedBoxes)) := rfl
  obtain ⟨⟨⟩, hfits⟩ :
      ∃ u, (boxWriter.registry.compatible nestedStrings nestedBoxes {}).Yields u := by
    decide +kernel
  exact ⟨hbare, hbox, (compile_yields_iff_compatible boxWriter nestedStrings boxedNest "v" "res"
    true [] {} rfl hbare).2.mpr (.inr ⟨_, hbox, hfits⟩)⟩

/-- Boxes on the other side are looked into by the comparison, and by nothing else. -/
example : (∃ u, (boxWriter.registry.compatible nestedBoxes nestedStrings {}).Yields u) ∧
    ¬ ∃ out met,
      (boxWriter.compile (.between nestedBoxes nestedStrings "v" "res")).Yields [] out met := by
  decide +kernel

end Conversion
end Shapewright
