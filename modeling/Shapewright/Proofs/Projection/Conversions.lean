import Shapewright.Proofs.Conversion.Faults
import Shapewright.Proofs.Projection.Correspondence

/-!
# Conversions between types and their projections

A type converts into each of its projections, and back: whatever a conversion of the two leads to is
again an attribute and its projection, or one attribute twice, and these always fit. Of what can be
wrong with a conversion only one thing can be wrong with this one: a reference that is written in
both types, and at which no projection looks, leads to no structure.

## Pairs that are alike

The invariant is `Alike`. A conversion starts from a type and its projection, in either order, and
comes to their elements, entries, fields and alternatives. The alternatives of a union and the keys
of a map are the same attribute on both sides, so the third case is needed, and it is stable: one
attribute twice leads to nothing else.

Fields are matched by their names, which is where `Registry.Tidy` comes in. If an object declared a
field twice, the projection could show the one and the match find the other.

## What cannot be wrong

Pairs that are alike are of one kind and have one structure at every level, so no comparison of them
ends with a mismatch (`Alike.compatibleWithin`). Then no box is opened, unions have one arity, and
`Alike.compile` is left with lost references.
-/

namespace Shapewright

open Projection.ViewedType (projectedId)

namespace Projection

/-- The pair is one attribute twice, or one of its attributes faces the other. These are the pairs
    that a conversion between a type and its projection comes to, in either direction. -/
inductive Alike (reg : Registry) (derived : Derived) : Pair → Prop
  | same (a : Attribute) : Alike reg derived (a, a)
  | facing {a b : Attribute} (h : Faces reg derived a b) : Alike reg derived (a, b)
  | faced {a b : Attribute} (h : Faces reg derived b a) : Alike reg derived (a, b)

variable {reg : Registry} {derived : Derived} {a b x y : Attribute} {v w : ObjectView}
  {k : ViewedType}

theorem mem_zip_self {α : Type} {xs : List α} {x y : α} (h : (x, y) ∈ xs.zip xs) : x = y := by
  obtain ⟨i, hi, hxy⟩ := List.getElem_of_mem h
  rw [List.getElem_zip, Prod.mk.injEq] at hxy
  exact hxy.1.symm.trans hxy.2

/-! ## What faces each other has one structure -/

theorem Faces.kind (h : Faces reg derived a b) :
    ∃ k, derived.registry.kind a = .ok k ∧ derived.registry.kind b = .ok k := by
  obtain ⟨r, rb, hr, hrb, hm⟩ := h
  rw [Registry.kind_eq_of_resolve hr, Registry.kind_eq_of_resolve hrb]
  generalize r.type = s at hm
  generalize rb.type = t at hm
  cases hm with
  | primitive p => exact ⟨_, rfl, rfl⟩
  | union => exact ⟨_, rfl, rfl⟩
  | array => exact ⟨_, rfl, rfl⟩
  | map => exact ⟨_, rfl, rfl⟩
  | object => exact ⟨_, rfl, rfl⟩

/-- A type and its projection are of one kind. -/
theorem Extends.kind (hx : Extends reg derived) (hk : derived.Has k) : ∃ kind,
    (kind = .object ∨ kind = .array ∨ kind = .map) ∧
      derived.registry.kind (.user k.type) = .ok kind ∧
      derived.registry.kind (.user (projectedId k)) = .ok kind := by
  obtain ⟨t, u, ht, -, hd⟩ := hx.defined k hk
  obtain ⟨kind, hs, hkind⟩ := hd.exists_kind
  obtain ⟨kind', hfull, hshown⟩ := (faces_projected hx hk).kind
  obtain rfl := Except.ok.inj ((hx.grows.kind (Registry.kind_user ht hkind)).symm.trans hfull)
  exact ⟨kind, hs, hfull, hshown⟩

/-- What the two resolve to mirrors each other. -/
theorem Faces.mirrors {r rb : Attribute} (h : Faces reg derived a b)
    (hr : derived.registry.resolve a = .ok r) (hrb : derived.registry.resolve b = .ok rb) :
    Mirrors reg derived.Has r.type rb.type := by
  obtain ⟨r', rb', hr', hrb', hm⟩ := h
  obtain rfl := Except.ok.inj (hr.symm.trans hr')
  obtain rfl := Except.ok.inj (hrb.symm.trans hrb')
  exact hm

/-- The elements of two arrays that face each other are twins. -/
theorem Faces.elem (h : Faces reg derived a b) (hx : derived.registry.elem? a = .ok (some x))
    (hy : derived.registry.elem? b = .ok (some y)) : Twin reg derived.Has x y := by
  obtain ⟨r, hr, htype⟩ := Registry.elem?_eq_some.mp hx
  obtain ⟨rb, hrb, htype'⟩ := Registry.elem?_eq_some.mp hy
  have hm := h.mirrors hr hrb
  rw [htype, htype'] at hm
  cases hm with
  | array h => exact h

/-- Two maps that face each other have the same keys, and their elements are twins. Keys are kept by
    a projection. -/
theorem Faces.entry {key key' : Attribute} (h : Faces reg derived a b)
    (hx : derived.registry.entry? a = .ok (some (key, x)))
    (hy : derived.registry.entry? b = .ok (some (key', y))) :
    key = key' ∧ Twin reg derived.Has x y := by
  obtain ⟨r, hr, htype⟩ := Registry.entry?_eq_some.mp hx
  obtain ⟨rb, hrb, htype'⟩ := Registry.entry?_eq_some.mp hy
  have hm := h.mirrors hr hrb
  rw [htype, htype'] at hm
  cases hm with
  | map h => exact ⟨rfl, h⟩

/-- Two unions that face each other are the same. Projections keep unions as they were declared, so
    a switch over one has the same cases on both sides. -/
theorem Faces.union {u u' : UnionType} (h : Faces reg derived a b)
    (hu : derived.registry.union? a = .ok (some u))
    (hu' : derived.registry.union? b = .ok (some u')) : u = u' := by
  obtain ⟨r, hr, htype⟩ := Registry.union?_eq_some.mp hu
  obtain ⟨rb, hrb, htype'⟩ := Registry.union?_eq_some.mp hu'
  have hm := h.mirrors hr hrb
  rw [htype, htype'] at hm
  obtain ⟨name, alternatives⟩ := u
  obtain ⟨name', alternatives'⟩ := u'
  generalize htwo : DataType.union name' alternatives' = two at hm
  cases hm with
  | union =>
    cases htwo
    rfl

/-- Fields of one name are twins, where the first object declares a field once. A projection has
    fewer fields, but those that it has come from fields of the same name. -/
theorem Faces.field {name : String} (h : Faces reg derived a b)
    (hv : ObjectView.of? derived.registry a = .ok (some v))
    (hw : ObjectView.of? derived.registry b = .ok (some w)) (hn : (v.fields.map Prod.fst).Nodup)
    (hx : (name, x) ∈ v.fields) (hy : (name, y) ∈ w.fields) : Twin reg derived.Has x y := by
  obtain ⟨hr, htype⟩ := Registry.view_eq_some.mp hv
  obtain ⟨hrb, htype'⟩ := Registry.view_eq_some.mp hw
  have hm := h.mirrors hr hrb
  rw [htype, htype'] at hm
  cases hm with
  | object h =>
    obtain ⟨x', hx', hname, htwin⟩ := h _ hy
    obtain rfl := List.inj_on_of_nodup_map hn hx' hx hname
    exact htwin

/-! ## Pairs stay alike -/

theorem Alike.swap (h : Alike reg derived (a, b)) : Alike reg derived (b, a) := by
  cases h with
  | same => exact .same a
  | facing h => exact .faced h
  | faced h => exact .facing h

theorem Twin.alike (hx : Extends reg derived) (h : Twin reg derived.Has a b) :
    Alike reg derived (a, b) := by
  rcases h with rfl | ⟨view, himage⟩
  · exact .same b
  · exact .facing (himage.faces hx)

section

variable (hx : Extends reg derived)
include hx

/-- The elements of arrays that are alike are alike. -/
theorem Alike.elem (h : Alike reg derived (a, b))
    (hx' : derived.registry.elem? a = .ok (some x))
    (hy : derived.registry.elem? b = .ok (some y)) : Alike reg derived (x, y) := by
  cases h with
  | same =>
    obtain rfl := Option.some.inj (Except.ok.inj (hx'.symm.trans hy))
    exact .same x
  | facing h => exact (h.elem hx' hy).alike hx
  | faced h => exact ((h.elem hy hx').alike hx).swap

/-- Keys and elements of maps that are alike are alike. The keys are the same on both sides, and the
    elements are twins. -/
theorem Alike.entry {key key' : Attribute} (h : Alike reg derived (a, b))
    (hx' : derived.registry.entry? a = .ok (some (key, x)))
    (hy : derived.registry.entry? b = .ok (some (key', y))) :
    Alike reg derived (key, key') ∧ Alike reg derived (x, y) := by
  cases h with
  | same =>
    obtain ⟨rfl, rfl⟩ := Prod.mk.inj (Option.some.inj (Except.ok.inj (hx'.symm.trans hy)))
    exact ⟨.same key, .same x⟩
  | facing h =>
    obtain ⟨rfl, htwin⟩ := h.entry hx' hy
    exact ⟨.same key, htwin.alike hx⟩
  | faced h =>
    obtain ⟨rfl, htwin⟩ := h.entry hy hx'
    exact ⟨.same key', (htwin.alike hx).swap⟩

omit hx in
/-- Unions that are alike are the same. -/
theorem Alike.union {u u' : UnionType} (h : Alike reg derived (a, b))
    (hu : derived.registry.union? a = .ok (some u))
    (hu' : derived.registry.union? b = .ok (some u')) : u = u' := by
  cases h with
  | same => exact Option.some.inj (Except.ok.inj (hu.symm.trans hu'))
  | facing h => exact h.union hu hu'
  | faced h => exact (h.union hu' hu).symm

/-- The fields of objects that are alike are alike where they are matched. Without the premises on
    what is declared twice, a field could be matched with another one of its name. -/
theorem Alike.field {m : FieldMatch} (htidy : derived.registry.Tidy)
    (h : Alike reg derived (a, b)) (ha : a.Tidy) (hb : b.Tidy)
    (hv : ObjectView.of? derived.registry a = .ok (some v))
    (hw : ObjectView.of? derived.registry b = .ok (some w)) (hm : m ∈ matchFields v w) :
    Alike reg derived (m.source, m.target) := by
  obtain ⟨hsource, htarget⟩ := mem_fields_of_mem_matchFields hm
  have htarget := Ordered.mem_of_get? htarget
  have hnv := htidy.nodup_fields ha hv
  have hnw := htidy.nodup_fields hb hw
  cases h with
  | same =>
    obtain rfl := Option.some.inj (Except.ok.inj (hv.symm.trans hw))
    have hsame := List.inj_on_of_nodup_map hnv hsource htarget rfl
    exact (Prod.mk.inj hsame).2 ▸ .same m.source
  | facing h => exact (h.field hv hw hnv hsource htarget).alike hx
  | faced h => exact ((h.field hw hv hnw htarget hsource).alike hx).swap

omit hx in
/-- What is alike is of one kind. A projection keeps the kind: an object stays an object, with fewer
    fields. -/
theorem Alike.kind {kind : Kind} (h : Alike reg derived (a, b)) :
    derived.registry.kind a = .ok kind ↔ derived.registry.kind b = .ok kind := by
  cases h with
  | same => exact Iff.rfl
  | facing h =>
    obtain ⟨k, ha, hb⟩ := h.kind
    rw [ha, hb]
  | faced h =>
    obtain ⟨k, hb, ha⟩ := h.kind
    rw [ha, hb]

/-- A comparison of a pair that is alike never ends with a mismatch. By induction on the budget. A
    comparison may still end with a reference that leads nowhere, which is why mismatches are
    named. -/
theorem Alike.compatibleWithin : ∀ {n : Nat} {a b : Attribute} {p : Registry.Paths},
    Alike reg derived (a, b) →
      (derived.registry.compatibleWithin n a b p).FailsOnly fun f => ¬ f.IsMismatch := by
  intro n
  induction n with
  | zero => intro a b p _; exact Walk.failsOnly_exhausted
  | succ n ih =>
    intro a b p h
    -- An element is compared again in a box when it does not fit. As it never fails to fit, no box
    -- is opened.
    have elements : ∀ {x y : Attribute} {p : Registry.Paths}, Alike reg derived (x, y) →
        (derived.registry.elementsVia (derived.registry.compatibleWithin n) x y p).FailsOnly
          fun f => ¬ f.IsMismatch :=
      fun h => Registry.elementsVia_failsOnly (ih h) fun _ hf =>
        hf.elim (·.not_mismatch) (·.not_mismatch)
    rw [Registry.compatibleWithin, Registry.compatibleVia]
    refine Walk.failsOnly_bind.mpr ⟨Walk.failsOnly_liftM.mpr fun f hf =>
      (Registry.lost_of_kind hf).not_mismatch, fun k hka => ?_⟩
    refine Walk.failsOnly_bind.mpr ⟨Walk.failsOnly_liftM.mpr fun f hf =>
      (Registry.lost_of_kind hf).not_mismatch, fun l hkb => ?_⟩
    rw [Walk.yields_liftM] at hka hkb
    obtain rfl := Except.ok.inj ((h.kind.mp hka).symm.trans hkb)
    split
    · exact Walk.failsOnly_pure
    · cases k with
      | primitive x =>
        dsimp only
        rw [if_pos rfl]
        exact Walk.failsOnly_pure
      | array =>
        obtain ⟨x, hx'⟩ := Registry.exists_elem hka
        obtain ⟨y, hy⟩ := Registry.exists_elem hkb
        simp only [Walk.failsOnly_bind, Walk.failsOnly_liftM, Walk.yields_liftM, hx', hy,
          reduceCtorEq, false_imp_iff, implies_true, true_and, Except.ok.injEq, forall_eq']
        exact elements (h.elem hx hx' hy)
      | map =>
        obtain ⟨⟨key, x⟩, hx'⟩ := Registry.exists_entry hka
        obtain ⟨⟨key', y⟩, hy⟩ := Registry.exists_entry hkb
        simp only [Walk.failsOnly_bind, Walk.failsOnly_liftM, Walk.yields_liftM, hx', hy,
          reduceCtorEq, false_imp_iff, implies_true, true_and, Except.ok.injEq, forall_eq']
        obtain ⟨hkeys, helems⟩ := h.entry hx hx' hy
        exact ⟨ih hkeys, fun _ _ => elements helems⟩
      | object => exact Walk.failsOnly_pure
      | union => exact Walk.failsOnly_pure

/-! ## Conversions -/

variable {c : Conversion} {p q : Pair} (hc : c.registry = derived.registry)
include hc

theorem Alike.not_mismatched (h : Alike reg derived p) : ¬ c.Mismatched p := by
  intro hno
  obtain ⟨paths, f, hf, hrun⟩ := hno
  rw [hc] at hrun
  exact h.compatibleWithin hx f hrun hf

omit hx in
/-- No box is opened: what has a box inside is an object, and so is what it is alike to. So the
    retry with a box, which would change one of the two sides, does not come into it. -/
theorem Alike.not_boxed (h : Alike reg derived p) (hbox : c.openBox? p.1 p.2 = .ok (some q)) :
    ¬ (c.registry.compatible p.1 p.2 {}).Fails := by
  have objects : derived.registry.kind p.1 = .ok .object ∧
      derived.registry.kind p.2 = .ok .object := by
    unfold Conversion.openBox? at hbox
    rw [hc] at hbox
    split at hbox
    · simp only [except_bind_eq_ok, except_pure_eq_ok, Option.map_eq_some_iff] at hbox
      obtain ⟨_, ho, content, rfl, rfl⟩ := hbox
      have hkind := Registry.kind_of_unbox ho
      exact ⟨h.kind.mpr hkind, hkind⟩
    · simp only [except_bind_eq_ok, except_pure_eq_ok, Option.map_eq_some_iff] at hbox
      obtain ⟨_, ho, content, rfl, rfl⟩ := hbox
      have hkind := Registry.kind_of_unbox ho
      exact ⟨hkind, h.kind.mp hkind⟩
  rw [hc]
  exact fun hfails => hfails.not_yields (Registry.compatible_of_objects objects.1 objects.2)

omit hx in
theorem Alike.reconcile (h : Alike reg derived p) (hq : (c.reconcile p.1 p.2).Yields q) :
    q = p := by
  rcases Conversion.reconcile_yields_iff.mp hq with ⟨-, rfl⟩ | ⟨hfails, hbox, -⟩
  · rfl
  · exact absurd hfails (h.not_boxed hc hbox)

variable (htidy : derived.registry.Tidy) (hp : p.1.Tidy ∧ p.2.Tidy)
include htidy hp

/-- What is one level inside is alike. With this, being alike is kept all the way down to whatever a
    conversion reaches. -/
theorem Alike.member {site : HelperSite} (h : Alike reg derived p)
    (hm : c.Member p site) : Alike reg derived site.pair := by
  cases hm with
  | element ha hb =>
    rw [hc] at ha hb
    exact h.elem hx ha hb
  | key ha hb =>
    rw [hc] at ha hb
    exact (h.entry hx ha hb).1
  | entry ha hb =>
    rw [hc] at ha hb
    exact (h.entry hx ha hb).2
  -- Projection keeps a union as it is, so its alternatives face themselves.
  | alternative hu hxy =>
    obtain ⟨hu, hu', -⟩ := Conversion.unions_eq_ok.mp hu
    rw [hc] at hu hu'
    obtain rfl := h.union hu hu'
    obtain rfl := mem_zip_self hxy
    exact .same _
  | field ha hb hm =>
    rw [hc] at ha hb
    exact h.field hx htidy hp.1 hp.2 ha hb hm

/-- Everything that a conversion comes to from a pair that is alike is alike. By induction along the
    way, with `Alike.member` for each step. -/
theorem Alike.reached (h : Alike reg derived p) (hq : c.Reaches p q) : Alike reg derived q := by
  induction hq with
  | refl => exact h
  | tail hreached hnested ih =>
    obtain ⟨inner, required, hinner, hmember⟩ := hnested
    obtain rfl := ih.reconcile hc hinner
    have hmeets := Conversion.Reaches.meets hreached
    rw [hc] at hmeets
    exact ih.member hx hc htidy
      ⟨htidy.of_meets hp.1 hmeets.source, htidy.of_meets hp.2 hmeets.target⟩ hmember

omit htidy hp in
/-- Nothing is wrong with a pair that is alike. There are four ways for a pair to be unlike, and
    each of them is excluded. -/
theorem Alike.not_unlike (h : Alike reg derived p) : ¬ c.Unlike p := by
  intro hunlike
  cases hunlike with
  | refused hno => exact h.not_mismatched hx hc hno
  | boxed hfails hbox => exact h.not_boxed hc hbox hfails
  | arity hinner hu hv hne =>
    obtain rfl := h.reconcile hc hinner
    rw [hc] at hu hv
    obtain rfl := h.union hu hv
    exact hne rfl
  | alternative hinner hu hxy _ hno =>
    obtain rfl := h.reconcile hc hinner
    obtain ⟨hu, hv, -⟩ := Conversion.unions_eq_ok.mp hu
    rw [hc] at hu hv
    obtain rfl := h.union hu hv
    obtain rfl := mem_zip_self hxy
    exact Alike.not_mismatched hx hc (.same _) hno

omit hp in
/-- A conversion of a pair that is alike fails only at a reference that leads to no structure. -/
theorem Alike.compile {s : Site} (hscope : c.scope = .ofRegistry c.registry)
    (h : Alike reg derived s.pair) (hs : s.source.Tidy ∧ s.target.Tidy) (hready : s.Ready) :
    (c.compile s).FailsOnly (derived.registry.LostBoth s.pair) := by
  intro met f met' hf
  cases Conversion.compile_stops hscope hready met f met' hf with
  | unlike _ hq hunlike =>
    exact absurd hunlike ((h.reached hx hc htidy hs hq).not_unlike hx hc)
  | lost hlost => exact hc ▸ hlost

end

end Projection
end Shapewright
