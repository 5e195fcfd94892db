import Shapewright.Proofs.Conversion.Emission

/-!
# Which sites have their code in place

Sites and pairs tell the same story: the code of a site has that of another in place where the
conversion of the one pair unfolds that of the other. A site has more to it than its pair, namely
the values and the place that the code mentions. What is said of pairs is what carries over to the
search for helpers, which knows no sites.

From this follow the three facts about code in place: where its calls come from
(`attrWithin_calls`), that all of it was built if any was (`attrVia_inPlace`), and that building it
ends if building what is in place does (`attrVia_finishes`).

## What has no site

The one exception to the story are fields with primitives on both sides. They are stored on the spot
and need no site of their own; an alternative that is a primitive is likewise only compared.
`Elementary` is the name for both, and it is harmless: nothing is nested in the conversion of a
primitive (`not_nested_of_isPrimitive`), so a circle cannot go through one.

The three facts are proved for any `emit`, the function that builds a nested site. So they are about
one level of the emitter, and the induction over levels is made once, by those who use them. The
exception is `attrWithin_calls`, whose calls may stand at any depth.
-/

namespace Shapewright
namespace Conversion

open Relation

variable {c : Conversion} {emit : Emit} {s t : Site} {b : Block} {call : Call} {p q : Pair}

/-- The code of the first site has that of the second in place. Either no helper is called for it,
    or it is an alternative in a wrapper, for which none is asked. -/
inductive InPlace (c : Conversion) (s t : Site) : Prop where
  | unfolded {inner : Site} (ho : c.Opens s inner) (ht : c.Below inner t)
      (hc : (c.callsHelper t.source t.target).Yields false) : InPlace c s t
  | wrapped {inner : Site} (ho : c.Opens s inner) (ht : c.Wraps inner t) : InPlace c s t

/-- The code of the first site calls a helper for the second, maybe deep inside. The site `u` that
    makes the call is in place at the first. -/
def CallsAt (c : Conversion) (s t : Site) : Prop :=
  ∃ u inner, ReflTransGen c.InPlace s u ∧ c.Opens u inner ∧ c.Below inner t ∧
    (c.callsHelper t.source t.target).Yields true

/-! ## Sites and pairs -/

/-- A site below another is that of a member. The flag is not part of a site, so some flag does. The
    flag of a member says whether its value may be nil, and the code of a site does not ask for
    that. -/
theorem Below.member (h : c.Below s t) :
    ∃ required, c.Member s.pair ⟨t.source, t.target, required⟩ := by
  cases h with
  | element hx hy => exact ⟨false, .element hx hy⟩
  | key hx hy => exact ⟨false, .key hx hy⟩
  | entry hx hy => exact ⟨false, .entry hx hy⟩
  | alternative hu hab => exact ⟨true, .alternative hu hab⟩
  | @field v w m f hv hw hm hf =>
    have hof := fieldSite_yields hf
    refine ⟨v.requires m.name, ?_⟩
    rw [FieldSite.site, hof.source, hof.target]
    exact .field hv hw hm

theorem Wraps.member (h : c.Wraps s t) :
    ∃ required, c.Member s.pair ⟨t.source, t.target, required⟩ := by
  cases h with
  | alternative hu hab => exact ⟨true, .alternative hu hab⟩

theorem Below.nested {inner : Site} (ho : c.Opens s inner) (h : c.Below inner t) :
    c.Nested s.pair t.pair :=
  let ⟨required, hm⟩ := h.member
  ⟨inner.pair, required, ho.reconcile, hm⟩

/-- Sites forget into pairs. With this, what is known about circles of pairs applies to code. What
    is in place is what no helper stands between, and that is decided by the two types alone. -/
theorem InPlace.unfolds (h : c.InPlace s t) : c.Unfolds s.pair t.pair := by
  cases h with
  | unfolded ho ht hc =>
    obtain ⟨required, hm⟩ := ht.member
    exact ⟨_, required, ⟨ho.reconcile, hm⟩, Or.inl hc⟩
  | wrapped ho ht =>
    obtain ⟨required, hm⟩ := ht.member
    refine ⟨_, required, ⟨ho.reconcile, hm⟩, Or.inr ?_⟩
    cases ht with
    | alternative hu _ hn _ => exact ⟨Registry.kind_of_union (unions_eq_ok.mp hu).1, hn⟩

/-- What calls a helper in the code of a site is nested in a pair that its own leads to. -/
theorem CallsAt.nested (h : c.CallsAt s t) : ∃ p, c.Reaches s.pair p ∧ c.Nested p t.pair := by
  obtain ⟨u, inner, hsu, ho, ht, -⟩ := h
  refine ⟨u.pair, reaches_of_unfolds ?_, ht.nested ho⟩
  exact ReflTransGen.lift Site.pair (fun _ _ => InPlace.unfolds) _ _ hsu

/-! ## Calls -/

/-- A call in the code of a nested site is either the one call of its helper, or made by code that
    was built in place. -/
theorem nested_calls (ht : t.Silent) (h : (c.nested emit t).Yields b) (hc : call ∈ b.calls) :
    ((c.callsHelper t.source t.target).Yields true ∧
      ∃ name, c.helperName t.source t.target = .ok name ∧ call = (name, [t.value])) ∨
    ((c.callsHelper t.source t.target).Yields false ∧ (emit t).Yields b) := by
  refine (nested_yields.mp h).imp (fun ⟨hcalls, name, hname, hb⟩ => ⟨hcalls, name, hname, ?_⟩) id
  rw [hb, Block.calls_cons, Site.store, Stmt.calls, ht.place, Expr.calls, Expr.callsAll, ht.value,
    Expr.callsAll, Block.calls_nil] at hc
  simpa using hc

/-- Every call in the code of a site is that of a helper, with the value of a nested site. It is for
    these calls that the search for helpers must have found something. -/
theorem attrWithin_calls : ∀ {levels : Nat} {s : Site} {b : Block}, s.Silent →
    (c.attrWithin levels s).Yields b → ∀ call ∈ b.calls,
      ∃ t, c.CallsAt s t ∧
        ∃ name, c.helperName t.source t.target = .ok name ∧ call = (name, [t.value]) := by
  intro levels
  -- By induction on the levels that the emitter may go down; without a level there is no code.
  induction levels with
  | zero => intro s b _ h; exact absurd h Walk.yields_exhausted
  | succ levels ih =>
    intro s b hs h call hcall
    -- A call further in is that of a site whose code is in place at `s`.
    have further : ∀ {t : Site}, c.InPlace s t → (∃ r, c.CallsAt t r ∧
        ∃ name, c.helperName r.source r.target = .ok name ∧ call = (name, [r.value])) →
        ∃ r, c.CallsAt s r ∧
          ∃ name, c.helperName r.source r.target = .ok name ∧ call = (name, [r.value]) := by
      rintro t hst ⟨r, ⟨u, inner, htu, hr⟩, hname⟩
      exact ⟨r, ⟨u, inner, .head hst htu, hr⟩, hname⟩
    obtain ⟨inner, ho, hbelow⟩ := attrVia_calls hs h hcall
    cases hbelow with
    | nested ht hsilent hcode hm =>
      rcases nested_calls hsilent hcode hm with ⟨hcalls, hname⟩ | ⟨hcalls, hcode⟩
      · exact ⟨_, ⟨s, inner, .refl, ho, ht, hcalls⟩, hname⟩
      · exact further (.unfolded ho ht hcalls) (ih hsilent hcode call hm)
    | wrapped ht hsilent hcode hm => exact further (.wrapped ho ht) (ih hsilent hcode call hm)

/-! ## All that is in place was built -/

theorem Member.kind {x : HelperSite} (h : c.Member p x) :
    ∃ kind, c.registry.kind p.1 = .ok kind ∧ kind.isPrimitive = false := by
  cases h with
  | element ha _ => exact ⟨.array, Registry.kind_of_elem ha, rfl⟩
  | key ha _ | entry ha _ => exact ⟨.map, Registry.kind_of_entry ha, rfl⟩
  | alternative hu _ => exact ⟨.union, Registry.kind_of_union (unions_eq_ok.mp hu).1, rfl⟩
  | field ha _ _ => exact ⟨.object, Registry.kind_of_view ha, rfl⟩

/-- A primitive is no box, so opening one leaves the source as it is. It may be the target that was
    opened. -/
theorem reconcile_source {inner : Pair} (h : c.registry.isPrimitive p.1 = .ok true)
    (hr : (c.reconcile p.1 p.2).Yields inner) : inner.1 = p.1 := by
  rcases reconcile_yields_iff.mp hr with ⟨-, rfl⟩ | ⟨-, ho, -⟩
  · rfl
  · rcases openBox?_eq_some ho with ⟨-, hsource, -⟩ | ⟨-, -, ho⟩
    · exact hsource
    · rw [Registry.isPrimitive_of_kind (Registry.kind_of_unbox ho)] at h
      cases h

/-- Nothing is nested in the conversion of a primitive. -/
theorem not_nested_of_isPrimitive (h : c.registry.isPrimitive p.1 = .ok true) :
    ¬ c.Nested p q := by
  intro hq
  obtain ⟨inner, required, hr, hm⟩ := hq
  obtain ⟨kind, hk, hp⟩ := hm.kind
  rw [reconcile_source h hr] at hk
  rw [Registry.isPrimitive_of_kind hk, hp] at h
  cases h

/-- The pair needs no code but that for a primitive, which is stored as it is or by a conversion of
    types. That the two are compatible has been seen to. -/
structure Elementary (c : Conversion) (p : Pair) : Prop where
  isPrimitive : c.registry.isPrimitive p.1 = .ok true
  compatible : (c.registry.compatible p.1 p.2 {}).Yields ()

/-- The member stands for a site that has been built: one that may call a helper, or one in a
    wrapper. -/
def BuiltAt (c : Conversion) (emit : Emit) (s : Site) (q : Pair) : Prop :=
  ∃ t code, t.pair = q ∧
    ((c.Below s t ∧ (c.nested emit t).Yields code) ∨ (c.Wraps s t ∧ (emit t).Yields code))

/-- An emitter of its own is run for the kind of the source. The only target kind that is treated
    before is `any`, which takes everything. -/
theorem ofKind_builds (h : (c.byKind emit s).Yields b) {kind target : Kind}
    (hs : c.registry.kind s.source = .ok kind) (ht : c.registry.kind s.target = .ok target)
    (hany : target ≠ .primitive .any) : (c.ofKind emit s kind).Yields b := by
  obtain ⟨kind', target', hs', ht', ⟨rfl, -, -⟩ | ⟨-, h⟩⟩ := byKind_yields.mp h
  · rw [ht] at ht'
    cases ht'
    exact absurd rfl hany
  · rw [hs] at hs'
    cases hs'
    exact h

/-- An alternative is compared, has a helper or is built in a wrapper, and which of these it is
    depends on the source alone. -/
theorem alternative_builds {u v : UnionType} {index : Nat} {x y : Attribute}
    (hu : c.unions s.source s.target = .ok (u, v))
    (hxy : (x, y) ∈ (u.2.map Prod.snd).zip (v.2.map Prod.snd))
    (h : (c.alternative emit s v index x y).Yields b) :
    c.Elementary (x, y) ∨ c.BuiltAt emit s (x, y) := by
  rcases alternative_yields.mp h with ⟨hn, hcode⟩ | ⟨hn, -, -, ⟨hp, hc, -⟩ | ⟨hp, code, hcode, -⟩⟩
  · exact Or.inr ⟨_, b, rfl, Or.inl ⟨.alternative hu hxy hn, hcode⟩⟩
  · have hc := compatible_yields.mp hc
    exact Or.inl ⟨hp, hc⟩
  · exact Or.inr ⟨_, code, rfl, Or.inr ⟨.alternative hu hxy hn hp, hcode⟩⟩

/-- The second round over the fields builds those that are not primitives on both sides. It calls a
    helper for the field or has its code in place, and in both cases the site of the field has been
    converted. -/
theorem laterValue_builds {v w : ObjectView} {m : FieldMatch} {f : FieldSite}
    (hv : ObjectView.of? c.registry s.source = .ok (some v))
    (hw : ObjectView.of? c.registry s.target = .ok (some w)) (hm : m ∈ matchFields v w)
    (hf : (c.fieldSite s v w m).Yields f) (h : (c.laterValue emit s.depth f).Yields b) :
    c.Elementary (m.source, m.target) ∨ c.BuiltAt emit s (m.source, m.target) := by
  have hof := fieldSite_describes hf
  unfold laterValue at h
  split at h
  · rename_i hp
    have hcompatible := hof.compatible hp
    rw [FieldSite.isPrimitive, Bool.and_eq_true] at hp
    rw [← hof.source, ← hof.target]
    exact Or.inl ⟨hp.1 ▸ hof.sourcePrimitive, hcompatible⟩
  · rename_i hp
    obtain ⟨code, hcode, -⟩ := structuredField_yields.mp h
    have hpair : (f.site s.depth).pair = (m.source, m.target) := by
      rw [Site.pair, FieldSite.site, hof.source, hof.target]
    exact Or.inr ⟨_, code, hpair, Or.inl ⟨.field hv hw hm hf (by simpa using hp), hcode⟩⟩

/-- Every member was built at some site, but for fields and alternatives that are primitives. Fields
    and alternatives that are primitives are converted by an expression, without a site of their
    own. -/
theorem byKind_builds (h : (c.byKind emit s).Yields b) {x : HelperSite}
    (hx : c.Member s.pair x) :
    c.Elementary (x.source, x.target) ∨ c.BuiltAt emit s (x.source, x.target) := by
  obtain ⟨source, target, value, place, declare, depth, inBox⟩ := s
  -- In each case what the code was built from is what the member was found in.
  cases hx with
  | element ha hb =>
    have h := ofKind_builds h (Registry.kind_of_elem ha) (Registry.kind_of_elem hb) (by simp)
    obtain ⟨x, y, type, body, hx, hy, -, hbody, -⟩ := array_yields.mp h
    rw [ha] at hx
    rw [hb] at hy
    cases hx
    cases hy
    exact Or.inr ⟨_, body, rfl, Or.inl ⟨.element ha hb, hbody⟩⟩
  | key ha hb =>
    have h := ofKind_builds h (Registry.kind_of_entry ha) (Registry.kind_of_entry hb) (by simp)
    obtain ⟨k, x, l, y, -, -, keyCode, -, hx, hy, -, -, hk, -, -⟩ := map_yields.mp h
    rw [ha] at hx
    rw [hb] at hy
    cases hx
    cases hy
    exact Or.inr ⟨_, keyCode, rfl, Or.inl ⟨.key ha hb, hk⟩⟩
  | entry ha hb =>
    have h := ofKind_builds h (Registry.kind_of_entry ha) (Registry.kind_of_entry hb) (by simp)
    obtain ⟨k, x, l, y, -, -, -, elemCode, hx, hy, -, -, -, he, -⟩ := map_yields.mp h
    rw [ha] at hx
    rw [hb] at hy
    cases hx
    cases hy
    exact Or.inr ⟨_, elemCode, rfl, Or.inl ⟨.entry ha hb, he⟩⟩
  | alternative hu hxy =>
    obtain ⟨ha, hb, -⟩ := unions_eq_ok.mp hu
    have h := ofKind_builds h (Registry.kind_of_union ha) (Registry.kind_of_union hb) (by simp)
    obtain ⟨u, v, -, cases, hu', -, hcases, -⟩ := union_yields h
    rw [hu] at hu'
    cases hu'
    obtain ⟨_, -, index, hcode⟩ := forall₂_mem_left (cases_yields hcases) hxy
    exact alternative_builds hu hxy hcode
  -- Fields are built in two rounds, but every field has its turn in the second, if only to test for
  -- nil.
  | field ha hb hm =>
    have h := ofKind_builds h (Registry.kind_of_view ha) (Registry.kind_of_view hb) (by simp)
    obtain ⟨v, w, fields, -, -, later, hv, hw, hfields, -, -, hlater, -⟩ := object_yields h
    rw [ha] at hv
    rw [hb] at hw
    cases hv
    cases hw
    obtain ⟨f, hf, hfm⟩ := forall₂_mem_left hfields hm
    obtain ⟨parts, -, hparts⟩ := laterFields_yields hlater
    obtain ⟨_, -, hcode, -⟩ := forall₂_mem_left hparts hf
    exact laterValue_builds ha hb hm hfm hcode

/-- An alternative that may call a helper is a named object. All others are put in a wrapper, with
    their code in place. -/
theorem Below.isNamedObject (h : c.Below s t) (hk : c.registry.kind s.source = .ok .union) :
    c.scope.isNamedObject t.source = .ok true := by
  cases h with
  | element hx _ => simp [Registry.kind_of_elem hx] at hk
  | key hx _ | entry hx _ => simp [Registry.kind_of_entry hx] at hk
  | field hv _ _ _ _ => simp [Registry.kind_of_view hv] at hk
  | alternative _ _ hn => exact hn

/-- What a conversion unfolds is a primitive, or was built in place. This is how an emitter that
    came to an end bounds the circles below its pair. -/
theorem attrVia_inPlace (h : (c.attrVia emit s).Yields b) (hq : c.Unfolds s.pair q) :
    c.registry.isPrimitive q.1 = .ok true ∨
      ∃ t code, t.pair = q ∧ c.InPlace s t ∧ (emit t).Yields code := by
  obtain ⟨inner, box, code, ho, hcode, -, -⟩ := attrVia_yields h
  obtain ⟨inner', required, ⟨hr, hm⟩, hplace⟩ := hq
  obtain rfl := hr.unique ho.reconcile
  refine (byKind_builds hcode hm).imp Elementary.isPrimitive ?_
  intro h
  obtain ⟨t, code, ht, ⟨hbelow, hcode⟩ | ⟨hwraps, hcode⟩⟩ := h
  · obtain rfl : t.pair = q := ht
    rcases nested_yields.mp hcode with ⟨hcalls, -⟩ | ⟨hcalls, hcode⟩
    · -- A helper is called, so the pair can only be unfolded in a wrapper. There is none at `t`.
      rcases hplace with hplace | ⟨hunion, hn⟩
      · exact absurd (hcalls.unique hplace) (by simp)
      · have hn' := hbelow.isNamedObject hunion
        rw [show t.source = t.pair.1 from rfl, hn] at hn'
        simp at hn'
    · exact ⟨t, code, rfl, .unfolded ho hbelow hcalls, hcode⟩
  · exact ⟨t, code, ht, .wrapped ho hwraps, hcode⟩

/-! ## Building ends -/

/-- All that the code of a compatible site asks for comes to an end: the comparisons, and the code
    of whatever is nested in it without a helper. -/
structure EndsBelow (c : Conversion) (emit : Emit) (s : Site) : Prop where
  compares : ∀ x y required, c.Member s.pair ⟨x, y, required⟩ →
    (c.registry.compatible x y {}).Finishes
  below : ∀ t, c.Below s t → (c.callsHelper t.source t.target).Yields false → (emit t).Finishes
  wraps : ∀ t, c.Wraps s t → (emit t).Finishes

section EndsBelow

variable (h : c.EndsBelow emit s)
include h

theorem EndsBelow.nested (ht : c.Below s t) : (c.nested emit t).Finishes := by
  obtain ⟨required, hm⟩ := ht.member
  unfold Conversion.nested
  simp only [Walk.finishes_bind]
  refine ⟨callsHelper_finishes (p := t.pair) (h.compares _ _ required hm), fun calls hcalls => ?_⟩
  cases calls with
  | true => simp
  | false => exact h.below t ht hcalls

theorem array_finishes : (c.array emit s).Finishes := by
  unfold array
  simp only [Walk.finishes_bind, Walk.finishes_liftM, Walk.yields_liftM, true_and]
  intro x hx y hy
  split
  · simp only [Walk.finishes_bind, Walk.finishes_liftM, Walk.finishes_pure, implies_true, and_true,
      true_and]
    exact fun _ _ => h.nested (.element hx hy)
  · simp

theorem map_finishes : (c.map emit s).Finishes := by
  unfold map
  simp only [Walk.finishes_bind, Walk.finishes_liftM, Walk.yields_liftM, true_and]
  intro x hx y hy
  split
  · simp only [Walk.finishes_bind, Walk.finishes_liftM, Walk.finishes_pure, implies_true, and_true,
      true_and]
    exact fun _ _ _ _ => ⟨h.nested (.key hx hy), fun _ _ => h.nested (.entry hx hy)⟩
  · simp

theorem alternative_finishes {u v : UnionType} {index : Nat} {x y : Attribute}
    (hu : c.unions s.source s.target = .ok (u, v))
    (hxy : (x, y) ∈ (u.2.map Prod.snd).zip (v.2.map Prod.snd)) :
    (c.alternative emit s v index x y).Finishes := by
  unfold alternative
  simp only [Walk.finishes_bind, Walk.finishes_liftM, Walk.yields_liftM, true_and]
  intro isNamed hn
  -- For each way to store the alternative the premise says in its own constructor that the work
  -- there ends.
  cases isNamed with
  | true => exact h.nested (.alternative hu hxy hn)
  | false =>
    simp only [Bool.false_eq_true, ↓reduceIte, Walk.finishes_bind, Walk.finishes_liftM,
      Walk.yields_liftM, true_and]
    intro wrapper _ isPrimitive hp
    cases isPrimitive with
    | true =>
      simp only [↓reduceIte, Walk.finishes_bind, Walk.finishes_pure, implies_true, and_true]
      exact compatible_finishes.mpr (h.compares _ _ true (.alternative hu hxy))
    | false =>
      simp only [Bool.false_eq_true, ↓reduceIte, Walk.finishes_bind, Walk.finishes_pure,
        implies_true, and_true]
      exact h.wraps _ (.alternative hu hxy hn hp)

/-- The alternatives are built one after another. The hypothesis speaks of all pairs of the two
    unions, so it is enough that those still to be built are among them. -/
theorem cases_finishes {u v : UnionType} (hu : c.unions s.source s.target = .ok (u, v)) :
    ∀ {pairs : List (Attribute × Attribute)} {index : Nat},
      pairs ⊆ (u.2.map Prod.snd).zip (v.2.map Prod.snd) →
      (c.cases emit s u v index pairs).Finishes := by
  intro pairs
  induction pairs with
  | nil => intro index _; exact Walk.finishes_pure
  | cons q rest ih =>
    intro index hsub
    rw [List.cons_subset] at hsub
    rw [Conversion.cases]
    simp only [Walk.finishes_bind, Walk.finishes_liftM, Walk.finishes_pure, implies_true, and_true,
      true_and]
    exact fun _ _ => ⟨alternative_finishes h hu hsub.1, fun _ _ => ih hsub.2⟩

theorem union_finishes : (c.union emit s).Finishes := by
  unfold union
  simp only [Walk.finishes_bind, Walk.finishes_liftM, Walk.yields_liftM, Walk.finishes_pure,
    implies_true, and_true, true_and]
  rintro ⟨u, v⟩ hu
  refine ⟨?_, fun _ _ => cases_finishes h hu (List.Subset.refl _)⟩
  unfold declaration
  split
  · split
    · simp
    · simp
  · simp

theorem fieldSite_finishes {v w : ObjectView} {m : FieldMatch}
    (hv : ObjectView.of? c.registry s.source = .ok (some v))
    (hw : ObjectView.of? c.registry s.target = .ok (some w)) (hm : m ∈ matchFields v w) :
    (c.fieldSite s v w m).Finishes := by
  unfold fieldSite
  simp only [Walk.finishes_bind, Walk.finishes_liftM, true_and]
  intro sourcePrimitive _ targetPrimitive _
  have hc := h.compares _ _ _ (.field hv hw hm)
  split
  · simp only [Walk.finishes_bind, Walk.finishes_liftM, Walk.finishes_pure, implies_true, and_true]
    exact (Registry.compatible_finishes_congr _ _).mp hc
  · simp

omit h in
/-- Stated without `EndsBelow`, since a list of fields is all that is left of the object here. -/
theorem laterFields_finishes {depth : Nat} : ∀ {fields : List FieldSite},
    (∀ f ∈ fields, f.isPrimitive = false → (c.nested emit (f.site depth)).Finishes) →
      (c.laterFields emit depth fields).Finishes := by
  intro fields
  induction fields with
  | nil => intro _; exact Walk.finishes_pure
  | cons f rest ih =>
    intro hf
    rw [List.forall_mem_cons] at hf
    rw [laterFields]
    simp only [Walk.finishes_bind, Walk.finishes_liftM, Walk.finishes_pure, implies_true, and_true,
      true_and]
    refine ⟨?_, fun _ _ _ _ => ih hf.2⟩
    unfold laterValue
    split
    · simp
    · rename_i hp
      unfold structuredField
      simp only [Walk.finishes_bind]
      refine ⟨hf.1 (by simpa using hp), fun code _ => ?_⟩
      split
      · simp
      · simp

theorem object_finishes : (c.object emit s).Finishes := by
  unfold object
  simp only [Walk.finishes_bind, Walk.finishes_liftM, Walk.yields_liftM, true_and]
  intro v hv
  cases v with
  | none => simp
  | some v =>
    simp only [Walk.finishes_bind, Walk.finishes_liftM, Walk.yields_liftM, true_and]
    intro w hw
    cases w with
    | none => simp
    | some w =>
      simp only [Walk.finishes_bind, Walk.finishes_liftM, Walk.finishes_pure, implies_true,
        and_true, true_and, Walk.yields_mapM]
      refine ⟨Walk.finishes_mapM fun m hm => fieldSite_finishes h hv hw hm, ?_⟩
      intro fields hfields code _ type _
      refine laterFields_finishes fun f hf hp => ?_
      obtain ⟨m, hm, hfm⟩ := forall₂_mem_right hfields hf
      exact h.nested (.field hv hw hm hfm hp)

theorem byKind_finishes : (c.byKind emit s).Finishes := by
  unfold byKind
  simp only [Walk.finishes_bind, Walk.finishes_liftM, true_and]
  intro kind _ target _
  split
  · simp
  · cases kind with
    | array => exact array_finishes h
    | map => exact map_finishes h
    | object => exact object_finishes h
    | union => exact union_finishes h
    | primitive p => simp [ofKind, primitive]

end EndsBelow

/-- Building the code of a site ends if the comparisons do that it asks for and the building of what
    it has in place. It is one level of the proof that emitters end, for whatever reason they do. -/
theorem attrVia_finishes
    (hask : ∀ r, c.Asks s.pair r → (c.registry.compatible r.1 r.2 {}).Finishes)
    (hnested : ∀ q, c.Nested s.pair q → (c.registry.compatible q.1 q.2 {}).Finishes)
    (hemit : ∀ t, c.InPlace s t → (emit t).Finishes) : (c.attrVia emit s).Finishes := by
  -- The members of an opened site are nested in `s`, so the hypotheses speak of them.
  have ends : ∀ {inner : Site}, c.Opens s inner → c.EndsBelow emit inner := by
    intro inner ho
    exact ⟨fun x y required hx => hnested (x, y) ⟨inner.pair, required, ho.reconcile, hx⟩,
      fun t ht hc => hemit t (.unfolded ho ht hc), fun t ht => hemit t (.wrapped ho ht)⟩
  unfold attrVia
  simp only [Walk.finishes_bind, Walk.finishes_outcome, Walk.yields_outcome]
  refine ⟨compatible_finishes.mpr (hask s.pair .plain), fun o ho => ?_⟩
  cases o with
  | ok u => exact byKind_finishes (ends (.plain ho))
  | error why =>
    dsimp only
    split
    · simp
    · rename_i hin
      have hfails : (c.registry.compatible s.pair.1 s.pair.2 {}).Fails :=
        compatible_fails.mp ⟨why, ho⟩
      simp only [Walk.finishes_bind, Walk.finishes_pure, implies_true, and_true]
      refine ⟨?_, fun x hx => ?_⟩
      · unfold unboxed
        split
        · simp only [Walk.finishes_bind, Walk.finishes_liftM, true_and]
          intro opened _
          cases opened with
          | none => simp
          | some content => simp
        · simp only [Walk.finishes_bind, Walk.finishes_liftM, true_and]
          intro opened _
          cases opened with
          | none => simp
          | some content => simp
      · obtain ⟨box, inner⟩ := x
        have hopen := (unboxed_yields hx).opened
        have hinner : (c.registry.compatible inner.source inner.target {}).Finishes :=
          hask inner.pair (.opened hfails hopen)
        refine ⟨compatible_finishes.mpr hinner, fun u hu => ?_⟩
        exact byKind_finishes (ends (.boxed ⟨why, ho⟩ (by simpa using hin) hx hu))

end Conversion
end Shapewright
