import Shapewright.Proofs.Conversion.Faults
import Shapewright.Proofs.Conversion.Termination
import Shapewright.Proofs.Layout
import Shapewright.Proofs.Symmetry

/-!
# Conversions back

What is written for a wire is meant to be read back from it. The conversion that reads may open the
boxes that the conversion that writes may make, so both lead to the same pairs of attributes, each
seen from the other side: a pair fits one way if it fits the other way, as long as the primitive
`any` is not among what is compared.

There is one exception. No box is made for a primitive alternative of a union, while such a box is
opened where it is read. So what cannot be written can sometimes be read.

## How the two are compared

Acceptance is not symmetric, as a comparison that succeeds may have a counterpart without end. But
both conversions are assumed to end, and then what one of them accepts the other does not refuse
(`Reversible.not_fails_swap`). So the proof follows what fails: if reading back leads to a pair that
does not fit, so does writing, at the same pair or at one where a comparison went wrong before.

Matched fields are the same both ways only if no object has two fields of one name, as each field
takes the first of its name on the other side. This is the part of `Registry.Reversible` that is not
about `any`.
-/

namespace Shapewright

/-- What makes comparisons work both ways, for both attributes of a pair: no `any` can be reached,
    which takes every value and gives none, and no object declares a field twice. -/
structure Registry.Reversible (reg : Registry) (p : Pair) : Prop where
  source : reg.NoAny p.1
  target : reg.NoAny p.2
  sourceFields : reg.DistinctFields p.1
  targetFields : reg.DistinctFields p.2

/-- Both attributes of the second pair are reached from those of the first. -/
structure Registry.SpansBoth (reg : Registry) (p q : Pair) : Prop where
  source : reg.Spans p.1 q.1
  target : reg.Spans p.2 q.2

namespace Registry

variable {reg : Registry} {p q : Pair}

/-- Whether an attribute is neither the primitive `any` nor an object with two fields of one name.
    This can be computed, and of all that is reached. -/
def isPlain (a : Attribute) : Bool :=
  match a.type with
  | .primitive p => p ≠ .any
  | .object fields => (fields.map Prod.fst).Nodup
  | _ => true

/-- Where no attribute stands in the way, comparisons work both ways. What stands in the way is the
    primitive `any`, which fits in one direction only, and a field that is declared twice. -/
theorem reversible_of_isPlain (h : ∀ x ∈ reg.standing p.1 ++ reg.standing p.2, isPlain x) :
    reg.Reversible p := by
  have noAny : ∀ {x}, isPlain x → x.type ≠ .primitive .any := by
    intro x hx ht
    simp [isPlain, ht] at hx
  have distinct : ∀ {x fields}, isPlain x → x.type = .object fields →
      (fields.map Prod.fst).Nodup := by
    intro x fields hx ht
    simpa [isPlain, ht] using hx
  have source : ∀ {x}, reg.Spans p.1 x → isPlain x := fun hx =>
    h _ (List.mem_append_left _ (mem_standing_of_spans hx))
  have target : ∀ {x}, reg.Spans p.2 x → isPlain x := fun hx =>
    h _ (List.mem_append_right _ (mem_standing_of_spans hx))
  exact ⟨fun _ hx => noAny (source hx), fun _ hx => noAny (target hx),
    fun _ _ hx => distinct (source hx), fun _ _ hx => distinct (target hx)⟩

theorem Reversible.swap (h : reg.Reversible p) : reg.Reversible p.swap :=
  ⟨h.target, h.source, h.targetFields, h.sourceFields⟩

theorem Reversible.of_spans (h : reg.Reversible p) (hq : reg.SpansBoth p q) : reg.Reversible q where
  source := h.source.of_spans hq.source
  target := h.target.of_spans hq.target
  sourceFields := h.sourceFields.of_spans hq.source
  targetFields := h.targetFields.of_spans hq.target

theorem Reversible.not_fails_swap (h : reg.Reversible p)
    (hp : (reg.compatible p.1 p.2 {}).Yields ()) :
    ¬ (reg.compatible p.swap.1 p.swap.2 {}).Fails :=
  not_compatible_fails_swap h.source h.target hp

end Registry

namespace Conversion

open Relation

variable {c d : Conversion} {p q r inner : Pair}

/-! ## What is reached from a pair -/

theorem Member.spans {x : HelperSite} (h : c.Member p x) : c.registry.SpansBoth p x.pair := by
  cases h with
  | element ha hb => exact ⟨Registry.spans_elem ha, Registry.spans_elem hb⟩
  | key ha hb => exact ⟨(Registry.spans_entry ha).1, (Registry.spans_entry hb).1⟩
  | entry ha hb => exact ⟨(Registry.spans_entry ha).2, (Registry.spans_entry hb).2⟩
  | alternative hu hxy =>
    obtain ⟨ha, hb, -⟩ := unions_eq_ok.mp hu
    exact ⟨Registry.spans_alternative ha (List.of_mem_zip hxy).1,
      Registry.spans_alternative hb (List.of_mem_zip hxy).2⟩
  | field ha hb hm =>
    exact ⟨Registry.spans_field ha (mem_matchFields hm).1,
      Registry.spans_field hb (mem_matchFields hm).2⟩

theorem spans_of_openBox (h : c.openBox? p.1 p.2 = .ok (some q)) : c.registry.SpansBoth p q := by
  rcases openBox?_eq_some h with ⟨-, hsource, ho⟩ | ⟨-, htarget, ho⟩
  · exact ⟨hsource ▸ .refl, Registry.spans_content ho⟩
  · exact ⟨Registry.spans_content ho, htarget ▸ .refl⟩

theorem spans_of_reconcile (h : (c.reconcile p.1 p.2).Yields q) : c.registry.SpansBoth p q := by
  rcases reconcile_yields_iff.mp h with ⟨-, rfl⟩ | ⟨-, ho, -⟩
  · exact ⟨.refl, .refl⟩
  · exact spans_of_openBox ho

/-- What a conversion leads to is reached from both sides, so that it is reversible if the request
    is. -/
theorem Reaches.spans (h : c.Reaches p q) : c.registry.SpansBoth p q := by
  induction h with
  | refl => exact ⟨.refl, .refl⟩
  | tail _ hqr ih =>
    obtain ⟨inner, required, hr, hm⟩ := hqr
    have hinner := spans_of_reconcile hr
    have hr := hm.spans
    exact ⟨(ih.source.trans hinner.source).trans hr.source,
      (ih.target.trans hinner.target).trans hr.target⟩

/-! ## The conversion back -/

/-- The second conversion goes back: its wire is the other side. The representations of the two
    sides and the names of helpers have no part in whether types fit. -/
structure Mirrors (c d : Conversion) : Prop where
  scope : d.scope = c.scope
  wire : d.wire ≠ c.wire

theorem Mirrors.symm (h : c.Mirrors d) : d.Mirrors c := ⟨h.scope.symm, h.wire.symm⟩

section Mirrors

variable (h : c.Mirrors d)
include h

theorem Mirrors.registry : d.registry = c.registry := congrArg Scope.registry h.scope

/-- Both conversions look for a box on the same side of the wire, which is the source of one and the
    target of the other. -/
theorem Mirrors.openBox?_eq (a b : Attribute) :
    d.openBox? b a = (c.openBox? a b).map (Option.map Prod.swap) := by
  have hwire := h.wire
  unfold openBox?
  rw [h.registry]
  cases hc : c.wire with
  | source =>
    obtain hd : d.wire = .target := by cases hd : d.wire <;> simp_all
    rw [hd]
    cases c.registry.unbox? a with
    | error _ => rfl
    | ok o => cases o <;> rfl
  | target =>
    obtain hd : d.wire = .source := by cases hd : d.wire <;> simp_all
    rw [hd]
    cases c.registry.unbox? b with
    | error _ => rfl
    | ok o => cases o <;> rfl

theorem Mirrors.openBox?_swap (hq : c.openBox? p.1 p.2 = .ok (some q)) :
    d.openBox? p.swap.1 p.swap.2 = .ok (some q.swap) := by
  rw [Prod.fst_swap, Prod.snd_swap, h.openBox?_eq, hq]
  rfl

theorem Mirrors.unions_swap {a b : Attribute} {u v : UnionType} (hu : c.unions a b = .ok (u, v)) :
    d.unions b a = .ok (v, u) := by
  obtain ⟨hu, hv, hl⟩ := unions_eq_ok.mp hu
  exact unions_eq_ok.mpr ⟨h.registry ▸ hv, h.registry ▸ hu, hl.symm⟩

/-- Where boxes are opened one way, so are they the other way. If both conversions find something
    that fits, it is the same. -/
theorem Mirrors.reconcile_swap (hp : c.registry.Reversible p)
    (hc : (c.reconcile p.1 p.2).Yields q) (hd : (d.reconcile p.swap.1 p.swap.2).Yields r) :
    r = q.swap := by
  rcases reconcile_yields_iff.mp hc with ⟨hc, rfl⟩ | ⟨hc, ho, -⟩
  · rcases reconcile_yields_iff.mp hd with ⟨-, rfl⟩ | ⟨hd, -, -⟩
    · rfl
    · exact absurd (h.registry ▸ hd) (hp.not_fails_swap hc)
  · rcases reconcile_yields_iff.mp hd with ⟨hd, -⟩ | ⟨-, ho', -⟩
    · exact absurd hc (hp.swap.not_fails_swap (h.registry ▸ hd))
    · rw [h.openBox?_swap ho] at ho'
      cases ho'
      rfl

end Mirrors

theorem mem_zip_swap {α : Type} {xs ys : List α} {x y : α} (h : (x, y) ∈ xs.zip ys) :
    (y, x) ∈ ys.zip xs := by
  rw [← List.zip_swap]
  exact List.mem_map_of_mem (f := Prod.swap) h

theorem mem_matchFields_swap {v w : ObjectView} {m : FieldMatch}
    (hv : (v.fields.map Prod.fst).Nodup) (h : m ∈ matchFields v w) :
    ⟨m.name, m.target, m.source⟩ ∈ matchFields w v := by
  obtain ⟨hs, ht⟩ := mem_fields_of_mem_matchFields h
  exact mem_matchFields_of_mem (Ordered.mem_of_get? ht) (Ordered.get?_of_mem hv hs)

/-- The members of a pair are those of the pair the other way round. The flag of a member is that of
    the source, so it can be another one in the other direction. -/
theorem Mirrors.member_swap (h : c.Mirrors d) (hp : c.registry.Reversible p) {x : HelperSite}
    (hx : c.Member p x) : ∃ required, d.Member p.swap ⟨x.target, x.source, required⟩ := by
  have hreg := h.registry
  cases hx with
  | element ha hb => exact ⟨false, .element (hreg ▸ hb) (hreg ▸ ha)⟩
  | key ha hb => exact ⟨false, .key (hreg ▸ hb) (hreg ▸ ha)⟩
  | entry ha hb => exact ⟨false, .entry (hreg ▸ hb) (hreg ▸ ha)⟩
  | alternative hu hxy =>
    exact ⟨true, .alternative (h.unions_swap hu) (mem_zip_swap hxy)⟩
  | field ha hb hm =>
    exact ⟨_, .field (hreg ▸ hb) (hreg ▸ ha)
      (mem_matchFields_swap (hp.sourceFields.nodup ha) hm)⟩

/-! ## Pairs that fit -/

/-- Nothing stops the conversion of the pair itself. It is the negation of `Unfit` with all walks
    known to end. -/
structure Fits (c : Conversion) (p : Pair) : Prop where
  reconciled : ∃ inner, (c.reconcile p.1 p.2).Yields inner
  arity : ∀ {inner u v}, (c.reconcile p.1 p.2).Yields inner →
    c.registry.union? inner.1 = .ok (some u) → c.registry.union? inner.2 = .ok (some v) →
    u.2.length = v.2.length
  alternative : ∀ {inner u v x y}, (c.reconcile p.1 p.2).Yields inner →
    c.unions inner.1 inner.2 = .ok (u, v) →
    (x, y) ∈ (u.2.map Prod.snd).zip (v.2.map Prod.snd) → c.registry.isPrimitive x = .ok true →
    (c.registry.compatible x y {}).Yields ()

/-- The code of a union was built from the two unions of the pair, which have as many
    alternatives. -/
theorem Built.unions {u v : UnionType} (h : c.Built p) (hr : (c.reconcile p.1 p.2).Yields inner)
    (hu : c.registry.union? inner.1 = .ok (some u))
    (hv : c.registry.union? inner.2 = .ok (some v)) :
    c.unions inner.1 inner.2 = .ok (u, v) ∧
      ∃ emit s cases, (c.cases emit s u v 0 ((u.2.map Prod.snd).zip (v.2.map Prod.snd))).Yields
        cases := by
  obtain ⟨levels, s, code, rfl, hcode⟩ := h
  -- Without levels there is no code, so the pair was reconciled, and its kinds say that a union was
  -- built.
  cases levels with
  | zero => exact absurd hcode Walk.yields_exhausted
  | succ levels =>
    obtain ⟨t, box, code, ho, hcode, -, -⟩ := attrVia_yields hcode
    obtain rfl := hr.unique ho.reconcile
    have hcode := ofKind_builds hcode (Registry.kind_of_union hu) (Registry.kind_of_union hv)
      (by simp)
    obtain ⟨u', v', declared, cases, huv, -, hcases, -⟩ := union_yields hcode
    obtain ⟨hu', hv', -⟩ := unions_eq_ok.mp huv
    rw [Site.pair] at hu hv
    rw [hu] at hu'
    rw [hv] at hv'
    cases hu'
    cases hv'
    exact ⟨huv, _, t, cases, hcases⟩

/-- The comparison of a primitive alternative is part of the code, so it went well. The comparison
    is made without a box, and that is where the two directions can differ. -/
theorem Built.alternative {u v : UnionType} {x y : Attribute} (h : c.Built p)
    (hr : (c.reconcile p.1 p.2).Yields inner) (huv : c.unions inner.1 inner.2 = .ok (u, v))
    (hxy : (x, y) ∈ (u.2.map Prod.snd).zip (v.2.map Prod.snd))
    (hx : c.registry.isPrimitive x = .ok true) : (c.registry.compatible x y {}).Yields () := by
  obtain ⟨hu, hv, -⟩ := unions_eq_ok.mp huv
  obtain ⟨-, emit, s, cases, hcases⟩ := h.unions hr hu hv
  obtain ⟨_, -, index, hcode⟩ := forall₂_mem_left (cases_yields hcases) hxy
  rcases alternative_yields.mp hcode with ⟨hn, -⟩ | ⟨-, -, -, ⟨-, hc, -⟩ | ⟨hp, -⟩⟩
  · have hk : c.registry.kind x = .ok .object := (Scope.isNamedObject_eq_true.mp hn).2
    rw [Registry.isPrimitive_of_kind hk] at hx
    cases hx
  · exact (compatible_yields (s := s.alternative x y)).mp hc
  · rw [hx] at hp
    cases hp

/-- A primitive alternative of the pair's first union faces one that is no primitive. It can be read
    if that is a box, but never written. -/
inductive Uneven (c : Conversion) (p : Pair) : Prop where
  | alternative {inner : Pair} {u v : UnionType} {x y : Attribute}
      (hr : (c.reconcile p.1 p.2).Yields inner) (hu : c.unions inner.1 inner.2 = .ok (u, v))
      (hxy : (x, y) ∈ (u.2.map Prod.snd).zip (v.2.map Prod.snd))
      (hx : c.registry.isPrimitive x = .ok true) (hy : c.registry.isPrimitive y = .ok false) :
      Uneven c p

/-- Whatever a request leads to fits, if the request succeeds and names tell the pairs apart.
    Otherwise a pair could be taken for one met before and not be looked at. -/
theorem fits_of_reaches {found : List Finding} {helpers : List Helper} {met : List String}
    (hn : c.NamesApart p) (hfound : (c.collect note p.1 p.2).Yields [] found met)
    (hmade : MadeOf c.helper found helpers) (hp : c.Built p) (hq : c.Reaches p q) : c.Fits q := by
  -- Primitives need no code, and have no alternatives.
  have built : ∀ {inner u}, (c.reconcile q.1 q.2).Yields inner →
      c.registry.union? inner.1 = .ok (some u) → c.Built q := by
    intro inner u hr hu
    refine (built_of_reaches hn hfound hmade hp hq).resolve_left fun hprimitive => ?_
    rw [← reconcile_source hprimitive hr,
      Registry.isPrimitive_of_kind (Registry.kind_of_union hu)] at hprimitive
    cases hprimitive
  constructor
  case reconciled => exact (expanded_of_reaches hn hfound hq).reconciled
  case arity =>
    intro inner u v hr hu hv
    exact (unions_eq_ok.mp ((built hr hu).unions hr hu hv).1).2.2
  case alternative =>
    intro inner u v x y hr huv hxy hx
    exact (built hr (unions_eq_ok.mp huv).1).alternative hr huv hxy hx

theorem fits_of_compile {s : Site} {out : Compiled} {met : List String} (hn : c.NamesApart s.pair)
    (h : (c.compile s).Yields [] out met) (hq : c.Reaches s.pair q) : c.Fits q := by
  obtain ⟨hbody, made, hmade, -⟩ := compile_yields.mp h
  obtain ⟨found, hfound, hmadeOf⟩ := collect_factors (p := s.pair) hmade
  exact fits_of_reaches hn hfound hmadeOf ⟨_, s, _, rfl, hbody⟩ hq

/-! ## Both ways -/

section Mirrors

variable (h : c.Mirrors d) (hp : c.registry.Reversible p)
include h hp

/-- Where all fits one way, the other way leads to the same pairs. By induction along the way there,
    which has a member for each member of the way back. -/
theorem Mirrors.reaches_swap (hfits : ∀ r, c.Reaches p r → c.Fits r) (hq : d.Reaches p.swap q) :
    c.Reaches p q.swap := by
  -- Step by step: what is reached one way fits, so the box opened there is the one opened the other
  -- way.
  induction hq with
  | refl => exact .refl
  | @tail q r _ hqr ih =>
    obtain ⟨inner, required, hr, hm⟩ := hqr
    obtain ⟨opened, ho⟩ := (hfits _ ih).reconciled
    have hq := hp.of_spans ih.spans
    obtain rfl : inner = opened.swap := h.reconcile_swap hq ho hr
    have hopened := hq.of_spans (spans_of_reconcile ho)
    have hback : d.registry.Reversible opened.swap := h.registry ▸ hopened.swap
    obtain ⟨required', hx⟩ := h.symm.member_swap hback hm
    exact ih.tail ⟨opened, required', ho, hx⟩

/-- What fits one way is stopped the other way by uneven alternatives at most. Every other reason
    not to fit would have shown in the first direction. -/
theorem Mirrors.unfit_swap (hs : d.registry.Sound) (hr : d.registry.ResolvesBoth p.swap)
    (hfits : c.Fits p) (hd : d.Unfit p.swap) : d.Uneven p.swap := by
  obtain ⟨inner, ho⟩ := hfits.reconciled
  have hinner := hp.of_spans (spans_of_reconcile ho)
  -- Comparisons read the same both ways, so two of the three ways to be unfit are excluded by what
  -- fits here. The third is about primitive alternatives, where only one direction looks into
  -- boxes.
  cases hd with
  | refused hf =>
    obtain ⟨hplain, hopened⟩ := reconcile_fails_iff.mp hf
    rcases reconcile_yields_iff.mp ho with ⟨hc, -⟩ | ⟨-, ho, hc⟩
    · exact absurd (h.registry ▸ hplain) (hp.not_fails_swap hc)
    · exact absurd (h.registry ▸ hopened _ (h.openBox?_swap ho)) (hinner.not_fails_swap hc)
  | arity ho' hu hv hne =>
    obtain rfl := h.reconcile_swap hp ho ho'
    exact absurd (hfits.arity ho (h.registry ▸ hv) (h.registry ▸ hu)).symm hne
  | @alternative _ u v x y ho' huv hxy hx hf =>
    obtain rfl := h.reconcile_swap hp ho ho'
    -- Were the other alternative primitive too, this direction would have compared the two as they
    -- are.
    have hy : d.registry.isPrimitive y ≠ .ok true := by
      intro hy
      have huv := h.symm.unions_swap huv
      have hyx := mem_zip_swap hxy
      have hmember : c.Member inner ⟨y, x, true⟩ := .alternative huv hyx
      have hc := hfits.alternative ho huv hyx (h.registry ▸ hy)
      exact (hinner.of_spans hmember.spans).not_fails_swap hc (h.registry ▸ hf)
    have hmember : d.Member inner.swap ⟨x, y, true⟩ := .alternative huv hxy
    have hresolves := hmember.resolvesBoth hs (resolvesBoth_of_reconcile hs hr ho')
    obtain ⟨k, hk⟩ : ∃ k, d.registry.kind y = .ok k := hresolves.target.kind
    refine ⟨ho', huv, hxy, hx, ?_⟩
    rw [Registry.isPrimitive_of_kind hk] at hy ⊢
    simpa using hy

end Mirrors

/-- What is written fits as it is, so no primitive alternative faces anything else. -/
theorem Fits.not_uneven (hp : c.registry.Reversible p) (hfits : c.Fits p) : ¬ c.Uneven p := by
  intro h
  obtain @⟨inner, u, v, x, y, ho, huv, hxy, hx, hy⟩ := h
  have hmember : c.Member inner ⟨x, y, true⟩ := .alternative huv hxy
  have hxy' := (hp.of_spans (spans_of_reconcile ho)).of_spans hmember.spans
  obtain ⟨k, l, hk, hl, hkind⟩ :=
    Registry.kinds_of_compatible (hfits.alternative ho huv hxy hx)
  obtain rfl : k = l := hkind.resolve_left fun hany => hxy'.target.kind_ne (hany ▸ hl)
  rw [Registry.isPrimitive_of_kind hk] at hx
  rw [Registry.isPrimitive_of_kind hl, Except.ok.inj hx] at hy
  cases hy

/-- No box is made around an alternative, so where all can be written, none has to be opened when it
    is read. -/
theorem Mirrors.not_uneven_swap (h : c.Mirrors d) (hp : c.registry.Reversible p)
    (hwire : c.wire = .target) (hfits : ∀ q, p = q ∨ c.Nested p q → c.Fits q) :
    ¬ d.Uneven p.swap := by
  intro hd
  obtain @⟨inner, u, v, x, y, ho', huv, hxy, hx, hy⟩ := hd
  obtain ⟨opened, ho⟩ := (hfits p (Or.inl rfl)).reconciled
  obtain rfl := h.reconcile_swap hp ho ho'
  have hmember : c.Member opened ⟨y, x, true⟩ :=
    .alternative (h.symm.unions_swap huv) (mem_zip_swap hxy)
  have hyx := (hp.of_spans (spans_of_reconcile ho)).of_spans hmember.spans
  obtain ⟨inner, hr⟩ := (hfits (y, x) (Or.inr ⟨opened, true, ho, hmember⟩)).reconciled
  rw [h.registry] at hx hy
  -- The two alternatives were reconciled as they are, or with a box of the target opened.
  rcases reconcile_yields_iff.mp hr with ⟨hc, -⟩ | ⟨-, hbox, -⟩
  · obtain ⟨k, l, hk, hl, hkind⟩ := Registry.kinds_of_compatible hc
    obtain rfl : k = l := hkind.resolve_left fun hany => hyx.target.kind_ne (hany ▸ hl)
    rw [Registry.isPrimitive_of_kind hl] at hx
    rw [Registry.isPrimitive_of_kind hk, Except.ok.inj hx] at hy
    cases hy
  · -- The target of the pair is a primitive, and so is no box.
    rcases openBox?_eq_some hbox with ⟨-, -, ho⟩ | ⟨hsource, -⟩
    · rw [Registry.isPrimitive_of_kind (Registry.kind_of_unbox ho)] at hx
      cases hx
    · cases hwire.symm.trans hsource

/-- Where all fits one way, and nothing that is met the other way is uneven, the request that goes
    back succeeds: it cannot be stopped, and it comes to an end. -/
theorem Mirrors.compile_back (h : c.Mirrors d) (hp : c.registry.Reversible p)
    (hfits : ∀ q, c.Reaches p q → c.Fits q) {t : Site} (ht : t.pair = p.swap) (hready : t.Ready)
    (hc : d.scope = .ofRegistry d.registry) (hs : d.registry.Sound)
    (hr : d.registry.ResolvesBoth t.pair) (hends : (d.compile t).Finishes [])
    (heven : ∀ q, d.Reaches t.pair q → ¬ d.Uneven q) :
    ∃ out met, (d.compile t).Yields [] out met := by
  refine ((compile_failsOnly hc hs hready hr).yields_or hends).resolve_right fun hfault => ?_
  obtain ⟨f, -, q, hq, hunfit⟩ := hfault
  have hback : c.Reaches p q.swap := h.reaches_swap hp hfits (ht ▸ hq)
  refine heven q hq (q.swap_swap ▸ ?_)
  exact h.unfit_swap (hp.of_spans hback.spans) hs (hq.resolvesBoth hs hr) (hfits _ hback) hunfit

/-- Two requests without any helpers yet, one that writes values of `a` as `b` and one that reads
    them back, succeed together if they end and names tell apart the pairs that each leads to.
    Unions in which a primitive alternative faces one that is no primitive are the exception: they
    can never be written. -/
theorem compile_yields_iff_back (c d : Conversion) (a b : Attribute)
    (value place value' place' : String) (hd : c.Mirrors d) (hwire : c.wire = .target)
    (hc : c.scope = .ofRegistry c.registry) (hs : c.registry.Sound)
    (hr : c.registry.ResolvesBoth (a, b)) (hp : c.registry.Reversible (a, b))
    (hn : c.NamesApart (a, b)) (hn' : d.NamesApart (b, a))
    (hends : (c.compile (.between a b value place)).Finishes [])
    (hends' : (d.compile (.between b a value' place')).Finishes []) :
    (∃ out met, (c.compile (.between a b value place)).Yields [] out met) ↔
      (∃ out met, (d.compile (.between b a value' place')).Yields [] out met) ∧
        ∀ q, c.Reaches (a, b) q → ¬ c.Uneven q := by
  have hreg := hd.registry
  have ready : ∀ {a b : Attribute} {value place : String}, (Site.between a b value place).Ready :=
    ⟨rfl, fun _ => ⟨_, rfl⟩⟩
  constructor
  · rintro ⟨out, met, h⟩
    have hfits : ∀ q, c.Reaches (a, b) q → c.Fits q := fun q hq =>
      fits_of_compile (s := .between a b value place) hn h hq
    refine ⟨?_, fun q hq => (hfits q hq).not_uneven (hp.of_spans hq.spans)⟩
    refine hd.compile_back hp hfits rfl ready (by rw [hd.scope, hc, hreg]) (hreg ▸ hs)
      (hreg ▸ ⟨hr.target, hr.source⟩) hends' fun q hq => ?_
    have hback : c.Reaches (a, b) q.swap := hd.reaches_swap hp hfits hq
    -- Reading is never uneven here: no box is made around an alternative that was written.
    refine q.swap_swap ▸ hd.not_uneven_swap (hp.of_spans hback.spans) hwire fun r hr => ?_
    rcases hr with rfl | hr
    · exact hfits _ hback
    · exact hfits r (hback.tail hr)
  · rintro ⟨⟨out, met, h⟩, heven⟩
    have hfits : ∀ q, d.Reaches (b, a) q → d.Fits q := fun q hq =>
      fits_of_compile (s := .between b a value' place') hn' h hq
    -- What can be read may be uneven when it is written, which is what `heven` excludes.
    exact hd.symm.compile_back (hreg ▸ hp.swap) hfits rfl ready hc hs hr hends heven

/-- A box around a string. -/
def boxRegistry : Registry where
  types := [{ id := "Box", name := "Box",
              definition := { type := .object [(boxField, { type := .primitive .string })] } }]

/-- Writes values of a service into message types. -/
def boxWriter : Conversion where
  scope := .ofRegistry boxRegistry
  source := .service
  target := .protobuf "pb"
  wire := .target

/-- Reads them back. -/
def boxReader : Conversion where
  scope := .ofRegistry boxRegistry
  source := .protobuf "pb"
  target := .service
  wire := .source

theorem boxWriter_mirrors : boxWriter.Mirrors boxReader := ⟨rfl, by decide⟩

theorem boxRegistry_sound : boxRegistry.Sound := by decide

/-- An object with a name, as it is and in a box. -/
def namedPair : Pair :=
  ({ type := .object [("name", { type := .primitive .string })] },
    { type := .object [("name", .user "Box")] })

/-- A name becomes a name in a box, and is read back from it. No union is involved, so both
    directions have code. -/
theorem compile_yields_iff_back_named :
    boxRegistry.ResolvesBoth namedPair ∧ boxRegistry.Reversible namedPair ∧
    boxWriter.NamesApart namedPair ∧ boxReader.NamesApart namedPair.swap ∧
    (∃ out met,
      (boxReader.compile (.between namedPair.2 namedPair.1 "v" "res")).Yields [] out met) ∧
    ((∃ out met,
        (boxWriter.compile (.between namedPair.1 namedPair.2 "v" "res")).Yields [] out met) ↔
      (∃ out met,
        (boxReader.compile (.between namedPair.2 namedPair.1 "v" "res")).Yields [] out met) ∧
        ∀ q, boxWriter.Reaches namedPair q → ¬ boxWriter.Uneven q) := by
  have hr : boxRegistry.ResolvesBoth namedPair := ⟨by decide, by decide⟩
  have hp : boxRegistry.Reversible namedPair := Registry.reversible_of_isPlain (by decide)
  have hn : boxWriter.NamesApart namedPair := namesApart_of_singleton rfl _
  have hn' : boxReader.NamesApart namedPair.swap := namesApart_of_singleton rfl _
  -- Both requests are short enough to be run.
  have hread : ∃ out met,
      (boxReader.compile (.between namedPair.2 namedPair.1 "v" "res")).Yields [] out met := by
    decide +kernel
  obtain ⟨_, _, hwrite⟩ : ∃ out met,
      (boxWriter.compile (.between namedPair.1 namedPair.2 "v" "res")).Yields [] out met := by
    decide +kernel
  refine ⟨hr, hp, hn, hn', hread, ?_⟩
  obtain ⟨_, _, hread⟩ := hread
  exact compile_yields_iff_back boxWriter boxReader namedPair.1 namedPair.2 "v" "res" "v" "res"
    boxWriter_mirrors rfl rfl boxRegistry_sound hr hp hn hn' hwrite.finishes hread.finishes

/-- A union of one alternative, as it is and in a box. -/
def unionPair : Pair :=
  ({ type := .union "U" [("x", { type := .primitive .string })] },
    { type := .union "W" [("x", .user "Box")] })

/-- Types that resolve, with no `any` among them, and no two pairs that share a name. What is read
    without fail cannot be written, since no box is made for a primitive alternative. -/
theorem boxed_alternative_read_only :
    boxRegistry.Sound ∧ boxRegistry.ResolvesBoth unionPair ∧ boxRegistry.Reversible unionPair ∧
    boxWriter.NamesApart unionPair ∧ boxReader.NamesApart unionPair.swap ∧
    (∃ out met,
      (boxReader.compile (.between unionPair.2 unionPair.1 "v" "res")).Yields [] out met) ∧
    (boxWriter.compile (.between unionPair.1 unionPair.2 "v" "res")).Finishes [] ∧
    ¬ ∃ out met,
      (boxWriter.compile (.between unionPair.1 unionPair.2 "v" "res")).Yields [] out met := by
  refine ⟨boxRegistry_sound, ⟨by decide, by decide⟩, Registry.reversible_of_isPlain (by decide),
    namesApart_of_singleton rfl _, namesApart_of_singleton rfl _, ?_, ?_, ?_⟩
  · decide +kernel
  · decide +kernel
  · decide +kernel

end Conversion
end Shapewright
