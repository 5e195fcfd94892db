import Shapewright.Proofs.Conversion.Closure

/-!
# What a helper depends on

A helper is built where the search meets its name first. Of that position its code takes the two
named types, and whether the value may be nil there: only then does it start with a check for nil.
Neither what else the references declare, nor the request, nor the way to the position matters.

So two requests may build different helpers for the same two types, namely where the one meets them
at a value that must be present and the other at one that may be absent. `compile_helper_eq_iff`
says that nothing else can go wrong. Files of helpers are put together from several requests, and
helpers of one name that differ cannot be merged; `tag_helpers_differ` gives two requests for which
this happens.

## From sites to code

Two references to one type can differ in what they declare: a description, a default, a view. None
of this is looked at where the reference is resolved, as `Alike` says for pairs. Here it is carried
over to code: the emitter gives equal code, not just code that does the same, for two sites that
differ in nothing else (`AlikeSites.byKind_eq`). There is one lemma for each kind, and all have to
go down to the last expression.

Only the level of the two references has to be treated so. What is nested in them comes out of the
definitions of the types, so it is the same for both, and no induction is needed. The number of
levels that the emitter is granted depends on the size of an attribute, but references are all of
one size.
-/

namespace Shapewright
namespace Conversion

variable {c : Conversion} {emit : Emit} {s t : Site} {x y : HelperSite} {name : String}

/-! ## Code depends on the named types -/

/-- The sites differ in nothing but what references to the same two types declare. Values, places
    and depth agree, since these do appear in code. -/
structure AlikeSites (s t : Site) : Prop where
  pair : Alike s.pair t.pair
  value : s.value = t.value
  place : s.place = t.place
  declare : s.declare = t.declare
  depth : s.depth = t.depth

namespace AlikeSites

theorem store_eq (h : AlikeSites s t) (e : Expr) : s.store e = t.store e := by
  rw [Site.store, Site.store, h.place, h.declare]

theorem element_eq (h : AlikeSites s t) (a b : Attribute) : s.element a b = t.element a b := by
  rw [Site.element, Site.element, h.place, h.depth]

theorem key_eq (h : AlikeSites s t) (a b : Attribute) : s.key a b = t.key a b := by
  rw [Site.key, Site.key, h.depth]

theorem entry_eq (h : AlikeSites s t) (a b : Attribute) : s.entry a b = t.entry a b := by
  rw [Site.entry, Site.entry, h.depth]

theorem alternative_eq (h : AlikeSites s t) (a b : Attribute) :
    s.alternative a b = t.alternative a b := by
  rw [Site.alternative, Site.alternative, h.place, h.depth]

theorem targetRef_eq (h : AlikeSites s t) : c.targetRef s.target = c.targetRef t.target :=
  let ⟨_, ht⟩ := h.pair.target
  ht.typeRef_eq

theorem array_eq (h : AlikeSites s t) : c.array emit s = c.array emit t := by
  obtain ⟨⟨i, hs⟩, ⟨j, ht⟩⟩ := h.pair
  have hsource : c.registry.elem? s.source = c.registry.elem? t.source := hs.elem?_eq
  have htarget : c.registry.elem? s.target = c.registry.elem? t.target := ht.elem?_eq
  unfold array
  simp only [hsource, htarget, h.store_eq, h.element_eq, h.value, h.depth]

theorem map_eq (h : AlikeSites s t) : c.map emit s = c.map emit t := by
  obtain ⟨⟨i, hs⟩, ⟨j, ht⟩⟩ := h.pair
  have hsource : c.registry.entry? s.source = c.registry.entry? t.source := hs.entry?_eq
  have htarget : c.registry.entry? s.target = c.registry.entry? t.target := ht.entry?_eq
  unfold map
  simp only [hsource, htarget, h.store_eq, h.key_eq, h.entry_eq, h.value, h.place, h.depth]

/-- The cases of a switch agree one by one: alternatives belong to the unions, not to the
    references. -/
theorem cases_eq (h : AlikeSites s t) (u v : UnionType) : ∀ (pairs : List (Attribute × Attribute))
    (index : Nat), c.cases emit s u v index pairs = c.cases emit t u v index pairs := by
  intro pairs
  induction pairs with
  | nil => intro index; rfl
  | cons q rest ih =>
    intro index
    have halternative : c.alternative emit s v index q.1 q.2 =
        c.alternative emit t v index q.1 q.2 := by
      unfold Conversion.alternative Site.wrapped
      simp only [h.alternative_eq, h.place]
    rw [Conversion.cases, Conversion.cases, halternative, ih]

theorem union_eq (h : AlikeSites s t) : c.union emit s = c.union emit t := by
  have hunions : c.unions s.source s.target = c.unions t.source t.target := h.pair.unions_eq
  unfold union declaration
  simp only [hunions, h.cases_eq, h.value, h.place, h.declare, h.targetRef_eq]

theorem object_eq (h : AlikeSites s t) : c.object emit s = c.object emit t := by
  obtain ⟨⟨i, hs⟩, ⟨j, ht⟩⟩ := h.pair
  have hsource : ObjectView.of? c.registry s.source = ObjectView.of? c.registry t.source :=
    hs.view_eq
  have htarget : ObjectView.of? c.registry s.target = ObjectView.of? c.registry t.target :=
    ht.view_eq
  unfold object fieldSite
  simp only [hsource, htarget, h.store_eq, h.value, h.place, h.depth, h.targetRef_eq]

theorem primitive_eq (h : AlikeSites s t) : c.primitive s = c.primitive t := by
  obtain ⟨⟨i, hs⟩, -⟩ := h.pair
  have hsource : c.sourceRef s.source = c.sourceRef t.source := hs.typeRef_eq
  unfold primitive converted?
  simp only [hsource, h.targetRef_eq, h.store_eq, h.value]

/-- The code for two such sites is the same, whichever kind they are of. So code depends on the
    types that two references name, and not on what the references declare beside. -/
theorem byKind_eq (h : AlikeSites s t) : c.byKind emit s = c.byKind emit t := by
  obtain ⟨⟨i, hs⟩, ⟨j, ht⟩⟩ := h.pair
  have hsource : c.registry.kind s.source = c.registry.kind t.source := hs.kind_eq
  have htarget : c.registry.kind s.target = c.registry.kind t.target := ht.kind_eq
  have hkind : c.ofKind emit s = c.ofKind emit t := by
    funext kind
    cases kind with
    | array => exact h.array_eq
    | map => exact h.map_eq
    | object => exact h.object_eq
    | union => exact h.union_eq
    | primitive p => exact h.primitive_eq
  unfold byKind
  simp only [hsource, htarget, hkind, h.store_eq, h.value]

end AlikeSites

/-! ## Helpers depend on the named types and on what may be nil -/

/-- The bodies of two helpers for the same types are equal. A helper is only ever called for types
    that fit as they are, so no box comes into it. -/
theorem Alike.inner_eq (h : Alike x.pair y.pair)
    (hc : (c.registry.compatible x.source x.target {}).Yields ()) :
    c.inline x.inner = c.inline y.inner := by
  have hsites : AlikeSites x.inner y.inner := ⟨h, rfl, rfl, rfl, rfl⟩
  have heq : c.registry.compatible x.source x.target = c.registry.compatible y.source y.target :=
    h.compatible_eq c.registry
  have hx : ∀ emit, c.attrVia emit x.inner = c.byKind emit x.inner :=
    fun _ => attrVia_of_compatible (s := x.inner) hc
  have hy : ∀ emit, c.attrVia emit y.inner = c.byKind emit y.inner :=
    fun _ => attrVia_of_compatible (s := y.inner) (heq ▸ hc)
  obtain ⟨⟨i, hs⟩, ⟨j, ht⟩⟩ := h
  -- References are all of one size, so both sites are given the same number of levels.
  have hbudget : c.registry.pairBudget x.inner.source x.inner.target =
      c.registry.pairBudget y.inner.source y.inner.target := by
    have hsource : x.inner.source.size = y.inner.source.size :=
      (Attribute.size_of_userId? hs.left).trans (Attribute.size_of_userId? hs.right).symm
    have htarget : x.inner.target.size = y.inner.target.size :=
      (Attribute.size_of_userId? ht.left).trans (Attribute.size_of_userId? ht.right).symm
    rw [Registry.pairBudget, Registry.pairBudget, hsource, htarget]
  unfold inline
  rw [hbudget, Registry.pairBudget, attrWithin, hx, hy, hsites.byKind_eq]

/-- The helpers for the same two types are equal unless one of them alone guards against nil. Body
    and signature are those of the two types, and the check at the beginning depends on the
    position. -/
theorem helper_eq_iff {h k : Helper} (hp : Alike x.pair y.pair)
    (hc : (c.registry.compatible x.source x.target {}).Yields ())
    (hh : (c.helper name x).Yields h) (hk : (c.helper name y).Yields k) :
    h = k ↔ x.required = y.required := by
  obtain ⟨param, result, code, hparam, hresult, hcode, rfl⟩ := helper_yields.mp hh
  obtain ⟨param', result', code', hparam', hresult', hcode', rfl⟩ := helper_yields.mp hk
  rw [← hp.inner_eq hc] at hcode'
  obtain rfl : code = code' := hcode.unique hcode'
  obtain ⟨⟨i, hs⟩, ⟨j, ht⟩⟩ := hp
  have hsource : c.sourceRef x.source = c.sourceRef y.source := hs.typeRef_eq
  have htarget : c.targetRef x.target = c.targetRef y.target := ht.typeRef_eq
  obtain rfl : param = param' := Except.ok.inj (hparam.symm.trans (hsource.trans hparam'))
  obtain rfl : result = result' := Except.ok.inj (hresult.symm.trans (htarget.trans hresult'))
  -- What is left of the helpers is the guard in front of the code.
  rw [Helper.mk.injEq]
  simp only [true_and, List.append_cancel_right_eq]
  unfold HelperSite.guard
  cases x.required <;> cases y.required <;> simp

/-! ## Two requests -/

/-- The search of a request first meets the helper `name` at the position `x`. For later positions
    no helper is built. -/
def Meets (c : Conversion) (s : Site) (name : String) (x : HelperSite) : Prop :=
  ∃ found met', (c.collect note s.source s.target).Yields [] found met' ∧ (name, x) ∈ found

/-- A request meets a helper once: names in the notes of a search are all different. -/
theorem Meets.unique (hx : c.Meets s name x) (hy : c.Meets s name y) : x = y := by
  obtain ⟨found, met, hfound, hx⟩ := hx
  obtain ⟨found', met', hfound', hy⟩ := hy
  obtain ⟨rfl, rfl⟩ := hfound.unique hfound'
  have hnodup := (collect_finds (p := s.pair) hfound).1.nodup
  exact congrArg Prod.snd (List.inj_on_of_nodup_map hnodup hx hy rfl)

/-- A helper of a request is built where its name is met first. So the flag of that position is in
    the body, for all callers that come later. -/
theorem exists_meets {out : Compiled} {met : List String} (h : (c.compile s).Yields [] out met)
    {k : Helper} (hk : k ∈ out.helpers) :
    ∃ x, c.Meets s k.name x ∧ c.Delegates x.pair k.name ∧ (c.helper k.name x).Yields k := by
  obtain ⟨-, made, hmade, hout⟩ := compile_yields.mp h
  obtain ⟨found, hfound, hmadeOf⟩ := collect_factors (p := s.pair) hmade
  rw [hout] at hk
  obtain ⟨⟨name, x⟩, hx, hyields⟩ := forall₂_mem_right hmadeOf ((sorted_perm made).mem_iff.mp hk)
  obtain ⟨_, _, _, -, -, -, hshape⟩ := helper_yields.mp hyields
  obtain rfl : name = k.name := by rw [hshape]
  exact ⟨x, ⟨found, met, hfound, hx⟩, (collect_finds hfound).1.delegates _ hx, hyields⟩

/-- Every name that is met has a helper. This is the converse of `exists_meets`: a name is taken
    only to build a helper at once. -/
theorem Meets.exists_helper {out : Compiled} {met : List String}
    (h : (c.compile s).Yields [] out met) (hx : c.Meets s name x) :
    ∃ k ∈ out.helpers, k.name = name ∧ c.Delegates x.pair name ∧ (c.helper name x).Yields k := by
  obtain ⟨-, made, hmade, hout⟩ := compile_yields.mp h
  obtain ⟨found, hfound, hmadeOf⟩ := collect_factors (p := s.pair) hmade
  obtain ⟨found', met', hfound', hx⟩ := hx
  obtain ⟨rfl, rfl⟩ := hfound.unique hfound'
  obtain ⟨k, hk, hyields⟩ := forall₂_mem_left hmadeOf hx
  obtain ⟨_, _, _, -, -, -, hshape⟩ := helper_yields.mp hyields
  refine ⟨k, hout ▸ (sorted_perm made).mem_iff.mpr hk, by rw [hshape], ?_, hyields⟩
  exact (collect_finds (p := s.pair) hfound).1.delegates _ hx

/-- Two requests that both succeed build the same helper for the same two types just when both of
    them, or neither, first meet it at a value that may be absent. All else about a helper is
    decided by its types and the two contexts. -/
theorem compile_helper_eq_iff (c : Conversion) (s t : Site) (out out' : Compiled)
    (met met' : List String) (hs : (c.compile s).Yields [] out met)
    (ht : (c.compile t).Yields [] out' met') (h k : Helper) (hh : h ∈ out.helpers)
    (hk : k ∈ out'.helpers) (hname : h.name = k.name) :
    ∃ x y, c.Meets s h.name x ∧ c.Meets t k.name y ∧
      (Alike x.pair y.pair → (h = k ↔ x.required = y.required)) := by
  obtain ⟨x, hx, hd, hhx⟩ := exists_meets hs hh
  obtain ⟨y, hy, -, hky⟩ := exists_meets ht hk
  exact ⟨x, y, hx, hy, fun hp => helper_eq_iff hp hd.compatible hhx (hname ▸ hky)⟩

/-- A type of objects without fields. -/
def tagRegistry : Registry where
  types := [{ id := "Tag", name := "Tag", definition := { type := .object [] } }]

def tagConversion : Conversion where
  scope := .ofRegistry tagRegistry
  source := .service
  target := .service

/-- An object that holds a tag, which may be absent unless it is required. -/
def tagged (required : Bool) : Attribute where
  type := .object [("tag", .user "Tag")]
  rules := { required := if required then ["tag"] else [] }

/-- The request to convert one such object into another. -/
def tagSite (source target : Bool) : Site := .between (tagged source) (tagged target) "v" "res"

theorem exists_compile_tagSite (source target : Bool) :
    ∃ out met, (tagConversion.compile (tagSite source target)).Yields [] out met := by
  cases source <;> cases target <;> decide +kernel

/-- The helper is met where the source says whether the tag is required. The flag of the target does
    not enter, as the check is about the value that is read. -/
theorem tagSite_meets (source target : Bool) :
    ∃ x, tagConversion.Meets (tagSite source target) "transformTagToTag" x ∧
      x.source.userId? = some "Tag" ∧ x.target.userId? = some "Tag" ∧ x.required = source := by
  have hfound : ∃ found met', (tagConversion.collect note (tagSite source target).source
      (tagSite source target).target).Yields [] found met' ∧
        ∃ f ∈ found, f.1 = "transformTagToTag" ∧ f.2.source.userId? = some "Tag" ∧
          f.2.target.userId? = some "Tag" ∧ f.2.required = source := by
    cases source <;> cases target <;> decide +kernel
  obtain ⟨found, met', h, ⟨name, x⟩, hx, rfl, hs, ht, hr⟩ := hfound
  exact ⟨x, ⟨found, met', h, hx⟩, hs, ht, hr⟩

/-- Two requests convert the same two types, under one name, by different helpers. Each of the two
    succeeds on its own. -/
theorem tag_helpers_differ : ∃ out met out' met',
    (tagConversion.compile (tagSite true false)).Yields [] out met ∧
    (tagConversion.compile (tagSite false false)).Yields [] out' met' ∧
    ∃ h ∈ out.helpers, ∃ k ∈ out'.helpers, h.name = k.name ∧
      (∃ x y, tagConversion.Meets (tagSite true false) h.name x ∧
        tagConversion.Meets (tagSite false false) k.name y ∧ Alike x.pair y.pair) ∧ h ≠ k := by
  obtain ⟨out, met, hs⟩ := exists_compile_tagSite true false
  obtain ⟨out', met', ht⟩ := exists_compile_tagSite false false
  obtain ⟨x, hx, hxs, hxt, hxr⟩ := tagSite_meets true false
  obtain ⟨y, hy, hys, hyt, hyr⟩ := tagSite_meets false false
  obtain ⟨h, hh, hname, hd, hhx⟩ := hx.exists_helper hs
  obtain ⟨k, hk, hname', -, hky⟩ := hy.exists_helper ht
  have hp : Alike x.pair y.pair := ⟨⟨"Tag", hxs, hys⟩, ⟨"Tag", hxt, hyt⟩⟩
  refine ⟨out, met, out', met', hs, ht, h, hh, k, hk, hname.trans hname'.symm,
    ⟨x, y, hname.symm ▸ hx, hname'.symm ▸ hy, hp⟩, fun heq => ?_⟩
  -- The first request meets the pair where the source requires it, the second where it does not.
  have hrequired := (helper_eq_iff hp hd.compatible hhx hky).mp heq
  rw [hxr, hyr] at hrequired
  simp at hrequired

/-- What the target requires makes no difference. Both requests meet the tag at an optional field of
    the source, so they build one and the same helper. -/
theorem compile_helper_eq_iff_tag : ∃ out met out' met' h k,
    (tagConversion.compile (tagSite false false)).Yields [] out met ∧
    (tagConversion.compile (tagSite false true)).Yields [] out' met' ∧
    h ∈ out.helpers ∧ k ∈ out'.helpers ∧ h.name = k.name ∧
    ∃ x y, tagConversion.Meets (tagSite false false) h.name x ∧
      tagConversion.Meets (tagSite false true) k.name y ∧
      (Alike x.pair y.pair → (h = k ↔ x.required = y.required)) := by
  obtain ⟨out, met, hs⟩ := exists_compile_tagSite false false
  obtain ⟨out', met', ht⟩ := exists_compile_tagSite false true
  obtain ⟨x, hx, -⟩ := tagSite_meets false false
  obtain ⟨y, hy, -⟩ := tagSite_meets false true
  obtain ⟨h, hh, hname, -⟩ := hx.exists_helper hs
  obtain ⟨k, hk, hname', -⟩ := hy.exists_helper ht
  have heq : h.name = k.name := hname.trans hname'.symm
  exact ⟨out, met, out', met', h, k, hs, ht, hh, hk, heq, compile_helper_eq_iff tagConversion
    (tagSite false false) (tagSite false true) out out' met met' hs ht h k hh hk heq⟩

end Conversion
end Shapewright
