import Shapewright.Conversion.Helper
import Shapewright.Proofs.Compatibility

/-!
# Which conversions are nested in which

The conversion of a pair of attributes contains those of the pairs one level below. Where both sides
name a type, a nested conversion is delegated to a helper; otherwise it is unfolded in place. The
relations are stated on pairs alone: the values and places that code mentions have no part in them.

Two pairs that name the same two types behave alike, whatever else their references declare.

## One graph for two walks

The library goes through nested conversions twice. The emitter builds code in place and stops at
every call of a helper; the search for helpers goes through the same types once more, and stops at
names it has met. They are written as different functions, and what has to be shown is that the one
calls exactly what the other builds. So the graph they both follow is defined first: `Member` is one
step of it, with the flag that the search passes on, `NestedVia` adds the box that may be opened
before the step, and `Reaches` is its closure. `Unfolds` is the part of it that the emitter goes
through in place.

An alternative of a union is a special case of `Unfolds`. It may have a helper and still be
unfolded: where it is stored in a wrapper, the emitter converts the value itself and never asks for
the helper.

`Circular` is stated on this graph too. It says what can make a conversion endless, and it is what
the theorems on termination exclude. Everything reached from a pair stands among finitely many pairs
(`Reaches.mem_standing`), which is the other half of their argument.
-/

namespace Shapewright
namespace Conversion

open Relation

variable {c : Conversion} {p q : Pair} {name : String}

/-- The conversion of a nested pair calls the helper `name`: both sides name a type, the value is
    structured, and the two fit without a box. -/
structure Delegates (c : Conversion) (q : Pair) (name : String) : Prop where
  calls : (c.callsHelper q.1 q.2).Yields true
  named : c.helperName q.1 q.2 = .ok name

/-- Both attributes of the pair refer to types of the registry. Pairs that call a helper are of this
    kind, if no union is among them. -/
structure Known (reg : Registry) (p : Pair) : Prop where
  source : ∃ t ∈ reg.types, p.1.userId? = some t.id
  target : ∃ t ∈ reg.types, p.2.userId? = some t.id

/-- The positions one level below a pair, seen as it is. Elements, keys and entries may be nil
    whatever is declared; an alternative that was chosen is there; a field is there if the source
    requires it. -/
inductive Member (c : Conversion) : Pair → HelperSite → Prop where
  | element {a b x y : Attribute} (ha : c.registry.elem? a = .ok (some x))
      (hb : c.registry.elem? b = .ok (some y)) : Member c (a, b) ⟨x, y, false⟩
  | key {a b k x l y : Attribute} (ha : c.registry.entry? a = .ok (some (k, x)))
      (hb : c.registry.entry? b = .ok (some (l, y))) : Member c (a, b) ⟨k, l, false⟩
  | entry {a b k x l y : Attribute} (ha : c.registry.entry? a = .ok (some (k, x)))
      (hb : c.registry.entry? b = .ok (some (l, y))) : Member c (a, b) ⟨x, y, false⟩
  | alternative {a b x y : Attribute} {u v : UnionType} (hu : c.unions a b = .ok (u, v))
      (hxy : (x, y) ∈ (u.2.map Prod.snd).zip (v.2.map Prod.snd)) : Member c (a, b) ⟨x, y, true⟩
  | field {a b : Attribute} {v w : ObjectView} {m : FieldMatch}
      (ha : ObjectView.of? c.registry a = .ok (some v))
      (hb : ObjectView.of? c.registry b = .ok (some w)) (hm : m ∈ matchFields v w) :
      Member c (a, b) ⟨m.source, m.target, v.requires m.name⟩

/-- The positions one level below `p`, once a box is opened where `p` needs it; `inner` is what `p`
    is then. -/
structure NestedVia (c : Conversion) (p inner : Pair) (x : HelperSite) : Prop where
  reconciled : (c.reconcile p.1 p.2).Yields inner
  member : c.Member inner x

/-- The conversion of the first pair contains that of the second. It is a member of the pair, or of
    what is left of it when a box is opened. -/
def Nested (c : Conversion) (p q : Pair) : Prop :=
  ∃ inner required, c.NestedVia p inner ⟨q.1, q.2, required⟩

/-- The conversion of the first pair contains that of the second in place. This is so where no
    helper is called, and for an alternative of a union that is stored in a wrapper. -/
def Unfolds (c : Conversion) (p q : Pair) : Prop :=
  ∃ inner required, c.NestedVia p inner ⟨q.1, q.2, required⟩ ∧
    ((c.callsHelper q.1 q.2).Yields false ∨
      (c.registry.kind inner.1 = .ok .union ∧ c.scope.isNamedObject q.1 = .ok false))

/-- The conversion of the first pair leads to that of the second, in place or through helpers. -/
def Reaches (c : Conversion) : Pair → Pair → Prop := ReflTransGen c.Nested

/-- A conversion of `p` asks whether the attributes of a pair are compatible: those of `p`, and
    where these are not, those of `p` with the box of the wire side opened. No other comparison is
    made for `p` itself. -/
inductive Asks (c : Conversion) (p : Pair) : Pair → Prop where
  | plain : Asks c p p
  | opened {inner : Pair} (hf : (c.registry.compatible p.1 p.2 {}).Fails)
      (ho : c.openBox? p.1 p.2 = .ok (some inner)) : Asks c p inner

/-- The conversion of a pair goes in circles: it contains itself in place, or it asks for a
    comparison that goes in circles. -/
def Circular (c : Conversion) (p : Pair) : Prop :=
  TransGen c.Unfolds p p ∨ ∃ q, c.Asks p q ∧ c.registry.ComparesInCircles q

theorem Unfolds.nested (h : c.Unfolds p q) : c.Nested p q :=
  let ⟨inner, required, hv, _⟩ := h
  ⟨inner, required, hv⟩

theorem reaches_of_unfolds (h : ReflTransGen c.Unfolds p q) : c.Reaches p q :=
  ReflTransGen.mono (fun _ _ => Unfolds.nested) _ _ h

/-! ## Helpers and boxes -/

/-- When a helper is called. Comparisons have the last word here: a pair of named types that fits
    only with a box opened is converted in place. -/
theorem callsHelper_yields_true :
    (c.callsHelper p.1 p.2).Yields true ↔
      p.1.userId?.isSome ∧ p.2.userId?.isSome ∧ c.registry.isPrimitive p.1 = .ok false ∧
        (c.registry.compatible p.1 p.2 {}).Yields () := by
  unfold callsHelper
  cases h₁ : p.1.userId? with
  | none => simp
  | some i =>
    cases h₂ : p.2.userId? with
    | none => simp
    | some j =>
      simp only [Option.isNone_some, Bool.or_self, Bool.false_eq_true, ↓reduceIte,
        Walk.yields_bind, Walk.yields_liftM, Option.isSome_some, true_and]
      constructor
      · intro h
        obtain ⟨isPrimitive, hp, h⟩ := h
        cases isPrimitive with
        | true => simp at h
        | false =>
          obtain ⟨⟨⟩, h⟩ := Walk.yields_succeeds_true.mp h
          exact ⟨hp, h⟩
      · intro h
        obtain ⟨hp, h⟩ := h
        exact ⟨false, hp, Walk.yields_succeeds_true.mpr ⟨(), h⟩⟩

/-- Whether a helper is called is known once the comparison has ended. -/
theorem callsHelper_finishes (h : (c.registry.compatible p.1 p.2 {}).Finishes) :
    (c.callsHelper p.1 p.2).Finishes := by
  unfold callsHelper
  split
  · simp
  · simp only [Walk.finishes_bind, Walk.finishes_liftM, true_and]
    intro isPrimitive _
    cases isPrimitive with
    | true => simp
    | false => exact Walk.finishes_succeeds.mpr h

theorem Delegates.compatible (h : c.Delegates q name) :
    (c.registry.compatible q.1 q.2 {}).Yields () :=
  (callsHelper_yields_true.mp h.calls).2.2.2

/-- Helpers are called for types of the registry only. The name of a helper is made of the names of
    two types, which the scope has for known types only. -/
theorem known_of_calls (h : (c.callsHelper q.1 q.2).Yields true) : Known c.registry q := by
  have known : ∀ {a : Attribute} {k : Kind}, a.userId?.isSome → c.registry.kind a = .ok k →
      ∃ t ∈ c.registry.types, a.userId? = some t.id := by
    intro a k ha hk
    obtain ⟨id, hid⟩ := Option.isSome_iff_exists.mp ha
    obtain ⟨t, ht⟩ := Registry.find?_of_kind hid hk
    obtain ⟨hmem, rfl⟩ := Registry.mem_types_of_find? ht
    exact ⟨t, hmem, hid⟩
  obtain ⟨hs, ht, hp, hc⟩ := callsHelper_yields_true.mp h
  obtain ⟨k, hk, -⟩ := except_bind_eq_ok.mp hp
  obtain ⟨k', hk'⟩ := Registry.kind_of_compatible hc
  exact ⟨known hs hk, known ht hk'⟩

theorem Delegates.known (h : c.Delegates q name) : Known c.registry q := known_of_calls h.calls

/-- The box that is opened is on the wire side. On the other side a box is a value like any other
    and is converted as an object. -/
theorem openBox?_eq_some (h : c.openBox? p.1 p.2 = .ok (some q)) :
    (c.wire = .target ∧ q.1 = p.1 ∧ c.registry.unbox? p.2 = .ok (some q.2)) ∨
      (c.wire = .source ∧ q.2 = p.2 ∧ c.registry.unbox? p.1 = .ok (some q.1)) := by
  unfold openBox? at h
  split at h <;> rename_i hwire
  · simp only [except_bind_eq_ok, except_pure_eq_ok, Option.map_eq_some_iff] at h
    obtain ⟨_, ho, content, rfl, rfl⟩ := h
    exact .inl ⟨hwire, rfl, ho⟩
  · simp only [except_bind_eq_ok, except_pure_eq_ok, Option.map_eq_some_iff] at h
    obtain ⟨_, ho, content, rfl, rfl⟩ := h
    exact .inr ⟨hwire, rfl, ho⟩

/-- A pair is taken as it is, or with the box of the wire side opened. The box is opened only where
    the plain comparison fails, never by choice. -/
theorem reconcile_yields_iff {inner : Pair} :
    (c.reconcile p.1 p.2).Yields inner ↔
      ((c.registry.compatible p.1 p.2 {}).Yields () ∧ inner = p) ∨
      ((c.registry.compatible p.1 p.2 {}).Fails ∧ c.openBox? p.1 p.2 = .ok (some inner) ∧
        (c.registry.compatible inner.1 inner.2 {}).Yields ()) := by
  unfold reconcile
  simp only [Walk.yields_bind, Walk.yields_outcome]
  constructor
  -- A fault of the plain comparison is kept as a value here, and only then is the box tried.
  · intro h
    obtain ⟨o, ho, h⟩ := h
    cases o with
    | ok u => exact Or.inl ⟨ho, (Walk.yields_pure.mp h).symm⟩
    | error why =>
      simp only [Walk.yields_bind, Walk.yields_liftM] at h
      obtain ⟨opened, hopened, h⟩ := h
      cases opened with
      | none => simp at h
      | some opened =>
        simp only [Walk.yields_bind, Walk.yields_pure] at h
        obtain ⟨⟨⟩, hc, rfl⟩ := h
        exact Or.inr ⟨⟨why, ho⟩, hopened, hc⟩
  · intro h
    rcases h with ⟨hc, rfl⟩ | ⟨⟨why, hf⟩, ho, hc⟩
    · exact ⟨.ok (), hc, by simp⟩
    · refine ⟨.error why, hf, ?_⟩
      exact Walk.yields_bind.mpr ⟨some inner, Walk.yields_liftM.mpr ho,
        Walk.yields_bind.mpr ⟨(), hc, Walk.yields_pure.mpr rfl⟩⟩

/-- A pair is refused if it does not fit as it is, nor with the box of the wire side opened. Where
    there is no box to open, the first refusal is final. -/
theorem reconcile_fails_iff :
    (c.reconcile p.1 p.2).Fails ↔ (c.registry.compatible p.1 p.2 {}).Fails ∧
      ∀ inner, c.openBox? p.1 p.2 = .ok (some inner) →
        (c.registry.compatible inner.1 inner.2 {}).Fails := by
  unfold reconcile
  simp only [Walk.fails_bind, Walk.not_fails_outcome, Walk.yields_outcome, false_or]
  constructor
  -- The fault that is raised is always that of the plain comparison, whatever was wrong with the
  -- box.
  · rintro ⟨o, ho, h⟩
    cases o with
    | ok u => simp at h
    | error why =>
      refine ⟨⟨why, ho⟩, fun inner hinner => ?_⟩
      simpa [hinner] using h
  · rintro ⟨⟨why, hwhy⟩, h⟩
    refine ⟨.error why, hwhy, ?_⟩
    cases ho : c.openBox? p.1 p.2 with
    | error why => simp
    | ok opened =>
      cases opened with
      | none => simp
      | some inner => simpa using h inner ho

/-- Opening a box ends if the comparisons do that it asks for, and only then. It asks for one
    comparison, and for a second one only when the first has failed. -/
theorem reconcile_finishes_iff :
    (c.reconcile p.1 p.2).Finishes ↔
      ∀ q, c.Asks p q → (c.registry.compatible q.1 q.2 {}).Finishes := by
  unfold reconcile
  simp only [Walk.finishes_bind, Walk.finishes_outcome, Walk.yields_outcome]
  constructor
  · rintro ⟨hplain, h⟩ q hq
    cases hq with
    | plain => exact hplain
    | opened hf ho =>
      obtain ⟨why, hwhy⟩ := hf
      have h := h _ hwhy
      simp only [Walk.finishes_bind, Walk.yields_liftM] at h
      have h := h.2 _ ho
      simp only [Walk.finishes_bind] at h
      exact h.1
  · intro h
    refine ⟨h p .plain, fun o ho => ?_⟩
    cases o with
    | ok u => simp
    | error why =>
      simp only [Walk.finishes_bind, Walk.finishes_liftM, Walk.yields_liftM, true_and]
      intro opened hopened
      cases opened with
      | none => simp
      | some inner => simpa using h inner (.opened ⟨why, ho⟩ hopened)

/-- A compatible pair is converted as it is, so the members of the pair itself are what is nested in
    it. -/
theorem nested_iff_of_compatible (h : (c.registry.compatible p.1 p.2 {}).Yields ()) :
    c.Nested p q ↔ ∃ required, c.Member p ⟨q.1, q.2, required⟩ := by
  have hr : (c.reconcile p.1 p.2).Yields p := reconcile_yields_iff.mpr (Or.inl ⟨h, rfl⟩)
  constructor
  · intro h
    obtain ⟨inner, required, hinner, hq⟩ := h
    obtain rfl := hinner.unique hr
    exact ⟨required, hq⟩
  · intro h
    obtain ⟨required, hq⟩ := h
    exact ⟨p, required, hr, hq⟩

/-! ## The members of a pair -/

/-- Unions are converted alternative by alternative, which takes as many on the one side as on the
    other. -/
theorem unions_eq_ok {a b : Attribute} {u v : UnionType} : c.unions a b = .ok (u, v) ↔
    c.registry.union? a = .ok (some u) ∧ c.registry.union? b = .ok (some v) ∧
      u.2.length = v.2.length := by
  unfold unions
  simp only [except_bind_eq_ok]
  constructor
  · intro h
    obtain ⟨x, hx, y, hy, h⟩ := h
    split at h
    · split at h
      · rename_i hl
        cases h
        exact ⟨hx, hy, hl⟩
      · simp at h
    · simp at h
  · intro h
    obtain ⟨hx, hy, hl⟩ := h
    exact ⟨some u, hx, some v, hy, by simp only [hl, ↓reduceIte]; rfl⟩

theorem mem_alternatives {u v : UnionType} {x : HelperSite} :
    (x ∈ (u.2.zip v.2).map fun ((_, a), (_, b)) => (⟨a, b, true⟩ : HelperSite)) ↔
      (x.source, x.target) ∈ (u.2.map Prod.snd).zip (v.2.map Prod.snd) ∧ x.required = true := by
  obtain ⟨source, target, required⟩ := x
  rw [List.zip_map, List.mem_map, List.mem_map]
  constructor
  · intro h
    obtain ⟨⟨⟨m, a⟩, n, b⟩, h, hx⟩ := h
    simp only [HelperSite.mk.injEq] at hx
    obtain ⟨rfl, rfl, rfl⟩ := hx
    exact ⟨⟨_, h, rfl⟩, rfl⟩
  · intro h
    obtain ⟨⟨⟨⟨m, a⟩, n, b⟩, h, hx⟩, hr⟩ := h
    cases hx
    exact ⟨_, h, by rw [← hr]⟩

/-- The list that the search for helpers walks through holds members of a pair, and all of them
    (`Member.mem_members`). So the relation can be used for either function. -/
theorem member_of_mem_members {a b : Attribute} {x : HelperSite} {sites : List HelperSite}
    (h : c.members a b = .ok sites) (hx : x ∈ sites) : c.Member (a, b) x := by
  -- One case for each kind of the source, as in the definition; a target of another shape has no
  -- members.
  unfold members at h
  simp only [except_bind_eq_ok] at h
  obtain ⟨kind, hk, h⟩ := h
  split at h
  · cases h
    simp at hx
  · simp only [except_bind_eq_ok] at h
    obtain ⟨x, ha, y, hb, h⟩ := h
    split at h
    · cases h
      obtain rfl := List.mem_singleton.mp hx
      exact .element ha hb
    · cases h
      simp at hx
  · simp only [except_bind_eq_ok] at h
    obtain ⟨x, ha, y, hb, h⟩ := h
    split at h
    · cases h
      simp only [List.mem_cons, List.not_mem_nil, or_false] at hx
      rcases hx with rfl | rfl
      · exact .key ha hb
      · exact .entry ha hb
    · cases h
      simp at hx
  · simp only [except_bind_eq_ok] at h
    obtain ⟨o, ho, h⟩ := h
    split at h
    · cases h
      simp at hx
    · simp only [except_bind_eq_ok] at h
      obtain ⟨⟨u, v⟩, hu, h⟩ := h
      cases h
      obtain ⟨source, target, required⟩ := x
      obtain ⟨hx, rfl⟩ := mem_alternatives.mp hx
      exact .alternative hu hx
  · simp only [except_bind_eq_ok] at h
    obtain ⟨v, hv, w, hw, h⟩ := h
    split at h
    · cases h
      obtain ⟨m, hm, rfl⟩ := List.mem_map.mp hx
      exact .field hv hw hm
    · cases h
      simp at hx

theorem Member.mem_members {a b : Attribute} {x : HelperSite} (h : c.Member (a, b) x) :
    ∃ sites, c.members a b = .ok sites ∧ x ∈ sites := by
  unfold members
  simp only [except_bind_eq_ok]
  -- Each way to be a member is in the list that the kind of the pair gives.
  cases h with
  | @element _ _ x y ha hb =>
    refine ⟨[⟨x, y, false⟩], ⟨.array, Registry.kind_of_elem ha, ?_⟩, List.mem_singleton_self _⟩
    simp only [except_bind_eq_ok]
    exact ⟨_, ha, _, hb, rfl⟩
  | @key _ _ k x l y ha hb =>
    refine ⟨[⟨k, l, false⟩, ⟨x, y, false⟩], ⟨.map, Registry.kind_of_entry ha, ?_⟩, by simp⟩
    simp only [except_bind_eq_ok]
    exact ⟨_, ha, _, hb, rfl⟩
  | @entry _ _ k x l y ha hb =>
    refine ⟨[⟨k, l, false⟩, ⟨x, y, false⟩], ⟨.map, Registry.kind_of_entry ha, ?_⟩, by simp⟩
    simp only [except_bind_eq_ok]
    exact ⟨_, ha, _, hb, rfl⟩
  | alternative hu hxy =>
    obtain ⟨ha, hb, -⟩ := unions_eq_ok.mp hu
    refine ⟨_, ⟨.union, Registry.kind_of_union ha, ?_⟩, mem_alternatives.mpr ⟨hxy, rfl⟩⟩
    simp only [except_bind_eq_ok]
    exact ⟨_, hb, except_bind_eq_ok.mpr ⟨_, hu, rfl⟩⟩
  | @field _ _ v w m ha hb hm =>
    refine ⟨(matchFields v w).map fun m => ⟨m.source, m.target, v.requires m.name⟩,
      ⟨.object, Registry.kind_of_view ha, ?_⟩, List.mem_map.mpr ⟨_, hm, rfl⟩⟩
    simp only [except_bind_eq_ok]
    exact ⟨_, ha, _, hb, rfl⟩

/-! ## Members stay among the positions -/

theorem mem_matchFields {v w : ObjectView} {m : FieldMatch} (h : m ∈ matchFields v w) :
    m.source ∈ v.fields.map Prod.snd ∧ m.target ∈ w.fields.map Prod.snd := by
  obtain ⟨⟨name, a⟩, ha, h⟩ := List.mem_filterMap.mp h
  obtain ⟨b, hb, rfl⟩ := Option.map_eq_some_iff.mp h
  exact ⟨List.mem_map.mpr ⟨_, ha, rfl⟩, List.mem_map_of_mem (Ordered.mem_of_get? hb)⟩

open Registry in
theorem Member.mem_standing {r : Pair} {x : HelperSite} (h : c.Member p x)
    (hp : p ∈ c.registry.standingPairs r) :
    (x.source, x.target) ∈ c.registry.standingPairs r := by
  rw [mem_standingPairs] at hp ⊢
  cases h with
  | element ha hb => exact ⟨elem?_mem_standing ha hp.1, elem?_mem_standing hb hp.2⟩
  | key ha hb => exact ⟨(entry?_mem_standing ha hp.1).1, (entry?_mem_standing hb hp.2).1⟩
  | entry ha hb => exact ⟨(entry?_mem_standing ha hp.1).2, (entry?_mem_standing hb hp.2).2⟩
  | alternative hu hxy =>
    obtain ⟨ha, hb, -⟩ := unions_eq_ok.mp hu
    exact ⟨union?_mem_standing ha hp.1 (List.of_mem_zip hxy).1,
      union?_mem_standing hb hp.2 (List.of_mem_zip hxy).2⟩
  | field ha hb hm =>
    exact ⟨field_mem_standing ha hp.1 (mem_matchFields hm).1,
      field_mem_standing hb hp.2 (mem_matchFields hm).2⟩

open Registry in
theorem openBox?_mem_standing {r inner : Pair} (h : c.openBox? p.1 p.2 = .ok (some inner))
    (hp : p ∈ c.registry.standingPairs r) : inner ∈ c.registry.standingPairs r := by
  rw [mem_standingPairs] at hp ⊢
  rcases openBox?_eq_some h with ⟨-, hsource, ho⟩ | ⟨-, htarget, ho⟩
  · exact ⟨hsource ▸ hp.1, unbox?_mem_standing ho hp.2⟩
  · exact ⟨unbox?_mem_standing ho hp.1, htarget ▸ hp.2⟩

theorem Nested.mem_standing {r : Pair} (h : c.Nested p q)
    (hp : p ∈ c.registry.standingPairs r) : q ∈ c.registry.standingPairs r := by
  obtain ⟨inner, required, hr, hm⟩ := h
  refine hm.mem_standing ?_
  rcases reconcile_yields_iff.mp hr with ⟨-, rfl⟩ | ⟨-, ho, -⟩
  · exact hp
  · exact openBox?_mem_standing ho hp

/-- All that a conversion leads to stands in the two attributes or in the types. This is where the
    number of helpers, and the depth of code in place, get their bound. -/
theorem Reaches.mem_standing (h : c.Reaches p q) : q ∈ c.registry.standingPairs p := by
  induction h with
  | refl =>
    exact Registry.mem_standingPairs.mpr
      ⟨c.registry.mem_standing_self p.1, c.registry.mem_standing_self p.2⟩
  | tail _ hqr ih => exact hqr.mem_standing ih

/-! ## Pairs that name the same two types -/

/-- Both pairs name the same source type and the same target type. Nothing is said of what the
    references declare beside the names. -/
structure Alike (p q : Pair) : Prop where
  source : ∃ i, Attribute.BothRefer i p.1 q.1
  target : ∃ j, Attribute.BothRefer j p.2 q.2

namespace Alike

theorem symm (h : Alike p q) : Alike q p :=
  let ⟨⟨i, hi⟩, ⟨j, hj⟩⟩ := h
  ⟨⟨i, hi.right, hi.left⟩, ⟨j, hj.right, hj.left⟩⟩

/-- Like pairs are compared by the same walk. The budgets agree because a reference is of size
    one. -/
theorem compatible_eq (h : Alike p q) (reg : Registry) :
    reg.compatible p.1 p.2 = reg.compatible q.1 q.2 := by
  obtain ⟨⟨i, hs⟩, ⟨j, ht⟩⟩ := h
  have hbudget : ∀ (a b : Attribute), a.userId? = some i → b.userId? = some j →
      reg.pairBudget a b = (reg.positions + 1) * (reg.positions + 1) + 2 := by
    intro a b ha hb
    rw [Registry.pairBudget, Attribute.size_of_userId? ha, Attribute.size_of_userId? hb]
  -- Below the first level the two comparisons look at the same attributes, so they are equal, not
  -- just equivalent.
  funext paths
  rw [Registry.compatible, Registry.compatible, hbudget _ _ hs.left ht.left,
    hbudget _ _ hs.right ht.right, Registry.compatibleWithin, Registry.compatibleWithin,
    Registry.compatibleVia, Registry.compatibleVia]
  simp only [hs.kind_eq, ht.kind_eq, hs.elem?_eq, ht.elem?_eq, hs.entry?_eq, ht.entry?_eq]

/-- Like pairs share a helper. The converse is what can fail: names are put together without
    separators. -/
theorem helperName_eq (h : Alike p q) (c : Conversion) :
    c.helperName p.1 p.2 = c.helperName q.1 q.2 := by
  obtain ⟨⟨i, hs⟩, ⟨j, ht⟩⟩ := h
  unfold helperName
  rw [hs.qualifiedName_eq, ht.qualifiedName_eq]

theorem unions_eq (h : Alike p q) : c.unions p.1 p.2 = c.unions q.1 q.2 := by
  obtain ⟨⟨i, hs⟩, ⟨j, ht⟩⟩ := h
  unfold unions
  rw [hs.union?_eq, ht.union?_eq]

theorem member (h : Alike p q) {x : HelperSite} (hm : c.Member p x) : c.Member q x := by
  have hu := h.unions_eq (c := c)
  obtain ⟨⟨i, hs⟩, ⟨j, ht⟩⟩ := h
  cases hm with
  | element ha hb => exact .element (hs.elem?_eq ▸ ha) (ht.elem?_eq ▸ hb)
  | key ha hb => exact .key (hs.entry?_eq ▸ ha) (ht.entry?_eq ▸ hb)
  | entry ha hb => exact .entry (hs.entry?_eq ▸ ha) (ht.entry?_eq ▸ hb)
  | alternative ha hxy => exact .alternative (hu ▸ ha) hxy
  | field ha hb hm => exact .field (hs.view_eq ▸ ha) (ht.view_eq ▸ hb) hm

theorem nested {r : Pair} (h : Alike p q) (hc : (c.registry.compatible p.1 p.2 {}).Yields ())
    (hr : c.Nested p r) : c.Nested q r := by
  obtain ⟨required, hm⟩ := (nested_iff_of_compatible hc).mp hr
  exact (nested_iff_of_compatible (h.compatible_eq c.registry ▸ hc)).mpr ⟨required, h.member hm⟩

end Alike
end Conversion
end Shapewright
