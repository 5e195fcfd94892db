import Shapewright.Proofs.Conversion.Flat
import Shapewright.Proofs.Faults

/-!
# Why a conversion fails

A conversion fails for two reasons only: it leads to a pair of attributes that do not fit, or to two
unions with different numbers of alternatives; or it meets a reference that leads to no structure.
Every kind is what the emitter takes it for, and every helper has a name. Where all references
resolve, no look-up fails, and the first reason is the only one.

The proof goes through the emitters once, with the faults of the sites below given, and then by
induction over the levels of code and of the search.

## Two ways of saying that a pair does not fit

`Unfit` says it as the conversion does: the comparison fails, with and without a box. `Unlike` says
it for a registry in which references may be broken, where a comparison can also fail because a
look-up does: here the comparison has to end with a mismatch. The second is what can be read off a
fault, and the first is what those rely on who know that all references resolve (`Stops.misfits`).

## One proof, used more than once

What is proved of an emitter is that its code fails only with `P` if that is so for what it relies
on (`FailsBelow`), where `P` is any property of faults. The fields of that structure are the places
where a fault can come from. The same is done for the search (`SearchFails`). So with one round
through the emitters it can be said that a conversion is stopped by a pair it leads to, and with
another choice of `P` whose paths stand in its message.

A comparison of two fields with primitives is made before any code, with paths of its own; one of an
alternative is made where it is stored. These are apart from the comparison of the site itself,
since paths differ, and because no box is opened for either.
-/

namespace Shapewright

/-- Every reference written in one of the two attributes leads to a structure. What it leads to in
    turn is the business of the registry. -/
structure Registry.ResolvesBoth (reg : Registry) (p : Pair) : Prop where
  source : reg.Resolves p.1
  target : reg.Resolves p.2

/-- What the emitter of a site relies on: no box is opened here yet, and a place that has to be
    declared is a variable. -/
structure Site.Ready (s : Site) : Prop where
  inBox : s.inBox = false
  place : s.declare = true → ∃ name, s.place = .ident name

namespace Conversion

open Relation

variable {c : Conversion} {emit : Emit} {s t inner : Site} {p q : Pair} {α : Type}

/-! ## What stops a conversion -/

/-- What stops the conversion of a pair itself. What is nested in it may stop it as well, and so may
    a reference that leads to no structure. -/
inductive Unfit (c : Conversion) (p : Pair) : Prop where
  /-- The attributes do not fit, and neither do they with a box opened. -/
  | refused (h : (c.reconcile p.1 p.2).Fails)
  /-- Two unions have different numbers of alternatives. -/
  | arity {inner : Pair} {u v : UnionType} (hr : (c.reconcile p.1 p.2).Yields inner)
      (hu : c.registry.union? inner.1 = .ok (some u))
      (hv : c.registry.union? inner.2 = .ok (some v)) (hne : u.2.length ≠ v.2.length)
  /-- A primitive alternative does not fit as it is. No box is opened for it. -/
  | alternative {inner : Pair} {u v : UnionType} {x y : Attribute}
      (hr : (c.reconcile p.1 p.2).Yields inner) (hu : c.unions inner.1 inner.2 = .ok (u, v))
      (hxy : (x, y) ∈ (u.2.map Prod.snd).zip (v.2.map Prod.snd))
      (hp : c.registry.isPrimitive x = .ok true) (hc : (c.registry.compatible x y {}).Fails)

/-- The conversion leads to a pair that stops it. References that lead to nothing count here too, as
    a pair with one of them does not fit. -/
def Blocked (c : Conversion) (p : Pair) : Prop := ∃ q, c.Reaches p q ∧ c.Unfit q

/-- The fault of a conversion that leads to types that do not fit. It is a mismatch, and somewhere
    on the way from the pair there is what raised it. -/
structure Misfits (c : Conversion) (p : Pair) (f : Fault) : Prop where
  mismatch : f.IsMismatch
  blocked : c.Blocked p

/-! ## What stops a conversion, whatever stands in the registry -/

/-- The comparison of the two attributes ends with a mismatch, wherever they stand. Paths are only
    labels, so it ends with one from any others. -/
def Mismatched (c : Conversion) (p : Pair) : Prop :=
  ∃ paths f, f.IsMismatch ∧ (c.registry.compatible p.1 p.2 paths).run = some (.error f)

/-- The pair does not fit, and not only because of a reference that leads to no structure. The cases
    are those of `Unfit`, with a comparison that ends in a mismatch wherever one fails. -/
inductive Unlike (c : Conversion) (p : Pair) : Prop where
  /-- The attributes do not fit, and there is no box to open. -/
  | refused (h : c.Mismatched p) (hbox : c.openBox? p.1 p.2 = .ok none)
  /-- They do not fit with a box opened. -/
  | boxed {q : Pair} (hfails : (c.registry.compatible p.1 p.2 {}).Fails)
      (hbox : c.openBox? p.1 p.2 = .ok (some q)) (h : c.Mismatched q)
  | arity {inner : Pair} {u v : UnionType} (hr : (c.reconcile p.1 p.2).Yields inner)
      (hu : c.registry.union? inner.1 = .ok (some u))
      (hv : c.registry.union? inner.2 = .ok (some v)) (hne : u.2.length ≠ v.2.length)
  | alternative {inner : Pair} {u v : UnionType} {x y : Attribute}
      (hr : (c.reconcile p.1 p.2).Yields inner) (hu : c.unions inner.1 inner.2 = .ok (u, v))
      (hxy : (x, y) ∈ (u.2.map Prod.snd).zip (v.2.map Prod.snd))
      (hp : c.registry.isPrimitive x = .ok true) (hc : c.Mismatched (x, y))

/-- The conversion of the pair fails with the fault: it leads to a pair that does not fit, or a
    reference that it meets leads to no structure. -/
inductive Stops (c : Conversion) (p : Pair) (f : Fault) : Prop where
  | unlike {q : Pair} (hf : f.IsMismatch) (hq : c.Reaches p q) (h : c.Unlike q)
  | lost (h : c.registry.LostBoth p f)

theorem Mismatched.fails (h : c.Mismatched p) : (c.registry.compatible p.1 p.2 {}).Fails := by
  obtain ⟨paths, f, -, hf⟩ := h
  exact (Registry.compatible_fails_iff _ _).mp ⟨f, hf⟩

/-- What does not fit stops a conversion. The converse is not true: a pair can also be unfit because
    a reference leads nowhere. -/
theorem Unlike.unfit (h : c.Unlike p) : c.Unfit p := by
  cases h with
  | refused h hbox =>
    exact .refused (reconcile_fails_iff.mpr ⟨h.fails, fun q hq => by cases hbox.symm.trans hq⟩)
  | boxed hfails hbox h =>
    refine .refused (reconcile_fails_iff.mpr ⟨hfails, fun q hq => ?_⟩)
    obtain rfl := Option.some.inj (Except.ok.inj (hbox.symm.trans hq))
    exact h.fails
  | arity hr hu hv hne => exact .arity hr hu hv hne
  | alternative hr hu hxy hp h => exact .alternative hr hu hxy hp h.fails

/-! ### What is reached is met -/

/-- What is nested in a pair is met by walks through its two sides. So a reference that is lost at a
    member is lost below the pair, and can be told of in terms of the request. -/
theorem Member.meets {x : HelperSite} (h : c.Member p x) : c.registry.MeetsBoth p x.pair := by
  cases h with
  | element ha hb => exact ⟨Registry.elem?_meets ha, Registry.elem?_meets hb⟩
  | key ha hb => exact ⟨(Registry.entry?_meets ha).1, (Registry.entry?_meets hb).1⟩
  | entry ha hb => exact ⟨(Registry.entry?_meets ha).2, (Registry.entry?_meets hb).2⟩
  | alternative hu hxy =>
    obtain ⟨ha, hb, -⟩ := unions_eq_ok.mp hu
    exact ⟨Registry.union?_meets ha (List.of_mem_zip hxy).1,
      Registry.union?_meets hb (List.of_mem_zip hxy).2⟩
  | field ha hb hm =>
    exact ⟨Registry.field_meets ha (mem_matchFields hm).1,
      Registry.field_meets hb (mem_matchFields hm).2⟩

theorem openBox?_meets (h : c.openBox? p.1 p.2 = .ok (some q)) : c.registry.MeetsBoth p q := by
  rcases openBox?_eq_some h with ⟨-, hsource, ho⟩ | ⟨-, htarget, ho⟩
  · exact ⟨hsource ▸ .refl, Registry.unbox?_meets ho⟩
  · exact ⟨Registry.unbox?_meets ho, htarget ▸ .refl⟩

theorem reconcile_meets (h : (c.reconcile p.1 p.2).Yields q) : c.registry.MeetsBoth p q := by
  rcases reconcile_yields_iff.mp h with ⟨-, rfl⟩ | ⟨-, ho, -⟩
  · exact .refl q
  · exact openBox?_meets ho

theorem Nested.meets (h : c.Nested p q) : c.registry.MeetsBoth p q := by
  obtain ⟨inner, required, hr, hm⟩ := h
  exact (reconcile_meets hr).trans hm.meets

/-- What a conversion leads to is met by walks from its two sides, so references that are lost there
    are lost from the start. -/
theorem Reaches.meets (h : c.Reaches p q) : c.registry.MeetsBoth p q := by
  induction h with
  | refl => exact .refl p
  | tail _ hqr ih => exact ih.trans hqr.meets

theorem Stops.of_reaches {f : Fault} (h : c.Reaches p q) (hq : c.Stops q f) : c.Stops p f := by
  cases hq with
  | unlike hf hr hunlike => exact .unlike hf (h.trans hr) hunlike
  | lost hlost => exact .lost (h.meets.lost hlost)

theorem Unlike.stops {f : Fault} (h : c.Unlike p) (hf : f.IsMismatch) : c.Stops p f :=
  .unlike hf .refl h

/-! ## References stay resolved -/

section

variable (hs : c.registry.Sound)
include hs

theorem resolvesBoth_of_mem_standingPairs (hp : c.registry.ResolvesBoth p)
    (hq : q ∈ c.registry.standingPairs p) : c.registry.ResolvesBoth q :=
  have h := Registry.mem_standingPairs.mp hq
  ⟨hs.of_mem_standing hp.source h.1, hs.of_mem_standing hp.target h.2⟩

theorem Reaches.resolvesBoth (h : c.Reaches p q) (hp : c.registry.ResolvesBoth p) :
    c.registry.ResolvesBoth q :=
  resolvesBoth_of_mem_standingPairs hs hp h.mem_standing

theorem Member.resolvesBoth {x : HelperSite} (h : c.Member p x)
    (hp : c.registry.ResolvesBoth p) : c.registry.ResolvesBoth x.pair :=
  resolvesBoth_of_mem_standingPairs hs hp (h.mem_standing (Reaches.mem_standing .refl))

theorem resolvesBoth_of_openBox (hp : c.registry.ResolvesBoth p)
    (h : c.openBox? p.1 p.2 = .ok (some q)) : c.registry.ResolvesBoth q :=
  resolvesBoth_of_mem_standingPairs hs hp (openBox?_mem_standing h (Reaches.mem_standing .refl))

theorem resolvesBoth_of_reconcile (hp : c.registry.ResolvesBoth p)
    (h : (c.reconcile p.1 p.2).Yields q) : c.registry.ResolvesBoth q := by
  rcases reconcile_yields_iff.mp h with ⟨-, rfl⟩ | ⟨-, ho, -⟩
  · exact hp
  · exact resolvesBoth_of_openBox hs hp ho

end

theorem Stops.misfits {f : Fault} (hs : c.registry.Sound) (hp : c.registry.ResolvesBoth p)
    (h : c.Stops p f) : c.Misfits p f := by
  cases h with
  | unlike hf hq h => exact ⟨hf, _, hq, h.unfit⟩
  | lost h => exact (h.elim (hs.not_lost hp.source) (hs.not_lost hp.target)).elim

/-! ## Names of helpers, and boxes -/

theorem openBox?_lost {f : Fault} (h : c.openBox? p.1 p.2 = .error f) :
    c.registry.LostBoth p f := by
  unfold openBox? at h
  split at h
  · rcases except_bind_eq_error.mp h with ho | ⟨_, -, h⟩
    · exact .inr (Registry.unbox?_lost ho)
    · cases h
  · rcases except_bind_eq_error.mp h with ho | ⟨_, -, h⟩
    · exact .inl (Registry.unbox?_lost ho)
    · cases h

theorem callsHelper_failsOnly :
    (c.callsHelper p.1 p.2).FailsOnly (c.registry.LostBoth p) := by
  unfold callsHelper
  split
  · exact Walk.failsOnly_pure
  · refine Walk.failsOnly_bind.mpr ⟨Walk.failsOnly_liftM.mpr fun f hf => .inl ?_,
      fun isPrimitive _ => ?_⟩
    · exact Registry.lost_of_kind (Registry.kind_of_isPrimitive_error hf)
    · split
      · exact Walk.failsOnly_pure
      · exact Walk.failsOnly_succeeds

theorem exists_helperName (hc : c.scope = .ofRegistry c.registry)
    (h : (c.callsHelper p.1 p.2).Yields true) : ∃ name, c.helperName p.1 p.2 = .ok name := by
  obtain ⟨x, y, hnames⟩ := (known_of_calls h).exists_names hc
  exact ⟨_, hnames.helperName (hnames.capital hc (known_of_calls h))⟩

theorem reconcile_stops : (c.reconcile p.1 p.2).FailsOnly (c.Stops p) := by
  unfold reconcile
  refine Walk.failsOnly_bind.mpr ⟨Walk.failsOnly_outcome, fun o ho => ?_⟩
  cases o with
  | ok _ => exact Walk.failsOnly_pure
  | error why =>
    have ho := Walk.yields_outcome.mp ho
    refine Walk.failsOnly_bind.mpr
      ⟨Walk.failsOnly_liftM.mpr fun f hf => .lost (openBox?_lost hf), fun o hbox => ?_⟩
    have hbox := Walk.yields_liftM.mp hbox
    cases o with
    | none =>
      refine Walk.failsOnly_throw.mpr ?_
      rcases Registry.compatible_failsOnly why ho with hwhy | hlost
      · exact Unlike.stops (.refused ⟨{}, why, hwhy, ho⟩ hbox) hwhy
      · exact .lost hlost
    | some inner =>
      refine Walk.failsOnly_bind.mpr ⟨fun f hf => ?_, fun _ _ => Walk.failsOnly_pure⟩
      rcases Registry.compatible_failsOnly f hf with hmismatch | hlost
      · exact Unlike.stops (.boxed ⟨why, ho⟩ hbox ⟨{}, f, hmismatch, hf⟩) hmismatch
      · exact .lost ((openBox?_meets hbox).lost hlost)

/-- Two unions correspond unless they have different numbers of alternatives. The fault names both
    unions with their numbers, in the order of source and target. -/
theorem arity_of_unions {a b : Attribute} {u v : UnionType} {f : Fault}
    (hu : c.registry.union? a = .ok (some u)) (hv : c.registry.union? b = .ok (some v))
    (hf : c.unions a b = .error f) :
    u.2.length ≠ v.2.length ∧ f = .arity u.1 u.2.length v.1 v.2.length := by
  unfold unions at hf
  simp only [except_bind_eq_error, hu, hv, reduceCtorEq, false_or, Except.ok.injEq,
    exists_eq_left'] at hf
  split at hf
  · cases hf
  · rename_i hne
    cases hf
    exact ⟨hne, rfl⟩

/-- No box is opened for a primitive: it is no object, let alone one with a single field. For that
    reason a pair of primitives that does not fit has been refused for good. -/
theorem openBox?_of_primitive {x y : Primitive}
    (hx : c.registry.kind p.1 = .ok (.primitive x))
    (hy : c.registry.kind p.2 = .ok (.primitive y)) : c.openBox? p.1 p.2 = .ok none := by
  have closed : ∀ {a : Attribute} {z : Primitive}, c.registry.kind a = .ok (.primitive z) →
      c.registry.unbox? a = .ok none := by
    intro a z ha
    obtain ⟨o, ho⟩ := Registry.exists_unbox? ha
    cases o with
    | none => exact ho
    | some content => cases (Registry.kind_of_unbox ho).symm.trans ha
  unfold openBox?
  cases c.wire with
  | target => rw [closed hy]; rfl
  | source => rw [closed hx]; rfl

/-! ## The sites of the code -/

theorem Below.ready (h : c.Below s t) : t.Ready := by
  cases h with
  | element => exact ⟨rfl, fun h => absurd h Bool.false_ne_true⟩
  | key => exact ⟨rfl, fun _ => ⟨_, rfl⟩⟩
  | entry => exact ⟨rfl, fun _ => ⟨_, rfl⟩⟩
  | field => exact ⟨rfl, fun h => absurd h Bool.false_ne_true⟩
  | alternative => exact ⟨rfl, fun h => absurd h Bool.false_ne_true⟩

theorem Wraps.ready (h : c.Wraps s t) : t.Ready := by
  cases h with
  | alternative => exact ⟨rfl, fun _ => ⟨_, rfl⟩⟩

theorem InPlace.ready (h : c.InPlace s t) : t.Ready := by
  cases h with
  | unfolded _ ht _ => exact ht.ready
  | wrapped _ ht => exact ht.ready

/-- A place that has to be declared is a variable, also where a box is opened. -/
theorem Opens.declares (h : c.Opens s inner)
    (hs : s.declare = true → ∃ name, s.place = .ident name) :
    inner.declare = true → ∃ name, inner.place = .ident name := by
  cases h with
  | plain => exact hs
  | boxed _ _ ho =>
    cases unboxed_yields ho with
    | target => exact fun h => absurd h Bool.false_ne_true
    | source => exact hs

theorem InPlace.nested (h : c.InPlace s t) : c.Nested s.pair t.pair := h.unfolds.nested

theorem Opens.meets (ho : c.Opens s inner) : c.registry.MeetsBoth s.pair inner.pair :=
  reconcile_meets (p := s.pair) ho.reconcile

section

variable {f : Fault} (hc : c.scope = .ofRegistry c.registry)
include hc

theorem sourceRef_lost {a : Attribute} (h : c.sourceRef a = .error f) : c.registry.Lost a f := by
  rw [sourceRef, hc] at h
  exact Scope.typeRef_lost h

theorem targetRef_lost {a : Attribute} (h : c.targetRef a = .error f) : c.registry.Lost a f := by
  rw [targetRef, hc] at h
  exact Scope.typeRef_lost h

theorem converted?_lost {a b : Attribute} {isPointer : Bool} {value : Expr}
    (h : c.converted? a b isPointer value = .error f) : c.registry.LostBoth (a, b) f := by
  unfold converted? at h
  rcases except_bind_eq_error.mp h with ha | ⟨_, -, h⟩
  · exact .inl (sourceRef_lost hc ha)
  · rcases except_bind_eq_error.mp h with hb | ⟨_, -, h⟩
    · exact .inr (targetRef_lost hc hb)
    · split at h <;> cases h

theorem isNamedObject_lost {a : Attribute} (h : c.scope.isNamedObject a = .error f) :
    c.registry.Lost a f := by
  rw [hc] at h
  exact Registry.lost_of_kind (Scope.kind_of_isNamedObject_error h)

end

/-! ## Where the faults of code come from -/

/-- The faults of the code of a site whose attributes fit, by where they come from. Each field is
    one source of faults, and all of them have the property. -/
structure FailsBelow (c : Conversion) (emit : Emit) (s : Site) (P : Fault → Prop) : Prop where
  /-- A reference leads to no structure. -/
  lost : ∀ {q : Pair} {f : Fault}, c.registry.MeetsBoth s.pair q → c.registry.LostBoth q f → P f
  /-- Two unions have different numbers of alternatives. -/
  arity : ∀ {u v : UnionType}, c.registry.union? s.source = .ok (some u) →
    c.registry.union? s.target = .ok (some v) → u.2.length ≠ v.2.length →
      P (.arity u.1 u.2.length v.1 v.2.length)
  /-- A primitive alternative is compared where it is stored. -/
  alternative : ∀ {u v : UnionType} {x y : Attribute}, c.unions s.source s.target = .ok (u, v) →
    (x, y) ∈ (u.2.map Prod.snd).zip (v.2.map Prod.snd) → c.registry.isPrimitive x = .ok true →
      (c.compatible (s.alternative x y)).FailsOnly P
  /-- The primitives of a field are compared before any code is built. -/
  field : ∀ {v w : ObjectView} {m : FieldMatch}, ObjectView.of? c.registry s.source = .ok (some v) →
    ObjectView.of? c.registry s.target = .ok (some w) → m ∈ matchFields v w →
      c.registry.isPrimitive m.source = .ok true → c.registry.isPrimitive m.target = .ok true →
        (c.registry.compatible m.source m.target ⟨(s.value.field (v.fieldName m.name)).print,
          (s.place.field (w.fieldName m.name)).print⟩).FailsOnly P
  /-- Code is in place one level below. -/
  nested : ∀ {t : Site}, c.Below s t → (c.callsHelper t.source t.target).Yields false →
    (emit t).FailsOnly P
  wrapped : ∀ {t : Site}, c.Wraps s t → (emit t).FailsOnly P

section

variable {P : Fault → Prop} (hc : c.scope = .ofRegistry c.registry) (h : c.FailsBelow emit s P)
include hc h

theorem nested_failsOnly (ht : c.Below s t) : (c.nested emit t).FailsOnly P := by
  obtain ⟨required, hm⟩ := ht.member
  unfold Conversion.nested
  refine Walk.failsOnly_bind.mpr ⟨?_, fun calls hcalls => ?_⟩
  · exact (callsHelper_failsOnly (p := t.pair)).mono fun f hf => h.lost hm.meets hf
  cases calls with
  | true =>
    refine Walk.failsOnly_bind.mpr ⟨Walk.failsOnly_of_ok ?_, fun _ _ => Walk.failsOnly_pure⟩
    exact exists_helperName (p := t.pair) hc hcalls
  | false => exact h.nested ht hcalls

theorem array_failsOnly (hsource : c.registry.kind s.source = .ok .array)
    (htarget : c.registry.kind s.target = .ok .array) : (c.array emit s).FailsOnly P := by
  obtain ⟨x, hx⟩ := Registry.exists_elem hsource
  obtain ⟨y, hy⟩ := Registry.exists_elem htarget
  have hmember : c.Member s.pair ⟨x, y, false⟩ := .element hx hy
  unfold array
  simp only [Walk.failsOnly_bind, Walk.failsOnly_liftM, Walk.yields_liftM, hx, hy, reduceCtorEq,
    false_imp_iff, implies_true, true_and, Except.ok.injEq, forall_eq']
  refine ⟨fun f hf => h.lost hmember.meets (.inr (targetRef_lost hc hf)), fun _ _ => ?_⟩
  exact ⟨nested_failsOnly hc h (.element hx hy), fun _ _ => Walk.failsOnly_pure⟩

theorem map_failsOnly (hsource : c.registry.kind s.source = .ok .map)
    (htarget : c.registry.kind s.target = .ok .map) : (c.map emit s).FailsOnly P := by
  obtain ⟨⟨k, x⟩, hx⟩ := Registry.exists_entry hsource
  obtain ⟨⟨l, y⟩, hy⟩ := Registry.exists_entry htarget
  have hkey : c.Member s.pair ⟨k, l, false⟩ := .key hx hy
  have hentry : c.Member s.pair ⟨x, y, false⟩ := .entry hx hy
  unfold map
  simp only [Walk.failsOnly_bind, Walk.failsOnly_liftM, Walk.yields_liftM, hx, hy, reduceCtorEq,
    false_imp_iff, implies_true, true_and, Except.ok.injEq, forall_eq']
  refine ⟨fun f hf => h.lost hkey.meets (.inr (targetRef_lost hc hf)), fun _ _ =>
    ⟨fun f hf => h.lost hentry.meets (.inr (targetRef_lost hc hf)), fun _ _ =>
      ⟨?_, fun _ _ => ⟨?_, fun _ _ => Walk.failsOnly_pure⟩⟩⟩⟩
  · exact nested_failsOnly hc h (.key hx hy)
  · exact nested_failsOnly hc h (.entry hx hy)

/-! ### Unions -/

theorem alternative_failsOnly {u v : UnionType} {index : Nat} {x y : Attribute}
    (hu : c.unions s.source s.target = .ok (u, v)) (hi : index < v.2.length)
    (hxy : (x, y) ∈ (u.2.map Prod.snd).zip (v.2.map Prod.snd)) :
    (c.alternative emit s v index x y).FailsOnly P := by
  have hmember : c.Member s.pair ⟨x, y, true⟩ := .alternative hu hxy
  unfold alternative
  refine Walk.failsOnly_bind.mpr ⟨Walk.failsOnly_liftM.mpr fun f hf =>
    h.lost hmember.meets (.inl (isNamedObject_lost hc hf)), fun named hn => ?_⟩
  have hn := Walk.yields_liftM.mp hn
  cases named with
  | true => exact nested_failsOnly hc h (.alternative hu hxy hn)
  | false =>
    -- The wrapper type depends on the names of all alternatives of the target's union, so any of
    -- them may be the one that is lost.
    refine Walk.failsOnly_bind.mpr ⟨Walk.failsOnly_liftM.mpr fun f hf => ?_, fun wrapper _ => ?_⟩
    · rw [hc] at hf
      obtain ⟨z, hz, hf⟩ := Scope.alternativeRef_lost hi hf
      refine h.lost (.refl _) (.inr (.of_meets ?_ hf))
      exact Registry.union?_meets (unions_eq_ok.mp hu).2.1 hz
    refine Walk.failsOnly_bind.mpr
      ⟨Walk.failsOnly_liftM.mpr fun f hf => ?_, fun isPrimitive hp => ?_⟩
    · exact h.lost hmember.meets
        (.inl (Registry.lost_of_kind (Registry.kind_of_isPrimitive_error hf)))
    have hp := Walk.yields_liftM.mp hp
    cases isPrimitive with
    | true =>
      exact Walk.failsOnly_bind.mpr ⟨h.alternative hu hxy hp, fun _ _ => Walk.failsOnly_pure⟩
    | false =>
      refine Walk.failsOnly_bind.mpr ⟨?_, fun _ _ => Walk.failsOnly_pure⟩
      exact h.wrapped (.alternative hu hxy hn hp)

/-- The cases of a switch. Their number does not exceed that of the target's alternatives, so each
    has a type to be stored as. -/
theorem cases_failsOnly {u v : UnionType} (hu : c.unions s.source s.target = .ok (u, v)) :
    ∀ {pairs : List (Attribute × Attribute)} {index : Nat},
      pairs ⊆ (u.2.map Prod.snd).zip (v.2.map Prod.snd) →
      index + pairs.length ≤ v.2.length →
      (c.cases emit s u v index pairs).FailsOnly P := by
  obtain ⟨hsource, -, hlength⟩ := unions_eq_ok.mp hu
  intro pairs
  induction pairs with
  | nil => intro index _ _; exact Walk.failsOnly_pure
  | cons q rest ih =>
    intro index hsub hle
    rw [List.cons_subset] at hsub
    rw [List.length_cons] at hle
    rw [Conversion.cases]
    refine Walk.failsOnly_bind.mpr ⟨Walk.failsOnly_liftM.mpr fun f hf => ?_, fun _ _ => ?_⟩
    · rw [hc] at hf
      obtain ⟨z, hz, hf⟩ := Scope.alternativeRef_lost (by omega) hf
      exact h.lost (.refl _) (.inl (.of_meets (Registry.union?_meets hsource hz) hf))
    refine Walk.failsOnly_bind.mpr
      ⟨alternative_failsOnly hc h hu (by omega) hsub.1, fun _ _ => ?_⟩
    refine Walk.failsOnly_bind.mpr ⟨?_, fun _ _ => Walk.failsOnly_pure⟩
    exact ih hsub.2 (by omega)

theorem union_failsOnly (hplace : s.declare = true → ∃ name, s.place = .ident name)
    (hsource : c.registry.kind s.source = .ok .union)
    (htarget : c.registry.kind s.target = .ok .union) : (c.union emit s).FailsOnly P := by
  obtain ⟨u, hu⟩ := Registry.exists_union hsource
  obtain ⟨v, hv⟩ := Registry.exists_union htarget
  unfold union
  refine Walk.failsOnly_bind.mpr
    ⟨Walk.failsOnly_liftM.mpr fun f hf => ?_, fun x hx => ?_⟩
  -- To a comparison any two unions fit, so it is here that different numbers of alternatives are
  -- noticed.
  · obtain ⟨hne, rfl⟩ := arity_of_unions hu hv hf
    exact h.arity hu hv hne
  obtain ⟨u, v⟩ := x
  have hx := Walk.yields_liftM.mp hx
  refine Walk.failsOnly_bind.mpr ⟨?_, fun _ _ => ?_⟩
  · unfold declaration
    split
    · rename_i hdeclare
      obtain ⟨name, hplace⟩ := hplace hdeclare
      rw [hplace]
      refine Walk.failsOnly_bind.mpr
        ⟨Walk.failsOnly_liftM.mpr fun f hf => ?_, fun _ _ => Walk.failsOnly_pure⟩
      exact h.lost (.refl _) (.inr (targetRef_lost hc hf))
    · exact Walk.failsOnly_pure
  · refine Walk.failsOnly_bind.mpr ⟨?_, fun _ _ => Walk.failsOnly_pure⟩
    refine cases_failsOnly hc h hx (List.Subset.refl _) ?_
    rw [List.length_zip, List.length_map, List.length_map]
    omega

/-! ### Objects -/

omit hc in
/-- A field is looked up on both sides, and compared if both are primitives. The rest of the site
    needs kinds alone, for which a reference has to lead to a structure. -/
theorem fieldSite_failsOnly {v w : ObjectView} {m : FieldMatch}
    (hv : ObjectView.of? c.registry s.source = .ok (some v))
    (hw : ObjectView.of? c.registry s.target = .ok (some w)) (hm : m ∈ matchFields v w) :
    (c.fieldSite s v w m).FailsOnly P := by
  have hmember : c.Member s.pair ⟨m.source, m.target, v.requires m.name⟩ := .field hv hw hm
  have hsource : ∀ f, c.registry.kind m.source = .error f → P f :=
    fun f hf => h.lost hmember.meets (.inl (Registry.lost_of_kind hf))
  have htarget : ∀ f, c.registry.kind m.target = .error f → P f :=
    fun f hf => h.lost hmember.meets (.inr (Registry.lost_of_kind hf))
  -- What is left once the sides are known to be primitive or not is the same in both branches.
  have hrest : ∀ {g : Bool → Bool → FieldSite}, (do
      let sourcePointer ← c.source.holdsPointer c.registry m.source (v.requires m.name)
      let targetPointer ← c.target.holdsPointer c.registry m.target (w.requires m.name)
      pure (g sourcePointer targetPointer) : Walk FieldSite).FailsOnly P := by
    intro g
    refine Walk.failsOnly_bind.mpr ⟨Walk.failsOnly_liftM.mpr fun f hf =>
      hsource f (Context.kind_of_holdsPointer_error hf), fun _ _ => ?_⟩
    exact Walk.failsOnly_bind.mpr ⟨Walk.failsOnly_liftM.mpr fun f hf =>
      htarget f (Context.kind_of_holdsPointer_error hf), fun _ _ => Walk.failsOnly_pure⟩
  unfold fieldSite
  refine Walk.failsOnly_bind.mpr ⟨Walk.failsOnly_liftM.mpr fun f hf =>
    hsource f (Registry.kind_of_isPrimitive_error hf), fun sourcePrimitive hsp => ?_⟩
  refine Walk.failsOnly_bind.mpr ⟨Walk.failsOnly_liftM.mpr fun f hf =>
    htarget f (Registry.kind_of_isPrimitive_error hf), fun targetPrimitive htp => ?_⟩
  dsimp only
  split
  · rename_i hboth
    rw [Bool.and_eq_true] at hboth
    obtain ⟨rfl, rfl⟩ := hboth
    exact Walk.failsOnly_bind.mpr ⟨h.field hv hw hm (Walk.yields_liftM.mp hsp)
      (Walk.yields_liftM.mp htp), fun _ _ => hrest⟩
  · exact hrest

omit h in
theorem primitiveFields_lost {taken : List String} {f : Fault} : ∀ {fields : List FieldSite},
    c.primitiveFields taken fields = .error f →
      ∃ x ∈ fields, c.registry.LostBoth (x.source, x.target) f := by
  intro fields
  induction fields with
  | nil =>
    intro h
    cases h
  | cons x rest ih =>
    intro h
    rw [primitiveFields] at h
    rcases except_bind_eq_error.mp h with hx | ⟨_, -, h⟩
    · exact ⟨x, List.mem_cons_self, converted?_lost hc hx⟩
    · rcases except_bind_eq_error.mp h with hrest | ⟨_, -, h⟩
      · obtain ⟨y, hy, hf⟩ := ih hrest
        exact ⟨y, List.mem_cons_of_mem _ hy, hf⟩
      · cases h

omit h in
theorem laterDefault_lost {x : FieldSite} {f : Fault} (h : c.laterDefault x = .error f) :
    c.registry.LostBoth (x.source, x.target) f := by
  unfold laterDefault at h
  split at h
  · unfold defaultField at h
    dsimp only at h
    split at h
    · cases h
    · rcases except_bind_eq_error.mp h with hp | ⟨_, -, h⟩
      · exact .inl (Registry.lost_of_kind (Registry.kind_of_primitive?_error hp))
      · rcases except_bind_eq_error.mp h with ht | ⟨_, -, h⟩
        · exact .inr (targetRef_lost hc ht)
        · split at h
          · cases h
          · split at h <;> cases h
  · cases h

omit h in
theorem laterFields_failsOnly {depth : Nat} : ∀ {fields : List FieldSite},
    (∀ x ∈ fields, (∀ f, c.registry.LostBoth (x.source, x.target) f → P f) ∧
      (x.isPrimitive = false → (c.nested emit (x.site depth)).FailsOnly P)) →
      (c.laterFields emit depth fields).FailsOnly P := by
  intro fields
  induction fields with
  | nil => intro _; exact Walk.failsOnly_pure
  | cons x rest ih =>
    intro hx
    rw [List.forall_mem_cons] at hx
    obtain ⟨⟨hlost, hnested⟩, hrest⟩ := hx
    rw [laterFields]
    refine Walk.failsOnly_bind.mpr ⟨?_, fun _ _ => ?_⟩
    -- Primitive fields were stored before, and add nothing here but their defaults.
    · unfold laterValue
      split
      · exact Walk.failsOnly_pure
      · rename_i hp
        unfold structuredField
        refine Walk.failsOnly_bind.mpr ⟨hnested (by simpa using hp), fun code _ => ?_⟩
        split
        · exact Walk.failsOnly_pure
        · exact Walk.failsOnly_pure
    · refine Walk.failsOnly_bind.mpr ⟨Walk.failsOnly_liftM.mpr fun f hf =>
        hlost f (laterDefault_lost hc hf), fun _ _ => ?_⟩
      exact Walk.failsOnly_bind.mpr ⟨ih hrest, fun _ _ => Walk.failsOnly_pure⟩

theorem object_failsOnly (hsource : c.registry.kind s.source = .ok .object)
    (htarget : c.registry.kind s.target = .ok .object) : (c.object emit s).FailsOnly P := by
  obtain ⟨v, hv⟩ := Registry.exists_view hsource
  obtain ⟨w, hw⟩ := Registry.exists_view htarget
  unfold object
  simp only [Walk.failsOnly_bind, Walk.failsOnly_liftM, Walk.yields_liftM, hv, hw, reduceCtorEq,
    false_imp_iff, implies_true, true_and, Except.ok.injEq, forall_eq', Walk.yields_mapM]
  refine ⟨Walk.failsOnly_mapM fun m hm => fieldSite_failsOnly h hv hw hm,
    fun fields hfields => ?_⟩
  have hlost : ∀ x ∈ fields, ∀ f, c.registry.LostBoth (x.source, x.target) f → P f := by
    intro x hx f hf
    obtain ⟨m, hm, hxm⟩ := forall₂_mem_right hfields hx
    have hof := fieldSite_yields hxm
    have hmember : c.Member s.pair ⟨m.source, m.target, v.requires m.name⟩ := .field hv hw hm
    rw [hof.source, hof.target] at hf
    exact h.lost hmember.meets hf
  refine ⟨fun f hf => ?_, fun _ _ => ⟨fun f hf => ?_, fun _ _ =>
    ⟨laterFields_failsOnly hc fun x hx => ⟨hlost x hx, fun hp => ?_⟩,
      fun _ _ => Walk.failsOnly_pure⟩⟩⟩
  · obtain ⟨x, hx, hf⟩ := primitiveFields_lost hc hf
    exact hlost x (List.mem_of_mem_filter hx) f hf
  · exact h.lost (.refl _) (.inr (targetRef_lost hc hf))
  · obtain ⟨m, hm, hxm⟩ := forall₂_mem_right hfields hx
    exact nested_failsOnly hc h (.field hv hw hm hxm hp)

/-! ### Any kind -/

theorem primitive_failsOnly : (c.primitive s).FailsOnly P := by
  unfold primitive
  refine Walk.failsOnly_bind.mpr
    ⟨Walk.failsOnly_liftM.mpr fun f hf => ?_, fun _ _ => Walk.failsOnly_pure⟩
  exact h.lost (.refl _) (converted?_lost hc hf)

/-- Compatible attributes are of kinds for which there is an emitter. This is where an internal
    error would be raised, and cannot be. -/
theorem byKind_failsOnly (hplace : s.declare = true → ∃ name, s.place = .ident name)
    (hfits : (c.registry.compatible s.source s.target {}).Yields ()) :
    (c.byKind emit s).FailsOnly P := by
  obtain ⟨k, l, hk, hl, hkinds⟩ := Registry.kinds_of_compatible hfits
  unfold byKind
  simp only [Walk.failsOnly_bind, Walk.yields_liftM, hk, hl, Except.ok.injEq, forall_eq']
  refine ⟨Walk.failsOnly_of_ok ⟨_, rfl⟩, Walk.failsOnly_of_ok ⟨_, rfl⟩, ?_⟩
  -- A target that takes anything is served first; otherwise the two kinds are the same.
  split
  · exact Walk.failsOnly_pure
  · rename_i hany
    simp only [Bool.and_eq_true, decide_eq_true_eq, Bool.not_eq_true', not_and,
      Bool.not_eq_false] at hany
    cases k with
    | primitive x => exact primitive_failsOnly hc h
    | array =>
      obtain rfl := hkinds.resolve_left fun h => absurd (hany h) (by simp [Kind.isPrimitive])
      exact array_failsOnly hc h hk hl
    | map =>
      obtain rfl := hkinds.resolve_left fun h => absurd (hany h) (by simp [Kind.isPrimitive])
      exact map_failsOnly hc h hk hl
    | object =>
      obtain rfl := hkinds.resolve_left fun h => absurd (hany h) (by simp [Kind.isPrimitive])
      exact object_failsOnly hc h hk hl
    | union =>
      obtain rfl := hkinds.resolve_left fun h => absurd (hany h) (by simp [Kind.isPrimitive])
      exact union_failsOnly hc h hplace hk hl

end

/-- The inside of a box is there, or there is no box, or a reference on the way leads to no
    structure. -/
theorem unboxed_failsOnly {P : Fault → Prop} (hc : c.scope = .ofRegistry c.registry) {why : Fault}
    (hlost : ∀ f, c.registry.LostBoth s.pair f → P f)
    (hwhy : c.openBox? s.source s.target = .ok none → P why) : (c.unboxed s why).FailsOnly P := by
  unfold unboxed
  cases hw : c.wire with
  | target =>
    refine Walk.failsOnly_bind.mpr ⟨Walk.failsOnly_liftM.mpr fun f hf =>
      hlost f (.inr (Registry.unbox?_lost hf)), fun o ho => ?_⟩
    have ho := Walk.yields_liftM.mp ho
    cases o with
    | none =>
      refine Walk.failsOnly_throw.mpr (hwhy ?_)
      simp [openBox?, hw, ho]
    | some content =>
      exact Walk.failsOnly_bind.mpr ⟨Walk.failsOnly_liftM.mpr fun f hf =>
        hlost f (.inr (targetRef_lost hc hf)), fun _ _ => Walk.failsOnly_pure⟩
  | source =>
    refine Walk.failsOnly_bind.mpr ⟨Walk.failsOnly_liftM.mpr fun f hf =>
      hlost f (.inl (Registry.unbox?_lost hf)), fun o ho => ?_⟩
    have ho := Walk.yields_liftM.mp ho
    cases o with
    | none =>
      refine Walk.failsOnly_throw.mpr (hwhy ?_)
      simp [openBox?, hw, ho]
    | some content => exact Walk.failsOnly_pure

/-! ## The code of a conversion that stops -/

/-- The comparison of two attributes that are met one level below fails as they do. -/
theorem compatible_stops {x y : Attribute} {paths : Registry.Paths} {P : Fault → Prop}
    (hunlike : c.Mismatched (x, y) → ∀ f, f.IsMismatch → P f)
    (hlost : ∀ f, c.registry.LostBoth (x, y) f → P f) :
    (c.registry.compatible x y paths).FailsOnly P := by
  intro f hf
  rcases Registry.compatible_failsOnly f hf with hmismatch | h
  · exact hunlike ⟨paths, f, hmismatch, hf⟩ f hmismatch
  · exact hlost f h

/-- What the code of an opened site fails with stops the pair of the site. Sites below stop the pair
    of the site by definition; those beside the opened one stop it since they stop what was
    opened. -/
theorem Opens.failsBelow (ho : c.Opens s inner)
    (hemit : ∀ t, c.InPlace s t → (emit t).FailsOnly (c.Stops t.pair)) :
    c.FailsBelow emit inner (c.Stops s.pair) := by
  have inPlace : ∀ {t : Site}, c.InPlace s t → (emit t).FailsOnly (c.Stops s.pair) := fun ht =>
    (hemit _ ht).mono fun _ hf => hf.of_reaches (.single ht.nested)
  constructor
  case lost => exact fun hq hf => .lost ((ho.meets.trans hq).lost hf)
  case arity => exact fun hu hv hne => Unlike.stops (.arity ho.reconcile hu hv hne) (.arity ..)
  case alternative =>
    intro u v x y hu hxy hp
    have hmember : c.Member inner.pair ⟨x, y, true⟩ := .alternative hu hxy
    refine compatible_stops (fun h f hf => Unlike.stops ?_ hf) fun f hf =>
      .lost ((ho.meets.trans hmember.meets).lost hf)
    exact .alternative ho.reconcile hu hxy hp h
  case field =>
    intro v w m hv hw hm hsp htp
    have hmember : c.Member inner.pair ⟨m.source, m.target, v.requires m.name⟩ := .field hv hw hm
    obtain ⟨x, hx⟩ := Registry.exists_kind hsp
    obtain ⟨y, hy⟩ := Registry.exists_kind htp
    refine compatible_stops (fun h f hf => ?_) fun f hf =>
      .lost ((ho.meets.trans hmember.meets).lost hf)
    -- Two primitives that do not fit have no box between them.
    refine .unlike hf ?_ (.refused h (openBox?_of_primitive (p := (m.source, m.target)) hx hy))
    exact .single ⟨inner.pair, v.requires m.name, ho.reconcile, hmember⟩
  case nested => exact fun ht hcalls => inPlace (.unfolded ho ht hcalls)
  case wrapped => exact fun ht => inPlace (.wrapped ho ht)

/-! ## All levels -/

section

variable (hc : c.scope = .ofRegistry c.registry)
include hc

/-- The code of a site fails where the attributes do not fit, as they are and with a box opened, or
    as that of the opened site does. -/
theorem attrVia_failsOnly {P : Fault → Prop}
    (hplace : s.declare = true → ∃ name, s.place = .ident name)
    (hlost : ∀ f, c.registry.LostBoth s.pair f → P f)
    (hrefused : ∀ why, (c.compatible s).run = some (.error why) →
      s.inBox = true ∨ c.openBox? s.source s.target = .ok none → P why)
    (hboxed : ∀ why box inner, (c.compatible s).run = some (.error why) →
      (c.unboxed s why).Yields (box, inner) → (c.compatible inner).FailsOnly P)
    (hbelow : ∀ inner, c.Opens s inner → c.FailsBelow emit inner P) :
    (c.attrVia emit s).FailsOnly P := by
  -- The kinds of the site are looked at in two places, with and without a box, so what holds below
  -- is brought into one form for both.
  have opened : ∀ {inner : Site}, c.Opens s inner → (c.byKind emit inner).FailsOnly P :=
    fun ho => byKind_failsOnly hc (hbelow _ ho) (ho.declares hplace) ho.compatible
  unfold attrVia
  refine Walk.failsOnly_bind.mpr ⟨Walk.failsOnly_outcome, fun o ho => ?_⟩
  have ho := Walk.yields_outcome.mp ho
  cases o with
  | ok _ => exact opened (.plain ho)
  | error why =>
    dsimp only
    split
    · rename_i hin
      exact Walk.failsOnly_throw.mpr (hrefused why ho (.inl hin))
    · rename_i hin
      refine Walk.failsOnly_bind.mpr
        ⟨unboxed_failsOnly hc hlost fun hbox => hrefused why ho (.inr hbox), fun x hx => ?_⟩
      obtain ⟨box, inner⟩ := x
      refine Walk.failsOnly_bind.mpr ⟨hboxed why box inner ho hx, fun _ hcompatible => ?_⟩
      refine Walk.failsOnly_bind.mpr ⟨?_, fun _ _ => Walk.failsOnly_pure⟩
      exact opened (.boxed ⟨why, ho⟩ (by simpa using hin) hx hcompatible)

/-- Code whose sites below fail as their pairs do fails as its own does. One level of the
    emitter. -/
theorem attrVia_stops (hready : s.Ready)
    (hemit : ∀ t, c.InPlace s t → (emit t).FailsOnly (c.Stops t.pair)) :
    (c.attrVia emit s).FailsOnly (c.Stops s.pair) := by
  refine attrVia_failsOnly hc hready.place (fun _ hf => .lost hf) (fun why hwhy hbox => ?_)
    (fun why box inner hwhy hx => ?_) fun inner ho => ho.failsBelow hemit
  · have hbox := hbox.resolve_left (by simp [hready.inBox])
    rcases Registry.compatible_failsOnly why hwhy with hmismatch | hlost
    · exact Unlike.stops (.refused ⟨s.paths, why, hmismatch, hwhy⟩ hbox) hmismatch
    · exact .lost hlost
  · have hbox := (unboxed_yields hx).opened
    refine compatible_stops (fun h f hf => ?_) fun f hf => ?_
    · exact Unlike.stops (.boxed (compatible_fails.mp ⟨why, hwhy⟩) hbox h) hf
    · exact .lost ((openBox?_meets (p := s.pair) hbox).lost hf)

/-- All levels. Without any left the code does not fail either, it just does not end. -/
theorem attrWithin_failsOnly : ∀ {levels : Nat} {s : Site}, s.Ready →
    (c.attrWithin levels s).FailsOnly (c.Stops s.pair) := by
  intro levels
  induction levels with
  | zero => intro s _; exact Walk.failsOnly_exhausted
  | succ levels ih =>
    intro s hready
    exact attrVia_stops hc hready fun t ht => ih ht.ready

theorem helper_failsOnly {name : String} {x : HelperSite} :
    (c.helper name x).FailsOnly (c.Stops x.pair) := by
  unfold Conversion.helper
  refine Walk.failsOnly_bind.mpr ⟨Walk.failsOnly_liftM.mpr fun f hf =>
    .lost (.inl (sourceRef_lost hc hf)), fun _ _ => ?_⟩
  refine Walk.failsOnly_bind.mpr ⟨Walk.failsOnly_liftM.mpr fun f hf =>
    .lost (.inr (targetRef_lost hc hf)), fun _ _ => ?_⟩
  refine Walk.failsOnly_bind.mpr ⟨?_, fun _ _ => Walk.failsOnly_pure⟩
  exact attrWithin_failsOnly hc (s := x.inner) ⟨rfl, fun _ => ⟨_, rfl⟩⟩

end

/-! ## The search -/

/-- The members of a pair can be listed unless a reference leads to no structure, or the pair is one
    of unions with different numbers of alternatives. -/
theorem members_eq_error {f : Fault} (hf : c.members q.1 q.2 = .error f) :
    c.registry.LostBoth q f ∨ ∃ u v, c.registry.union? q.1 = .ok (some u) ∧
      c.registry.union? q.2 = .ok (some v) ∧ u.2.length ≠ v.2.length ∧
        f = .arity u.1 u.2.length v.1 v.2.length := by
  unfold members at hf
  rcases except_bind_eq_error.mp hf with hk | ⟨k, hk, hf⟩
  · exact .inl (.inl (Registry.lost_of_kind hk))
  cases k with
  -- Each kind looks up its part on either side, and only for unions can more go wrong than that the
  -- type is not there.
  | primitive => cases hf
  | array =>
    rcases except_bind_eq_error.mp hf with hx | ⟨x, -, hf⟩
    · exact .inl (.inl (Registry.elem?_lost hx))
    rcases except_bind_eq_error.mp hf with hy | ⟨y, -, hf⟩
    · exact .inl (.inr (Registry.elem?_lost hy))
    split at hf <;> cases hf
  | map =>
    rcases except_bind_eq_error.mp hf with hx | ⟨x, -, hf⟩
    · exact .inl (.inl (Registry.entry?_lost hx))
    rcases except_bind_eq_error.mp hf with hy | ⟨y, -, hf⟩
    · exact .inl (.inr (Registry.entry?_lost hy))
    split at hf <;> cases hf
  | object =>
    rcases except_bind_eq_error.mp hf with hv | ⟨v, -, hf⟩
    · exact .inl (.inl (Registry.view_lost hv))
    rcases except_bind_eq_error.mp hf with hw | ⟨w, -, hf⟩
    · exact .inl (.inr (Registry.view_lost hw))
    split at hf <;> cases hf
  | union =>
    obtain ⟨u, hu⟩ := Registry.exists_union hk
    rcases except_bind_eq_error.mp hf with hv | ⟨o, ho, hf⟩
    · exact .inl (.inr (Registry.union?_lost hv))
    cases o with
    | none => cases hf
    | some v =>
      rcases except_bind_eq_error.mp hf with hunions | ⟨_, -, hf⟩
      · obtain ⟨hne, rfl⟩ := arity_of_unions hu ho hunions
        exact .inr ⟨u, v, hu, ho, hne, rfl⟩
      · cases hf

/-- The faults of a search that goes through the pairs `I`, by where they come from. The last two
    fields say that `I` is kept: below a helper that was made, and below what is in place. -/
structure SearchFails (c : Conversion) (make : String → HelperSite → Walk α) (I : Pair → Prop)
    (P : Fault → Prop) : Prop where
  /-- A reference leads to no structure. -/
  lost : ∀ {p q : Pair} {f : Fault}, I p → c.registry.MeetsBoth p q → c.registry.LostBoth q f → P f
  /-- A pair does not fit. -/
  reconcile : ∀ {p : Pair}, I p → (c.reconcile p.1 p.2).FailsOnly P
  /-- Two unions have different numbers of alternatives. -/
  arity : ∀ {p q : Pair} {u v : UnionType}, I p → (c.reconcile p.1 p.2).Yields q →
    c.registry.union? q.1 = .ok (some u) → c.registry.union? q.2 = .ok (some v) →
      u.2.length ≠ v.2.length → P (.arity u.1 u.2.length v.1 v.2.length)
  /-- Something cannot be made of a helper. -/
  making : ∀ {p : Pair} {x : HelperSite} {name : String}, I p → c.Nested p x.pair →
    c.Delegates x.pair name → (make name x).FailsOnly P
  inHelper : ∀ {p : Pair} {x : HelperSite} {name : String} {made : α}, I p → c.Nested p x.pair →
    (make name x).Yields made → I x.pair
  inPlace : ∀ {p q : Pair}, I p → c.Nested p q → (c.callsHelper q.1 q.2).Yields false → I q

theorem collectAll_failsOnly {collect : HelperSite → HelperWalk (List α)} {P : Fault → Prop} :
    ∀ {sites : List HelperSite}, (∀ x ∈ sites, (collect x).FailsOnly P) →
      (collectAll collect sites).FailsOnly P := by
  intro sites
  induction sites with
  | nil => intro _; exact HelperWalk.failsOnly_pure
  | cons x rest ih =>
    intro h
    rw [List.forall_mem_cons] at h
    rw [collectAll]
    refine HelperWalk.failsOnly_bind h.1 fun _ _ _ _ => ?_
    exact HelperWalk.failsOnly_bind (ih h.2) fun _ _ _ _ => HelperWalk.failsOnly_pure

section

variable {make : String → HelperSite → Walk α} {I : Pair → Prop} {P : Fault → Prop}
  (h : c.SearchFails make I P)
include h

theorem collectMembers_failsOnly {collect : HelperSite → HelperWalk (List α)}
    (hcollect : ∀ x, c.Nested p x.pair → (collect x).FailsOnly P) (hp : I p) :
    (c.collectMembers collect p.1 p.2).FailsOnly P := by
  unfold collectMembers
  refine HelperWalk.failsOnly_bind (HelperWalk.failsOnly_liftM.mpr (h.reconcile hp))
    fun inner _ _ hinner => ?_
  have hinner := (HelperWalk.yields_liftM.mp hinner).1
  refine HelperWalk.failsOnly_bind (HelperWalk.failsOnly_liftExcept fun f hf => ?_)
    fun sites _ _ hsites => ?_
  · rcases members_eq_error hf with hlost | ⟨u, v, hu, hv, hne, rfl⟩
    · exact h.lost hp (reconcile_meets hinner) hlost
    · exact h.arity hp hinner hu hv hne
  · have hsites := (HelperWalk.yields_liftExcept.mp hsites).1
    exact collectAll_failsOnly fun x hx =>
      hcollect x ⟨inner, x.required, hinner, member_of_mem_members hsites hx⟩

variable (hc : c.scope = .ofRegistry c.registry)
include hc

/-- By induction on the levels. A name that was met before ends the search without any fault. What
    holds of the pairs on the way is carried by `I`, and the premises in `SearchFails` say how each
    step of the search keeps it. -/
theorem collectWithin_failsOnly : ∀ {levels : Nat} {p : Pair} (x : HelperSite), I p →
    c.Nested p x.pair → (c.collectWithin make levels x).FailsOnly P := by
  intro levels
  induction levels with
  | zero =>
    intro p x _ _
    exact HelperWalk.failsOnly_ofWalk.mpr Walk.failsOnly_exhausted
  | succ levels ih =>
    intro p x hp hx
    have hmembers : I x.pair →
        (c.collectMembers (c.collectWithin make levels) x.source x.target).FailsOnly P := fun hI =>
      collectMembers_failsOnly (p := x.pair) h (fun y hy => ih y hI hy) hI
    rw [collectWithin]
    refine HelperWalk.failsOnly_bind (HelperWalk.failsOnly_liftM.mpr ?_) fun calls _ _ hcalls => ?_
    · exact (callsHelper_failsOnly (p := x.pair)).mono fun f hf => h.lost hp hx.meets hf
    · have hcalls := (HelperWalk.yields_liftM.mp hcalls).1
      cases calls with
      | false => exact hmembers (h.inPlace hp hx hcalls)
      | true =>
        -- A pair that calls a helper has a name for it, so this step cannot fail after the one
        -- before.
        obtain ⟨name, hname⟩ := exists_helperName (p := x.pair) hc hcalls
        have hname : c.helperName x.source x.target = .ok name := hname
        refine HelperWalk.failsOnly_bind
          (HelperWalk.failsOnly_liftExcept fun f hf => absurd (hname.symm.trans hf) (by simp))
          fun name _ _ hname => ?_
        have hname := (HelperWalk.yields_liftExcept.mp hname).1
        refine HelperWalk.failsOnly_bind (HelperWalk.failsOnly_meet name) fun isNew _ _ _ => ?_
        cases isNew with
        | false => exact HelperWalk.failsOnly_pure
        | true =>
          refine HelperWalk.failsOnly_bind
            (HelperWalk.failsOnly_liftM.mpr (h.making hp hx ⟨hcalls, hname⟩)) fun _ _ _ hmade => ?_
          have hmade := (HelperWalk.yields_liftM.mp hmade).1
          exact HelperWalk.failsOnly_bind (hmembers (h.inHelper hp hx hmade))
            fun _ _ _ _ => HelperWalk.failsOnly_pure

/-- A search fails only for a reason that is known of the pairs that it goes through. -/
theorem collect_failsOnly (hp : I p) : (c.collect make p.1 p.2).FailsOnly P :=
  collectMembers_failsOnly h (fun x hx => collectWithin_failsOnly h hc x hp hx) hp

end

/-- A search goes through pairs that the request leads to, and what stops one of them stops the
    request. Helpers are made on the way, so their bodies are covered as well. -/
theorem searchFails_stops (hc : c.scope = .ofRegistry c.registry) (root : Pair) :
    c.SearchFails c.helper (c.Reaches root) (c.Stops root) := by
  constructor
  case lost => exact fun hp hq hf => .lost ((hp.meets.trans hq).lost hf)
  case reconcile => exact fun hp => reconcile_stops.mono fun _ hf => hf.of_reaches hp
  case arity =>
    exact fun hp hr hu hv hne => .unlike (.arity ..) hp (.arity hr hu hv hne)
  case making =>
    intro p x name hp hx _
    have hfaults : (c.helper name x).FailsOnly (c.Stops x.pair) := helper_failsOnly hc
    exact hfaults.mono fun _ hf => hf.of_reaches (hp.tail hx)
  case inHelper => exact fun hp hx _ => hp.tail hx
  case inPlace => exact fun hp hq _ => hp.tail hq

/-- A request fails only if it leads to types that do not fit, or meets a reference that leads to no
    structure. -/
theorem compile_stops (hc : c.scope = .ofRegistry c.registry) (hready : s.Ready) :
    (c.compile s).FailsOnly (c.Stops s.pair) := by
  have hcollect : (c.collect c.helper s.source s.target).FailsOnly (c.Stops s.pair) :=
    collect_failsOnly (p := s.pair) (searchFails_stops hc s.pair) hc .refl
  unfold compile helpers
  refine HelperWalk.failsOnly_bind
    (HelperWalk.failsOnly_liftM.mpr (attrWithin_failsOnly hc hready)) fun _ _ _ _ => ?_
  refine HelperWalk.failsOnly_bind ?_ fun _ _ _ _ => HelperWalk.failsOnly_pure
  exact HelperWalk.failsOnly_bind hcollect fun _ _ _ _ => HelperWalk.failsOnly_pure

/-- Where all references resolve, a request fails only if it leads to types that do not fit. -/
theorem compile_failsOnly (hc : c.scope = .ofRegistry c.registry) (hs : c.registry.Sound)
    (hready : s.Ready) (hr : c.registry.ResolvesBoth s.pair) :
    (c.compile s).FailsOnly (c.Misfits s.pair) :=
  fun met f met' hf => (compile_stops hc hready met f met' hf).misfits hs hr

end Conversion
end Shapewright
