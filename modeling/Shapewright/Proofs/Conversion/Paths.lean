import Shapewright.Proofs.Conversion.Closure
import Shapewright.Proofs.Conversion.Faults
import Shapewright.Proofs.Conversion.Plans

/-!
# The paths of faults

A comparison that fails names two places. Where code is built, these are parts of what the variables
of the code hold: its argument and its result, or a variable that it declares for a loop or a case.
The search for helpers compares without names. But it comes after the code, and every pair that it
goes through was converted in place there or in the body of a helper, so it finds nothing to object
to (`coded_searchFails`). So no fault shows the whole value as a place (`compile_paths`).

## Places

A comparison that is made without names begins at `<root>` on both sides. What has to be excluded is
that a fault with such a path ends up with the caller. A path consists of the text of an expression
and of steps inside it, and an expression in the code is a variable or has a mark in it that shows
how its place is reached. So a path looks like that of a whole value only for a variable of that
name (`PathFrom.root_of_eq`).

## Why the search stays silent

Code for a pair is built only after the pair was reconciled, and building goes on with the pairs in
place inside it. The search goes through the same pairs, and through those in helpers, whose bodies
have been built before they are searched. `Coded` is what the search keeps: the pair has had its
code built. A fault of the search is then one that the building of a body has raised, and those have
names.
-/

namespace Shapewright

/-! ## Texts of expressions -/

namespace Expr

variable {e : Expr} {x : String}

/-- A part of what a variable holds is that variable, or shows how it is reached. In the second case
    the text is not a mere identifier, whatever the identifier of the root is. -/
theorem print_of_root (h : e.root? = some x) :
    e = .ident x ∨ ∃ c ∈ e.print.toList, c ∈ ['.', '[', '*', '&'] := by
  cases e with
  | ident name =>
    cases h
    exact .inl rfl
  | field base name => exact .inr ⟨'.', by simp [print, Printer.expr], by simp⟩
  | index base idx => exact .inr ⟨'[', by simp [print, Printer.expr], by simp⟩
  | deref inner => exact .inr ⟨'*', by simp [print, Printer.expr], by simp⟩
  | addr inner => exact .inr ⟨'&', by simp [print, Printer.expr], by simp⟩
  | _ => cases h

theorem print_ne_empty (h : e.root? = some x) (hx : x ≠ "") : e.print ≠ "" := by
  rcases print_of_root h with rfl | ⟨c, hc, -⟩
  · simpa [print, Printer.expr] using hx
  · intro he
    simp [he] at hc

end Expr

namespace Conversion

open Relation

variable {c : Conversion} {emit : Emit} {s t inner : Site} {p q root : Pair} {f : Fault}
  {value place x : String}

/-! ## Variables -/

/-- A variable that code reads from: the one that it is given, the value of an alternative, or the
    element or the key that a loop is at. -/
inductive ReadFrom (value : String) : String → Prop where
  | given : ReadFrom value value
  | alternative : ReadFrom value "actual"
  | element (depth : Nat) : ReadFrom value (loopValue depth)
  | key (depth : Nat) : ReadFrom value (loopKey depth)

/-- A variable that code writes to: the one that it is given, or one that it declares for a wrapped
    alternative, or for the key or the element of a map. -/
inductive WrittenTo (place : String) : String → Prop where
  | given : WrittenTo place place
  | wrapped : WrittenTo place "conv"
  | key (depth : Nat) : WrittenTo place (loopNewKey depth)
  | element (depth : Nat) : WrittenTo place (loopNewValue depth)

/-- A variable of the code with the mark of a whole value for its name is the one that was given. -/
theorem ReadFrom.eq_of_mark (h : ReadFrom value x) (hx : x = "" ∨ x = "<root>") : value = x := by
  cases h with
  | given => rfl
  | alternative => simp at hx
  | element depth | key depth =>
    simp [loopValue, loopKey, ← String.toList_inj] at hx

/-- A variable that is written to with the mark of a whole value for its name is the one that was
    given. -/
theorem WrittenTo.eq_of_mark (h : WrittenTo place x) (hx : x = "" ∨ x = "<root>") : place = x := by
  cases h with
  | given => rfl
  | wrapped => simp at hx
  | element depth | key depth =>
    simp [loopNewValue, loopNewKey, ← String.toList_inj] at hx

/-! ## Paths -/

/-- The path leads to a part of what one of the variables holds, or to what a comparison finds in
    it. -/
inductive PathFrom (roots : String → Prop) : String → Prop where
  | intro {e : Expr} {x : String} (hx : roots x) (he : e.root? = some x) (steps : List String)
      (hsteps : ∀ t ∈ steps, Registry.Step t) : PathFrom roots (e.print ++ String.join steps)

/-- A path looks like that of a whole value only if it is a variable of this name. That name is the
    one that a comparison without paths reports, so a fault with it would not say where it is
    from. -/
theorem PathFrom.root_of_eq {roots : String → Prop} {path : String} (h : PathFrom roots path)
    (hpath : path = "<root>") : roots "<root>" := by
  obtain ⟨hx, he, steps, hsteps⟩ := h
  have hmarks : ∀ m ∈ ['.', '[', '*', '&'], m ∉ "<root>".toList := by simp
  rw [← hpath, String.toList_append] at hmarks
  rcases Expr.print_of_root he with rfl | ⟨m, hm, hmark⟩
  · cases steps with
    | nil => simpa [Expr.print, Printer.expr, hpath.symm] using hx
    | cons t rest =>
      have ht : '[' ∈ t.toList := by
        cases hsteps t List.mem_cons_self <;> decide
      refine absurd ?_ (hmarks '[' (by simp))
      simp [ht]
  · exact absurd (List.mem_append_left _ hm) (hmarks m hmark)

/-- If the fault names two places, they lead from variables of code that reads from `value` and
    writes to `place`. -/
def Traced (value place : String) (f : Fault) : Prop :=
  ∀ sp sk tp tk, f = .incompatible sp sk tp tk →
    PathFrom (ReadFrom value) sp ∧ PathFrom (WrittenTo place) tp

theorem Traced.of_lost {a : Attribute} (h : c.registry.Lost a f) : Traced value place f :=
  fun _ _ _ _ heq => absurd (.incompatible ..) (heq ▸ h.not_mismatch)

/-- The value and the place of the site are parts of what variables of the code hold. This is what a
    level hands on to those below, where the parts get smaller or the variables new. -/
structure Grounded (value place : String) (s : Site) : Prop where
  value : ∃ x, ReadFrom value x ∧ s.value.root? = some x
  place : ∃ x, WrittenTo place x ∧ s.place.root? = some x

/-- The texts of the two sides are shown as they are. An empty text would be shown as that of a
    whole value. -/
structure Named (value place : String) : Prop where
  value : value ≠ ""
  place : place ≠ ""

theorem displayPath_of_root {e : Expr} (he : e.root? = some x) (hx : x ≠ "") (steps : String) :
    Registry.displayPath (e.print ++ steps) = e.print ++ steps := by
  unfold Registry.displayPath
  rw [if_neg]
  simp [Expr.print_ne_empty he hx]

/-- The fault of a comparison leads from the variables of the two sides that are compared. A
    comparison goes down on both sides in step, and appends to the two paths what it goes
    through. -/
theorem compatible_traced (hn : Named value place) {a b : Attribute} {e e' : Expr} {x y : String}
    (hx : ReadFrom value x) (he : e.root? = some x) (hy : WrittenTo place y)
    (he' : e'.root? = some y) :
    (c.registry.compatible a b ⟨e.print, e'.print⟩).FailsOnly (Traced value place) := by
  refine Registry.compatible_differs.mono fun f hf => ?_
  rcases hf with ⟨steps, hsteps, sourceKind, targetKind⟩ | hlost | hlost
  · intro sp sk tp tk heq
    cases heq
    rw [displayPath_of_root he fun hempty => hn.value (hx.eq_of_mark (.inl hempty) ▸ hempty),
      displayPath_of_root he' fun hempty => hn.place (hy.eq_of_mark (.inl hempty) ▸ hempty)]
    exact ⟨.intro hx he steps hsteps, .intro hy he' steps hsteps⟩
  · exact .of_lost hlost
  · exact .of_lost hlost

/-! ## Sites -/

namespace Grounded

theorem compatible_traced (h : Grounded value place s) (hn : Named value place) :
    (c.compatible s).FailsOnly (Traced value place) := by
  obtain ⟨⟨x, hx, he⟩, y, hy, he'⟩ := h
  exact Conversion.compatible_traced hn hx he hy he'

theorem alternative (h : Grounded value place s) (a b : Attribute) :
    Grounded value place (s.alternative a b) :=
  ⟨⟨_, .alternative, rfl⟩, h.place⟩

/-- What is below a site is read from and written to its variables or those of a loop. The variables
    of a loop are named by their depth, and a path that starts from one of them is below the value
    that the loop is over. -/
theorem below (h : Grounded value place s) (ht : c.Below s t) : Grounded value place t := by
  cases ht with
  | element => exact ⟨⟨_, .element s.depth, rfl⟩, h.place⟩
  | key => exact ⟨⟨_, .key s.depth, rfl⟩, _, .key s.depth, rfl⟩
  | entry => exact ⟨⟨_, .element s.depth, rfl⟩, _, .element s.depth, rfl⟩
  | field hv hw hm hf =>
    have hof := fieldSite_describes hf
    obtain ⟨⟨x, hx, he⟩, y, hy, he'⟩ := h
    refine ⟨⟨x, hx, ?_⟩, y, hy, ?_⟩
    · rw [FieldSite.site]
      split <;> rw [hof.value] <;> exact he
    · rw [FieldSite.site, hof.place]
      exact he'
  | alternative => exact h.alternative _ _

theorem wraps (ht : c.Wraps s t) : Grounded value place t := by
  cases ht with
  | alternative => exact ⟨⟨_, .alternative, rfl⟩, _, .wrapped, rfl⟩

theorem unboxed {box : Block} (h : Grounded value place s) (hu : c.Unboxed s box inner) :
    Grounded value place inner := by
  cases hu with
  | target => exact ⟨h.value, h.place⟩
  | source => exact ⟨h.value, h.place⟩

theorem opens (h : Grounded value place s) (ho : c.Opens s inner) :
    Grounded value place inner := by
  cases ho with
  | plain => exact h
  | boxed _ _ hu => exact h.unboxed (unboxed_yields hu)

/-- What the code of a site compares are parts of what its variables hold. So each comparison that
    the code of a site makes can name where its two sides come from. -/
theorem failsBelow (h : Grounded value place s) (hn : Named value place)
    (hnested : ∀ t, c.Below s t → (emit t).FailsOnly (Traced value place))
    (hwrapped : ∀ t, c.Wraps s t → (emit t).FailsOnly (Traced value place)) :
    c.FailsBelow emit s (Traced value place) := by
  constructor
  case lost => exact fun _ hlost => hlost.elim .of_lost .of_lost
  case arity => exact fun _ _ _ _ _ _ _ heq => by cases heq
  case alternative => exact fun _ _ _ => (h.alternative _ _).compatible_traced hn
  case field =>
    intro v w m _ _ _ _ _
    obtain ⟨⟨x, hx, he⟩, y, hy, he'⟩ := h
    exact Conversion.compatible_traced hn hx he hy he'
  case nested => exact fun ht _ => hnested _ ht
  case wrapped => exact fun ht => hwrapped _ ht

end Grounded

section

variable (hc : c.scope = .ofRegistry c.registry)
include hc

/-- The faults of the emitter lead from the variables of the site. By induction on the levels. A box
    that is opened adds one selection to the path of its side. -/
theorem attrWithin_traced (hn : Named value place) : ∀ {levels : Nat} {s : Site},
    (s.declare = true → ∃ name, s.place = .ident name) → Grounded value place s →
      (c.attrWithin levels s).FailsOnly (Traced value place) := by
  intro levels
  induction levels with
  | zero => intro s _ _; exact Walk.failsOnly_exhausted
  | succ levels ih =>
    intro s hplace hs
    have hcompatible := hs.compatible_traced (c := c) hn
    refine attrVia_failsOnly hc hplace (fun f hf => hf.elim .of_lost .of_lost)
      (fun why hwhy _ => hcompatible why hwhy) (fun why box inner _ hu => ?_) fun inner ho => ?_
    · exact (hs.unboxed (unboxed_yields hu)).compatible_traced hn
    · exact (hs.opens ho).failsBelow hn (fun t ht => ih ht.ready.place ((hs.opens ho).below ht))
        fun t ht => ih ht.ready.place (.wraps ht)

theorem inline_traced {a b : Attribute} {declare : Bool} {depth : Nat} {inBox : Bool}
    (hn : Named value place) : (c.inline (.between a b value place declare depth inBox)).FailsOnly
      (Traced value place) :=
  attrWithin_traced hc hn (fun _ => ⟨place, rfl⟩)
    ⟨⟨value, .given, rfl⟩, place, .given, rfl⟩

end

/-! ## The search finds nothing that does not fit -/

/-- The pair was converted: code was built for it at some site, or it needs none but that for a
    primitive. -/
inductive Coded (c : Conversion) (p : Pair) : Prop where
  | built {levels : Nat} {s : Site} {b : Block} (hs : s.pair = p)
      (h : (c.attrWithin levels s).Yields b) : Coded c p
  | plain (h : c.Elementary p) : Coded c p

/-- What is known of a pair whose code was built: it fits, unions in it correspond, and what it has
    in place was built as well. -/
structure CodedBelow (c : Conversion) (p : Pair) : Prop where
  reconciled : ∃ q, (c.reconcile p.1 p.2).Yields q
  arity : ∀ {q : Pair} {u v : UnionType}, (c.reconcile p.1 p.2).Yields q →
    c.registry.union? q.1 = .ok (some u) → c.registry.union? q.2 = .ok (some v) →
      u.2.length = v.2.length
  inPlace : ∀ {q : Pair}, c.Nested p q → (c.callsHelper q.1 q.2).Yields false → c.Coded q

/-- What is known of the code of a pair is known of the pairs in place inside it. The code of a pair
    is built before its members are looked for, so each member in place has been converted as
    well. -/
theorem Coded.below (h : c.Coded p) : c.CodedBelow p := by
  -- Code of a primitive has nothing below it. For any other pair the emitter went through the same
  -- steps that the search goes through now.
  cases h with
  | plain h =>
    have hr : (c.reconcile p.1 p.2).Yields p := reconcile_yields_iff.mpr (.inl ⟨h.compatible, rfl⟩)
    refine ⟨⟨p, hr⟩, fun hq hu _ => ?_, fun hq _ => ?_⟩
    · obtain rfl := hr.unique hq
      have hp := h.isPrimitive
      rw [Registry.isPrimitive_of_kind (Registry.kind_of_union hu)] at hp
      cases hp
    · exact absurd hq (not_nested_of_isPrimitive h.isPrimitive)
  | @built levels s b hs h =>
    subst hs
    cases levels with
    | zero => exact absurd h Walk.yields_exhausted
    | succ levels =>
      obtain ⟨inner, box, code, ho, hcode, -, -⟩ := attrVia_yields h
      refine ⟨⟨inner.pair, ho.reconcile⟩, fun hq hu hv => ?_, fun {q} hq hcalls => ?_⟩
      · obtain rfl := hq.unique ho.reconcile
        have hunion := ofKind_builds hcode (Registry.kind_of_union hu) (Registry.kind_of_union hv)
          (by simp)
        obtain ⟨u', v', -, -, hboth, -⟩ := union_yields hunion
        obtain ⟨hu', hv', hlength⟩ := unions_eq_ok.mp hboth
        cases hu.symm.trans hu'
        cases hv.symm.trans hv'
        exact hlength
      · obtain ⟨inner', required, hr, hm⟩ := hq
        obtain rfl := hr.unique ho.reconcile
        rcases byKind_builds hcode hm with hplain | ⟨t, code, ht, hbuilt⟩
        · exact .plain hplain
        -- A nested site calls a helper or has its code in place, and the search says that no helper
        -- is called here.
        · rcases hbuilt with ⟨-, hnested⟩ | ⟨-, hemit⟩
          · rcases nested_yields.mp hnested with ⟨hcalls', -⟩ | ⟨-, hemit⟩
            · obtain rfl : t.pair = q := ht
              exact absurd (hcalls'.unique hcalls) (by simp)
            · exact .built ht hemit
          · exact .built ht hemit

/-- The fault is one of the body of a helper that the search meets. In a helper the value and the
    place have other variables, from which the paths of the fault lead. -/
def FromHelper (c : Conversion) (root : Pair) (f : Fault) : Prop :=
  ∃ (name : String) (x : HelperSite), c.Reaches root x.pair ∧ c.Delegates x.pair name ∧
    (c.inline x.inner).run = some (.error f)

/-- A search through pairs that were converted raises no mismatch of its own. The search compares
    without paths, and would name no variables if it were the first to notice. -/
theorem coded_searchFails (hc : c.scope = .ofRegistry c.registry) (root : Pair) :
    c.SearchFails c.helper (fun p => c.Coded p ∧ c.Reaches root p)
      (fun f => f.IsMismatch → c.FromHelper root f) := by
  constructor
  case lost =>
    intro p q f _ _ hlost hf
    exact absurd hf (hlost.elim Registry.Lost.not_mismatch Registry.Lost.not_mismatch)
  case reconcile =>
    intro p hp
    obtain ⟨q, hq⟩ := hp.1.below.reconciled
    exact hq.failsOnly
  case arity =>
    intro p q u v hp hr hu hv hne
    exact absurd (hp.1.below.arity hr hu hv) hne
  -- A body is new code. Its mismatches are its own, and are what `FromHelper` tells of.
  case making =>
    intro p x name hp hx hd
    have lost : ∀ {a : Attribute} {f : Fault}, c.registry.Lost a f →
        f.IsMismatch → c.FromHelper root f := fun hlost hf => absurd hf hlost.not_mismatch
    unfold Conversion.helper
    refine Walk.failsOnly_bind.mpr ⟨Walk.failsOnly_liftM.mpr fun f hf =>
      lost (sourceRef_lost hc hf), fun _ _ => ?_⟩
    refine Walk.failsOnly_bind.mpr ⟨Walk.failsOnly_liftM.mpr fun f hf =>
      lost (targetRef_lost hc hf), fun _ _ => ?_⟩
    refine Walk.failsOnly_bind.mpr ⟨fun f hf _ => ?_, fun _ _ => Walk.failsOnly_pure⟩
    exact ⟨name, x, hp.2.tail hx, hd, hf⟩
  case inHelper =>
    intro p x name k hp hx hk
    obtain ⟨_, _, _, -, -, hcode, -⟩ := helper_yields.mp hk
    exact ⟨.built (s := x.inner) rfl hcode, hp.2.tail hx⟩
  case inPlace => exact fun hp hq hcalls => ⟨hp.1.below.inPlace hq hcalls, hp.2.tail hq⟩

/-- Once the code of a site is built, only the body of a helper can be a mismatch. -/
theorem helpers_failsOnly (hc : c.scope = .ofRegistry c.registry) {b : Block}
    (h : (c.inline s).Yields b) : (c.helpers s.source s.target).FailsOnly
      fun f => f.IsMismatch → c.FromHelper s.pair f := by
  have hp : c.Coded s.pair ∧ c.Reaches s.pair s.pair := ⟨.built (s := s) rfl h, .refl⟩
  have hcollect : (c.collect c.helper s.source s.target).FailsOnly
      fun f => f.IsMismatch → c.FromHelper s.pair f :=
    collect_failsOnly (p := s.pair) (coded_searchFails hc s.pair) hc hp
  unfold helpers
  exact HelperWalk.failsOnly_bind hcollect fun _ _ _ _ => HelperWalk.failsOnly_pure

theorem FromHelper.traced (hc : c.scope = .ofRegistry c.registry) (h : c.FromHelper root f) :
    Traced "v" "res" f := by
  obtain ⟨name, x, -, -, hf⟩ := h
  exact inline_traced hc ⟨by simp, by simp⟩ f hf

/-- The paths of a fault lead from variables of the request, or from those of a helper. The second
    case is that of a helper, which is built for the variables `v` and `res` whatever the request
    has. -/
theorem compile_traced (hc : c.scope = .ofRegistry c.registry) (hn : Named value place)
    {a b : Attribute} {declare : Bool} {depth : Nat} {inBox : Bool} :
    (c.compile (.between a b value place declare depth inBox)).FailsOnly
      fun f => Traced value place f ∨ Traced "v" "res" f := by
  unfold compile
  refine HelperWalk.failsOnly_bind
    (HelperWalk.failsOnly_liftM.mpr ((inline_traced hc hn).mono fun _ hf => .inl hf))
    fun body _ _ hbody => ?_
  have hfrom := helpers_failsOnly hc (HelperWalk.yields_liftM.mp hbody).1
  have hhelpers : (c.helpers a b).FailsOnly
      fun f => Traced value place f ∨ Traced "v" "res" f := by
    intro met f met' hf
    refine .inr fun sp sk tp tk heq => ?_
    exact (hfrom met f met' hf (heq ▸ .incompatible ..)).traced hc sp sk tp tk heq
  exact HelperWalk.failsOnly_bind hhelpers fun _ _ _ _ => HelperWalk.failsOnly_pure

end Conversion

/-! ## Along a plan -/

namespace Plan

open Conversion

/-- Whatever the plan, a request that fails because two types do not fit names two places that lead
    from variables of the code that was being built: that of the request, or the body of a helper.
    Once the code of the request is built, the search for its helpers raises no mismatch but those
    of bodies. -/
theorem compile_paths (reg : Registry) (p : Plan) (a b : Attribute) (value place : String)
    (declare : Bool) (hvalue : value ≠ "") (hplace : place ≠ "") :
    (∀ sp sk tp tk p', (compile (.ofRegistry reg) a b value place declare).run.run p =
        some (.error (.incompatible sp sk tp tk), p') →
      ((PathFrom (ReadFrom value) sp ∧ PathFrom (WrittenTo place) tp) ∨
        (PathFrom (ReadFrom "v") sp ∧ PathFrom (WrittenTo "res") tp)) ∧
      (sp = "<root>" → value = "<root>") ∧ (tp = "<root>" → place = "<root>")) ∧
    ∀ body p₁, (inline (.ofRegistry reg) (.between a b value place declare)).run.run p =
        some (.ok body, p₁) →
      ∀ f p', (helpers (.ofRegistry reg) a b).run.run p₁ = some (.error f, p') → f.IsMismatch →
        (p.conversion (.ofRegistry reg)).FromHelper (a, b) f := by
  have hc : (p.conversion (.ofRegistry reg)).scope =
      .ofRegistry (p.conversion (.ofRegistry reg)).registry := rfl
  constructor
  · intro sp sk tp tk p' h
    rw [tracks_compile] at h
    obtain ⟨⟨o, met⟩, hrun, heq⟩ := Option.map_eq_some_iff.mp h
    cases heq
    -- The marks of a whole value are no variables of code, so what is left of the claim follows
    -- from where the paths start.
    have hpaths : (PathFrom (ReadFrom value) sp ∧ PathFrom (WrittenTo place) tp) ∨
        (PathFrom (ReadFrom "v") sp ∧ PathFrom (WrittenTo "res") tp) :=
      (compile_traced hc ⟨hvalue, hplace⟩ _ _ _ hrun).imp (· sp sk tp tk rfl) (· sp sk tp tk rfl)
    refine ⟨hpaths, fun hsp => ?_, fun htp => ?_⟩
    · rcases hpaths with ⟨h, -⟩ | ⟨h, -⟩
      · exact (h.root_of_eq hsp).eq_of_mark (.inr rfl)
      · exact absurd ((h.root_of_eq hsp).eq_of_mark (.inr rfl)) (by simp)
    · rcases hpaths with ⟨-, h⟩ | ⟨-, h⟩
      · exact (h.root_of_eq htp).eq_of_mark (.inr rfl)
      · exact absurd ((h.root_of_eq htp).eq_of_mark (.inr rfl)) (by simp)
  · intro body p₁ hbody f p' hf hmismatch
    -- The code of the request does not touch the plan, so the search starts from the same names and
    -- the same mode.
    rw [reads_inline rfl] at hbody
    obtain ⟨o, hyields, heq⟩ := Option.map_eq_some_iff.mp hbody
    cases heq
    have htracks : PlanWalk.Tracks p (helpers (.ofRegistry reg) a b)
        ((p.conversion (.ofRegistry reg)).helpers a b) :=
      .current rfl (.bind (tracks_collectMembers rfl (collects_collectWithin _ _ _) a b)
        fun _ _ => .pure _)
    rw [htracks] at hf
    obtain ⟨⟨o, met⟩, hrun, heq⟩ := Option.map_eq_some_iff.mp hf
    cases heq
    exact helpers_failsOnly (s := (Site.between a b value place declare).under p) hc hyields
      p.met f met hrun hmismatch

/-- Two types with a list of one name, of numbers and of texts. -/
def tallyRegistry : Registry where
  types := [
    { id := "Tally", name := "Tally", definition :=
        { type := .object [("marks", { type := .array { type := .primitive .int } })] } },
    { id := "Notes", name := "Notes", definition :=
        { type := .object [("marks", { type := .array { type := .primitive .string } })] } }]
  nodup := by decide

/-- An object that holds a value of a type, so that code for it calls a helper. -/
def ledger (id : TypeId) : Attribute := { type := .object [("held", .user id)] }

/-- A plan for values of a service. -/
def tallyPlan : Plan where
  source := .service
  target := .service

/-- The code of the request calls a helper, whose body cannot be built. The fault leads from the
    variables of that body. -/
theorem compile_paths_tallies :
    ("from" ≠ "" ∧ "to" ≠ "" ∧
      (∃ p', (compile (.ofRegistry tallyRegistry) (ledger "Tally") (ledger "Notes") "from" "to"
        true).run.run tallyPlan = some (.error
          (.incompatible "v.Marks[0]" "int" "res.Marks[0]" "string"), p')) ∧
      ∃ body p₁, (inline (.ofRegistry tallyRegistry) (.between (ledger "Tally") (ledger "Notes")
        "from" "to" true)).run.run tallyPlan = some (.ok body, p₁)) ∧
    (∀ sp sk tp tk p', (compile (.ofRegistry tallyRegistry) (ledger "Tally") (ledger "Notes")
        "from" "to" true).run.run tallyPlan = some (.error (.incompatible sp sk tp tk), p') →
      ((PathFrom (ReadFrom "from") sp ∧ PathFrom (WrittenTo "to") tp) ∨
        (PathFrom (ReadFrom "v") sp ∧ PathFrom (WrittenTo "res") tp)) ∧
      (sp = "<root>" → "from" = "<root>") ∧ (tp = "<root>" → "to" = "<root>")) ∧
    ∀ body p₁, (inline (.ofRegistry tallyRegistry) (.between (ledger "Tally") (ledger "Notes")
        "from" "to" true)).run.run tallyPlan = some (.ok body, p₁) →
      ∀ f p', (helpers (.ofRegistry tallyRegistry) (ledger "Tally") (ledger "Notes")).run.run p₁ =
          some (.error f, p') → f.IsMismatch →
        (tallyPlan.conversion (.ofRegistry tallyRegistry)).FromHelper
          (ledger "Tally", ledger "Notes") f := by
  have hfails : ((compile (.ofRegistry tallyRegistry) (ledger "Tally") (ledger "Notes") "from" "to"
      true).run.run tallyPlan).map (fun o => match o.1 with | .error f => some f | .ok _ => none) =
        some (some (.incompatible "v.Marks[0]" "int" "res.Marks[0]" "string")) := by
    decide +kernel
  have hbuilt : ((inline (.ofRegistry tallyRegistry) (.between (ledger "Tally") (ledger "Notes")
      "from" "to" true)).run.run tallyPlan).map (·.1.isOk) = some true := by decide +kernel
  obtain ⟨⟨o, p'⟩, hrun, hfails⟩ := Option.map_eq_some_iff.mp hfails
  obtain ⟨⟨o', p₁⟩, hrun', hbuilt⟩ := Option.map_eq_some_iff.mp hbuilt
  refine ⟨⟨by simp, by simp, ?_, ?_⟩, compile_paths tallyRegistry tallyPlan (ledger "Tally")
    (ledger "Notes") "from" "to" true (by simp) (by simp)⟩
  · cases o with
    | ok out => cases hfails
    | error f =>
      cases hfails
      exact ⟨p', hrun⟩
  · cases o' with
    | ok body => exact ⟨body, p₁, hrun'⟩
    | error f => cases hbuilt

end Plan
end Shapewright
