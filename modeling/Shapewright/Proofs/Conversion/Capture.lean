import Shapewright.Proofs.Conversion.Closure
import Shapewright.Proofs.Conversion.Hygiene

/-!
# No variable is taken for another

In the code of a request and in its helpers, no block declares a variable twice, and none is hidden
that is still needed: as long as the variables for fields, and those for wrapped alternatives, keep
out of the way of what follows them (`Untangled`). They do not always. Two fields of an object whose
names differ in a way that identifiers do not keep are given one variable.

This module applies what is known of emitters to whole functions. A body starts in the outermost
block, which has the parameter `v` in it, and also the result `res` unless the body declares it
(`bodyScopes`). Behind the code of a helper stands the return, in the same block, so `res` has to be
what it was throughout; the check in front declares nothing.

## How the hypothesis is met

`Untangled` speaks of all sites in place, which is more than can be computed. The lemmas of the
second half reduce it, for code without maps and unions, to one question per object: whether the
variables of its fields have different names (`tidy_of_object`). The example has fields that are
called like the variables of the very loop they are in, and does not go wrong.

The counterexample is a type with the fields `foo_bar` and `fooBar`. The design can give one of them
another name in the generated struct, and then nothing else is wrong with it.
-/

namespace Shapewright
namespace Conversion

open Relation

variable {c : Conversion} {s : Site} {b : Block}

/-- The footing of a function's body, in whose block its parameter is. -/
def bodyFooting (s : Site) : Footing where
  site := s
  block := 0
  level _ := 0

/-- The scopes where a body from `v` into `res` starts: the result is there unless the body declares
    it. -/
def bodyScopes (declare : Bool) : Scopes where
  here := if declare then ["v"] else ["v", "res"]

/-- No name in the body is taken for another variable than it should. And as `Footing.Resolves`
    says, no block of it declares one twice. -/
def CaptureFree (c : Conversion) (s : Site) (b : Block) : Prop :=
  ∀ step ∈ b.stepsIn (bodyScopes s.declare), c.Hygienic (bodyFooting s) step

/-- A helper has such a body between a check of its parameter and the return of its result, which
    stand for the parameter and the result. -/
inductive CaptureFreeHelper (c : Conversion) (h : Helper) : Prop where
  | intro {x : HelperSite} {code : Block} (hyields : (c.helper h.name x).Yields h)
      (shape : h.body = x.guard ++ code ++ [.ret [.ident "res"]])
      (free : c.CaptureFree x.inner code)
      (resolves : ∀ step ∈ h.body.stepsIn (bodyScopes true),
        step ∈ code.stepsIn (bodyScopes true) ∨ (bodyFooting x.inner).Resolves step) :
      CaptureFreeHelper c h

/-- Where the body starts, the parameter can be seen, and the result is there or to be declared.
    Everything else about a body follows from this by going down, as `Stands` is kept at every
    step. -/
theorem bodyFooting_stands (a d : Attribute) (declare : Bool) (depth : Nat) (inBox : Bool) :
    (bodyFooting (.between a d "v" "res" declare depth inBox)).Stands (bodyScopes declare) := by
  constructor
  case rooted => exact .between a d declare depth inBox
  case once => cases declare <;> simp [bodyScopes, Scopes.Once, Scopes.blocks]
  case block => rfl
  case value =>
    intro x hx
    obtain rfl : x = "v" := by simpa [bodyFooting, Site.between, Expr.vars] using hx
    exact Scopes.block?_of_mem (by cases declare <;> simp [bodyScopes])
  -- Only what the body does not declare itself has to be there already.
  case place =>
    intro x hx hi
    cases declare with
    | true => exact absurd hx hi
    | false =>
      obtain rfl : x = "res" := by simpa [bodyFooting, Site.between, Expr.vars] using hx
      exact Scopes.block?_of_mem (by simp [bodyScopes])
  case fresh =>
    intro x hx
    cases declare with
    | true =>
      obtain rfl : x = "res" := by
        simpa [bodyFooting, Site.between, Site.introduces, Expr.vars] using hx
      exact ⟨by simp [bodyScopes], rfl⟩
    | false => exact absurd hx List.not_mem_nil

theorem inline_settled {a d : Attribute} {declare : Bool} {depth : Nat} {inBox : Bool}
    (hu : c.Untangled (.between a d "v" "res" declare depth inBox))
    (h : (c.inline (.between a d "v" "res" declare depth inBox)).Yields b) :
    c.Settled (bodyFooting (.between a d "v" "res" declare depth inBox)) (bodyScopes declare)
      (Site.between a d "v" "res" declare depth inBox).introduces
      (c.Leaves (.between a d "v" "res" declare depth inBox)) b := by
  have hstands := bodyFooting_stands a d declare depth inBox
  refine attrWithin_settles c _ hstands (fun x hx hm => hx.not_mem_taken ?_) hu h
  refine hstands.rooted.mem_taken ?_
  have hnames : x = "v" ∨ x = "res" := by
    cases declare with
    | true => exact Or.inl (by simpa [bodyScopes] using hm)
    | false => simpa [bodyScopes] using hm
  rw [Site.vars, bodyFooting, Site.between, Expr.vars, Expr.vars]
  simpa using hnames

theorem inner_vars (x : HelperSite) :
    x.inner.value.vars = ["v"] ∧ x.inner.place.vars = ["res"] := by
  rw [HelperSite.inner, Site.between, Expr.vars, Expr.vars]
  exact ⟨rfl, rfl⟩

/-- The body of a helper, the check in front of it and the return behind it. The body was built for
    the parameter `v` and the result `res`, and neither the check nor the return declares
    anything. -/
theorem helper_captureFree {name : String} {x : HelperSite} {h : Helper}
    (hu : c.Untangled x.inner) (hyields : (c.helper name x).Yields h) :
    c.CaptureFreeHelper h := by
  obtain ⟨param, result, code, -, -, hcode, hshape⟩ := helper_yields.mp hyields
  have hsettled := inline_settled hu hcode
  have hstands : (bodyFooting x.inner).Stands (bodyScopes true) :=
    bodyFooting_stands _ _ true 0 false
  obtain ⟨names, hnames, -⟩ := hsettled.declares
  obtain ⟨hvalue, hplace⟩ := inner_vars x
  obtain rfl : name = h.name := by rw [hshape]
  have hbody : h.body = x.guard ++ code ++ [.ret [.ident "res"]] := by rw [hshape]
  have hguard : Block.declares x.guard = [] := by
    unfold HelperSite.guard
    split <;> rfl
  refine .intro hyields hbody hsettled.steps fun step hm => ?_
  rw [hbody, Block.stepsIn_append, Block.stepsIn_append, Block.declares_append, hguard,
    List.nil_append, Scopes.add_nil, Block.stepsIn_cons, Stmt.stepsIn, Block.stepsIn_nil,
    List.append_nil, List.mem_append, List.mem_append, List.mem_singleton] at hm
  rcases hm with (hm | hm) | rfl
  · -- The check reads the parameter, and returns without reading anything.
    -- The result is what the code has declared first, and nothing behind it hides that.
    right
    unfold HelperSite.guard at hm
    split at hm
    · simp at hm
    · rw [Block.stepsIn_cons, Stmt.stepsIn_when, Block.stepsIn_nil, List.append_nil, List.mem_cons,
        Block.stepsIn_cons, Stmt.stepsIn, Block.stepsIn_nil, List.append_nil,
        List.mem_singleton] at hm
      rcases hm with rfl | rfl
      · refine ⟨hstands.once, fun n hn => ?_⟩
        obtain rfl : n = "v" := by simpa [Stmt.when, Stmt.vars, Expr.vars] using hn
        have hv : "v" ∈ x.inner.value.vars := hvalue ▸ List.mem_singleton_self _
        have hsite : "v" ∈ (bodyFooting x.inner).site.vars := List.mem_append_left _ hv
        rw [if_pos hsite]
        exact hstands.value _ hv
      · refine ⟨hstands.once.push List.nodup_nil, fun n hn => ?_⟩
        simp [Stmt.vars, Expr.varsAll, Expr.vars] at hn
  · exact Or.inl hm
  · right
    refine ⟨?_, fun n hn => ?_⟩
    · simpa [Stmt.declares] using hsettled.once
    · obtain rfl : n = "res" := by simpa [Stmt.vars, Expr.varsAll, Expr.vars] using hn
      have hres : "res" ∈ x.inner.place.vars := hplace ▸ List.mem_singleton_self _
      have hsite : "res" ∈ (bodyFooting x.inner).site.vars := List.mem_append_right _ hres
      rw [if_pos hsite, Scopes.block?_of_mem]
      · rfl
      · rw [Scopes.add_here, hnames]
        exact List.mem_append_right _ (List.mem_append_left _ hres)

/-- Where all that a request leads to is tidy, no variable in its code or in a helper is taken for
    another, and none is declared twice in a block. What is asked for is that no two names that are
    made for one site coincide, and this separately for the request and for each helper that it can
    reach. -/
theorem compile_captureFree (c : Conversion) (a d : Attribute) (declare : Bool) (depth : Nat)
    (inBox : Bool) (met met' : List String) (out : Compiled)
    (hu : c.Untangled (.between a d "v" "res" declare depth inBox))
    (hhelpers : ∀ (x : HelperSite) (name : String), c.Reaches (a, d) x.pair →
      c.Delegates x.pair name → c.Untangled x.inner)
    (h : (c.compile (.between a d "v" "res" declare depth inBox)).Yields met out met') :
    c.CaptureFree (.between a d "v" "res" declare depth inBox) out.body ∧
      ∀ k ∈ out.helpers, c.CaptureFreeHelper k := by
  obtain ⟨hbody, made, hmade, hout⟩ := compile_yields.mp h
  obtain ⟨found, hfound, hmadeOf⟩ := collect_factors (p := (a, d)) hmade
  obtain ⟨hfinds, -⟩ := collect_finds hfound
  refine ⟨(inline_settled hu hbody).steps, fun k hk => ?_⟩
  rw [hout] at hk
  obtain ⟨x, hx, hyields⟩ := forall₂_mem_right hmadeOf ((sorted_perm made).mem_iff.mp hk)
  exact helper_captureFree (hhelpers x.2 x.1 (hfinds.reached x hx) (hfinds.delegates x hx)) hyields

/-! ## Requests that are tidy -/

/-- Fields keep out of each other's way if their names already give different variables. -/
theorem temporaries_nodup {v w : ObjectView} {fields : List FieldSite}
    (hfields : List.Forall₂ (fun m f => (c.fieldSite s v w m).Yields f) (matchFields v w) fields)
    (h : ((matchFields v w).map fun m => temporary m.name s.taken).Nodup) :
    (c.temporaries s fields).Nodup := by
  have heq : fields.map (fun f => temporary f.name s.taken) =
      (matchFields v w).map fun m => temporary m.name s.taken :=
    map_eq_of_forall₂ (fun m f hf => by rw [(fieldSite_describes hf).name]) hfields
  exact (heq ▸ h).sublist (List.filter_sublist.map _)

/-- Only objects, maps and unions can be untidy. An array has but one site below it. Two variables
    meet only where two pieces of code stand in one block. -/
theorem tidy_of_array (hk : c.registry.kind s.source = .ok .array) : c.Tidy s where
  fields v w fields hv := by cases hk.symm.trans (Registry.kind_of_view hv)
  pairs := by
    rintro _ _ x ⟨hx, -⟩
    cases hk.symm.trans (Registry.kind_of_entry hx)
  map := by
    rintro _ _ x ⟨hx, -⟩
    cases hk.symm.trans (Registry.kind_of_entry hx)
  wrapper := by
    rintro _ ⟨hu, -, -, -⟩
    cases hk.symm.trans (Registry.kind_of_union (unions_eq_ok.mp hu).1)

theorem tidy_of_object {v w : ObjectView} (hv : ObjectView.of? c.registry s.source = .ok (some v))
    (hw : ObjectView.of? c.registry s.target = .ok (some w))
    (h : ((matchFields v w).map fun m => temporary m.name s.taken).Nodup) : c.Tidy s where
  fields v' w' fields hv' hw' hfields := by
    obtain rfl := Option.some.inj (Except.ok.inj (hv.symm.trans hv'))
    obtain rfl := Option.some.inj (Except.ok.inj (hw.symm.trans hw'))
    exact temporaries_nodup hfields h
  pairs := by
    rintro _ _ x ⟨hx, -⟩
    cases (Registry.kind_of_view hv).symm.trans (Registry.kind_of_entry hx)
  map := by
    rintro _ _ x ⟨hx, -⟩
    cases (Registry.kind_of_view hv).symm.trans (Registry.kind_of_entry hx)
  wrapper := by
    rintro _ ⟨hu, -, -, -⟩
    cases (Registry.kind_of_view hv).symm.trans (Registry.kind_of_union (unions_eq_ok.mp hu).1)

/-- Nothing is in place in the code of a flat object. Its fields are stored by the object itself. So
    the premise about sites in place below is met by none of them, and nothing but the site itself
    has to be tidy. -/
theorem not_inPlace_of_flat {t : Site} {v w : ObjectView}
    (hc : (c.registry.compatible s.source s.target {}).Yields ())
    (hv : ObjectView.of? c.registry s.source = .ok (some v))
    (hw : ObjectView.of? c.registry s.target = .ok (some w))
    (hp : ∀ m ∈ matchFields v w, c.registry.isPrimitive m.source = .ok true ∧
      c.registry.isPrimitive m.target = .ok true) : ¬ c.InPlace s t := by
  have hkind := Registry.kind_of_view hv
  intro h
  cases h with
  -- The pair is one of objects, so of all the ways to go down only fields are left, and those are
  -- primitive.
  | unfolded ho ht =>
    obtain rfl := ho.eq_of_compatible hc
    cases ht with
    | element hx => cases hkind.symm.trans (Registry.kind_of_elem hx)
    | key hx => cases hkind.symm.trans (Registry.kind_of_entry hx)
    | entry hx => cases hkind.symm.trans (Registry.kind_of_entry hx)
    | alternative hu => cases hkind.symm.trans (Registry.kind_of_union (unions_eq_ok.mp hu).1)
    | field hv' hw' hm hf hprimitive =>
      obtain rfl := Option.some.inj (Except.ok.inj (hv.symm.trans hv'))
      obtain rfl := Option.some.inj (Except.ok.inj (hw.symm.trans hw'))
      have hof := fieldSite_yields hf
      obtain ⟨hs, ht⟩ := hp _ hm
      rw [FieldSite.isPrimitive, ← Except.ok.inj (hs.symm.trans hof.sourcePrimitive),
        ← Except.ok.inj (ht.symm.trans hof.targetPrimitive)] at hprimitive
      cases hprimitive
  | wrapped ho ht =>
    obtain rfl := ho.eq_of_compatible hc
    obtain ⟨hu, -, -, -⟩ := ht
    cases hkind.symm.trans (Registry.kind_of_union (unions_eq_ok.mp hu).1)

/-- Objects with fields that are called like the variables of a loop over them. -/
def point (required : List String) : Attribute where
  type := .object [("i", { type := .primitive .int }), ("val", { type := .primitive .int })]
  rules := { required }

def points (required : List String) : Attribute := { type := .array (point required) }

/-- Values of a service become messages, in which an absent number is told from zero. -/
def messageConversion : Conversion where
  scope := .ofRegistry { types := [], nodup := List.nodup_nil }
  source := .service
  target := .protobuf "pb"

def pointSite : Site := .between (points ["i", "val"]) (points []) "v" "res"

theorem pointSite_untangled : messageConversion.Untangled pointSite := by
  obtain ⟨⟨⟩, hc⟩ : ∃ u, (messageConversion.registry.compatible pointSite.source
      pointSite.target {}).Yields u := by
    decide +kernel
  obtain ⟨⟨⟩, hc'⟩ : ∃ u, (messageConversion.registry.compatible (point ["i", "val"])
      (point []) {}).Yields u := by
    decide +kernel
  have hkind : messageConversion.registry.kind pointSite.source = .ok .array := rfl
  have hv : ObjectView.of? messageConversion.registry (point ["i", "val"]) =
      .ok (some ⟨point ["i", "val"], [("i", { type := .primitive .int }),
        ("val", { type := .primitive .int })]⟩) := rfl
  have hw : ObjectView.of? messageConversion.registry (point []) =
      .ok (some ⟨point [], [("i", { type := .primitive .int }),
        ("val", { type := .primitive .int })]⟩) := rfl
  -- The objects are all that is in place in the code of the array, and nothing is in theirs.
  have hplace : ∀ t, messageConversion.InPlace pointSite t →
      t = pointSite.element (point ["i", "val"]) (point []) := by
    intro t h
    cases h with
    | unfolded ho ht =>
      obtain rfl := ho.eq_of_compatible hc
      cases ht with
      | element hx hy => cases hx; cases hy; rfl
      | key hx => cases hkind.symm.trans (Registry.kind_of_entry hx)
      | entry hx => cases hkind.symm.trans (Registry.kind_of_entry hx)
      | field hv => cases hkind.symm.trans (Registry.kind_of_view hv)
      | alternative hu => cases hkind.symm.trans (Registry.kind_of_union (unions_eq_ok.mp hu).1)
    | wrapped ho ht =>
      obtain rfl := ho.eq_of_compatible hc
      obtain ⟨hu, -, -, -⟩ := ht
      cases hkind.symm.trans (Registry.kind_of_union (unions_eq_ok.mp hu).1)
  intro t inner hst ho
  rcases ReflTransGen.cases_head hst with rfl | ⟨u, hu, hut⟩
  · obtain rfl := ho.eq_of_compatible hc
    exact tidy_of_array hkind
  · obtain rfl := hplace u hu
    rcases ReflTransGen.cases_head hut with rfl | ⟨r, hr, -⟩
    · obtain rfl := ho.eq_of_compatible hc'
      exact tidy_of_object hv hw (by decide)
    · exact absurd hr (not_inPlace_of_flat hc' hv hw (by decide))

/-- The variables for the two fields are `iTmp` and `valTmp`. They are declared in the block of the
    object, and the names of the two fields keep them apart. -/
theorem compile_captureFree_points : ∃ out met',
    (messageConversion.compile pointSite).Yields [] out met' ∧
    messageConversion.Untangled pointSite ∧
    (∀ (x : HelperSite) (name : String), messageConversion.Reaches pointSite.pair x.pair →
      messageConversion.Delegates x.pair name → messageConversion.Untangled x.inner) ∧
    messageConversion.CaptureFree pointSite out.body ∧
    ∀ k ∈ out.helpers, messageConversion.CaptureFreeHelper k := by
  obtain ⟨out, met', h⟩ : ∃ out met', (messageConversion.compile pointSite).Yields [] out met' := by
    decide +kernel
  have hhelpers : ∀ (x : HelperSite) (name : String),
      messageConversion.Reaches pointSite.pair x.pair → messageConversion.Delegates x.pair name →
        messageConversion.Untangled x.inner := by
    intro x name _ hd
    obtain ⟨t, ht, -⟩ := hd.known.source
    exact absurd ht List.not_mem_nil
  exact ⟨out, met', h, pointSite_untangled, hhelpers, compile_captureFree messageConversion
    (points ["i", "val"]) (points []) true 0 false [] met' out pointSite_untangled hhelpers h⟩

/-! ## Fields that are not -/

/-- Two fields whose names become one identifier. Only the generated field of the second one has
    another name. -/
def twins (required : List String) : Attribute where
  type := .object [("foo_bar", { type := .primitive .int }),
    ("fooBar", { type := .primitive .int, overrides := { fieldName := some "Other" } })]
  rules := { required }

def twinsRegistry : Registry where
  types := [{ id := "Pair", name := "Pair", definition := twins ["foo_bar", "fooBar"] },
    { id := "PairPB", name := "PairPB", definition := twins [] }]

def twinsConversion : Conversion where
  scope := .ofRegistry twinsRegistry
  source := .service
  target := .protobuf "pb"

/-- Both fields get the variable `fooBar`: their names differ and become one identifier, and the
    variables of other fields of the object are not looked at when one is chosen. -/
theorem twins_declared_twice : ∃ out met',
    (twinsConversion.compile (.between (.user "Pair") (.user "PairPB") "v" "res")).Yields [] out
      met' ∧
    ∃ step ∈ out.body.stepsIn (bodyScopes true),
      ¬ (step.scopes.add step.stmt.declares).here.Nodup := by
  decide +kernel

end Conversion
end Shapewright
