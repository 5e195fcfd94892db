import Shapewright.Proofs.Conversion.Closure
import Shapewright.Proofs.Conversion.Fields
import Shapewright.Proofs.Layout

/-!
# What the code of an object does

The code for two objects whose common fields are primitives always runs to its end, and afterwards
each of these fields holds what the rule for fields says (`outcome`). The fields of the result that
the value lacks are zero.

The run has three parts: the allocation, the fields that are stored behind it, and the defaults.
Each of the last two goes field by field, and what holds of one field is not touched by the code of
the others, since their generated names differ.

## From one field to all

What one field does is settled in `Proofs.Conversion.Fields`, from any state in its frame. Here it
is composed. `turns_all` runs one stage of all fields and serves twice, for the code behind the
literal and for the defaults; its second half, that nothing else in the object changes, is what
allows the next stage to start where this one ended. `Stages` then bundles the three parts of one
field, and `stages_run` runs those of an object.

Generated names have to be different (`ObjectView.Distinct`). Two fields of the design can come to
one name in the code, and then the struct itself would not compile.

## What is asked

The machine has to know the struct of the result as the target's context declares it (`Declares`),
and the value has to hold each common field as the source's context has it (`FieldHolds`). In
particular a required pointer is not nil. This is not checked by the code, which follows it. Nothing
is asked of the other fields of the value, and nothing of what the state holds elsewhere.
-/

namespace Shapewright
namespace Conversion

open Execution

variable {δ : Type} [DecidableEq δ] {M : Machine δ} {c : Conversion} {emit : Emit}
  {value place : String} {source object : Nat} {σ₀ σ : State δ}

/-! ## Field by field -/

/-- The code of some fields that go into different places takes every field where its own code does,
    and changes no other field. By induction on the fields, each in a state that those before it
    have left. -/
theorem turns_all {code : FieldSite → Block} {pre post : FieldSite → Content δ} :
    ∀ {fields : List FieldSite} {σ : State δ},
      (∀ f ∈ fields, Turns M value place source object σ₀ f.placeName (code f) (pre f) (post f)) →
      (fields.map (·.placeName)).Nodup → Frame value place source object σ₀ σ →
      (∀ f ∈ fields, σ.Holds (.field object f.placeName) (pre f)) →
      ∃ σ', M.Runs σ (fields.flatMap code) σ' ∧ Frame value place source object σ₀ σ' ∧
        (∀ f ∈ fields, σ'.Holds (.field object f.placeName) (post f)) ∧
        ∀ name content, name ∉ fields.map (·.placeName) → σ.Holds (.field object name) content →
          σ'.Holds (.field object name) content := by
  intro fields
  induction fields with
  | nil =>
    intro σ _ _ h _
    exact ⟨σ, .nil, h, fun f hf => absurd hf List.not_mem_nil, fun _ _ _ hc => hc⟩
  | cons f rest ih =>
    intro σ hturns hnodup h hpre
    rw [List.map_cons, List.nodup_cons] at hnodup
    rw [List.forall_mem_cons] at hturns hpre
    obtain ⟨σ₁, hrun, hw, hpost⟩ := hturns.1 σ h hpre.1
    have hrest : ∀ g ∈ rest, σ₁.Holds (.field object g.placeName) (pre g) := by
      intro g hg
      refine (hpre.2 g hg).works (fun heq => hnodup.1 ?_) hw
      exact heq ▸ List.mem_map_of_mem hg
    obtain ⟨σ₂, hruns, hframe, hall, hothers⟩ := ih hturns.2 hnodup.2 (h.works hw) hrest
    refine ⟨σ₂, hrun.append hruns, hframe, ?_, fun name content hname hc => ?_⟩
    · rw [List.forall_mem_cons]
      exact ⟨hothers _ _ hnodup.1 hpost, hall⟩
    · rw [List.map_cons, List.mem_cons, not_or] at hname
      exact hothers name content hname.2 (hc.works hname.1 hw)

/-! ## The allocation -/

omit [DecidableEq δ] in
/-- A literal is evaluated from left to right, in one state throughout. The literal of an object is
    put together field by field, and so is its value. -/
theorem evalFields_append {a b : List (String × Expr)} {xs ys : List (String × Value δ)}
    (ha : M.evalFields σ a = some xs) (hb : M.evalFields σ b = some ys) :
    M.evalFields σ (a ++ b) = some (xs ++ ys) := by
  induction a generalizing xs with
  | nil =>
    rw [Machine.evalFields, Option.some.injEq] at ha
    rw [List.nil_append, hb, ← ha, List.nil_append]
  | cons e rest ih =>
    obtain ⟨name, e⟩ := e
    rw [Machine.evalFields] at ha
    simp only [Option.bind_eq_bind, Option.bind_eq_some_iff, Option.pure_def,
      Option.some.injEq] at ha
    obtain ⟨x, hx, xs', hxs, rfl⟩ := ha
    rw [List.cons_append, Machine.evalFields, hx, ih hxs]
    rfl

/-- The fields to which the literal gives a value, with the values. -/
def givenFields (given : FieldSite → Option (Value δ)) (fields : List FieldSite) :
    List (String × Value δ) :=
  fields.flatMap fun f => (given f).toList.map fun y => (f.placeName, y)

omit [DecidableEq δ] in
theorem evalFields_given {code : FieldSite → List (String × Expr)}
    {given : FieldSite → Option (Value δ)} : ∀ {fields : List FieldSite},
      (∀ f ∈ fields, M.evalFields σ (code f) =
        some ((given f).toList.map fun y => (f.placeName, y))) →
      M.evalFields σ (fields.flatMap code) = some (givenFields given fields) := by
  intro fields
  induction fields with
  | nil => intro _; rfl
  | cons f rest ih =>
    intro h
    rw [List.forall_mem_cons] at h
    rw [givenFields, List.flatMap_cons, List.flatMap_cons]
    exact evalFields_append h.1 (ih h.2)

omit [DecidableEq δ] in
theorem mem_givenFields {given : FieldSite → Option (Value δ)} {fields : List FieldSite}
    {y : String × Value δ} (h : y ∈ givenFields given fields) :
    ∃ f ∈ fields, y.1 = f.placeName ∧ given f = some y.2 := by
  obtain ⟨f, hf, hy⟩ := List.mem_flatMap.mp h
  obtain ⟨z, hz, rfl⟩ := List.mem_map.mp hy
  exact ⟨f, hf, rfl, Option.mem_toList.mp hz⟩

omit [DecidableEq δ] in
/-- What the literal gives to a field is found under its name. The names have to be different, since
    a literal with the same name twice would give the first. -/
theorem get?_givenFields {given : FieldSite → Option (Value δ)} : ∀ {fields : List FieldSite},
      (fields.map (·.placeName)).Nodup → ∀ f ∈ fields,
      Ordered.get? (givenFields given fields) f.placeName = given f := by
  intro fields hnodup f hf
  have honly : ∀ g ∈ fields, g.placeName = f.placeName → g = f :=
    fun g hg heq => List.inj_on_of_nodup_map hnodup hg hf heq
  cases hg : given f with
  | none =>
    refine Ordered.get?_eq_none fun hmem => ?_
    obtain ⟨y, hy, heq⟩ := List.mem_map.mp hmem
    obtain ⟨g, hgmem, hname, hgiven⟩ := mem_givenFields hy
    rw [honly g hgmem (hname.symm.trans heq), hg] at hgiven
    cases hgiven
  | some z =>
    have hmem : (f.placeName, z) ∈ givenFields given fields :=
      List.mem_flatMap.mpr ⟨f, hf, by rw [hg]; exact List.mem_cons_self⟩
    obtain ⟨found, hfound⟩ := Ordered.exists_get? (List.mem_map.mpr ⟨_, hmem, rfl⟩)
    obtain ⟨g, hgmem, hname, hgiven⟩ := mem_givenFields (Ordered.mem_of_get? hfound)
    rw [honly g hgmem hname.symm, hg] at hgiven
    rw [hfound, hgiven]

/-- Allocating the object, and binding it to the variable, opens the frame. Every field starts with
    what the literal gives, or zero. -/
theorem allocate_frame (hne : place ≠ value) (hb : σ₀.Bounded)
    (hvar : ∃ k, σ₀.cell? value = some k ∧ σ₀.memory (.cell k) = some (.object source))
    {type : TypeRef} {literal : List (String × Expr)} {values : List (String × Value δ)}
    (hvalues : M.evalFields σ₀ literal = some values)
    (hdeclared : ∀ y ∈ values, (M.fieldType? type y.1).isSome) :
    ∃ σ, M.run σ₀ (.assign (.ident place) (.composite type literal true) true) = some (.next σ) ∧
      Frame value place source σ₀.next σ₀ σ ∧
      ∀ name t, M.fieldType? type name = some t →
        σ.memory (.field σ₀.next name) = some ((Ordered.get? values name).getD (M.zero t)) := by
  obtain ⟨τ, hallocate, hτ⟩ := exists_allocate hb hdeclared
  have hproduce : M.produce σ₀ (.composite type literal true) = some (.object σ₀.next, τ) := by
    rw [Machine.produce, hvalues]
    exact hallocate
  -- The object has the number `σ₀.next`, and the variable that holds it the next one.
  have hw : Works [value] (.cell τ.next) τ (τ.bind place (.object σ₀.next)) :=
    .bind hτ.bounded (by simpa using hne)
  refine ⟨_, Machine.run_define hproduce, ⟨?_, ?_, fun l x hl => ?_, hw.bounded⟩, ?_⟩
  · obtain ⟨k, hk, hm⟩ := hvar
    refine ⟨k, ?_, State.memory_bind hτ.bounded _ _ (hτ.memory _ _ hm)⟩
    rw [hw.cells value List.mem_cons_self, State.cell?, hτ.scope]
    exact hk
  · exact ⟨_, State.cell?_bind_self τ place _, State.memory_bind_self τ place _⟩
  · exact ⟨hb l x hl, State.memory_bind hτ.bounded _ _ (hτ.memory l x hl)⟩
  · exact fun name t ht => State.memory_bind hτ.bounded _ _ (hτ.fields name t ht)

/-! ## The three parts of the code -/

/-- What the literal gives to a field, and what is in the field behind the allocation, behind the
    code of the field and behind that of its default. -/
structure Stages (M : Machine δ) (value place : String) (source object : Nat) (σ₀ : State δ)
    (type : TypeRef) (f : FieldSite) (code : ObjectCode) (default : Block)
    (given : Option (Value δ)) (pre mid post : Content δ) : Prop where
  literal : M.evalFields σ₀ code.literal = some (given.toList.map fun y => (f.placeName, y))
  start : ∃ t, M.fieldType? type f.placeName = some t ∧
    ∀ σ, Frame value place source object σ₀ σ →
      σ.memory (.field object f.placeName) = some (given.getD (M.zero t)) →
      σ.Holds (.field object f.placeName) pre
  after : Turns M value place source object σ₀ f.placeName code.after pre mid
  default : Turns M value place source object σ₀ f.placeName default mid post

/-- The fields of an object go through their stages together: all are allocated, all are stored
    behind the literal, and all get their defaults. A field that is none of them stays zero. -/
theorem stages_run {type : TypeRef} {fields : List FieldSite} {code : FieldSite → ObjectCode}
    {default : FieldSite → Block} {given : FieldSite → Option (Value δ)}
    {pre mid post : FieldSite → Content δ}
    (h : ∀ f ∈ fields, Stages M value place source σ₀.next σ₀ type f (code f) (default f) (given f)
      (pre f) (mid f) (post f))
    (hnodup : (fields.map (·.placeName)).Nodup) (hne : place ≠ value) (hb : σ₀.Bounded)
    (hvar : ∃ k, σ₀.cell? value = some k ∧ σ₀.memory (.cell k) = some (.object source)) :
    ∃ σ, M.Runs σ₀
        (.assign (.ident place)
          (.composite type (fields.flatMap fun f => (code f).literal) true) true ::
          (fields.flatMap (fun f => (code f).after) ++ fields.flatMap default)) σ ∧
      Frame value place source σ₀.next σ₀ σ ∧
      (∀ f ∈ fields, σ.Holds (.field σ₀.next f.placeName) (post f)) ∧
      ∀ name t, name ∉ fields.map (·.placeName) → M.fieldType? type name = some t →
        σ.memory (.field σ₀.next name) = some (M.zero t) := by
  have hvalues := evalFields_given fun f hf => (h f hf).literal
  have hdeclared : ∀ y ∈ givenFields given fields, (M.fieldType? type y.1).isSome := by
    intro y hy
    obtain ⟨f, hf, hname, -⟩ := mem_givenFields hy
    obtain ⟨t, ht, -⟩ := (h f hf).start
    rw [hname, ht, Option.isSome_some]
  obtain ⟨σ₁, hallocate, hframe, hmemory⟩ := allocate_frame hne hb hvar hvalues hdeclared
  have hpre : ∀ f ∈ fields, σ₁.Holds (.field σ₀.next f.placeName) (pre f) := by
    intro f hf
    obtain ⟨t, ht, hstart⟩ := (h f hf).start
    refine hstart σ₁ hframe ?_
    rw [hmemory _ t ht, get?_givenFields hnodup f hf]
  obtain ⟨σ₂, hafter, hframe, hmid, hothers⟩ :=
    turns_all (fun f hf => (h f hf).after) hnodup hframe hpre
  obtain ⟨σ₃, hdefaults, hframe, hpost, hothers'⟩ :=
    turns_all (fun f hf => (h f hf).default) hnodup hframe hmid
  refine ⟨σ₃, .cons hallocate (hafter.append hdefaults), hframe, hpost, fun name t hname ht => ?_⟩
  have hnone : Ordered.get? (givenFields given fields) name = none := by
    refine Ordered.get?_eq_none fun hmem => ?_
    obtain ⟨y, hy, rfl⟩ := List.mem_map.mp hmem
    obtain ⟨f, hf, heq, -⟩ := mem_givenFields hy
    exact hname (heq ▸ List.mem_map_of_mem hf)
  have hzero := hmemory name t ht
  rw [hnone, Option.getD_none] at hzero
  exact hothers' name (.plain _) hname (hothers name (.plain _) hname hzero)

/-! ## Objects -/

/-- The struct of the result has the fields that the target's context gives to the object. The
    machine is given its structs from outside, and this says that they are those that the generated
    code declares. -/
def Declares (M : Machine δ) (c : Conversion) (b : Attribute) : Prop :=
  ∀ w type, ObjectView.of? c.registry b = .ok (some w) → c.targetRef b = .ok (.pointer type) →
    c.scope.structFields c.target w.declared.rules.required w.fields = .ok (M.fieldsOf type)

omit [DecidableEq δ] in
/-- A field of the target has the type in the struct that its declaration calls for. -/
theorem Declares.fieldType? {b : Attribute} {w : ObjectView} (h : Declares M c b)
    (hb : ObjectView.of? c.registry b = .ok (some w)) (hw : w.Distinct)
    {type : TypeRef} (htype : c.targetRef b = .ok (.pointer type))
    {name : String} {a : Attribute} (ha : (name, a) ∈ w.fields) :
    ∃ t, c.scope.fieldType c.target a (w.requires name) = .ok t ∧
      M.fieldType? type (w.fieldName name) = some t := by
  have hall := Scope.structFields_forall₂ (h w type hb htype)
  obtain ⟨field, hfield, hname, ht⟩ := forall₂_mem_left hall ha
  have hfields : (M.fieldsOf type).map (·.name) = w.fields.map fun x => w.fieldName x.1 := by
    rw [map_eq_of_forall₂ (fun x t hxt => hxt.1) hall]
    exact List.map_congr_left fun x hx => (hw.fieldName hx).symm
  have hnodup : ((M.fieldsOf type).map (·.name)).Nodup := hfields ▸ show _ from hw
  have hfind := find?_of_nodup_map hnodup hfield
  refine ⟨field.type, ht, ?_⟩
  rw [hw.fieldName ha, ← hname, Machine.fieldType?, hfind, Option.map_some]

/-- The field `name` of the object `n` holds the value `x`, as the context has it for the object
    `v`. A pointer that is required is not nil. -/
inductive FieldHolds (reg : Registry) (ctx : Context) (v : ObjectView) (σ : State δ) (n : Nat)
    (name : String) (a : Attribute) (x : Option (Value δ)) : Prop where
  | intro {p : Primitive} {pointer : Bool} (hp : reg.primitive? a = .ok (some p))
      (hpointer : ctx.holdsPointer reg a (v.requires name) = .ok pointer)
      (hx : Reads σ (.field n (v.fieldName name)) pointer p.isReference x)
      (hr : v.requires name = true → pointer = true → x ≠ none) :
      FieldHolds reg ctx v σ n name a x

omit [DecidableEq δ] in
/-- What the value holds it goes on holding while nothing of it is overwritten. -/
theorem FieldHolds.of_memory {reg : Registry} {ctx : Context} {v : ObjectView} {σ σ' : State δ}
    {n : Nat} {name : String} {a : Attribute} {x : Option (Value δ)}
    (h : FieldHolds reg ctx v σ n name a x)
    (hm : ∀ l y, σ.memory l = some y → σ'.memory l = some y) :
    FieldHolds reg ctx v σ' n name a x := by
  obtain ⟨hp, hpointer, hx, hr⟩ := h
  exact .intro hp hpointer (hx.of_memory hm) hr

/-- In the object `n`, the field of the result holds what the rule makes of the value `x`. The rule
    is `outcome`, a function of the contexts, the two types and whether the value is there. -/
inductive FieldRule (M : Machine δ) (c : Conversion) (s : Site) (v w : ObjectView) (σ : State δ)
    (n : Nat) (m : FieldMatch) (x : Option (Value δ)) : Prop where
  | intro {f : FieldSite} {source target : TypeRef} {p : Primitive}
      (hf : c.Describes s v w m f) (hs : c.sourceRef m.source = .ok source)
      (ht : c.targetRef m.target = .ok target) (hp : c.registry.primitive? m.source = .ok (some p))
      (h : σ.Holds (.field n (w.fieldName m.name))
        (outcome M c f source target p.isReference x)) : FieldRule M c s v w σ n m x

/-- No context points to a reference, which can be nil without. -/
theorem holdsPointer_of_reference {reg : Registry} {ctx : Context} {a : Attribute} {p : Primitive}
    {required pointer : Bool} (hp : reg.primitive? a = .ok (some p)) (hr : p.isReference = true)
    (h : ctx.holdsPointer reg a required = .ok pointer) : pointer = false := by
  unfold Context.holdsPointer at h
  simp only [except_bind_eq_ok, hp, Except.ok.injEq, exists_eq_left'] at h
  rw [if_pos hr] at h
  exact (Except.ok.inj h).symm

/-- The code for a field is built in the case that the field is in. A value of a reference kind
    holds no pointer on either side, which is what the kind of the source is needed for. -/
theorem fieldCase_of_yields {s : Site} {v w : ObjectView} {m : FieldMatch} {f : FieldSite}
    (hs : s.value = .ident value ∧ s.place = .ident place)
    (hf : (c.fieldSite s v w m).Yields f) (hp : f.isPrimitive = true) {result : Option Expr}
    (hr : c.converted? f.source f.target f.sourcePointer f.value = .ok result) {p : Primitive}
    (hkind : c.registry.primitive? m.source = .ok (some p)) :
    ∃ source target, c.FieldCase f value place (v.fieldName m.name) source target
      p.isReference := by
  have hd := fieldSite_describes hf
  rw [FieldSite.isPrimitive, Bool.and_eq_true] at hp
  unfold converted? at hr
  simp only [except_bind_eq_ok] at hr
  obtain ⟨source, hsource, target, htarget, -⟩ := hr
  have hsourceKind : c.registry.primitive? f.source = .ok (some p) := hd.source ▸ hkind
  refine ⟨source, target, ?_, ?_, hp.1, hp.2, hsource, htarget, ⟨p, hsourceKind, rfl⟩,
    fun href => ?_⟩
  · rw [hd.value, hs.1]
  · rw [hd.place, hs.2]
  · -- Only a value of a reference kind can be converted from one.
    obtain ⟨q, hkind⟩ := Registry.exists_kind (hp.2 ▸ hd.targetPrimitive)
    have hq := Registry.primitive?_of_kind hkind
    have hcompatible := hd.compatible (by rw [FieldSite.isPrimitive, hp.1, hp.2]; rfl)
    have hsame := Registry.primitive_of_compatible hcompatible
      (Registry.kind_of_primitive? hsourceKind) hkind
    have hqr : q.isReference = true := by
      rcases hsame with rfl | rfl
      · rfl
      · exact href
    exact holdsPointer_of_reference hq hqr hd.targetPointer

/-- The code of a primitive field, with the value converted where it has to be. -/
def codeOf (c : Conversion) (taken : List String) (f : FieldSite) : ObjectCode :=
  primitiveFieldCode f taken (c.converted? f.source f.target f.sourcePointer f.value).toOption.join

/-- The code of the default of a field. -/
def defaultOf (c : Conversion) (f : FieldSite) : Block := (c.laterDefault f).toOption.getD []

/-- Where all fields are primitive, the code is that of the fields and then that of their
    defaults. -/
theorem primitiveFields_eq {taken : List String} {fields : List FieldSite} {code : ObjectCode}
    (h : c.primitiveFields taken fields = .ok code) :
    code.literal = fields.flatMap (fun f => (c.codeOf taken f).literal) ∧
      code.after = fields.flatMap (fun f => (c.codeOf taken f).after) ∧
      ∀ f ∈ fields, ∃ result, c.converted? f.source f.target f.sourcePointer f.value = .ok result ∧
        c.codeOf taken f = primitiveFieldCode f taken result := by
  obtain ⟨parts, hliteral, hafter, hparts⟩ := primitiveFields_parts h
  have hcode : ∀ {f : FieldSite} {result : Option Expr},
      c.converted? f.source f.target f.sourcePointer f.value = .ok result →
      c.codeOf taken f = primitiveFieldCode f taken result := by
    intro f result hr
    rw [codeOf, hr]
    rfl
  have heq : parts = fields.map (c.codeOf taken) := by
    rw [← map_eq_of_forall₂ (g := id) ?_ hparts, List.map_id]
    rintro f part ⟨result, hr, rfl⟩
    exact (hcode hr).symm
  rw [hliteral, hafter, heq, List.flatMap_map, List.flatMap_map]
  refine ⟨rfl, rfl, fun f hf => ?_⟩
  obtain ⟨-, -, result, hr, -⟩ := forall₂_mem_left hparts hf
  exact ⟨result, hr, hcode hr⟩

/-- With primitives only, all that is left for the end are the defaults. Structured values come in
    the second round only, and there are none here. -/
theorem laterFields_eq {depth : Nat} {fields : List FieldSite} {b : Block}
    (hp : ∀ f ∈ fields, f.isPrimitive = true) (h : (c.laterFields emit depth fields).Yields b) :
    b = fields.flatMap c.defaultOf ∧ ∀ f ∈ fields, c.laterDefault f = .ok (c.defaultOf f) := by
  obtain ⟨parts, rfl, hparts⟩ := laterFields_yields h
  have hdefault : ∀ {f : FieldSite} {b : Block}, c.laterDefault f = .ok b → c.defaultOf f = b := by
    intro f b hd
    rw [defaultOf, hd]
    rfl
  -- The first half of a part is code for a structured field, of which there is none.
  have hvalue : ∀ x ∈ parts, x.1 = [] := by
    intro x hx
    obtain ⟨f, hf, hv, -⟩ := forall₂_mem_right hparts hx
    rw [laterValue, if_pos (hp f hf), Walk.yields_pure] at hv
    exact hv.symm
  have heq : parts.map Prod.snd = fields.map c.defaultOf :=
    map_eq_of_forall₂ (fun f x hx => (hdefault hx.2).symm) hparts
  constructor
  · have hsnd : parts.flatMap (fun x => x.1 ++ x.2) = parts.flatMap Prod.snd :=
      List.flatMap_congr fun x hx => by rw [hvalue x hx, List.nil_append]
    rw [hsnd, List.flatMap_def, heq, List.flatMap_def]
  · intro f hf
    obtain ⟨x, -, -, hd⟩ := forall₂_mem_left hparts hf
    rw [hdefault hd, hd]

/-- A field with primitives on both sides goes through its stages, to what the rule says. The
    content in the end is the outcome; those in between depend on how the field is represented. -/
theorem exists_stages {s : Site} {v w : ObjectView} {m : FieldMatch} {f : FieldSite}
    {taken : List String} {type : TypeRef} {x : Option (Value δ)}
    (hs : s.value = .ident value ∧ s.place = .ident place)
    (htaken : value ∈ taken ∧ place ∈ taken) (hvalue : value ≠ "tmp" ∧ value ≠ "zero")
    (hplace : place ≠ "tmp" ∧ place ≠ "zero") (hf : (c.fieldSite s v w m).Yields f)
    (hp : f.isPrimitive = true) {result : Option Expr}
    (hr : c.converted? f.source f.target f.sourcePointer f.value = .ok result) {b : Block}
    (hb : c.laterDefault f = .ok b)
    (hobj : M.eval σ₀ (.ident value) = some (.object source))
    (hx : FieldHolds c.registry c.source v σ₀ source m.name m.source x)
    (ht : ∃ t, c.scope.fieldType c.target m.target (w.requires m.name) = .ok t ∧
      M.fieldType? type (w.fieldName m.name) = some t) :
    ∃ given pre mid post, Stages M value place source object σ₀ type f
        (primitiveFieldCode f taken result) b given pre mid post ∧
      ∀ σ : State δ, σ.Holds (.field object f.placeName) post →
        FieldRule M c s v w σ object m x := by
  have hd := fieldSite_describes hf
  obtain ⟨hkind, hpointer, hreads, hpresent⟩ := hx
  rename_i p pointer
  obtain ⟨sourceType, targetType, hcase⟩ := fieldCase_of_yields hs hf hp hr hkind
  obtain rfl : pointer = f.sourcePointer := by
    have h := hd.sourcePointer
    rw [hd.source, hd.required] at h
    exact Except.ok.inj (hpointer.symm.trans h)
  -- First the literal and the statements right after it, which fill the field, or leave it blank.
  have hfills : Fills M f value place source object σ₀ (blank M f targetType)
      (converted M f sourceType targetType x) (primitiveFieldCode f taken result) :=
    primitiveFieldCode_fills hcase hobj hreads (hd.required ▸ hpresent) htaken.1 htaken.2 hr
  obtain ⟨given, pre, hliteral, hstart, hafter⟩ := hfills.starts
  -- A field that the literal leaves out starts with the zero value of its declared type. That type
  -- is the one which the emitter took for the field, with the pointer that it decided on.
  have hblank : ∃ t, M.fieldType? type f.placeName = some t ∧ M.zero t = blank M f targetType := by
    obtain ⟨t, hfieldType, hdeclared⟩ := ht
    refine ⟨t, hd.placeName ▸ hdeclared, ?_⟩
    have htype := hcase.target
    have hpointer := hd.targetPointer
    rw [hd.target] at htype hpointer
    unfold Scope.fieldType at hfieldType
    simp only [except_bind_eq_ok] at hfieldType
    obtain ⟨type', htype', pointer', hpointer', h⟩ := hfieldType
    obtain rfl := Except.ok.inj (htype'.symm.trans htype)
    obtain rfl := Except.ok.inj (hpointer'.symm.trans hpointer)
    rw [blank, ← Except.ok.inj h]
  obtain ⟨t, hdeclared, hzero⟩ := hblank
  rw [← hzero] at hstart
  -- Then the default, at the very end of the object.
  have hdefault : Turns M value place source object σ₀ f.placeName b
      (converted M f sourceType targetType x)
      (outcome M c f sourceType targetType p.isReference x) :=
    laterDefault_turns hcase hreads hvalue hplace hb
  refine ⟨given, pre, _, _, ⟨hliteral, ⟨t, hdeclared, hstart⟩, hafter, hdefault⟩, ?_⟩
  intro σ hpost
  exact .intro hd (hd.source ▸ hcase.source) (hd.target ▸ hcase.target) hkind
    (hd.placeName ▸ hpost)

section Object

variable {a b : Attribute} {v w : ObjectView} {depth : Nat} {inBox : Bool} {code : Block}
  {x : String → Option (Value δ)}

/-- The code of the object runs to its end, whatever the fields of the value hold. The literal is
    evaluated first, and then each field runs what it has behind the literal. The premises on names
    keep the temporaries of defaults from the two variables. -/
theorem object_run (hv : ObjectView.of? c.registry a = .ok (some v))
    (hw : ObjectView.of? c.registry b = .ok (some w)) (hdv : v.Distinct) (hdw : w.Distinct)
    (hprimitive : ∀ m ∈ matchFields v w, c.registry.isPrimitive m.source = .ok true ∧
      c.registry.isPrimitive m.target = .ok true)
    (h : (c.object emit (.between a b value place true depth inBox)).Yields code)
    (hne : place ≠ value) (hvalue : value ≠ "tmp" ∧ value ≠ "zero")
    (hplace : place ≠ "tmp" ∧ place ≠ "zero") (hM : Declares M c b) (hb : σ₀.Bounded)
    (hvar : ∃ k, σ₀.cell? value = some k ∧ σ₀.memory (.cell k) = some (.object source))
    (hx : ∀ m ∈ matchFields v w,
      FieldHolds c.registry c.source v σ₀ source m.name m.source (x m.name)) :
    ∃ σ, M.Runs σ₀ code σ ∧ Frame value place source σ₀.next σ₀ σ ∧
      (∀ m ∈ matchFields v w, FieldRule M c (.between a b value place true depth inBox) v w σ
        σ₀.next m (x m.name)) ∧
      ∀ y ∈ w.fields, y.1 ∉ v.fields.map Prod.fst → ∃ t,
        c.scope.fieldType c.target y.2 (w.requires y.1) = .ok t ∧
          σ.memory (.field σ₀.next (w.fieldName y.1)) = some (M.zero t) := by
  obtain ⟨v', w', fields, code, type, later, hv', hw', hfields, hcode, htype, hlater, rfl⟩ :=
    object_yields h
  obtain rfl := Option.some.inj (Except.ok.inj (hv'.symm.trans hv))
  obtain rfl := Option.some.inj (Except.ok.inj (hw'.symm.trans hw))
  have hmatch : ∀ f ∈ fields, f.fieldMatch ∈ matchFields v' w' ∧
      (c.fieldSite (.between a b value place true depth inBox) v' w' f.fieldMatch).Yields f := by
    intro f hf
    obtain ⟨m, hm, hfm⟩ := forall₂_mem_right hfields hf
    obtain rfl := (fieldSite_describes hfm).fieldMatch
    exact ⟨hm, hfm⟩
  -- Nothing is left for later but defaults, so the code is the literal, the rest of each field, and
  -- the defaults.
  have hp : ∀ f ∈ fields, f.isPrimitive = true := by
    intro f hf
    obtain ⟨hm, hfm⟩ := hmatch f hf
    have hof := fieldSite_yields hfm
    obtain ⟨hs, ht⟩ := hprimitive _ hm
    rw [FieldSite.isPrimitive, ← Except.ok.inj (hs.symm.trans hof.sourcePrimitive),
      ← Except.ok.inj (ht.symm.trans hof.targetPrimitive), Bool.true_and]
  have hplaces :
      fields.map (·.placeName) = (matchFields v' w').map fun m => w'.fieldName m.name := by
    refine map_eq_of_forall₂ (fun m f hf => ?_) hfields
    exact (fieldSite_describes hf).placeName
  -- The fields are stored in different fields of the object: the names of the target's fields
  -- differ, and so do the names in code that are made from them.
  have hnodup : (fields.map (·.placeName)).Nodup := hplaces ▸ nodup_placeNames hdv hdw
  rw [List.filter_eq_self.mpr hp] at hcode
  obtain ⟨taken, htaken, hcode⟩ : ∃ taken, (value ∈ taken ∧ place ∈ taken) ∧
      c.primitiveFields taken fields = .ok code :=
    ⟨_, by simp [Site.between, Expr.root?], hcode⟩
  obtain ⟨hliteral, hafter, hcode⟩ := primitiveFields_eq hcode
  obtain ⟨rfl, hdefault⟩ := laterFields_eq hp hlater
  obtain ⟨inner, rfl⟩ := Scope.typeRef_of_view hw htype
  have hobj : M.eval σ₀ (.ident value) = some (.object source) := by
    obtain ⟨k, hk, hmem⟩ := hvar
    exact Machine.eval_ident hk hmem
  have hstages : ∀ f ∈ fields, ∃ given pre mid post,
      Stages M value place source σ₀.next σ₀ inner f (c.codeOf taken f) (c.defaultOf f)
        given pre mid post ∧
      ∀ σ : State δ, σ.Holds (.field σ₀.next f.placeName) post →
        FieldRule M c (.between a b value place true depth inBox) v' w' σ σ₀.next f.fieldMatch
          (x f.name) := by
    intro f hf
    obtain ⟨hm, hfm⟩ := hmatch f hf
    obtain ⟨-, hb⟩ := mem_fields_of_mem_matchFields hm
    obtain ⟨result, hr, hcode⟩ := hcode f hf
    rw [hcode]
    exact exists_stages ⟨rfl, rfl⟩ htaken hvalue hplace hfm (hp f hf) hr (hdefault f hf) hobj
      (hx _ hm) (hM.fieldType? hw hdw htype (Ordered.mem_of_get? hb))
  -- The stages of each field are chosen at once. Then one lemma runs them for all fields together.
  have : Nonempty (Content δ) := ⟨.plain .nil⟩
  choose! given pre mid post hstages hrule using hstages
  obtain ⟨σ, hrun, hframe, hpost, hzero⟩ := stages_run hstages hnodup hne hb hvar
  refine ⟨σ, ?_, hframe, fun m hm => ?_, fun y hy hno => ?_⟩
  · rw [hliteral, hafter]
    exact hrun
  · obtain ⟨f, hf, hfm⟩ := forall₂_mem_left hfields hm
    obtain rfl := (fieldSite_describes hfm).fieldMatch
    exact hrule f hf σ (hpost f hf)
  -- A field of the target without a partner is in no stage, so it keeps the zero value that the
  -- literal gave it.
  · obtain ⟨t, ht, hdeclared⟩ := hM.fieldType? hw hdw htype hy
    refine ⟨t, ht, hzero _ t (fun hmem => ?_) hdeclared⟩
    rw [hplaces] at hmem
    obtain ⟨m, hm, heq⟩ := List.mem_map.mp hmem
    obtain ⟨ha, hb⟩ := mem_fields_of_mem_matchFields hm
    have hname : m.name = y.1 := hdw.fieldName_injOn
      (List.mem_map_of_mem (Ordered.mem_of_get? hb)) (List.mem_map_of_mem hy) heq
    exact hno (List.mem_map.mpr ⟨_, ha, hname⟩)

/-- Between two objects, code in place is that of the objects. The emitter goes by kind once it has
    found that the two sides fit, and two objects always do. -/
theorem object_of_inline {s : Site} (hv : ObjectView.of? c.registry s.source = .ok (some v))
    (hw : ObjectView.of? c.registry s.target = .ok (some w)) (h : (c.inline s).Yields code) :
    ∃ emit, (c.object emit s).Yields code := by
  have hsource := Registry.kind_of_view hv
  have htarget := Registry.kind_of_view hw
  unfold inline at h
  cases hn : c.registry.pairBudget s.source s.target with
  | zero =>
    rw [hn, attrWithin] at h
    exact absurd h Walk.yields_exhausted
  | succ n =>
    rw [hn, attrWithin, attrVia_of_compatible (Registry.compatible_of_objects hsource htarget)] at h
    obtain ⟨kind, target, hk, ht, ⟨rfl, -, -⟩ | ⟨-, h⟩⟩ := byKind_yields.mp h
    · simp [htarget] at ht
    · obtain rfl := Except.ok.inj (hsource.symm.trans hk)
      exact ⟨_, h⟩

/-- The code between two objects runs to its end, whatever is in the fields of the value, as long as
    no required pointer is nil. Every field that both objects have is then what the rule makes of
    the field of the value.

    The machine is any that declares the type of the target, and the state any in which the value is
    an object whose fields hold what their types allow. Fields are primitives here, so no helper is
    called and no loop is run. -/
theorem compile_runs (c : Conversion) (M : Machine δ) (a b : Attribute) (v w : ObjectView)
    (depth : Nat) (inBox : Bool) (met met' : List String) (out : Compiled)
    (hv : ObjectView.of? c.registry a = .ok (some v))
    (hw : ObjectView.of? c.registry b = .ok (some w)) (hdv : v.Distinct) (hdw : w.Distinct)
    (hprimitive : ∀ m ∈ matchFields v w, c.registry.isPrimitive m.source = .ok true ∧
      c.registry.isPrimitive m.target = .ok true)
    (h : (c.compile (.between a b "v" "res" true depth inBox)).Yields met out met')
    (hM : Declares M c b) (σ₀ : State δ) (hb : σ₀.Bounded) (n : Nat)
    (hvar : ∃ k, σ₀.cell? "v" = some k ∧ σ₀.memory (.cell k) = some (.object n))
    (x : String → Option (Value δ))
    (hx : ∀ m ∈ matchFields v w, FieldHolds c.registry c.source v σ₀ n m.name m.source (x m.name)) :
    ∃ σ result, M.Runs σ₀ out.body σ ∧ M.eval σ (.ident "res") = some (.object result) ∧
      ∀ m ∈ matchFields v w,
        FieldRule M c (.between a b "v" "res" true depth inBox) v w σ result m (x m.name) := by
  obtain ⟨hbody, -⟩ := compile_yields.mp h
  obtain ⟨emit, hobject⟩ := object_of_inline hv hw hbody
  obtain ⟨σ, hrun, hframe, hfields, -⟩ := object_run hv hw hdv hdw hprimitive hobject (by decide)
    ⟨by decide, by decide⟩ ⟨by decide, by decide⟩ hM hb hvar hx
  exact ⟨σ, σ₀.next, hrun, hframe.eval_place, hfields⟩

end Object

/-! ## A run -/

/-- Texts as the only data. -/
def texts (declared : TypeRef → List (StructField TypeRef)) : Machine String where
  convert _ x := x
  convert_nil _ := rfl
  literal
    | .string text, _ => .data text
    | _, _ => .data ""
  literal_ne_nil value type := by cases value <;> simp
  zero
    | .primitive .string => .data ""
    | _ => .nil
  zero_pointer _ := rfl
  declared := declared

def cardFields (default : Option Literal) : List (String × Attribute) :=
  [("title", { type := .primitive .string }), ("note", { type := .primitive .string, default })]

/-- An object with a text that is required and one that may have a default. -/
def card (default : Option Literal) : Attribute :=
  { type := .object (cardFields default), rules := { required := ["title"] } }

def cardView (default : Option Literal) : ObjectView := ⟨card default, cardFields default⟩

/-- Decoded cards become cards of the service. -/
def cardConversion : Conversion where
  scope := .ofRegistry ⟨[], List.nodup_nil⟩
  source := .body
  target := .service

/-- The variable `v` holds a card with a title and no note. -/
def cardState : State String where
  scope := [("v", 0)]
  memory
    | .cell 0 => some (.object 1)
    | .cell 2 => some (.data "Plan")
    | .field 1 "Title" => some (.pointer (.cell 2))
    | .field 1 "Note" => some .nil
    | _ => none
  next := 3

def cardValue : String → Option (Value String)
  | "title" => some (.data "Plan")
  | _ => none

/-- A card with a title and without a note becomes one whose note has a default. The title is copied
    by the literal, and the note is given its default after a check for nil. -/
theorem compile_runs_card : ∃ out met' σ result,
    (cardConversion.compile (.between (card none) (card (some (.string "none"))) "v" "res")).Yields
      [] out met' ∧
    (texts fun _ => []).Runs cardState out.body σ ∧
    (texts fun _ => []).eval σ (.ident "res") = some (.object result) ∧
    ∀ m ∈ matchFields (cardView none) (cardView (some (.string "none"))),
      FieldRule (texts fun _ => []) cardConversion
        (.between (card none) (card (some (.string "none"))) "v" "res") (cardView none)
        (cardView (some (.string "none"))) σ result m (cardValue m.name) := by
  obtain ⟨out, met', h⟩ : ∃ out met', (cardConversion.compile
      (.between (card none) (card (some (.string "none"))) "v" "res")).Yields [] out met' :=
    ⟨_, _, rfl⟩
  have hdeclares : Declares (texts fun _ => []) cardConversion (card (some (.string "none"))) := by
    intro w type hw htype
    cases hw
    cases htype
    rfl
  -- Three numbers are in use: for the variable, its object and the text of the title.
  have hbounded : cardState.Bounded := by
    intro l y hl
    show l.number < 3
    unfold cardState at hl
    dsimp only at hl
    split at hl
    · decide
    · decide
    · show 1 < 3
      decide
    · show 1 < 3
      decide
    · cases hl
  have hfields : ∀ m ∈ matchFields (cardView none) (cardView (some (.string "none"))),
      (cardConversion.registry.isPrimitive m.source = .ok true ∧
        cardConversion.registry.isPrimitive m.target = .ok true) ∧
      FieldHolds cardConversion.registry cardConversion.source (cardView none) cardState 1 m.name
        m.source (cardValue m.name) := by
    intro m hm
    have hm : m ∈ [(⟨"title", { type := .primitive .string }, { type := .primitive .string }⟩ :
        FieldMatch), ⟨"note", { type := .primitive .string },
          { type := .primitive .string, default := some (.string "none") }⟩] := hm
    rcases List.mem_pair.mp hm with rfl | rfl
    · exact ⟨⟨rfl, rfl⟩, .intro rfl rfl (.behind rfl rfl rfl) fun _ _ => Option.some_ne_none _⟩
    · exact ⟨⟨rfl, rfl⟩, .intro rfl rfl (.absent rfl rfl) fun hr => absurd hr (by decide)⟩
  have hsource : (cardView none).Distinct := by
    unfold ObjectView.Distinct
    decide
  have htarget : (cardView (some (.string "none"))).Distinct := by
    unfold ObjectView.Distinct
    decide
  obtain ⟨σ, result, hrun⟩ := compile_runs cardConversion (texts fun _ => []) (card none)
    (card (some (.string "none"))) (cardView none) (cardView (some (.string "none"))) 0 false []
    met' out rfl rfl hsource htarget (fun m hm => (hfields m hm).1) h hdeclares cardState
    hbounded 1 ⟨0, rfl, rfl⟩ cardValue (fun m hm => (hfields m hm).2)
  exact ⟨out, met', σ, result, h, hrun⟩

end Conversion
end Shapewright
