import Shapewright.Proofs.Conversion.Safety
import Shapewright.Proofs.Conversion.Footing

/-!
# Where the names in code stand for what they should

Some variables of code are called after fields, which a design names as it likes. They can get in
the way at three places: among each other, at the pair that a loop over a map stores last, and at
the wrapper that an alternative is put into last. There the variable `conv` for a wrapped
alternative can hide another one, too. `Tidy` says that none of this happens at a site; nothing else
goes wrong (`attrWithin_settles`).

The proof goes through the emitters once. What is known of the scopes around a site is the invariant
(`Footing.Stands`), and what the code of a site adds to its block is what the sites around it have
to know (`Settled`).

## What code leaves behind

Most code opens a block of its own for what it declares. The exceptions are the place of a site,
which is meant to be seen behind it, and the variables for converted fields, which are declared in
the block of the object and stay there (`Leaves`). If such an object is the element of a map, its
variables are in the body of the loop, and the statement that stores the pair stands behind them.
This is why a name of a field can come between a loop and its own variables.

Variables for fields avoid those that the site mentions and those of all loops around it, so they
never hide these. They do not avoid one another. Two fields whose names have the same words give one
variable, and the second declaration is an error; `Tidy.fields` asks for this not to be so.

## How the levels fit together

`Settles` is the statement about an emitter: for any site that stands, and whose variables for
fields are new in the block, the code is settled. It is proved for each kind under the assumption
that the emitter of nested sites settles them, which gives the induction over levels.
-/

namespace Shapewright
namespace Conversion

open Relation

variable {c : Conversion} {emit : Emit} {p t : Footing} {s : Site} {b : Block} {σ : Scopes}
  {step : ScopedStep} {f : FieldSite} {x : String}

/-! ## The variables for fields -/

/-- The field needs a variable in the block of its object: what it is converted to is always there,
    and is to be pointed at. -/
def holds (c : Conversion) (f : FieldSite) : Bool :=
  f.isPrimitive && f.targetPointer && (f.required || !f.sourcePointer) &&
    match c.converted? f.source f.target f.sourcePointer f.value with
    | .ok (some _) => true
    | _ => false

/-- The variables for fields in the block of an object. -/
def temporaries (c : Conversion) (s : Site) (fields : List FieldSite) : List String :=
  (fields.filter c.holds).map fun f => temporary f.name s.taken

/-- The code of the site may leave a variable for a field behind in its block. The site may be that
    inside a box. -/
def Leaves (c : Conversion) (s : Site) (x : String) : Prop :=
  ∃ inner f, c.Opens s inner ∧ c.FieldAt inner f ∧ c.holds f = true ∧
    x = temporary f.name inner.taken

/-- The site leaves a variable for a field behind where it is nested. The code of a helper has a
    block of its own, so nothing is left of it where it is called. -/
def Spills (c : Conversion) (t : Site) (x : String) : Prop :=
  (c.callsHelper t.source t.target).Yields false ∧ c.Leaves t x

/-- The sites of the keys and of the elements of a map. -/
inductive Pairs (c : Conversion) (s : Site) : Site → Site → Prop where
  | intro {k x l y : Attribute} (hx : c.registry.entry? s.source = .ok (some (k, x)))
      (hy : c.registry.entry? s.target = .ok (some (l, y))) : Pairs c s (s.key k l) (s.entry x y)

/-- The variables for fields at the site, or just below it, are not in the way of anything. All
    other variables of the code have names that cannot coincide. -/
structure Tidy (c : Conversion) (s : Site) : Prop where
  /-- They have different names. -/
  fields : ∀ v w fields, ObjectView.of? c.registry s.source = .ok (some v) →
    ObjectView.of? c.registry s.target = .ok (some w) →
      List.Forall₂ (fun m f => (c.fieldSite s v w m).Yields f) (matchFields v w) fields →
        (c.temporaries s fields).Nodup
  /-- So have those of the key and of the element of a map, which share a block. -/
  pairs : ∀ key entry x, c.Pairs s key entry → c.Spills key x → ¬ c.Spills entry x
  /-- None of them is called like the map that the pair is stored in. -/
  map : ∀ key entry x, c.Pairs s key entry → c.Spills key x ∨ c.Spills entry x →
    s.place.root? ≠ some x
  /-- What a wrapper is stored in is called neither like what is put into the wrapper nor like a
      variable for one of its fields. -/
  wrapper : ∀ t, c.Wraps s t → s.place.root? ≠ some "conv" ∧ ∀ x, c.Leaves t x →
    s.place.root? ≠ some x

/-- Wherever the code of the site is about, it is tidy. This speaks of code in place; helpers have
    bodies of their own. -/
def Untangled (c : Conversion) (s : Site) : Prop :=
  ∀ t inner, ReflTransGen c.InPlace s t → c.Opens t inner → c.Tidy inner

/-! ## Steps -/

/-- The second footing is one level below the first. There is a case for each emitter that has code
    for another site in it. -/
inductive FootingBelow (c : Conversion) (p : Footing) : Footing → Prop where
  | element {x y : Attribute} (hx : c.registry.elem? p.site.source = .ok (some x))
      (hy : c.registry.elem? p.site.target = .ok (some y)) : FootingBelow c p (p.element x y)
  | key {k x l y : Attribute} (hx : c.registry.entry? p.site.source = .ok (some (k, x)))
      (hy : c.registry.entry? p.site.target = .ok (some (l, y))) : FootingBelow c p (p.key k l)
  | entry {k x l y : Attribute} (hx : c.registry.entry? p.site.source = .ok (some (k, x)))
      (hy : c.registry.entry? p.site.target = .ok (some (l, y))) : FootingBelow c p (p.entry x y)
  | field {f : FieldSite} (hf : c.FieldAt p.site f) (hp : f.isPrimitive = false) :
      FootingBelow c p (p.field f)
  | alternative {u v : UnionType} {a d : Attribute}
      (hu : c.unions p.site.source p.site.target = .ok (u, v))
      (had : (a, d) ∈ (u.2.map Prod.snd).zip (v.2.map Prod.snd)) :
      FootingBelow c p (p.alternative a d)
  | wrapped {a d : Attribute} (hw : c.Wraps p.site (p.site.wrapped a d)) :
      FootingBelow c p (p.wrapped a d)

/-- The second footing is right below the first, or would be once the box is opened that the first
    may need. A box changes no variables. -/
def Descends (c : Conversion) (p t : Footing) : Prop :=
  ∃ s, c.Opens p.site s ∧ c.FootingBelow (p.withSite s) t

/-- The step belongs to a site somewhere below the footing, and its names stand for what they should
    there. -/
inductive Hygienic (c : Conversion) (p : Footing) (step : ScopedStep) : Prop where
  | intro {q : Footing} {s : Site} (hq : ReflTransGen c.Descends p q)
      (hs : s = q.site ∨ c.Opens q.site s) (ho : c.Own s step.stmt)
      (hr : (q.withSite s).Resolves step) : Hygienic c p step

theorem Hygienic.below (hd : c.Descends p t) (h : c.Hygienic t step) : c.Hygienic p step := by
  obtain ⟨hq, hs, ho, hr⟩ := h
  exact .intro (.head hd hq) hs ho hr

/-- What the code of a site amounts to, for the sites around it: all its steps are right, and it
    adds to its block what it declares for its place, and maybe variables for fields. -/
structure Settled (c : Conversion) (p : Footing) (σ : Scopes) (introduced : List String)
    (leaves : String → Prop) (b : Block) : Prop where
  steps : ∀ step ∈ b.stepsIn σ, c.Hygienic p step
  declares : ∃ names, b.declares = introduced ++ names ∧ ∀ x ∈ names, leaves x
  once : (σ.add b.declares).Once

/-- The emitter settles every site that stands apart from the variables for its fields. It is what
    the induction on levels carries. The premises are about names that the site is going to use. -/
def Settles (c : Conversion) (emit : Emit) : Prop :=
  ∀ {t : Footing} {σ : Scopes} {b : Block}, t.Stands σ → (∀ x, c.Leaves t.site x → x ∉ σ.here) →
    c.Untangled t.site → (emit t.site).Yields b →
      c.Settled t σ t.site.introduces (c.Leaves t.site) b

/-! ## Boxes and levels -/

theorem Opens.partOf {inner : Site} (ho : c.Opens s inner) : s.PartOf inner := by
  cases ho with
  | plain => exact .refl s
  | boxed _ _ ho =>
    cases unboxed_yields ho with
    | target => exact ⟨rfl, ⟨rfl, rfl⟩, ⟨rfl, rfl⟩, Or.inl rfl⟩
    | source => exact ⟨rfl, ⟨rfl, rfl⟩, ⟨rfl, rfl⟩, Or.inr rfl⟩

theorem Leaves.not_mem_taken (h : c.Leaves s x) : x ∉ s.taken := by
  obtain ⟨inner, f, ho, -, -, rfl⟩ := h
  rw [← ho.partOf.taken]
  exact temporary_not_mem f.name inner.taken

/-- Unless it is called like the variable that the place of the site is a part of, a variable for a
    field hides none of the place. -/
theorem Leaves.not_mem_place {t : Site} (h : c.Leaves t x) (hr : s.Rooted)
    (hd : s.depth ≤ t.depth) (hroot : s.place.root? ≠ some x) : x ∉ s.place.vars := by
  intro hx
  rcases hr.place x hx with hx | ⟨hx, -⟩
  · refine h.not_mem_taken ?_
    rw [Site.taken, List.append_assoc]
    exact List.mem_append_left _ (loopScope_mono hd hx)
  · exact hroot hx

/-- A primitive leaves nothing behind. -/
theorem not_leaves_of_isPrimitive (hp : c.registry.isPrimitive s.source = .ok true) :
    ¬ c.Leaves s x := by
  rintro ⟨inner, f, ho, ⟨hv, -, -, -⟩, -, -⟩
  have hsource : inner.source = s.source := reconcile_source (p := s.pair) hp ho.reconcile
  rw [← hsource, Registry.isPrimitive_of_kind (Registry.kind_of_view hv)] at hp
  cases hp

theorem Untangled.tidy (hu : c.Untangled s) {inner : Site} (ho : c.Opens s inner) : c.Tidy inner :=
  hu s inner .refl ho

theorem Untangled.inPlace (hu : c.Untangled s) {u : Site} (hp : c.InPlace s u) : c.Untangled u :=
  fun v inner hv ho => hu v inner (.head hp hv) ho

/-- The code of a site starts by storing something of the value. If the place has to be declared,
    that is the only name that the statement brings into its block. -/
theorem store_settled (hs : t.Stands σ) {e : Expr} (he : e.vars ⊆ t.site.value.vars)
    (leaves : String → Prop) : c.Settled t σ t.site.introduces leaves [t.site.store e] where
  steps step hm := by
    rw [Block.stepsIn_cons, Site.store, Stmt.stepsIn_assign, Block.stepsIn_nil, List.append_nil,
      List.mem_singleton] at hm
    subst hm
    exact .intro .refl (Or.inl rfl) (.store e) (hs.store he)
  declares := ⟨[], by simp [Site.store_declares], by simp⟩
  once := by
    rw [Block.declares_cons, Block.declares_nil, List.append_nil, Site.store_declares]
    exact hs.sees.once

/-- A nested site calls a helper, and leaves nothing behind, or has its code in place. A call of a
    helper stores its result and mentions only the variables of the site. The premises about the
    names are needed in the second case only, as the call of a helper is one expression. -/
theorem nested_settled (he : c.Settles emit) (ht : t.Stands σ)
    (hl : ∀ x, c.Spills t.site x → x ∉ σ.here)
    (hu : (c.callsHelper t.site.source t.site.target).Yields false → c.Untangled t.site)
    (h : (c.nested emit t.site).Yields b) :
    c.Settled t σ t.site.introduces (c.Spills t.site) b := by
  rcases nested_yields.mp h with ⟨-, name, -, rfl⟩ | ⟨hcalls, h⟩
  · refine store_settled ht ?_ _
    rw [Expr.vars, Expr.varsAll, Expr.varsAll, List.append_nil]
    exact List.Subset.refl _
  · obtain ⟨hsteps, ⟨names, hdeclares, hnames⟩, honce⟩ :=
      he ht (fun x hx => hl x ⟨hcalls, hx⟩) (hu hcalls) h
    exact ⟨hsteps, ⟨names, hdeclares, fun x hx => ⟨hcalls, hnames x hx⟩⟩, honce⟩

/-! ## Fields -/

theorem FieldAt.partOf (hf : c.FieldAt s f) : s.PartOf (f.site s.depth) := by
  obtain ⟨v, w, m, -, -, -, hd⟩ := hf.describes
  constructor
  · rfl
  · rw [FieldSite.site, hd.value]
    split <;> exact ⟨rfl, rfl⟩
  · rw [FieldSite.site, hd.place]
    exact ⟨rfl, rfl⟩
  · exact Or.inl rfl

theorem FieldAt.value_vars (hf : c.FieldAt s f) : f.value.vars = s.value.vars := by
  obtain ⟨v, w, m, -, -, -, hd⟩ := hf.describes
  rw [hd.value, Expr.vars]

theorem FieldAt.vars (hf : c.FieldAt s f) : f.value.vars ⊆ s.vars ∧ f.place.vars ⊆ s.vars := by
  obtain ⟨v, w, m, -, -, -, hd⟩ := hf.describes
  rw [hf.value_vars, hd.place, Expr.vars]
  exact ⟨List.subset_append_left _ _, List.subset_append_right _ _⟩

/-- Converting a value mentions no further variable. A cast, an address or a dereference stands
    around the value, and a type is no variable. -/
theorem converted?_vars {source target : Attribute} {isPointer : Bool} {value : Expr}
    {result : Option Expr} (h : c.converted? source target isPointer value = .ok result) :
    ∀ e ∈ result, e.vars = value.vars := by
  unfold converted? at h
  simp only [except_bind_eq_ok] at h
  obtain ⟨x, -, y, -, h⟩ := h
  split at h
  · rw [except_pure_eq_ok] at h
    simp [← h]
  · rw [except_pure_eq_ok] at h
    intro e he
    rw [← h, Option.mem_some_iff] at he
    rw [← he, Expr.vars]
    split
    · rw [Expr.vars]
    · rfl

section Fields

variable {q : Footing} (h : q.Sees σ)
include h

theorem when_resolves {test : Expr} {body : Block}
    (ht : ∀ x ∈ test.vars, x ∈ q.site.vars ∨ x ∈ σ.here)
    (hb : ∀ step ∈ body.stepsIn (σ.push []), q.Resolves step) :
    ∀ step ∈ Block.stepsIn σ [.when test body], q.Resolves step := by
  intro step hm
  rw [Block.stepsIn_cons, Stmt.stepsIn_when, Block.stepsIn_nil, List.append_nil,
    List.mem_cons] at hm
  rcases hm with rfl | hm
  · exact h.resolves_plain rfl ht
  · exact hb step hm

variable (hf : c.FieldAt q.site f)
include hf

theorem set_resolves {e : Expr} (he : ∀ x ∈ e.vars, x ∈ q.site.vars ∨ x ∈ σ.here) :
    ∀ step ∈ Block.stepsIn σ [.set f.place e], q.Resolves step := by
  intro step hm
  rw [Block.stepsIn_cons, Stmt.set, Stmt.stepsIn_assign, Block.stepsIn_nil, List.append_nil,
    List.mem_singleton] at hm
  subst hm
  refine h.resolves_plain rfl fun x hx => ?_
  rw [Stmt.vars, List.mem_append] at hx
  exact hx.elim (fun hx => Or.inl (hf.vars.2 hx)) (he x)

theorem ifPresent_resolves {body : Block}
    (hb : ∀ step ∈ body.stepsIn (σ.push []), q.Resolves step) :
    ∀ step ∈ Block.stepsIn σ [f.ifPresent body], q.Resolves step := by
  refine when_resolves h (fun x hx => ?_) hb
  rw [Expr.vars_notNil] at hx
  exact Or.inl (hf.vars.1 hx)

variable (hr : q.site.Rooted)
include hr

theorem storeConverted_resolves {e : Expr} (he : e.vars ⊆ q.site.vars)
    (hnew : f.targetPointer = true → temporary f.name q.site.taken ∉ σ.here) :
    ∀ step ∈ (storeConverted f q.site.taken e).stepsIn σ, q.Resolves step := by
  unfold storeConverted
  split
  · rename_i hp
    have hsite : temporary f.name q.site.taken ∉ q.site.vars :=
      fun hm => temporary_not_mem _ _ (hr.mem_taken hm)
    have hadd : q.Sees (σ.add [temporary f.name q.site.taken]) :=
      h.add (by simp) (by simpa using hnew hp) (by simpa using hsite)
    intro step hm
    rw [Block.stepsIn_cons, Stmt.stepsIn_assign, List.singleton_append, List.mem_cons] at hm
    rcases hm with rfl | hm
    · exact h.resolves (fun x hx => Or.inl (he hx)) hadd.once
    · refine set_resolves hadd hf (fun x hx => Or.inr ?_) step hm
      rw [Expr.vars, Expr.vars] at hx
      exact List.mem_append_right _ hx
  · exact set_resolves h hf fun x hx => Or.inl (he hx)

/-- One case for each way to store a primitive field. A variable is needed only for a converted
    value that is to be pointed at. -/
theorem primitiveFieldCode_resolves {result : Option Expr} (hp : f.isPrimitive = true)
    (hc : c.converted? f.source f.target f.sourcePointer f.value = .ok result)
    (hnew : c.holds f = true → temporary f.name q.site.taken ∉ σ.here) :
    ∀ step ∈ (primitiveFieldCode f q.site.taken result).after.stepsIn σ, q.Resolves step := by
  have none : ∀ step ∈ Block.stepsIn σ [], q.Resolves step := by simp
  cases result with
  | some e =>
    have he : e.vars ⊆ q.site.vars := by
      rw [converted?_vars hc e rfl]
      exact hf.vars.1
    unfold primitiveFieldCode
    dsimp only
    split
    · exact none
    · split
      · exact ifPresent_resolves h hf
          (storeConverted_resolves h.push_nil hf hr he fun _ => List.not_mem_nil)
      -- Without a test around it the temporary is declared in the block of the object itself, which
      -- is where it must be new. Under a test it has a block of its own.
      · rename_i hif
        refine storeConverted_resolves h hf hr he fun ht => hnew ?_
        rw [holds, hp, ht, hc]
        revert hif
        cases f.required <;> cases f.sourcePointer <;> simp
  | none =>
    unfold primitiveFieldCode
    dsimp only
    split
    · split
      · exact none
      · refine ifPresent_resolves h hf (set_resolves h.push_nil hf fun x hx => Or.inl ?_)
        rw [Expr.vars] at hx
        exact hf.vars.1 hx
    · split <;> exact none

end Fields

/-- A field declares a variable in the block of its object just where it needs one. The temporaries
    of a block are therefore those of the fields that hold, in the order of the fields. -/
theorem primitiveFieldCode_declares (taken : List String) {result : Option Expr}
    (hp : f.isPrimitive = true)
    (hc : c.converted? f.source f.target f.sourcePointer f.value = .ok result) :
    (primitiveFieldCode f taken result).after.declares =
      if c.holds f then [temporary f.name taken] else [] := by
  unfold primitiveFieldCode storeConverted
  cases result with
  | none =>
    simp only [holds, hc, Bool.and_false, Bool.false_eq_true, ↓reduceIte]
    split <;> split <;> rfl
  | some e =>
    simp only [holds, hc, hp, Bool.true_and, Bool.and_true]
    cases f.targetPointer <;> cases f.required <;> cases f.sourcePointer <;> rfl

/-- The primitive fields of an object, one after another. By induction on the fields, from the
    front: what a field declares is in scope for all that follow it. The premises on the temporaries
    are those that the fields lose one by one. -/
theorem primitiveFields_settled (ho : c.Opens p.site s) (hr : s.Rooted) {fields : List FieldSite}
    {parts : List ObjectCode} (hparts : List.Forall₂ (fun f part => ∃ result,
      c.converted? f.source f.target f.sourcePointer f.value = .ok result ∧
        part = primitiveFieldCode f s.taken result) fields parts)
    (hat : ∀ f ∈ fields, c.FieldAt s f ∧ f.isPrimitive = true) : ∀ {σ : Scopes},
    (p.withSite s).Sees σ → (c.temporaries s fields).Nodup →
      (∀ x ∈ c.temporaries s fields, x ∉ σ.here) →
        Block.declares (parts.flatMap (·.after)) = c.temporaries s fields ∧
          ∀ step ∈ Block.stepsIn σ (parts.flatMap (·.after)), c.Hygienic p step := by
  induction hparts with
  | nil =>
    intro σ _ _ _
    exact ⟨rfl, by simp⟩
  | @cons f part fields parts hpart _ ih =>
    obtain ⟨result, hc, rfl⟩ := hpart
    rw [List.forall_mem_cons] at hat
    obtain ⟨⟨hf, hp⟩, hat⟩ := hat
    intro σ h hnodup hnew
    have hdeclares := primitiveFieldCode_declares s.taken hp hc
    have hcons : c.temporaries s (f :: fields) =
        (primitiveFieldCode f s.taken result).after.declares ++ c.temporaries s fields := by
      rw [hdeclares, temporaries, temporaries, List.filter_cons]
      split <;> rfl
    rw [hcons] at hnodup hnew ⊢
    rw [List.nodup_append] at hnodup
    obtain ⟨hhead, htail, hdisjoint⟩ := hnodup
    -- Behind the first field its variable is there, which is none of the others.
    have hadd :
        (p.withSite s).Sees (σ.add (primitiveFieldCode f s.taken result).after.declares) := by
      refine h.add hhead (fun x hx => hnew x (List.mem_append_left _ hx)) fun x hx hm => ?_
      rw [hdeclares] at hx
      split at hx
      · rw [List.mem_singleton.mp hx] at hm
        exact temporary_not_mem _ _ (hr.mem_taken hm)
      · exact absurd hx List.not_mem_nil
    obtain ⟨hrest, hsteps⟩ := ih hat hadd htail fun x hx hm =>
      (List.mem_append.mp hm).elim (hnew x (List.mem_append_right _ hx))
        fun hm => hdisjoint x hm x hx rfl
    rw [List.flatMap_cons, Block.declares_append, hrest, Block.stepsIn_append]
    refine ⟨rfl, fun step hm => ?_⟩
    rcases List.mem_append.mp hm with hm | hm
    · obtain ⟨k, hk, hstmt⟩ := Block.exists_mem_steps hm []
      have hown : c.Own s k.stmt := .primitive hf hp hc hk
      refine .intro .refl (Or.inr ho) (hstmt ▸ hown) ?_
      refine primitiveFieldCode_resolves h hf hr hp hc (fun hheld => ?_) step hm
      refine hnew _ (List.mem_append_left _ ?_)
      rw [hdeclares, if_pos hheld]
      exact List.mem_singleton_self _
    · exact hsteps step hm

/-- The default of a field declares its variables in blocks of their own. So the same name serves in
    the default of every field, and none of them is seen by another. -/
theorem laterDefault_resolves {q : Footing} (h : q.Sees σ) (hr : q.site.Rooted)
    (hf : c.FieldAt q.site f) (hd : c.laterDefault f = .ok b) :
    b.declares = [] ∧ ∀ step ∈ b.stepsIn σ, q.Resolves step := by
  have hvalue : ∀ x ∈ f.value.isNil.vars, x ∈ q.site.vars ∨ x ∈ σ.here := by
    intro x hx
    rw [Expr.vars_isNil] at hx
    exact Or.inl (hf.vars.1 hx)
  -- A further block, in which a variable is declared.
  have hown : ∀ {name : String} {type : TypeRef} {value : Option Expr} {rest : Block},
      name ∈ ["tmp", "zero"] → (∀ e ∈ value, e.vars = []) →
      (q.Sees ((σ.push []).add [name]) →
        ∀ step ∈ Block.stepsIn ((σ.push []).add [name]) rest, q.Resolves step) →
      ∀ step ∈ Block.stepsIn (σ.push []) (.declare name type value :: rest), q.Resolves step := by
    intro name type value rest hname hv hrest step hm
    have hadd : q.Sees ((σ.push []).add [name]) :=
      h.push_nil.add (by simp) (by simp) (by simpa using hr.not_mem_vars hname)
    rw [Block.stepsIn_cons, Stmt.stepsIn_declare, List.singleton_append, List.mem_cons] at hm
    rcases hm with rfl | hm
    · refine h.push_nil.resolves (fun x hx => ?_) hadd.once
      cases value with
      | none => exact absurd hx List.not_mem_nil
      | some e =>
        rw [Stmt.vars, hv e rfl] at hx
        exact absurd hx List.not_mem_nil
    · exact hrest hadd step hm
  have hlit : ∀ (value : Literal) (type : TypeRef), (Expr.lit value type).vars = [] :=
    fun value type => by rw [Expr.vars]
  unfold laterDefault at hd
  split at hd
  · cases defaultField_shape hd with
    | idle => exact ⟨rfl, by simp⟩
    | held _ _ type =>
      refine ⟨rfl, when_resolves h hvalue (hown (by simp) ?_ fun hadd => ?_)⟩
      · intro e he
        rw [← Option.mem_some_iff.mp he, hlit]
      · refine set_resolves hadd hf fun x hx => Or.inr ?_
        rw [Expr.vars, Expr.vars] at hx
        exact List.mem_append_right _ hx
    | stored _ _ type =>
      refine ⟨rfl, when_resolves h hvalue (set_resolves h.push_nil hf fun x hx => ?_)⟩
      rw [hlit] at hx
      exact absurd hx List.not_mem_nil
    | zero _ _ type =>
      refine ⟨rfl, fun step hm => ?_⟩
      rw [Block.stepsIn_cons, Stmt.stepsIn_block, Block.stepsIn_nil, List.append_nil] at hm
      refine hown (by simp) (by simp) (fun hadd => when_resolves hadd (fun x hx => ?_) ?_) step hm
      · rw [Expr.vars, Expr.vars, List.mem_append] at hx
        exact hx.imp (fun hx => hf.vars.2 hx) fun hx => List.mem_append_right _ hx
      · refine set_resolves hadd.push_nil hf fun x hx => ?_
        rw [hlit] at hx
        exact absurd hx List.not_mem_nil
  · cases hd
    exact ⟨rfl, by simp⟩

/-- The site of a field stands where the object is seen, and inside the check for nil if there is
    one. -/
theorem FieldAt.stands {τ : Scopes} (hf : c.FieldAt p.site f) (h : p.Sees τ) (hr : p.site.Rooted)
    (hb : τ.around.length = (p.field f).block) : (p.field f).Stands τ where
  rooted := hf.partOf.rooted hr
  once := h.once
  block := hb
  value x hx := h.vars x (List.mem_append_left _ (hf.partOf.value.1 ▸ hx))
  place x hx _ := h.vars x (List.mem_append_right _ (hf.partOf.place.1 ▸ hx))
  fresh _ hx := absurd hx List.not_mem_nil

section Emitters

variable (he : c.Settles emit) (ho : c.Opens p.site s) (hs : (p.withSite s).Stands σ)
  (hu : c.Untangled p.site)

section

include ho

/-- A step of the site itself. -/
theorem own_hygienic {τ : Scopes} {stmt : Stmt} (hown : c.Own s stmt)
    (hr : (p.withSite s).Resolves ⟨τ, stmt⟩) : c.Hygienic p ⟨τ, stmt⟩ :=
  .intro .refl (Or.inr ho) hown hr

include hs

/-- The first statement stores something of the value; what follows sees all variables of the
    site. -/
theorem settled_of_store {e : Expr} {rest : Block} (hv : e.vars ⊆ s.value.vars)
    (hdeclares : ∀ x ∈ rest.declares, c.Leaves p.site x)
    (hrest : (p.withSite s).Sees (σ.add s.introduces) →
      ((σ.add s.introduces).add rest.declares).Once ∧
        ∀ step ∈ rest.stepsIn (σ.add s.introduces), c.Hygienic p step) :
    c.Settled p σ s.introduces (c.Leaves p.site) (s.store e :: rest) := by
  obtain ⟨honce, hsteps⟩ := hrest hs.sees
  have hintroduces : (s.store e).declares = s.introduces := s.store_declares e
  constructor
  case steps =>
    intro step hm
    rw [Block.stepsIn_cons, hintroduces, Site.store, Stmt.stepsIn_assign, List.singleton_append,
      List.mem_cons] at hm
    rcases hm with rfl | hm
    · exact own_hygienic ho (.store e) (hs.store hv)
    · exact hsteps step hm
  case declares => exact ⟨rest.declares, by rw [Block.declares_cons, hintroduces], hdeclares⟩
  case once =>
    rw [Block.declares_cons, hintroduces, ← Scopes.add_add]
    exact honce

end

include he ho hs hu

/-- In the body of a loop over an array stands the code of the element and nothing else. The two
    variables of the loop are new at this depth, and what the element needs of its surroundings is
    handed on with the footing. -/
theorem array_settled (h : (c.array emit s).Yields b) :
    c.Settled p σ s.introduces (c.Leaves p.site) b := by
  obtain ⟨x, y, type, body, hx, hy, -, hb, rfl⟩ := array_yields.mp h
  refine settled_of_store ho hs ?_ (by simp [Stmt.declares]) fun hsees => ⟨?_, ?_⟩
  · rw [Expr.vars, Expr.vars]
    exact List.Subset.refl _
  · simpa [Stmt.declares] using hsees.once
  · have hstands : ((p.withSite s).element x y).Stands _ := hsees.element hs.block x y hs.rooted
    have hbody := nested_settled he hstands (fun _ _ => List.not_mem_nil)
      (fun hcalls => hu.inPlace (.unfolded ho (.element hx hy) hcalls)) hb
    intro step hm
    rw [Block.stepsIn_cons, Stmt.stepsIn_range, Block.stepsIn_nil, List.append_nil,
      List.mem_cons] at hm
    rcases hm with rfl | hm
    · exact own_hygienic ho (.loop _ _) (hsees.resolves_plain rfl fun x hx =>
        Or.inl (List.mem_append_left _ hx))
    · exact (hbody.steps step hm).below ⟨s, ho, .element hx hy⟩

/-- In the body of a loop over a map, the key comes first, then the element and last the pair. Each
    is under the declarations of those before it. -/
theorem map_settled (h : (c.map emit s).Yields b) :
    c.Settled p σ s.introduces (c.Leaves p.site) b := by
  obtain ⟨k, x, l, y, keyType, elemType, keyCode, elemCode, hx, hy, -, -, hkc, hec, rfl⟩ :=
    map_yields.mp h
  have hpairs : c.Pairs s (s.key k l) (s.entry x y) := .intro hx hy
  have htidy := hu.tidy ho
  have hne := loopDistinct s.depth
  have hplace : ∀ n ∈ loopVariables s.depth, n ∉ s.place.vars :=
    fun n hn hm => hs.rooted.not_mem_loopVariables hm (Nat.le_refl _) hn
  have hspill : ∀ {t : Site} {n : String}, t.depth = s.depth + 1 → c.Spills t n →
      n ∉ loopVariables s.depth := by
    intro t n hd hn hm
    refine hn.2.not_mem_taken ?_
    rw [Site.taken, hd, List.append_assoc]
    exact List.mem_append_left _ (mem_loopScope_succ hm)
  refine settled_of_store ho hs ?_ (by simp [Stmt.declares, Stmt.set]) fun hsees => ⟨?_, ?_⟩
  · rw [Expr.vars, Expr.vars]
    exact List.Subset.refl _
  · simpa [Stmt.declares] using hsees.once
  · -- The key, at the beginning of the body.
    have hkey := nested_settled he (hsees.key hs.block k l) (fun _ _ => List.not_mem_nil)
      (fun hcalls => hu.inPlace (.unfolded ho (.key hx hy) hcalls)) hkc
    obtain ⟨names, hnames, hspills⟩ := hkey.declares
    have hnames : keyCode.declares = loopNewKey s.depth :: names := hnames
    have hfresh : ∀ n ∈ loopVariables s.depth, n ≠ loopNewKey s.depth → n ∉ keyCode.declares := by
      intro n hn hnew
      rw [hnames, List.mem_cons, not_or]
      exact ⟨hnew, fun hm => hspill rfl (hspills n hm) hn⟩
    -- The element, behind what the key has declared.
    have hblock : (σ.add s.introduces).around.length = (p.withSite s).block := hs.block
    have hstands := Footing.entry_stands hblock x y hkey.once
      (hfresh _ (loopValue_mem _) hne.newKey.2.symm)
      (hfresh _ (loopNewValue_mem _) hne.newValue.2.2)
    have hentry := nested_settled he hstands
      (fun n hn hm => by
        rw [Scopes.add_here, Scopes.push_here, List.nil_append, hnames, List.mem_cons] at hm
        rcases hm with rfl | hm
        · exact hspill rfl hn (loopNewKey_mem _)
        · exact htidy.pairs _ _ n hpairs (hspills n hm) hn)
      (fun hcalls => hu.inPlace (.unfolded ho (.entry hx hy) hcalls)) hec
    obtain ⟨names', hnames', hspills'⟩ := hentry.declares
    have hnames' : elemCode.declares = loopNewValue s.depth :: names' := hnames'
    intro step hm
    rw [Block.stepsIn_cons, Stmt.stepsIn_range, Block.stepsIn_nil, List.append_nil, List.mem_cons,
      Block.stepsIn_append, Block.stepsIn_append, Block.declares_append, ← Scopes.add_add,
      Block.stepsIn_cons, Stmt.set, Stmt.stepsIn_assign, Block.stepsIn_nil, List.append_nil,
      List.mem_append, List.mem_append, List.mem_singleton] at hm
    rcases hm with rfl | (hm | hm) | rfl
    · exact own_hygienic ho (.loop _ _) (hsees.resolves_plain rfl fun x hx =>
        Or.inl (List.mem_append_left _ hx))
    · exact (hkey.steps step hm).below ⟨s, ho, .key hx hy⟩
    · exact (hentry.steps step hm).below ⟨s, ho, .entry hx hy⟩
    · refine own_hygienic ho (.pair _ _) (hsees.pair hs.rooted hentry.once ?_ ?_ ?_ ?_ ?_)
      · exact List.forall_mem_cons.mpr ⟨hplace _ (loopKey_mem _),
          List.forall_mem_singleton.mpr (hplace _ (loopValue_mem _))⟩
      · rw [hnames, List.forall_mem_cons]
        refine ⟨hplace _ (loopNewKey_mem _), fun n hn => ?_⟩
        exact (hspills n hn).2.not_mem_place hs.rooted (Nat.le_succ _)
          (htidy.map _ _ n hpairs (Or.inl (hspills n hn)))
      · rw [hnames', List.forall_mem_cons]
        refine ⟨hplace _ (loopNewValue_mem _), fun n hn => ?_⟩
        exact (hspills' n hn).2.not_mem_place hs.rooted (Nat.le_succ _)
          (htidy.map _ _ n hpairs (Or.inr (hspills' n hn)))
      · rw [hnames]
        exact List.mem_cons_self
      · rw [hnames']
        exact List.mem_cons_self

/-- The code of an alternative, in its case of the switch. For one in a wrapper, the wrapper is
    stored last, under the declarations of the code before it. -/
theorem alternative_hygienic {τ : Scopes} (hsees : (p.withSite s).Sees τ)
    (hb : τ.around.length = (p.withSite s).block) {u v : UnionType} {index : Nat} {x y : Attribute}
    (hxy : c.unions s.source s.target = .ok (u, v))
    (hm : (x, y) ∈ (u.2.map Prod.snd).zip (v.2.map Prod.snd))
    (h : (c.alternative emit s v index x y).Yields b) :
    ∀ step ∈ b.stepsIn (τ.push ["actual"]), c.Hygienic p step := by
  -- Names that the code picks are picked apart from those of its value, and the value of an
  -- alternative is `actual`.
  have hactual : ∀ {t : Site} {n : String}, t.value = .ident "actual" → c.Leaves t n →
      n ∉ (τ.push ["actual"]).here := by
    rintro t n ht hn hmem
    rw [Scopes.push_here, List.mem_singleton] at hmem
    refine hn.not_mem_taken ?_
    rw [Site.taken, ht, hmem]
    exact List.mem_append_left _ (List.mem_append_right _ (List.mem_singleton_self _))
  have hbelow : c.Descends p ((p.withSite s).alternative x y) := ⟨s, ho, .alternative hxy hm⟩
  have hstands := hsees.alternative hb x y hs.rooted
  rcases alternative_yields.mp h with
    ⟨hn, hcode⟩ | ⟨hn, wrapper, -, ⟨-, -, rfl⟩ | ⟨hp, code, hcode, rfl⟩⟩
  · intro step hmem
    have hsettled := nested_settled he hstands (fun n hn => hactual rfl hn.2)
      (fun hcalls => hu.inPlace (.unfolded ho (.alternative hxy hm hn) hcalls)) hcode
    exact (hsettled.steps step hmem).below hbelow
  · -- A primitive is stored by a statement of its own site.
    intro step hmem
    have hsettled := store_settled (c := c) hstands (e := .convert wrapper (.ident "actual"))
      (by rw [Expr.vars]; exact List.Subset.refl _) fun _ => True
    exact (hsettled.steps step hmem).below hbelow
  -- Here the last statement reads `conv` and stores in the place of the union: neither the fields'
  -- temporaries nor `conv` itself may hide that place.
  · have hwraps : c.Wraps s (s.wrapped x y) := .alternative hxy hm hn hp
    obtain ⟨hroot, hleaves⟩ := (hu.tidy ho).wrapper _ hwraps
    have hsettled := he (hsees.wrapped hb x y) (fun n hn => hactual rfl hn)
      (hu.inPlace (.wrapped ho hwraps)) hcode
    obtain ⟨names, hnames, hfields⟩ := hsettled.declares
    have hnames : code.declares = "conv" :: names := hnames
    intro step hmem
    rw [Block.stepsIn_append, Block.stepsIn_cons, Stmt.set, Stmt.stepsIn_assign, Block.stepsIn_nil,
      List.append_nil, List.mem_append, List.mem_singleton] at hmem
    rcases hmem with hmem | rfl
    · exact (hsettled.steps step hmem).below ⟨s, ho, .wrapped hwraps⟩
    · refine own_hygienic ho (.wrap _ _) (hsees.wrap hs.rooted hsettled.once ?_ ?_ wrapper)
      · rw [hnames, List.forall_mem_cons]
        refine ⟨fun hplace => ?_, fun n hn => ?_⟩
        · rcases hs.rooted.place _ hplace with hplace | ⟨hplace, -⟩
          · obtain ⟨d, -, hplace⟩ := mem_loopScope.mp hplace
            exact fixed_not_mem_loopVariables (by simp [fixedVariables]) d hplace
          · exact hroot hplace
        · exact (hfields n hn).not_mem_place hs.rooted (Nat.le_refl _) (hleaves n (hfields n hn))
      · rw [hnames]
        exact List.mem_cons_self

theorem union_settled (h : (c.union emit s).Yields b) :
    c.Settled p σ s.introduces (c.Leaves p.site) b := by
  obtain ⟨u, v, declared, cases, hxy, hd, hcases, rfl⟩ := union_yields h
  have hsees : (p.withSite s).Sees (σ.add s.introduces) := hs.sees
  obtain ⟨hdeclares, hdeclared⟩ : declared.declares = s.introduces ∧
      ∀ step ∈ declared.stepsIn σ, c.Hygienic p step := by
    unfold declaration at hd
    split at hd
    · rename_i hdeclare
      split at hd
      · rename_i name hplace
        simp only [Walk.yields_bind, Walk.yields_liftM, Walk.yields_pure] at hd
        obtain ⟨type, -, rfl⟩ := hd
        have hintroduces : [name] = s.introduces := by
          rw [Site.introduces, if_pos hdeclare, hplace, Expr.vars]
        refine ⟨hintroduces, fun step hm => ?_⟩
        rw [Block.stepsIn_cons, Stmt.stepsIn_declare, Block.stepsIn_nil, List.append_nil,
          List.mem_singleton] at hm
        subst hm
        refine own_hygienic ho (.declare type hplace) ⟨?_, by simp [Stmt.vars]⟩
        rw [Stmt.declares, hintroduces]
        exact hsees.once
      · simp at hd
    · rename_i hdeclare
      rw [Walk.yields_pure] at hd
      subst hd
      exact ⟨by rw [Site.introduces, if_neg hdeclare]; rfl, by simp⟩
  -- A switch declares nothing that is seen after it. So all that is left of the code for later
  -- statements is the declaration of the place.
  have hall : Block.declares (declared ++ [.typeSwitch "actual" s.value cases]) = s.introduces := by
    rw [Block.declares_append, hdeclares]
    exact List.append_nil _
  constructor
  case steps =>
    intro step hm
    rw [Block.stepsIn_append, hdeclares, Block.stepsIn_cons, Stmt.stepsIn, Block.stepsIn_nil,
      List.append_nil, List.mem_append, List.mem_cons, Block.mem_stepsIn_cases] at hm
    rcases hm with hm | rfl | ⟨x, hx, hm⟩
    · exact hdeclared step hm
    · exact own_hygienic ho (.switch _) (hsees.resolves_plain rfl fun x hx =>
        Or.inl (List.mem_append_left _ hx))
    · obtain ⟨⟨a, d⟩, hq, index, hb⟩ := forall₂_mem_right (cases_yields hcases) hx
      exact alternative_hygienic he ho hs hu hsees hs.block hxy hq hb step hm
  case declares => exact ⟨[], by rw [hall, List.append_nil], by simp⟩
  case once =>
    rw [hall]
    exact hsees.once

/-- The code of a field that is not primitive is behind a check for nil, or declares nothing. Either
    way the block of the object gains no names from it, so the code of the next field finds the
    scopes as they were. -/
theorem laterValue_hygienic {τ : Scopes} (hsees : (p.withSite s).Sees τ)
    (hb : τ.around.length = (p.withSite s).block) (hf : c.FieldAt s f)
    (h : (c.laterValue emit s.depth f).Yields b) :
    b.declares = [] ∧ ∀ step ∈ b.stepsIn τ, c.Hygienic p step := by
  unfold laterValue at h
  split at h
  · rw [Walk.yields_pure] at h
    subst h
    exact ⟨rfl, by simp⟩
  · rename_i hp
    have hp : f.isPrimitive = false := by simpa using hp
    obtain ⟨code, hcode, rfl⟩ := structuredField_yields.mp h
    have hbelow := hf.below hp
    have hdescends : c.Descends p ((p.withSite s).field f) := ⟨s, ho, .field hf hp⟩
    -- Where the code stands, and that nothing it leaves behind is there yet.
    have settled : ∀ {τ' : Scopes}, (p.withSite s).Sees τ' →
        τ'.around.length = ((p.withSite s).field f).block →
        (∀ x, c.Spills (f.site s.depth) x → x ∉ τ'.here) →
        c.Settled ((p.withSite s).field f) τ' [] (c.Spills (f.site s.depth)) code :=
      fun hsees hb hl => nested_settled he (hf.stands hsees hs.rooted hb) hl
        (fun hcalls => hu.inPlace (.unfolded ho hbelow hcalls)) hcode
    split
    · rename_i hif
      rw [Bool.or_eq_true, List.isEmpty_iff] at hif
      rcases hif with rfl | hplain
      · exact ⟨rfl, by simp⟩
      · have hnone : ∀ x, ¬ c.Spills (f.site s.depth) x := by
          intro x hx
          refine not_leaves_of_isPrimitive ?_ hx.2
          obtain ⟨v, w, m, -, -, -, hd⟩ := hf.describes
          simp only [Bool.and_eq_true, Bool.not_eq_true'] at hplain
          exact hplain.1 ▸ hd.sourcePrimitive
        have hblock : ((p.withSite s).field f).block = (p.withSite s).block := if_pos hplain
        have hcode := settled hsees (hb.trans hblock.symm) fun x hx => absurd hx (hnone x)
        obtain ⟨names, hnames, hleaves⟩ := hcode.declares
        obtain rfl : names = [] :=
          List.eq_nil_iff_forall_not_mem.mpr fun x hx => hnone x (hleaves x hx)
        exact ⟨hnames, fun step hm => (hcode.steps step hm).below hdescends⟩
    · rename_i hif
      have hplain : ¬ (f.sourcePrimitive && !f.sourcePointer) = true := fun h => hif (by simp [h])
      have hblock : ((p.withSite s).field f).block = (p.withSite s).block + 1 := if_neg hplain
      have hcode := settled hsees.push_nil (by
        rw [hblock, Scopes.push_around, Scopes.blocks_length, hb]) fun _ _ => List.not_mem_nil
      refine ⟨rfl, fun step hm => ?_⟩
      rw [Block.stepsIn_cons, FieldSite.ifPresent, Stmt.stepsIn_when, Block.stepsIn_nil,
        List.append_nil, List.mem_cons] at hm
      rcases hm with rfl | hm
      · refine own_hygienic ho (.test hf) (hsees.resolves_plain rfl fun x hx => Or.inl ?_)
        rw [Stmt.when, Stmt.vars, Expr.vars_notNil] at hx
        exact hf.vars.1 hx
      · exact (hcode.steps step hm).below hdescends

/-- What follows the allocation for one field. The value comes first and the default second, and
    neither sees what the other declares. -/
theorem laterField_hygienic {τ : Scopes} (hsees : (p.withSite s).Sees τ)
    (hb : τ.around.length = (p.withSite s).block) (hf : c.FieldAt s f) {value default : Block}
    (hvalue : (c.laterValue emit s.depth f).Yields value)
    (hdefault : c.laterDefault f = .ok default) :
    Block.declares (value ++ default) = [] ∧
      ∀ step ∈ Block.stepsIn τ (value ++ default), c.Hygienic p step := by
  obtain ⟨hnone, hvalue⟩ := laterValue_hygienic he ho hs hu hsees hb hf hvalue
  obtain ⟨hnone', hresolves⟩ := laterDefault_resolves hsees hs.rooted hf hdefault
  rw [Block.declares_append, hnone, hnone', Block.stepsIn_append, hnone, Scopes.add_nil]
  refine ⟨rfl, fun step hm => ?_⟩
  rcases List.mem_append.mp hm with hm | hm
  · exact hvalue step hm
  · obtain ⟨k, hk, hstmt⟩ := Block.exists_mem_steps hm []
    have hown : c.Own s k.stmt := .default hf hdefault hk
    exact own_hygienic ho (hstmt ▸ hown) (hresolves step hm)

end Emitters

theorem allocate_vars (type : TypeRef) (fields : List (String × Expr)) :
    (Expr.allocate type fields).vars = Expr.varsFields fields := by
  unfold Expr.allocate
  split <;> rw [Expr.vars]

/-- What the literal of an object mentions of a field is of the value. The literal is evaluated
    before the block declares anything, so nothing in it can be captured. -/
theorem primitiveFieldCode_literal {taken : List String} {result : Option Expr}
    (hc : c.converted? f.source f.target f.sourcePointer f.value = .ok result) :
    ∀ x ∈ (primitiveFieldCode f taken result).literal, x.2.vars = f.value.vars := by
  unfold primitiveFieldCode
  cases result with
  | some e =>
    have he := converted?_vars hc e rfl
    dsimp only
    split <;> simp [he]
  | none =>
    dsimp only
    split <;> split <;> simp [Expr.vars]

section Emitters

variable (he : c.Settles emit) (ho : c.Opens p.site s) (hs : (p.withSite s).Stands σ)
  (hu : c.Untangled p.site) (hl : ∀ x, c.Leaves p.site x → x ∉ σ.here)
include he ho hs hu hl

theorem object_settled (h : (c.object emit s).Yields b) :
    c.Settled p σ s.introduces (c.Leaves p.site) b := by
  obtain ⟨v, w, fields, code, type, later, hv, hw, hfields, hcode, -, hlater, rfl⟩ :=
    object_yields h
  have hat : ∀ f ∈ fields, c.FieldAt s f := fun _ hf => .of_mem hv hw hfields hf
  have hprimitive : ∀ f ∈ fields.filter (·.isPrimitive), c.FieldAt s f ∧ f.isPrimitive = true :=
    fun f hf => ⟨hat f (List.mem_of_mem_filter hf), List.of_mem_filter hf⟩
  obtain ⟨codes, hliteral, hafter, hcodes⟩ := primitiveFields_parts hcode
  obtain ⟨parts, rfl, hparts⟩ := laterFields_yields hlater
  -- Only primitive fields have variables.
  have htemporaries : c.temporaries s (fields.filter (·.isPrimitive)) = c.temporaries s fields := by
    rw [temporaries, temporaries, List.filter_filter]
    congr 1
    refine List.filter_congr fun f _ => ?_
    rw [holds]
    cases f.isPrimitive <;> simp
  have hleaves : ∀ x ∈ c.temporaries s fields, c.Leaves p.site x := by
    intro x hx
    obtain ⟨f, hf, rfl⟩ := List.mem_map.mp hx
    obtain ⟨hf, hheld⟩ := List.mem_filter.mp hf
    exact ⟨s, f, ho, hat f hf, hheld, rfl⟩
  have hnodup : (c.temporaries s fields).Nodup := (hu.tidy ho).fields v w fields hv hw hfields
  have hfresh : ∀ x ∈ c.temporaries s fields, x ∉ s.vars ∧ x ∉ (σ.add s.introduces).here := by
    intro x hx
    have hvars : x ∉ s.vars := by
      intro hm
      refine (hleaves x hx).not_mem_taken ?_
      rw [← ho.partOf.taken]
      exact hs.rooted.mem_taken hm
    refine ⟨hvars, fun hm => ?_⟩
    rcases List.mem_append.mp hm with hm | hm
    · exact hl x (hleaves x hx) hm
    · exact hvars (s.introduces_subset hm)
  have hsees : (p.withSite s).Sees (σ.add s.introduces) := hs.sees
  obtain ⟨hdeclares, hsteps⟩ := primitiveFields_settled ho hs.rooted hcodes hprimitive hsees
    (htemporaries ▸ hnodup) (fun x hx => (hfresh x (htemporaries ▸ hx)).2)
  rw [htemporaries, ← hafter] at hdeclares
  rw [← hafter] at hsteps
  have hbehind : (p.withSite s).Sees ((σ.add s.introduces).add code.after.declares) := by
    rw [hdeclares]
    exact hsees.add hnodup (fun x hx => (hfresh x hx).2) fun x hx => (hfresh x hx).1
  have hlater : ∀ x ∈ parts, Block.declares (x.1 ++ x.2) = [] ∧
      ∀ step ∈ Block.stepsIn ((σ.add s.introduces).add code.after.declares) (x.1 ++ x.2),
        c.Hygienic p step := by
    intro x hx
    obtain ⟨f, hf, hvalue, hdefault⟩ := forall₂_mem_right hparts hx
    exact laterField_hygienic he ho hs hu hbehind hs.block (hat f hf) hvalue hdefault
  have hrest : Block.declares (code.after ++ parts.flatMap fun x => x.1 ++ x.2) =
      c.temporaries s fields := by
    rw [Block.declares_append, hdeclares, Block.declares_flatMap,
      List.flatMap_eq_nil_iff.mpr fun x hx => (hlater x hx).1, List.append_nil]
  refine settled_of_store ho hs ?_ (hrest ▸ hleaves) fun _ => ⟨?_, fun step hm => ?_⟩
  · intro x hx
    rw [allocate_vars, Expr.mem_varsFields, hliteral] at hx
    obtain ⟨e, he, hx⟩ := hx
    obtain ⟨part, hpart, he⟩ := List.mem_flatMap.mp he
    obtain ⟨f, hf, result, hresult, rfl⟩ := forall₂_mem_right hcodes hpart
    rwa [primitiveFieldCode_literal hresult e he, (hprimitive f hf).1.value_vars] at hx
  · rw [hrest, ← hdeclares]
    exact hbehind.once
  · rw [Block.stepsIn_append, List.mem_append,
      Block.stepsIn_flatMap fun x hx => (hlater x hx).1] at hm
    rcases hm with hm | hm
    · exact hsteps step hm
    · obtain ⟨x, hx, hm⟩ := List.mem_flatMap.mp hm
      exact (hlater x hx).2 step hm

theorem byKind_settled (h : (c.byKind emit s).Yields b) :
    c.Settled p σ s.introduces (c.Leaves p.site) b := by
  have stored : ∀ {e : Expr}, e.vars ⊆ s.value.vars →
      c.Settled p σ s.introduces (c.Leaves p.site) [s.store e] := fun hv =>
    settled_of_store ho hs hv (by simp) fun hsees => ⟨by simpa using hsees.once, by simp⟩
  obtain ⟨kind, target, -, -, ⟨-, -, rfl⟩ | ⟨-, h⟩⟩ := byKind_yields.mp h
  · exact stored (List.Subset.refl _)
  -- A primitive and the kind `any` take a single statement; for the others there is a lemma for
  -- each emitter.
  · cases kind with
    | array => exact array_settled he ho hs hu h
    | map => exact map_settled he ho hs hu h
    | object => exact object_settled he ho hs hu hl h
    | union => exact union_settled he ho hs hu h
    | primitive _ =>
      unfold ofKind primitive at h
      simp only [Walk.yields_bind, Walk.yields_liftM, Walk.yields_pure] at h
      obtain ⟨result, hresult, rfl⟩ := h
      refine stored ?_
      cases result with
      | none => exact List.Subset.refl _
      | some e =>
        rw [Option.getD_some, converted?_vars hresult e rfl]
        exact List.Subset.refl _

end Emitters

/-- Where a box is opened, it is the site of its content that the code is about. A box of the target
    is stored first, by which the place is declared. -/
theorem attrVia_settles (he : c.Settles emit) : c.Settles (c.attrVia emit) := by
  intro p σ b hs hl hu h
  obtain ⟨inner, box, code, ho, hcode, rfl, ⟨rfl, rfl⟩ | ⟨why, hbox⟩⟩ := attrVia_yields h
  · exact byKind_settled he ho hs hu hl hcode
  · have hunboxed := unboxed_yields hbox
    cases hunboxed with
    | source =>
      have hinner := byKind_settled he ho (hs.ofPart ho.partOf rfl) hu hl hcode
      exact hinner
    | target type =>
      have hmake := store_settled (c := c) hs (e := .allocate type []) (by
        rw [allocate_vars, Expr.varsFields]; exact List.nil_subset _) (c.Leaves p.site)
      have hdeclares : Block.declares [p.site.store (.allocate type [])] = p.site.introduces := by
        rw [Block.declares_cons, Site.store_declares, Block.declares_nil, List.append_nil]
      -- Behind the box the place is declared already, so of the names that the site introduces none
      -- is left to the code.
      have hinner := byKind_settled he ho (hs.behind ho.partOf rfl) hu (fun x hx hm =>
        (List.mem_append.mp hm).elim (hl x hx) fun hm =>
          hx.not_mem_taken (hs.rooted.mem_taken (p.site.introduces_subset hm))) hcode
      obtain ⟨names, hnames, hleaves⟩ := hinner.declares
      constructor
      case steps =>
        intro step hm
        rw [Block.stepsIn_append, hdeclares, List.mem_append] at hm
        exact hm.elim (hmake.steps step) (hinner.steps step)
      case declares =>
        refine ⟨names, ?_, hleaves⟩
        rw [Block.declares_append, hdeclares, hnames]
        rfl
      case once =>
        rw [Block.declares_append, hdeclares, ← Scopes.add_add]
        exact hinner.once

/-- What the levels preserve: the scopes around a site are those its variables come from. By
    induction on the levels, with any site and any scopes around it. -/
theorem attrWithin_settles (c : Conversion) : ∀ levels, c.Settles (c.attrWithin levels)
  | 0 => fun _ _ _ h => absurd h Walk.yields_exhausted
  | levels + 1 => attrVia_settles (attrWithin_settles c levels)

end Conversion
end Shapewright
