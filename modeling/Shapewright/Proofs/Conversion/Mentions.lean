import Shapewright.Proofs.Conversion.Closure
import Shapewright.Proofs.Conversion.Faults
import Shapewright.Proofs.TypeNames

/-!
# The types that conversions write

Code writes a type where it makes a result, converts a primitive or tells alternatives apart. The
names in these types are put there by attributes that the conversion meets: on the side of the
source as they are spelled in the context of the values, and on the side of the target as they are
spelled in the context of the results. The same holds of the helpers, which convert what the
conversion leads to.

## The two sides

A name of the source is written where an alternative is told apart and where a helper takes its
parameter; all other names are of the target. `Conversion.Mentions` does not say which of the two a
name is written for. It does say in which context the name is spelled, and that is what the package
of the name depends on.

## Along the emitter

Code is emitted by one function for each kind of attribute, which calls an emitter for what is
inside. The proofs follow that structure: if the inner emitter writes only what is mentioned, so
does the outer one (`Conversion.Plain`), and the induction on the levels is done once, at the end.
Values and places are expressions too, but they are made of variables and fields and write no types
(`Site.Bare`).
-/

namespace Shapewright

open Relation

namespace Site

/-- Neither the value nor the place of the site writes a type. The types in the code of the site are
    then those that its emitter writes. -/
structure Bare (s : Site) : Prop where
  value : s.value.typeNames = []
  place : s.place.typeNames = []

namespace Bare

variable {s : Site}

theorem between (a b : Attribute) (value place : String) (declare : Bool) (depth : Nat)
    (inBox : Bool) : (Site.between a b value place declare depth inBox).Bare where
  value := by rw [Site.between, Expr.typeNames]
  place := by rw [Site.between, Expr.typeNames]

theorem store (hs : s.Bare) (e : Expr) : (s.store e).typeNames = e.typeNames := by
  rw [Site.store, Stmt.typeNames, hs.place, List.nil_append]

theorem element (hs : s.Bare) (x y : Attribute) : (s.element x y).Bare where
  value := by rw [Site.element, Expr.typeNames]
  place := by rw [Site.element, Expr.typeNames, Expr.typeNames, hs.place, List.append_nil]

theorem key (s : Site) (x y : Attribute) : (s.key x y).Bare where
  value := by rw [Site.key, Expr.typeNames]
  place := by rw [Site.key, Expr.typeNames]

theorem entry (s : Site) (x y : Attribute) : (s.entry x y).Bare where
  value := by rw [Site.entry, Expr.typeNames]
  place := by rw [Site.entry, Expr.typeNames]

theorem alternative (hs : s.Bare) (x y : Attribute) : (s.alternative x y).Bare where
  value := by rw [Site.alternative, Expr.typeNames]
  place := hs.place

theorem wrapped (s : Site) (x y : Attribute) : (s.wrapped x y).Bare where
  value := by rw [Site.wrapped, Site.alternative, Expr.typeNames]
  place := by rw [Site.wrapped, Expr.typeNames]

end Bare
end Site

/-- An object that is made writes its type and the types in its fields. -/
@[simp] theorem Expr.typeNames_allocate (type : TypeRef) (fields : List (String × Expr)) :
    (Expr.allocate type fields).typeNames = type.names ++ Expr.typeNamesFields fields := by
  unfold Expr.allocate
  split
  · rw [Expr.typeNames, TypeRef.names]
  · rw [Expr.typeNames]

namespace Conversion

/-- The name is put into types by an attribute that the conversion of the pair meets. The two sides
    are meant each in its own context, as the same type may have two names in code. -/
def Mentions (c : Conversion) (p : Pair) (n : TypeName) : Prop :=
  ∃ q, c.registry.MeetsBoth p q ∧
    (q.1.Spells c.scope c.source n ∨ q.2.Spells c.scope c.target n)

variable {c : Conversion} {emit : Emit} {s t inner : Site} {b : Block} {p q : Pair} {n : TypeName}
  {type : TypeRef} {P : TypeName → Prop}

theorem Mentions.of_meets (hpq : c.registry.MeetsBoth p q) (h : c.Mentions q n) :
    c.Mentions p n := by
  obtain ⟨r, hr, hspells⟩ := h
  exact ⟨r, hpq.trans hr, hspells⟩

theorem mentions_of_source {x : Attribute} (hx : c.registry.Meets p.1 x)
    (h : x.Spells c.scope c.source n) : c.Mentions p n :=
  ⟨(x, p.2), ⟨hx, .refl⟩, .inl h⟩

theorem mentions_of_target {x : Attribute} (hx : c.registry.Meets p.2 x)
    (h : x.Spells c.scope c.target n) : c.Mentions p n :=
  ⟨(p.1, x), ⟨.refl, hx⟩, .inr h⟩

theorem mentions_of_sourceRef (h : c.sourceRef p.1 = .ok type) (hn : n ∈ type.names) :
    c.Mentions p n :=
  let ⟨_, hx, hspells⟩ := Scope.spells_of_typeRef h hn
  mentions_of_source (Registry.meets_of_mem_parts hx) hspells

theorem mentions_of_targetRef (h : c.targetRef p.2 = .ok type) (hn : n ∈ type.names) :
    c.Mentions p n :=
  let ⟨_, hx, hspells⟩ := Scope.spells_of_typeRef h hn
  mentions_of_target (Registry.meets_of_mem_parts hx) hspells

theorem Below.meets (h : c.Below s t) : c.registry.MeetsBoth s.pair t.pair :=
  let ⟨_, hm⟩ := h.member
  hm.meets

theorem Wraps.meets (h : c.Wraps s t) : c.registry.MeetsBoth s.pair t.pair :=
  let ⟨_, hm⟩ := h.member
  hm.meets

/-! ## Nested sites, arrays and maps -/

/-- The emitter writes types that the conversion of its site mentions. Types come from nowhere else,
    in particular none is made up by the emitter. -/
def Plain (c : Conversion) (emit : Emit) : Prop :=
  ∀ t b, t.Bare → (emit t).Yields b → ∀ n ∈ Block.typeNames b, c.Mentions t.pair n

/-- Code for a nested site is emitted in place, or is the call of a helper, which writes no type. -/
theorem nested_mentions (hemit : c.Plain emit) (ht : t.Bare) (h : (c.nested emit t).Yields b) :
    ∀ n ∈ Block.typeNames b, c.Mentions t.pair n := by
  rcases nested_yields.mp h with ⟨-, name, -, rfl⟩ | ⟨-, h⟩
  · simp only [Block.typeNames_cons, Block.typeNames_nil, ht.store, Expr.typeNames,
      Expr.typeNamesAll, ht.value, List.append_nil, List.not_mem_nil, false_implies, implies_true]
  · exact hemit t b ht h

/-- An array writes the type of its elements and what their code writes. -/
theorem array_mentions (hemit : c.Plain emit) (hs : s.Bare) (h : (c.array emit s).Yields b) :
    ∀ n ∈ Block.typeNames b, c.Mentions s.pair n := by
  obtain ⟨x, y, type, body, hx, hy, htype, hbody, rfl⟩ := array_yields.mp h
  have hmeets : c.registry.MeetsBoth s.pair (x, y) := Below.meets (.element hx hy)
  simp only [Block.typeNames_cons, Block.typeNames_nil, hs.store, Expr.typeNames, TypeRef.names,
    Stmt.typeNames_range, hs.value, List.append_nil, List.nil_append, List.forall_mem_append]
  exact ⟨fun n hn => .of_meets hmeets (mentions_of_targetRef htype hn),
    fun n hn => .of_meets hmeets (nested_mentions hemit (hs.element x y) hbody n hn)⟩

/-- A map writes the types of its keys and elements. A map is made before the loop, and what has to
    be declared inside has the type of a key or element. -/
theorem map_mentions (hemit : c.Plain emit) (hs : s.Bare) (h : (c.map emit s).Yields b) :
    ∀ n ∈ Block.typeNames b, c.Mentions s.pair n := by
  obtain ⟨k, x, l, y, keyType, elemType, keyCode, elemCode, hx, hy, hkeyType, helemType, hkey,
    helem, rfl⟩ := map_yields.mp h
  have hkeys : c.registry.MeetsBoth s.pair (k, l) := Below.meets (.key hx hy)
  have hentries : c.registry.MeetsBoth s.pair (x, y) := Below.meets (.entry hx hy)
  simp only [Block.typeNames_cons, Block.typeNames_nil, Block.typeNames_append, hs.store,
    Expr.typeNames, TypeRef.names, Stmt.typeNames_range, Stmt.typeNames_set, hs.value, hs.place,
    List.append_nil, List.nil_append, List.forall_mem_append]
  exact ⟨⟨fun n hn => .of_meets hkeys (mentions_of_targetRef hkeyType hn),
      fun n hn => .of_meets hentries (mentions_of_targetRef helemType hn)⟩,
    fun n hn => .of_meets hkeys (nested_mentions hemit (.key s k l) hkey n hn),
    fun n hn => .of_meets hentries (nested_mentions hemit (.entry s x y) helem n hn)⟩

/-! ## Unions -/

/-- What a union writes for an alternative is spelled by the union or by what is written in it. -/
theorem spells_of_union {ctx : Context} {a : Attribute} {u : UnionType} {index : Nat}
    (hu : c.registry.union? a = .ok (some u))
    (h : c.scope.alternativeRef ctx u.1 u.2 index = .ok type) (hn : n ∈ type.names) :
    ∃ x, c.registry.Meets a x ∧ x.Spells c.scope ctx n := by
  obtain ⟨r, hr, ht⟩ := Registry.union?_eq_some.mp hu
  obtain ⟨x, hx, hspells⟩ := Scope.spells_of_alternativeRef ht h hn
  exact ⟨x, ReflTransGen.head (.inr hr) (Registry.meets_of_mem_parts hx), hspells⟩

/-- An alternative writes the type of its wrapper, if it has one. Of the types of alternatives it
    names those of the target, which is what the index is for. -/
theorem alternative_mentions (hemit : c.Plain emit) (hs : s.Bare) {u v : UnionType} {index : Nat}
    {x y : Attribute} (hu : c.unions s.source s.target = .ok (u, v))
    (hxy : (x, y) ∈ (u.2.map Prod.snd).zip (v.2.map Prod.snd))
    (h : (c.alternative emit s v index x y).Yields b) :
    ∀ n ∈ Block.typeNames b, c.Mentions s.pair n := by
  have htarget := (unions_eq_ok.mp hu).2.1
  have wrapper : ∀ {type : TypeRef}, c.scope.alternativeRef c.target v.1 v.2 index = .ok type →
      ∀ n ∈ type.names, c.Mentions s.pair n := by
    intro type htype n hn
    obtain ⟨z, hz, hspells⟩ := spells_of_union htarget htype hn
    exact mentions_of_target hz hspells
  -- A wrapper is named after its alternative, so whatever its type mentions is mentioned by an
  -- alternative of the target's union.
  rcases alternative_yields.mp h with
    ⟨hn, h⟩ | ⟨hn, type, htype, ⟨-, -, rfl⟩ | ⟨hp, code, hcode, rfl⟩⟩
  · have hmeets : c.registry.MeetsBoth s.pair (x, y) := Below.meets (.alternative hu hxy hn)
    exact fun n hn => .of_meets hmeets (nested_mentions hemit (hs.alternative x y) h n hn)
  · simp only [Block.typeNames_cons, Block.typeNames_nil, Stmt.typeNames_set, hs.place,
      Expr.typeNames, (hs.alternative x y).value, List.append_nil, List.nil_append]
    exact wrapper htype
  · have hmeets : c.registry.MeetsBoth s.pair (x, y) := Wraps.meets (.alternative hu hxy hn hp)
    simp only [Block.typeNames_append, Block.typeNames_cons, Block.typeNames_nil,
      Stmt.typeNames_set, hs.place, Expr.typeNames, (Site.Bare.wrapped s x y).place,
      List.append_nil, List.nil_append, List.forall_mem_append]
    exact ⟨fun n hn => .of_meets hmeets (hemit _ _ (.wrapped s x y) hcode n hn), wrapper htype⟩

/-- The cases of a switch write the types of the alternatives and what their code writes. By
    induction on the pairs of alternatives, with the index that goes along. -/
theorem cases_mentions (hemit : c.Plain emit) (hs : s.Bare) {u v : UnionType}
    (hu : c.unions s.source s.target = .ok (u, v)) :
    ∀ {pairs : List (Attribute × Attribute)} {index : Nat} {cases : List (TypeRef × Block)},
      (∀ q ∈ pairs, q ∈ (u.2.map Prod.snd).zip (v.2.map Prod.snd)) →
      (c.cases emit s u v index pairs).Yields cases →
      ∀ n ∈ Stmt.typeNamesTypes cases, c.Mentions s.pair n := by
  intro pairs
  induction pairs with
  | nil =>
    intro index cases _ h
    rw [Conversion.cases, Walk.yields_pure] at h
    subst h
    simp only [Stmt.typeNamesTypes, List.not_mem_nil, false_implies, implies_true]
  | cons q rest ih =>
    obtain ⟨x, y⟩ := q
    intro index cases hpairs h
    rw [List.forall_mem_cons] at hpairs
    rw [Conversion.cases] at h
    simp only [Walk.yields_bind, Walk.yields_liftM, Walk.yields_pure] at h
    obtain ⟨type, htype, body, hbody, others, hothers, rfl⟩ := h
    rw [Stmt.typeNamesTypes, List.forall_mem_append, List.forall_mem_append]
    -- The types that the switch tells apart are of the source; what their code writes may be of
    -- either side.
    refine ⟨⟨fun n hn => ?_, alternative_mentions hemit hs hu hpairs.1 hbody⟩,
      ih hpairs.2 hothers⟩
    obtain ⟨z, hz, hspells⟩ := spells_of_union (unions_eq_ok.mp hu).1 htype hn
    exact mentions_of_source hz hspells

/-- A union writes its own type, where its variable is declared, and those of its alternatives. An
    alternative that is a named object has no wrapper and is written as a pointer to it. -/
theorem union_mentions (hemit : c.Plain emit) (hs : s.Bare) (h : (c.union emit s).Yields b) :
    ∀ n ∈ Block.typeNames b, c.Mentions s.pair n := by
  obtain ⟨u, v, declared, cases, hu, hdeclared, hcases, rfl⟩ := union_yields h
  rw [Block.typeNames_append, List.forall_mem_append]
  refine ⟨?_, ?_⟩
  · unfold declaration at hdeclared
    split at hdeclared
    · split at hdeclared
      · simp only [Walk.yields_bind, Walk.yields_liftM, Walk.yields_pure] at hdeclared
        obtain ⟨type, htype, rfl⟩ := hdeclared
        rw [Block.typeNames_cons, Stmt.typeNames, Block.typeNames_nil, List.append_nil]
        exact fun n hn => mentions_of_targetRef htype hn
      · simp at hdeclared
    · rw [Walk.yields_pure] at hdeclared
      simp [← hdeclared]
  · rw [Block.typeNames_cons, Stmt.typeNames, hs.value, Block.typeNames_nil, List.append_nil,
      List.nil_append]
    exact cases_mentions hemit hs hu (fun _ hq => hq) hcases

/-! ## Objects -/

/-- The parts of a field's code that come from the field write no types. -/
structure FieldBare (f : FieldSite) : Prop where
  value : f.value.typeNames = []
  place : f.place.typeNames = []

/-- Code for fields in which all names have the property. -/
structure CodeWrites (P : TypeName → Prop) (code : ObjectCode) : Prop where
  literal : ∀ x ∈ code.literal, ∀ n ∈ x.2.typeNames, P n
  after : ∀ n ∈ Block.typeNames code.after, P n

/-- The site of a field is bare. -/
theorem FieldBare.site {f : FieldSite} (hf : FieldBare f) (depth : Nat) : (f.site depth).Bare where
  value := by
    rw [FieldSite.site]
    split
    · rw [Expr.typeNames, hf.value]
    · exact hf.value
  place := hf.place

/-- The code for a primitive field writes what its value writes. -/
theorem primitiveFieldCode_writes {f : FieldSite} (hf : FieldBare f) {taken : List String}
    {result : Option Expr} (hr : ∀ e ∈ result, ∀ n ∈ e.typeNames, P n) :
    CodeWrites P (primitiveFieldCode f taken result) := by
  have literal : ∀ {e : Expr}, (∀ n ∈ e.typeNames, P n) →
      CodeWrites P { literal := [(f.placeName, e)] } := by
    intro e he
    refine ⟨fun x hx => ?_, by simp⟩
    rw [List.mem_singleton.mp hx]
    exact he
  have after : ∀ {code : Block}, (∀ n ∈ Block.typeNames code, P n) →
      CodeWrites P { after := code } :=
    fun hcode => ⟨fun x hx => absurd hx List.not_mem_nil, hcode⟩
  have present : ∀ {code : Block}, (∀ n ∈ Block.typeNames code, P n) →
      ∀ n ∈ Block.typeNames [f.ifPresent code], P n := by
    intro code hcode
    simpa [FieldSite.ifPresent, hf.value] using hcode
  have stored : ∀ {e : Expr}, (∀ n ∈ e.typeNames, P n) →
      ∀ n ∈ Block.typeNames (storeConverted f taken e), P n := by
    intro e he
    unfold storeConverted
    split
    · simpa [Stmt.typeNames, Expr.typeNames, hf.place] using he
    · simpa [hf.place] using he
  unfold primitiveFieldCode
  split
  · rename_i e
    have he := hr e rfl
    split
    · exact literal he
    · split
      · exact after (present (stored he))
      · exact after (stored he)
  · split
    · split
      · exact literal (by simp [Expr.typeNames, hf.value])
      · exact after (present (by simp [Expr.typeNames, hf.value, hf.place]))
    · split
      · exact literal (by simp [Expr.typeNames, hf.value])
      · exact literal (by simp [hf.value])

/-- A primitive that is converted writes the type it is converted to. The type is that of the
    target, under its own name if it has one. -/
theorem converted?_mentions {isPointer : Bool} {value : Expr} (hv : value.typeNames = [])
    {result : Option Expr} (h : c.converted? p.1 p.2 isPointer value = .ok result) :
    ∀ e ∈ result, ∀ n ∈ e.typeNames, c.Mentions p n := by
  unfold converted? at h
  simp only [except_bind_eq_ok] at h
  obtain ⟨x, -, type, htype, h⟩ := h
  split at h
  · rw [except_pure_eq_ok] at h
    simp [← h]
  · rw [except_pure_eq_ok] at h
    intro e he
    rw [← h, Option.mem_some_iff] at he
    subst he
    have hvalue : (if isPointer then value.deref else value).typeNames = [] := by
      split
      · rw [Expr.typeNames, hv]
      · exact hv
    rw [Expr.typeNames, hvalue, List.append_nil]
    exact fun n hn => mentions_of_targetRef htype hn

/-- A default is written with the type of its field. It is the target that declares defaults. -/
theorem defaultField_mentions {f : FieldSite} (hf : FieldBare f) {value : Literal}
    (h : c.defaultField f value = .ok b) :
    ∀ n ∈ Block.typeNames b, c.Mentions (f.source, f.target) n := by
  have mentioned : ∀ {type : TypeRef}, c.targetRef f.target = .ok type →
      ∀ n ∈ type.names, c.Mentions (f.source, f.target) n :=
    fun htype n hn => mentions_of_targetRef (p := (f.source, f.target)) htype hn
  cases defaultField_shape h with
  | idle => simp
  | held _ _ type htype =>
    simpa [Stmt.typeNames, Expr.typeNames, hf.value, hf.place] using mentioned htype
  | stored _ _ type htype =>
    simpa [Stmt.typeNames, Expr.typeNames, hf.value, hf.place] using mentioned htype
  | zero _ _ type htype =>
    rw [Block.typeNames_cons, Stmt.typeNames, ← Block.typeNames]
    simpa [Stmt.typeNames, Expr.typeNames, hf.place] using mentioned htype

/-- The primitive fields of an object write what is mentioned. By induction on the fields, which are
    met from the object. -/
theorem primitiveFields_writes {taken : List String} {fields : List FieldSite} {code : ObjectCode}
    (hfields : ∀ f ∈ fields, FieldBare f ∧ c.registry.MeetsBoth p (f.source, f.target))
    (h : c.primitiveFields taken fields = .ok code) : CodeWrites (c.Mentions p) code := by
  obtain ⟨parts, hliteral, hafter, hparts⟩ := primitiveFields_parts h
  have hwrites : ∀ part ∈ parts, CodeWrites (c.Mentions p) part := by
    intro part hpart
    obtain ⟨f, hf, result, hresult, rfl⟩ := forall₂_mem_right hparts hpart
    obtain ⟨hbare, hmeets⟩ := hfields f hf
    refine primitiveFieldCode_writes hbare fun e he n hn => .of_meets hmeets ?_
    exact converted?_mentions (p := (f.source, f.target)) hbare.value hresult e he n hn
  constructor
  · intro x hx
    obtain ⟨part, hpart, hx⟩ := List.mem_flatMap.mp (hliteral ▸ hx)
    exact (hwrites part hpart).literal x hx
  · rw [hafter, Block.typeNames_flatMap]
    intro n hn
    obtain ⟨part, hpart, hn⟩ := List.mem_flatMap.mp hn
    exact (hwrites part hpart).after n hn

/-- The structured fields of an object, which are filled in later, write what is mentioned. A check
    for nil writes no type, so the types are those of the code in the check. -/
theorem laterValue_mentions (hemit : c.Plain emit) {depth : Nat} {f : FieldSite} (hf : FieldBare f)
    (h : (c.laterValue emit depth f).Yields b) :
    ∀ n ∈ Block.typeNames b, c.Mentions (f.source, f.target) n := by
  unfold laterValue at h
  split at h
  · rw [Walk.yields_pure] at h
    simp [← h]
  · obtain ⟨code, hcode, rfl⟩ := structuredField_yields.mp h
    have hnested := nested_mentions hemit (hf.site depth) hcode
    split
    · exact hnested
    · rw [Block.typeNames_cons, Block.typeNames_nil, List.append_nil, FieldSite.ifPresent,
        Stmt.typeNames_when, Expr.typeNames_notNil, hf.value, List.nil_append]
      exact hnested

/-- The defaults of structured fields write what is mentioned. -/
theorem laterDefault_mentions {f : FieldSite} (hf : FieldBare f) (h : c.laterDefault f = .ok b) :
    ∀ n ∈ Block.typeNames b, c.Mentions (f.source, f.target) n := by
  unfold laterDefault at h
  split at h
  · exact defaultField_mentions hf h
  · cases h
    simp

/-- An object writes its type, and what its fields write. The type is in the allocation, and is that
    of the target. -/
theorem object_mentions (hemit : c.Plain emit) (hs : s.Bare) (h : (c.object emit s).Yields b) :
    ∀ n ∈ Block.typeNames b, c.Mentions s.pair n := by
  obtain ⟨v, w, fields, code, type, later, hv, hw, hfields, hcode, htype, hlater, rfl⟩ :=
    object_yields h
  have hfield : ∀ f ∈ fields,
      FieldBare f ∧ c.registry.MeetsBoth s.pair (f.source, f.target) := by
    intro f hf
    obtain ⟨m, hm, hmf⟩ := forall₂_mem_right hfields hf
    have hd := fieldSite_describes hmf
    refine ⟨⟨?_, ?_⟩, ?_⟩
    · rw [hd.value, Expr.typeNames, hs.value]
    · rw [hd.place, Expr.typeNames, hs.place]
    · rw [hd.source, hd.target]
      have hmember : c.Member s.pair ⟨m.source, m.target, v.requires m.name⟩ := .field hv hw hm
      exact hmember.meets
  have hprimitive : CodeWrites (c.Mentions s.pair) code :=
    primitiveFields_writes (fun f hf => hfield f (List.mem_of_mem_filter hf)) hcode
  obtain ⟨parts, rfl, hparts⟩ := laterFields_yields hlater
  rw [Block.typeNames_cons, hs.store, Expr.typeNames_allocate, Block.typeNames_append,
    Block.typeNames_flatMap]
  simp only [List.forall_mem_append]
  -- The code in the order it is printed: type and members of the literal, the rest of the primitive
  -- fields, the later fields.
  refine ⟨⟨fun n hn => mentions_of_targetRef htype hn, ?_⟩, hprimitive.after, ?_⟩
  · intro n hn
    obtain ⟨x, hx, hn⟩ := Expr.mem_typeNamesFields.mp hn
    exact hprimitive.literal x hx n hn
  · intro n hn
    obtain ⟨x, hx, hn⟩ := List.mem_flatMap.mp hn
    obtain ⟨f, hf, hvalue, hdefault⟩ := forall₂_mem_right hparts hx
    obtain ⟨hbare, hmeets⟩ := hfield f hf
    rw [Block.typeNames_append, List.mem_append] at hn
    rcases hn with hn | hn
    · exact .of_meets hmeets (laterValue_mentions hemit hbare hvalue n hn)
    · exact .of_meets hmeets (laterDefault_mentions hbare hdefault n hn)

/-! ## Any kind -/

/-- A primitive by itself writes the type it is converted to. -/
theorem primitive_mentions (hs : s.Bare) (h : (c.primitive s).Yields b) :
    ∀ n ∈ Block.typeNames b, c.Mentions s.pair n := by
  unfold primitive at h
  simp only [Walk.yields_bind, Walk.yields_liftM, Walk.yields_pure] at h
  obtain ⟨result, hr, rfl⟩ := h
  rw [Block.typeNames_cons, Block.typeNames_nil, List.append_nil, hs.store]
  cases result with
  | none => simp [hs.value]
  | some e => exact converted?_mentions (p := s.pair) hs.value hr e rfl

/-- Whatever the kind is, the types are mentioned. One case for each kind, and every case is a lemma
    of this section. -/
theorem byKind_mentions (hemit : c.Plain emit) (hs : s.Bare) (h : (c.byKind emit s).Yields b) :
    ∀ n ∈ Block.typeNames b, c.Mentions s.pair n := by
  obtain ⟨kind, target, -, -, ⟨-, -, rfl⟩ | ⟨-, h⟩⟩ := byKind_yields.mp h
  · simp [hs.store, hs.value]
  · cases kind with
    | array => exact array_mentions hemit hs h
    | map => exact map_mentions hemit hs h
    | object => exact object_mentions hemit hs h
    | union => exact union_mentions hemit hs h
    | primitive p => exact primitive_mentions hs h

/-- Of a box that is opened, the type is that of the target. The allocation of a box is all that is
    written for it, and a box of the source is only read. -/
theorem Unboxed.mentions {box : Block} (h : c.Unboxed s box inner) (hs : s.Bare) :
    inner.Bare ∧ ∀ n ∈ Block.typeNames box, c.Mentions s.pair n := by
  cases h with
  | target type ho htype =>
    refine ⟨⟨hs.value, ?_⟩, ?_⟩
    · rw [Expr.typeNames, hs.place]
    · rw [Block.typeNames_cons, Block.typeNames_nil, hs.store, Expr.typeNames_allocate,
        Expr.typeNamesFields, List.append_nil, List.append_nil]
      exact fun n hn => mentions_of_targetRef htype hn
  | source ho =>
    refine ⟨⟨?_, hs.place⟩, by simp⟩
    rw [Expr.typeNames, hs.value]

/-- The types are mentioned also where a box is opened before. With this, code of any depth is
    plain, by induction on the levels. -/
theorem attrVia_mentions (hemit : c.Plain emit) (hs : s.Bare) (h : (c.attrVia emit s).Yields b) :
    ∀ n ∈ Block.typeNames b, c.Mentions s.pair n := by
  obtain ⟨inner, box, code, ho, hcode, rfl, hbox⟩ := attrVia_yields h
  have hmeets : c.registry.MeetsBoth s.pair inner.pair := reconcile_meets (p := s.pair) ho.reconcile
  have hopened : inner.Bare ∧ ∀ n ∈ Block.typeNames box, c.Mentions s.pair n := by
    rcases hbox with ⟨rfl, rfl⟩ | ⟨why, hbox⟩
    · exact ⟨hs, by simp⟩
    · exact (unboxed_yields hbox).mentions hs
  rw [Block.typeNames_append, List.forall_mem_append]
  exact ⟨hopened.2, fun n hn => .of_meets hmeets (byKind_mentions hemit hopened.1 hcode n hn)⟩

/-- The code of a site writes types that the conversion mentions. -/
theorem attrWithin_plain (c : Conversion) : ∀ levels, c.Plain (c.attrWithin levels) := by
  intro levels
  induction levels with
  | zero => exact fun t b _ h => absurd h Walk.yields_exhausted
  | succ levels ih => exact fun t b ht h => attrVia_mentions ih ht h

/-! ## Helpers and requests -/

/-- A helper writes the types of its parameter and result, and what its code writes. They are the
    types of the pair that it is for. -/
theorem helper_mentions {name : String} {x : HelperSite} {k : Helper}
    (h : (c.helper name x).Yields k) : ∀ n ∈ k.func.typeNames, c.Mentions x.pair n := by
  obtain ⟨param, result, code, hparam, hresult, hcode, rfl⟩ := helper_yields.mp h
  have hguard : Block.typeNames x.guard = [] := by
    unfold HelperSite.guard
    split
    · exact Block.typeNames_nil
    · simp [Stmt.typeNames, Expr.typeNames, Expr.typeNamesAll]
  have hbare : x.inner.Bare := .between ..
  intro n hn
  simp only [Func.typeNames, Helper.func, List.flatMap_cons, List.flatMap_nil, List.append_nil,
    Block.typeNames_append, hguard, List.nil_append, Block.typeNames_cons, Block.typeNames_nil,
    Stmt.typeNames, Expr.typeNamesAll, Expr.typeNames, List.mem_append] at hn
  rcases hn with (hn | hn) | hn
  · exact mentions_of_sourceRef hparam hn
  · exact mentions_of_targetRef hresult hn
  · exact attrWithin_plain c _ x.inner code hbare hcode n hn

/-- A request and its helpers write types that the conversion mentions. That a helper is for a pair
    that the request comes to is all that has to be known of it. -/
theorem compile_mentions {met met' : List String} {out : Compiled} (hs : s.Bare)
    (h : (c.compile s).Yields met out met') :
    (∀ n ∈ Block.typeNames out.body, c.Mentions s.pair n) ∧
      ∀ k ∈ out.helpers, ∀ n ∈ k.func.typeNames, c.Mentions s.pair n := by
  obtain ⟨hbody, made, hmade, hout⟩ := compile_yields.mp h
  refine ⟨attrWithin_plain c _ s _ hs hbody, fun k hk n hn => ?_⟩
  -- A helper is built at a position that the request leads to.
  obtain ⟨found, hfound, hmadeOf⟩ := collect_factors (p := s.pair) hmade
  obtain ⟨x, hx, hyields⟩ := forall₂_mem_right hmadeOf ((sorted_perm made).mem_iff.mp (hout ▸ hk))
  have hmeets := ((collect_finds hfound).1.reached x hx).meets
  exact .of_meets hmeets (helper_mentions hyields n hn)

end Conversion
end Shapewright
