import Shapewright.Proofs.Calls
import Shapewright.Proofs.Conversion.Nesting

/-!
# What the code of a site is made of

The code of a site contains that of the sites one level below it: it calls a helper there, or has
their code in place. Nothing else in it calls a function, as long as the value and the place of the
site do not. The emitters are taken apart here one by one; `attrVia_calls` and `attrVia_inPlace` put
them together, for any emitter of nested sites.

This module is the one that opens the emitters. For each of them there is an equation or an
inversion lemma that says all that its code can be (`nested_yields`, `array_yields`,
`alternative_yields`, `object_yields`, `defaultField_shape` and so on), guards and fresh names
included; every later theory about emitted code (nil checks, scopes, stores, types, loops, paths)
cites these and does not unfold an emitter again. When one emitter changes, its inversion lemma
changes here, and the theories that use it say where they depend on what changed.

The emitters take the emitter of nested sites as an argument, and so do the lemmas. What holds of
all code is then shown by one induction on the levels, with the lemmas of this module as its step.

The first property that is derived this way is about calls. It is stated with `Silent`: the emitters
put the value and the place of a site into the code as they stand, so a call in them would be copied
along.
-/

namespace Shapewright

namespace Site

/-- What is converted at a site. -/
def pair (s : Site) : Pair := (s.source, s.target)

/-- Neither the value nor the place of the site calls a function. All sites that a request leads to
    are silent, as they are made of variables, fields and elements. -/
structure Silent (s : Site) : Prop where
  value : s.value.calls = []
  place : s.place.calls = []

namespace Silent

variable {s : Site}

theorem between (a b : Attribute) (value place : String) (declare : Bool) (depth : Nat)
    (inBox : Bool) : (Site.between a b value place declare depth inBox).Silent where
  value := by rw [Site.between, Expr.calls]
  place := by rw [Site.between, Expr.calls]

theorem store (hs : s.Silent) {e : Expr} (he : e.calls = []) : (s.store e).calls = [] := by
  rw [Site.store, Stmt.calls, hs.place, he, List.append_nil]

theorem element (hs : s.Silent) (x y : Attribute) : (s.element x y).Silent where
  value := by rw [Site.element, Expr.calls]
  place := by rw [Site.element, Expr.calls, Expr.calls, hs.place, List.append_nil]

theorem key (s : Site) (x y : Attribute) : (s.key x y).Silent where
  value := by rw [Site.key, Expr.calls]
  place := by rw [Site.key, Expr.calls]

theorem entry (s : Site) (x y : Attribute) : (s.entry x y).Silent where
  value := by rw [Site.entry, Expr.calls]
  place := by rw [Site.entry, Expr.calls]

theorem alternative (hs : s.Silent) (x y : Attribute) : (s.alternative x y).Silent where
  value := by rw [Site.alternative, Expr.calls]
  place := hs.place

theorem wrapped (s : Site) (x y : Attribute) : (s.wrapped x y).Silent where
  value := by rw [Site.wrapped, Site.alternative, Expr.calls]
  place := by rw [Site.wrapped, Expr.calls]

end Silent
end Site

/-- The match that a field site belongs to. -/
def FieldSite.fieldMatch (f : FieldSite) : FieldMatch := ⟨f.name, f.source, f.target⟩

namespace Conversion

variable {c : Conversion} {emit : Emit} {s t : Site} {b : Block} {call : Call}

/-! ## The sites one level below -/

/-- The second site is one level below the first, whose attributes are compatible, and calls a
    helper where it can. Fields with primitives on both sides are left out: they are converted by
    the object itself. -/
inductive Below (c : Conversion) (s : Site) : Site → Prop where
  | element {x y : Attribute} (hx : c.registry.elem? s.source = .ok (some x))
      (hy : c.registry.elem? s.target = .ok (some y)) : Below c s (s.element x y)
  | key {k x l y : Attribute} (hx : c.registry.entry? s.source = .ok (some (k, x)))
      (hy : c.registry.entry? s.target = .ok (some (l, y))) : Below c s (s.key k l)
  | entry {k x l y : Attribute} (hx : c.registry.entry? s.source = .ok (some (k, x)))
      (hy : c.registry.entry? s.target = .ok (some (l, y))) : Below c s (s.entry x y)
  | field {v w : ObjectView} {m : FieldMatch} {f : FieldSite}
      (hv : ObjectView.of? c.registry s.source = .ok (some v))
      (hw : ObjectView.of? c.registry s.target = .ok (some w)) (hm : m ∈ matchFields v w)
      (hf : (c.fieldSite s v w m).Yields f) (hp : f.isPrimitive = false) :
      Below c s (f.site s.depth)
  | alternative {u v : UnionType} {a b : Attribute}
      (hu : c.unions s.source s.target = .ok (u, v))
      (hab : (a, b) ∈ (u.2.map Prod.snd).zip (v.2.map Prod.snd))
      (hn : c.scope.isNamedObject a = .ok true) : Below c s (s.alternative a b)

/-- The second site is an alternative of the first, a union, that is stored in a wrapper. No helper
    is called there, because the wrapper is made of the converted value afterwards. -/
inductive Wraps (c : Conversion) (s : Site) : Site → Prop where
  | alternative {u v : UnionType} {a b : Attribute}
      (hu : c.unions s.source s.target = .ok (u, v))
      (hab : (a, b) ∈ (u.2.map Prod.snd).zip (v.2.map Prod.snd))
      (hn : c.scope.isNamedObject a = .ok false) (hp : c.registry.isPrimitive a = .ok false) :
      Wraps c s (s.wrapped a b)

/-- The call is in the code of a site one level below. The code in front of it is built by `nested`,
    which may be the call itself, or by the emitter for alternatives that are wrapped. -/
inductive CallsBelow (c : Conversion) (emit : Emit) (s : Site) (call : Call) : Prop where
  | nested {t : Site} {code : Block} (ht : c.Below s t) (hs : t.Silent)
      (hc : (c.nested emit t).Yields code) (hm : call ∈ code.calls) : CallsBelow c emit s call
  | wrapped {t : Site} {code : Block} (ht : c.Wraps s t) (hs : t.Silent)
      (hc : (emit t).Yields code) (hm : call ∈ code.calls) : CallsBelow c emit s call

/-! ## Nested sites, arrays and maps -/

/-- At a nested site stands one call of a helper with the value as its only argument, or the code in
    place. The emitter of nested sites is asked in the second case only. -/
theorem nested_yields : (c.nested emit t).Yields b ↔
    ((c.callsHelper t.source t.target).Yields true ∧
      ∃ name, c.helperName t.source t.target = .ok name ∧
        b = [t.store (.call name [t.value])]) ∨
    ((c.callsHelper t.source t.target).Yields false ∧ (emit t).Yields b) := by
  unfold nested
  simp only [Walk.yields_bind]
  constructor
  · intro h
    obtain ⟨calls, hc, h⟩ := h
    cases calls with
    | true =>
      simp only [↓reduceIte, Walk.yields_bind, Walk.yields_liftM, Walk.yields_pure] at h
      obtain ⟨name, hn, rfl⟩ := h
      exact Or.inl ⟨hc, name, hn, rfl⟩
    | false => exact Or.inr ⟨hc, h⟩
  · intro h
    rcases h with ⟨hc, name, hn, rfl⟩ | ⟨hc, h⟩
    · refine ⟨true, hc, ?_⟩
      simp only [↓reduceIte, Walk.yields_bind, Walk.yields_liftM, Walk.yields_pure]
      exact ⟨name, hn, rfl⟩
    · exact ⟨false, hc, h⟩

/-- An array is allocated with the length of the value, and filled in a loop over it. The loop
    variables are those of the depth of the site, and the code of the element stores in the place
    with the index. -/
theorem array_yields : (c.array emit s).Yields b ↔
    ∃ x y type body, c.registry.elem? s.source = .ok (some x) ∧
      c.registry.elem? s.target = .ok (some y) ∧ c.targetRef y = .ok type ∧
      (c.nested emit (s.element x y)).Yields body ∧
      b = [s.store (.make (.slice type) (.len s.value)),
        .range (some (loopIndex s.depth)) (some (loopValue s.depth)) s.value body] := by
  unfold array
  simp only [Walk.yields_bind, Walk.yields_liftM]
  constructor
  · intro h
    obtain ⟨x, hx, y, hy, h⟩ := h
    split at h
    · simp only [Walk.yields_bind, Walk.yields_liftM, Walk.yields_pure] at h
      obtain ⟨type, ht, body, hb, rfl⟩ := h
      exact ⟨_, _, type, body, hx, hy, ht, hb, rfl⟩
    · simp at h
  · intro h
    obtain ⟨x, y, type, body, hx, hy, ht, hb, rfl⟩ := h
    refine ⟨some x, hx, some y, hy, ?_⟩
    simp only [Walk.yields_bind, Walk.yields_liftM, Walk.yields_pure]
    exact ⟨type, ht, body, hb, rfl⟩

/-- A map is allocated with the length of the value. Key and entry are converted into variables of
    the loop, and stored under each other at its end. -/
theorem map_yields : (c.map emit s).Yields b ↔
    ∃ k x l y keyType elemType keyCode elemCode,
      c.registry.entry? s.source = .ok (some (k, x)) ∧
      c.registry.entry? s.target = .ok (some (l, y)) ∧
      c.targetRef l = .ok keyType ∧ c.targetRef y = .ok elemType ∧
      (c.nested emit (s.key k l)).Yields keyCode ∧
      (c.nested emit (s.entry x y)).Yields elemCode ∧
      b = [s.store (.make (.map keyType elemType) (.len s.value)),
        .range (some (loopKey s.depth)) (some (loopValue s.depth)) s.value
          (keyCode ++ elemCode ++ [.set (s.place.index (.ident (loopNewKey s.depth)))
            (.ident (loopNewValue s.depth))])] := by
  unfold map
  simp only [Walk.yields_bind, Walk.yields_liftM]
  constructor
  -- An entry that is missing on one side is a fault of the emitter, so only the branch with both is
  -- left.
  · intro h
    obtain ⟨x, hx, y, hy, h⟩ := h
    split at h
    · simp only [Walk.yields_bind, Walk.yields_liftM, Walk.yields_pure] at h
      obtain ⟨keyType, hk, elemType, he, keyCode, hkc, elemCode, hec, rfl⟩ := h
      exact ⟨_, _, _, _, keyType, elemType, keyCode, elemCode, hx, hy, hk, he, hkc, hec, rfl⟩
    · simp at h
  · rintro ⟨k, x, l, y, keyType, elemType, keyCode, elemCode, hx, hy, hk, he, hkc, hec, rfl⟩
    refine ⟨some (k, x), hx, some (l, y), hy, ?_⟩
    simp only [Walk.yields_bind, Walk.yields_liftM, Walk.yields_pure]
    exact ⟨keyType, hk, elemType, he, keyCode, hkc, elemCode, hec, rfl⟩

theorem array_calls (hs : s.Silent) (h : (c.array emit s).Yields b) (hc : call ∈ b.calls) :
    c.CallsBelow emit s call := by
  obtain ⟨x, y, type, body, hx, hy, -, hb, rfl⟩ := array_yields.mp h
  have hmake : (Expr.make (.slice type) (.len s.value)).calls = [] := by
    rw [Expr.calls, Expr.calls, hs.value]
  rw [Block.calls_cons, hs.store hmake, Block.calls_cons, Stmt.calls_range, hs.value,
    Block.calls_nil, List.append_nil, List.nil_append, List.nil_append] at hc
  -- What is left of the call's place is the body of the loop.
  exact .nested (.element hx hy) (hs.element x y) hb hc

theorem map_calls (hs : s.Silent) (h : (c.map emit s).Yields b) (hc : call ∈ b.calls) :
    c.CallsBelow emit s call := by
  obtain ⟨k, x, l, y, keyType, elemType, keyCode, elemCode, hx, hy, -, -, hk, he, rfl⟩ :=
    map_yields.mp h
  have hmake : (Expr.make (.map keyType elemType) (.len s.value)).calls = [] := by
    rw [Expr.calls, Expr.calls, hs.value]
  have hset : (Stmt.set (s.place.index (.ident (loopNewKey s.depth)))
      (.ident (loopNewValue s.depth))).calls = [] := by
    rw [Stmt.calls_set, Expr.calls, Expr.calls, Expr.calls, hs.place, List.append_nil,
      List.append_nil]
  rw [Block.calls_cons, hs.store hmake, Block.calls_cons, Stmt.calls_range, hs.value,
    Block.calls_append, Block.calls_append, Block.calls_cons, hset, Block.calls_nil,
    List.append_nil, List.append_nil, List.append_nil, List.nil_append, List.nil_append,
    List.mem_append] at hc
  rcases hc with hc | hc
  · exact .nested (.key hx hy) (.key s k l) hk hc
  · exact .nested (.entry hx hy) (.entry s x y) he hc

/-! ## Unions -/

/-- The code of one alternative: that of a nested site, none but a conversion of types, or code in
    place. -/
theorem alternative_yields {v : UnionType} {index : Nat} {x y : Attribute} :
    (c.alternative emit s v index x y).Yields b ↔
      (c.scope.isNamedObject x = .ok true ∧ (c.nested emit (s.alternative x y)).Yields b) ∨
      (c.scope.isNamedObject x = .ok false ∧
        ∃ wrapper, c.scope.alternativeRef c.target v.1 v.2 index = .ok wrapper ∧
          ((c.registry.isPrimitive x = .ok true ∧ (c.compatible (s.alternative x y)).Yields () ∧
              b = [.set s.place (.convert wrapper (s.alternative x y).value)]) ∨
            (c.registry.isPrimitive x = .ok false ∧
              ∃ code, (emit (s.wrapped x y)).Yields code ∧
                b = code ++ [.set s.place (.convert wrapper (s.wrapped x y).place)]))) := by
  unfold alternative
  simp only [Walk.yields_bind, Walk.yields_liftM]
  constructor
  · intro h
    obtain ⟨isNamed, hn, h⟩ := h
    cases isNamed with
    | true => exact Or.inl ⟨hn, h⟩
    | false =>
      simp only [Bool.false_eq_true, ↓reduceIte, Walk.yields_bind, Walk.yields_liftM] at h
      obtain ⟨wrapper, hw, isPrimitive, hp, h⟩ := h
      refine Or.inr ⟨hn, wrapper, hw, ?_⟩
      cases isPrimitive with
      | true =>
        simp only [↓reduceIte, Walk.yields_bind, Walk.yields_pure] at h
        obtain ⟨⟨⟩, hc, rfl⟩ := h
        exact Or.inl ⟨hp, hc, rfl⟩
      | false =>
        simp only [Bool.false_eq_true, ↓reduceIte, Walk.yields_bind, Walk.yields_pure] at h
        obtain ⟨code, hcode, rfl⟩ := h
        exact Or.inr ⟨hp, code, hcode, rfl⟩
  · intro h
    -- Back: each of the three ways names the answers of the two questions that the code asks, in
    -- order.
    rcases h with ⟨hn, h⟩ | ⟨hn, wrapper, hw, ⟨hp, hc, rfl⟩ | ⟨hp, code, hcode, rfl⟩⟩
    · exact ⟨true, hn, h⟩
    · refine ⟨false, hn, ?_⟩
      simp only [Bool.false_eq_true, ↓reduceIte, Walk.yields_bind, Walk.yields_liftM]
      refine ⟨wrapper, hw, true, hp, ?_⟩
      exact Walk.yields_bind.mpr ⟨(), hc, Walk.yields_pure.mpr rfl⟩
    · refine ⟨false, hn, ?_⟩
      simp only [Bool.false_eq_true, ↓reduceIte, Walk.yields_bind, Walk.yields_liftM]
      refine ⟨wrapper, hw, false, hp, ?_⟩
      simp only [Bool.false_eq_true, ↓reduceIte, Walk.yields_bind, Walk.yields_pure]
      exact ⟨code, hcode, rfl⟩

/-- The cases of a switch are those of its alternatives, one for each pair and in their order. The
    indices are left open here. Where they matter `cases_getElem?` gives them. -/
theorem cases_yields {u v : UnionType} : ∀ {pairs : List (Attribute × Attribute)} {index : Nat}
    {cases : List (TypeRef × Block)}, (c.cases emit s u v index pairs).Yields cases →
      List.Forall₂ (fun q x => ∃ index, (c.alternative emit s v index q.1 q.2).Yields x.2)
        pairs cases := by
  intro pairs
  induction pairs with
  | nil =>
    intro index cases h
    rw [Conversion.cases, Walk.yields_pure] at h
    exact h ▸ .nil
  | cons q rest ih =>
    intro index cases h
    rw [Conversion.cases] at h
    simp only [Walk.yields_bind, Walk.yields_liftM, Walk.yields_pure] at h
    obtain ⟨type, -, body, hb, others, ho, rfl⟩ := h
    exact .cons ⟨index, hb⟩ (ih ho)

/-- Declaring the target variable calls nothing; only an interface value is declared in front. -/
theorem declaration_calls (h : (c.declaration s).Yields b) : b.calls = [] := by
  unfold declaration at h
  split at h
  · split at h
    · simp only [Walk.yields_bind, Walk.yields_liftM, Walk.yields_pure] at h
      obtain ⟨type, -, rfl⟩ := h
      rw [Block.calls_cons, Stmt.calls, Block.calls_nil, List.append_nil]
    · simp at h
  · rw [Walk.yields_pure] at h
    rw [← h, Block.calls_nil]

/-- A conversion between unions is one switch over the type of the value, behind the declaration of
    the target variable where it is new. -/
theorem union_yields (h : (c.union emit s).Yields b) :
    ∃ u v declared cases, c.unions s.source s.target = .ok (u, v) ∧
      (c.declaration s).Yields declared ∧
      (c.cases emit s u v 0 ((u.2.map Prod.snd).zip (v.2.map Prod.snd))).Yields cases ∧
      b = declared ++ [.typeSwitch "actual" s.value cases] := by
  unfold union at h
  simp only [Walk.yields_bind, Walk.yields_liftM, Walk.yields_pure] at h
  obtain ⟨⟨u, v⟩, hu, declared, hd, cases, hcases, rfl⟩ := h
  exact ⟨u, v, declared, cases, hu, hd, hcases, rfl⟩

theorem union_calls (hs : s.Silent) (h : (c.union emit s).Yields b) (hc : call ∈ b.calls) :
    c.CallsBelow emit s call := by
  obtain ⟨u, v, declared, cases, hu, hd, hcases, rfl⟩ := union_yields h
  rw [Block.calls_append, declaration_calls hd, Block.calls_cons, Stmt.calls, hs.value,
    Block.calls_nil, List.append_nil, List.nil_append, List.nil_append,
    Block.mem_calls_cases] at hc
  obtain ⟨x, hx, hc⟩ := hc
  obtain ⟨⟨a, d⟩, hq, index, hb⟩ := forall₂_mem_right (cases_yields hcases) hx
  rcases alternative_yields.mp hb with
    ⟨hn, hb⟩ | ⟨hn, wrapper, -, ⟨-, -, hb⟩ | ⟨hp, code, hcode, hb⟩⟩
  · exact .nested (.alternative hu hq hn) (hs.alternative a d) hb hc
  · rw [hb, Block.calls_cons, Stmt.calls_set, hs.place, Expr.calls, Site.alternative, Expr.calls,
      Block.calls_nil] at hc
    simp at hc
  · rw [hb, Block.calls_append, Block.calls_cons, Stmt.calls_set, hs.place, Expr.calls,
      Site.wrapped, Expr.calls, Block.calls_nil, List.append_nil, List.append_nil,
      List.append_nil] at hc
    exact .wrapped (.alternative hu hq hn hp) (.wrapped s a d) hcode hc

/-! ## Objects -/

/-- What a field site takes from the match and the site it belongs to, as far as calls are
    concerned. -/
structure FieldOf (c : Conversion) (s : Site) (m : FieldMatch) (f : FieldSite) : Prop where
  source : f.source = m.source
  target : f.target = m.target
  value : f.value.calls = s.value.calls
  place : f.place.calls = s.place.calls
  sourcePrimitive : c.registry.isPrimitive m.source = .ok f.sourcePrimitive
  targetPrimitive : c.registry.isPrimitive m.target = .ok f.targetPrimitive

theorem fieldSite_yields {v w : ObjectView} {m : FieldMatch} {f : FieldSite}
    (h : (c.fieldSite s v w m).Yields f) : c.FieldOf s m f := by
  unfold fieldSite at h
  simp only [Walk.yields_bind, Walk.yields_liftM] at h
  obtain ⟨sourcePrimitive, hs, targetPrimitive, ht, h⟩ := h
  split at h
  · simp only [Walk.yields_bind, Walk.yields_liftM, Walk.yields_pure] at h
    obtain ⟨-, -, sourcePointer, -, targetPointer, -, rfl⟩ := h
    exact ⟨rfl, rfl, by rw [Expr.calls], by rw [Expr.calls], hs, ht⟩
  · simp only [Walk.yields_bind, Walk.yields_liftM, Walk.yields_pure] at h
    obtain ⟨sourcePointer, -, targetPointer, -, rfl⟩ := h
    exact ⟨rfl, rfl, by rw [Expr.calls], by rw [Expr.calls], hs, ht⟩

/-- All that a field site says of the field: names, expressions, how the field is held on either
    side, and that primitives fit. Later theories use this and not the emitter of field sites. -/
structure Describes (c : Conversion) (s : Site) (v w : ObjectView) (m : FieldMatch)
    (f : FieldSite) : Prop where
  name : f.name = m.name
  source : f.source = m.source
  target : f.target = m.target
  value : f.value = s.value.field (v.fieldName m.name)
  place : f.place = s.place.field f.placeName
  placeName : f.placeName = w.fieldName m.name
  required : f.required = v.requires m.name
  sourcePrimitive : c.registry.isPrimitive f.source = .ok f.sourcePrimitive
  targetPrimitive : c.registry.isPrimitive f.target = .ok f.targetPrimitive
  sourcePointer : c.source.holdsPointer c.registry f.source f.required = .ok f.sourcePointer
  targetPointer :
    c.target.holdsPointer c.registry f.target (w.requires m.name) = .ok f.targetPointer
  compatible : f.isPrimitive = true → (c.registry.compatible f.source f.target {}).Yields ()

theorem Describes.fieldMatch {v w : ObjectView} {m : FieldMatch} {f : FieldSite}
    (h : c.Describes s v w m f) : m = f.fieldMatch := by
  rw [FieldSite.fieldMatch, h.name, h.source, h.target]

theorem fieldSite_describes {v w : ObjectView} {m : FieldMatch} {f : FieldSite}
    (h : (c.fieldSite s v w m).Yields f) : c.Describes s v w m f := by
  unfold fieldSite at h
  simp only [Walk.yields_bind, Walk.yields_liftM] at h
  obtain ⟨sourcePrimitive, hs, targetPrimitive, ht, h⟩ := h
  split at h
  · simp only [Walk.yields_bind, Walk.yields_liftM, Walk.yields_pure] at h
    obtain ⟨⟨⟩, hc, sourcePointer, hsp, targetPointer, htp, rfl⟩ := h
    exact ⟨rfl, rfl, rfl, rfl, rfl, rfl, rfl, hs, ht, hsp, htp,
      fun _ => (Registry.compatible_yields_iff _ _).mp hc⟩
  · rename_i hp
    simp only [Walk.yields_bind, Walk.yields_liftM, Walk.yields_pure] at h
    obtain ⟨sourcePointer, hsp, targetPointer, htp, rfl⟩ := h
    exact ⟨rfl, rfl, rfl, rfl, rfl, rfl, rfl, hs, ht, hsp, htp, fun h => absurd h hp⟩

/-- The code of primitive fields is that of the fields, one after another. What goes into the
    literal and what stands behind the allocation is collected separately, each in the order of the
    fields. -/
theorem primitiveFields_parts {taken : List String} : ∀ {fields : List FieldSite}
    {code : ObjectCode}, c.primitiveFields taken fields = .ok code →
      ∃ parts : List ObjectCode, code.literal = parts.flatMap (·.literal) ∧
        code.after = parts.flatMap (·.after) ∧
        List.Forall₂ (fun f part => ∃ result,
          c.converted? f.source f.target f.sourcePointer f.value = .ok result ∧
            part = primitiveFieldCode f taken result) fields parts := by
  intro fields
  induction fields with
  | nil =>
    intro code h
    cases h
    exact ⟨[], rfl, rfl, .nil⟩
  | cons f rest ih =>
    intro code h
    rw [primitiveFields] at h
    simp only [except_bind_eq_ok, except_pure_eq_ok] at h
    obtain ⟨result, hresult, others, hothers, rfl⟩ := h
    obtain ⟨parts, hliteral, hafter, hparts⟩ := ih hothers
    refine ⟨primitiveFieldCode f taken result :: parts, ?_, ?_, .cons ⟨result, hresult, rfl⟩ hparts⟩
    · rw [ObjectCode.append, List.flatMap_cons, hliteral]
    · rw [ObjectCode.append, List.flatMap_cons, hafter]

/-- A structured field has the code of its nested site, in a check for nil where the value may be
    absent and there is any code at all. -/
theorem structuredField_yields {depth : Nat} {f : FieldSite} :
    (c.structuredField emit depth f).Yields b ↔
      ∃ code, (c.nested emit (f.site depth)).Yields code ∧
        b = if code.isEmpty || (f.sourcePrimitive && !f.sourcePointer) then code
          else [f.ifPresent code] := by
  unfold structuredField
  simp only [Walk.yields_bind]
  refine exists_congr fun code => and_congr_right fun _ => ?_
  split
  · rw [Walk.yields_pure, eq_comm]
  · rw [Walk.yields_pure, eq_comm]

/-- The code behind the allocation is that of the fields, one after another: of each first the
    value, then the default. -/
theorem laterFields_yields {depth : Nat} : ∀ {fields : List FieldSite} {b : Block},
    (c.laterFields emit depth fields).Yields b →
      ∃ parts : List (Block × Block), b = parts.flatMap (fun x => x.1 ++ x.2) ∧
        List.Forall₂ (fun f x => (c.laterValue emit depth f).Yields x.1 ∧
          c.laterDefault f = .ok x.2) fields parts := by
  intro fields
  induction fields with
  | nil =>
    intro b h
    rw [laterFields, Walk.yields_pure] at h
    exact ⟨[], h.symm, .nil⟩
  | cons f rest ih =>
    intro b h
    rw [laterFields] at h
    simp only [Walk.yields_bind, Walk.yields_liftM, Walk.yields_pure] at h
    obtain ⟨code, hcode, default, hdefault, others, hothers, rfl⟩ := h
    obtain ⟨parts, rfl, hparts⟩ := ih hothers
    exact ⟨(code, default) :: parts, by rw [List.flatMap_cons], .cons ⟨hcode, hdefault⟩ hparts⟩

/-- An object is allocated with the fields that a literal can hold, and completed by statements. The
    temporaries of primitive fields avoid the variables in scope that are named here. -/
theorem object_yields (h : (c.object emit s).Yields b) :
    ∃ v w fields code type later, ObjectView.of? c.registry s.source = .ok (some v) ∧
      ObjectView.of? c.registry s.target = .ok (some w) ∧
      List.Forall₂ (fun m f => (c.fieldSite s v w m).Yields f) (matchFields v w) fields ∧
      c.primitiveFields (loopScope s.depth ++ s.value.root?.toList ++ s.place.root?.toList)
        (fields.filter (·.isPrimitive)) = .ok code ∧
      c.targetRef s.target = .ok type ∧ (c.laterFields emit s.depth fields).Yields later ∧
      b = s.store (.allocate type code.literal) :: (code.after ++ later) := by
  unfold object at h
  simp only [Walk.yields_bind, Walk.yields_liftM] at h
  obtain ⟨v, hv, h⟩ := h
  cases v with
  | none => simp at h
  | some v =>
    simp only [Walk.yields_bind, Walk.yields_liftM] at h
    obtain ⟨w, hw, h⟩ := h
    cases w with
    | none => simp at h
    | some w =>
      simp only [Walk.yields_bind, Walk.yields_liftM, Walk.yields_mapM, Walk.yields_pure] at h
      obtain ⟨fields, hf, code, hc, type, ht, later, hl, rfl⟩ := h
      exact ⟨v, w, fields, code, type, later, hv, hw, hf, hc, ht, hl, rfl⟩

/-- The target asks for the default of the field where its value is absent. A box on one side only
    leaves no value to put a default into. -/
structure Injects (c : Conversion) (f : FieldSite) : Prop where
  useDefault : c.target.useDefault = true
  pointerForRequired : c.target.pointerForRequired = false
  required : f.required = false
  boxed : f.sourcePrimitive = f.targetPrimitive

/-- The value of the field can be nil. It is held by a pointer, is not primitive, or is of a
    primitive kind that is nil when it is empty. -/
def Nillable (c : Conversion) (f : FieldSite) (nillable : Bool) : Prop :=
  ∃ p, c.registry.primitive? f.source = .ok p ∧
    (f.sourcePointer || !f.sourcePrimitive || p.any (·.isReference)) = nillable

/-- The code that puts a default into a field. There is none where the context does not ask for it;
    a pointer gets a variable to point to; and where the value cannot be nil, the zero value stands
    for its absence. -/
inductive DefaultCode (c : Conversion) (f : FieldSite) (value : Literal) : Block → Prop where
  | idle (h : ¬ c.Injects f ∨ (c.Nillable f false ∧ f.targetPointer = true)) :
      DefaultCode c f value []
  | held (h : c.Injects f) (hn : c.Nillable f true) (type : TypeRef)
      (ht : c.targetRef f.target = .ok type)
      (hp : f.targetPointer = true ∧ f.targetPrimitive = true) :
      DefaultCode c f value [.when f.value.isNil
        [.declare "tmp" type (some (.lit value type)), .set f.place (Expr.ident "tmp").addr]]
  | stored (h : c.Injects f) (hn : c.Nillable f true) (type : TypeRef)
      (ht : c.targetRef f.target = .ok type)
      (hp : ¬ (f.targetPointer = true ∧ f.targetPrimitive = true)) :
      DefaultCode c f value [.when f.value.isNil [.set f.place (.lit value type)]]
  | zero (h : c.Injects f) (hn : c.Nillable f false) (type : TypeRef)
      (ht : c.targetRef f.target = .ok type) (hp : f.targetPointer = false) :
      DefaultCode c f value [.block [.declare "zero" type none,
        .when (.binary .eq f.place (.ident "zero")) [.set f.place (.lit value type)]]]

/-- There are no other ways to inject a default. The shapes are those of `DefaultCode`, with the
    conditions under which each is taken. All that is said of defaults goes by these cases. -/
theorem defaultField_shape {f : FieldSite} {value : Literal}
    (h : c.defaultField f value = .ok b) : c.DefaultCode f value b := by
  unfold defaultField at h
  dsimp only at h
  split at h
  · rename_i hidle
    rw [except_pure_eq_ok] at h
    subst h
    refine .idle (Or.inl fun hi => ?_)
    simp [hi.useDefault, hi.pointerForRequired, hi.required, hi.boxed] at hidle
  · rename_i hinjects
    simp only [Bool.or_eq_true, Bool.not_eq_true', bne_iff_ne, ne_eq, not_or, Bool.not_eq_true,
      Bool.not_eq_false, not_not] at hinjects
    obtain ⟨⟨⟨huse, hpointer⟩, hrequired⟩, hboxed⟩ := hinjects
    have hi : c.Injects f := ⟨huse, hpointer, hrequired, hboxed⟩
    simp only [except_bind_eq_ok] at h
    -- Two questions are left: can the value be nil, and does the target hold a pointer?
    obtain ⟨p, hp, type, ht, h⟩ := h
    split at h
    · rename_i hn
      rw [except_pure_eq_ok] at h
      subst h
      split
      · rename_i htarget
        exact .held hi ⟨p, hp, hn⟩ type ht (by simpa using htarget)
      · rename_i htarget
        exact .stored hi ⟨p, hp, hn⟩ type ht (by simpa using htarget)
    · rename_i hn
      have hn : c.Nillable f false := ⟨p, hp, by simpa using hn⟩
      split at h
      · rename_i htarget
        rw [except_pure_eq_ok] at h
        exact h ▸ .idle (Or.inr ⟨hn, htarget⟩)
      · rename_i htarget
        rw [except_pure_eq_ok] at h
        exact h ▸ .zero hi hn type ht (by simpa using htarget)

/-- The parts of a field's code that come from the field call no function. Whatever calls there are
    in code for the field have then been made by the emitter. -/
structure FieldSilent (f : FieldSite) : Prop where
  value : f.value.calls = []
  place : f.place.calls = []

/-- Code for fields that calls no function. -/
structure CodeSilent (code : ObjectCode) : Prop where
  literal : ∀ x ∈ code.literal, x.2.calls = []
  after : code.after.calls = []

section Fields

variable {f : FieldSite} (hf : FieldSilent f)
include hf

theorem FieldSilent.notNil : f.value.notNil.calls = [] := by
  rw [Expr.notNil, Expr.calls, Expr.calls, hf.value, List.append_nil]

theorem FieldSilent.ifPresent (body : Block) : (f.ifPresent body).calls = body.calls := by
  rw [FieldSite.ifPresent, Stmt.calls_when, hf.notNil, List.nil_append]

theorem FieldSilent.set {e : Expr} (he : e.calls = []) : Block.calls [.set f.place e] = [] := by
  rw [Block.calls_cons, Stmt.calls_set, hf.place, he, Block.calls_nil, List.append_nil,
    List.append_nil]

theorem FieldSilent.site (depth : Nat) : (f.site depth).Silent where
  value := by
    rw [FieldSite.site]
    split
    · rw [Expr.calls, hf.value]
    · exact hf.value
  place := hf.place

theorem storeConverted_calls {taken : List String} {result : Expr} (hr : result.calls = []) :
    (storeConverted f taken result).calls = [] := by
  unfold storeConverted
  split
  · rw [Block.calls_cons, Stmt.calls, Expr.calls, hr, hf.set]
    · rfl
    · rw [Expr.calls, Expr.calls]
  · exact hf.set hr

/-- Primitive fields are converted without a call: types are converted, pointers taken and read. So
    calls of helpers come from structured fields alone, and the pairs that are called for are those
    of nested sites. -/
theorem primitiveFieldCode_silent {taken : List String} {result : Option Expr}
    (hr : ∀ e ∈ result, e.calls = []) : CodeSilent (primitiveFieldCode f taken result) := by
  -- The code for a field is a member of the literal, or statements after it, the latter perhaps
  -- under a test for nil.
  have literal : ∀ {e : Expr}, e.calls = [] → CodeSilent { literal := [(f.placeName, e)] } := by
    intro e he
    refine ⟨fun x hx => ?_, Block.calls_nil⟩
    rw [List.mem_singleton.mp hx, he]
  have after : ∀ {code : Block}, code.calls = [] → CodeSilent { after := code } := by
    intro code hcode
    exact ⟨fun x hx => absurd hx List.not_mem_nil, hcode⟩
  have present : ∀ {code : Block}, code.calls = [] → Block.calls [f.ifPresent code] = [] := by
    intro code hcode
    rw [Block.calls_cons, hf.ifPresent, hcode, Block.calls_nil, List.append_nil]
  have hderef : f.value.deref.calls = [] := by rw [Expr.calls, hf.value]
  have haddr : f.value.addr.calls = [] := by rw [Expr.calls, hf.value]
  unfold primitiveFieldCode
  split
  · rename_i e
    have he : e.calls = [] := hr e rfl
    split
    · exact literal he
    · split
      · exact after (present (storeConverted_calls hf he))
      · exact after (storeConverted_calls hf he)
  · split
    · split
      · exact literal hderef
      · exact after (present (hf.set hderef))
    · split
      · exact literal haddr
      · exact literal hf.value

theorem defaultField_calls {value : Literal} (h : c.defaultField f value = .ok b) :
    b.calls = [] := by
  have hnil : f.value.isNil.calls = [] := by
    rw [Expr.isNil, Expr.calls, Expr.calls, hf.value, List.append_nil]
  have hzero : (Expr.binary .eq f.place (.ident "zero")).calls = [] := by
    rw [Expr.calls, Expr.calls, hf.place, List.append_nil]
  have haddr : (Expr.ident "tmp").addr.calls = [] := by rw [Expr.calls, Expr.calls]
  have hlit : ∀ type, (Expr.lit value type).calls = [] := fun type => by rw [Expr.calls]
  cases defaultField_shape h with
  | idle => exact Block.calls_nil
  | held _ _ type =>
    rw [Block.calls_cons, Stmt.calls_when, hnil, Block.calls_nil, List.append_nil, List.nil_append,
      Block.calls_cons, Stmt.calls, hlit, List.nil_append, hf.set haddr]
  | stored _ _ type =>
    rw [Block.calls_cons, Stmt.calls_when, hnil, Block.calls_nil, List.append_nil, List.nil_append,
      hf.set (hlit type)]
  | zero _ _ type =>
    rw [Block.calls_cons, Stmt.calls, Block.calls_nil, List.append_nil, ← Block.calls,
      Block.calls_cons, Stmt.calls, List.nil_append, Block.calls_cons, Stmt.calls_when, hzero,
      hf.set (hlit type), Block.calls_nil, List.append_nil, List.append_nil]

end Fields

theorem converted?_calls {source target : Attribute} {isPointer : Bool} {value : Expr}
    (hv : value.calls = []) {result : Option Expr}
    (h : c.converted? source target isPointer value = .ok result) : ∀ e ∈ result, e.calls = [] := by
  unfold converted? at h
  simp only [except_bind_eq_ok] at h
  obtain ⟨x, -, y, -, h⟩ := h
  split at h
  · rw [except_pure_eq_ok] at h
    simp [← h]
  · rw [except_pure_eq_ok] at h
    intro e he
    rw [← h, Option.mem_some_iff] at he
    rw [← he, Expr.calls]
    split
    · rw [Expr.calls, hv]
    · exact hv

theorem primitiveFields_silent {taken : List String} : ∀ {fields : List FieldSite}
    {code : ObjectCode}, (∀ f ∈ fields, FieldSilent f) →
      c.primitiveFields taken fields = .ok code → CodeSilent code := by
  intro fields
  induction fields with
  | nil =>
    intro code _ h
    cases h
    exact ⟨fun x hx => absurd hx List.not_mem_nil, Block.calls_nil⟩
  | cons f rest ih =>
    intro code hsilent h
    rw [List.forall_mem_cons] at hsilent
    rw [primitiveFields] at h
    simp only [except_bind_eq_ok, except_pure_eq_ok] at h
    obtain ⟨result, hresult, others, hothers, rfl⟩ := h
    have hhead : CodeSilent (primitiveFieldCode f taken result) :=
      primitiveFieldCode_silent hsilent.1 (converted?_calls hsilent.1.value hresult)
    have htail := ih hsilent.2 hothers
    constructor
    · intro x hx
      exact (List.mem_append.mp hx).elim (hhead.literal x) (htail.literal x)
    · rw [ObjectCode.append, Block.calls_append, hhead.after, htail.after, List.append_nil]

theorem laterValue_calls {depth : Nat} {f : FieldSite} (hf : FieldSilent f)
    (h : (c.laterValue emit depth f).Yields b) (hc : call ∈ b.calls) :
    f.isPrimitive = false ∧
      ∃ code, (c.nested emit (f.site depth)).Yields code ∧ call ∈ code.calls := by
  unfold laterValue at h
  split at h
  · rw [Walk.yields_pure] at h
    simp [← h] at hc
  · rename_i hp
    obtain ⟨code, hcode, rfl⟩ := structuredField_yields.mp h
    refine ⟨by simpa using hp, code, hcode, ?_⟩
    split at hc
    · exact hc
    · rwa [Block.calls_cons, hf.ifPresent, Block.calls_nil, List.append_nil] at hc

theorem laterDefault_calls {f : FieldSite} (hf : FieldSilent f) (h : c.laterDefault f = .ok b) :
    b.calls = [] := by
  unfold laterDefault at h
  split at h
  · exact defaultField_calls hf h
  · cases h
    exact Block.calls_nil

theorem allocate_calls {type : TypeRef} {fields : List (String × Expr)}
    (h : ∀ x ∈ fields, x.2.calls = []) : (Expr.allocate type fields).calls = [] := by
  have hfields : Expr.callsFields fields = [] := by
    rw [List.eq_nil_iff_forall_not_mem]
    intro call hcall
    obtain ⟨x, hx, hcall⟩ := Expr.mem_callsFields.mp hcall
    simp [h x hx] at hcall
  unfold Expr.allocate
  split
  · rw [Expr.calls, hfields]
  · rw [Expr.calls, hfields]

/-- The calls in the code of an object are those of its structured fields. The literal, the
    primitive fields and the defaults have none. -/
theorem object_calls (hs : s.Silent) (h : (c.object emit s).Yields b) (hc : call ∈ b.calls) :
    c.CallsBelow emit s call := by
  obtain ⟨v, w, fields, code, type, later, hv, hw, hfields, hcode, -, hlater, rfl⟩ :=
    object_yields h
  have hsilent : ∀ f ∈ fields, FieldSilent f := by
    intro f hf
    obtain ⟨m, -, hm⟩ := forall₂_mem_right hfields hf
    have hof := fieldSite_yields hm
    exact ⟨hof.value.trans hs.value, hof.place.trans hs.place⟩
  have hprimitive : CodeSilent code :=
    primitiveFields_silent (fun f hf => hsilent f (List.mem_of_mem_filter hf)) hcode
  obtain ⟨parts, rfl, hparts⟩ := laterFields_yields hlater
  -- The literal and the primitive fields call nothing, and neither does a default.
  rw [Block.calls_cons, hs.store (allocate_calls hprimitive.literal), Block.calls_append,
    hprimitive.after, List.nil_append, List.nil_append, Block.calls_flatMap] at hc
  obtain ⟨x, hx, hc⟩ := List.mem_flatMap.mp hc
  obtain ⟨f, hf, hvalue, hdefault⟩ := forall₂_mem_right hparts hx
  rw [Block.calls_append, laterDefault_calls (hsilent f hf) hdefault, List.append_nil] at hc
  obtain ⟨hp, body, hbody, hc⟩ := laterValue_calls (hsilent f hf) hvalue hc
  obtain ⟨m, hm, hfm⟩ := forall₂_mem_right hfields hf
  exact .nested (.field hv hw hm hfm hp) ((hsilent f hf).site s.depth) hbody hc

/-! ## Any kind -/

theorem primitive_calls (hs : s.Silent) (h : (c.primitive s).Yields b) : b.calls = [] := by
  unfold primitive at h
  simp only [Walk.yields_bind, Walk.yields_liftM, Walk.yields_pure] at h
  obtain ⟨result, hr, rfl⟩ := h
  rw [Block.calls_cons, Block.calls_nil, List.append_nil]
  cases result with
  | none => exact hs.store hs.value
  | some e => exact hs.store (converted?_calls hs.value hr e rfl)

/-- A structured value is stored as it is where the target is of the kind `any`, and converted by
    its kind elsewhere. -/
theorem byKind_yields : (c.byKind emit s).Yields b ↔
    ∃ kind target, c.registry.kind s.source = .ok kind ∧ c.registry.kind s.target = .ok target ∧
      ((target = .primitive .any ∧ kind.isPrimitive = false ∧ b = [s.store s.value]) ∨
        ((target = .primitive .any → kind.isPrimitive = true) ∧
          (c.ofKind emit s kind).Yields b)) := by
  unfold byKind
  simp only [Walk.yields_bind, Walk.yields_liftM]
  constructor
  · intro h
    obtain ⟨kind, hk, target, ht, h⟩ := h
    refine ⟨kind, target, hk, ht, ?_⟩
    split at h
    · rename_i hany
      simp only [Bool.and_eq_true, decide_eq_true_eq, Bool.not_eq_true'] at hany
      exact Or.inl ⟨hany.1, hany.2, (Walk.yields_pure.mp h).symm⟩
    · rename_i hany
      simp only [Bool.and_eq_true, decide_eq_true_eq, Bool.not_eq_true', not_and,
        Bool.not_eq_false] at hany
      exact Or.inr ⟨hany, h⟩
  · intro h
    obtain ⟨kind, target, hk, ht, ⟨rfl, hp, rfl⟩ | ⟨hany, h⟩⟩ := h
    · exact ⟨kind, hk, _, ht, by simp [hp]⟩
    · refine ⟨kind, hk, target, ht, ?_⟩
      rw [if_neg]
      · exact h
      · simpa only [Bool.and_eq_true, decide_eq_true_eq, Bool.not_eq_true', not_and,
          Bool.not_eq_false] using hany

theorem byKind_calls (hs : s.Silent) (h : (c.byKind emit s).Yields b) (hc : call ∈ b.calls) :
    c.CallsBelow emit s call := by
  obtain ⟨kind, target, -, -, ⟨-, -, rfl⟩ | ⟨-, h⟩⟩ := byKind_yields.mp h
  · rw [Block.calls_cons, hs.store hs.value, Block.calls_nil] at hc
    exact absurd hc List.not_mem_nil
  · cases kind with
    | array => exact array_calls hs h hc
    | map => exact map_calls hs h hc
    | object => exact object_calls hs h hc
    | union => exact union_calls hs h hc
    | primitive p =>
      rw [primitive_calls hs h] at hc
      exact absurd hc List.not_mem_nil

/-! ## Boxes -/

/-- The comparison of a site is that of its pair; the paths that it passes along are for
    messages. -/
theorem compatible_yields :
    (c.compatible s).Yields () ↔ (c.registry.compatible s.source s.target {}).Yields () := by
  rw [compatible]
  exact Registry.compatible_yields_iff s.paths {}

theorem compatible_fails :
    (c.compatible s).Fails ↔ (c.registry.compatible s.source s.target {}).Fails := by
  rw [compatible]
  exact Registry.compatible_fails_iff s.paths {}

theorem compatible_finishes :
    (c.compatible s).Finishes ↔ (c.registry.compatible s.source s.target {}).Finishes := by
  rw [compatible]
  exact Registry.compatible_finishes_congr s.paths {}

/-- No box is opened at a site whose attributes are compatible, so its code is that of their
    kind. -/
theorem attrVia_of_compatible (h : (c.registry.compatible s.source s.target {}).Yields ()) :
    c.attrVia emit s = c.byKind emit s := by
  have houtcome : (c.compatible s).outcome = pure (.ok ()) := by
    have hrun : (c.compatible s).run = some (.ok ()) := compatible_yields.mpr h
    rw [Walk.outcome, hrun]
    rfl
  rw [attrVia, houtcome, pure_bind]

/-- The site that the code of `s` is about: `s` itself, or where its attributes are not compatible
    the inside of the box of the wire side. A box is not looked into twice: inside one, no other is
    opened. -/
inductive Opens (c : Conversion) (s : Site) : Site → Prop where
  | plain (hc : (c.compatible s).Yields ()) : Opens c s s
  | boxed {why : Fault} {box : Block} {inner : Site} (hf : (c.compatible s).Fails)
      (hs : s.inBox = false) (ho : (c.unboxed s why).Yields (box, inner))
      (hc : (c.compatible inner).Yields ()) : Opens c s inner

theorem Opens.compatible {inner : Site} (h : c.Opens s inner) :
    (c.registry.compatible inner.source inner.target {}).Yields () := by
  cases h with
  | plain hc => exact compatible_yields.mp hc
  | boxed _ _ _ hc => exact compatible_yields.mp hc

/-- Where the plain comparison succeeds nothing is opened. -/
theorem Opens.eq_of_compatible {inner : Site} (ho : c.Opens s inner)
    (h : (c.registry.compatible s.source s.target {}).Yields ()) : inner = s := by
  cases ho with
  | plain => rfl
  | boxed hf =>
    obtain ⟨why, hf⟩ := compatible_fails.mp hf
    rw [Walk.Yields, hf] at h
    cases h

/-- The code of a site is that of the kind of what it is about, behind the code that makes a box.
    Behind `Opens` stands all that is known of the box: it is opened only if the comparison failed,
    and at most once. -/
theorem attrVia_yields : (c.attrVia emit s).Yields b →
    ∃ inner box code, c.Opens s inner ∧ (c.byKind emit inner).Yields code ∧ b = box ++ code ∧
      ((inner = s ∧ box = []) ∨ ∃ why, (c.unboxed s why).Yields (box, inner)) := by
  unfold attrVia
  simp only [Walk.yields_bind, Walk.yields_outcome]
  intro h
  obtain ⟨o, ho, h⟩ := h
  cases o with
  | ok u => exact ⟨s, [], b, .plain ho, h, rfl, Or.inl ⟨rfl, rfl⟩⟩
  | error why =>
    dsimp only at h
    split at h
    · simp at h
    · rename_i hin
      simp only [Walk.yields_bind, Walk.yields_pure] at h
      obtain ⟨⟨box, inner⟩, hbox, ⟨⟩, hc, code, hcode, rfl⟩ := h
      exact ⟨inner, box, code, .boxed ⟨why, ho⟩ (by simpa using hin) hbox hc, hcode, rfl,
        Or.inr ⟨why, hbox⟩⟩

/-- How the box of the wire side is opened at a site: one of the target is made first, one of the
    source is read. Either way the field inside is reached by its fixed name. -/
inductive Unboxed (c : Conversion) (s : Site) : Block → Site → Prop where
  | target {content : Attribute} (type : TypeRef)
      (ho : c.openBox? s.source s.target = .ok (some (s.source, content)))
      (ht : c.targetRef s.target = .ok type) :
      Unboxed c s [s.store (.allocate type [])]
        { s with target := content, place := s.place.field boxFieldName, declare := false }
  | source {content : Attribute}
      (ho : c.openBox? s.source s.target = .ok (some (content, s.target))) :
      Unboxed c s [] { s with source := content, value := s.value.field boxFieldName }

theorem unboxed_yields {why : Fault} {box : Block} {inner : Site}
    (h : (c.unboxed s why).Yields (box, inner)) : c.Unboxed s box inner := by
  unfold unboxed at h
  cases hw : c.wire with
  -- Only a box on the target side is built, so only there a type has to be found. One on the source
  -- side is read through a selector.
  | target =>
    rw [hw] at h
    simp only [Walk.yields_bind, Walk.yields_liftM] at h
    obtain ⟨opened, ho, h⟩ := h
    cases opened with
    | none => simp at h
    | some content =>
      simp only [Walk.yields_bind, Walk.yields_liftM, Walk.yields_pure, Prod.mk.injEq] at h
      obtain ⟨type, htype, rfl, rfl⟩ := h
      exact .target type (by simp [openBox?, hw, ho]) htype
  | source =>
    rw [hw] at h
    simp only [Walk.yields_bind, Walk.yields_liftM] at h
    obtain ⟨opened, ho, h⟩ := h
    cases opened with
    | none => simp at h
    | some content =>
      simp only [Walk.yields_pure, Prod.mk.injEq] at h
      obtain ⟨rfl, rfl⟩ := h
      exact .source (by simp [openBox?, hw, ho])

section Unboxed

variable {box : Block} {inner : Site} (h : c.Unboxed s box inner)
include h

theorem Unboxed.opened : c.openBox? s.source s.target = .ok (some inner.pair) := by
  cases h with
  | target _ ho => exact ho
  | source ho => exact ho

theorem Unboxed.silent (hs : s.Silent) : inner.Silent ∧ box.calls = [] := by
  cases h with
  | target type =>
    have hnew : (Expr.allocate type []).calls = [] :=
      allocate_calls fun x hx => absurd hx List.not_mem_nil
    refine ⟨⟨hs.value, ?_⟩, ?_⟩
    · rw [Expr.calls, hs.place]
    · rw [Block.calls_cons, hs.store hnew, Block.calls_nil, List.append_nil]
  | source =>
    refine ⟨⟨?_, hs.place⟩, Block.calls_nil⟩
    rw [Expr.calls, hs.value]

end Unboxed

theorem Opens.silent {inner : Site} (h : c.Opens s inner) (hs : s.Silent) : inner.Silent := by
  cases h with
  | plain => exact hs
  | boxed _ _ ho => exact ((unboxed_yields ho).silent hs).1

/-- What code is about is what the search for helpers takes the pair for. Both open a box for the
    same reason, and this is where the two walks are tied together. -/
theorem Opens.reconcile {inner : Site} (h : c.Opens s inner) :
    (c.reconcile s.source s.target).Yields inner.pair := by
  refine (reconcile_yields_iff (p := s.pair)).mpr ?_
  cases h with
  | plain hc => exact Or.inl ⟨compatible_yields.mp hc, rfl⟩
  | boxed hf _ ho hc =>
    exact Or.inr ⟨compatible_fails.mp hf, (unboxed_yields ho).opened, compatible_yields.mp hc⟩

/-- Every call in the code of a site is in the code of a site one level below it. Making a box calls
    nothing. -/
theorem attrVia_calls (hs : s.Silent) (h : (c.attrVia emit s).Yields b) (hc : call ∈ b.calls) :
    ∃ inner, c.Opens s inner ∧ c.CallsBelow emit inner call := by
  obtain ⟨inner, box, code, ho, hcode, rfl, hbox⟩ := attrVia_yields h
  -- Making the box calls nothing.
  have hsilent : Block.calls box = [] := by
    rcases hbox with ⟨-, rfl⟩ | ⟨why, hbox⟩
    · exact Block.calls_nil
    · exact ((unboxed_yields hbox).silent hs).2
  rw [Block.calls_append, hsilent, List.nil_append] at hc
  exact ⟨inner, ho, byKind_calls (ho.silent hs) hcode hc⟩

end Conversion
end Shapewright
