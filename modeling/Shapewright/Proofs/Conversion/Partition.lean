import Shapewright.Proofs.Conversion.Stores
import Shapewright.Proofs.Assignments
import Shapewright.Proofs.FieldUses
import Shapewright.Proofs.Layout

/-!
# Every field is stored once

An object is allocated with a literal, and pieces of code for its fields follow. Each field that
both objects declare is in the literal or has one piece that assigns it, and no piece touches
another field (`object_storesOnce`). One kind of field has a piece that assigns nothing: a switch
between unions without alternatives has nothing to store (`StoresNothing`, `gap_left_out`).

## What is shown of every emitter

Two things are shown of every emitter, and then of all levels: it assigns its place unless there is
nothing to store (`StoresPlaces`), and of the variable that the place is in it assigns nothing else
(`KeepsToPlaces`). The second is about variables, not names: nested code that declares a variable of
the same name stores in that one.

The two are proved apart, because they ask for different things. The first is an equivalence, and it
is asked of sites whose place is there already: a place that is declared is not assigned. The second
holds of every site, and it needs no case for what is stored, only for where.

## From code to fields

The code of an object comes in one list, and where the code of a field begins and ends cannot be
seen in it. So the list is cut into pieces, each with the field that it is for and the reason why it
is there (`Piece`). A field that has a default can have two of them: one that converts the value and
one that stores the default.
-/

namespace Shapewright

namespace Site

variable {s t : Site} {b : Block}

/-- Of any variable, as long as its name is not declared anew, the code of a site assigns only the
    place of the site and parts of it. Where the site declares its place, it is no part of what was
    there before. -/
structure Contains (s : Site) (b : Block) : Prop where
  parts : ∀ x, ∀ q ∈ b.sets x, q.root? = some x → s.place.Part q
  declared : ∀ x, s.declare = true → s.place.root? = some x → b.sets x = []

/-- What a site that declares its place assigns is none of the variables around it. -/
theorem Contains.root?_ne (h : t.Contains b) (hd : t.declare = true) {x : String} {e : Expr}
    (he : e ∈ b.sets x) : e.root? ≠ some x := by
  intro hx
  have hroot : t.place.root? = some x := (h.parts x e he hx).root?.symm.trans hx
  rw [h.declared x hd hroot] at he
  exact List.not_mem_nil he

/-- A store assigns the place, or declares it, and what is assigned behind it is a matter of the
    rest. -/
theorem sets_store {x : String} {e value : Expr} {rest : Block} :
    e ∈ Block.sets x (s.store value :: rest) ↔
      (s.declare = false ∧ e = s.place) ∨ (x ∉ s.introduces ∧ e ∈ rest.sets x) := by
  rw [Block.mem_sets_cons, Site.store_declares]
  refine or_congr ?_ Iff.rfl
  rw [Site.store]
  -- -- A place that is declared with the store is a variable, and hides what stood there before.
  cases s.declare with
  | false =>
    rw [Stmt.sets]
    simp
  | true =>
    rw [Stmt.sets_define]
    simp

/-- The code stores something first. What follows has to keep to parts of the place. The store
    itself assigns the place as a whole, which is part of itself. -/
theorem Contains.of_store {value : Expr} {rest : Block}
    (h : ∀ x, ∀ q ∈ rest.sets x, q.root? = some x → s.place.Part q) :
    s.Contains (s.store value :: rest) where
  parts x q hq hx := by
    rcases sets_store.mp hq with ⟨-, rfl⟩ | ⟨-, hq⟩
    · exact .self
    · exact h x q hq hx
  declared x hd hroot := by
    refine List.eq_nil_iff_forall_not_mem.mpr fun q hq => ?_
    rcases sets_store.mp hq with ⟨hn, -⟩ | ⟨hn, -⟩
    · cases hd.symm.trans hn
    · refine hn ?_
      rw [Site.introduces, if_pos hd]
      exact Expr.mem_vars_of_root? hroot

end Site

namespace Conversion

variable {c : Conversion} {emit : Emit} {s t : Site} {b : Block} {p q : Pair} {f : FieldSite}

/-! ## Conversions that store nothing -/

/-- The conversion of the nested pair stores nothing: it is in place and switches between unions,
    and so does the code of every alternative. Without alternatives that is so at once. An
    alternative is a named object, which a box of the source can be. -/
inductive StoresNothing (c : Conversion) : Pair → Prop where
  | intro {p q : Pair} {u v : UnionType} (hcalls : (c.callsHelper p.1 p.2).Yields false)
      (hopen : (c.reconcile p.1 p.2).Yields q) (hbox : q = p ∨ c.wire = .source)
      (hunions : c.unions q.1 q.2 = .ok (u, v))
      (hnamed : ∀ a ∈ (u.2.map Prod.snd).zip (v.2.map Prod.snd),
        c.scope.isNamedObject a.1 = .ok true)
      (halternatives : ∀ a ∈ (u.2.map Prod.snd).zip (v.2.map Prod.snd), StoresNothing c a) :
      StoresNothing c p

/-- The emitter assigns the place of a site that is there already, unless the conversion stores
    nothing. -/
def StoresPlaces (c : Conversion) (emit : Emit) : Prop :=
  ∀ {t : Site} {b : Block}, t.declare = false → (c.callsHelper t.source t.target).Yields false →
    (emit t).Yields b → (b.Assigns t.place ↔ ¬ c.StoresNothing t.pair)

theorem assigns_store {e : Expr} {rest : Block} (hd : s.declare = false) :
    Block.Assigns s.place (s.store e :: rest) := by
  rw [Site.store, hd]
  exact Block.assigns_set

/-- A primitive is stored, even if it comes in a box. -/
theorem not_storesNothing_of_isPrimitive (h : c.registry.isPrimitive p.1 = .ok true) :
    ¬ c.StoresNothing p := by
  rintro ⟨-, hopen, -, hunions, -, -⟩
  have hk := Registry.kind_of_union (unions_eq_ok.mp hunions).1
  rw [reconcile_source h hopen] at hk
  rw [Registry.isPrimitive_of_kind hk] at h
  cases h

section

variable (he : c.StoresPlaces emit)
include he

/-- Nested code, in place or by a call, assigns the place under the same condition as the
    emitter. -/
theorem nested_assigns (hd : t.declare = false) (h : (c.nested emit t).Yields b) :
    b.Assigns t.place ↔ ¬ c.StoresNothing t.pair := by
  rcases nested_yields.mp h with ⟨hcalls, name, -, rfl⟩ | ⟨hcalls, h⟩
  · refine iff_of_true (assigns_store hd) ?_
    rintro ⟨hnone, -, -, -, -, -⟩
    cases hcalls.unique hnone
  · exact he hd hcalls h

/-- Behind a check for nil, the code of a structured field assigns what it would assign without
    one. -/
theorem structuredField_assigns {depth : Nat} (h : (c.structuredField emit depth f).Yields b) :
    b.Assigns f.place ↔ ¬ c.StoresNothing (f.source, f.target) := by
  obtain ⟨code, hcode, rfl⟩ := structuredField_yields.mp h
  have hassigns : code.Assigns f.place ↔ ¬ c.StoresNothing (f.source, f.target) :=
    nested_assigns he (t := f.site depth) rfl hcode
  split
  · exact hassigns
  · exact Block.assigns_when.trans hassigns

/-- The case of an alternative assigns the place, unless it passes on a named object whose
    conversion stores nothing. -/
theorem alternative_assigns {v : UnionType} {index : Nat} {x y : Attribute}
    (h : (c.alternative emit s v index x y).Yields b) :
    b.Assigns s.place ↔ ¬ (c.scope.isNamedObject x = .ok true ∧ c.StoresNothing (x, y)) := by
  rcases alternative_yields.mp h with
    ⟨hn, hcode⟩ | ⟨hn, wrapper, -, ⟨-, -, rfl⟩ | ⟨-, code, -, rfl⟩⟩
  · have hnested := nested_assigns he (t := s.alternative x y) rfl hcode
    rw [not_and]
    exact hnested.trans ⟨fun h _ => h, fun h => h hn⟩
  · exact iff_of_true Block.assigns_set fun h => by cases hn.symm.trans h.1
  · refine iff_of_true (Block.assigns_append.mpr (Or.inr Block.assigns_set)) ?_
    exact fun h => by cases hn.symm.trans h.1

/-- A switch assigns the place if and only if one of its cases does. A case for a named object with
    nothing to store is the exception, and a switch without alternatives has no cases at all. -/
theorem union_assigns (hd : s.declare = false) {u v : UnionType}
    (hu : c.unions s.source s.target = .ok (u, v)) (h : (c.union emit s).Yields b) :
    b.Assigns s.place ↔ ∃ a ∈ (u.2.map Prod.snd).zip (v.2.map Prod.snd),
      ¬ (c.scope.isNamedObject a.1 = .ok true ∧ c.StoresNothing a) := by
  obtain ⟨u', v', declared, cases, hu', hdeclared, hcases, rfl⟩ := union_yields h
  obtain ⟨rfl, rfl⟩ := Prod.mk.inj (Except.ok.inj (hu.symm.trans hu'))
  obtain rfl : [] = declared := by simpa [declaration, hd] using hdeclared
  have hcases := cases_yields hcases
  rw [List.nil_append, Block.assigns_typeSwitch]
  constructor
  · rintro ⟨x, hx, hassigns⟩
    obtain ⟨a, ha, index, hcode⟩ := forall₂_mem_right hcases hx
    exact ⟨a, ha, (alternative_assigns he hcode).mp hassigns⟩
  · rintro ⟨a, ha, hstores⟩
    obtain ⟨x, hx, index, hcode⟩ := forall₂_mem_left hcases ha
    exact ⟨x, hx, (alternative_assigns he hcode).mpr hstores⟩

/-- There are unions on both sides, and none of their alternatives stores anything. With no
    alternatives at all this holds of itself, which is the case that can really be met. -/
def BarrenUnions (c : Conversion) (q : Pair) : Prop :=
  ∃ u v, c.unions q.1 q.2 = .ok (u, v) ∧ ∀ a ∈ (u.2.map Prod.snd).zip (v.2.map Prod.snd),
    c.scope.isNamedObject a.1 = .ok true ∧ c.StoresNothing a

/-- Without boxes, the place is assigned unless the conversion is a switch without effect. All other
    kinds of values begin with a store. -/
theorem byKind_assigns (hd : s.declare = false) (h : (c.byKind emit s).Yields b) :
    b.Assigns s.place ↔ ¬ c.BarrenUnions s.pair := by
  -- Unless there are unions on both sides, the first statement stores something.
  have stored : ∀ {e : Expr} {rest : Block},
      (c.registry.kind s.source ≠ .ok .union ∨ c.registry.kind s.target ≠ .ok .union) →
        (Block.Assigns s.place (s.store e :: rest) ↔ ¬ c.BarrenUnions s.pair) := by
    refine fun hk => iff_of_true (assigns_store hd) ?_
    rintro ⟨u, v, hunions, -⟩
    obtain ⟨hu, hv, -⟩ := unions_eq_ok.mp hunions
    exact hk.elim (· (Registry.kind_of_union hu)) (· (Registry.kind_of_union hv))
  obtain ⟨kind, target, hk, ht, ⟨rfl, -, rfl⟩ | ⟨-, h⟩⟩ := byKind_yields.mp h
  · exact stored (Or.inr (by simp [ht]))
  · cases kind with
    | array =>
      obtain ⟨_, _, _, _, -, -, -, -, rfl⟩ := array_yields.mp h
      exact stored (Or.inl (by simp [hk]))
    | map =>
      obtain ⟨_, _, _, _, _, _, _, _, -, -, -, -, -, -, rfl⟩ := map_yields.mp h
      exact stored (Or.inl (by simp [hk]))
    | object =>
      obtain ⟨_, _, _, _, _, _, -, -, -, -, -, -, rfl⟩ := object_yields h
      exact stored (Or.inl (by simp [hk]))
    | primitive _ =>
      unfold ofKind primitive at h
      simp only [Walk.yields_bind, Walk.yields_liftM, Walk.yields_pure] at h
      obtain ⟨_, -, rfl⟩ := h
      exact stored (Or.inl (by simp [hk]))
    | union =>
      obtain ⟨u, v, declared, cases, hunions, -⟩ := union_yields h
      rw [union_assigns he hd hunions h]
      constructor
      · rintro ⟨a, ha, hstores⟩ ⟨u', v', hunions', hall⟩
        obtain ⟨rfl, rfl⟩ := Prod.mk.inj (Except.ok.inj (hunions.symm.trans hunions'))
        exact hstores (hall a ha)
      · intro hsome
        by_contra hnone
        push Not at hnone
        exact hsome ⟨u, v, hunions, hnone⟩

/-- One level more, with the boxes that are opened: the property of the emitter is passed on. The
    content of a box is a field of what the place holds, so to assign the content is to assign
    within the place. -/
theorem attrVia_storesPlaces : c.StoresPlaces (c.attrVia emit) := by
  intro t b hd hcalls h
  obtain ⟨inner, box, code, ho, hcode, rfl, hbox⟩ := attrVia_yields h
  have hstores : c.StoresNothing t.pair ↔
      (inner.pair = t.pair ∨ c.wire = .source) ∧ c.BarrenUnions inner.pair := by
    constructor
    · rintro ⟨-, hopen, hbox, hunions, hnamed, hall⟩
      obtain rfl := hopen.unique ho.reconcile
      exact ⟨hbox, _, _, hunions, fun a ha => ⟨hnamed a ha, hall a ha⟩⟩
    · rintro ⟨hbox, u, v, hunions, hall⟩
      exact .intro hcalls ho.reconcile hbox hunions (fun a ha => (hall a ha).1)
        fun a ha => (hall a ha).2
  rw [hstores, not_and]
  rcases hbox with ⟨rfl, rfl⟩ | ⟨why, hbox⟩
  · exact (byKind_assigns he hd hcode).trans ⟨fun h _ => h, fun h => h (Or.inl rfl)⟩
  · have hopened := openBox?_eq_some (p := t.pair) (unboxed_yields hbox).opened
    cases unboxed_yields hbox with
    | @source content =>
      have hwire : (content, t.target) = t.pair ∨ c.wire = .source :=
        hopened.imp (fun h => Prod.ext h.2.1 rfl) (·.1)
      have hinner := byKind_assigns he (s := { t with source := content, value := _ }) hd hcode
      exact hinner.trans ⟨fun h _ => h, fun h => h hwire⟩
    | @target content type =>
      -- The box is stored, and a pair that needs a box is another one with the box opened.
      refine iff_of_true (assigns_store hd) fun hsame => ?_
      have hpair : (t.source, content) = t.pair :=
        hsame.elim id fun hwire => hopened.elim (fun h => by cases hwire.symm.trans h.1)
          fun h => Prod.ext rfl h.2.1
      obtain ⟨-, rfl⟩ := Prod.mk.inj hpair
      have heq : t.place.field boxFieldName = t.place :=
        congrArg Site.place (ho.eq_of_compatible ho.compatible)
      have hsize := congrArg sizeOf heq
      rw [Expr.field.sizeOf_spec] at hsize
      omega

end

theorem attrWithin_storesPlaces (c : Conversion) : ∀ levels, c.StoresPlaces (c.attrWithin levels)
  | 0 => fun _ _ h => absurd h Walk.yields_exhausted
  | levels + 1 => attrVia_storesPlaces (attrWithin_storesPlaces c levels)

/-! ## Code assigns parts of its place -/

/-- The emitter keeps to the places of sites. What an emitter stores outside of the place of its
    site would be in the way of another field. -/
def KeepsToPlaces (emit : Emit) : Prop :=
  ∀ {t : Site} {b : Block}, (emit t).Yields b → t.Contains b

section

variable (he : KeepsToPlaces emit)
include he

theorem nested_contained (h : (c.nested emit t).Yields b) : t.Contains b := by
  rcases nested_yields.mp h with ⟨-, name, -, rfl⟩ | ⟨-, h⟩
  · exact .of_store fun x q hq => by simp at hq
  · exact he h

/-- The elements of an array are stored in the place, by an index, and what they are converted with
    is declared inside the loop. -/
theorem array_contained (h : (c.array emit s).Yields b) : s.Contains b := by
  obtain ⟨x, y, type, body, -, -, -, hb, rfl⟩ := array_yields.mp h
  refine .of_store fun n q hq hn => ?_
  rw [Block.mem_sets_cons, Stmt.mem_sets_range, Block.sets_nil] at hq
  rcases hq with ⟨-, hq⟩ | ⟨-, hq⟩
  · exact (Expr.Part.self.index _).trans ((nested_contained he hb).parts n q hq hn)
  · exact absurd hq List.not_mem_nil

/-- The key and the element of a map are converted to variables of the loop, and then stored as one
    pair. -/
theorem map_contained (h : (c.map emit s).Yields b) : s.Contains b := by
  obtain ⟨k, x, l, y, keyType, elemType, keyCode, elemCode, -, -, -, -, hk, hv, rfl⟩ :=
    map_yields.mp h
  refine .of_store fun n q hq hn => ?_
  rw [Block.mem_sets_cons, Stmt.mem_sets_range, Block.sets_nil, Block.mem_sets_append,
    Block.mem_sets_append, Block.mem_sets_cons, Stmt.sets_set, Block.sets_nil] at hq
  rcases hq with ⟨-, (hq | ⟨-, hq⟩) | ⟨-, hq | ⟨-, hq⟩⟩⟩ | ⟨-, hq⟩
  · exact absurd hn ((nested_contained he hk).root?_ne rfl hq)
  · exact absurd hn ((nested_contained he hv).root?_ne rfl hq)
  · rw [List.mem_singleton.mp hq]
    exact .index .self _
  · exact absurd hq List.not_mem_nil
  · exact absurd hq List.not_mem_nil

/-- A case of a switch assigns the place at most, and the variables that it declares for itself. An
    assignment to `conv` does not count there, since the block of the case declares it. -/
theorem alternative_contained {v : UnionType} {index : Nat} {x y : Attribute}
    (h : (c.alternative emit s v index x y).Yields b) :
    ∀ n, ∀ q ∈ b.sets n, q.root? = some n → s.place.Part q := by
  have wrapped : ∀ {n : String} {q value : Expr}, q ∈ Block.sets n [.set s.place value] →
      s.place.Part q := by
    intro n q value hq
    rw [Block.mem_sets_cons, Stmt.sets_set, Block.sets_nil, List.mem_singleton] at hq
    rcases hq with rfl | ⟨-, hq⟩
    · exact .self
    · exact absurd hq List.not_mem_nil
  intro n q hq hn
  rcases alternative_yields.mp h with
    ⟨-, hcode⟩ | ⟨-, wrapper, -, ⟨-, -, rfl⟩ | ⟨-, code, hcode, rfl⟩⟩
  · exact (nested_contained he hcode).parts n q hq hn
  · exact wrapped hq
  · rcases Block.mem_sets_append.mp hq with hq | ⟨-, hq⟩
    · exact absurd hn ((he hcode).root?_ne rfl hq)
    · exact wrapped hq

theorem union_contained (h : (c.union emit s).Yields b) : s.Contains b := by
  obtain ⟨u, v, declared, cases, -, hd, hcases, rfl⟩ := union_yields h
  have hnone : ∀ n, Block.sets n declared = [] := by
    intro n
    unfold declaration at hd
    split at hd
    · split at hd
      · simp only [Walk.yields_bind, Walk.yields_liftM, Walk.yields_pure] at hd
        obtain ⟨type, -, rfl⟩ := hd
        simp [List.eq_nil_iff_forall_not_mem]
      · simp at hd
    · rw [Walk.yields_pure] at hd
      rw [← hd, Block.sets_nil]
  constructor
  case parts =>
    intro n q hq hn
    rw [Block.mem_sets_append, hnone, Block.mem_sets_cons, Stmt.mem_sets_typeSwitch,
      Block.sets_nil] at hq
    rcases hq with hq | ⟨-, ⟨-, x, hx, hq⟩ | ⟨-, hq⟩⟩
    · exact absurd hq List.not_mem_nil
    · obtain ⟨⟨a, d⟩, -, index, hb⟩ := forall₂_mem_right (cases_yields hcases) hx
      exact alternative_contained he hb n q hq hn
    · exact absurd hq List.not_mem_nil
  -- Once the place is declared by the code itself, nothing that a case assigns is of an outer
  -- variable.
  case declared =>
    intro n hdeclare hroot
    refine List.eq_nil_iff_forall_not_mem.mpr fun q hq => ?_
    rw [Block.mem_sets_append, hnone] at hq
    rcases hq with hq | ⟨hq, -⟩
    · exact absurd hq List.not_mem_nil
    · rw [declaration_declares hd, Site.introduces, if_pos hdeclare] at hq
      exact hq (Expr.mem_vars_of_root? hroot)

end

/-! ## Fields -/

theorem storeConverted_stores (f : FieldSite) (taken : List String) (e : Expr) :
    (storeConverted f taken e).Assigns f.place ∧
      ∀ x, ∀ q ∈ (storeConverted f taken e).sets x, q = f.place := by
  unfold storeConverted
  split
  · refine ⟨(Block.assigns_append (a := [_])).mpr (Or.inr Block.assigns_set), fun x q hq => ?_⟩
    simp only [Block.mem_sets_cons, Stmt.sets_define, Stmt.sets_set, Block.sets_nil,
      List.not_mem_nil, List.mem_singleton, false_or, and_false, or_false] at hq
    exact hq.2
  · exact ⟨Block.assigns_set, fun x q hq => by simpa using hq⟩

/-- A primitive field is in the literal, or it is stored behind it. Both at once do not happen,
    which is one half of a field being stored once. -/
theorem primitiveFieldCode_stores (f : FieldSite) (taken : List String) (result : Option Expr) :
    ((∃ e, (primitiveFieldCode f taken result).literal = [(f.placeName, e)]) ∧
        (primitiveFieldCode f taken result).after = []) ∨
      ((primitiveFieldCode f taken result).literal = [] ∧
        (primitiveFieldCode f taken result).after.Assigns f.place ∧
        ∀ x, ∀ q ∈ (primitiveFieldCode f taken result).after.sets x, q = f.place) := by
  have stored : ∀ {e : Expr}, Block.Assigns f.place [f.ifPresent [.set f.place e]] ∧
      ∀ x, ∀ q ∈ Block.sets x [f.ifPresent [.set f.place e]], q = f.place :=
    ⟨Block.assigns_when.mpr Block.assigns_set,
      fun x q hq => by simpa [FieldSite.ifPresent] using hq⟩
  unfold primitiveFieldCode
  -- With a converted value, and without: each way stores in the literal or behind it, never in
  -- both.
  cases result with
  | some e =>
    dsimp only
    split
    · exact Or.inl ⟨⟨e, rfl⟩, rfl⟩
    · obtain ⟨hassigns, hsets⟩ := storeConverted_stores f taken e
      refine Or.inr ⟨rfl, ?_⟩
      dsimp only
      split
      · refine ⟨Block.assigns_when.mpr hassigns, fun x q hq => hsets x q ?_⟩
        simpa [FieldSite.ifPresent] using hq
      · exact ⟨hassigns, hsets⟩
  | none =>
    dsimp only
    split
    · split
      · exact Or.inl ⟨⟨_, rfl⟩, rfl⟩
      · exact Or.inr ⟨rfl, stored⟩
    · split <;> exact Or.inl ⟨⟨_, rfl⟩, rfl⟩

/-- The code of a default assigns the field that it is for, and a variable of its own for the
    value. -/
theorem laterDefault_sets (h : c.laterDefault f = .ok b) : ∀ x, ∀ q ∈ b.sets x, q = f.place := by
  intro x q hq
  unfold laterDefault at h
  split at h
  · cases defaultField_shape h with
    | idle => simp at hq
    | stored _ _ type => simpa using hq
    | held _ _ type =>
      simp only [Block.mem_sets_cons, Stmt.sets_when, Stmt.sets_declare, Stmt.sets_set,
        Block.sets_nil, List.not_mem_nil, List.mem_singleton, false_or, and_false, or_false] at hq
      exact hq.2
    | zero _ _ type =>
      simp only [Block.mem_sets_cons, Stmt.sets_block, Stmt.sets_when, Stmt.sets_declare,
        Stmt.sets_set, Block.sets_nil, List.not_mem_nil, List.mem_singleton, false_or, and_false,
        or_false] at hq
      exact hq.2
  · cases h
    simp at hq

section

variable (he : KeepsToPlaces emit)
include he

/-- The code of a structured field keeps to the field. -/
theorem structuredField_sets {depth : Nat} (h : (c.structuredField emit depth f).Yields b) :
    ∀ x, ∀ q ∈ b.sets x, q.root? = some x → f.place.Part q := by
  intro x q hq hx
  obtain ⟨code, hcode, rfl⟩ := structuredField_yields.mp h
  refine (nested_contained he hcode).parts x q ?_ hx
  split at hq
  · exact hq
  · simpa [FieldSite.ifPresent] using hq

/-- What is converted behind the literal keeps to its field, if anything is converted there. -/
theorem laterValue_sets {depth : Nat} (h : (c.laterValue emit depth f).Yields b) :
    ∀ x, ∀ q ∈ b.sets x, q.root? = some x → f.place.Part q := by
  unfold laterValue at h
  split at h
  · rw [Walk.yields_pure] at h
    simp [← h]
  · exact structuredField_sets he h

/-- The code of an object keeps to the object: what its fields assign are parts of the fields, and
    these are parts of the object. -/
theorem object_contained (h : (c.object emit s).Yields b) : s.Contains b := by
  obtain ⟨v, w, fields, code, type, later, hv, hw, hfields, hcode, -, hlater, rfl⟩ :=
    object_yields h
  obtain ⟨codes, -, hafter, hcodes⟩ := primitiveFields_parts hcode
  obtain ⟨parts, rfl, hparts⟩ := laterFields_yields hlater
  have hplace : ∀ f ∈ fields, s.place.Part f.place := by
    intro f hf
    obtain ⟨m, -, hm⟩ := forall₂_mem_right hfields hf
    rw [(fieldSite_describes hm).place]
    exact .field .self _
  refine .of_store fun x q hq hx => ?_
  rw [hafter, Block.mem_sets_append] at hq
  -- Behind the literal stand statements of primitive fields, and after them those of the other
  -- fields and the defaults.
  rcases hq with hq | ⟨-, hq⟩
  · obtain ⟨part, hpart, hq⟩ := Block.exists_mem_sets_flatMap hq
    obtain ⟨f, hf, result, -, rfl⟩ := forall₂_mem_right hcodes hpart
    rcases primitiveFieldCode_stores f _ result with ⟨-, hnone⟩ | ⟨-, -, hsets⟩
    · rw [hnone, Block.sets_nil] at hq
      exact absurd hq List.not_mem_nil
    · exact hsets x q hq ▸ hplace f (List.mem_of_mem_filter hf)
  · obtain ⟨part, hpart, hq⟩ := Block.exists_mem_sets_flatMap hq
    obtain ⟨f, hf, hvalue, hdefault⟩ := forall₂_mem_right hparts hpart
    rcases Block.mem_sets_append.mp hq with hq | ⟨-, hq⟩
    · exact (hplace f hf).trans (laterValue_sets he hvalue x q hq hx)
    · exact laterDefault_sets hdefault x q hq ▸ hplace f hf

/-- The code of every kind of value keeps to the place. This needs the emitter for what is inside to
    do so as well, which is the hypothesis of the section. -/
theorem byKind_contained (h : (c.byKind emit s).Yields b) : s.Contains b := by
  have stored : ∀ {e : Expr}, s.Contains [s.store e] := .of_store fun x q hq => by simp at hq
  obtain ⟨kind, target, -, -, ⟨-, -, rfl⟩ | ⟨-, h⟩⟩ := byKind_yields.mp h
  · exact stored
  -- -- A primitive is stored at once; every other kind has a lemma of its own above.
  · cases kind with
    | array => exact array_contained he h
    | map => exact map_contained he h
    | object => exact object_contained he h
    | union => exact union_contained he h
    | primitive _ =>
      unfold ofKind primitive at h
      simp only [Walk.yields_bind, Walk.yields_liftM, Walk.yields_pure] at h
      obtain ⟨_, -, rfl⟩ := h
      exact stored

/-- One level more, with the boxes that are opened. The content of a box is a part of the box. -/
theorem attrVia_keepsToPlaces : KeepsToPlaces (c.attrVia emit) := by
  intro t b h
  obtain ⟨inner, box, code, -, hcode, rfl, ⟨rfl, rfl⟩ | ⟨why, hbox⟩⟩ := attrVia_yields h
  · exact byKind_contained he hcode
  · have hinner := byKind_contained he hcode
    cases unboxed_yields hbox with
    | source => exact ⟨hinner.parts, hinner.declared⟩
    | target type =>
      exact .of_store fun x q hq hx => (Expr.Part.self.field _).trans (hinner.parts x q hq hx)

end

/-- What the levels preserve: all that is assigned of a variable is part of the place. -/
theorem attrWithin_keepsToPlaces (c : Conversion) : ∀ levels, KeepsToPlaces (c.attrWithin levels)
  | 0 => fun h => absurd h Walk.yields_exhausted
  | levels + 1 => attrVia_keepsToPlaces (attrWithin_keepsToPlaces c levels)

/-! ## The fields of an object -/

/-- What a piece of the code behind the allocation of an object is for. -/
inductive Purpose where
  | conversion
  | default
deriving DecidableEq

/-- A piece of the code behind the allocation of an object. The code is the pieces one after
    another, and a piece may be empty. -/
structure Piece where
  purpose : Purpose
  /-- The field that the piece is about. -/
  field : FieldMatch
  code : Block

/-- The fields that pieces convert. -/
def Piece.converted (pieces : List Piece) : List FieldMatch :=
  (pieces.filter (·.purpose = .conversion)).map (·.field)

theorem Piece.converted_append (a b : List Piece) :
    converted (a ++ b) = converted a ++ converted b := by
  rw [converted, List.filter_append, List.map_append, converted, converted]

/-- The allocation with its literal, and the pieces behind it, store every field that both objects
    declare once. -/
structure StoresOnce (c : Conversion) (s : Site) (v w : ObjectView)
    (literal : List (String × Expr)) (pieces : List Piece) : Prop where
  /-- A field is in the literal or converted behind it. -/
  partition :
    (literal.map Prod.fst ++ (Piece.converted pieces).map fun m => w.fieldName m.name).Perm
      ((matchFields v w).map fun m => w.fieldName m.name)
  /-- Different fields have different names. -/
  nodup : ((matchFields v w).map fun m => w.fieldName m.name).Nodup
  matched : ∀ p ∈ pieces, p.field ∈ matchFields v w
  /-- What converts a field assigns it, unless there is nothing to store. -/
  stored : ∀ p ∈ pieces, p.purpose = .conversion →
    (p.code.Assigns (s.place.field (w.fieldName p.field.name)) ↔
      ¬ c.StoresNothing (p.field.source, p.field.target))
  /-- No piece assigns anything else of the variable that the object is in. -/
  contained : ∀ p ∈ pieces, ∀ x, s.place.root? = some x → ∀ q ∈ p.code.sets x, q.root? = some x →
    (s.place.field (w.fieldName p.field.name)).Part q
  /-- A piece that is for a default puts in the one that the target declares. -/
  defaults : ∀ p ∈ pieces, p.purpose = .default → ∃ f value, f.fieldMatch = p.field ∧
    c.FieldAt s f ∧ p.field.target.default = some value ∧ c.DefaultCode f value p.code

/-- The piece is for the field: it converts the value of a primitive or of a structured field, or it
    stores the default that is declared for it. -/
inductive PieceFor (c : Conversion) (emit : Emit) (depth : Nat) (f : FieldSite) : Piece → Prop where
  | primitive {code : Block} (hp : f.isPrimitive = true) (hassigns : code.Assigns f.place)
      (hsets : ∀ x, ∀ q ∈ code.sets x, q = f.place) :
      PieceFor c emit depth f ⟨.conversion, f.fieldMatch, code⟩
  | structured {code : Block} (hcode : (c.structuredField emit depth f).Yields code) :
      PieceFor c emit depth f ⟨.conversion, f.fieldMatch, code⟩
  | default {code : Block} {value : Literal} (hvalue : f.target.default = some value)
      (hcode : c.defaultField f value = .ok code) :
      PieceFor c emit depth f ⟨.default, f.fieldMatch, code⟩

section Pieces

variable {depth : Nat} {x : Piece} {fields : List FieldSite}

theorem PieceFor.field (h : c.PieceFor emit depth f x) : x.field = f.fieldMatch := by
  cases h <;> rfl

/-- All that a piece assigns of a variable around it is part of the field that the piece is for.
    Pieces of different fields therefore do not touch, as fields have different names. -/
theorem PieceFor.contained (he : KeepsToPlaces emit) (h : c.PieceFor emit depth f x) :
    ∀ n, ∀ q ∈ x.code.sets n, q.root? = some n → f.place.Part q := by
  intro n q hq hn
  cases h with
  | primitive _ _ hsets => exact hsets n q hq ▸ .self
  | structured hcode => exact structuredField_sets he hcode n q hq hn
  | @default _ value hvalue hcode =>
    have hlater : c.laterDefault f = c.defaultField f value := by
      rw [laterDefault, hvalue]
    exact laterDefault_sets (hlater.trans hcode) n q hq ▸ .self

/-- A piece for a default comes with the default that the target declares. -/
theorem PieceFor.injects (h : c.PieceFor emit depth f x) (hx : x.purpose = .default) :
    ∃ value, f.target.default = some value ∧ c.DefaultCode f value x.code := by
  cases h with
  | default hvalue hcode => exact ⟨_, hvalue, defaultField_shape hcode⟩
  | primitive => cases hx
  | structured => cases hx

/-- A piece for a conversion assigns its field, unless the conversion stores nothing. A primitive is
    always stored. -/
theorem PieceFor.stored (he : c.StoresPlaces emit) (h : c.PieceFor emit depth f x)
    (hf : c.registry.isPrimitive f.source = .ok f.sourcePrimitive) (hx : x.purpose = .conversion) :
    x.code.Assigns f.place ↔ ¬ c.StoresNothing (f.source, f.target) := by
  cases h with
  | primitive hp hassigns =>
    have hprimitive : f.sourcePrimitive = true := (Bool.and_eq_true_iff.mp hp).1
    exact iff_of_true hassigns (not_storesNothing_of_isPrimitive (hprimitive ▸ hf))
  | structured hcode => exact structuredField_assigns he hcode
  | default => cases hx

/-- Each primitive field is in the literal, or a piece is for it. So the literal and the pieces
    together name every field once, in some order, which is what the permutation says. -/
theorem primitives_pieces (emit : Emit) (depth : Nat) {taken : List String}
    {codes : List ObjectCode} {w : ObjectView}
    (h : List.Forall₂ (fun f part => ∃ result,
      c.converted? f.source f.target f.sourcePointer f.value = .ok result ∧
        part = primitiveFieldCode f taken result) fields codes)
    (hname : ∀ f ∈ fields, f.isPrimitive = true ∧ f.placeName = w.fieldName f.name) :
    ∃ pieces : List Piece, codes.flatMap (·.after) = pieces.flatMap (·.code) ∧
      ((codes.flatMap (·.literal)).map Prod.fst ++
        (Piece.converted pieces).map fun m => w.fieldName m.name).Perm (fields.map (·.placeName)) ∧
      ∀ x ∈ pieces, ∃ f ∈ fields, c.PieceFor emit depth f x := by
  induction h with
  | nil => exact ⟨[], rfl, .nil, by simp⟩
  | @cons f part fields codes hpart _ ih =>
    rw [List.forall_mem_cons] at hname
    obtain ⟨⟨hp, hplace⟩, hname⟩ := hname
    obtain ⟨pieces, hcode, hperm, hpieces⟩ := ih hname
    obtain ⟨result, -, rfl⟩ := hpart
    simp only [List.flatMap_cons, List.map_append, List.map_cons]
    -- Pieces stand behind the literal, so the names of the two lists together are a permutation of
    -- the fields' names, not the same list.
    rcases primitiveFieldCode_stores f taken result with
      ⟨⟨e, hliteral⟩, hafter⟩ | ⟨hliteral, hassigns, hsets⟩
    · refine ⟨pieces, by rw [hafter, List.nil_append, hcode], ?_,
        fun x hx => List.exists_mem_cons_of_exists (hpieces x hx)⟩
      rw [hliteral]
      exact hperm.cons f.placeName
    · refine ⟨⟨.conversion, f.fieldMatch, _⟩ :: pieces, by rw [hcode, List.flatMap_cons], ?_,
        List.forall_mem_cons.mpr ⟨⟨f, List.mem_cons_self, .primitive hp hassigns hsets⟩,
          fun x hx => List.exists_mem_cons_of_exists (hpieces x hx)⟩⟩
      rw [hliteral, hplace]
      exact List.perm_middle.trans (hperm.cons _)

/-- A piece is for the value, if the field is not primitive. For a primitive there is no piece, as
    the first round over the fields has dealt with it. -/
theorem laterValue_pieces {f : FieldSite} {value : Block}
    (h : (c.laterValue emit depth f).Yields value) :
    ∃ pieces : List Piece, value = pieces.flatMap (·.code) ∧
      Piece.converted pieces = ([f].filter (!·.isPrimitive)).map (·.fieldMatch) ∧
      ∀ x ∈ pieces, c.PieceFor emit depth f x := by
  unfold laterValue at h
  split at h
  · rename_i hp
    rw [Walk.yields_pure] at h
    exact ⟨[], h.symm, by simp [Piece.converted, hp], by simp⟩
  · rename_i hp
    exact ⟨[⟨.conversion, f.fieldMatch, value⟩], by simp, by simp [Piece.converted, hp],
      List.forall_mem_singleton.mpr (.structured h)⟩

/-- A piece is for the default, if one is declared. It converts nothing, so it does not count among
    the fields that are converted, though it may assign one. -/
theorem laterDefault_pieces {f : FieldSite} {default : Block} (h : c.laterDefault f = .ok default) :
    ∃ pieces : List Piece, default = pieces.flatMap (·.code) ∧ Piece.converted pieces = [] ∧
      ∀ x ∈ pieces, c.PieceFor emit depth f x := by
  unfold laterDefault at h
  split at h
  · rename_i literal hliteral
    exact ⟨[⟨.default, f.fieldMatch, default⟩], by simp, by simp [Piece.converted],
      List.forall_mem_singleton.mpr (.default hliteral h)⟩
  · cases h
    exact ⟨[], rfl, rfl, by simp⟩

/-- A piece is for each field that is not primitive, and one for each default that is declared. By
    induction on the fields, with `laterValue_pieces` and `laterDefault_pieces` for each of them. -/
theorem later_pieces {parts : List (Block × Block)}
    (h : List.Forall₂ (fun f x => (c.laterValue emit depth f).Yields x.1 ∧
      c.laterDefault f = .ok x.2) fields parts) :
    ∃ pieces : List Piece, parts.flatMap (fun x => x.1 ++ x.2) = pieces.flatMap (·.code) ∧
      Piece.converted pieces = (fields.filter (!·.isPrimitive)).map (·.fieldMatch) ∧
      ∀ x ∈ pieces, ∃ f ∈ fields, c.PieceFor emit depth f x := by
  induction h with
  | nil => exact ⟨[], rfl, rfl, by simp⟩
  | @cons f part fields parts hpart _ ih =>
    obtain ⟨pieces, hcode, hconverted, hpieces⟩ := ih
    obtain ⟨value, default⟩ := part
    obtain ⟨first, hfirst, hfield, hown⟩ := laterValue_pieces hpart.1
    obtain ⟨second, hsecond, hnone, hinjects⟩ := laterDefault_pieces hpart.2
    refine ⟨first ++ second ++ pieces, ?_, ?_, fun x hx => ?_⟩
    · rw [List.flatMap_cons, List.flatMap_append, List.flatMap_append, ← hfirst, ← hsecond, hcode]
    · rw [Piece.converted_append, Piece.converted_append, hfield, hnone, hconverted,
        List.append_nil, ← List.map_append, ← List.filter_append, List.singleton_append]
    · rcases List.mem_append.mp hx with hx | hx
      · refine ⟨f, List.mem_cons_self, ?_⟩
        exact (List.mem_append.mp hx).elim (hown x) (hinjects x)
      · exact List.exists_mem_cons_of_exists (hpieces x hx)

end Pieces

/-- The code of an object is an allocation and pieces for the fields that both objects declare.
    Nothing is said yet of what each piece assigns. Here it is only counted that no field is left
    out and none comes twice. -/
theorem object_pieces {v w : ObjectView} (hv : ObjectView.of? c.registry s.source = .ok (some v))
    (hw : ObjectView.of? c.registry s.target = .ok (some w)) (h : (c.object emit s).Yields b) :
    ∃ type literal pieces, c.targetRef s.target = .ok type ∧
      b = s.store (.allocate type literal) :: pieces.flatMap (·.code) ∧
      (literal.map Prod.fst ++ (Piece.converted pieces).map fun m => w.fieldName m.name).Perm
        ((matchFields v w).map fun m => w.fieldName m.name) ∧
      ∀ x ∈ pieces, ∃ f, x.field ∈ matchFields v w ∧ c.Describes s v w x.field f ∧
        c.FieldAt s f ∧ c.PieceFor emit s.depth f x := by
  obtain ⟨v', w', fields, code, type, later, hv', hw', hfields, hcode, htype, hlater, rfl⟩ :=
    object_yields h
  obtain rfl := Option.some.inj (Except.ok.inj (hv.symm.trans hv'))
  obtain rfl := Option.some.inj (Except.ok.inj (hw.symm.trans hw'))
  have hdescribes : ∀ f ∈ fields, f.fieldMatch ∈ matchFields v w ∧
      c.Describes s v w f.fieldMatch f := by
    intro f hf
    obtain ⟨m, hm, hyields⟩ := forall₂_mem_right hfields hf
    have hd := fieldSite_describes hyields
    exact hd.fieldMatch ▸ ⟨hm, hd⟩
  obtain ⟨codes, hliteral, hafter, hcodes⟩ := primitiveFields_parts hcode
  obtain ⟨parts, rfl, hparts⟩ := laterFields_yields hlater
  obtain ⟨first, hfirst, hperm, hfirsts⟩ := primitives_pieces (w := w) emit s.depth
    hcodes fun f hf =>
      ⟨(List.mem_filter.mp hf).2, (hdescribes f (List.mem_of_mem_filter hf)).2.placeName⟩
  obtain ⟨second, hsecond, hconverted, hseconds⟩ := later_pieces hparts
  refine ⟨type, code.literal, first ++ second, htype, ?_, ?_, ?_⟩
  · rw [hafter, hfirst, hsecond, List.flatMap_append]
  -- The literal and the first pieces are for the primitive fields, the second pieces for the
  -- others. Together they are for all fields, each once.
  · have hlaterNames : (Piece.converted second).map (fun m => w.fieldName m.name) =
        (fields.filter (!·.isPrimitive)).map (·.placeName) := by
      rw [hconverted, List.map_map]
      refine List.map_congr_left fun f hf => ?_
      exact (hdescribes f (List.mem_of_mem_filter hf)).2.placeName.symm
    have hplace : ∀ m f, (c.fieldSite s v w m).Yields f → f.placeName = w.fieldName m.name :=
      fun m f hf => (fieldSite_describes hf).placeName
    have hnames : fields.map (·.placeName) = (matchFields v w).map fun m => w.fieldName m.name :=
      map_eq_of_forall₂ hplace hfields
    rw [hliteral, Piece.converted_append, List.map_append, ← List.append_assoc, hlaterNames,
      ← hnames]
    refine (hperm.append_right _).trans ?_
    rw [← List.map_append]
    exact (List.filter_append_perm (·.isPrimitive) fields).map _
  · have hpiece : ∀ x ∈ first ++ second, ∃ f ∈ fields, c.PieceFor emit s.depth f x := by
      intro x hx
      rcases List.mem_append.mp hx with hx | hx
      · obtain ⟨f, hf, hp⟩ := hfirsts x hx
        exact ⟨f, List.mem_of_mem_filter hf, hp⟩
      · exact hseconds x hx
    intro x hx
    obtain ⟨f, hf, hp⟩ := hpiece x hx
    obtain ⟨hm, hd⟩ := hdescribes f hf
    exact ⟨f, hp.field ▸ hm, hp.field ▸ hd, .of_mem hv hw hfields hf, hp⟩

/-- Where fields have different names, the code of an object stores every field that both objects
    declare once: in the literal that allocates the object or behind it. Only a conversion between
    unions that have nothing to store leaves its field out. -/
theorem object_storesOnce (c : Conversion) (levels : Nat) (s : Site) (v w : ObjectView) (b : Block)
    (hv : ObjectView.of? c.registry s.source = .ok (some v))
    (hw : ObjectView.of? c.registry s.target = .ok (some w)) (hvd : v.Distinct) (hwd : w.Distinct)
    (h : (c.object (c.attrWithin levels) s).Yields b) :
    ∃ type literal pieces, c.targetRef s.target = .ok type ∧
      b = s.store (.allocate type literal) :: pieces.flatMap (·.code) ∧
      c.StoresOnce s v w literal pieces ∧
      ∀ n, s.place.root? = some n → ∀ name,
        s.place.field name ∈ Block.sets n (pieces.flatMap (·.code)) →
          ∃ x ∈ pieces, name = w.fieldName x.field.name := by
  obtain ⟨type, literal, pieces, htype, hb, hperm, hpieces⟩ := object_pieces hv hw h
  -- A piece stores in its own field, since no code of a nested site assigns anything outside the
  -- place that it was given.
  have hcontained : ∀ x ∈ pieces, ∀ n, ∀ q ∈ x.code.sets n, q.root? = some n →
      (s.place.field (w.fieldName x.field.name)).Part q := by
    intro x hx n q hq hn
    obtain ⟨f, -, hd, -, hp⟩ := hpieces x hx
    rw [← hd.placeName, ← hd.place]
    exact hp.contained (attrWithin_keepsToPlaces c levels) n q hq hn
  refine ⟨type, literal, pieces, htype, hb, ⟨hperm, nodup_placeNames hvd hwd, ?_, ?_, ?_, ?_⟩, ?_⟩
  · intro x hx
    obtain ⟨f, hm, -⟩ := hpieces x hx
    exact hm
  · intro x hx hpurpose
    obtain ⟨f, -, hd, -, hp⟩ := hpieces x hx
    rw [← hd.placeName, ← hd.place, ← hd.source, ← hd.target]
    exact hp.stored (attrWithin_storesPlaces c levels) hd.sourcePrimitive hpurpose
  · exact fun x hx n _ => hcontained x hx n
  · intro x hx hpurpose
    obtain ⟨f, -, hd, hat, hp⟩ := hpieces x hx
    obtain ⟨value, hvalue, hcode⟩ := hp.injects hpurpose
    exact ⟨f, value, hp.field.symm, hat, hd.target ▸ hvalue, hcode⟩
  · intro n hn name hname
    obtain ⟨x, hx, hq⟩ := Block.exists_mem_sets_flatMap hname
    exact ⟨x, hx, (hcontained x hx n _ hq hn).field_inj⟩

/-- The fields of a page, all of them declared by the page itself. -/
def pageView : ObjectView where
  declared := {
    type := .object [("title", { type := .primitive .string }),
      ("note", { type := .primitive .string }), ("next", .user "Page")]
    rules := { required := ["title"] } }
  fields := [("title", { type := .primitive .string }), ("note", { type := .primitive .string }),
    ("next", .user "Page")]

/-- The conversion of a page of the service to a page, from one variable to another. -/
def pageSite : Site := .between (.user "Page") (.user "Page") "v" "res"

/-- The literal has the title and the note, and behind it a helper converts the next page. The first
    two are primitives and the third is a type with a name, so both rounds over the fields are
    seen. -/
theorem object_storesOnce_page : ∃ b,
    (pageConversion.object (pageConversion.attrWithin 1) pageSite).Yields b ∧
    ObjectView.of? pageConversion.registry pageSite.source = .ok (some pageView) ∧
    ObjectView.of? pageConversion.registry pageSite.target = .ok (some pageView) ∧
    pageView.Distinct ∧
    ∃ type literal pieces, pageConversion.targetRef pageSite.target = .ok type ∧
      b = pageSite.store (.allocate type literal) :: pieces.flatMap (·.code) ∧
      pageConversion.StoresOnce pageSite pageView pageView literal pieces ∧
      ∀ n, pageSite.place.root? = some n → ∀ name,
        pageSite.place.field name ∈ Block.sets n (pieces.flatMap (·.code)) →
          ∃ x ∈ pieces, name = pageView.fieldName x.field.name := by
  obtain ⟨b, h⟩ : ∃ b,
      (pageConversion.object (pageConversion.attrWithin 1) pageSite).Yields b := by
    decide +kernel
  have hv : ObjectView.of? pageConversion.registry pageSite.source = .ok (some pageView) := rfl
  have hd : pageView.Distinct := by
    unfold ObjectView.Distinct
    decide +kernel
  exact ⟨b, h, hv, hv, hd, object_storesOnce pageConversion 1 pageSite pageView pageView b hv hv hd
    hd h⟩

/-- An object whose one field is a union that has no alternatives. -/
def gapped : Attribute := { type := .object [("gap", { type := .union "Gap" [] })] }

/-- The conversion of such an object to itself. -/
def gapSite : Site := .between gapped gapped "v" "res"

/-- The one field of the object. -/
def gapView : ObjectView := ⟨gapped, [("gap", { type := .union "Gap" [] })]⟩

/-- The field is neither in the literal nor assigned behind it: the code names no fields but those
    of the value, for the switch that converts the field has no cases. -/
theorem gap_left_out : ∃ b,
    (pageConversion.object (pageConversion.attrWithin 1) gapSite).Yields b ∧
    ObjectView.of? pageConversion.registry gapped = .ok (some gapView) ∧ gapView.Distinct ∧
    (matchFields gapView gapView).map (fun m => gapView.fieldName m.name) = ["Gap"] ∧
    (∀ step ∈ b.steps [], ∀ use ∈ step.stmt.fieldUses, use.root? = some "v") ∧
    ¬ Block.Assigns (gapSite.place.field "Gap") b := by
  obtain ⟨b, h, huses⟩ : ∃ b,
      (pageConversion.object (pageConversion.attrWithin 1) gapSite).Yields b ∧
        ∀ step ∈ b.steps [], ∀ use ∈ step.stmt.fieldUses, use.root? = some "v" := by
    decide +kernel
  have hd : gapView.Distinct := by
    unfold ObjectView.Distinct
    decide +kernel
  refine ⟨b, h, rfl, hd, by decide +kernel, huses, ?_⟩
  rintro ⟨step, hm, value, hvalue⟩
  have huse : FieldUse.select gapSite.place "Gap" ∈ step.stmt.fieldUses := by
    rw [hvalue, Stmt.fieldUses_set, Expr.fieldUses]
    exact List.mem_cons_self
  exact absurd (huses step hm _ huse) (by decide)

end Conversion
end Shapewright
