import Shapewright.Proofs.References
import Shapewright.Proofs.Validation.Closure

/-!
# Which rules are checked

A rule that applies to a value may be declared by the attribute of the value or by any type on the
chain of references from it. The validators check those that the attribute itself declares, unless
it is a reference to a collection, and those of the type at the end of the chain, if it is a
primitive. The types in the middle of a chain and collections with names are not looked at.

## Which attributes speak

Let a field refer to `Short`, an alias of `Code`, which is a string. Three attributes may have rules
for the value of the field: that of the field, the definition of `Short` and that of `Code`. Of
these the first and the last are consulted. `Consults` says so in general, and the rest is that
rules of attributes that are consulted are checked wherever the walk gets to (`compileAll_checks`).

Where it gets to is the other half of the question, and the answer is everywhere: every value inside
a value of the type is looked at by the validator of the type or by one that is called, over however
many calls.
-/

namespace Shapewright

open Relation

namespace Validation

variable {v : Validation} {id : TypeId} {funcs : List Func} {s : Subject} {z : Place}
  {x : Attribute} {c : Constraint}

/-- A constraint on the value at a place, declared by the attribute of the place or by a type on the
    chain of references from it. -/
structure Declares (v : Validation) (z : Place) (x : Attribute) (c : Constraint) : Prop where
  refers : ReflTransGen v.registry.Refers z.attr x
  applies : ∃ k, v.registry.kind z.attr = .ok k ∧ c ∈ x.rules.constraintsOn k

/-- The validators look at the rules of `x` for the value at a place: `x` stands in place, or the
    value is a primitive and `x` is the first or the last on the chain of references. -/
def Consults (v : Validation) (z : Place) (x : Attribute) : Prop :=
  z.attr.userId? = none ∨
    (∃ p, v.registry.kind z.attr = .ok (.primitive p)) ∧ (x = z.attr ∨ x.userId? = none)

/-- A collection that is no reference stands in place. -/
theorem collection_of_kind {a : Attribute} (hu : a.userId? = none)
    (hk : v.registry.kind a = .ok .array ∨ v.registry.kind a = .ok .map) :
    ∃ elem, CollectionOf a.type elem := by
  rw [Registry.kind_eq_of_resolve (Registry.resolve_of_userId?_eq_none hu)] at hk
  cases ht : a.type with
  | array elem => exact ⟨elem, .inl rfl⟩
  | map key elem => exact ⟨elem, .inr ⟨key, rfl⟩⟩
  | _ => simp [ht] at hk

/-- What is declared by an attribute that is consulted is checked by the walk. Whether an attribute
    is consulted depends on where it stands, and the walk goes to no others. -/
theorem constrains_of_declares (hc : v.Declares z x c) (hx : v.Consults z x) :
    v.Constrains z c := by
  obtain ⟨hrefers, k, hk, hc⟩ := hc
  rcases hx with hu | ⟨⟨p, hp⟩, hx⟩
  · -- What stands in place refers to nothing else.
    obtain rfl : z.attr = x := by
      rcases ReflTransGen.cases_head hrefers with h | ⟨b, hb, -⟩
      · exact h
      · exact absurd hb (Registry.not_refers hu)
    have collection : (v.registry.kind z.attr = .ok .array ∨ v.registry.kind z.attr = .ok .map) →
        c ∈ z.attr.rules.lengths.map (fun l => Constraint.length l.1 l.2) → v.Constrains z c := by
      intro hk hc
      obtain ⟨elem, ht⟩ := collection_of_kind hu hk
      obtain ⟨l, hl, rfl⟩ := List.mem_map.mp hc
      exact .collection ht hl
    cases k with
    | primitive p => exact .primitive hk (.inl rfl) hc
    | array => exact collection (.inl hk) hc
    | map => exact collection (.inr hk) hc
    | object => simp [Rules.constraintsOn] at hc
    | union => simp [Rules.constraintsOn] at hc
  · -- Of a chain of references the first and the last attribute speak.
    rw [hk] at hp
    cases hp
    refine .primitive hk (hx.imp_right fun hend => ?_) hc
    obtain ⟨r, hr⟩ := Registry.exists_resolve hk
    rw [Registry.eq_of_refers hr hrefers hend]
    exact hr

/-- A rule that applies to a value that the validators of a type look at is checked there, if the
    attribute that declares it is one that they consult. They consult a structure in place, and for
    a primitive its own attribute and the type at the end of its chain of references. -/
theorem compileAll_checks (v : Validation) (id : TypeId) (funcs : List Func) (s : Subject)
    (z : Place) (x : Attribute) (c : Constraint) (h : (v.compileAll id none).Yields funcs)
    (hs : ReflTransGen v.Delegates ⟨id, none⟩ s) (hz : v.Looks s z) (hc : v.Declares z x c)
    (hx : v.Consults z x) :
    ∃ f ∈ funcs, (∃ code, v.func s code = .ok f) ∧
      ∃ stmt, v.CheckOf z c stmt ∧ stmt ∈ f.body.parts := by
  have hconstrains := constrains_of_declares hc hx
  obtain ⟨root, listed, hroot, rfl, hl⟩ := (compileAll_listed v id none).2 funcs h
  cases hroot
  -- The subject that the place belongs to has something to check, so it is needed.
  have hlisted : s ∈ listed.map Prod.fst :=
    (hl.mem_iff s).mpr ⟨hs, s, .refl, .place hz (.constraint hconstrains)⟩
  obtain ⟨y, hy, rfl⟩ := List.mem_map.mp hlisted
  obtain ⟨checks, hb, hf⟩ := hl.built y hy
  obtain ⟨stmt, hstmt, hmem⟩ := (buildsBody_of_body hb).contains hz hconstrains
  refine ⟨y.2, List.mem_map_of_mem hy, ⟨checks.code, hf⟩, stmt, hstmt, ?_⟩
  rw [(func_eq_ok hf).2]
  exact Block.parts_subset_left _ _ hmem

/-- Items with a code, which is a short code, which is a string, and with a named list of tags; each
    of the three named types has rules. -/
def itemValidation (short code tags : Rules) : Validation where
  scope := .ofRegistry {
    types := [
      { id := "Item", name := "Item"
        definition := { type := .object [("code", .user "Short"), ("tags", .user "Tags")] } },
      { id := "Short", name := "Short", definition := { type := .user "Code", rules := short } },
      { id := "Code", name := "Code", definition := { type := .primitive .string, rules := code } },
      { id := "Tags", name := "Tags"
        definition := { type := .array { type := .primitive .string }, rules := tags } }] }
  context := .service

section

variable (short code tags : Rules)

theorem itemValidation_describes : (itemValidation short code tags).Describes ⟨"Item", none⟩
    { type := .object [("code", .user "Short"), ("tags", .user "Tags")] } none :=
  ⟨⟨_, rfl, rfl⟩, rfl⟩

/-- The validator of an item looks at both fields. -/
theorem itemValidation_looks {f : ShownField}
    (hf : f ∈ [⟨"code", .user "Short", none⟩, ⟨"tags", .user "Tags", none⟩]) :
    ∃ z, (itemValidation short code tags).Looks ⟨"Item", none⟩ z ∧ z.attr = f.attr := by
  obtain ⟨q, hq⟩ : ∃ q, (itemValidation short code tags).fieldPosition []
      ((itemValidation short code tags).argument ⟨"Item", none⟩) f.name f.attr f.tag = .ok q := by
    simp only [List.mem_cons, List.not_mem_nil, or_false] at hf
    rcases hf with rfl | rfl <;> exact ⟨_, rfl⟩
  exact ⟨⟨f.attr, q.1, q.2⟩,
    ⟨_, .field (itemValidation_describes short code tags) rfl hf ⟨rfl, hq⟩, .refl⟩, rfl⟩

end

/-- Items in which codes have at most five letters. -/
def codedItems : Validation := itemValidation {} { maxLength := some 5 } {}

/-- Items in which short codes have at most five letters, and lists of tags have one at least. -/
def taggedItems : Validation := itemValidation { maxLength := some 5 } {} { minLength := some 1 }

/-- The rule of the type at the end of a chain is checked. What is in the middle of the chain has no
    rules here. -/
theorem compileAll_checks_item : ∃ funcs z x f stmt,
    (codedItems.compileAll "Item" none).Yields funcs ∧ codedItems.Looks ⟨"Item", none⟩ z ∧
    codedItems.Declares z x (.length .upper 5) ∧ codedItems.Consults z x ∧
    f ∈ funcs ∧ codedItems.CheckOf z (.length .upper 5) stmt ∧ stmt ∈ f.body.parts := by
  obtain ⟨funcs, h⟩ : ∃ funcs, (codedItems.compileAll "Item" none).Yields funcs := by
    decide +kernel
  obtain ⟨z, hz, ha⟩ : ∃ z, codedItems.Looks ⟨"Item", none⟩ z ∧ z.attr = .user "Short" :=
    itemValidation_looks _ _ _ List.mem_cons_self
  have hkind : codedItems.registry.kind z.attr = .ok (.primitive .string) := by
    rw [ha]
    rfl
  -- The rule belongs to `Code`, two references away from the field.
  have hc : codedItems.Declares z
      { type := .primitive .string, rules := { maxLength := some 5 } } (.length .upper 5) := by
    refine ⟨?_, _, hkind, by simp [Rules.constraintsOn, Rules.constraints, Rules.lengths]⟩
    rw [ha]
    exact .head ⟨"Short", _, rfl, rfl, rfl⟩ (.single ⟨"Code", _, rfl, rfl, rfl⟩)
  have hx : codedItems.Consults z
      { type := .primitive .string, rules := { maxLength := some 5 } } :=
    .inr ⟨⟨_, hkind⟩, .inr rfl⟩
  obtain ⟨f, hf, -, stmt, hs, hmem⟩ :=
    compileAll_checks codedItems "Item" funcs ⟨"Item", none⟩ z _ _ h .refl hz hc hx
  exact ⟨funcs, z, _, f, stmt, h, hz, hc, hx, hf, hs, hmem⟩

/-- The rules of a type in the middle of a chain, and those of a named collection, are checked
    nowhere: there is no validator at all. -/
theorem taggedItems_unchecked : (taggedItems.compileAll "Item" none).Yields [] ∧
    (∃ z x, taggedItems.Looks ⟨"Item", none⟩ z ∧ taggedItems.Declares z x (.length .upper 5)) ∧
    ∃ z x, taggedItems.Looks ⟨"Item", none⟩ z ∧ taggedItems.Declares z x (.length .lower 1) := by
  refine ⟨?_, ?_, ?_⟩
  · obtain ⟨funcs, h, hlen⟩ : ∃ funcs, (taggedItems.compileAll "Item" none).Yields funcs ∧
        funcs.length = 0 := by
      decide +kernel
    rwa [List.length_eq_zero_iff.mp hlen] at h
  -- The field refers to `Short`, whose definition has the rule and refers on to `Code`.
  · obtain ⟨z, hz, ha⟩ : ∃ z, taggedItems.Looks ⟨"Item", none⟩ z ∧ z.attr = .user "Short" :=
      itemValidation_looks _ _ _ List.mem_cons_self
    refine ⟨z, { type := .user "Code", rules := { maxLength := some 5 } }, hz, ?_,
      .primitive .string, ?_, by simp [Rules.constraintsOn, Rules.constraints, Rules.lengths]⟩
    · rw [ha]
      exact .single ⟨"Short", _, rfl, rfl, rfl⟩
    · rw [ha]
      rfl
  · obtain ⟨z, hz, ha⟩ : ∃ z, taggedItems.Looks ⟨"Item", none⟩ z ∧ z.attr = .user "Tags" :=
      itemValidation_looks _ _ _ (List.mem_cons_of_mem _ List.mem_cons_self)
    refine ⟨z, { type := .array { type := .primitive .string }, rules := { minLength := some 1 } },
      hz, ?_, .array, ?_, by simp [Rules.constraintsOn, Rules.lengths]⟩
    · rw [ha]
      exact .single ⟨"Tags", _, rfl, rfl, rfl⟩
    · rw [ha]
      rfl

end Validation
end Shapewright
