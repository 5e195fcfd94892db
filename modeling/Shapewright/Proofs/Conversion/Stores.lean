import Shapewright.Proofs.Conversion.Hygiene

/-!
# What code stores in a variable, and what it declares

The code of a site whose place is a variable stores something in that variable; all other code of a
conversion leaves the variable alone, as long as it is not called like one of those that loops and
cases have for themselves (`Reserved`). And in its own block a site declares nothing but its place
and variables for fields (`Leaves`).

Both go back to what is known of the steps of code (`Does`): nothing here depends on how deep the
sites are nested.

## Storing in a variable

A store is an assignment to a plain variable that does not declare it. What is stored in a field of
the variable, or at an index of it, is not one. So for an object the first statement is the only
store, as all else works on fields, and for a map or an array likewise; in the code of a union each
case stores for itself. What a case leaves in the variable is then the last thing that it stores
there (`Proofs.Conversion.Alternatives`).

A variable of the same name further in would not be the same variable. The definition goes by names
and does not ask, which is on the safe side: what is never stored in by name is not stored in.
-/

namespace Shapewright

/-- The statement stores something in the variable `name`, which it does not declare. A declaration
    with a value makes a new variable and stores in none that was there. -/
def Stmt.Stores (name : String) (s : Stmt) : Prop := ∃ value, s = .set (.ident name) value

/-- No statement of the block, at whatever depth, stores anything in the variable `name`. It may
    still store in parts of what the variable holds. -/
def Block.Spares (name : String) (b : Block) : Prop := ∀ step ∈ b.steps [], ¬ step.stmt.Stores name

namespace Block

variable {name : String} {known : List Expr} {step : CodeStep}

theorem Spares.not_stores {b : Block} (h : b.Spares name) (hm : step ∈ b.steps known) :
    ¬ step.stmt.Stores name := by
  obtain ⟨k, hk, hstmt⟩ := exists_mem_steps_known hm []
  exact hstmt ▸ h k hk

theorem spares_nil (name : String) : Spares name [] := by simp [Spares]

theorem spares_append {a b : Block} : Spares name (a ++ b) ↔ Spares name a ∧ Spares name b := by
  simp only [Spares, steps_append, List.forall_mem_append]

theorem spares_flatMap {α : Type} {f : α → Block} {xs : List α} :
    Spares name (xs.flatMap f) ↔ ∀ x ∈ xs, Spares name (f x) := by
  induction xs with
  | nil => simp [spares_nil]
  | cons x xs ih => rw [List.flatMap_cons, spares_append, List.forall_mem_cons, ih]

/-- A statement without blocks inside it, and what follows it. -/
theorem spares_cons {stmt : Stmt} {rest : Block} (hs : stmt.steps [] = [⟨[], stmt⟩])
    (hn : ¬ stmt.Stores name) (h : Spares name rest) : Spares name (stmt :: rest) := by
  intro step hm
  rw [steps_cons, hs, List.singleton_append, List.mem_cons] at hm
  rcases hm with rfl | hm
  · exact hn
  · exact h step hm

theorem spares_set {place value : Expr} (h : place ≠ .ident name) :
    Spares name [.set place value] := by
  refine spares_cons (Stmt.steps_assign ..) (fun hstores => ?_) (spares_nil name)
  obtain ⟨e, he⟩ := hstores
  rw [Stmt.set, Stmt.set, Stmt.assign.injEq] at he
  exact h he.1

/-- A variable that is declared is another one of the name. -/
theorem spares_define {place value : Expr} {rest : Block} (h : Spares name rest) :
    Spares name (.assign place value true :: rest) := by
  refine spares_cons (Stmt.steps_assign ..) (fun hstores => ?_) h
  obtain ⟨e, he⟩ := hstores
  cases he

theorem spares_declare {x : String} {type : TypeRef} {value : Option Expr} {rest : Block}
    (h : Spares name rest) : Spares name (.declare x type value :: rest) := by
  refine spares_cons (Stmt.steps_declare ..) (fun hstores => ?_) h
  obtain ⟨e, he⟩ := hstores
  cases he

theorem spares_when {test : Expr} {body : Block} (h : Spares name body) :
    Spares name [.when test body] := by
  intro step hm hstores
  rw [steps_cons, Stmt.steps_when, steps_nil, List.append_nil, List.mem_cons] at hm
  rcases hm with rfl | hm
  · obtain ⟨e, he⟩ := hstores
    cases he
  · exact h.not_stores hm hstores

end Block

namespace Conversion

open Relation

variable {c : Conversion} {emit : Emit} {s t : Site} {b : Block} {f : FieldSite} {name : String}

/-- The name of a variable that loops or cases have for themselves. Such a variable is taken anew at
    every depth, so a place of that name would not be seen inside. -/
def Reserved (name : String) : Prop :=
  name = "actual" ∨ name = "conv" ∨ ∃ depth, name ∈ loopVariables depth

/-! ## Fields store in fields -/

/-- The place of a field is the place of the object with a selector behind it, so it is no
    variable. -/
theorem FieldAt.place_ne (hf : c.FieldAt s f) (name : String) : f.place ≠ .ident name := by
  obtain ⟨v, w, m, -, -, -, hd⟩ := hf.describes
  rw [hd.place]
  exact Expr.noConfusion

theorem storeConverted_spares (hf : f.place ≠ .ident name) (taken : List String) (e : Expr) :
    Block.Spares name (storeConverted f taken e) := by
  unfold storeConverted
  split
  · exact Block.spares_define (Block.spares_set hf)
  · exact Block.spares_set hf

/-- What is stored for a field is stored in the field, maybe by way of a variable that is
    declared. -/
theorem primitiveFieldCode_spares (hf : f.place ≠ .ident name) (taken : List String)
    (result : Option Expr) : Block.Spares name (primitiveFieldCode f taken result).after := by
  unfold primitiveFieldCode
  cases result with
  | some e =>
    dsimp only
    split
    · exact Block.spares_nil name
    · split
      · exact Block.spares_when (storeConverted_spares hf taken e)
      · exact storeConverted_spares hf taken e
  | none =>
    dsimp only
    split
    · split
      · exact Block.spares_nil name
      · exact Block.spares_when (Block.spares_set hf)
    · split <;> exact Block.spares_nil name

theorem laterDefault_spares (hf : f.place ≠ .ident name) (h : c.laterDefault f = .ok b) :
    b.Spares name := by
  unfold laterDefault at h
  split at h
  · cases defaultField_shape h with
    | idle => exact Block.spares_nil name
    | held _ _ type => exact Block.spares_when (Block.spares_declare (Block.spares_set hf))
    | stored _ _ type => exact Block.spares_when (Block.spares_set hf)
    | zero _ _ type =>
      intro step hm
      rw [Block.steps_cons, Stmt.steps_block, Block.steps_nil, List.append_nil] at hm
      exact Block.spares_declare (Block.spares_when (Block.spares_set hf)) step hm
  · cases h
    exact Block.spares_nil name

/-! ## What is stored in a variable is stored there by the site of the variable -/

/-- What an emitter writes itself stores in the place of its site, or in something that is no
    variable. -/
theorem Own.stores {stmt : Stmt} (ho : c.Own s stmt) (h : stmt.Stores name) :
    s.place = .ident name := by
  obtain ⟨value, h⟩ := h
  rw [Stmt.set] at h
  -- Two of the statements store in the place of the site. Those of fields store in a field of it,
  -- which is no variable.
  cases ho with
  | store result =>
    rw [Site.store, Stmt.assign.injEq] at h
    exact h.1
  | wrap type e =>
    rw [Stmt.set, Stmt.assign.injEq] at h
    exact h.1
  | loop => cases h
  | pair => cases h
  | declare => cases h
  | switch => cases h
  | test => cases h
  | primitive hf _ _ hm =>
    exact absurd ⟨value, h⟩
      ((primitiveFieldCode_spares (hf.place_ne name) _ _).not_stores hm)
  | default hf hd hm =>
    exact absurd ⟨value, h⟩ ((laterDefault_spares (hf.place_ne name) hd).not_stores hm)

theorem Opens.place_eq {inner : Site} (ho : c.Opens s inner) (h : inner.place = .ident name) :
    s.place = .ident name := by
  cases ho with
  | plain => exact h
  | boxed _ _ ho =>
    cases unboxed_yields ho with
    | target => cases h
    | source => exact h

/-- Of the sites one level below, only an alternative that is stored as it is has the variable of
    the site itself. -/
theorem Enters.place_eq {guards : List Expr} (he : c.Enters s guards t) (hn : ¬ Reserved name)
    (h : t.place = .ident name) : s.place = .ident name := by
  -- Code one level down stores in a field, or in a variable of a reserved name that is declared for
  -- it. Only an alternative may have the place of the site itself.
  cases he with
  | field hf => exact absurd h (hf.place_ne name)
  | wrapped ht =>
    cases ht with
    | alternative =>
      cases h
      exact absurd (Or.inr (Or.inl rfl)) hn
  | item hb =>
    cases hb with
    | element => cases h
    | key =>
      cases h
      exact absurd (Or.inr (Or.inr ⟨s.depth, loopNewKey_mem _⟩)) hn
    | entry =>
      cases h
      exact absurd (Or.inr (Or.inr ⟨s.depth, loopNewValue_mem _⟩)) hn
    | alternative => exact h
    | field hv hw hm hf =>
      have hfield : c.FieldAt s _ := .intro hv hw hm hf
      exact absurd h (hfield.place_ne name)

/-- Whoever stores in a variable that is not reserved has it for its place from the site of the body
    on. -/
theorem Does.stores {guards : List Expr} {stmt : Stmt} (hd : c.Does s guards stmt)
    (hn : ¬ Reserved name) (h : stmt.Stores name) : s.place = .ident name := by
  have stored : ∀ {t : Site} {e : Expr}, (t.store e).Stores name → t.place = .ident name := by
    intro t e h
    obtain ⟨value, h⟩ := h
    rw [Site.store, Stmt.set, Stmt.assign.injEq] at h
    exact h.1
  -- By induction on the way down to the site of the step.
  induction hd with
  | own ho hown => exact ho.place_eq (hown.stores h)
  | box _ type => exact stored h
  | call ho he _ _ => exact ho.place_eq (he.place_eq hn (stored h))
  | nested ho he _ _ ih => exact ho.place_eq (he.place_eq hn (ih h))

theorem attrWithin_spares {levels : Nat} (hn : ¬ Reserved name) (hd : t.place.derefs = [])
    (hp : t.place ≠ .ident name) (h : (c.attrWithin levels t).Yields b) : b.Spares name := by
  have hs : t.Shielded t.value.derefs := ⟨List.Subset.refl _, hd⟩
  intro step hm hstores
  obtain ⟨k, hk, hstmt⟩ := Block.exists_mem_steps_known hm t.value.derefs
  obtain ⟨guards, hdoes, -⟩ := (attrWithin_guarded hs h k hk).fields
  exact hp (hdoes.stores hn (hstmt ▸ hstores))

theorem nested_spares {levels : Nat} (hn : ¬ Reserved name) (hd : t.place.derefs = [])
    (hp : t.place ≠ .ident name) (hdeclare : t.declare = false)
    (h : (c.nested (c.attrWithin levels) t).Yields b) : b.Spares name := by
  rcases nested_yields.mp h with ⟨-, helper, -, rfl⟩ | ⟨-, h⟩
  · rw [Site.store, hdeclare]
    exact Block.spares_set hp
  · exact attrWithin_spares hn hd hp h

/-- An object is allocated by the first statement of its code, and the rest works on its fields. So
    where the place is a variable, it has the type of the allocation from the first statement on,
    and no later one changes it. -/
theorem object_stores {levels : Nat} (hn : ¬ Reserved name) (hd : s.place.derefs = [])
    (h : (c.object (c.attrWithin levels) s).Yields b) :
    ∃ type fields rest, c.targetRef s.target = .ok type ∧
      b = s.store (.allocate type fields) :: rest ∧ Block.Spares name rest := by
  obtain ⟨v, w, fields, code, type, later, hv, hw, hfields, hcode, htype, hlater, rfl⟩ :=
    object_yields h
  have hat : ∀ f ∈ fields, c.FieldAt s f := fun _ hf => .of_mem hv hw hfields hf
  obtain ⟨codes, -, hafter, hcodes⟩ := primitiveFields_parts hcode
  obtain ⟨parts, rfl, hparts⟩ := laterFields_yields hlater
  refine ⟨type, code.literal, _, htype, rfl, ?_⟩
  rw [hafter, Block.spares_append, Block.spares_flatMap, Block.spares_flatMap]
  -- Neither a primitive field nor any other touches the variable after it was set: all of them have
  -- a place inside it.
  constructor
  · intro part hpart
    obtain ⟨f, hf, result, -, rfl⟩ := forall₂_mem_right hcodes hpart
    exact primitiveFieldCode_spares ((hat f (List.mem_of_mem_filter hf)).place_ne name) _ result
  · intro x hx
    obtain ⟨f, hf, hvalue, hdefault⟩ := forall₂_mem_right hparts hx
    have hplace := (hat f hf).place_ne name
    refine Block.spares_append.mpr ⟨?_, laterDefault_spares hplace hdefault⟩
    unfold laterValue at hvalue
    split at hvalue
    · rw [Walk.yields_pure] at hvalue
      exact hvalue ▸ Block.spares_nil name
    · obtain ⟨body, hbody, hx⟩ := structuredField_yields.mp hvalue
      have hderefs : (f.site s.depth).place.derefs = [] := by
        obtain ⟨v, w, m, -, -, -, hdescribes⟩ := (hat f hf).describes
        rw [FieldSite.site, hdescribes.place, Expr.derefs, hd]
      have hspares : body.Spares name := nested_spares hn hderefs hplace rfl hbody
      rw [hx]
      split
      · exact hspares
      · exact Block.spares_when hspares

/-! ## What a site declares in its own block -/

/-- The emitter declares in the block of a site only the place of the site, where the site asks for
    that, and variables for fields. Loops and tests have blocks of their own. -/
def Confined (c : Conversion) (emit : Emit) : Prop :=
  ∀ {t : Site} {b : Block}, (emit t).Yields b → ∀ x ∈ b.declares, x ∈ t.introduces ∨ c.Leaves t x

theorem laterDefault_declares (h : c.laterDefault f = .ok b) : b.declares = [] := by
  unfold laterDefault at h
  split at h
  · cases defaultField_shape h <;> rfl
  · cases h
    rfl

theorem declaration_declares (h : (c.declaration s).Yields b) : b.declares = s.introduces := by
  unfold declaration at h
  rw [Site.introduces]
  split at h
  · rename_i hdeclare
    rw [if_pos hdeclare]
    split at h
    · rename_i x hx
      simp only [Walk.yields_bind, Walk.yields_liftM, Walk.yields_pure] at h
      obtain ⟨type, -, rfl⟩ := h
      rw [hx, Expr.vars]
      rfl
    · simp at h
  · rename_i hdeclare
    rw [Walk.yields_pure] at h
    rw [if_neg hdeclare, ← h]
    rfl

section Confined

variable (he : c.Confined emit)
include he

/-- Code for a field stands in a block of its own, or declares nothing. What stands behind the
    literal is a sequence of such pieces, and the block of the object stays free of their names. -/
theorem laterValue_declares (hf : c.FieldAt s f)
    (h : (c.laterValue emit s.depth f).Yields b) : b.declares = [] := by
  unfold laterValue at h
  split at h
  · rw [Walk.yields_pure] at h
    exact h ▸ rfl
  · obtain ⟨code, hcode, rfl⟩ := structuredField_yields.mp h
    split
    · rename_i hif
      rw [Bool.or_eq_true, List.isEmpty_iff, Bool.and_eq_true] at hif
      rcases hif with rfl | ⟨hprimitive, -⟩
      · rfl
      · rcases nested_yields.mp hcode with ⟨-, helper, -, rfl⟩ | ⟨-, hcode⟩
        · rfl
        · -- A primitive leaves nothing behind.
          obtain ⟨v, w, m, -, -, -, hd⟩ := hf.describes
          refine List.eq_nil_iff_forall_not_mem.mpr fun x hx => ?_
          rcases he hcode x hx with hx | hx
          · exact absurd hx List.not_mem_nil
          · exact not_leaves_of_isPrimitive (hprimitive ▸ hd.sourcePrimitive) hx
    · rfl

theorem object_declares {inner : Site} (ho : c.Opens s inner) (h : (c.object emit inner).Yields b) :
    ∀ x ∈ b.declares, x ∈ inner.introduces ∨ c.Leaves s x := by
  obtain ⟨v, w, fields, code, type, later, hv, hw, hfields, hcode, -, hlater, rfl⟩ :=
    object_yields h
  have hat : ∀ f ∈ fields, c.FieldAt inner f := fun _ hf => .of_mem hv hw hfields hf
  obtain ⟨codes, -, hafter, hcodes⟩ := primitiveFields_parts hcode
  obtain ⟨parts, rfl, hparts⟩ := laterFields_yields hlater
  -- Fields that are not primitive have blocks of their own, so what is left over are temporaries
  -- for pointers to primitives.
  have hnone : Block.declares (parts.flatMap fun x => x.1 ++ x.2) = [] := by
    rw [Block.declares_flatMap]
    refine List.flatMap_eq_nil_iff.mpr fun x hx => ?_
    obtain ⟨f, hf, hvalue, hdefault⟩ := forall₂_mem_right hparts hx
    rw [Block.declares_append, laterValue_declares he (hat f hf) hvalue,
      laterDefault_declares hdefault, List.append_nil]
  intro x hx
  rw [Block.declares_cons, Site.store_declares, Block.declares_append, hnone, List.append_nil,
    hafter, Block.declares_flatMap, List.mem_append] at hx
  refine hx.imp id fun hx => ?_
  obtain ⟨part, hpart, hx⟩ := List.mem_flatMap.mp hx
  obtain ⟨f, hf, result, hresult, rfl⟩ := forall₂_mem_right hcodes hpart
  obtain ⟨hf, hp⟩ := List.mem_filter.mp hf
  rw [primitiveFieldCode_declares _ hp hresult] at hx
  split at hx
  · rename_i hholds
    exact ⟨inner, f, ho, hat f hf, hholds, List.mem_singleton.mp hx⟩
  · exact absurd hx List.not_mem_nil

theorem byKind_declares {inner : Site} (ho : c.Opens s inner) (h : (c.byKind emit inner).Yields b) :
    ∀ x ∈ b.declares, x ∈ inner.introduces ∨ c.Leaves s x := by
  have stored : ∀ {e : Expr} {rest : Block}, Block.declares rest = [] →
      ∀ x ∈ Block.declares (inner.store e :: rest), x ∈ inner.introduces ∨ c.Leaves s x := by
    intro e rest hrest x hx
    rw [Block.declares_cons, Site.store_declares, hrest, List.append_nil] at hx
    exact Or.inl hx
  obtain ⟨kind, target, -, -, ⟨-, -, rfl⟩ | ⟨-, h⟩⟩ := byKind_yields.mp h
  · exact stored rfl
  · cases kind with
    | array =>
      obtain ⟨x, y, type, body, -, -, -, -, rfl⟩ := array_yields.mp h
      exact stored rfl
    | map =>
      obtain ⟨k, x, l, y, keyType, elemType, keyCode, elemCode, -, -, -, -, -, -, rfl⟩ :=
        map_yields.mp h
      exact stored rfl
    | object => exact object_declares he ho h
    | union =>
      obtain ⟨u, v, declared, cases, -, hd, -, rfl⟩ := union_yields h
      intro x hx
      rw [Block.declares_append, declaration_declares hd, List.mem_append] at hx
      exact Or.inl (hx.resolve_right List.not_mem_nil)
    | primitive p =>
      unfold ofKind primitive at h
      simp only [Walk.yields_bind, Walk.yields_liftM, Walk.yields_pure] at h
      obtain ⟨result, -, rfl⟩ := h
      exact stored rfl

/-- Where a box is opened, its place is declared first, and the content has a place inside it. The
    code of the content then finds its variable declared and only stores in it. -/
theorem attrVia_confined : c.Confined (c.attrVia emit) := by
  intro s b h x hx
  obtain ⟨inner, box, code, ho, hcode, rfl, hbox⟩ := attrVia_yields h
  -- The content of a box declares the variable of the whole, or nothing.
  have hbelow : ∀ x ∈ inner.introduces, x ∈ s.introduces := by
    intro x hx
    have hpart := ho.partOf
    unfold Site.introduces at hx ⊢
    rcases hpart.declare with hd | hd
    · rw [hd] at hx
      exact absurd hx List.not_mem_nil
    · rwa [hd, hpart.place.1] at hx
  rw [Block.declares_append, List.mem_append] at hx
  rcases hx with hx | hx
  · rcases hbox with ⟨-, rfl⟩ | ⟨why, hbox⟩
    · exact absurd hx List.not_mem_nil
    · cases unboxed_yields hbox with
      | source => exact absurd hx List.not_mem_nil
      | target type =>
        rw [Block.declares_cons, Site.store_declares, Block.declares_nil, List.append_nil] at hx
        exact Or.inl hx
  · exact (byKind_declares he ho hcode x hx).imp (hbelow x) id

end Confined

theorem attrWithin_confined (c : Conversion) : ∀ levels, c.Confined (c.attrWithin levels)
  | 0 => fun h => absurd h Walk.yields_exhausted
  | levels + 1 => attrVia_confined (attrWithin_confined c levels)

end Conversion
end Shapewright
