import Shapewright.Proofs.Validation.Places

/-!
# What a validator checks

The code of a validator is found to do what the places it looks at demand: there is a check for each
constraint declared there and for each required field whose absence shows, and a call for each value
that is handed over to a validator that exists. It does nothing else: where nothing is demanded and
nobody is called there is no code at all.

## Both directions

That checks are there is one half, and the other is that a validator without any is empty. The
second is what decides whether a validator is built: a type that demands nothing, and leads to none
that does, has no function, and nobody calls it. So emptiness of code has to mean that nothing is
demanded (`BuildsBody.eq_nil` with `BuildsBody.finds`), and it would not be enough to find each
check in the code.

`Finds` is the common denominator of checks: every check, whatever it tests, ends with merging an
error into the one that is returned. It says that some error is merged somewhere in the code, which
makes it easy to carry outwards through tests and loops.

A required field shows that it is missing only if it is held by something that can be nil. Otherwise
no check is made for it and none could be (`Misses`).
-/

namespace Shapewright
namespace Validation

open Relation

section

variable (v : Validation)

/-- A constraint on the value at a place, declared where the walk looks for it. For collections
    these are the limits of their length. -/
inductive Constrains (z : Place) : Constraint → Prop
  | primitive {p : Primitive} {x : Attribute} {c : Constraint}
      (hk : v.registry.kind z.attr = .ok (.primitive p)) (hx : v.Speaks z.attr x)
      (hc : c ∈ x.rules.constraints p) : Constrains z c
  | collection {elem : Attribute} {l : Limit × Nat} (ht : CollectionOf z.attr.type elem)
      (hc : l ∈ z.attr.rules.lengths) : Constrains z (.length l.1 l.2)

/-- The statement checks a constraint on the value at a place, and reports the path of the place. A
    collection is checked for its length only. -/
inductive CheckOf (z : Place) : Constraint → Stmt → Prop
  | primitive {p : Primitive} {type : TypeRef} {c : Constraint}
      (hk : v.registry.kind z.attr = .ok (.primitive p))
      (ht : v.scope.typeRef v.context z.attr = .ok type) :
      CheckOf z c (v.nativeCheck p type z.value z.position.path c)
  | collection {elem : Attribute} {l : Limit × Nat} (ht : CollectionOf z.attr.type elem) :
      CheckOf z (.length l.1 l.2)
        (v.lengthCheck l.1 (.len z.position.var) z.position.var z.position.path l.2)

/-- One of the fields is required, and its absence shows. The absence shows if there is a nil that
    stands for it. -/
def Misses (required : List String) (fields : List (String × Attribute)) : Prop :=
  ∃ f ∈ fields, f.1 ∈ required ∧ v.showsMissing f.2 = .ok true

/-- The place has something to check of its own. What is inside it may demand more, and so may the
    type of the value, which has a validator for that. -/
inductive DemandsAt (z : Place) : Prop
  | constraint {c : Constraint} (h : v.Constrains z c)
  | missing {fields : List (String × Attribute)} (ht : z.attr.type = .object fields)
      (h : v.Misses z.attr.rules.required fields)

/-- The subject has something to check of its own: at a place that its validator looks at, or the
    presence of one of its fields. -/
inductive Demands (s : Subject) : Prop
  | place {z : Place} (hz : v.Looks s z) (h : v.DemandsAt z)
  | missing {r : Attribute} {view : Option View} {fields : List (String × Attribute)}
      (hd : v.Describes s r view) (ht : r.type = .object fields)
      (h : v.Misses r.rules.required ((shownFields fields view).map fun f => (f.name, f.attr)))

/-- The code merges some error into the one that is returned. Where none is merged, the code does
    nothing and need not be written. -/
def Finds (code : Block) : Prop := ∃ e, v.merge e ∈ code.parts

/-- The check that one required field is there. -/
def missingStmt (p : Position) (name : String) (a : Attribute) : Stmt :=
  v.mergeWhen (p.var.field (a.fieldName name)).isNil
    (v.report "MissingFieldError" [.str name, .str p.path])

end

variable {v : Validation} {isBuilt : Subject → Bool} {y z : Place} {ys : List Place}
  {s s' : Subject} {c : Constraint} {checks : Checks} {code : Block} {stmt : Stmt}

/-! ## Missing fields -/

theorem missingCheck_eq_ok {required : List String} {p : Position} {name : String} {a : Attribute}
    (h : v.missingCheck required p name a = .ok code) :
    stmt ∈ code ↔
      name ∈ required ∧ v.showsMissing a = .ok true ∧ stmt = v.missingStmt p name a := by
  unfold missingCheck at h
  by_cases hr : name ∈ required
  · simp only [List.contains_iff_mem.mpr hr, Bool.not_true, Bool.false_eq_true, if_false] at h
    obtain ⟨shows, hs, h⟩ := except_bind_eq_ok.mp h
    cases shows with
    | true =>
      cases h
      simp [hr, hs, missingStmt]
    | false =>
      cases h
      simp [hs]
  · have : required.contains name = false := by simpa using hr
    simp only [this, Bool.not_false, if_true] at h
    cases h
    simp [hr]

/-- There is such a check for each required field whose absence shows, and for no other. By
    induction on the fields, which are those that the object shows. -/
theorem mem_missingChecks {required : List String} {p : Position} :
    ∀ {fields : List (String × Attribute)} {code : Block},
      v.missingChecks required p fields = .ok code →
      (stmt ∈ code ↔ ∃ f ∈ fields, f.1 ∈ required ∧ v.showsMissing f.2 = .ok true ∧
        stmt = v.missingStmt p f.1 f.2) := by
  intro fields
  induction fields with
  | nil =>
    intro code h
    cases h
    simp
  | cons f rest ih =>
    intro code h
    unfold missingChecks at h
    obtain ⟨first, hfirst, h⟩ := except_bind_eq_ok.mp h
    obtain ⟨others, hothers, h⟩ := except_bind_eq_ok.mp h
    cases h
    rw [List.mem_append, missingCheck_eq_ok hfirst, ih hothers]
    simp only [List.mem_cons, or_and_right, exists_or, exists_eq_left]

/-- There is no such check just where no field is missed. -/
theorem missingChecks_eq_nil {required : List String} {p : Position}
    {fields : List (String × Attribute)} (h : v.missingChecks required p fields = .ok code) :
    code = [] ↔ ¬ v.Misses required fields := by
  rw [List.eq_nil_iff_forall_not_mem]
  constructor
  · intro hno hmiss
    obtain ⟨f, hf, hr, hs⟩ := hmiss
    exact hno _ ((mem_missingChecks h).mpr ⟨f, hf, hr, hs, rfl⟩)
  · intro hno stmt hm
    obtain ⟨f, hf, hr, hs, -⟩ := (mem_missingChecks h).mp hm
    exact hno ⟨f, hf, hr, hs⟩

theorem mem_lengthChecks {r : Rules} {l : Limit × Nat} (hl : l ∈ r.lengths) {len value : Expr}
    {path : String} :
    v.lengthCheck l.1 len value path l.2 ∈ v.lengthChecks r len value path := by
  rw [lengthChecks_eq]
  exact List.mem_map_of_mem hl

/-! ## Code around code -/

theorem mem_parts_guarded {mayBeNil : Bool} {var : Expr} (h : stmt ∈ code.parts) :
    stmt ∈ (guarded mayBeNil var code).parts := by
  unfold guarded
  split
  · exact h
  · exact Block.mem_parts_singleton (Stmt.mem_parts_when h)

theorem mem_parts_loop {p : Position} (h : stmt ∈ checks.code.parts) :
    stmt ∈ (p.loop checks).code.parts := by
  show stmt ∈ Block.parts (if checks.code.isEmpty then [] else _)
  split
  · rename_i hnil
    rw [List.isEmpty_iff.mp hnil, Block.parts_nil] at h
    simp at h
  · exact Block.mem_parts_singleton (Stmt.mem_parts_range h)

/-- A test is not written around nothing. -/
theorem guarded_eq_nil {mayBeNil : Bool} {var : Expr} :
    guarded mayBeNil var code = [] ↔ code = [] := by
  unfold guarded
  split
  · rfl
  · simp_all

theorem loop_eq_nil {p : Position} : (p.loop checks).code = [] ↔ checks.code = [] := by
  show (if checks.code.isEmpty then [] else _) = [] ↔ _
  split <;> simp_all

namespace Finds

theorem ne_nil (h : v.Finds code) : code ≠ [] := by
  intro hnil
  obtain ⟨e, he⟩ := h
  rw [hnil, Block.parts_nil] at he
  exact List.not_mem_nil he

theorem left (h : v.Finds code) (more : Block) : v.Finds (code ++ more) := by
  obtain ⟨e, he⟩ := h
  exact ⟨e, Block.parts_subset_left code more he⟩

theorem right (h : v.Finds code) (more : Block) : v.Finds (more ++ code) := by
  obtain ⟨e, he⟩ := h
  exact ⟨e, Block.parts_subset_right more code he⟩

theorem guarded {mayBeNil : Bool} {var : Expr} (h : v.Finds code) :
    v.Finds (Validation.guarded mayBeNil var code) :=
  let ⟨e, he⟩ := h
  ⟨e, mem_parts_guarded he⟩

theorem loop {p : Position} (h : v.Finds checks.code) : v.Finds (p.loop checks).code :=
  let ⟨e, he⟩ := h
  ⟨e, mem_parts_loop he⟩

theorem of_mem (h : stmt ∈ code) (hs : v.Finds [stmt]) : v.Finds code := by
  obtain ⟨more, rest, rfl⟩ := List.append_of_mem h
  rw [← List.singleton_append]
  exact (hs.left rest).right more

theorem merge (v : Validation) (e : Expr) : v.Finds [v.merge e] :=
  ⟨e, Block.mem_parts_of_mem (List.mem_singleton_self _)⟩

theorem mergeWhen (v : Validation) (test e : Expr) : v.Finds [v.mergeWhen test e] :=
  ⟨e, Block.mem_parts_singleton (Stmt.mem_parts_when (Block.mem_parts_of_mem
    (List.mem_singleton_self _)))⟩

theorem callCheck (v : Validation) (name : String) (var : Expr) :
    v.Finds [v.callCheck name var] :=
  ⟨.ident "err2", Block.mem_parts_singleton (Stmt.mem_parts_cond (Block.mem_parts_of_mem
    (List.mem_singleton_self _)))⟩

theorem check (v : Validation) (p : Primitive) (native : TypeRef) (value : Expr) (path : String)
    (c : Constraint) : v.Finds [v.check p native value path c] := by
  cases c with
  | enum first others => exact mergeWhen v _ _
  | format f => exact merge v _
  | pattern pattern => exact merge v _
  | length limit n => exact mergeWhen v _ _
  | bound limit x => exact mergeWhen v _ _

theorem missing {required : List String} {p : Position} {fields : List (String × Attribute)}
    (h : v.missingChecks required p fields = .ok code) (hmiss : v.Misses required fields) :
    v.Finds code := by
  obtain ⟨f, hf, hr, hs⟩ := hmiss
  exact .of_mem ((mem_missingChecks h).mpr ⟨f, hf, hr, hs, rfl⟩) (mergeWhen v _ _)

end Finds

/-! ## What the places demand -/

theorem constrains_primitive {p : Primitive} (hk : v.registry.kind y.attr = .ok (.primitive p)) :
    v.Constrains y c ↔ ∃ x, v.Speaks y.attr x ∧ c ∈ x.rules.constraints p := by
  constructor
  · intro h
    cases h with
    | primitive hk' hx hc =>
      rw [hk] at hk'
      cases hk'
      exact ⟨_, hx, hc⟩
    | collection ht => exact absurd hk ht.kind_ne_primitive
  · intro h
    obtain ⟨x, hx, hc⟩ := h
    exact .primitive hk hx hc

theorem constrains_collection {elem : Attribute} (ht : CollectionOf y.attr.type elem) :
    v.Constrains y c ↔ ∃ l ∈ y.attr.rules.lengths, c = .length l.1 l.2 := by
  constructor
  · intro h
    cases h with
    | primitive hk => exact absurd hk ht.kind_ne_primitive
    | collection _ hl => exact ⟨_, hl, rfl⟩
  · intro h
    obtain ⟨l, hl, rfl⟩ := h
    exact .collection ht hl

theorem not_constrains_object {fields : List (String × Attribute)}
    (ht : y.attr.type = .object fields) : ¬ v.Constrains y c := by
  intro h
  cases h with
  | primitive hk =>
    rw [(stands_object ht).2] at hk
    cases hk
  | collection ht' => exact ht'.ne_object ht

theorem demandsAt_primitive {p : Primitive} (hk : v.registry.kind y.attr = .ok (.primitive p)) :
    v.DemandsAt y ↔ ∃ x c, v.Speaks y.attr x ∧ c ∈ x.rules.constraints p := by
  constructor
  · intro h
    cases h with
    | constraint h =>
      obtain ⟨x, hx, hc⟩ := (constrains_primitive hk).mp h
      exact ⟨x, _, hx, hc⟩
    | missing ht =>
      have hk' := (stands_object (v := v) ht).2
      simp [hk] at hk'
  · intro h
    obtain ⟨x, c, hx, hc⟩ := h
    exact .constraint (.primitive hk hx hc)

/-- Nothing is demanded of a union, nor of a value that is handed over. What is wrong with the
    latter is found by the validator that is called. -/
theorem not_demandsAt {k : Kind} (hk : v.registry.kind y.attr = .ok k)
    (hno : k = .union ∨ (y.attr.userId?.isSome ∧ k.isPrimitive = false)) : ¬ v.DemandsAt y := by
  intro h
  -- A demand is made by a constraint on a primitive or a collection, or by the fields of an object
  -- that are required.
  cases h with
  | constraint h =>
    cases h with
    | primitive hk' =>
      rw [hk] at hk'
      cases hk'
      simp [Kind.isPrimitive] at hno
    | collection ht =>
      obtain ⟨hu, hk'⟩ := stands_collection (v := v) ht
      simp only [hu, Option.isSome_none, Bool.false_eq_true, false_and, or_false] at hno
      subst hno
      simp [hk] at hk'
  | missing ht =>
    obtain ⟨hu, hk'⟩ := stands_object (v := v) ht
    simp only [hu, Option.isSome_none, Bool.false_eq_true, false_and, or_false] at hno
    subst hno
    simp [hk] at hk'

theorem HandsOver.not_demandsAt (h : v.HandsOver y s) : ¬ v.DemandsAt y := by
  obtain ⟨hid, hkind, hk, -⟩ := h
  refine Validation.not_demandsAt hkind (.inr ⟨by simp [hid], ?_⟩)
  rcases hk with rfl | rfl | rfl <;> rfl

/-- An object demands that its required fields are there, and nothing else. -/
theorem demandsAt_object {fields : List (String × Attribute)} (ht : y.attr.type = .object fields) :
    v.DemandsAt y ↔ v.Misses y.attr.rules.required fields := by
  constructor
  · intro h
    cases h with
    | constraint h => exact absurd h (not_constrains_object ht)
    | missing ht' h =>
      rw [ht] at ht'
      cases ht'
      exact h
  · exact .missing ht

theorem demandsAt_collection {elem : Attribute} (ht : CollectionOf y.attr.type elem) :
    v.DemandsAt y ↔ ∃ l, l ∈ y.attr.rules.lengths := by
  constructor
  · intro h
    cases h with
    | constraint h =>
      obtain ⟨l, hl, -⟩ := (constrains_collection ht).mp h
      exact ⟨l, hl⟩
    | missing ht' => exact absurd ht' ht.ne_object
  · intro h
    obtain ⟨l, hl⟩ := h
    exact .constraint (.collection ht hl)

namespace Builds

/-- The subjects that are called, or would be if they had validators, are those that values are
    handed over to. -/
theorem mem_calls (h : v.Builds isBuilt ys checks) :
    s ∈ checks.calls ↔ ∃ z, v.Within ys z ∧ v.HandsOver z s := by
  -- A value is handed over, or has others inside, or neither.
  have alone : ∀ {y : Place} {t : Subject}, v.HandsOver y t →
      (s ∈ [t] ↔ ∃ z, v.Within [y] z ∧ v.HandsOver z s) := by
    intro y t ht
    rw [exists_within_leaf fun _ => ht.not_inner, List.mem_singleton]
    exact ⟨fun h => h ▸ ht, fun h => h.unique ht⟩
  have leaf : ∀ {y : Place} {k : Kind}, v.registry.kind y.attr = .ok k →
      k ≠ .object ∧ k ≠ .array ∧ k ≠ .map → ¬ ∃ z, v.Within [y] z ∧ v.HandsOver z s := by
    intro y k hk hno
    rw [exists_within_leaf fun _ => not_inner_of_kind hk hno]
    intro h
    obtain ⟨-, hk', hyes, -⟩ := h
    rw [hk] at hk'
    cases hk'
    rcases hyes with rfl | rfl | rfl <;> simp at hno
  have inside : ∀ {y : Place} {zs : List Place}, y.attr.userId? = none →
      (∀ w, v.Inner y w ↔ w ∈ zs) → ((∃ z, v.Within [y] z ∧ v.HandsOver z s) ↔
        ∃ z, v.Within zs z ∧ v.HandsOver z s) := by
    intro y zs hu hin
    rw [exists_within_singleton hin]
    refine ⟨fun h => h.resolve_left fun hands => ?_, .inr⟩
    obtain ⟨hid, -, -, -⟩ := hands
    rw [hu] at hid
    cases hid
  induction h with
  | nil => exact iff_of_false (by simp) exists_within_nil
  | cons _ _ ih ihs => exact (List.mem_append.trans (or_congr ih ihs)).trans exists_within_cons.symm
  | primitive hk hc => exact iff_of_false (by simp) (leaf hk (by simp))
  | union hk => exact iff_of_false (by simp) (leaf hk (by simp))
  | left hs hb => exact alone hs
  | called hs hb hn ho => exact alone hs
  | object ht hm hz _ ih =>
    exact ih.trans (inside (stands_object (v := v) ht).1 fun _ => inner_object ht hz).symm
  | collection ht _ ih =>
    exact ih.trans (inside (stands_collection (v := v) ht).1 fun _ => inner_collection ht).symm

/-- Where something is demanded, or a validator that exists is called, some error is merged. By
    recursion along what was built. Each kind of place adds its code to that of the places
    inside. -/
theorem finds (h : v.Builds isBuilt ys checks)
    (hd : (∃ z, v.Within ys z ∧ v.DemandsAt z) ∨ ∃ s ∈ checks.calls, isBuilt s = true) :
    v.Finds checks.code := by
  -- By induction over what was built. An object is found by a missing field or by one of its
  -- places.
  induction h with
  | nil => simp [exists_within_nil] at hd
  | cons _ _ ih ihs =>
    rw [exists_within_cons] at hd
    simp only [Checks.append, List.mem_append, or_and_right, exists_or] at hd
    rcases hd with (hd | hd) | hd | hd
    · exact (ih (.inl hd)).left _
    · exact (ihs (.inl hd)).right _
    · exact (ih (.inr hd)).left _
    · exact (ihs (.inr hd)).right _
  | primitive hk hc =>
    rw [exists_within_leaf fun _ => not_inner_of_kind hk (by simp), demandsAt_primitive hk] at hd
    obtain ⟨x, c, hx, hm⟩ := hd.resolve_right (by simp)
    obtain ⟨-, type, -, ht, -⟩ := primitiveChecks_eq_ok.mp hc
    have hcheck := (mem_primitiveChecks hc).mpr ⟨x, c, type, hx, hm, ht, rfl⟩
    exact (Finds.of_mem hcheck (Finds.check v _ _ _ _ c)).guarded
  | union hk =>
    rw [exists_within_leaf fun _ => not_inner_of_kind hk (by simp)] at hd
    exact absurd (hd.resolve_right (by simp)) (not_demandsAt hk (.inl rfl))
  | left hs hb =>
    rw [exists_within_leaf fun _ => hs.not_inner] at hd
    simp [hs.not_demandsAt, hb] at hd
  | called hs hb hn ho => exact (Finds.callCheck v _ _).guarded
  | object ht hm hz _ ih =>
    rw [exists_within_singleton fun _ => inner_object ht hz, demandsAt_object ht, or_assoc] at hd
    rcases hd with hmiss | hd
    · exact ((Finds.missing hm hmiss).left _).guarded
    · exact ((ih hd).right _).guarded
  | collection ht _ ih =>
    rw [exists_within_singleton fun _ => inner_collection ht, demandsAt_collection ht,
      or_assoc] at hd
    rcases hd with ⟨l, hl⟩ | hd
    · exact (Finds.of_mem (mem_lengthChecks hl) (Finds.mergeWhen v _ _)).left _
    · exact (ih hd).loop.right _

/-- Where nothing is demanded and no validator exists there is no code. With `finds` this makes the
    emptiness of code a property of the types, which is what the search asks. -/
theorem eq_nil (h : v.Builds isBuilt ys checks) (hd : ¬ ∃ z, v.Within ys z ∧ v.DemandsAt z)
    (hc : ∀ s ∈ checks.calls, isBuilt s = false) : checks.code = [] := by
  induction h with
  | nil => rfl
  | cons _ _ ih ihs =>
    rw [exists_within_cons, not_or] at hd
    simp only [Checks.append, List.mem_append] at hc
    rw [Checks.append, ih hd.1 fun s hs => hc s (.inl hs), ihs hd.2 fun s hs => hc s (.inr hs),
      List.append_nil]
  | primitive hk hc' =>
    rw [exists_within_leaf fun _ => not_inner_of_kind hk (by simp), demandsAt_primitive hk] at hd
    refine guarded_eq_nil.mpr (List.eq_nil_iff_forall_not_mem.mpr fun s hs => hd ?_)
    obtain ⟨x, c, -, hx, hm, -⟩ := (mem_primitiveChecks hc').mp hs
    exact ⟨x, c, hx, hm⟩
  | union hk => rfl
  | left hs hb => rfl
  -- A call would be of a validator that exists.
  | called hs hb hn ho => simp [hb] at hc
  | object ht hm hz _ ih =>
    rw [exists_within_singleton fun _ => inner_object ht hz, demandsAt_object ht, not_or] at hd
    have hmissing := (missingChecks_eq_nil hm).mpr hd.1
    exact guarded_eq_nil.mpr (List.append_eq_nil_iff.mpr ⟨hmissing, ih hd.2 hc⟩)
  | collection ht _ ih =>
    rw [exists_within_singleton fun _ => inner_collection ht, demandsAt_collection ht, not_or] at hd
    refine List.append_eq_nil_iff.mpr ⟨?_, loop_eq_nil.mpr (ih hd.2 hc)⟩
    rw [lengthChecks_eq, List.map_eq_nil_iff]
    exact List.eq_nil_iff_forall_not_mem.mpr fun l hl => hd.1 ⟨l, hl⟩

/-- Each constraint on a place is checked by a statement of the code. The statement may stand inside
    loops and tests, so it is a part of the code and need not be in front. -/
theorem contains (h : v.Builds isBuilt ys checks) (hz : v.Within ys z) (hc : v.Constrains z c) :
    ∃ stmt, v.CheckOf z c stmt ∧ stmt ∈ checks.code.parts := by
  -- The check is found in the code of some part, which stands in that of the whole.
  have wider : ∀ {code code' : Block}, code.parts ⊆ code'.parts →
      (∃ stmt, v.CheckOf z c stmt ∧ stmt ∈ code.parts) →
      ∃ stmt, v.CheckOf z c stmt ∧ stmt ∈ code'.parts := fun hsub ⟨stmt, hs, hm⟩ =>
    ⟨stmt, hs, hsub hm⟩
  induction h with
  | nil => exact absurd hz not_within_nil
  | cons _ _ ih ihs =>
    rcases within_cons.mp hz with hz | hz
    · exact wider (Block.parts_subset_left _ _) (ih hz)
    · exact wider (Block.parts_subset_right _ _) (ihs hz)
  | primitive hk hcode =>
    obtain rfl := (within_leaf fun _ => not_inner_of_kind hk (by simp)).mp hz
    obtain ⟨-, type, -, ht, -⟩ := primitiveChecks_eq_ok.mp hcode
    obtain ⟨x, hx, hm⟩ := (constrains_primitive hk).mp hc
    have hcheck := (mem_primitiveChecks hcode).mpr ⟨x, c, type, hx, hm, ht, rfl⟩
    exact ⟨_, .primitive hk ht, mem_parts_guarded (Block.mem_parts_of_mem hcheck)⟩
  | union hk =>
    obtain rfl := (within_leaf fun _ => not_inner_of_kind hk (by simp)).mp hz
    exact absurd (.constraint hc) (not_demandsAt hk (.inl rfl))
  | left hs hb =>
    obtain rfl := (within_leaf fun _ => hs.not_inner).mp hz
    exact absurd (.constraint hc) hs.not_demandsAt
  | called hs hb hn ho =>
    obtain rfl := (within_leaf fun _ => hs.not_inner).mp hz
    exact absurd (.constraint hc) hs.not_demandsAt
  | object ht hm hzs _ ih =>
    rcases (within_singleton fun _ => inner_object ht hzs).mp hz with rfl | hz
    · exact absurd hc (not_constrains_object ht)
    · exact wider (fun s hs => mem_parts_guarded (Block.parts_subset_right _ _ hs)) (ih hz)
  | collection ht _ ih =>
    rcases (within_singleton fun _ => inner_collection ht).mp hz with rfl | hz
    · obtain ⟨l, hl, rfl⟩ := (constrains_collection ht).mp hc
      exact ⟨_, .collection ht, Block.mem_parts_of_mem
        (List.mem_append_left _ (mem_lengthChecks hl))⟩
    · exact wider (fun s hs => Block.parts_subset_right _ _ (mem_parts_loop hs)) (ih hz)

end Builds

/-! ## What the body of a validator does -/

theorem Describes.unique {r r' : Attribute} {view view' : Option View}
    (h : v.Describes s r view) (h' : v.Describes s r' view') : r = r' ∧ view = view' := by
  obtain ⟨⟨t, ht, hr⟩, hview⟩ := h
  obtain ⟨⟨t', ht', hr'⟩, hview'⟩ := h'
  rw [ht] at ht'
  cases ht'
  rw [hr] at hr'
  rw [hview] at hview'
  cases hr'
  cases hview'
  exact ⟨rfl, rfl⟩

section

variable {r elem : Attribute} {view : Option View} {fields : List (String × Attribute)}
  {zs : List Place} {w : Place}

theorem top_object (hd : v.Describes s r view) (ht : r.type = .object fields)
    (hz : List.Forall₂ (v.HoldsField r.rules.required (v.argument s))
      (shownFields fields view) zs) : v.Top s w ↔ w ∈ zs := by
  rw [← holdsField_iff hz]
  constructor
  · intro h
    cases h with
    | field hd' ht' hf hw =>
      obtain ⟨rfl, rfl⟩ := hd.unique hd'
      rw [ht] at ht'
      cases ht'
      exact ⟨_, hf, hw⟩
    | element hd' ht' =>
      obtain ⟨rfl, rfl⟩ := hd.unique hd'
      exact absurd ht ht'.ne_object
  · intro h
    obtain ⟨f, hf, hw⟩ := h
    exact .field hd ht hf hw

theorem top_collection (hd : v.Describes s r view) (ht : CollectionOf r.type elem) :
    v.Top s w ↔ w ∈ [elementPlace (v.argument s) elem] := by
  rw [List.mem_singleton]
  constructor
  · intro h
    cases h with
    | field hd' ht' =>
      obtain ⟨rfl, rfl⟩ := hd.unique hd'
      exact absurd ht' ht.ne_object
    | element hd' ht' =>
      obtain ⟨rfl, rfl⟩ := hd.unique hd'
      rw [ht.unique ht']
  · rintro rfl
    exact .element hd ht

/-- Nothing is looked at in what is neither an object nor a collection. -/
theorem not_top_plain (hd : v.Describes s r view) (ho : ∀ fields, r.type ≠ .object fields)
    (hc : ∀ elem, ¬ CollectionOf r.type elem) : ¬ v.Top s w := by
  intro h
  cases h with
  | field hd' ht =>
    obtain ⟨rfl, rfl⟩ := hd.unique hd'
    exact ho _ ht
  | element hd' ht =>
    obtain ⟨rfl, rfl⟩ := hd.unique hd'
    exact hc _ ht

theorem exists_looks {P : Place → Prop} (hz : ∀ w, v.Top s w ↔ w ∈ zs) :
    (∃ z, v.Looks s z ∧ P z) ↔ ∃ z, v.Within zs z ∧ P z := by
  simp only [Looks, Within, hz]

/-- A subject demands what its places do, and the required fields of an object. For a subject that
    is no object only the first part remains. -/
theorem demands_iff (hd : v.Describes s r view) :
    v.Demands s ↔ (∃ z, v.Looks s z ∧ v.DemandsAt z) ∨ ∃ fields, r.type = .object fields ∧
      v.Misses r.rules.required ((shownFields fields view).map fun f => (f.name, f.attr)) := by
  constructor
  · intro h
    cases h with
    | place hz h => exact .inl ⟨_, hz, h⟩
    | missing hd' ht h =>
      obtain ⟨rfl, rfl⟩ := hd.unique hd'
      exact .inr ⟨_, ht, h⟩
  · intro h
    rcases h with ⟨z, hz, h⟩ | ⟨fields, ht, h⟩
    · exact .place hz h
    · exact .missing hd ht h

end

namespace BuildsBody

theorem mem_calls (h : v.BuildsBody isBuilt s checks) :
    s' ∈ checks.calls ↔ ∃ z, v.Looks s z ∧ v.HandsOver z s' := by
  cases h with
  | object hd ht hm hz h =>
    rw [exists_looks fun _ => top_object hd ht hz]
    exact h.mem_calls
  | collection hd ht h =>
    rw [exists_looks fun _ => top_collection hd ht]
    exact h.mem_calls
  | plain hd ho hc =>
    refine iff_of_false (by simp) fun h => ?_
    obtain ⟨z, ⟨y, hy, -⟩, -⟩ := h
    exact not_top_plain hd ho hc hy

theorem finds (h : v.BuildsBody isBuilt s checks)
    (hd : v.Demands s ∨ ∃ s' ∈ checks.calls, isBuilt s' = true) : v.Finds checks.code := by
  cases h with
  | object hd' ht hm hz h =>
    rw [demands_iff hd', exists_looks fun _ => top_object hd' ht hz] at hd
    rcases hd with (hd | ⟨fields, ht', hmiss⟩) | hd
    · exact (h.finds (.inl hd)).right _
    · rw [ht] at ht'
      cases ht'
      exact (Finds.missing hm hmiss).left _
    · exact (h.finds (.inr hd)).right _
  | collection hd' ht h =>
    rw [demands_iff hd', exists_looks fun _ => top_collection hd' ht] at hd
    refine (h.finds (hd.imp_left fun hd => hd.resolve_right fun hmiss => ?_)).loop
    obtain ⟨fields, ht', -⟩ := hmiss
    exact ht.ne_object ht'
  | plain hd' ho hc =>
    -- Nothing is looked at, nothing is called, and there are no fields.
    rw [demands_iff hd'] at hd
    rcases hd with (⟨z, ⟨y, hy, -⟩, -⟩ | ⟨fields, ht, -⟩) | hd
    · exact absurd hy (not_top_plain hd' ho hc)
    · exact absurd ht (ho fields)
    · simp at hd

theorem eq_nil (h : v.BuildsBody isBuilt s checks) (hd : ¬ v.Demands s)
    (hc : ∀ s' ∈ checks.calls, isBuilt s' = false) : checks.code = [] := by
  cases h with
  | object hd' ht hm hz h =>
    rw [demands_iff hd', exists_looks fun _ => top_object hd' ht hz, not_or] at hd
    have hmissing := (missingChecks_eq_nil hm).mpr fun hmiss => hd.2 ⟨_, ht, hmiss⟩
    exact List.append_eq_nil_iff.mpr ⟨hmissing, h.eq_nil hd.1 hc⟩
  | collection hd' ht h =>
    rw [demands_iff hd', exists_looks fun _ => top_collection hd' ht, not_or] at hd
    exact loop_eq_nil.mpr (h.eq_nil hd.1 hc)
  | plain => rfl

theorem contains (h : v.BuildsBody isBuilt s checks) (hz : v.Looks s z) (hc : v.Constrains z c) :
    ∃ stmt, v.CheckOf z c stmt ∧ stmt ∈ checks.code.parts := by
  cases h with
  | object hd ht hm hzs h =>
    obtain ⟨w, hw, rfl⟩ := (exists_looks fun _ => top_object hd ht hzs).mp ⟨z, hz, rfl⟩
    obtain ⟨stmt, hs, hmem⟩ := h.contains hw hc
    exact ⟨stmt, hs, Block.parts_subset_right _ _ hmem⟩
  | collection hd ht h =>
    obtain ⟨w, hw, rfl⟩ := (exists_looks fun _ => top_collection hd ht).mp ⟨z, hz, rfl⟩
    obtain ⟨stmt, hs, hmem⟩ := h.contains hw hc
    exact ⟨stmt, hs, mem_parts_loop hmem⟩
  | plain hd ho hc' =>
    obtain ⟨y, hy, -⟩ := hz
    exact absurd hy (not_top_plain hd ho hc')

end BuildsBody

end Validation
end Shapewright
