import Shapewright.Proofs.Conversion.Emission
import Shapewright.Proofs.Conversion.Variables
import Shapewright.Proofs.Execution

/-!
# What the code of a primitive field does

A primitive field is converted in up to three places: in the literal that allocates the result,
behind it, and where its default is put in. What the three amount to is one rule (`outcome`), given
what is in the field of the value, if anything is (`Reads`).

The code of a field touches no other field. That is said by `Works`, and carried from field to field
by `Frame`: the variables still hold the two objects, and what was there before the allocation has
not changed.

## The rule

Which of the three places writes the field depends on whether the two sides hold it by a pointer,
whether it is required, and whether its type has to be converted. The rule depends on none of that
but the pointers: nothing becomes the default if there is one to stand in, and otherwise a nil
pointer, the zero value or the converted nil; a value that is there is carried over. The one
exception is a zero value where neither side can tell it from an absent one. It is replaced by the
default, since this is what the test for zero in the code does.

## Two stages

Conversion comes first and the default last, for all fields of an object, so the content in between
has a name of its own (`converted`). The first stage may start in the literal (`Fills`), where there
is no object yet, and both end with a field that `Holds` a content. A stage behind the literal is a
`Turns`: from any state in the frame it runs, works on its own field only, and turns one content
into another. This is the form in which fields are put together in `Proofs.Conversion.Meaning`.

A content behind a pointer lies outside the object. It is the cell of a temporary, or that of the
value if the code takes its address.
-/

namespace Shapewright
namespace Conversion

open Execution

variable {δ : Type} {M : Machine δ} {c : Conversion} {f : FieldSite}

/-! ## The rule -/

/-- What is in a field that may hold a pointer, or a value that is a reference: nothing where there
    is nil. A value that is no reference is there even if it is zero. -/
inductive Reads (σ : State δ) (l : Loc) (pointer reference : Bool) : Option (Value δ) → Prop where
  | absent (h : σ.memory l = some .nil) (hn : (pointer || reference) = true) :
      Reads σ l pointer reference none
  | behind {k : Loc} {x : Value δ} (hp : pointer = true) (hl : σ.memory l = some (.pointer k))
      (hx : σ.memory k = some x) : Reads σ l pointer reference (some x)
  | plain {x : Value δ} (hp : pointer = false) (hl : σ.memory l = some x)
      (hx : reference = true → x ≠ .nil) : Reads σ l pointer reference (some x)

/-- What was there is read in the same way where it still is. -/
theorem Reads.of_memory {σ σ' : State δ} {l : Loc} {pointer reference : Bool} {x : Option (Value δ)}
    (h : Reads σ l pointer reference x) (hm : ∀ k y, σ.memory k = some y → σ'.memory k = some y) :
    Reads σ' l pointer reference x := by
  cases h with
  | absent hl hn => exact .absent (hm _ _ hl) hn
  | behind hp hl hx => exact .behind hp (hm _ _ hl) (hm _ _ hx)
  | plain hp hl hx => exact .plain hp (hm _ _ hl) hx

/-- What a present value becomes. It is the value itself where the types agree, or where the target
    takes anything. -/
def carry (M : Machine δ) (source target : TypeRef) (x : Value δ) : Value δ :=
  if source == target || target == .primitive .any then x else M.convert target x

/-- The default that the target asks for where there is no value. -/
def standIn? (c : Conversion) (f : FieldSite) : Option Literal :=
  if c.target.useDefault && !c.target.pointerForRequired && !f.required then f.target.default
  else none

/-- What a field of the type `target` holds that nothing was stored in. -/
def blank (M : Machine δ) (f : FieldSite) (target : TypeRef) : Value δ :=
  M.zero (if f.targetPointer then .pointer target else target)

/-- What conversion alone puts into the field. -/
def converted (M : Machine δ) (f : FieldSite) (source target : TypeRef) :
    Option (Value δ) → Content δ
  | none => .plain (if f.sourcePointer then blank M f target else .nil)
  | some x => .of f.targetPointer (carry M source target x)

/-- What is in the field of the result in the end, by what is in the field of the value. A default
    stands in for a value that is absent, and for a zero value where neither side can tell it from
    an absent one. -/
def outcome [DecidableEq δ] (M : Machine δ) (c : Conversion) (f : FieldSite)
    (source target : TypeRef) (reference : Bool) (x : Option (Value δ)) : Content δ :=
  match c.standIn? f, x with
  | none, x => converted M f source target x
  | some default, none => .of f.targetPointer (M.literal default target)
  | some default, some x =>
    if !f.sourcePointer && !reference && !f.targetPointer && carry M source target x = M.zero target
    then .plain (M.literal default target)
    else converted M f source target (some x)

section Outcome

variable [DecidableEq δ] {source target : TypeRef} {reference : Bool} {default : Literal}

theorem outcome_of_no_default (h : c.standIn? f = none) (x : Option (Value δ)) :
    outcome M c f source target reference x = converted M f source target x := by
  simp only [outcome, h]

theorem outcome_absent (h : c.standIn? f = some default) :
    outcome M c f source target reference none =
      .of f.targetPointer (M.literal default target) := by
  simp only [outcome, h]

/-- A value that is there stays, unless it is zero and neither side can tell that from absent. The
    exception is the one case in which the rule replaces a value, and is treated by
    `outcome_zero`. -/
theorem outcome_present {x : Value δ}
    (h : f.sourcePointer = true ∨ reference = true ∨ f.targetPointer = true ∨
      carry M source target x ≠ M.zero target) :
    outcome M c f source target reference (some x) = converted M f source target (some x) := by
  unfold outcome
  split
  · rfl
  · rename_i hx
    cases hx
  · rename_i hx
    cases hx
    refine if_neg fun hz => ?_
    simp only [Bool.and_eq_true, Bool.not_eq_true', decide_eq_true_eq] at hz
    obtain ⟨⟨⟨hs, hr⟩, ht⟩, hz⟩ := hz
    rcases h with h | h | h | h
    · simp [hs] at h
    · simp [hr] at h
    · simp [ht] at h
    · exact h hz

theorem outcome_zero (h : c.standIn? f = some default) (hs : f.sourcePointer = false)
    (hr : reference = false) (ht : f.targetPointer = false) {x : Value δ}
    (hx : carry M source target x = M.zero target) :
    outcome M c f source target reference (some x) = .plain (M.literal default target) := by
  simp [outcome, h, hs, hr, ht, hx]

end Outcome

/-! ## The frame of a field -/

/-- The state `σ` comes from `σ₀`, in which the variable `value` held the object `source`, by
    allocating the object `object` for the variable `place` and working on its fields. Objects from
    before have lower numbers, so their fields are none of those. -/
structure Frame (value place : String) (source object : Nat) (σ₀ σ : State δ) : Prop where
  value : ∃ k, σ.cell? value = some k ∧ σ.memory (.cell k) = some (.object source)
  place : ∃ k, σ.cell? place = some k ∧ σ.memory (.cell k) = some (.object object)
  before : ∀ l x, σ₀.memory l = some x → l.number < object ∧ σ.memory l = some x
  bounded : σ.Bounded

section Frame

variable {value place : String} {source object : Nat} {σ₀ σ σ' : State δ} {name : String}

/-- Work on a field of the new object leaves the frame intact. The two variables are cells, and what
    was there before is elsewhere. -/
theorem Frame.works (h : Frame value place source object σ₀ σ)
    (hw : Works [value, place] (.field object name) σ σ') :
    Frame value place source object σ₀ σ' where
  value := by
    obtain ⟨k, hk, hm⟩ := h.value
    exact ⟨k, (hw.cells value (by simp)).trans hk, hw.memory _ _ (by simp) hm⟩
  place := by
    obtain ⟨k, hk, hm⟩ := h.place
    exact ⟨k, (hw.cells place (by simp)).trans hk, hw.memory _ _ (by simp) hm⟩
  before l x hl := by
    obtain ⟨hlt, hm⟩ := h.before l x hl
    refine ⟨hlt, hw.memory l x ?_ hm⟩
    rintro rfl
    exact absurd hlt (Nat.lt_irrefl _)
  bounded := hw.bounded

theorem Frame.eval_value (h : Frame value place source object σ₀ σ) :
    M.eval σ (.ident value) = some (.object source) :=
  let ⟨_, hk, hm⟩ := h.value
  Machine.eval_ident hk hm

theorem Frame.eval_place (h : Frame value place source object σ₀ σ) :
    M.eval σ (.ident place) = some (.object object) :=
  let ⟨_, hk, hm⟩ := h.place
  Machine.eval_ident hk hm

/-- Variables that the code of a field binds hide neither object. -/
theorem Frame.bind (h : Frame value place source object σ₀ σ) {x : Value δ}
    (hname : name ∉ [value, place]) : Frame value place source object σ₀ (σ.bind name x) :=
  have hw : Works [value, place] (.field object name) σ (σ.bind name x) := .bind h.bounded hname
  h.works hw

end Frame

/-- What is known of a field with primitives on both sides, whatever its value is. A reference is
    not held by a pointer in the target, since it can be nil by itself. -/
structure FieldCase (c : Conversion) (f : FieldSite) (value place field : String)
    (s t : TypeRef) (reference : Bool) : Prop where
  value : f.value = (Expr.ident value).field field
  place : f.place = (Expr.ident place).field f.placeName
  sourcePrimitive : f.sourcePrimitive = true
  targetPrimitive : f.targetPrimitive = true
  source : c.sourceRef f.source = .ok s
  target : c.targetRef f.target = .ok t
  kind : ∃ p, c.registry.primitive? f.source = .ok (some p) ∧ p.isReference = reference
  pointer : reference = true → f.targetPointer = false

/-- From every state in the frame, the code turns the content of the field into another. Nothing
    else that was in the memory changes, and no variable but new ones, so the code of several fields
    can be put together. -/
def Turns [DecidableEq δ] (M : Machine δ) (value place : String) (source object : Nat)
    (σ₀ : State δ) (name : String) (b : Block) (pre post : Content δ) : Prop :=
  ∀ σ, Frame value place source object σ₀ σ → σ.Holds (.field object name) pre →
    ∃ σ', M.Runs σ b σ' ∧ Works [value, place] (.field object name) σ σ' ∧
      σ'.Holds (.field object name) post

section Turns

variable [DecidableEq δ] {value place field : String} {source object : Nat} {σ₀ σ : State δ}
  {s t : TypeRef} {reference : Bool} {x : Option (Value δ)} {pre : Content δ} {e : Expr}
  {y : Value δ}

theorem Turns.nil {name : String} {content : Content δ} :
    Turns M value place source object σ₀ name [] content content :=
  fun σ h hpre => ⟨σ, .nil, .refl h.bounded, hpre⟩

/-! ### Storing -/

section Storing

variable (h : Frame value place source object σ₀ σ)
  (hf : c.FieldCase f value place field s t reference)
  (hpre : σ.Holds (.field object f.placeName) pre)
include h hf hpre

omit [DecidableEq δ] in
theorem Frame.locate_place : M.locate σ f.place = some (.field object f.placeName) := by
  obtain ⟨z, hz⟩ := hpre.exists_memory
  rw [hf.place]
  exact Machine.locate_field h.eval_place hz

/-- Storing a value in the field. -/
theorem Frame.set (he : M.eval σ e = some y) :
    ∃ σ', M.Runs σ [.set f.place e] σ' ∧
      Works [value, place] (.field object f.placeName) σ σ' ∧
      σ'.Holds (.field object f.placeName) (.plain y) := by
  obtain ⟨z, hz⟩ := hpre.exists_memory
  have hrun := Machine.run_set he (h.locate_place hf hpre)
  exact ⟨_, .single hrun, .write h.bounded hz, State.memory_write_self _ _ _⟩

/-- A value is stored behind a pointer by way of a variable. The variable is a new cell, and the
    pointer leads there. Nothing else refers to it, so it keeps what it holds. -/
theorem Frame.setHeld {name : String} (hname : name ∉ [value, place]) {s₁ : Stmt}
    (hs : M.run σ s₁ = some (.next (σ.bind name y))) :
    ∃ σ', M.Runs σ [s₁, .set f.place (Expr.ident name).addr] σ' ∧
      Works [value, place] (.field object f.placeName) σ σ' ∧
      σ'.Holds (.field object f.placeName) (.behind y) := by
  obtain ⟨z, hz⟩ := hpre.exists_memory
  have hbound : Frame value place source object σ₀ (σ.bind name y) := h.bind hname
  have hz' := State.memory_bind h.bounded name y hz
  have hlocate : M.locate (σ.bind name y) f.place = some (.field object f.placeName) := by
    rw [hf.place]
    exact Machine.locate_field hbound.eval_place hz'
  have haddr : M.eval (σ.bind name y) (Expr.ident name).addr = some (.pointer (.cell σ.next)) :=
    Machine.eval_addr (Machine.locate_ident (State.cell?_bind_self σ name y))
  have hlt : object < σ.next := h.bounded _ z hz
  refine ⟨_, .cons hs (.single (Machine.run_set haddr hlocate)), ?_, ?_⟩
  · exact (Works.bind h.bounded hname).trans (.write hbound.bounded hz')
  · refine ⟨.cell σ.next, (Nat.ne_of_gt hlt), State.memory_write_self _ _ _, ?_⟩
    rw [State.memory_write (by simp)]
    exact State.memory_bind_self σ name y

end Storing

/-! ### Reading -/

omit [DecidableEq δ] in
theorem Frame.reads {l : Loc} {pointer : Bool} (h : Frame value place source object σ₀ σ)
    (hx : Reads σ₀ l pointer reference x) : Reads σ l pointer reference x :=
  hx.of_memory fun k y hk => (h.before k y hk).2

omit [DecidableEq δ] in
theorem FieldCase.eval (hf : c.FieldCase f value place field s t reference)
    (hobj : M.eval σ (.ident value) = some (.object source))
    (hl : σ.memory (.field source field) = some y) : M.eval σ f.value = some y := by
  rw [hf.value]
  exact Machine.eval_field hobj hl

omit [DecidableEq δ] in
/-- Where nothing is, the field is nil. -/
theorem FieldCase.eval_absent (hf : c.FieldCase f value place field s t reference)
    (hobj : M.eval σ (.ident value) = some (.object source))
    (hx : Reads σ (.field source field) f.sourcePointer reference none) :
    M.eval σ f.value = some .nil := by
  cases hx with
  | absent hl => exact hf.eval hobj hl

omit [DecidableEq δ] in
/-- Where a value is, it is found in the field or behind the pointer there. The value may not be
    there at all, in which case a pointer that is followed would be nil. -/
theorem FieldCase.eval_present (hf : c.FieldCase f value place field s t reference)
    (hobj : M.eval σ (.ident value) = some (.object source))
    (hx : Reads σ (.field source field) f.sourcePointer reference (some y)) :
    M.eval σ (if f.sourcePointer then f.value.deref else f.value) = some y := by
  cases hx with
  | behind hp hl hy =>
    rw [if_pos hp]
    exact Machine.eval_deref (hf.eval hobj hl) hy
  | plain hp hl =>
    rw [if_neg (by simp [hp])]
    exact hf.eval hobj hl

section Tests

variable (hf : c.FieldCase f value place field s t reference)
  (hx : Reads σ₀ (.field source field) f.sourcePointer reference x)
include hf hx

/-- The code behind a test of the field runs just where there is a value. Only pointers are
    tested. -/
theorem ifPresent_turns {b : Block} {post : Content δ} (hp : f.sourcePointer = true)
    (hpresent : ∀ y, x = some y →
      Turns M value place source object σ₀ f.placeName b pre post)
    (habsent : x = none → pre = post) :
    Turns M value place source object σ₀ f.placeName [f.ifPresent b] pre post := by
  intro σ h hpre
  cases h.reads hx with
  | absent hl =>
    have he : M.eval σ f.value = some .nil := hf.eval h.eval_value hl
    have hrun : M.run σ (f.ifPresent b) = some (.next σ) := Machine.run_when_not (by
      rw [Machine.test_notNil he]
      rfl)
    exact ⟨σ, .single hrun, .refl h.bounded, habsent rfl ▸ hpre⟩
  | behind _ hl =>
    have he := hf.eval (M := M) h.eval_value hl
    obtain ⟨σ', hrun, hw, hpost⟩ := hpresent _ rfl σ h hpre
    refine ⟨σ'.leave σ, .single (Machine.run_when ?_ hrun), hw.leave, hpost⟩
    rw [Machine.test_notNil he]
    rfl
  | plain hplain => simp [hp] at hplain

/-- The code behind a test for nil runs just where there is no value. Where there is a value, the
    content must be the right one before the test. -/
theorem whenNil_turns {b : Block} {post : Content δ}
    (hn : (f.sourcePointer || reference) = true)
    (habsent : x = none → Turns M value place source object σ₀ f.placeName b pre post)
    (hpresent : ∀ y, x = some y → pre = post) :
    Turns M value place source object σ₀ f.placeName [.when f.value.isNil b] pre post := by
  intro σ h hpre
  -- A value that is there is not nil.
  have skip : ∀ {z : Value δ}, z ≠ .nil → M.eval σ f.value = some z → pre = post →
      ∃ σ', M.Runs σ [.when f.value.isNil b] σ' ∧
        Works [value, place] (.field object f.placeName) σ σ' ∧
        σ'.Holds (.field object f.placeName) post := by
    intro z hz he heq
    refine ⟨σ, .single (Machine.run_when_not ?_), .refl h.bounded, heq ▸ hpre⟩
    rw [Machine.test_isNil he, decide_eq_false hz]
  cases h.reads hx with
  | absent hl =>
    have he : M.eval σ f.value = some .nil := hf.eval h.eval_value hl
    obtain ⟨σ', hrun, hw, hpost⟩ := habsent rfl σ h hpre
    refine ⟨σ'.leave σ, .single (Machine.run_when ?_ hrun), hw.leave, hpost⟩
    rw [Machine.test_isNil he]
    rfl
  | @behind k _ _ hl =>
    have hne : (.pointer k : Value δ) ≠ .nil := by simp
    exact skip hne (hf.eval h.eval_value hl) (hpresent _ rfl)
  | plain hplain hl hne =>
    refine skip (hne ?_) (hf.eval h.eval_value hl) (hpresent _ rfl)
    simpa [hplain] using hn

end Tests

/-! ### Converted values -/

omit [DecidableEq δ] in
/-- Values are either left as they are or converted to the type of the target, and the rule
    agrees. -/
theorem converted?_cases (hf : c.FieldCase f value place field s t reference)
    {result : Option Expr}
    (h : c.converted? f.source f.target f.sourcePointer f.value = .ok result) :
    (result = none ∧ ∀ y, carry M s t y = y) ∨
    (result = some (.convert t (if f.sourcePointer then f.value.deref else f.value)) ∧
      ∀ y, carry M s t y = M.convert t y) := by
  unfold converted? at h
  simp only [except_bind_eq_ok, hf.source, hf.target, Except.ok.injEq, exists_eq_left'] at h
  unfold carry
  split at h
  · rename_i heq
    exact Or.inl ⟨(Except.ok.inj h).symm, fun y => if_pos heq⟩
  · rename_i hne
    exact Or.inr ⟨(Except.ok.inj h).symm, fun y => if_neg hne⟩

/-- A converted value is stored as it is, or behind a pointer by way of a temporary. The name of the
    temporary hides neither of the two variables, since both are taken. -/
theorem storeConverted_turns (hf : c.FieldCase f value place field s t reference)
    {taken : List String} (hv : value ∈ taken) (hp : place ∈ taken)
    (he : ∀ σ, Frame value place source object σ₀ σ → M.eval σ e = some y) :
    Turns M value place source object σ₀ f.placeName (storeConverted f taken e) pre
      (.of f.targetPointer y) := by
  intro σ h hpre
  unfold storeConverted Content.of
  split
  · refine h.setHeld hf hpre ?_ (Machine.run_define (Machine.produce_eq (he σ h)))
    intro hmem
    rcases List.mem_pair.mp hmem with heq | heq
    · exact temporary_not_mem f.name taken (heq ▸ hv)
    · exact temporary_not_mem f.name taken (heq ▸ hp)
  · exact h.set hf hpre (he σ h)

/-! ### Primitive fields -/

/-- The code puts the content into the field: in the literal, or behind it. For a field in the
    literal the value is taken in the state before the object exists. -/
inductive Fills (M : Machine δ) (f : FieldSite) (value place : String) (source object : Nat)
    (σ₀ : State δ) (blank : Value δ) (content : Content δ) (code : ObjectCode) : Prop where
  | literal {e : Expr} {y : Value δ} (hc : code = { literal := [(f.placeName, e)] })
      (he : M.eval σ₀ e = some y)
      (hy : ∀ σ, Frame value place source object σ₀ σ →
        σ.memory (.field object f.placeName) = some y →
        σ.Holds (.field object f.placeName) content) :
      Fills M f value place source object σ₀ blank content code
  | after (hc : code.literal = [])
      (ht : Turns M value place source object σ₀ f.placeName code.after (.plain blank) content) :
      Fills M f value place source object σ₀ blank content code

/-- In both cases the allocation leaves something in the field, maybe its blank, from which the code
    behind it makes the content. -/
theorem Fills.starts {b : Value δ} {content : Content δ} {code : ObjectCode}
    (h : Fills M f value place source object σ₀ b content code) :
    ∃ given pre, M.evalFields σ₀ code.literal =
        some (Option.toList given |>.map fun y => (f.placeName, y)) ∧
      (∀ σ, Frame value place source object σ₀ σ →
        σ.memory (.field object f.placeName) = some (given.getD b) →
        σ.Holds (.field object f.placeName) pre) ∧
      Turns M value place source object σ₀ f.placeName code.after pre content := by
  cases h with
  | @literal e y hc he hy =>
    refine ⟨some y, content, ?_, hy, ?_⟩
    · rw [hc, Machine.evalFields, he]
      rfl
    · rw [hc]
      exact .nil
  | after hc ht =>
    refine ⟨none, .plain b, ?_, fun σ _ hm => hm, ht⟩
    rw [hc]
    rfl

section Fills

variable (hf : c.FieldCase f value place field s t reference)
  (hobj : M.eval σ₀ (.ident value) = some (.object source))
  (hx : Reads σ₀ (.field source field) f.sourcePointer reference x)
  (hr : f.required = true → f.sourcePointer = true → x ≠ none)
include hf hobj hx hr

/-- Where nothing is converted, the field of the value is copied, read or pointed to. One case for
    each combination of pointers on the two sides, with and without a value. -/
theorem fills_copied {taken : List String} (hcarry : ∀ y, carry M s t y = y) :
    Fills M f value place source object σ₀ (blank M f t) (converted M f s t x)
      (primitiveFieldCode f taken none) := by
  unfold primitiveFieldCode
  dsimp only
  split
  · rename_i hif
    simp only [Bool.and_eq_true, Bool.not_eq_true'] at hif
    obtain ⟨hs, ht⟩ := hif
    split
    · rename_i hreq
      -- A pointer that is read without a test has to be there, which is what a required field
      -- promises.
      obtain ⟨y, rfl⟩ := Option.ne_none_iff_exists'.mp (hr hreq hs)
      have he := hf.eval_present hobj hx
      rw [if_pos hs] at he
      refine .literal rfl he fun σ _ hm => ?_
      rw [converted, hcarry, Content.of, if_neg (by simp [ht])]
      exact hm
    · refine .after rfl (ifPresent_turns hf hx hs ?_ ?_)
      · rintro y rfl σ h hpre
        rw [converted, hcarry, Content.of, if_neg (by simp [ht])]
        have he : M.eval σ _ = some y := hf.eval_present h.eval_value (h.reads hx)
        rw [if_pos hs] at he
        exact h.set hf hpre he
      · rintro rfl
        rw [converted, if_pos hs]
  · rename_i hif
    simp only [Bool.and_eq_true, Bool.not_eq_true', not_and, Bool.not_eq_false] at hif
    split
    · rename_i hif
      simp only [Bool.and_eq_true, Bool.not_eq_true'] at hif
      obtain ⟨hs, ht⟩ := hif
      -- From here on the pointer, if one is stored, is that of the field of the source, or of a
      -- cell that the source's field points to. It was there before, so it is not the object that
      -- is being built.
      cases hx with
      | absent _ hn =>
        rw [hs, Bool.false_or] at hn
        simp [hf.pointer hn] at ht
      | behind hp => simp [hs] at hp
      | plain _ hl =>
        have hlocate : M.locate σ₀ f.value = some (.field source field) := by
          rw [hf.value]
          exact Machine.locate_field hobj hl
        refine .literal rfl (Machine.eval_addr hlocate) fun σ h hm => ?_
        obtain ⟨hlt, hl⟩ := h.before _ _ hl
        rw [converted, hcarry, Content.of, if_pos ht]
        exact ⟨_, Nat.ne_of_lt hlt, hm, hl⟩
    · rename_i hcopy
      simp only [Bool.and_eq_true, Bool.not_eq_true', not_and, Bool.not_eq_true] at hcopy
      cases hx with
      | absent hl hn =>
        refine .literal rfl (hf.eval hobj hl) fun σ _ hm => ?_
        rw [converted]
        split
        · rename_i hs
          rw [blank, if_pos (hif hs), M.zero_pointer]
          exact hm
        · exact hm
      | behind hs hl hval =>
        refine .literal rfl (hf.eval hobj hl) fun σ h hm => ?_
        obtain ⟨hlt, hval⟩ := h.before _ _ hval
        rw [converted, hcarry, Content.of, if_pos (hif hs)]
        exact ⟨_, Nat.ne_of_lt hlt, hm, hval⟩
      | plain hs hl =>
        refine .literal rfl (hf.eval hobj hl) fun σ _ hm => ?_
        rw [converted, hcarry, Content.of, if_neg (by simp [hcopy hs])]
        exact hm

/-- Where values are converted, the code stands behind a test if the field is a pointer that may be
    nil. -/
theorem fills_converted {taken : List String} (hv : value ∈ taken) (hp : place ∈ taken)
    (hcarry : ∀ y, carry M s t y = M.convert t y) :
    Fills M f value place source object σ₀ (blank M f t) (converted M f s t x)
      (primitiveFieldCode f taken
        (some (.convert t (if f.sourcePointer then f.value.deref else f.value)))) := by
  unfold primitiveFieldCode
  dsimp only
  have hstore : ∀ y, x = some y → ∀ pre, Turns M value place source object σ₀ f.placeName
      (storeConverted f taken
        (.convert t (if f.sourcePointer then f.value.deref else f.value))) pre
      (converted M f s t x) := by
    rintro y rfl pre
    rw [converted, hcarry]
    exact storeConverted_turns hf hv hp fun σ h =>
      Machine.eval_convert (hf.eval_present h.eval_value (h.reads hx))
  split
  · rename_i hif
    simp only [Bool.and_eq_true, Bool.not_eq_true', Bool.or_eq_true] at hif
    obtain ⟨ht, hplain⟩ := hif
    -- In the literal a converted value is stored without a test, also if it is nil; conversion
    -- keeps nil.
    cases x with
    | none =>
      have hs : f.sourcePointer = false := by
        by_contra hs
        rw [Bool.not_eq_false] at hs
        exact hr (hplain.resolve_right (by simp [hs])) hs rfl
      have he : M.eval σ₀ (.convert t f.value) = some (M.convert t .nil) :=
        Machine.eval_convert (hf.eval_absent hobj hx)
      rw [M.convert_nil] at he
      rw [if_neg (by simp [hs])]
      refine .literal rfl he fun σ _ hm => ?_
      rw [converted, if_neg (by simp [hs])]
      exact hm
    | some y =>
      refine .literal rfl (Machine.eval_convert (hf.eval_present hobj hx)) fun σ _ hm => ?_
      rw [converted, hcarry, Content.of, if_neg (by simp [ht])]
      exact hm
  · rename_i hif
    split
    · rename_i hs
      simp only [Bool.and_eq_true] at hs
      refine .after rfl (ifPresent_turns hf hx hs.1 (fun y hy => hstore y hy _) ?_)
      rintro rfl
      rw [converted, if_pos hs.1]
    · rename_i hs
      cases hx with
      | absent _ hn =>
        -- The field is a required pointer, or its value a reference, which no pointer points to.
        by_cases hsource : f.sourcePointer = true
        · have hreq : f.required = true := by simpa [hsource] using hs
          exact absurd rfl (hr hreq hsource)
        · rw [Bool.not_eq_true] at hsource
          rw [hsource, Bool.false_or] at hn
          simp [hf.pointer hn, hsource] at hif
      | behind => exact .after rfl (hstore _ rfl _)
      | plain => exact .after rfl (hstore _ rfl _)

/-- The code of a primitive field puts into it what the value is converted to. -/
theorem primitiveFieldCode_fills {taken : List String} (hv : value ∈ taken) (hp : place ∈ taken)
    {result : Option Expr}
    (h : c.converted? f.source f.target f.sourcePointer f.value = .ok result) :
    Fills M f value place source object σ₀ (blank M f t) (converted M f s t x)
      (primitiveFieldCode f taken result) := by
  rcases converted?_cases (M := M) hf h with ⟨rfl, hcarry⟩ | ⟨rfl, hcarry⟩
  · exact fills_copied hf hobj hx hr hcarry
  · exact fills_converted hf hobj hx hr hv hp hcarry

end Fills

/-! ### Defaults -/

omit [DecidableEq δ] in
theorem standIn?_of_injects {default : Literal} (h : c.Injects f)
    (hd : f.target.default = some default) : c.standIn? f = some default := by
  rw [standIn?, h.useDefault, h.pointerForRequired, h.required]
  exact hd

section Defaults

variable (hf : c.FieldCase f value place field s t reference)
include hf

/-- Where the code does not put in a default, the rule has none. -/
theorem FieldCase.standIn?_of_not_injects (h : ¬ c.Injects f) : c.standIn? f = none := by
  unfold standIn?
  rw [if_neg]
  simp only [Bool.and_eq_true, Bool.not_eq_true', not_and, Bool.not_eq_false]
  rintro ⟨huse, hpointer⟩
  by_contra hr
  rw [Bool.not_eq_true] at hr
  exact h ⟨huse, hpointer, hr, hf.sourcePrimitive.trans hf.targetPrimitive.symm⟩

theorem FieldCase.nillable {nillable : Bool} (h : c.Nillable f nillable) :
    (f.sourcePointer || reference) = nillable := by
  obtain ⟨p, hp, h⟩ := h
  obtain ⟨q, hq, hr⟩ := hf.kind
  obtain rfl := Except.ok.inj (hp.symm.trans hq)
  simpa [hf.sourcePrimitive, hr] using h

variable (hx : Reads σ₀ (.field source field) f.sourcePointer reference x)
  (hv : value ≠ "tmp" ∧ value ≠ "zero") (hp : place ≠ "tmp" ∧ place ≠ "zero")
include hx hv hp

/-- Where neither side can be nil, the default takes the place of the zero value. The code compares
    the field with a variable that was never assigned, as there is no literal for the zero value of
    any type. -/
theorem zero_turns {default : Literal} (hs : c.standIn? f = some default)
    (hn : (f.sourcePointer || reference) = false) (ht : f.targetPointer = false) :
    Turns M value place source object σ₀ f.placeName
      [.block [.declare "zero" t none,
        .when (.binary .eq f.place (.ident "zero")) [.set f.place (.lit default t)]]]
      (converted M f s t x) (outcome M c f s t reference x) := by
  intro σ h hpre
  rw [Bool.or_eq_false_iff] at hn
  cases hx with
  | absent _ hnil => simp [hn] at hnil
  | behind hpointer => simp [hn] at hpointer
  | @plain y _ _ _ =>
    have hcontent : converted M f s t (some y) = .plain (carry M s t y) := by
      rw [converted, Content.of, if_neg (by simp [ht])]
    -- The declaration of `zero` hides neither of the two variables that the field is read and
    -- stored through.
    have hname : "zero" ∉ [value, place] := by simp [hv.2.symm, hp.2.symm]
    have hbound : Frame value place source object σ₀ (σ.bind "zero" (M.zero t)) := h.bind hname
    rw [hcontent] at hpre
    have hpre' : (σ.bind "zero" (M.zero t)).Holds (.field object f.placeName)
        (.plain (carry M s t y)) := State.memory_bind h.bounded "zero" (M.zero t) hpre
    have hplace : M.eval (σ.bind "zero" (M.zero t)) f.place = some (carry M s t y) := by
      rw [hf.place]
      exact Machine.eval_field hbound.eval_place hpre'
    have hzero : M.eval (σ.bind "zero" (M.zero t)) (.ident "zero") = some (M.zero t) :=
      Machine.eval_ident (State.cell?_bind_self σ _ _) (State.memory_bind_self σ _ _)
    have htest := Machine.test_eq hplace hzero
    have hw : Works [] (.field object f.placeName) σ (σ.bind "zero" (M.zero t)) :=
      .bind h.bounded List.not_mem_nil
    -- The test cannot tell a value that is there from one that was left out, so a value that
    -- converts to the zero value is replaced too.
    by_cases heq : carry M s t y = M.zero t
    · have he :
          M.eval (σ.bind "zero" (M.zero t)) (.lit default t) = some (M.literal default t) := by
        rw [Machine.eval]
      obtain ⟨σ', hrun, hset, hpost⟩ := hbound.set hf hpre' he
      refine ⟨_, .single (Machine.run_block (.cons Machine.run_declare_zero
        (.single (Machine.run_when ?_ hrun)))), (hw.trans hset.leave).leave, ?_⟩
      · rw [htest, decide_eq_true heq]
      · rw [outcome_zero hs hn.1 hn.2 ht heq]
        exact hpost
    · refine ⟨_, .single (Machine.run_block (.cons Machine.run_declare_zero
        (.single (Machine.run_when_not ?_)))), hw.leave, ?_⟩
      · rw [htest, decide_eq_false heq]
      · rw [outcome_present (Or.inr (Or.inr (Or.inr heq))), hcontent]
        exact hpre'

/-- The code of the default turns what conversion left in the field into the outcome. One case for
    each shape that the code can have, one of which is none at all. -/
theorem laterDefault_turns {b : Block} (h : c.laterDefault f = .ok b) :
    Turns M value place source object σ₀ f.placeName b (converted M f s t x)
      (outcome M c f s t reference x) := by
  unfold laterDefault at h
  split at h
  · rename_i default hdefault
    have heval : ∀ σ, M.eval σ (.lit default t) = some (M.literal default t) :=
      fun σ => by rw [Machine.eval]
    -- A value that is there stays, whichever shape tests for it.
    have hpresent : (f.sourcePointer || reference) = true →
        ∀ y, x = some y → converted M f s t x = outcome M c f s t reference x := by
      rintro hn y rfl
      rw [Bool.or_eq_true] at hn
      rw [outcome_present (hn.imp id Or.inl)]
    cases defaultField_shape h with
    | idle hidle =>
      have hsame : converted M f s t x = outcome M c f s t reference x := by
        rcases hidle with hno | ⟨hn, ht⟩
        · rw [outcome_of_no_default (hf.standIn?_of_not_injects hno)]
        · cases hx with
          | absent _ hnil => simp [hf.nillable hn] at hnil
          | behind hs => rw [outcome_present (Or.inl hs)]
          | plain => rw [outcome_present (Or.inr (Or.inr (Or.inl ht)))]
      exact hsame ▸ .nil
    | held hi hn type ht htarget =>
      obtain rfl := Except.ok.inj (ht.symm.trans hf.target)
      have hs := standIn?_of_injects hi hdefault
      have hn := hf.nillable hn
      refine whenNil_turns hf hx hn ?_ (hpresent hn)
      rintro rfl σ h hpre
      rw [outcome_absent hs, Content.of, if_pos htarget.1]
      have hname : "tmp" ∉ [value, place] := by simp [hv.1.symm, hp.1.symm]
      exact h.setHeld hf hpre hname (Machine.run_declare (heval σ))
    | stored hi hn type ht htarget =>
      obtain rfl := Except.ok.inj (ht.symm.trans hf.target)
      have hs := standIn?_of_injects hi hdefault
      have hn := hf.nillable hn
      refine whenNil_turns hf hx hn ?_ (hpresent hn)
      rintro rfl σ h hpre
      rw [outcome_absent hs, Content.of, if_neg (by simpa [hf.targetPrimitive] using htarget)]
      exact h.set hf hpre (heval σ)
    | zero hi hn type ht htarget =>
      obtain rfl := Except.ok.inj (ht.symm.trans hf.target)
      exact zero_turns hf hx hv hp (standIn?_of_injects hi hdefault) (hf.nillable hn) htarget
  · rename_i hdefault
    have hs : c.standIn? f = none := by
      rw [standIn?, hdefault, ite_self]
    rw [← Except.ok.inj h, outcome_of_no_default hs]
    exact .nil

end Defaults

end Turns

end Conversion
end Shapewright
