import Shapewright.Proofs.Scoping

/-!
# Which places code assigns

An assignment names the place that it stores in, and a place is a part of a variable. Two questions
are asked of a block. Does it have a statement that assigns a given place (`Block.Assigns`)? And
which places does it assign as long as a name stands for the variable it stood for where the block
starts (`Block.sets`)? The second leaves out what stands behind a declaration of the name, which is
about another variable.

## Names and variables

In the code of a conversion one name may be declared in several blocks, and a declaration hides the
variable of the same name around it. A statement that assigns `res.name` behind such a declaration
does not touch the result. So `sets` follows the scopes of the language: a declaration ends the
statements that are looked at, to the end of its block, and the head of a loop or of a switch on
types declares a variable for its body.

Parts of places are compared as expressions (`Expr.Part`). Two fields of one place with different
names have no part in common, which is what makes it meaningful to ask which field a statement
assigns.
-/

namespace Shapewright

/-! ## Parts of places -/

namespace Expr

/-- The second place is the first, or a field or an element somewhere inside it. A place behind a
    pointer is no part, since another variable may lead there as well. -/
inductive Part (whole : Expr) : Expr → Prop where
  | self : Part whole whole
  | field {e : Expr} (h : Part whole e) (name : String) : Part whole (e.field name)
  | index {e : Expr} (h : Part whole e) (idx : Expr) : Part whole (e.index idx)

variable {e whole part : Expr} {x : String}

theorem Part.trans (h : Part whole part) (hp : Part part e) : Part whole e := by
  induction hp with
  | self => exact h
  | field _ name ih => exact ih.field name
  | index _ idx ih => exact ih.index idx

theorem Part.root? (h : Part whole part) : part.root? = whole.root? := by
  induction h with
  | self => rfl
  | field _ _ ih => exact ih
  | index _ _ ih => exact ih

theorem Part.sizeOf_le (h : Part whole part) : sizeOf whole ≤ sizeOf part := by
  induction h with
  | self => exact Nat.le_refl _
  | field _ _ ih => simp; omega
  | index _ _ ih => simp; omega

/-- Fields of one place with different names have no part in common that is a field of the place. -/
theorem Part.field_inj {m n : String} (h : Part (e.field m) (e.field n)) : n = m := by
  cases h with
  | self => rfl
  | field h =>
    have hle := h.sizeOf_le
    rw [Expr.field.sizeOf_spec] at hle
    omega

/-- A place mentions the variable it belongs to. So an expression that does not mention a variable
    is no part of it, which is how code is kept apart. -/
theorem mem_vars_of_root? : ∀ {e : Expr}, e.root? = some x → x ∈ e.vars
  | .ident name, h => by
    obtain rfl : name = x := Option.some.inj h
    rw [vars]
    exact List.mem_singleton_self _
  | .field base _, h => by
    rw [vars]
    exact mem_vars_of_root? h
  | .index base _, h => by
    rw [vars]
    exact List.mem_append_left _ (mem_vars_of_root? h)
  | .deref inner, h => by
    rw [vars]
    exact mem_vars_of_root? h
  | .addr inner, h => by
    rw [vars]
    exact mem_vars_of_root? h

end Expr

/-! ## Assignments to a place -/

/-- Somewhere in the block stands a statement that assigns the place. It may stand in a loop or
    behind a test, so the place need not be assigned whenever the block is run. -/
def Block.Assigns (place : Expr) (b : Block) : Prop :=
  ∃ step ∈ b.steps [], ∃ value, step.stmt = .set place value

namespace Block

variable {place value : Expr} {a b : Block}

theorem assigns_append : Assigns place (a ++ b) ↔ Assigns place a ∨ Assigns place b := by
  simp only [Assigns, steps_append, List.mem_append, or_and_right, exists_or]

theorem assigns_set : Assigns place (.set place value :: b) :=
  ⟨⟨[], .set place value⟩, by simp [Stmt.set], value, rfl⟩

/-- A test around a block changes nothing about what is assigned in it. A field that is converted
    only if it is there counts as stored for that reason. -/
theorem assigns_when {test : Expr} : Assigns place [.when test b] ↔ Assigns place b := by
  have hn : ∀ {value}, Stmt.when test [] ≠ .set place value := fun h => by cases h
  constructor
  · rintro ⟨step, hm, value, hv⟩
    rw [steps_cons, Stmt.steps_when, steps_nil, List.append_nil, List.mem_cons] at hm
    rcases hm with rfl | hm
    · exact absurd hv hn
    · obtain ⟨k, hk, hstmt⟩ := exists_mem_steps_known hm []
      exact ⟨k, hk, value, hstmt ▸ hv⟩
  · rintro ⟨step, hm, value, hv⟩
    obtain ⟨k, hk, hstmt⟩ := exists_mem_steps_known hm (test.proves ++ [])
    refine ⟨k, ?_, value, hstmt ▸ hv⟩
    rw [steps_cons, Stmt.steps_when]
    exact List.mem_append_left _ (List.mem_cons_of_mem _ hk)

/-- A switch assigns what one of its cases does. That it can be assigned is meant, since only one of
    the cases is run. -/
theorem assigns_typeSwitch {binding : String} {subject : Expr} {cases : List (TypeRef × Block)} :
    Assigns place [.typeSwitch binding subject cases] ↔ ∃ x ∈ cases, Assigns place x.2 := by
  have hn : ∀ {value}, Stmt.typeSwitch binding subject [] ≠ .set place value := fun h => by cases h
  simp only [Assigns, steps_cons, steps_nil, List.append_nil, Stmt.steps, List.mem_cons,
    exists_eq_or_imp, hn, exists_false, false_or, mem_steps_cases]
  constructor
  · rintro ⟨step, ⟨x, hx, hm⟩, h⟩
    exact ⟨x, hx, step, hm, h⟩
  · rintro ⟨x, hx, step, hm, h⟩
    exact ⟨step, ⟨x, hx, hm⟩, h⟩

end Block

/-! ## What is assigned of a variable -/

namespace Stmt

mutual

/-- The places that a statement assigns where `x` stands for the variable that it stands for in
    front of the statement. -/
def sets (x : String) : Stmt → List Expr
  | .assign place _ false => [place]
  | .assign _ _ true => []
  | .declare .. => []
  | .cond none _ body otherwise => setsAll x body ++ setsAll x otherwise
  | .cond (some init) _ body otherwise =>
    init.sets x ++ if x ∈ init.declares then [] else setsAll x body ++ setsAll x otherwise
  | .block body => setsAll x body
  | .range key value _ body => if x ∈ key.toList ++ value.toList then [] else setsAll x body
  | .typeSwitch binding _ cases => if x = binding then [] else setsTypes x cases
  | .switch _ cases fallback => setsCases x cases ++ setsAll x fallback
  | .ret _ => []
  | .continue => []
  | .expr _ => []

def setsAll (x : String) : List Stmt → List Expr
  | [] => []
  | s :: rest => s.sets x ++ if x ∈ s.declares then [] else setsAll x rest

def setsTypes (x : String) : List (TypeRef × List Stmt) → List Expr
  | [] => []
  | (_, body) :: rest => setsAll x body ++ setsTypes x rest

def setsCases (x : String) : List (List Expr × List Stmt) → List Expr
  | [] => []
  | (_, body) :: rest => setsAll x body ++ setsCases x rest

end

end Stmt

/-- The places that a block assigns where `x` stands for the variable that it stands for in front of
    the block. -/
def Block.sets (x : String) (b : Block) : List Expr := Stmt.setsAll x b

namespace Block

variable {x : String} {q : Expr} {a b : Block}

@[simp] theorem sets_nil : sets x [] = [] := rfl

@[simp] theorem mem_sets_cons {s : Stmt} :
    q ∈ sets x (s :: b) ↔ q ∈ s.sets x ∨ (x ∉ s.declares ∧ q ∈ sets x b) := by
  rw [sets, Stmt.setsAll, List.mem_append, sets]
  split <;> rename_i h <;> simp [h]

/-- What stands in the second block counts unless the first declares the name. -/
theorem mem_sets_append :
    q ∈ sets x (a ++ b) ↔ q ∈ sets x a ∨ (x ∉ declares a ∧ q ∈ sets x b) := by
  induction a with
  | nil => simp
  | cons s a ih =>
    rw [List.cons_append, mem_sets_cons, mem_sets_cons, ih, declares_cons, List.mem_append, not_or,
      and_or_left, and_assoc, or_assoc]

/-- What several blocks assign, one of them does. Code of an object is such a row of blocks, one for
    each field. -/
theorem exists_mem_sets_flatMap {α : Type} {f : α → Block} {ys : List α}
    (h : q ∈ sets x (ys.flatMap f)) : ∃ y ∈ ys, q ∈ sets x (f y) := by
  induction ys with
  | nil => simp at h
  | cons y ys ih =>
    rw [List.flatMap_cons, mem_sets_append] at h
    rcases h with h | ⟨-, h⟩
    · exact ⟨y, List.mem_cons_self, h⟩
    · obtain ⟨z, hz, h⟩ := ih h
      exact ⟨z, List.mem_cons_of_mem _ hz, h⟩

/-- What the cases of a switch assign, one of them does. -/
theorem mem_sets_cases {cases : List (TypeRef × Block)} :
    q ∈ Stmt.setsTypes x cases ↔ ∃ y ∈ cases, q ∈ sets x y.2 := by
  induction cases with
  | nil => simp [Stmt.setsTypes]
  | cons y rest ih =>
    rw [Stmt.setsTypes, List.mem_append, ih]
    simp only [List.mem_cons, or_and_right, exists_or, exists_eq_left, sets]

end Block

namespace Stmt

variable {x : String} {q : Expr}

@[simp] theorem sets_set (place value : Expr) : (Stmt.set place value).sets x = [place] := rfl

@[simp] theorem sets_define (place value : Expr) : (Stmt.assign place value true).sets x = [] := rfl

@[simp] theorem sets_declare (name : String) (type : TypeRef) (value : Option Expr) :
    (Stmt.declare name type value).sets x = [] := rfl

@[simp] theorem sets_when (test : Expr) (body : Block) :
    (Stmt.when test body).sets x = Block.sets x body :=
  List.append_nil _

@[simp] theorem sets_block (body : Block) : (Stmt.block body).sets x = Block.sets x body := rfl

theorem mem_sets_range {key value : Option String} {whole : Expr} {body : Block} :
    q ∈ (Stmt.range key value whole body).sets x ↔
      x ∉ key.toList ++ value.toList ∧ q ∈ Block.sets x body := by
  rw [sets, Block.sets]
  split <;> rename_i h <;> simp [h]

theorem mem_sets_typeSwitch {binding : String} {subject : Expr} {cases : List (TypeRef × Block)} :
    q ∈ (Stmt.typeSwitch binding subject cases).sets x ↔
      x ≠ binding ∧ ∃ y ∈ cases, q ∈ Block.sets x y.2 := by
  rw [sets, ← Block.mem_sets_cases]
  split <;> rename_i h <;> simp [h]

end Stmt
end Shapewright
