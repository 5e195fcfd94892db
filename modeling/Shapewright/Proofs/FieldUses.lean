import Shapewright.Conversion
import Shapewright.Proofs.Guards

/-!
# Which fields code names

An expression names a field where it selects the field of another expression, and where a composite
literal gives the field a value. These are the two ways in which the text of generated code depends
on the names of fields, so code compiles only if each of them is a field that its object declares.

## What is counted, and where

The fields of an expression are listed with the expression that they are selected from
(`FieldUse.select`) or the type of the literal that sets them (`FieldUse.init`), because a name
alone says nothing: whether it is declared depends on the object. A statement lists the fields that
it names itself; the blocks inside it are steps of their own, so nothing is counted twice
(`Stmt.fieldUses`, `Block.steps`).

Statements of the code are mostly known to name only what two given expressions name, a value and a
place, whatever comes before them. `Block.NamesOnly` says that of a block, and its lemmas build it
up one statement at a time.
-/

namespace Shapewright

/-- A field is named: one of an expression, or one of the type of a literal. In either case a name
    alone would not tell what has to declare it. -/
inductive FieldUse where
  | select (whole : Expr) (name : String)
  | init (type : TypeRef) (name : String)

namespace FieldUse

/-- The name of the field. -/
def name : FieldUse → String
  | .select _ name => name
  | .init _ name => name

/-- The variable that the field is selected from, however deep inside. -/
def root? : FieldUse → Option String
  | .select whole _ => whole.root?
  | .init _ _ => none

end FieldUse

namespace Expr

mutual

/-- The fields that an expression names. -/
def fieldUses : Expr → List FieldUse
  | .ident _ => []
  | .field base name => .select base name :: base.fieldUses
  | .index base idx => base.fieldUses ++ idx.fieldUses
  | .deref inner => inner.fieldUses
  | .addr inner => inner.fieldUses
  | .nil => []
  | .lit _ _ => []
  | .str _ => []
  | .int _ => []
  | .call _ args => fieldUsesAll args
  | .convert _ value => value.fieldUses
  | .assert value _ => value.fieldUses
  | .composite type fields _ => fieldUsesFields type fields
  | .sliceLit _ items => fieldUsesAll items
  | .make _ size => size.fieldUses
  | .len inner => inner.fieldUses
  | .binary _ lhs rhs => lhs.fieldUses ++ rhs.fieldUses
  | .not inner => inner.fieldUses

/-- The fields that expressions name, one after another. -/
def fieldUsesAll : List Expr → List FieldUse
  | [] => []
  | e :: rest => e.fieldUses ++ fieldUsesAll rest

/-- The fields that a literal of a type sets, each followed by those that its value names. -/
def fieldUsesFields (type : TypeRef) : List (String × Expr) → List FieldUse
  | [] => []
  | (name, e) :: rest => .init type name :: (e.fieldUses ++ fieldUsesFields type rest)

end

variable {use : FieldUse} {type : TypeRef}

/-- What a literal names is one of the fields that it sets, or is named by one of their values. -/
theorem mem_fieldUsesFields {fields : List (String × Expr)} :
    use ∈ fieldUsesFields type fields ↔
      ∃ x ∈ fields, use = .init type x.1 ∨ use ∈ x.2.fieldUses := by
  induction fields with
  | nil => simp [fieldUsesFields]
  | cons x rest ih =>
    obtain ⟨name, e⟩ := x
    rw [fieldUsesFields, List.mem_cons, List.mem_append, ih, ← or_assoc]
    simp only [List.mem_cons, exists_eq_or_imp]

/-- A variable names no field. -/
@[simp] theorem fieldUses_ident (name : String) : (Expr.ident name).fieldUses = [] := rfl

@[simp] theorem fieldUses_lit (value : Literal) (type : TypeRef) :
    (Expr.lit value type).fieldUses = [] := rfl

/-- To follow a pointer names nothing more. -/
@[simp] theorem fieldUses_deref (e : Expr) : e.deref.fieldUses = e.fieldUses := rfl

/-- To take an address names nothing more. -/
@[simp] theorem fieldUses_addr (e : Expr) : e.addr.fieldUses = e.fieldUses := rfl

@[simp] theorem fieldUses_convert (type : TypeRef) (e : Expr) :
    (Expr.convert type e).fieldUses = e.fieldUses := rfl

@[simp] theorem fieldUses_notNil (e : Expr) : e.notNil.fieldUses = e.fieldUses := by
  rw [notNil, fieldUses, fieldUses, List.append_nil]

@[simp] theorem fieldUses_isNil (e : Expr) : e.isNil.fieldUses = e.fieldUses := by
  rw [isNil, fieldUses, fieldUses, List.append_nil]

/-- An allocation names the fields of the type that is allocated, which is no pointer. They are
    counted as fields of the type and not of an expression, as there is none yet. -/
theorem fieldUses_allocate (fields : List (String × Expr)) :
    (Expr.allocate type fields).fieldUses = fieldUsesFields type.pointee fields := by
  unfold allocate
  split
  · rw [fieldUses]
    rfl
  · rename_i hn
    rw [fieldUses]
    cases type with
    | pointer inner => exact absurd rfl (hn inner)
    | _ => rfl

end Expr

/-- The fields that a statement names outside the blocks inside it. -/
def Stmt.fieldUses : Stmt → List FieldUse
  | .assign lhs rhs _ => lhs.fieldUses ++ rhs.fieldUses
  | .declare _ _ none => []
  | .declare _ _ (some value) => value.fieldUses
  | .cond _ test _ _ => test.fieldUses
  | .block _ => []
  | .range _ _ whole _ => whole.fieldUses
  | .typeSwitch _ subject _ => subject.fieldUses
  | .switch subject cases _ => subject.fieldUses ++ cases.flatMap fun x => Expr.fieldUsesAll x.1
  | .ret values => Expr.fieldUsesAll values
  | .continue => []
  | .expr e => e.fieldUses

namespace Stmt

@[simp] theorem fieldUses_set (place value : Expr) :
    (Stmt.set place value).fieldUses = place.fieldUses ++ value.fieldUses := rfl

@[simp] theorem fieldUses_when (test : Expr) (body : Block) :
    (Stmt.when test body).fieldUses = test.fieldUses := rfl

end Stmt

/-- Whatever is known around the block, its steps name none but these fields. Code that is put
    together from such blocks names only such fields. -/
def Block.NamesOnly (uses : List FieldUse) (b : Block) : Prop :=
  ∀ known, ∀ step ∈ b.steps known, step.stmt.fieldUses ⊆ uses

namespace Block.NamesOnly

variable {uses : List FieldUse} {b body : Block} {place value test : Expr}

theorem nil : NamesOnly uses [] := by
  intro known step hm
  simp at hm

/-- A block that begins with an assignment. -/
theorem assign {define : Bool} (hplace : place.fieldUses ⊆ uses) (hvalue : value.fieldUses ⊆ uses)
    (hb : NamesOnly uses b) : NamesOnly uses (.assign place value define :: b) := by
  intro known step hm
  rw [steps_cons, Stmt.steps_assign, List.singleton_append, List.mem_cons] at hm
  rcases hm with rfl | hm
  · exact List.append_subset.mpr ⟨hplace, hvalue⟩
  · exact hb known step hm

/-- A block that begins with a declaration. Where it has no value, nothing is asked of it. -/
theorem declare {name : String} {type : TypeRef} {value : Option Expr}
    (hvalue : ∀ e ∈ value, e.fieldUses ⊆ uses) (hb : NamesOnly uses b) :
    NamesOnly uses (.declare name type value :: b) := by
  intro known step hm
  rw [steps_cons, Stmt.steps_declare, List.singleton_append, List.mem_cons] at hm
  rcases hm with rfl | hm
  · cases value with
    | none => exact List.nil_subset uses
    | some e => exact hvalue e rfl
  · exact hb known step hm

/-- A block inside a condition. -/
theorem when (htest : test.fieldUses ⊆ uses) (hbody : NamesOnly uses body) :
    NamesOnly uses [.when test body] := by
  intro known step hm
  rw [steps_cons, Stmt.steps_when, steps_nil, List.append_nil, List.mem_cons] at hm
  rcases hm with rfl | hm
  · exact htest
  · exact hbody _ step hm

theorem block (hbody : NamesOnly uses body) : NamesOnly uses [.block body] := by
  intro known step hm
  rw [steps_cons, Stmt.steps_block, steps_nil, List.append_nil] at hm
  exact hbody known step hm

end Block.NamesOnly
end Shapewright
