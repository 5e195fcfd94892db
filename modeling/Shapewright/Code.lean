import Shapewright.Schema.Literal

/-!
# Generated code

The compilers build these trees and never text: types, expressions, statements and declarations of a
small imperative language with pointers, slices and maps. `Code/Printer` writes them down.

The trees have no scopes and no types for expressions. A name is a text, and whether it is declared,
or hides another one, is for the compilers to take care of. A type is written out where code needs
it: in declarations, conversions and literals.

Trees are compared by functions, since statements and expressions contain lists of each other. For
types that is equality. For expressions it is equality up to the sign of a zero, because a literal
can be a float and `0.0` equals `-0.0`.
-/

namespace Shapewright

/-- A field of a struct type, with `τ` for its type. -/
structure StructField (τ : Type) where
  name : String
  type : τ
  doc : Option String := none
deriving BEq

inductive TypeRef where
  /-- The native representation of a primitive kind. -/
  | primitive (p : Primitive)
  | named (pkg : Option String) (name : String)
  | pointer (inner : TypeRef)
  | slice (elem : TypeRef)
  | map (key elem : TypeRef)
  /-- A struct without a name, for an object in place. -/
  | struct (fields : List (StructField TypeRef))
  | error
deriving Inhabited

namespace TypeRef

mutual

/-- Whether two types are the same, with all their fields in order. -/
def beq : TypeRef → TypeRef → Bool
  | .primitive p, .primitive q => p == q
  | .named pkg name, .named pkg' name' => pkg == pkg' && name == name'
  | .pointer t, .pointer u => t.beq u
  | .slice t, .slice u => t.beq u
  | .map k t, .map l u => k.beq l && t.beq u
  | .struct fields, .struct fields' => beqFields fields fields'
  | .error, .error => true
  | _, _ => false

def beqFields : List (StructField TypeRef) → List (StructField TypeRef) → Bool
  | [], [] => true
  | ⟨name, type, doc⟩ :: rest, ⟨name', type', doc'⟩ :: rest' =>
    name == name' && type.beq type' && doc == doc' && beqFields rest rest'
  | _, _ => false

end

mutual

/-- The comparison of types decides whether they are equal. -/
theorem beq_iff_eq : ∀ {t u : TypeRef}, t.beq u = true ↔ t = u
  | .primitive _, u => by cases u <;> simp [beq]
  | .named .., u => by cases u <;> simp [beq]
  | .pointer t, u => by cases u <;> simp [beq, beq_iff_eq (t := t)]
  | .slice t, u => by cases u <;> simp [beq, beq_iff_eq (t := t)]
  | .map k t, u => by cases u <;> simp [beq, beq_iff_eq (t := k), beq_iff_eq (t := t)]
  | .struct fields, u => by cases u <;> simp [beq, beqFields_iff_eq (a := fields)]
  | .error, u => by cases u <;> simp [beq]

theorem beqFields_iff_eq : ∀ {a b : List (StructField TypeRef)}, beqFields a b = true ↔ a = b
  | [], b => by cases b <;> simp [beqFields]
  | _ :: _, [] => by simp [beqFields]
  | ⟨_, type, _⟩ :: rest, ⟨_, _, _⟩ :: _ => by
    simp [beqFields, beq_iff_eq (t := type), beqFields_iff_eq (a := rest), and_assoc]

end

instance : BEq TypeRef := ⟨beq⟩

instance : LawfulBEq TypeRef where
  eq_of_beq := beq_iff_eq.mp
  rfl := beq_iff_eq.mpr rfl

/-- A named type, qualified unless the package is empty. -/
def qualified (pkg name : String) : TypeRef :=
  .named (if pkg.isEmpty then none else some pkg) name

def isPointer : TypeRef → Bool
  | .pointer _ => true
  | _ => false

/-- The type without one level of pointer. -/
def pointee : TypeRef → TypeRef
  | .pointer inner => inner
  | t => t

end TypeRef

inductive BinaryOp where
  | or
  | and
  | eq
  | ne
  | lt
  | gt
deriving Repr, DecidableEq

inductive Expr where
  /-- A variable, or an identifier with its package. -/
  | ident (name : String)
  | field (base : Expr) (name : String)
  | index (base idx : Expr)
  | deref (inner : Expr)
  | addr (inner : Expr)
  | nil
  /-- A literal of a type, which matters where the literal is composite. -/
  | lit (value : Literal) (type : TypeRef)
  | str (s : String)
  | int (i : Int)
  | call (func : String) (args : List Expr)
  | convert (type : TypeRef) (value : Expr)
  /-- Asserts the dynamic type of a value. -/
  | assert (value : Expr) (type : TypeRef)
  /-- A composite literal, or the address of one. -/
  | composite (type : TypeRef) (fields : List (String × Expr)) (addr : Bool)
  | sliceLit (elem : TypeRef) (items : List Expr)
  | make (type : TypeRef) (len : Expr)
  | len (inner : Expr)
  | binary (op : BinaryOp) (lhs rhs : Expr)
  | not (inner : Expr)
deriving Inhabited

namespace Expr

mutual

/-- Whether two expressions are the same, up to the sign of a zero in a literal. -/
def beq : Expr → Expr → Bool
  | .ident name, .ident name' => name == name'
  | .field base name, .field base' name' => base.beq base' && name == name'
  | .index base idx, .index base' idx' => base.beq base' && idx.beq idx'
  | .deref inner, .deref inner' => inner.beq inner'
  | .addr inner, .addr inner' => inner.beq inner'
  | .nil, .nil => true
  | .lit value type, .lit value' type' => value == value' && type == type'
  | .str s, .str t => s == t
  | .int i, .int j => i == j
  | .call func args, .call func' args' => func == func' && beqAll args args'
  | .convert type value, .convert type' value' => type == type' && value.beq value'
  | .assert value type, .assert value' type' => value.beq value' && type == type'
  | .composite type fields address, .composite type' fields' address' =>
    type == type' && beqFields fields fields' && address == address'
  | .sliceLit elem items, .sliceLit elem' items' => elem == elem' && beqAll items items'
  | .make type size, .make type' size' => type == type' && size.beq size'
  | .len inner, .len inner' => inner.beq inner'
  | .binary op lhs rhs, .binary op' lhs' rhs' => op == op' && lhs.beq lhs' && rhs.beq rhs'
  | .not inner, .not inner' => inner.beq inner'
  | _, _ => false

def beqAll : List Expr → List Expr → Bool
  | [], [] => true
  | e :: rest, e' :: rest' => e.beq e' && beqAll rest rest'
  | _, _ => false

def beqFields : List (String × Expr) → List (String × Expr) → Bool
  | [], [] => true
  | (name, e) :: rest, (name', e') :: rest' => name == name' && e.beq e' && beqFields rest rest'
  | _, _ => false

end

instance : BEq Expr := ⟨beq⟩

/-- The check that nothing is there. -/
def isNil (e : Expr) : Expr := .binary .eq e .nil

/-- The check that something is there. -/
def notNil (e : Expr) : Expr := .binary .ne e .nil

/-- The disjunction of some expressions, associated to the left. There is none without expressions,
    as the language has no literal for that. -/
def anyOf? : List Expr → Option Expr
  | [] => none
  | e :: rest => some (rest.foldl (.binary .or) e)

/-- The variable that a place is part of, through fields, elements and pointers. A place that is
    made by a call is part of no variable. -/
def root? : Expr → Option String
  | .ident name => some name
  | .field base _ => base.root?
  | .index base _ => base.root?
  | .deref inner => inner.root?
  | .addr inner => inner.root?
  | _ => none

end Expr

inductive Stmt where
  | assign (lhs rhs : Expr) (define : Bool)
  | declare (name : String) (type : TypeRef) (value : Option Expr)
  | cond (init : Option Stmt) (test : Expr) (body otherwise : List Stmt)
  | block (body : List Stmt)
  | range (key value : Option String) (whole : Expr) (body : List Stmt)
  | typeSwitch (binding : String) (subject : Expr) (cases : List (TypeRef × List Stmt))
  | switch (subject : Expr) (cases : List (List Expr × List Stmt)) (fallback : List Stmt)
  | ret (values : List Expr)
  | continue
  | expr (e : Expr)
deriving Inhabited

/-- Statements that run one after another. -/
abbrev Block := List Stmt

namespace Stmt

mutual

/-- Whether two statements are the same, up to the sign of a zero in a literal. -/
def beq : Stmt → Stmt → Bool
  | .assign lhs rhs define, .assign lhs' rhs' define' =>
    lhs == lhs' && rhs == rhs' && define == define'
  | .declare name type value, .declare name' type' value' =>
    name == name' && type == type' && value == value'
  | .cond init test body otherwise, .cond init' test' body' otherwise' =>
    beqInit init init' && test == test' && beqAll body body' && beqAll otherwise otherwise'
  | .block body, .block body' => beqAll body body'
  | .range key value whole body, .range key' value' whole' body' =>
    key == key' && value == value' && whole == whole' && beqAll body body'
  | .typeSwitch binding subject cases, .typeSwitch binding' subject' cases' =>
    binding == binding' && subject == subject' && beqTypes cases cases'
  | .switch subject cases fallback, .switch subject' cases' fallback' =>
    subject == subject' && beqCases cases cases' && beqAll fallback fallback'
  | .ret values, .ret values' => values == values'
  | .continue, .continue => true
  | .expr e, .expr e' => e == e'
  | _, _ => false

def beqInit : Option Stmt → Option Stmt → Bool
  | none, none => true
  | some s, some s' => s.beq s'
  | _, _ => false

def beqAll : List Stmt → List Stmt → Bool
  | [], [] => true
  | s :: rest, s' :: rest' => s.beq s' && beqAll rest rest'
  | _, _ => false

def beqTypes : List (TypeRef × List Stmt) → List (TypeRef × List Stmt) → Bool
  | [], [] => true
  | (type, body) :: rest, (type', body') :: rest' =>
    type == type' && beqAll body body' && beqTypes rest rest'
  | _, _ => false

def beqCases : List (List Expr × List Stmt) → List (List Expr × List Stmt) → Bool
  | [], [] => true
  | (labels, body) :: rest, (labels', body') :: rest' =>
    labels == labels' && beqAll body body' && beqCases rest rest'
  | _, _ => false

end

instance : BEq Stmt := ⟨beq⟩

/-- Runs `body` if `test` holds, and nothing otherwise. It is a condition without a statement before
    it and without an alternative. -/
def when (test : Expr) (body : Block) : Stmt := .cond none test body []

/-- Assigns to a place that exists. -/
def set (place value : Expr) : Stmt := .assign place value false

end Stmt

structure Param where
  name : Option String := none
  type : TypeRef
deriving BEq, Inhabited

structure Func where
  name : String
  doc : Option String := none
  params : List Param := []
  results : List Param := []
  body : Block := []
deriving BEq, Inhabited

structure TypeDecl where
  name : String
  doc : Option String := none
  definition : TypeRef
deriving BEq, Inhabited

/-- Declarations that belong together. -/
structure Fragment where
  types : List TypeDecl := []
  funcs : List Func := []
deriving BEq, Inhabited

end Shapewright
