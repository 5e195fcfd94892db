import Mathlib
import Shapewright.Conversion.Helper

/-!
# When code is the same

Code is compared when it is merged: two functions of one name have to be the same. The comparison
does not look at the sign of a zero in a literal, so it is coarser than equality. What it looks at
is the code with these signs wiped out (`plain`); hence it is an equivalence, and the order in which
code is compared with other code does not matter.

## Why the comparison is not equality

Numbers in literals are compared as numbers, and there zero and minus zero are equal. Code that
differs in this way prints differently, so of two such helpers one is kept, and it is the one that
comes first. All statements on merging are therefore up to `==`, and rely on no more than the
instance of `EquivBEq` at the end of this module.

The comparison is a recursion over the two pieces of code side by side. Showing directly that it is
transitive would take an induction over three pieces at once. Instead each piece is normalized by
itself, and one lemma for each type says that the comparison is equality of normal forms
(`Expr.beq_iff`, `Stmt.beq_iff`). Its proof has one case for each constructor of the first piece, in
which the second is split.
-/

namespace Shapewright

/-! ## Literals -/

namespace Literal

/-- A float without the sign of a zero. -/
def plainFloat (x : Float) : Float := if x = -0 then 0 else x

/-- Numbers are the same if they are equal without the sign of a zero. -/
theorem sameFloat_iff {x y : Float} : sameFloat x y = true ↔ plainFloat x = plainFloat y := by
  have hzero : (0 : Float) ≠ -0 := by decide
  have hnan : (0 : Float) ≠ .nan ∧ (-0 : Float) ≠ .nan := by decide
  unfold sameFloat plainFloat
  rw [Bool.or_eq_true, Bool.and_eq_true, Float.beq_iff_ne_nan_and_eq, Float.isNaN_eq_decide_eq_nan,
    Float.isNaN_eq_decide_eq_nan, decide_eq_true_iff, decide_eq_true_iff]
  by_cases hx : x = -0 <;> by_cases hy : y = -0 <;> grind

mutual

/-- The literal without the signs of zeros. -/
def plain : Literal → Literal
  | .bool b => .bool b
  | .integer i => .integer i
  | .float x => .float (plainFloat x)
  | .string s => .string s
  | .array items => .array (plainAll items)

def plainAll : List Literal → List Literal
  | [] => []
  | l :: rest => l.plain :: plainAll rest

end

mutual

theorem beq_iff : ∀ {a b : Literal}, a.beq b = true ↔ a.plain = b.plain
  | .bool _, b => by cases b <;> simp [beq, plain]
  | .integer _, b => by cases b <;> simp [beq, plain]
  | .float _, b => by cases b <;> simp [beq, plain, sameFloat_iff]
  | .string _, b => by cases b <;> simp [beq, plain]
  | .array items, b => by cases b <;> simp [beq, plain, beqAll_iff (a := items)]

theorem beqAll_iff : ∀ {a b : List Literal}, beqAll a b = true ↔ plainAll a = plainAll b
  | [], b => by cases b <;> simp [beqAll, plainAll]
  | _ :: _, [] => by simp [beqAll, plainAll]
  | l :: rest, _ :: _ => by simp [beqAll, plainAll, beq_iff (a := l), beqAll_iff (a := rest)]

end

theorem same_iff {a b : Literal} : (a == b) = true ↔ a.plain = b.plain := beq_iff

end Literal

/-! ## Expressions -/

namespace Expr

mutual

/-- The expression without the signs of zeros. -/
def plain : Expr → Expr
  | .ident name => .ident name
  | .field base name => .field base.plain name
  | .index base idx => .index base.plain idx.plain
  | .deref inner => .deref inner.plain
  | .addr inner => .addr inner.plain
  | .nil => .nil
  | .lit value type => .lit value.plain type
  | .str s => .str s
  | .int i => .int i
  | .call func args => .call func (plainAll args)
  | .convert type value => .convert type value.plain
  | .assert value type => .assert value.plain type
  | .composite type fields address => .composite type (plainFields fields) address
  | .sliceLit elem items => .sliceLit elem (plainAll items)
  | .make type size => .make type size.plain
  | .len inner => .len inner.plain
  | .binary op lhs rhs => .binary op lhs.plain rhs.plain
  | .not inner => .not inner.plain

def plainAll : List Expr → List Expr
  | [] => []
  | e :: rest => e.plain :: plainAll rest

def plainFields : List (String × Expr) → List (String × Expr)
  | [] => []
  | (name, e) :: rest => (name, e.plain) :: plainFields rest

end

mutual

theorem beq_iff : ∀ {a b : Expr}, a.beq b = true ↔ a.plain = b.plain
  | .ident _, b => by cases b <;> simp [beq, plain]
  | .field base _, b => by cases b <;> simp [beq, plain, beq_iff (a := base)]
  | .index base idx, b => by
    cases b <;> simp [beq, plain, beq_iff (a := base), beq_iff (a := idx)]
  | .deref inner, b => by cases b <;> simp [beq, plain, beq_iff (a := inner)]
  | .addr inner, b => by cases b <;> simp [beq, plain, beq_iff (a := inner)]
  | .nil, b => by cases b <;> simp [beq, plain]
  | .lit _ _, b => by cases b <;> simp [beq, plain, Literal.same_iff]
  | .str _, b => by cases b <;> simp [beq, plain]
  | .int _, b => by cases b <;> simp [beq, plain]
  | .call _ args, b => by cases b <;> simp [beq, plain, beqAll_iff (a := args)]
  | .convert _ value, b => by cases b <;> simp [beq, plain, beq_iff (a := value)]
  | .assert value _, b => by cases b <;> simp [beq, plain, beq_iff (a := value)]
  | .composite _ fields _, b => by
    cases b <;> simp [beq, plain, beqFields_iff (a := fields), and_assoc]
  | .sliceLit _ items, b => by cases b <;> simp [beq, plain, beqAll_iff (a := items)]
  | .make _ size, b => by cases b <;> simp [beq, plain, beq_iff (a := size)]
  | .len inner, b => by cases b <;> simp [beq, plain, beq_iff (a := inner)]
  | .binary _ lhs rhs, b => by
    cases b <;> simp [beq, plain, beq_iff (a := lhs), beq_iff (a := rhs), and_assoc]
  | .not inner, b => by cases b <;> simp [beq, plain, beq_iff (a := inner)]

theorem beqAll_iff : ∀ {a b : List Expr}, beqAll a b = true ↔ plainAll a = plainAll b
  | [], b => by cases b <;> simp [beqAll, plainAll]
  | _ :: _, [] => by simp [beqAll, plainAll]
  | e :: rest, _ :: _ => by simp [beqAll, plainAll, beq_iff (a := e), beqAll_iff (a := rest)]

theorem beqFields_iff : ∀ {a b : List (String × Expr)},
    beqFields a b = true ↔ plainFields a = plainFields b
  | [], b => by cases b <;> simp [beqFields, plainFields]
  | _ :: _, [] => by simp [beqFields, plainFields]
  | (_, e) :: rest, _ :: _ => by
    simp [beqFields, plainFields, beq_iff (a := e), beqFields_iff (a := rest)]

end

theorem same_iff {a b : Expr} : (a == b) = true ↔ a.plain = b.plain := beq_iff

theorem sameAll_iff {a b : List Expr} : (a == b) = true ↔ plainAll a = plainAll b := by
  induction a generalizing b with
  | nil => cases b <;> simp [plainAll]
  | cons e rest ih => cases b <;> simp [plainAll, same_iff, ih]

theorem sameOption_iff {a b : Option Expr} : (a == b) = true ↔ a.map plain = b.map plain := by
  cases a <;> cases b <;> simp [same_iff]

end Expr

/-! ## Statements -/

namespace Stmt

mutual

/-- The statement without the signs of zeros. -/
def plain : Stmt → Stmt
  | .assign lhs rhs define => .assign lhs.plain rhs.plain define
  | .declare name type value => .declare name type (value.map Expr.plain)
  | .cond init test body otherwise =>
    .cond (plainInit init) test.plain (plainAll body) (plainAll otherwise)
  | .block body => .block (plainAll body)
  | .range key value whole body => .range key value whole.plain (plainAll body)
  | .typeSwitch binding subject cases => .typeSwitch binding subject.plain (plainTypes cases)
  | .switch subject cases fallback => .switch subject.plain (plainCases cases) (plainAll fallback)
  | .ret values => .ret (Expr.plainAll values)
  | .continue => .continue
  | .expr e => .expr e.plain

def plainInit : Option Stmt → Option Stmt
  | none => none
  | some s => some s.plain

def plainAll : List Stmt → List Stmt
  | [] => []
  | s :: rest => s.plain :: plainAll rest

def plainTypes : List (TypeRef × List Stmt) → List (TypeRef × List Stmt)
  | [] => []
  | (type, body) :: rest => (type, plainAll body) :: plainTypes rest

def plainCases : List (List Expr × List Stmt) → List (List Expr × List Stmt)
  | [] => []
  | (labels, body) :: rest => (Expr.plainAll labels, plainAll body) :: plainCases rest

end

mutual

theorem beq_iff : ∀ {a b : Stmt}, a.beq b = true ↔ a.plain = b.plain
  | .assign .., b => by cases b <;> simp [beq, plain, Expr.same_iff, and_assoc]
  | .declare .., b => by cases b <;> simp [beq, plain, Expr.sameOption_iff, and_assoc]
  | .cond init _ body otherwise, b => by
    cases b <;> simp [beq, plain, beqInit_iff (a := init), Expr.same_iff, beqAll_iff (a := body),
      beqAll_iff (a := otherwise), and_assoc]
  | .block body, b => by cases b <;> simp [beq, plain, beqAll_iff (a := body)]
  | .range _ _ _ body, b => by
    cases b <;> simp [beq, plain, Expr.same_iff, beqAll_iff (a := body), and_assoc]
  | .typeSwitch _ _ cases, b => by
    cases b <;> simp [beq, plain, Expr.same_iff, beqTypes_iff (a := cases), and_assoc]
  | .switch _ cases fallback, b => by
    cases b <;> simp [beq, plain, Expr.same_iff, beqCases_iff (a := cases),
      beqAll_iff (a := fallback), and_assoc]
  | .ret _, b => by cases b <;> simp [beq, plain, Expr.sameAll_iff]
  | .continue, b => by cases b <;> simp [beq, plain]
  | .expr _, b => by cases b <;> simp [beq, plain, Expr.same_iff]

theorem beqInit_iff : ∀ {a b : Option Stmt}, beqInit a b = true ↔ plainInit a = plainInit b
  | none, b => by cases b <;> simp [beqInit, plainInit]
  | some _, none => by simp [beqInit, plainInit]
  | some s, some _ => by simp [beqInit, plainInit, beq_iff (a := s)]

theorem beqAll_iff : ∀ {a b : List Stmt}, beqAll a b = true ↔ plainAll a = plainAll b
  | [], b => by cases b <;> simp [beqAll, plainAll]
  | _ :: _, [] => by simp [beqAll, plainAll]
  | s :: rest, _ :: _ => by simp [beqAll, plainAll, beq_iff (a := s), beqAll_iff (a := rest)]

theorem beqTypes_iff : ∀ {a b : List (TypeRef × List Stmt)},
    beqTypes a b = true ↔ plainTypes a = plainTypes b
  | [], b => by cases b <;> simp [beqTypes, plainTypes]
  | _ :: _, [] => by simp [beqTypes, plainTypes]
  | (_, body) :: rest, (_, _) :: _ => by
    simp [beqTypes, plainTypes, beqAll_iff (a := body), beqTypes_iff (a := rest), and_assoc]

theorem beqCases_iff : ∀ {a b : List (List Expr × List Stmt)},
    beqCases a b = true ↔ plainCases a = plainCases b
  | [], b => by cases b <;> simp [beqCases, plainCases]
  | _ :: _, [] => by simp [beqCases, plainCases]
  | (_, body) :: rest, (_, _) :: _ => by
    simp [beqCases, plainCases, Expr.sameAll_iff, beqAll_iff (a := body),
      beqCases_iff (a := rest), and_assoc]

end

theorem same_iff {a b : Stmt} : (a == b) = true ↔ a.plain = b.plain := beq_iff

end Stmt

theorem Block.same_iff {a b : Block} : (a == b) = true ↔ Stmt.plainAll a = Stmt.plainAll b := by
  induction a generalizing b with
  | nil => cases b <;> simp [Stmt.plainAll]
  | cons s rest ih => cases b <;> simp [Stmt.plainAll, Stmt.same_iff, ih]

/-! ## Helpers -/

namespace Helper

/-- The helper without the signs of zeros. Its name and its types have none. -/
def plain (h : Helper) : Helper := { h with body := Stmt.plainAll h.body }

theorem same_iff {a b : Helper} : (a == b) = true ↔ a.plain = b.plain := by
  obtain ⟨name, param, result, body⟩ := a
  obtain ⟨name', param', result', body'⟩ := b
  rw [show ((⟨name, param, result, body⟩ : Helper) == ⟨name', param', result', body'⟩) =
    (name == name' && (param == param' && (result == result' && body == body'))) from rfl]
  simp [plain, Block.same_iff]

instance : EquivBEq Helper where
  rfl := same_iff.mpr rfl
  symm h := same_iff.mpr (same_iff.mp h).symm
  trans h k := same_iff.mpr ((same_iff.mp h).trans (same_iff.mp k))

/-- Helpers that are the same have one name. So names can stand for helpers where no two of one name
    differ. -/
theorem name_eq {a b : Helper} (h : (a == b) = true) : a.name = b.name := by
  have hname := congrArg (·.name) (same_iff.mp h)
  exact hname

end Helper
end Shapewright
