import Shapewright.Code

/-!
# The functions that code calls

The calls in a piece of code, at whatever depth: in arguments, in the fields of literals and in the
branches of statements. Conversions of types, `make` and `len` are not calls.

Generated code calls helpers, validators and what a reporting package offers, and every theorem that
a call is answered by some function is a statement about this list. The recursion follows the
constructors of expressions and statements. What proofs use is the small algebra behind it: calls of
blocks one after another are the calls of each, and the few ways in which the emitters put
statements together (`Stmt.set`, `Stmt.when`, a loop) have an equation each. With these, the calls
of a generated block are computed by `simp` and never by unfolding the recursion.

A call is kept with its arguments. That a helper is handed the value it was made for is part of what
is shown later, so the name alone would say too little.
-/

namespace Shapewright

/-- A called function and its arguments. -/
abbrev Call := String × List Expr

namespace Expr

mutual

/-- The calls in an expression. -/
def calls : Expr → List Call
  | .ident _ => []
  | .field base _ => base.calls
  | .index base idx => base.calls ++ idx.calls
  | .deref inner => inner.calls
  | .addr inner => inner.calls
  | .nil => []
  | .lit _ _ => []
  | .str _ => []
  | .int _ => []
  | .call func args => (func, args) :: callsAll args
  | .convert _ value => value.calls
  | .assert value _ => value.calls
  | .composite _ fields _ => callsFields fields
  | .sliceLit _ items => callsAll items
  | .make _ size => size.calls
  | .len inner => inner.calls
  | .binary _ lhs rhs => lhs.calls ++ rhs.calls
  | .not inner => inner.calls

def callsAll : List Expr → List Call
  | [] => []
  | e :: rest => e.calls ++ callsAll rest

def callsFields : List (String × Expr) → List Call
  | [] => []
  | (_, e) :: rest => e.calls ++ callsFields rest

end

@[simp] theorem calls_notNil (e : Expr) : e.notNil.calls = e.calls := by
  rw [notNil, calls, calls, List.append_nil]

@[simp] theorem calls_isNil (e : Expr) : e.isNil.calls = e.calls := by
  rw [isNil, calls, calls, List.append_nil]

/-- The fields of a literal contribute their calls, whatever they are named. -/
theorem mem_callsFields {call : Call} {fields : List (String × Expr)} :
    call ∈ callsFields fields ↔ ∃ f ∈ fields, call ∈ f.2.calls := by
  induction fields with
  | nil => simp [callsFields]
  | cons f rest ih =>
    rw [callsFields, List.mem_append, ih]
    simp only [List.mem_cons, or_and_right, exists_or, exists_eq_left]

end Expr

namespace Stmt

mutual

/-- The calls in a statement. -/
def calls : Stmt → List Call
  | .assign lhs rhs _ => lhs.calls ++ rhs.calls
  | .declare _ _ none => []
  | .declare _ _ (some value) => value.calls
  | .cond none test body otherwise => test.calls ++ callsAll body ++ callsAll otherwise
  | .cond (some init) test body otherwise =>
    init.calls ++ test.calls ++ callsAll body ++ callsAll otherwise
  | .block body => callsAll body
  | .range _ _ whole body => whole.calls ++ callsAll body
  | .typeSwitch _ subject cases => subject.calls ++ callsTypes cases
  | .switch subject cases fallback => subject.calls ++ callsCases cases ++ callsAll fallback
  | .ret values => Expr.callsAll values
  | .continue => []
  | .expr e => e.calls

/-- The calls in a block. -/
def callsAll : List Stmt → List Call
  | [] => []
  | s :: rest => s.calls ++ callsAll rest

def callsTypes : List (TypeRef × List Stmt) → List Call
  | [] => []
  | (_, body) :: rest => callsAll body ++ callsTypes rest

def callsCases : List (List Expr × List Stmt) → List Call
  | [] => []
  | (labels, body) :: rest => Expr.callsAll labels ++ callsAll body ++ callsCases rest

end

end Stmt

/-- The calls in a block. -/
def Block.calls (b : Block) : List Call := Stmt.callsAll b

namespace Block

@[simp] theorem calls_nil : calls [] = [] := rfl

@[simp] theorem calls_cons (s : Stmt) (b : Block) : calls (s :: b) = s.calls ++ calls b := rfl

@[simp] theorem calls_append (a b : Block) : calls (a ++ b) = calls a ++ calls b := by
  induction a with
  | nil => rw [List.nil_append, calls_nil, List.nil_append]
  | cons s a ih => rw [List.cons_append, calls_cons, calls_cons, ih, List.append_assoc]

theorem calls_flatMap {α : Type} (xs : List α) (f : α → Block) :
    calls (xs.flatMap f) = xs.flatMap fun x => calls (f x) := by
  induction xs with
  | nil => rw [List.flatMap_nil, List.flatMap_nil, calls_nil]
  | cons x xs ih => rw [List.flatMap_cons, List.flatMap_cons, calls_append, ih]

/-- A call in a type switch stands in one of its cases, or else in what is switched over. -/
theorem mem_calls_cases {call : Call} {cases : List (TypeRef × Block)} :
    call ∈ Stmt.callsTypes cases ↔ ∃ x ∈ cases, call ∈ calls x.2 := by
  induction cases with
  | nil => simp [Stmt.callsTypes]
  | cons x rest ih =>
    rw [Stmt.callsTypes, List.mem_append, ih]
    simp only [List.mem_cons, or_and_right, exists_or, exists_eq_left, calls]

end Block

namespace Stmt

@[simp] theorem calls_set (place value : Expr) :
    (set place value).calls = place.calls ++ value.calls := rfl

@[simp] theorem calls_when (test : Expr) (body : Block) :
    (Stmt.when test body).calls = test.calls ++ Block.calls body := by
  rw [Stmt.when, calls, callsAll, List.append_nil, Block.calls]

@[simp] theorem calls_range (key value : Option String) (whole : Expr) (body : Block) :
    (Stmt.range key value whole body).calls = whole.calls ++ Block.calls body := rfl

end Stmt
end Shapewright
