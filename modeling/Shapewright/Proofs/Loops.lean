import Shapewright.Code

/-!
# The loops that code nests

A loop has the loops in its body inside of it, and those that are behind branches and blocks there.
A nest is a loop, one of those inside of it, one of those inside of that, and so on, outermost first
(`Block.nests`).

## Variables of a loop

Besides key and element a loop may have two variables that are declared in its body: a loop over a
map converts key and element into variables of their own, and then stores the pair. They are read
off the last statement of the body (`Loop.temporaries`).

Nothing here depends on how code is generated: loops, nests and temporaries are read off the
statements. That is the reason for the last statement, where the emitter could have been asked. A
statement about generated loops would otherwise be one about the emitter's own bookkeeping.

## All nests

A block has a nest for every loop in it, together with the loops around that one, up to the top of
the block. So what is said of two loops of a nest is said of any loop and any loop around it, and a
property of all nests says of each level how it relates to all outer ones.
-/

namespace Shapewright

/-- What a loop binds, and what it repeats. What it ranges over is not part of it, as that is
    evaluated outside. -/
structure Loop where
  key : Option String
  value : Option String
  body : Block

namespace Stmt

/-! ## Pairs that are stored -/

/-- The variables of key and element, where the statement stores a pair of variables. -/
def pair : Stmt → List String
  | .assign (.index _ (.ident key)) (.ident value) false => [key, value]
  | _ => []

/-- A statement that assigns something else than a variable stores no pair of variables. -/
theorem pair_of_value {place value : Expr} {define : Bool} (h : ∀ x, value ≠ .ident x) :
    (Stmt.assign place value define).pair = [] := by
  unfold pair
  split
  · rename_i heq
    cases heq
    exact absurd rfl (h _)
  · rfl

/-- A statement that assigns to something else than an element stores no pair of variables. -/
theorem pair_of_place {place value : Expr} {define : Bool} (h : ∀ e i, place ≠ .index e i) :
    (Stmt.assign place value define).pair = [] := by
  unfold pair
  split
  · rename_i heq
    cases heq
    exact absurd rfl (h _ _)
  · rfl

end Stmt

namespace Block

/-- The variables of the pair that the block stores last. -/
def lastPair (b : Block) : List String := (b.getLast?.map Stmt.pair).getD []

variable {x : String} {s : Stmt} {a b : Block}

theorem lastPair_concat (b : Block) (s : Stmt) : lastPair (b ++ [s]) = s.pair := by
  rw [lastPair, List.getLast?_concat]
  rfl

/-- The last pair of two blocks is that of the second one, or that of the first if the second is
    empty. -/
theorem mem_lastPair_append (h : x ∈ lastPair (a ++ b)) : x ∈ lastPair a ∨ x ∈ lastPair b := by
  rw [lastPair, List.getLast?_append] at h
  cases hb : b.getLast? with
  | none =>
    rw [hb, Option.none_or] at h
    exact .inl h
  | some s =>
    rw [hb, Option.some_or] at h
    refine .inr ?_
    rwa [lastPair, hb]

end Block

namespace Loop

/-- Key and element, as far as the loop binds them. -/
def binds (l : Loop) : List String := l.key.toList ++ l.value.toList

/-- The variables of the pair that a round of the loop stores in the end. A loop that stores what it
    binds has no others. -/
def temporaries (l : Loop) : List String := l.body.lastPair

end Loop

/-! ## Nests -/

namespace Stmt

mutual

/-- The nests of loops in a statement, outermost first. -/
def nests : Stmt → List (List Loop)
  | .assign .. => []
  | .declare .. => []
  | .cond none _ body otherwise => nestsAll body ++ nestsAll otherwise
  | .cond (some init) _ body otherwise => init.nests ++ nestsAll body ++ nestsAll otherwise
  | .block body => nestsAll body
  | .range key value _ body =>
    [⟨key, value, body⟩] :: (nestsAll body).map (⟨key, value, body⟩ :: ·)
  | .typeSwitch _ _ cases => nestsTypes cases
  | .switch _ cases fallback => nestsCases cases ++ nestsAll fallback
  | .ret _ => []
  | .continue => []
  | .expr _ => []

/-- The nests of loops in a block. -/
def nestsAll : List Stmt → List (List Loop)
  | [] => []
  | s :: rest => s.nests ++ nestsAll rest

/-- The nests of loops in the cases of a switch over types. -/
def nestsTypes : List (TypeRef × List Stmt) → List (List Loop)
  | [] => []
  | (_, body) :: rest => nestsAll body ++ nestsTypes rest

/-- The nests of loops in the cases of a switch over values. -/
def nestsCases : List (List Expr × List Stmt) → List (List Loop)
  | [] => []
  | (_, body) :: rest => nestsAll body ++ nestsCases rest

end

end Stmt

/-- The nests of loops in a block. -/
def Block.nests (b : Block) : List (List Loop) := Stmt.nestsAll b

namespace Block

/-- An empty block has no loops. -/
@[simp] theorem nests_nil : nests [] = [] := rfl

/-- The nests of the first statement come before those of the others. -/
@[simp] theorem nests_cons (s : Stmt) (b : Block) : nests (s :: b) = s.nests ++ nests b := rfl

@[simp] theorem nests_append (a b : Block) : nests (a ++ b) = nests a ++ nests b := by
  induction a with
  | nil => rw [List.nil_append, nests_nil, List.nil_append]
  | cons s a ih => rw [List.cons_append, nests_cons, nests_cons, ih, List.append_assoc]

/-- A nest in the cases of a switch is in the body of one of them. -/
theorem mem_nests_cases {nest : List Loop} {cases : List (TypeRef × Block)} :
    nest ∈ Stmt.nestsTypes cases ↔ ∃ x ∈ cases, nest ∈ nests x.2 := by
  induction cases with
  | nil => simp [Stmt.nestsTypes]
  | cons x rest ih =>
    rw [Stmt.nestsTypes, List.mem_append, ih]
    simp only [List.mem_cons, or_and_right, exists_or, exists_eq_left, nests]

end Block

namespace Stmt

@[simp] theorem nests_assign (place value : Expr) (define : Bool) :
    (Stmt.assign place value define).nests = [] := by rw [nests]

/-- To set a place takes no loop. -/
@[simp] theorem nests_set (place value : Expr) : (set place value).nests = [] := nests_assign ..

@[simp] theorem nests_declare (name : String) (type : TypeRef) (value : Option Expr) :
    (Stmt.declare name type value).nests = [] := by rw [nests]

@[simp] theorem nests_when (test : Expr) (body : Block) :
    (Stmt.when test body).nests = Block.nests body := by
  rw [Stmt.when, nests, nestsAll, List.append_nil, Block.nests]

@[simp] theorem nests_block (body : Block) : (Stmt.block body).nests = Block.nests body := by
  rw [nests, Block.nests]

@[simp] theorem nests_range (key value : Option String) (whole : Expr) (body : Block) :
    (Stmt.range key value whole body).nests =
      [⟨key, value, body⟩] :: (Block.nests body).map (⟨key, value, body⟩ :: ·) := by
  rw [nests, Block.nests]

end Stmt
end Shapewright
