import Shapewright.Code

/-!
# The statements inside code

The statements of a block, each followed by the statements inside it at whatever depth. They are
whole: a test is there with its branches, and so is everything in a branch.

Code is taken apart in two ways in this development. Where it matters what is known or declared
around a statement, a block is a list of steps, which have no blocks inside (`Block.steps`). Where
the question is whether some piece of code occurs at all, it is the whole statement that has to be
found, with everything in it, and its surroundings are of no interest. This is what `Block.parts` is
for: the code of a check occurs in the code of a validation if it is among the parts.

The lemmas only ever lead outwards. What is in the body of a statement is in the statement, and what
is in a piece of code is in any code that has this piece. Nothing is said of what is not there.
-/

namespace Shapewright

namespace Stmt

mutual

/-- The statement and all statements inside it, outermost first. -/
def parts (s : Stmt) : List Stmt :=
  s :: match s with
    | .assign .. => []
    | .declare .. => []
    | .cond none _ body otherwise => partsAll body ++ partsAll otherwise
    | .cond (some init) _ body otherwise => init.parts ++ partsAll body ++ partsAll otherwise
    | .block body => partsAll body
    | .range _ _ _ body => partsAll body
    | .typeSwitch _ _ cases => partsTypes cases
    | .switch _ cases fallback => partsCases cases ++ partsAll fallback
    | .ret _ => []
    | .continue => []
    | .expr _ => []

def partsAll : List Stmt → List Stmt
  | [] => []
  | s :: rest => s.parts ++ partsAll rest

def partsTypes : List (TypeRef × List Stmt) → List Stmt
  | [] => []
  | (_, body) :: rest => partsAll body ++ partsTypes rest

def partsCases : List (List Expr × List Stmt) → List Stmt
  | [] => []
  | (_, body) :: rest => partsAll body ++ partsCases rest

end

theorem mem_parts_self (s : Stmt) : s ∈ s.parts := by
  unfold parts
  exact List.mem_cons_self

end Stmt

/-- The statements of a block and all statements inside them, in the order of the text. -/
def Block.parts (b : Block) : List Stmt := Stmt.partsAll b

namespace Block

variable {s : Stmt} {b : Block}

@[simp] theorem parts_nil : parts [] = [] := rfl

@[simp] theorem parts_cons (s : Stmt) (b : Block) : parts (s :: b) = s.parts ++ parts b := rfl

@[simp] theorem parts_append (a b : Block) : parts (a ++ b) = parts a ++ parts b := by
  induction a with
  | nil => rw [List.nil_append, parts_nil, List.nil_append]
  | cons s a ih => rw [List.cons_append, parts_cons, parts_cons, ih, List.append_assoc]

theorem parts_subset_left (a b : Block) : parts a ⊆ parts (a ++ b) := by
  rw [parts_append]
  exact List.subset_append_left _ _

theorem parts_subset_right (a b : Block) : parts b ⊆ parts (a ++ b) := by
  rw [parts_append]
  exact List.subset_append_right _ _

theorem mem_parts_of_mem (h : s ∈ b) : s ∈ b.parts := by
  induction b with
  | nil => simp at h
  | cons t rest ih =>
    rw [parts_cons, List.mem_append]
    rcases List.mem_cons.mp h with rfl | h
    · exact .inl s.mem_parts_self
    · exact .inr (ih h)

theorem mem_parts_singleton {t : Stmt} (h : s ∈ t.parts) : s ∈ parts [t] := by
  rw [parts_cons]
  exact List.mem_append_left _ h

end Block

namespace Stmt

variable {s : Stmt}

theorem mem_parts_when {test : Expr} {body : Block} (h : s ∈ body.parts) :
    s ∈ (Stmt.when test body).parts := by
  rw [Stmt.when, parts]
  exact List.mem_cons_of_mem _ (List.mem_append_left _ h)

theorem mem_parts_cond {init : Stmt} {test : Expr} {body : Block} (h : s ∈ body.parts) :
    s ∈ (Stmt.cond (some init) test body []).parts := by
  rw [parts]
  exact List.mem_cons_of_mem _ (List.mem_append_left _ (List.mem_append_right _ h))

theorem mem_parts_range {key value : Option String} {whole : Expr} {body : Block}
    (h : s ∈ body.parts) : s ∈ (Stmt.range key value whole body).parts := by
  rw [parts]
  exact List.mem_cons_of_mem _ h

end Stmt
end Shapewright
