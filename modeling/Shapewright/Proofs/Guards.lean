import Shapewright.Proofs.Calls

/-!
# The tests around code

A block is taken apart into its steps: every statement at whatever depth, without the blocks inside
it, together with the expressions that a test around it has found not to be nil. Only the
then-branch of `if e != nil` counts as knowing something of `e`; what assignments in between do to
`e` is not looked at.

## Why steps and not runs

Whether code dereferences nil is a question about its runs. The code of this library has a simple
answer to it, which can be read off the text: the test that guards an expression stands around its
use, and has the same expression in it. So safety is stated as a fact about the text, that every
dereference is of an expression known at its step, and no semantics of statements is needed for it.

The price is that the reading is literal. An expression counts as known only if the very same one
was tested, and an assignment to a variable in it does not make it unknown.

## Steps and calls

A step keeps its statement, with the blocks inside taken out, so what a statement does by itself can
be asked of the step: which expressions it dereferences (`Stmt.derefs`), which it selects a field of
(`Stmt.selects`) and which functions it calls. Conversely each call of a block is found at some step
(`exists_step_of_mem_calls`), and facts known outside are known inside
(`subset_known_of_mem_steps`).
-/

namespace Shapewright

namespace Expr

mutual

/-- The expressions that an expression dereferences, wherever in it. Selecting a field is kept
    apart, as a field can also be selected from a structure that is no pointer. -/
def derefs : Expr → List Expr
  | .ident _ => []
  | .field base _ => base.derefs
  | .index base idx => base.derefs ++ idx.derefs
  | .deref inner => inner :: inner.derefs
  | .addr inner => inner.derefs
  | .nil => []
  | .lit _ _ => []
  | .str _ => []
  | .int _ => []
  | .call _ args => derefsAll args
  | .convert _ value => value.derefs
  | .assert value _ => value.derefs
  | .composite _ fields _ => derefsFields fields
  | .sliceLit _ items => derefsAll items
  | .make _ size => size.derefs
  | .len inner => inner.derefs
  | .binary _ lhs rhs => lhs.derefs ++ rhs.derefs
  | .not inner => inner.derefs

def derefsAll : List Expr → List Expr
  | [] => []
  | e :: rest => e.derefs ++ derefsAll rest

def derefsFields : List (String × Expr) → List Expr
  | [] => []
  | (_, e) :: rest => e.derefs ++ derefsFields rest

end

/-- Fields of a composite are dereferenced like arguments of a call. -/
theorem mem_derefsFields {e : Expr} {fields : List (String × Expr)} :
    e ∈ derefsFields fields ↔ ∃ f ∈ fields, e ∈ f.2.derefs := by
  induction fields with
  | nil => simp [derefsFields]
  | cons f rest ih =>
    rw [derefsFields, List.mem_append, ih]
    simp only [List.mem_cons, or_and_right, exists_or, exists_eq_left]

mutual

/-- The expressions that an expression selects a field of. -/
def selects : Expr → List Expr
  | .ident _ => []
  | .field base _ => base :: base.selects
  | .index base idx => base.selects ++ idx.selects
  | .deref inner => inner.selects
  | .addr inner => inner.selects
  | .nil => []
  | .lit _ _ => []
  | .str _ => []
  | .int _ => []
  | .call _ args => selectsAll args
  | .convert _ value => value.selects
  | .assert value _ => value.selects
  | .composite _ fields _ => selectsFields fields
  | .sliceLit _ items => selectsAll items
  | .make _ size => size.selects
  | .len inner => inner.selects
  | .binary _ lhs rhs => lhs.selects ++ rhs.selects
  | .not inner => inner.selects

def selectsAll : List Expr → List Expr
  | [] => []
  | e :: rest => e.selects ++ selectsAll rest

def selectsFields : List (String × Expr) → List Expr
  | [] => []
  | (_, e) :: rest => e.selects ++ selectsFields rest

end

/-- What is known not to be nil where the test `e != nil` holds: `e`. Other tests tell nothing, not
    even a conjunction of such tests. -/
def proves : Expr → List Expr
  | .binary .ne e .nil => [e]
  | _ => []

@[simp] theorem proves_notNil (e : Expr) : e.notNil.proves = [e] := rfl

@[simp] theorem derefs_notNil (e : Expr) : e.notNil.derefs = e.derefs := by
  rw [notNil, derefs, derefs, List.append_nil]

@[simp] theorem derefs_isNil (e : Expr) : e.isNil.derefs = e.derefs := by
  rw [isNil, derefs, derefs, List.append_nil]

@[simp] theorem selects_notNil (e : Expr) : e.notNil.selects = e.selects := by
  rw [notNil, selects, selects, List.append_nil]

@[simp] theorem selects_isNil (e : Expr) : e.isNil.selects = e.selects := by
  rw [isNil, selects, selects, List.append_nil]

end Expr

/-- A statement without the blocks inside it, and what is known not to be nil there. The list is
    that of all tests around it, innermost first. -/
structure CodeStep where
  known : List Expr
  stmt : Stmt

namespace Stmt

/-- The expressions that a statement dereferences outside the blocks inside it. -/
def derefs : Stmt → List Expr
  | .assign lhs rhs _ => lhs.derefs ++ rhs.derefs
  | .declare _ _ none => []
  | .declare _ _ (some value) => value.derefs
  | .cond _ test _ _ => test.derefs
  | .block _ => []
  | .range _ _ whole _ => whole.derefs
  | .typeSwitch _ subject _ => subject.derefs
  | .switch subject cases _ => subject.derefs ++ cases.flatMap fun x => Expr.derefsAll x.1
  | .ret values => Expr.derefsAll values
  | .continue => []
  | .expr e => e.derefs

/-- The expressions that a statement selects a field of, outside the blocks inside it. -/
def selects : Stmt → List Expr
  | .assign lhs rhs _ => lhs.selects ++ rhs.selects
  | .declare _ _ none => []
  | .declare _ _ (some value) => value.selects
  | .cond _ test _ _ => test.selects
  | .block _ => []
  | .range _ _ whole _ => whole.selects
  | .typeSwitch _ subject _ => subject.selects
  | .switch subject cases _ => subject.selects ++ cases.flatMap fun x => Expr.selectsAll x.1
  | .ret values => Expr.selectsAll values
  | .continue => []
  | .expr e => e.selects

mutual

/-- The steps of a statement that stands where the expressions `known` are not nil. The test of a
    condition is itself a step, outside what it guards. -/
def steps (known : List Expr) : Stmt → List CodeStep
  | .assign lhs rhs define => [⟨known, .assign lhs rhs define⟩]
  | .declare name type value => [⟨known, .declare name type value⟩]
  | .cond none test body otherwise =>
    ⟨known, .cond none test [] []⟩ ::
      (stepsAll (test.proves ++ known) body ++ stepsAll known otherwise)
  | .cond (some init) test body otherwise =>
    init.steps known ++ ⟨known, .cond none test [] []⟩ ::
      (stepsAll (test.proves ++ known) body ++ stepsAll known otherwise)
  | .block body => stepsAll known body
  | .range key value whole body => ⟨known, .range key value whole []⟩ :: stepsAll known body
  | .typeSwitch binding subject cases =>
    ⟨known, .typeSwitch binding subject []⟩ :: stepsTypes known cases
  | .switch subject cases fallback =>
    ⟨known, .switch subject (cases.map fun x => (x.1, [])) []⟩ ::
      (stepsCases known cases ++ stepsAll known fallback)
  | .ret values => [⟨known, .ret values⟩]
  | .continue => [⟨known, .continue⟩]
  | .expr e => [⟨known, .expr e⟩]

def stepsAll (known : List Expr) : List Stmt → List CodeStep
  | [] => []
  | s :: rest => s.steps known ++ stepsAll known rest

def stepsTypes (known : List Expr) : List (TypeRef × List Stmt) → List CodeStep
  | [] => []
  | (_, body) :: rest => stepsAll known body ++ stepsTypes known rest

def stepsCases (known : List Expr) : List (List Expr × List Stmt) → List CodeStep
  | [] => []
  | (_, body) :: rest => stepsAll known body ++ stepsCases known rest

end

end Stmt

/-- The steps of a block that stands where the expressions `known` are not nil. -/
def Block.steps (known : List Expr) (b : Block) : List CodeStep := Stmt.stepsAll known b

namespace Block

variable {known : List Expr} {step : CodeStep}

@[simp] theorem steps_nil : steps known [] = [] := rfl

@[simp] theorem steps_cons (s : Stmt) (b : Block) :
    steps known (s :: b) = s.steps known ++ steps known b := rfl

@[simp] theorem steps_append (a b : Block) :
    steps known (a ++ b) = steps known a ++ steps known b := by
  induction a with
  | nil => rw [List.nil_append, steps_nil, List.nil_append]
  | cons s a ih => rw [List.cons_append, steps_cons, steps_cons, ih, List.append_assoc]

theorem steps_flatMap {α : Type} (xs : List α) (f : α → Block) :
    steps known (xs.flatMap f) = xs.flatMap fun x => steps known (f x) := by
  induction xs with
  | nil => rw [List.flatMap_nil, List.flatMap_nil, steps_nil]
  | cons x xs ih => rw [List.flatMap_cons, List.flatMap_cons, steps_append, ih]

theorem mem_steps_cases {cases : List (TypeRef × Block)} :
    step ∈ Stmt.stepsTypes known cases ↔ ∃ x ∈ cases, step ∈ steps known x.2 := by
  induction cases with
  | nil => simp [Stmt.stepsTypes]
  | cons x rest ih =>
    rw [Stmt.stepsTypes, List.mem_append, ih]
    simp only [List.mem_cons, or_and_right, exists_or, exists_eq_left, steps]

end Block

namespace Stmt

variable {known : List Expr} {step : CodeStep}

@[simp] theorem steps_assign (place value : Expr) (define : Bool) :
    (Stmt.assign place value define).steps known = [⟨known, .assign place value define⟩] := rfl

@[simp] theorem steps_declare (name : String) (type : TypeRef) (value : Option Expr) :
    (Stmt.declare name type value).steps known = [⟨known, .declare name type value⟩] := rfl

@[simp] theorem steps_block (body : Block) :
    (Stmt.block body).steps known = Block.steps known body := rfl

@[simp] theorem steps_when (test : Expr) (body : Block) :
    (Stmt.when test body).steps known =
      ⟨known, .when test []⟩ :: Block.steps (test.proves ++ known) body := by
  rw [Stmt.when, steps, stepsAll, List.append_nil, Block.steps]
  rfl

@[simp] theorem steps_range (key value : Option String) (whole : Expr) (body : Block) :
    (Stmt.range key value whole body).steps known =
      ⟨known, .range key value whole []⟩ :: Block.steps known body := rfl

mutual

/-- Nothing that is known around a statement is forgotten inside it. One case for each statement. A
    test adds to what is known, and nothing takes away from it. -/
theorem subset_known_of_mem_steps : ∀ {s : Stmt} {known : List Expr},
    step ∈ s.steps known → known ⊆ step.known
  | .assign .., known, h => by
    simp only [steps, List.mem_singleton] at h
    exact h ▸ List.Subset.refl known
  | .declare .., known, h => by
    simp only [steps, List.mem_singleton] at h
    exact h ▸ List.Subset.refl known
  | .cond none test body otherwise, known, h => by
    simp only [steps, List.mem_cons, List.mem_append] at h
    rcases h with rfl | h | h
    · exact List.Subset.refl known
    -- Only the first branch learns what the test proves; the other knows what was known before.
    · exact fun e he => subset_known_of_mem_stepsAll h (List.mem_append_right _ he)
    · exact subset_known_of_mem_stepsAll h
  | .cond (some init) test body otherwise, known, h => by
    simp only [steps, List.mem_cons, List.mem_append] at h
    rcases h with h | rfl | h | h
    · exact subset_known_of_mem_steps h
    · exact List.Subset.refl known
    · exact fun e he => subset_known_of_mem_stepsAll h (List.mem_append_right _ he)
    · exact subset_known_of_mem_stepsAll h
  | .block body, known, h => by
    rw [steps] at h
    exact subset_known_of_mem_stepsAll h
  | .range key value whole body, known, h => by
    simp only [steps, List.mem_cons] at h
    rcases h with rfl | h
    · exact List.Subset.refl known
    · exact subset_known_of_mem_stepsAll h
  | .typeSwitch binding subject cases, known, h => by
    simp only [steps, List.mem_cons] at h
    rcases h with rfl | h
    · exact List.Subset.refl known
    · exact subset_known_of_mem_stepsTypes h
  | .switch subject cases fallback, known, h => by
    simp only [steps, List.mem_cons, List.mem_append] at h
    rcases h with rfl | h | h
    · exact List.Subset.refl known
    · exact subset_known_of_mem_stepsCases h
    · exact subset_known_of_mem_stepsAll h
  | .ret .., known, h => by
    simp only [steps, List.mem_singleton] at h
    exact h ▸ List.Subset.refl known
  | .continue, known, h => by
    simp only [steps, List.mem_singleton] at h
    exact h ▸ List.Subset.refl known
  | .expr .., known, h => by
    simp only [steps, List.mem_singleton] at h
    exact h ▸ List.Subset.refl known

theorem subset_known_of_mem_stepsAll : ∀ {b : List Stmt} {known : List Expr},
    step ∈ stepsAll known b → known ⊆ step.known
  | [], known, h => by simp [stepsAll] at h
  | s :: rest, known, h => by
    rw [stepsAll, List.mem_append] at h
    rcases h with h | h
    · exact subset_known_of_mem_steps h
    · exact subset_known_of_mem_stepsAll h

theorem subset_known_of_mem_stepsTypes : ∀ {cases : List (TypeRef × List Stmt)}
    {known : List Expr}, step ∈ stepsTypes known cases → known ⊆ step.known
  | [], known, h => by simp [stepsTypes] at h
  | (_, body) :: rest, known, h => by
    rw [stepsTypes, List.mem_append] at h
    rcases h with h | h
    · exact subset_known_of_mem_stepsAll h
    · exact subset_known_of_mem_stepsTypes h

theorem subset_known_of_mem_stepsCases : ∀ {cases : List (List Expr × List Stmt)}
    {known : List Expr}, step ∈ stepsCases known cases → known ⊆ step.known
  | [], known, h => by simp [stepsCases] at h
  | (_, body) :: rest, known, h => by
    rw [stepsCases, List.mem_append] at h
    rcases h with h | h
    · exact subset_known_of_mem_stepsAll h
    · exact subset_known_of_mem_stepsCases h

end

/-! ### Calls -/

theorem callsCases_of_labels {labels : List Expr} {call : Call}
    (hcall : call ∈ Expr.callsAll labels) : ∀ {cases : List (List Expr × List Stmt)},
      labels ∈ cases.map Prod.fst → call ∈ callsCases (cases.map fun x => (x.1, [])) := by
  intro cases
  induction cases with
  | nil => simp
  | cons x rest ih =>
    intro h
    rw [List.map_cons, callsCases]
    rcases List.mem_cons.mp h with rfl | h
    · exact List.mem_append_left _ (List.mem_append_left _ hcall)
    · exact List.mem_append_right _ (ih h)

mutual

/-- A call in a statement is one of its steps. So what holds of all steps holds where a function is
    called. -/
theorem exists_step_of_mem_calls : ∀ {s : Stmt} {known : List Expr} {call : Call},
    call ∈ s.calls → ∃ step ∈ s.steps known, call ∈ step.stmt.calls
  | .assign .., known, call, h => by
    rw [steps]
    exact ⟨_, List.mem_singleton_self _, h⟩
  | .declare .., known, call, h => by
    rw [steps]
    exact ⟨_, List.mem_singleton_self _, h⟩
  | .cond none test body otherwise, known, call, h => by
    rw [calls, List.mem_append, List.mem_append] at h
    rw [steps]
    rcases h with (h | h) | h
    · refine ⟨_, List.mem_cons_self, ?_⟩
      rw [calls]
      exact List.mem_append_left _ (List.mem_append_left _ h)
    · obtain ⟨step, hstep, hcall⟩ := exists_step_of_mem_callsAll h
      exact ⟨step, List.mem_cons_of_mem _ (List.mem_append_left _ hstep), hcall⟩
    · obtain ⟨step, hstep, hcall⟩ := exists_step_of_mem_callsAll h
      exact ⟨step, List.mem_cons_of_mem _ (List.mem_append_right _ hstep), hcall⟩
  | .cond (some init) test body otherwise, known, call, h => by
    rw [calls, List.mem_append, List.mem_append, List.mem_append] at h
    rw [steps]
    rcases h with ((h | h) | h) | h
    · obtain ⟨step, hstep, hcall⟩ := exists_step_of_mem_calls h
      exact ⟨step, List.mem_append_left _ hstep, hcall⟩
    · refine ⟨_, List.mem_append_right _ List.mem_cons_self, ?_⟩
      rw [calls]
      exact List.mem_append_left _ (List.mem_append_left _ h)
    · obtain ⟨step, hstep, hcall⟩ := exists_step_of_mem_callsAll h
      exact ⟨step, List.mem_append_right _ (List.mem_cons_of_mem _ (List.mem_append_left _ hstep)),
        hcall⟩
    · obtain ⟨step, hstep, hcall⟩ := exists_step_of_mem_callsAll h
      exact ⟨step, List.mem_append_right _ (List.mem_cons_of_mem _ (List.mem_append_right _ hstep)),
        hcall⟩
  | .block body, known, call, h => by
    rw [calls] at h
    rw [steps]
    exact exists_step_of_mem_callsAll h
  | .range key value whole body, known, call, h => by
    rw [calls, List.mem_append] at h
    rw [steps]
    rcases h with h | h
    · refine ⟨_, List.mem_cons_self, ?_⟩
      rw [calls]
      exact List.mem_append_left _ h
    · obtain ⟨step, hstep, hcall⟩ := exists_step_of_mem_callsAll h
      exact ⟨step, List.mem_cons_of_mem _ hstep, hcall⟩
  | .typeSwitch binding subject cases, known, call, h => by
    rw [calls, List.mem_append] at h
    rw [steps]
    rcases h with h | h
    · refine ⟨_, List.mem_cons_self, ?_⟩
      rw [calls]
      exact List.mem_append_left _ h
    · obtain ⟨step, hstep, hcall⟩ := exists_step_of_mem_callsTypes h
      exact ⟨step, List.mem_cons_of_mem _ hstep, hcall⟩
  | .switch subject cases fallback, known, call, h => by
    rw [calls, List.mem_append, List.mem_append] at h
    rw [steps]
    rcases h with (h | h) | h
    · refine ⟨_, List.mem_cons_self, ?_⟩
      rw [calls]
      exact List.mem_append_left _ (List.mem_append_left _ h)
    -- Labels are evaluated by the switch itself, bodies are steps of their own.
    · rcases exists_step_of_mem_callsCases h with ⟨labels, hlabels, h⟩ | ⟨step, hstep, hcall⟩
      · refine ⟨_, List.mem_cons_self, ?_⟩
        rw [calls]
        exact List.mem_append_left _ (List.mem_append_right _ (callsCases_of_labels h hlabels))
      · exact ⟨step, List.mem_cons_of_mem _ (List.mem_append_left _ hstep), hcall⟩
    · obtain ⟨step, hstep, hcall⟩ := exists_step_of_mem_callsAll h
      exact ⟨step, List.mem_cons_of_mem _ (List.mem_append_right _ hstep), hcall⟩
  | .ret .., known, call, h => by
    rw [steps]
    exact ⟨_, List.mem_singleton_self _, h⟩
  | .continue, known, call, h => by
    rw [steps]
    exact ⟨_, List.mem_singleton_self _, h⟩
  | .expr .., known, call, h => by
    rw [steps]
    exact ⟨_, List.mem_singleton_self _, h⟩

theorem exists_step_of_mem_callsAll : ∀ {b : List Stmt} {known : List Expr} {call : Call},
    call ∈ callsAll b → ∃ step ∈ stepsAll known b, call ∈ step.stmt.calls
  | [], known, call, h => by simp [callsAll] at h
  | s :: rest, known, call, h => by
    rw [callsAll, List.mem_append] at h
    rw [stepsAll]
    rcases h with h | h
    · obtain ⟨step, hstep, hcall⟩ := exists_step_of_mem_calls h
      exact ⟨step, List.mem_append_left _ hstep, hcall⟩
    · obtain ⟨step, hstep, hcall⟩ := exists_step_of_mem_callsAll h
      exact ⟨step, List.mem_append_right _ hstep, hcall⟩

theorem exists_step_of_mem_callsTypes : ∀ {cases : List (TypeRef × List Stmt)}
    {known : List Expr} {call : Call}, call ∈ callsTypes cases →
      ∃ step ∈ stepsTypes known cases, call ∈ step.stmt.calls
  | [], known, call, h => by simp [callsTypes] at h
  | (_, body) :: rest, known, call, h => by
    rw [callsTypes, List.mem_append] at h
    rw [stepsTypes]
    rcases h with h | h
    · obtain ⟨step, hstep, hcall⟩ := exists_step_of_mem_callsAll h
      exact ⟨step, List.mem_append_left _ hstep, hcall⟩
    · obtain ⟨step, hstep, hcall⟩ := exists_step_of_mem_callsTypes h
      exact ⟨step, List.mem_append_right _ hstep, hcall⟩

/-- The calls in the labels of a switch belong to the step of the switch itself. The bodies of the
    cases have steps of their own, and their calls are calls of these. -/
theorem exists_step_of_mem_callsCases : ∀ {cases : List (List Expr × List Stmt)}
    {known : List Expr} {call : Call}, call ∈ callsCases cases →
      (∃ labels ∈ cases.map Prod.fst, call ∈ Expr.callsAll labels) ∨
        ∃ step ∈ stepsCases known cases, call ∈ step.stmt.calls
  | [], known, call, h => by simp [callsCases] at h
  | (labels, body) :: rest, known, call, h => by
    rw [callsCases, List.mem_append, List.mem_append] at h
    rw [stepsCases]
    rcases h with (h | h) | h
    · exact .inl ⟨labels, List.mem_cons_self, h⟩
    · obtain ⟨step, hstep, hcall⟩ := exists_step_of_mem_callsAll h
      exact .inr ⟨step, List.mem_append_left _ hstep, hcall⟩
    · rcases exists_step_of_mem_callsCases h with ⟨l, hl, h⟩ | ⟨step, hstep, hcall⟩
      · exact .inl ⟨l, List.mem_cons_of_mem _ hl, h⟩
      · exact .inr ⟨step, List.mem_append_right _ hstep, hcall⟩

end

end Stmt

theorem Block.exists_step_of_mem_calls {b : Block} {call : Call} (h : call ∈ b.calls)
    (known : List Expr) : ∃ step ∈ b.steps known, call ∈ step.stmt.calls :=
  Stmt.exists_step_of_mem_callsAll h

theorem Block.subset_known {known : List Expr} {b : Block} {step : CodeStep}
    (h : step ∈ b.steps known) : known ⊆ step.known :=
  Stmt.subset_known_of_mem_stepsAll h

end Shapewright
