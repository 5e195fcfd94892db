import Shapewright.Proofs.Guards

/-!
# Which declaration a variable stands for

A name stands for the variable of the innermost block around it that declares it. The blocks of a
function are numbered from outside, so a variable is told by its name and a number, and a variable
is hidden where its name stands for one of a higher number.

As for the tests around code, a block is taken apart into its steps, here with the variables that
are declared so far. The variables of a loop have a block around its body; the one that a switch
binds is in the block of every case.

## Numbers instead of renaming

Whether code captures a variable is usually said by renaming: code means the same if bound variables
are called otherwise. For code that is put together from strings this would need a theory of its
own. With numbers there is a direct question to ask at each step: is this name declared in the block
in which whoever wrote it declared it? `Scopes.block?` answers the first half, and which block was
meant is known to the emitters.

A declaration counts behind the statement that makes it and not inside of that, as in the language.
So `Block.stepsIn` hands the scopes on from statement to statement, and code that is put together
from two parts has the second under the declarations of the first (`stepsIn_append`). Parts that
declare nothing in their own block do not hear of each other.

Declaring a variable twice in one block is an error of the compiler, which `Once` excludes.
-/

namespace Shapewright

namespace Expr

mutual

/-- The variables that an expression mentions. Names of fields and functions are not among them. -/
def vars : Expr → List String
  | .ident name => [name]
  | .field base _ => base.vars
  | .index base idx => base.vars ++ idx.vars
  | .deref inner => inner.vars
  | .addr inner => inner.vars
  | .nil => []
  | .lit _ _ => []
  | .str _ => []
  | .int _ => []
  | .call _ args => varsAll args
  | .convert _ value => value.vars
  | .assert value _ => value.vars
  | .composite _ fields _ => varsFields fields
  | .sliceLit _ items => varsAll items
  | .make _ size => size.vars
  | .len inner => inner.vars
  | .binary _ lhs rhs => lhs.vars ++ rhs.vars
  | .not inner => inner.vars

def varsAll : List Expr → List String
  | [] => []
  | e :: rest => e.vars ++ varsAll rest

def varsFields : List (String × Expr) → List String
  | [] => []
  | (_, e) :: rest => e.vars ++ varsFields rest

end

theorem mem_varsFields {x : String} {fields : List (String × Expr)} :
    x ∈ varsFields fields ↔ ∃ f ∈ fields, x ∈ f.2.vars := by
  induction fields with
  | nil => simp [varsFields]
  | cons f rest ih =>
    rw [varsFields, List.mem_append, ih]
    simp only [List.mem_cons, or_and_right, exists_or, exists_eq_left]

@[simp] theorem vars_notNil (e : Expr) : e.notNil.vars = e.vars := by
  rw [notNil, vars, vars, List.append_nil]

@[simp] theorem vars_isNil (e : Expr) : e.isNil.vars = e.vars := by
  rw [isNil, vars, vars, List.append_nil]

end Expr

namespace Stmt

/-- The variables that a statement declares in its block. -/
def declares : Stmt → List String
  | .assign place _ true => place.vars
  | .declare name _ _ => [name]
  | _ => []

/-- The variables that a statement reads or writes, outside the blocks inside it. -/
def vars : Stmt → List String
  | .assign _ value true => value.vars
  | .assign place value false => place.vars ++ value.vars
  | .declare _ _ none => []
  | .declare _ _ (some value) => value.vars
  | .cond _ test _ _ => test.vars
  | .block _ => []
  | .range _ _ whole _ => whole.vars
  | .typeSwitch _ subject _ => subject.vars
  | .switch subject cases _ => subject.vars ++ cases.flatMap fun x => Expr.varsAll x.1
  | .ret values => Expr.varsAll values
  | .continue => []
  | .expr e => e.vars

end Stmt

namespace Stmt

@[simp] theorem set_declares (place value : Expr) : (Stmt.set place value).declares = [] := rfl

@[simp] theorem set_vars (place value : Expr) :
    (Stmt.set place value).vars = place.vars ++ value.vars := rfl

end Stmt

/-- The variables that a block declares, in order. -/
def Block.declares (b : Block) : List String := b.flatMap Stmt.declares

namespace Block

@[simp] theorem declares_nil : declares [] = [] := rfl

@[simp] theorem declares_cons (s : Stmt) (b : Block) :
    declares (s :: b) = s.declares ++ declares b := List.flatMap_cons

@[simp] theorem declares_append (a b : Block) : declares (a ++ b) = declares a ++ declares b :=
  List.flatMap_append

theorem declares_flatMap {α : Type} (xs : List α) (f : α → Block) :
    declares (xs.flatMap f) = xs.flatMap fun x => declares (f x) := by
  rw [declares, List.flatMap_assoc]
  rfl

end Block

/-- The variables declared so far where a statement stands: in its block, and in the blocks around
    it from inside. Parameters of a function are in the outermost block. -/
structure Scopes where
  here : List String
  around : List (List String) := []

namespace Scopes

/-- All blocks, from inside. -/
def blocks (σ : Scopes) : List (List String) := σ.here :: σ.around

/-- The block that declares the variable, the innermost one of some blocks. Its number is how many
    blocks are around it. -/
def blockIn? : List (List String) → String → Option Nat
  | [], _ => none
  | names :: outer, x => if x ∈ names then some outer.length else blockIn? outer x

/-- The number of the block that declares the variable a name stands for. -/
def block? (σ : Scopes) (x : String) : Option Nat := blockIn? σ.blocks x

/-- The scopes after declarations in the innermost block. -/
def add (σ : Scopes) (names : List String) : Scopes := { σ with here := σ.here ++ names }

/-- The scopes inside a further block, which starts with some declarations. -/
def push (σ : Scopes) (names : List String) : Scopes := ⟨names, σ.blocks⟩

variable {σ : Scopes} {x : String} {names : List String}

@[simp] theorem add_nil (σ : Scopes) : σ.add [] = σ := by rw [add, List.append_nil]

@[simp] theorem add_add (σ : Scopes) (names more : List String) :
    (σ.add names).add more = σ.add (names ++ more) := by
  simp only [add, List.append_assoc]

@[simp] theorem add_here (σ : Scopes) (names : List String) :
    (σ.add names).here = σ.here ++ names := rfl

@[simp] theorem add_around (σ : Scopes) (names : List String) : (σ.add names).around = σ.around :=
  rfl

@[simp] theorem push_here (σ : Scopes) (names : List String) : (σ.push names).here = names := rfl

@[simp] theorem push_around (σ : Scopes) (names : List String) :
    (σ.push names).around = σ.blocks := rfl

theorem block?_of_mem (h : x ∈ σ.here) : σ.block? x = some σ.around.length := if_pos h

theorem block?_add (h : x ∉ names) : (σ.add names).block? x = σ.block? x := by
  simp only [block?, blocks, blockIn?, add_here, add_around, List.mem_append, h, or_false]

theorem block?_push (h : x ∉ names) : (σ.push names).block? x = σ.block? x := if_neg h

theorem block?_push_nil (σ : Scopes) (x : String) : (σ.push []).block? x = σ.block? x :=
  block?_push List.not_mem_nil

@[simp] theorem blocks_length (σ : Scopes) : σ.blocks.length = σ.around.length + 1 := rfl

/-- No block declares a variable twice. Inner blocks may declare one of an outer block again. The
    inner one is then the one that is seen. -/
def Once (σ : Scopes) : Prop := ∀ names ∈ σ.blocks, names.Nodup

theorem Once.here (h : σ.Once) : σ.here.Nodup := h _ List.mem_cons_self

theorem Once.push (h : σ.Once) (hn : names.Nodup) : (σ.push names).Once :=
  List.forall_mem_cons.mpr ⟨hn, h⟩

theorem Once.add (h : σ.Once) (hn : names.Nodup) (hd : ∀ x ∈ names, x ∉ σ.here) :
    (σ.add names).Once := by
  refine List.forall_mem_cons.mpr ⟨?_, fun _ hb => h _ (List.mem_cons_of_mem _ hb)⟩
  exact List.nodup_append.mpr ⟨h.here, hn, fun x hx y hy heq => hd y hy (heq ▸ hx)⟩

end Scopes

/-- A statement without the blocks inside it, and the variables declared where it stands. Its own
    declarations come after it. -/
structure ScopedStep where
  scopes : Scopes
  stmt : Stmt

namespace Stmt

mutual

/-- The steps of a statement that stands where the variables `σ` are declared. -/
def stepsIn (σ : Scopes) : Stmt → List ScopedStep
  | .assign lhs rhs define => [⟨σ, .assign lhs rhs define⟩]
  | .declare name type value => [⟨σ, .declare name type value⟩]
  | .cond none test body otherwise =>
    ⟨σ, .cond none test [] []⟩ ::
      (stepsInAll (σ.push []) body ++ stepsInAll (σ.push []) otherwise)
  | .cond (some init) test body otherwise =>
    let inner := (σ.push []).add init.declares
    init.stepsIn (σ.push []) ++ ⟨inner, .cond none test [] []⟩ ::
      (stepsInAll (inner.push []) body ++ stepsInAll (inner.push []) otherwise)
  | .block body => stepsInAll (σ.push []) body
  | .range key value whole body =>
    ⟨σ, .range key value whole []⟩ ::
      stepsInAll ((σ.push (key.toList ++ value.toList)).push []) body
  | .typeSwitch binding subject cases =>
    ⟨σ, .typeSwitch binding subject []⟩ :: stepsInTypes (σ.push [binding]) cases
  | .switch subject cases fallback =>
    ⟨σ, .switch subject (cases.map fun x => (x.1, [])) []⟩ ::
      (stepsInCases (σ.push []) cases ++ stepsInAll (σ.push []) fallback)
  | .ret values => [⟨σ, .ret values⟩]
  | .continue => [⟨σ, .continue⟩]
  | .expr e => [⟨σ, .expr e⟩]

def stepsInAll (σ : Scopes) : List Stmt → List ScopedStep
  | [] => []
  | s :: rest => s.stepsIn σ ++ stepsInAll (σ.add s.declares) rest

def stepsInTypes (σ : Scopes) : List (TypeRef × List Stmt) → List ScopedStep
  | [] => []
  | (_, body) :: rest => stepsInAll σ body ++ stepsInTypes σ rest

def stepsInCases (σ : Scopes) : List (List Expr × List Stmt) → List ScopedStep
  | [] => []
  | (_, body) :: rest => stepsInAll σ body ++ stepsInCases σ rest

end

end Stmt

/-- The steps of a block that goes on where the variables `σ` are declared. -/
def Block.stepsIn (σ : Scopes) (b : Block) : List ScopedStep := Stmt.stepsInAll σ b

namespace Block

variable {σ : Scopes} {step : ScopedStep}

@[simp] theorem stepsIn_nil : stepsIn σ [] = [] := rfl

@[simp] theorem stepsIn_cons (s : Stmt) (b : Block) :
    stepsIn σ (s :: b) = s.stepsIn σ ++ stepsIn (σ.add s.declares) b := rfl

@[simp] theorem stepsIn_append (a b : Block) :
    stepsIn σ (a ++ b) = stepsIn σ a ++ stepsIn (σ.add a.declares) b := by
  induction a generalizing σ with
  | nil => simp
  | cons s a ih =>
    rw [List.cons_append, stepsIn_cons, stepsIn_cons, ih, declares_cons, Scopes.add_add,
      List.append_assoc]

/-- Blocks that declare nothing do not hear of each other. -/
theorem stepsIn_flatMap {α : Type} {f : α → Block} : ∀ {xs : List α},
    (∀ x ∈ xs, (f x).declares = []) →
      stepsIn σ (xs.flatMap f) = xs.flatMap fun x => stepsIn σ (f x)
  | [], _ => stepsIn_nil
  | x :: xs, h => by
    rw [List.forall_mem_cons] at h
    rw [List.flatMap_cons, List.flatMap_cons, stepsIn_append, h.1, Scopes.add_nil,
      stepsIn_flatMap h.2]

theorem mem_stepsIn_cases {cases : List (TypeRef × Block)} :
    step ∈ Stmt.stepsInTypes σ cases ↔ ∃ x ∈ cases, step ∈ stepsIn σ x.2 := by
  induction cases with
  | nil => simp [Stmt.stepsInTypes]
  | cons x rest ih =>
    rw [Stmt.stepsInTypes, List.mem_append, ih]
    simp only [List.mem_cons, or_and_right, exists_or, exists_eq_left, stepsIn]

end Block

namespace Stmt

variable {σ : Scopes} {step : ScopedStep}

@[simp] theorem stepsIn_assign (place value : Expr) (define : Bool) :
    (Stmt.assign place value define).stepsIn σ = [⟨σ, .assign place value define⟩] := rfl

@[simp] theorem stepsIn_declare (name : String) (type : TypeRef) (value : Option Expr) :
    (Stmt.declare name type value).stepsIn σ = [⟨σ, .declare name type value⟩] := rfl

@[simp] theorem stepsIn_block (body : Block) :
    (Stmt.block body).stepsIn σ = Block.stepsIn (σ.push []) body := rfl

@[simp] theorem stepsIn_when (test : Expr) (body : Block) :
    (Stmt.when test body).stepsIn σ = ⟨σ, .when test []⟩ :: Block.stepsIn (σ.push []) body := by
  rw [Stmt.when, stepsIn, stepsInAll, List.append_nil, Block.stepsIn]
  rfl

@[simp] theorem stepsIn_range (key value : String) (whole : Expr) (body : Block) :
    (Stmt.range (some key) (some value) whole body).stepsIn σ =
      ⟨σ, .range (some key) (some value) whole []⟩ ::
        Block.stepsIn ((σ.push [key, value]).push []) body := by
  rw [stepsIn, Block.stepsIn]
  rfl

mutual

/-- The steps of code are the same however they are described. So what is known not to be nil and
    which variables are declared can be asked of one statement. -/
theorem map_stepsIn : ∀ (s : Stmt) (σ : Scopes) (known : List Expr),
    (s.stepsIn σ).map (·.stmt) = (s.steps known).map (·.stmt)
  | .assign .., σ, known => by rw [stepsIn, steps]; rfl
  | .declare .., σ, known => by rw [stepsIn, steps]; rfl
  | .cond none test body otherwise, σ, known => by
    rw [stepsIn, steps, List.map_cons, List.map_cons, List.map_append, List.map_append,
      map_stepsInAll body _ (test.proves ++ known), map_stepsInAll otherwise _ known]
  -- The scopes and what is known change along different lines here, but neither changes which
  -- statements there are.
  | .cond (some init) test body otherwise, σ, known => by
    rw [stepsIn, steps, List.map_append, List.map_append, List.map_cons, List.map_cons,
      List.map_append, List.map_append, map_stepsIn init _ known,
      map_stepsInAll body _ (test.proves ++ known), map_stepsInAll otherwise _ known]
  | .block body, σ, known => by rw [stepsIn, steps, map_stepsInAll body _ known]
  | .range key value whole body, σ, known => by
    rw [stepsIn, steps, List.map_cons, List.map_cons, map_stepsInAll body _ known]
  | .typeSwitch binding subject cases, σ, known => by
    rw [stepsIn, steps, List.map_cons, List.map_cons, map_stepsInTypes cases _ known]
  | .switch subject cases fallback, σ, known => by
    rw [stepsIn, steps, List.map_cons, List.map_cons, List.map_append, List.map_append,
      map_stepsInCases cases _ known, map_stepsInAll fallback _ known]
  | .ret .., σ, known => by rw [stepsIn, steps]; rfl
  | .continue, σ, known => by rw [stepsIn, steps]; rfl
  | .expr .., σ, known => by rw [stepsIn, steps]; rfl

theorem map_stepsInAll : ∀ (b : List Stmt) (σ : Scopes) (known : List Expr),
    (stepsInAll σ b).map (·.stmt) = (stepsAll known b).map (·.stmt)
  | [], σ, known => by rw [stepsInAll, stepsAll]; rfl
  | s :: rest, σ, known => by
    rw [stepsInAll, stepsAll, List.map_append, List.map_append, map_stepsIn s _ known,
      map_stepsInAll rest _ known]

theorem map_stepsInTypes : ∀ (cases : List (TypeRef × List Stmt)) (σ : Scopes)
    (known : List Expr), (stepsInTypes σ cases).map (·.stmt) = (stepsTypes known cases).map (·.stmt)
  | [], σ, known => by rw [stepsInTypes, stepsTypes]; rfl
  | (_, body) :: rest, σ, known => by
    rw [stepsInTypes, stepsTypes, List.map_append, List.map_append, map_stepsInAll body _ known,
      map_stepsInTypes rest _ known]

theorem map_stepsInCases : ∀ (cases : List (List Expr × List Stmt)) (σ : Scopes)
    (known : List Expr), (stepsInCases σ cases).map (·.stmt) = (stepsCases known cases).map (·.stmt)
  | [], σ, known => by rw [stepsInCases, stepsCases]; rfl
  | (_, body) :: rest, σ, known => by
    rw [stepsInCases, stepsCases, List.map_append, List.map_append, map_stepsInAll body _ known,
      map_stepsInCases rest _ known]

end

end Stmt

theorem Block.exists_mem_steps {b : Block} {σ : Scopes} {step : ScopedStep}
    (h : step ∈ b.stepsIn σ) (known : List Expr) : ∃ k ∈ b.steps known, k.stmt = step.stmt := by
  have hmem : step.stmt ∈ (b.stepsIn σ).map (·.stmt) := List.mem_map_of_mem h
  rw [Block.stepsIn, Stmt.map_stepsInAll b σ known] at hmem
  exact List.mem_map.mp hmem

/-- The statements of code are the same whatever is known around it. -/
theorem Block.exists_mem_steps_known {b : Block} {known : List Expr} {step : CodeStep}
    (h : step ∈ b.steps known) (more : List Expr) : ∃ k ∈ b.steps more, k.stmt = step.stmt := by
  have heq : (b.steps known).map (·.stmt) = (b.steps more).map (·.stmt) :=
    (Stmt.map_stepsInAll b ⟨[], []⟩ known).symm.trans (Stmt.map_stepsInAll b ⟨[], []⟩ more)
  have hmem : step.stmt ∈ (b.steps more).map (·.stmt) := heq ▸ List.mem_map_of_mem h
  exact List.mem_map.mp hmem

end Shapewright
