import Mathlib.Logic.Function.Basic
import Shapewright.Code
import Shapewright.Ordered

/-!
# Running code

What the statements do that the conversion of an object without nested structure is made of:
composite literals, assignments, declarations, `if` and blocks. A run fails where it follows nil or
leaves this part of the language. Values other than pointers are of an arbitrary type; what type
conversions make of them, which values literals stand for and which values are zero is up to the
machine.

Variables are cells. An object is a number under which it has its fields, and a value that is an
object is a pointer to it.

## How much of the language

Loops, switches and calls are left out. The code that is run here is that of objects whose fields
are primitives, and it has none of them. What is in is as the language has it: an address can be
taken of a variable or of a field, so locations are values (`Loc`), a variable declared in a block
hides one of its name outside, and it goes out of scope at the end of the block, while its cell
stays, for a pointer to it may have been stored.

`Machine` collects what the language leaves to types and literals. It asks three things of them:
that converting nil gives nil, that no literal is nil, and that a pointer is nil to begin with.

## What a run leaves alone

To say what a run did is half the work; the other half is to say what it did not do. `Works` is the
frame: but for one place, nothing that was in memory has changed, and some variables still name what
they did. It is kept by each statement that stores at that place, and composes. That new cells are
new follows from `State.Bounded`, by which all of memory has numbers below the next one.
-/

namespace Shapewright
namespace Execution

/-- A variable, or a field of an object. Variables and objects are numbered together, so that a new
    number is new for both. -/
inductive Loc where
  | cell (n : Nat)
  | field (n : Nat) (name : String)
deriving DecidableEq

/-- Under which number the location is found. -/
def Loc.number : Loc → Nat
  | .cell n => n
  | .field n _ => n

/-- The value of a variable or a field. What is not a pointer or an object is data of the type
    `δ`. -/
inductive Value (δ : Type) where
  | nil
  | data (x : δ)
  | pointer (l : Loc)
  | object (n : Nat)
deriving DecidableEq

/-- The variables in scope and the memory. What goes out of scope stays in memory, as a pointer may
    still lead there. -/
structure State (δ : Type) where
  /-- The variables in scope, the innermost first. -/
  scope : List (String × Nat)
  memory : Loc → Option (Value δ)
  /-- The number of the next variable or object. -/
  next : Nat

/-- What a run leaves open: how values are converted, what literals denote, the zero values of types
    and the fields of structs. What is said of all machines does not depend on it. -/
structure Machine (δ : Type) where
  convert : TypeRef → Value δ → Value δ
  convert_nil : ∀ type, convert type .nil = .nil
  literal : Literal → TypeRef → Value δ
  literal_ne_nil : ∀ value type, literal value type ≠ .nil
  zero : TypeRef → Value δ
  zero_pointer : ∀ type, zero (.pointer type) = .nil
  /-- The fields of struct types that have a name. -/
  declared : TypeRef → List (StructField TypeRef)

variable {δ : Type}

namespace State

/-- The cell of a variable. -/
def cell? (σ : State δ) (name : String) : Option Nat := Ordered.get? σ.scope name

/-- Brings a new variable into scope. -/
def bind (σ : State δ) (name : String) (x : Value δ) : State δ where
  scope := (name, σ.next) :: σ.scope
  memory := Function.update σ.memory (.cell σ.next) (some x)
  next := σ.next + 1

/-- Stores a value at a location. -/
def write (σ : State δ) (l : Loc) (x : Value δ) : State δ :=
  { σ with memory := Function.update σ.memory l (some x) }

/-- The state after a block, whose variables are out of scope. -/
def leave (σ : State δ) (outer : State δ) : State δ := { σ with scope := outer.scope }

end State

/-- How a statement ends: what follows it runs next, or the function returns. In code for objects of
    primitives nothing continues a loop. -/
inductive Flow (δ : Type) where
  | next (σ : State δ)
  | done (x : Value δ) (σ : State δ)

def Flow.leave (outer : State δ) : Flow δ → Flow δ
  | .next σ => .next (σ.leave outer)
  | .done x σ => .done x (σ.leave outer)

namespace Machine

/-- The fields of a struct type. -/
def fieldsOf (M : Machine δ) : TypeRef → List (StructField TypeRef)
  | .struct fields => fields
  | type => M.declared type

/-- The type of a field of a struct type. -/
def fieldType? (M : Machine δ) (type : TypeRef) (name : String) : Option TypeRef :=
  ((M.fieldsOf type).find? (·.name == name)).map (·.type)

mutual

/-- The value of an expression. Composite literals are not among them, see `produce`. -/
def eval (M : Machine δ) (σ : State δ) : Expr → Option (Value δ)
  | .ident name => do σ.memory (.cell (← σ.cell? name))
  | .field base name => do
    match ← M.eval σ base with
    | .object n => σ.memory (.field n name)
    | _ => none
  | .deref inner => do
    match ← M.eval σ inner with
    | .pointer l => σ.memory l
    | _ => none
  | .addr inner => do return .pointer (← M.locate σ inner)
  | .nil => some .nil
  | .lit value type => some (M.literal value type)
  | .convert type value => do return M.convert type (← M.eval σ value)
  | _ => none

/-- The place that an expression stands for. -/
def locate (M : Machine δ) (σ : State δ) : Expr → Option Loc
  | .ident name => do return .cell (← σ.cell? name)
  | .field base name => do
    match ← M.eval σ base with
    | .object n => if (σ.memory (.field n name)).isSome then some (.field n name) else none
    | _ => none
  | .deref inner => do
    match ← M.eval σ inner with
    | .pointer l => some l
    | _ => none
  | _ => none

end

/-- The values of the fields of a composite literal. -/
def evalFields (M : Machine δ) (σ : State δ) :
    List (String × Expr) → Option (List (String × Value δ))
  | [] => some []
  | (name, e) :: rest => do
    let x ← M.eval σ e
    return (name, x) :: (← M.evalFields σ rest)

/-- Makes an object of a struct type. The fields that are not given are zero, and a field that the
    type does not have stops the run. -/
def allocate (M : Machine δ) (σ : State δ) (type : TypeRef) (values : List (String × Value δ)) :
    Option (Value δ × State δ) :=
  if values.all fun x => (M.fieldType? type x.1).isSome then
    let memory : Loc → Option (Value δ)
      | .cell k => σ.memory (.cell k)
      | .field k name =>
        if k = σ.next then
          (M.fieldType? type name).map fun t => (Ordered.get? values name).getD (M.zero t)
        else σ.memory (.field k name)
    some (.object σ.next, { σ with memory, next := σ.next + 1 })
  else none

/-- The value that is assigned or bound: that of an expression, or a new object. -/
def produce (M : Machine δ) (σ : State δ) : Expr → Option (Value δ × State δ)
  | .composite type fields true => do M.allocate σ type (← M.evalFields σ fields)
  | e => do return (← M.eval σ e, σ)

variable [DecidableEq δ]

/-- Whether a test holds. -/
def test (M : Machine δ) (σ : State δ) : Expr → Option Bool
  | .binary .eq a b => do return decide ((← M.eval σ a) = (← M.eval σ b))
  | .binary .ne a b => do return decide ((← M.eval σ a) ≠ (← M.eval σ b))
  | _ => none

mutual

/-- Runs a statement. The patterns are those of the code that is emitted for flat objects; any other
    statement stops the run. -/
def run (M : Machine δ) (σ : State δ) : Stmt → Option (Flow δ)
  | .assign (.ident name) value true => do
    let (x, σ) ← M.produce σ value
    return .next (σ.bind name x)
  | .assign place value false => do
    let (x, σ) ← M.produce σ value
    return .next (σ.write (← M.locate σ place) x)
  | .declare name type none => some (.next (σ.bind name (M.zero type)))
  | .declare name _ (some value) => do
    let (x, σ) ← M.produce σ value
    return .next (σ.bind name x)
  | .cond none test body otherwise => do
    if ← M.test σ test then return (← M.runAll σ body).leave σ
    else return (← M.runAll σ otherwise).leave σ
  | .block body => do return (← M.runAll σ body).leave σ
  | .ret [value] => do
    let (x, σ) ← M.produce σ value
    return .done x σ
  | _ => none

/-- Runs statements one after another. -/
def runAll (M : Machine δ) (σ : State δ) : List Stmt → Option (Flow δ)
  | [] => some (.next σ)
  | s :: rest => do
    match ← M.run σ s with
    | .next σ => M.runAll σ rest
    | .done x σ => some (.done x σ)

end

/-- Calls a function of one parameter, which is all that its body sees besides the memory. -/
def call (M : Machine δ) (f : Func) (x : Value δ) (σ : State δ) : Option (Value δ × State δ) :=
  match f.params with
  | [⟨some name, _⟩] =>
    match M.runAll (({ σ with scope := [] } : State δ).bind name x) f.body with
    | some (.done y τ) => some (y, τ.leave σ)
    | _ => none
  | _ => none

/-- The block runs from one state to the other, without returning. This is what the lemmas are
    stated of, since only helpers return, and only at their end. -/
def Runs (M : Machine δ) (σ : State δ) (b : Block) (σ' : State δ) : Prop :=
  M.runAll σ b = some (.next σ')

variable {M : Machine δ} {σ σ₁ σ₂ : State δ} {b : Block} {e place : Expr} {x : Value δ} {l : Loc}
  {n : Nat} {name : String}

/-! ## Expressions -/

attribute [local simp] eval locate run runAll

omit [DecidableEq δ] in
theorem eval_ident (hc : σ.cell? name = some n) (hm : σ.memory (.cell n) = some x) :
    M.eval σ (.ident name) = some x := by
  rw [eval, hc]
  exact hm

omit [DecidableEq δ] in
theorem eval_field (he : M.eval σ e = some (.object n)) (hm : σ.memory (.field n name) = some x) :
    M.eval σ (e.field name) = some x := by
  rw [eval, he]
  exact hm

omit [DecidableEq δ] in
theorem eval_deref (he : M.eval σ e = some (.pointer l)) (hm : σ.memory l = some x) :
    M.eval σ e.deref = some x := by
  rw [eval, he]
  exact hm

omit [DecidableEq δ] in
theorem locate_ident (hc : σ.cell? name = some n) : M.locate σ (.ident name) = some (.cell n) := by
  rw [locate, hc]
  rfl

omit [DecidableEq δ] in
theorem locate_field (he : M.eval σ e = some (.object n))
    (hm : σ.memory (.field n name) = some x) :
    M.locate σ (e.field name) = some (.field n name) := by
  rw [locate, he]
  exact if_pos (by rw [hm, Option.isSome_some])

omit [DecidableEq δ] in
theorem eval_addr (he : M.locate σ e = some l) : M.eval σ e.addr = some (.pointer l) := by
  rw [eval, he]
  rfl

omit [DecidableEq δ] in
theorem eval_convert {type : TypeRef} (he : M.eval σ e = some x) :
    M.eval σ (.convert type e) = some (M.convert type x) := by
  rw [eval, he]
  rfl

omit [DecidableEq δ] in
/-- What has a value is no composite literal. -/
theorem produce_eq (he : M.eval σ e = some x) : M.produce σ e = some (x, σ) := by
  unfold produce
  split
  · simp [eval] at he
  · rw [he]
    rfl

theorem test_eq {d : Expr} {y : Value δ} (he : M.eval σ e = some x) (hd : M.eval σ d = some y) :
    M.test σ (.binary .eq e d) = some (decide (x = y)) := by
  rw [test, he, hd]
  rfl

theorem test_notNil (he : M.eval σ e = some x) :
    M.test σ e.notNil = some (decide (x ≠ .nil)) := by
  rw [Expr.notNil, test, he, eval]
  rfl

theorem test_isNil (he : M.eval σ e = some x) : M.test σ e.isNil = some (decide (x = .nil)) :=
  test_eq he (by rw [eval])

/-! ## Statements -/

theorem run_set (he : M.eval σ e = some x) (hl : M.locate σ place = some l) :
    M.run σ (.set place e) = some (.next (σ.write l x)) := by
  rw [Stmt.set, run, produce_eq he]
  simp [hl]

theorem run_define (he : M.produce σ e = some (x, σ₁)) :
    M.run σ (.assign (.ident name) e true) = some (.next (σ₁.bind name x)) := by
  rw [run, he]
  rfl

theorem run_declare_zero {type : TypeRef} :
    M.run σ (.declare name type none) = some (.next (σ.bind name (M.zero type))) := by
  rw [run]

theorem run_declare {type : TypeRef} (he : M.eval σ e = some x) :
    M.run σ (.declare name type (some e)) = some (.next (σ.bind name x)) := by
  rw [run, produce_eq he]
  rfl

theorem run_when {test : Expr} (ht : M.test σ test = some true) (hb : M.Runs σ b σ₁) :
    M.run σ (.when test b) = some (.next (σ₁.leave σ)) := by
  rw [Stmt.when, run, ht]
  simp [show M.runAll σ b = _ from hb, Flow.leave]

theorem run_when_not {test : Expr} (ht : M.test σ test = some false) :
    M.run σ (.when test b) = some (.next σ) := by
  rw [Stmt.when, run, ht]
  simp [runAll, Flow.leave, State.leave]

theorem run_block (hb : M.Runs σ b σ₁) : M.run σ (.block b) = some (.next (σ₁.leave σ)) := by
  rw [run, show M.runAll σ b = _ from hb]
  rfl

theorem Runs.nil : M.Runs σ [] σ := by
  rw [Runs, runAll]

theorem Runs.cons {s : Stmt} (hs : M.run σ s = some (.next σ₁)) (hb : M.Runs σ₁ b σ₂) :
    M.Runs σ (s :: b) σ₂ := by
  rw [Runs, runAll, hs]
  exact hb

theorem Runs.single {s : Stmt} (hs : M.run σ s = some (.next σ₁)) : M.Runs σ [s] σ₁ :=
  .cons hs .nil

/-- A block that runs to its end is followed by what stands behind it. So a block can be run piece
    by piece, with what is known of each piece. -/
theorem runAll_append (a : Block) (ha : M.Runs σ a σ₁) :
    M.runAll σ (a ++ b) = M.runAll σ₁ b := by
  induction a generalizing σ with
  | nil =>
    rw [Runs, runAll, Option.some.injEq, Flow.next.injEq] at ha
    rw [ha, List.nil_append]
  | cons s a ih =>
    rw [Runs, runAll] at ha
    rw [List.cons_append, runAll]
    cases hs : M.run σ s with
    | none => simp [hs] at ha
    | some flow =>
      cases flow with
      | next τ =>
        rw [hs] at ha
        exact ih ha
      | done x τ => simp [hs] at ha

/-- A body that runs to its end and then returns. The caller's variables are not seen by it. What
    the call leaves behind is the memory, and the variables of the caller are again as they were. -/
theorem call_eq {f : Func} {type : TypeRef} {y : Value δ} (hp : f.params = [⟨some name, type⟩])
    (hf : f.body = b ++ [.ret [e]])
    (hb : M.Runs (({ σ with scope := [] } : State δ).bind name x) b σ₁)
    (he : M.eval σ₁ e = some y) :
    M.call f x σ = some (y, σ₁.leave σ) := by
  have hret : M.run σ₁ (.ret [e]) = some (.done y σ₁) := by
    rw [run, produce_eq he]
    rfl
  rw [call, hp]
  dsimp only
  rw [hf, runAll_append b hb, runAll, hret]
  rfl

theorem Runs.append {a : Block} (ha : M.Runs σ a σ₁) (hb : M.Runs σ₁ b σ₂) :
    M.Runs σ (a ++ b) σ₂ := by
  rw [Runs, runAll_append a ha]
  exact hb

end Machine

/-! ## What stays the same -/

/-- Everything in memory has a number below the next one. So what is allocated next is not in use,
    and states that arise from one another stay so. -/
def State.Bounded (σ : State δ) : Prop := ∀ l x, σ.memory l = some x → l.number < σ.next

/-- A new variable leaves all that was in memory as it was. -/
theorem State.memory_bind {σ : State δ} (hb : σ.Bounded) (name : String) (x : Value δ) {l : Loc}
    {y : Value δ} (hm : σ.memory l = some y) : (σ.bind name x).memory l = some y := by
  have hne : l ≠ .cell σ.next := by
    rintro rfl
    exact absurd (hb _ y hm) (Nat.lt_irrefl _)
  exact (Function.update_of_ne hne _ _).trans hm

theorem State.memory_bind_self (σ : State δ) (name : String) (x : Value δ) :
    (σ.bind name x).memory (.cell σ.next) = some x :=
  Function.update_self _ _ _

theorem State.cell?_bind_self (σ : State δ) (name : String) (x : Value δ) :
    (σ.bind name x).cell? name = some σ.next := by
  rw [cell?, bind, Ordered.get?, if_pos (beq_self_eq_true name)]

theorem State.memory_write_self (σ : State δ) (l : Loc) (x : Value δ) :
    (σ.write l x).memory l = some x :=
  Function.update_self _ _ _

theorem State.memory_write {σ : State δ} {l k : Loc} (h : k ≠ l) (x : Value δ) :
    (σ.write l x).memory k = σ.memory k :=
  Function.update_of_ne h _ _

/-- The second state is the first with a new object of the struct type. Fields without a value in
    the literal have the zero value of their types. -/
structure Allocates (M : Machine δ) (type : TypeRef) (values : List (String × Value δ))
    (σ τ : State δ) : Prop where
  scope : τ.scope = σ.scope
  next : τ.next = σ.next + 1
  memory : ∀ l x, σ.memory l = some x → τ.memory l = some x
  fields : ∀ name t, M.fieldType? type name = some t →
    τ.memory (.field σ.next name) = some ((Ordered.get? values name).getD (M.zero t))
  bounded : τ.Bounded

/-- An object is allocated if its type has the fields that are given. The object gets the next free
    number, and a field that is not given holds the zero of its type. -/
theorem exists_allocate {M : Machine δ} {type : TypeRef} {values : List (String × Value δ)}
    {σ : State δ} (hb : σ.Bounded) (h : ∀ y ∈ values, (M.fieldType? type y.1).isSome) :
    ∃ τ, M.allocate σ type values = some (.object σ.next, τ) ∧ Allocates M type values σ τ := by
  unfold Machine.allocate
  rw [if_pos (List.all_eq_true.mpr h)]
  -- A new object has the next number, which no location in use has. So old contents are kept,
  -- declared fields are filled, and the numbers stay bounded.
  refine ⟨_, rfl, rfl, rfl, fun l x hl => ?_, fun name t ht => ?_, fun l x hl => ?_⟩
  · cases l with
    | cell k => exact hl
    | field k name =>
      have hne : k ≠ σ.next := Nat.ne_of_lt (hb _ x hl)
      dsimp only
      rw [if_neg hne]
      exact hl
  · dsimp only
    rw [if_pos rfl, ht, Option.map_some]
  · dsimp only at hl ⊢
    cases l with
    | cell k => exact Nat.lt_succ_of_lt (hb _ x hl)
    | field k name =>
      dsimp only at hl
      split at hl
      · rename_i hk
        exact hk ▸ Nat.lt_succ_self _
      · exact Nat.lt_succ_of_lt (hb _ x hl)

/-- Between the two states, nothing that was there has changed but the place `l`, and neither have
    the variables `names`. There may be more in memory than before. -/
structure Works (names : List String) (l : Loc) (σ σ' : State δ) : Prop where
  memory : ∀ k x, k ≠ l → σ.memory k = some x → σ'.memory k = some x
  cells : ∀ name ∈ names, σ'.cell? name = σ.cell? name
  next : σ.next ≤ σ'.next
  bounded : σ'.Bounded

namespace Works

variable {names : List String} {l : Loc} {σ σ₁ σ₂ : State δ} {name : String} {x : Value δ}

theorem refl (hb : σ.Bounded) : Works names l σ σ where
  memory _ _ _ h := h
  cells _ _ := rfl
  next := Nat.le_refl _
  bounded := hb

theorem trans (h₁ : Works names l σ σ₁) (h₂ : Works names l σ₁ σ₂) : Works names l σ σ₂ where
  memory k y hk hm := h₂.memory k y hk (h₁.memory k y hk hm)
  cells name hname := (h₂.cells name hname).trans (h₁.cells name hname)
  next := Nat.le_trans h₁.next h₂.next
  bounded := h₂.bounded

/-- A variable with a new name may be declared on the way. The location that is named may be written
    as before, since the variable has a new one. -/
theorem bind (hb : σ.Bounded) (hname : name ∉ names) : Works names l σ (σ.bind name x) where
  memory _ _ _ hm := State.memory_bind hb name x hm
  cells y hy := by
    have hne : ¬ (name == y) := by
      rw [beq_iff_eq]
      rintro rfl
      exact hname hy
    rw [State.cell?, State.bind, Ordered.get?, if_neg hne, State.cell?]
  next := Nat.le_succ _
  bounded k y hm := by
    rw [State.bind] at hm ⊢
    dsimp only at hm ⊢
    by_cases hk : k = .cell σ.next
    · rw [hk, Loc.number]
      exact Nat.lt_succ_self _
    · rw [Function.update_of_ne hk] at hm
      exact Nat.lt_succ_of_lt (hb k y hm)

/-- Storing at the one place is what is allowed. It has to hold something already, so the memory
    grows by nothing. -/
theorem write (hb : σ.Bounded) {y : Value δ} (hl : σ.memory l = some y) :
    Works names l σ (σ.write l x) where
  memory k z hk hm := (State.memory_write hk x).trans hm
  cells _ _ := rfl
  next := Nat.le_refl _
  bounded k z hm := by
    rw [State.write] at hm ⊢
    dsimp only at hm ⊢
    by_cases hk : k = l
    · exact hk ▸ hb l y hl
    · rw [Function.update_of_ne hk] at hm
      exact hb k z hm

/-- At the end of a block, the variables are those from before it. -/
theorem leave {inner : List String} (h : Works inner l σ σ₁) : Works names l σ (σ₁.leave σ) where
  memory := h.memory
  cells _ _ := rfl
  next := h.next
  bounded := h.bounded

end Works

/-! ## Contents -/

/-- What is in a field: a value, or a pointer to one. Nil is no content, and its absence says that
    the field is empty. -/
inductive Content (δ : Type) where
  | plain (x : Value δ)
  | behind (x : Value δ)

/-- The content with the value, behind a pointer where `pointer` says so. It is how a side holds a
    primitive field. -/
def Content.of (pointer : Bool) (x : Value δ) : Content δ := if pointer then .behind x else .plain x

/-- A pointer in a field of an object leads out of the object. Otherwise storing in another field
    could change what is behind it. -/
def State.Holds (σ : State δ) (l : Loc) : Content δ → Prop
  | .plain x => σ.memory l = some x
  | .behind x =>
    ∃ k, k.number ≠ l.number ∧ σ.memory l = some (.pointer k) ∧ σ.memory k = some x

theorem State.Holds.exists_memory {σ : State δ} {l : Loc} {content : Content δ}
    (h : σ.Holds l content) : ∃ x, σ.memory l = some x := by
  cases content with
  | plain x => exact ⟨x, h⟩
  | behind x =>
    obtain ⟨k, -, hl, -⟩ := h
    exact ⟨_, hl⟩

/-- Work on another field of the same object changes neither the field nor what is behind it. So the
    fields of an object can be stored one after another, and each keeps what it was given. -/
theorem State.Holds.works {σ σ' : State δ} {n : Nat} {name other : String} {content : Content δ}
    {names : List String} (h : σ.Holds (.field n name) content) (hne : name ≠ other)
    (hw : Works names (.field n other) σ σ') : σ'.Holds (.field n name) content := by
  have hl : Loc.field n name ≠ .field n other := by simpa using hne
  cases content with
  | plain x => exact hw.memory _ x hl h
  | behind x =>
    obtain ⟨k, hk, hmem, hval⟩ := h
    refine ⟨k, hk, hw.memory _ _ hl hmem, hw.memory _ _ ?_ hval⟩
    rintro rfl
    exact hk rfl

end Execution
end Shapewright
