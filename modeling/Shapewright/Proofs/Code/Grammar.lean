import Shapewright.Proofs.Code.Tokens

/-!
# The grammar of expressions

Tokens are grouped by how tightly an operator binds: selectors, indices and calls bind more tightly
than prefix operators, these more tightly than comparisons, comparisons than `&&` and `&&` than
`||`; a binary operator takes its operands from the left.

## The levels

`Derives` is the grammar of Go for these expressions, one rule for each way to build one, with a
level for how tightly the outermost operator binds. A binary operator asks for its own level to its
left and for the next one to its right, which is all that association to the left amounts to. Where
some level is asked for, what binds more tightly is accepted as well, so a derivation is not
determined by its tokens. Its expression is.

## One reading

No list of tokens has two readings: what a derivation groups is what a machine with a stack groups,
and that machine has no choice (`Derives.unique`). The machine is a device of the proof. It keeps
the operators whose right operand is being read on its stack, and closes those that bind at least as
tightly as the next one.

Behind a derivation the stack need not be as it was, since operators may be left open that only a
looser operator closes. So what is kept by the induction is what closing gives in the end (`Ends`),
under the assumption that nothing below on the stack closes before.
-/

namespace Shapewright

theorem BinaryOp.precedence_le (op : BinaryOp) : op.precedence ≤ 3 := by cases op <;> decide

namespace Expr

/-! ## Derivations -/

/-- What some tokens are read as. The arguments of a call are a phrase of their own, so that one
    induction goes through expressions and lists of them. -/
inductive Phrase where
  /-- An expression whose outermost operator binds at least as tightly as `level` says: 1 to 3 are
      the binary operators, 4 the prefix operators, and 5 is what needs no parentheses anywhere. -/
  | expression (level : Nat) (e : Expr)
  /-- The arguments of a call. -/
  | arguments (es : List Expr)

/-- How tokens are read, given the names of the packages. There is one rule for each way to build an
    expression, one that loosens the level, and three for arguments. -/
inductive Derives (packages : List String) : Phrase → List Token → Prop
  | name {name : String} (hname : isIdentifier name) (hpackage : name ∉ packages) :
    Derives packages (.expression 5 (.ident name)) [.word name]
  | qualified {package member : String} (hpackage : package ∈ packages)
      (hname : isIdentifier package) (hmember : isIdentifier member) :
    Derives packages (.expression 5 (.ident (package ++ "." ++ member)))
      [.word package, .dot, .word member]
  | parens {e : Expr} {ts : List Token} (h : Derives packages (.expression 1 e) ts) :
    Derives packages (.expression 5 e) (.openParen :: (ts ++ [.closeParen]))
  | field {base : Expr} {ts : List Token} {name : String}
      (h : Derives packages (.expression 5 base) ts) (hname : isIdentifier name) :
    Derives packages (.expression 5 (.field base name)) (ts ++ [.dot, .word name])
  | index {base idx : Expr} {ts us : List Token} (h : Derives packages (.expression 5 base) ts)
      (hidx : Derives packages (.expression 1 idx) us) :
    Derives packages (.expression 5 (.index base idx))
      (ts ++ .openBracket :: (us ++ [.closeBracket]))
  | call {func : String} {args : List Expr} {ts us : List Token}
      (h : Derives packages (.expression 5 (.ident func)) ts)
      (hargs : Derives packages (.arguments args) us) :
    Derives packages (.expression 5 (.call func args)) (ts ++ .openParen :: (us ++ [.closeParen]))
  | deref {inner : Expr} {ts : List Token} (h : Derives packages (.expression 4 inner) ts) :
    Derives packages (.expression 4 (.deref inner)) (.star :: ts)
  | addr {inner : Expr} {ts : List Token} (h : Derives packages (.expression 4 inner) ts) :
    Derives packages (.expression 4 (.addr inner)) (.amp :: ts)
  | not {inner : Expr} {ts : List Token} (h : Derives packages (.expression 4 inner) ts) :
    Derives packages (.expression 4 (.not inner)) (.bang :: ts)
  | binary {op : BinaryOp} {lhs rhs : Expr} {ts us : List Token}
      (hl : Derives packages (.expression op.precedence lhs) ts)
      (hr : Derives packages (.expression (op.precedence + 1) rhs) us) :
    Derives packages (.expression op.precedence (.binary op lhs rhs)) (ts ++ .operator op :: us)
  | looser {level : Nat} {e : Expr} {ts : List Token}
      (h : Derives packages (.expression (level + 1) e) ts) :
    Derives packages (.expression level e) ts
  | noArguments : Derives packages (.arguments []) []
  | lastArgument {e : Expr} {ts : List Token} (h : Derives packages (.expression 1 e) ts) :
    Derives packages (.arguments [e]) ts
  /-- A comma may also stand behind the last argument. -/
  | argument {e : Expr} {es : List Expr} {ts us : List Token}
      (h : Derives packages (.expression 1 e) ts) (hes : Derives packages (.arguments es) us) :
    Derives packages (.arguments (e :: es)) (ts ++ .comma :: us)

/-- Whether a text can be read as an expression. The text is cut into tokens first, as a compiler
    does, and these are derived from the weakest operator on. -/
def Reads (packages : List String) (text : String) (e : Expr) : Prop :=
  ∃ ts, scan [] text.toList = some ts ∧ Derives packages (.expression 1 e) ts

/-! ## A machine that reads expressions -/

/-- What waits for the expression that is being read. The frames of a stack are the operators and
    brackets that have been opened and not closed, the innermost on top. -/
inductive Frame where
  /-- A prefix operator, as what it makes of its operand. -/
  | unary (apply : Expr → Expr)
  | left (op : BinaryOp) (lhs : Expr)
  | parens
  | index (base : Expr)
  | call (func : String) (args : List Expr)

/-- Where the machine stands. The place decides what token may come, so that each token has at most
    one meaning. -/
inductive Place where
  /-- Before an operand. -/
  | operand
  /-- Behind the name of a package. -/
  | package (name : String)
  /-- Behind the dot after a package. -/
  | member (package : String)
  /-- Behind an operand. -/
  | behind (e : Expr)
  /-- Behind the dot after an operand. -/
  | selector (e : Expr)

/-- Closes the operators that bind at least as tightly as `level` says. -/
def close (level : Nat) : List Frame → Expr → List Frame × Expr
  | .unary apply :: stack, e =>
    if level ≤ 4 then close level stack (apply e) else (.unary apply :: stack, e)
  | .left op lhs :: stack, e =>
    if level ≤ op.precedence then close level stack (.binary op lhs e)
    else (.left op lhs :: stack, e)
  | stack, e => (stack, e)

/-- What the machine does at a token. -/
def step (packages : List String) : Place × List Frame → Token → Option (Place × List Frame)
  | (.operand, stack), .word name =>
    if !isIdentifier name then none
    else if name ∈ packages then some (.package name, stack)
    else some (.behind (.ident name), stack)
  | (.operand, stack), .star => some (.operand, .unary .deref :: stack)
  | (.operand, stack), .amp => some (.operand, .unary .addr :: stack)
  | (.operand, stack), .bang => some (.operand, .unary .not :: stack)
  | (.operand, stack), .openParen => some (.operand, .parens :: stack)
  | (.operand, .call func args :: stack), .closeParen => some (.behind (.call func args), stack)
  | (.package name, stack), .dot => some (.member name, stack)
  | (.member package, stack), .word name =>
    if isIdentifier name then some (.behind (.ident (package ++ "." ++ name)), stack) else none
  | (.behind e, stack), .dot => some (.selector e, stack)
  | (.selector e, stack), .word name =>
    if isIdentifier name then some (.behind (.field e name), stack) else none
  | (.behind e, stack), .openBracket => some (.operand, .index e :: stack)
  | (.behind (.ident func), stack), .openParen => some (.operand, .call func [] :: stack)
  | (.behind e, stack), .operator op =>
    let (stack, lhs) := close op.precedence stack e
    some (.operand, .left op lhs :: stack)
  | (.behind e, stack), .comma =>
    match close 1 stack e with
    | (.call func args :: stack, e) => some (.operand, .call func (args ++ [e]) :: stack)
    | _ => none
  | (.behind e, stack), .closeParen =>
    match close 1 stack e with
    | (.parens :: stack, e) => some (.behind e, stack)
    | (.call func args :: stack, e) => some (.behind (.call func (args ++ [e])), stack)
    | _ => none
  | (.behind e, stack), .closeBracket =>
    match close 1 stack e with
    | (.index base :: stack, e) => some (.behind (.index base e), stack)
    | _ => none
  | _, _ => none

/-- Runs the machine over some tokens, as long as it has a next step. -/
def run (packages : List String) (state : Place × List Frame) (ts : List Token) :
    Option (Place × List Frame) :=
  ts.foldlM (step packages) state

@[simp] theorem run_nil (packages : List String) (state : Place × List Frame) :
    run packages state [] = some state := rfl

@[simp] theorem run_cons (packages : List String) (state : Place × List Frame) (t : Token)
    (ts : List Token) :
    run packages state (t :: ts) = (step packages state t).bind (run packages · ts) :=
  List.foldlM_cons

@[simp] theorem run_append (packages : List String) (state : Place × List Frame)
    (ts us : List Token) :
    run packages state (ts ++ us) = (run packages state ts).bind (run packages · us) :=
  List.foldlM_append

/-! ### Closing operators -/

/-- Whether nothing on top of a stack closes at a level. -/
def Holds (level : Nat) : List Frame → Prop
  | .unary _ :: _ => 4 < level
  | .left op _ :: _ => op.precedence < level
  | _ => True

theorem Holds.mono {level level' : Nat} {stack : List Frame} (h : Holds level stack)
    (hle : level ≤ level') : Holds level' stack := by
  unfold Holds at h ⊢
  split <;> simp_all <;> omega

/-- Nothing closes at the tightest level. -/
theorem holds_five (stack : List Frame) : Holds 5 stack := by
  unfold Holds
  split
  · decide
  · next op _ _ =>
    have := op.precedence_le
    omega
  · trivial

theorem close_of_holds {level : Nat} {stack : List Frame} (h : Holds level stack) (e : Expr) :
    close level stack e = (stack, e) := by
  unfold Holds at h
  unfold close
  split <;> simp_all

/-! ### What the machine makes of a derivation -/

/-- The machine reads `ts` as `e` behind any stack that nothing of closes before: once the
    operators of the level are closed, the stack is as it was. -/
def Ends (packages : List String) (level : Nat) (e : Expr) (ts : List Token) : Prop :=
  ∀ stack, (level ≤ 3 → Holds level stack) → ∃ stack' e',
    run packages (.operand, stack) ts = some (.behind e', stack')
      ∧ ∀ m ≤ level, close m stack' e' = close m stack e

/-- The machine reads `ts` as the last arguments of a call. Whatever stands on the stack below the
    call stays there, so lists of arguments can be nested. -/
def Fills (packages : List String) (es : List Expr) (ts : List Token) : Prop :=
  ∀ func args stack, run packages (.operand, .call func args :: stack) (ts ++ [.closeParen])
    = some (.behind (.call func (args ++ es)), stack)

/-- What the machine makes of a phrase. -/
def Phrase.IsRead (packages : List String) : Phrase → List Token → Prop
  | .expression level e => Ends packages level e
  | .arguments es => Fills packages es

namespace Ends

variable {packages : List String} {e : Expr} {ts : List Token}

/-- What needs no parentheses leaves the stack as it was. -/
theorem exact (h : Ends packages 5 e ts) (stack : List Frame) :
    run packages (.operand, stack) ts = some (.behind e, stack) := by
  obtain ⟨stack', e', hrun, hclose⟩ := h stack (by simp)
  have := hclose 5 (Nat.le_refl 5)
  rw [close_of_holds (holds_five _), close_of_holds (holds_five _)] at this
  obtain ⟨rfl, rfl⟩ := this
  exact hrun

theorem of_exact (h : ∀ stack, run packages (.operand, stack) ts = some (.behind e, stack))
    (level : Nat) : Ends packages level e ts :=
  fun stack _ => ⟨stack, e, h stack, fun _ _ => rfl⟩

/-- Behind a bracket, everything up to the bracket closes. -/
theorem closed (h : Ends packages 1 e ts) (stack : List Frame) (hstack : Holds 1 stack) :
    ∃ stack' e', run packages (.operand, stack) ts = some (.behind e', stack')
      ∧ close 1 stack' e' = (stack, e) := by
  obtain ⟨stack', e', hrun, hclose⟩ := h stack fun _ => hstack
  exact ⟨stack', e', hrun, (hclose 1 (Nat.le_refl 1)).trans (close_of_holds hstack e)⟩

end Ends

/-- The machine reads every derivation. One case for each rule of the grammar. That a derivation is
    unique follows, since the machine reads tokens in one way. -/
theorem Derives.isRead {packages : List String} {p : Phrase} {ts : List Token}
    (h : Derives packages p ts) : p.IsRead packages ts := by
  induction h with
  | name hname hpackage =>
    refine .of_exact (fun stack => ?_) 5
    simp [step, hname, hpackage]
  | qualified hpackage hname hmember =>
    refine .of_exact (fun stack => ?_) 5
    simp [step, hname, hpackage, hmember]
  | @parens e ts _ ih =>
    refine .of_exact (fun stack => ?_) 5
    obtain ⟨stack', e', hrun, hclose⟩ := ih.closed (.parens :: stack) trivial
    simp [step, hrun, hclose]
  | field _ hname ih =>
    refine .of_exact (fun stack => ?_) 5
    simp [step, ih.exact stack, hname]
  | @index base _ _ _ _ _ ih ihidx =>
    refine .of_exact (fun stack => ?_) 5
    obtain ⟨stack', e', hrun, hclose⟩ := ihidx.closed (.index base :: stack) trivial
    simp [step, ih.exact stack, hrun, hclose]
  | @call func _ _ us _ _ ih ihargs =>
    refine .of_exact (fun stack => ?_) 5
    have hargs : run packages (.operand, .call func [] :: stack) (us ++ [.closeParen]) = _ :=
      ihargs func [] stack
    simpa [step, ih.exact stack] using hargs
  | deref _ ih | addr _ ih | not _ ih =>
    intro stack _
    obtain ⟨stack', e', hrun, hclose⟩ := ih (.unary _ :: stack) (by simp)
    refine ⟨stack', e', by simpa [step] using hrun, fun m hm => ?_⟩
    rw [hclose m hm, close, if_pos hm]
  | @binary op lhs rhs ts us _ _ ihl ihr =>
    intro stack hstack
    have hholds : Holds op.precedence stack := hstack op.precedence_le
    obtain ⟨stack₁, e₁, hrun₁, hclose₁⟩ := ihl stack hstack
    obtain ⟨stack₂, e₂, hrun₂, hclose₂⟩ := ihr (.left op lhs :: stack) fun _ => Nat.lt_succ_self _
    -- -- The left operand is closed by the operator, and the right one waits for what comes behind
    -- it.
    have hleft : close op.precedence stack₁ e₁ = (stack, lhs) :=
      (hclose₁ _ (Nat.le_refl _)).trans (close_of_holds hholds lhs)
    refine ⟨stack₂, e₂, ?_, fun m hm => ?_⟩
    · simp [hrun₁, step, hleft, hrun₂]
    · rw [hclose₂ m (Nat.le_succ_of_le hm), close, if_pos hm]
  | looser _ ih =>
    intro stack hstack
    obtain ⟨stack', e', hrun, hclose⟩ := ih stack fun hle =>
      (hstack (Nat.le_of_succ_le hle)).mono (Nat.le_succ _)
    exact ⟨stack', e', hrun, fun m hm => hclose m (Nat.le_succ_of_le hm)⟩
  | noArguments =>
    intro func args stack
    simp [step]
  | lastArgument _ ih =>
    intro func args stack
    obtain ⟨stack', e', hrun, hclose⟩ := ih.closed (.call func args :: stack) trivial
    simp [hrun, step, hclose]
  | @argument e es ts us _ _ ih ihes =>
    intro func args stack
    obtain ⟨stack', e', hrun, hclose⟩ := ih.closed (.call func args :: stack) trivial
    have hrest : run packages (.operand, .call func (args ++ [e]) :: stack)
        (us ++ [.closeParen]) = _ := ihes func (args ++ [e]) stack
    simpa [hrun, step, hclose] using hrest

/-- No list of tokens has two readings. -/
theorem Derives.unique {packages : List String} {ts : List Token} {e e' : Expr}
    (h : Derives packages (.expression 1 e) ts) (h' : Derives packages (.expression 1 e') ts) :
    e = e' := by
  obtain ⟨stack₁, e₁, hrun₁, hclose₁⟩ := h.isRead.closed [] trivial
  obtain ⟨stack₂, e₂, hrun₂, hclose₂⟩ := h'.isRead.closed [] trivial
  obtain ⟨rfl, rfl⟩ := by simpa using hrun₁.symm.trans hrun₂
  exact (Prod.ext_iff.mp (hclose₁.symm.trans hclose₂)).2

/-- No text has two readings. -/
theorem Reads.unique {packages : List String} {text : String} {e e' : Expr}
    (h : Reads packages text e) (h' : Reads packages text e') : e = e' := by
  obtain ⟨ts, hts, h⟩ := h
  obtain ⟨ts', hts', h'⟩ := h'
  obtain rfl := Option.some.inj (hts.symm.trans hts')
  exact h.unique h'

end Expr
end Shapewright
