import Shapewright.Proofs.Code.Grammar

/-!
# Which expressions are read back

The printer puts parentheses around an operand of a binary operator that binds less tightly and
around a binary expression that is negated, and nowhere else. So an expression is read back from its
text exactly if it needs no other ones: no selector or index of what a prefix or a binary operator
makes, no pointer operator before a binary one, no operand to the right of an operator of its own
level, and no address of an address, whose signs would be read as `&&`.

## Both directions

That these suffice is seen by deriving the printed tokens (`derives_tokens`). That they are needed
is seen by counting: a derivation has a parenthesis wherever the expression needs one, and all its
address signs (`Derives.isCounted`). If a text is read as the expression that was printed, then its
tokens are those of the printer, up to address signs that were joined; so the printer left out no
parenthesis that is needed, and no two address signs met.

Counting asks less than comparing trees would. It does not say where a parenthesis is missing, and
it need not, because one that is missing anywhere makes the two numbers differ.

## Address signs

An operand of the address operator may begin with an address sign without being an address, as far
as tokens go: `&x.f` does. But that is no operand that binds tightest and is grouped
(`head?_tokens`), so of the operands that the printer leaves without parentheses only an address
puts two signs side by side.
-/

namespace Shapewright
namespace Expr

/-- How tightly the outermost operator of an expression binds. -/
def level : Expr → Nat
  | .binary op _ _ => op.precedence
  | .deref _ | .addr _ | .not _ => 4
  | _ => 5

/-- Whether an expression is an address. -/
def isAddr : Expr → Bool
  | .addr _ => true
  | _ => false

mutual

/-- Whether the operands of an expression keep together without parentheses that the printer leaves
    out. -/
def isGrouped : Expr → Bool
  | .field base _ => base.level == 5 && isGrouped base
  | .index base idx => base.level == 5 && isGrouped base && isGrouped idx
  | .deref inner => 4 ≤ inner.level && isGrouped inner
  | .addr inner => 4 ≤ inner.level && !isAddr inner && isGrouped inner
  | .not inner => isGrouped inner
  | .call _ args => areGrouped args
  | .binary op lhs rhs => rhs.level != op.precedence && isGrouped lhs && isGrouped rhs
  | _ => true

/-- Whether all expressions of a list are grouped. -/
def areGrouped : List Expr → Bool
  | [] => true
  | e :: rest => isGrouped e && areGrouped rest

end

theorem level_pos (e : Expr) : 1 ≤ e.level := by
  unfold level
  split
  · next op _ _ => cases op <;> decide
  all_goals decide

theorem level_le (e : Expr) : e.level ≤ 5 := by
  unfold level
  split
  · next op _ _ => exact Nat.le_trans op.precedence_le (by decide)
  all_goals decide

/-- The printer puts parentheses around an operand that binds less tightly than its operator. -/
theorem needsParens_eq (op : BinaryOp) (e : Expr) :
    Printer.needsParens op e = decide (e.level < op.precedence) := by
  have := op.precedence_le
  cases e with
  | binary => rfl
  | _ => exact (decide_eq_false (by simp only [level]; omega)).symm

theorem isBinary_eq (e : Expr) : Printer.isBinary e = decide (e.level < 4) := by
  cases e with
  | binary op => exact (decide_eq_true (Nat.lt_succ_of_le op.precedence_le)).symm
  | _ => rfl

/-! ## Deriving the printed tokens -/

/-- What is read where a tight operator is asked for is read where a looser one is. -/
theorem Derives.of_le {packages : List String} {level level' : Nat} {e : Expr} {ts : List Token}
    (h : Derives packages (.expression level e) ts) (hle : level' ≤ level) :
    Derives packages (.expression level' e) ts := by
  induction level with
  | zero => exact Nat.le_zero.mp hle ▸ h
  | succ level ih =>
    obtain rfl | hlt := Nat.eq_or_lt_of_le hle
    · exact h
    · exact ih h.looser (Nat.le_of_lt_succ hlt)

/-- With the parentheses of the printer an operand is read where a level is asked for, if they are
    not left out below that level. -/
theorem derives_enclosed {packages : List String} {bound : Nat} {parens : Bool} {e : Expr}
    {ts : List Token} (h : Derives packages (.expression e.level e) ts)
    (hparens : parens = false → bound ≤ e.level) (hbound : bound ≤ 5) :
    Derives packages (.expression bound e) (enclosed parens ts) := by
  cases parens
  · exact h.of_le (hparens rfl)
  · exact (h.of_le e.level_pos).parens.of_le hbound

/-- The tokens of a name are read as the name. -/
theorem derives_nameTokens {packages : List String} {name : String} (h : isName packages name) :
    Derives packages (.expression 5 (.ident name)) (nameTokens name) := by
  obtain ⟨hname, hpackage, htokens⟩ | ⟨package, member, hpackage, hname, hmember, rfl, htokens⟩ :=
    isName_cases h
  · exact htokens ▸ .name hname hpackage
  · exact htokens ▸ .qualified hpackage hname hmember

mutual

/-- A grouped expression is a reading of its own tokens. By induction on the expression: each
    constructor has a rule of the grammar, and its level is the one that the rule asks for. -/
theorem derives_tokens {packages : List String} : ∀ {e : Expr}, isSimple packages e →
    isGrouped e → Derives packages (.expression e.level e) (tokens e)
  | .ident name, hs, _ => by
    rw [isSimple] at hs
    exact derives_nameTokens hs
  | .field base name, hs, hg => by
    simp only [isSimple, isGrouped, Bool.and_eq_true, beq_iff_eq] at hs hg
    exact .field (hg.1 ▸ derives_tokens hs.1 hg.2) hs.2
  | .index base idx, hs, hg => by
    simp only [isSimple, isGrouped, Bool.and_eq_true, beq_iff_eq] at hs hg
    exact .index (hg.1.1 ▸ derives_tokens hs.1 hg.1.2)
      ((derives_tokens hs.2 hg.2).of_le idx.level_pos)
  | .deref inner, hs, hg => by
    simp only [isSimple, isGrouped, Bool.and_eq_true, decide_eq_true_eq] at hs hg
    exact .deref ((derives_tokens hs hg.2).of_le hg.1)
  | .addr inner, hs, hg => by
    simp only [isSimple, isGrouped, Bool.and_eq_true, decide_eq_true_eq] at hs hg
    exact .addr ((derives_tokens hs hg.2).of_le hg.1.1)
  | .not inner, hs, hg => by
    rw [isSimple] at hs
    rw [isGrouped] at hg
    -- The printer puts parentheses around an operand that is a binary expression, so nothing is
    -- asked of its level.
    exact .not (derives_enclosed (derives_tokens hs hg) (by simp [isBinary_eq]) (by decide))
  | .call func args, hs, hg => by
    simp only [isSimple, isGrouped, Bool.and_eq_true] at hs hg
    exact .call (derives_nameTokens hs.1) (derives_listTokens hs.2 hg)
  | .binary op lhs rhs, hs, hg => by
    simp only [isSimple, isGrouped, Bool.and_eq_true, bne_iff_ne] at hs hg
    -- Either operand is enclosed if it binds less tightly than the operator. What is not enclosed
    -- binds at least as tightly, the right operand strictly more.
    have hle := op.precedence_le
    exact .binary
      (derives_enclosed (derives_tokens hs.1 hg.1.2) (by simp [needsParens_eq]) (by omega))
      (derives_enclosed (derives_tokens hs.2 hg.2) (by simp [needsParens_eq]; omega) (by omega))

/-- The tokens of grouped arguments are read as these arguments. Together with `derives_tokens`, by
    recursion on the arguments. -/
theorem derives_listTokens {packages : List String} : ∀ {es : List Expr}, areSimple packages es →
    areGrouped es → Derives packages (.arguments es) (listTokens es)
  | [], _, _ => .noArguments
  | [e], hs, hg => by
    simp only [areSimple, areGrouped, Bool.and_eq_true] at hs hg
    exact .lastArgument ((derives_tokens hs.1 hg.1).of_le e.level_pos)
  | e :: e' :: rest, hs, hg => by
    rw [areSimple, Bool.and_eq_true] at hs
    rw [areGrouped, Bool.and_eq_true] at hg
    exact .argument ((derives_tokens hs.1 hg.1).of_le e.level_pos) (derives_listTokens hs.2 hg.2)

end

/-! ## Counting parentheses and address signs -/

/-- One for an expression that needs parentheses where `bound` is the loosest level allowed. -/
def short (bound : Nat) (e : Expr) : Nat := if e.level < bound then 1 else 0

mutual

/-- The pairs of parentheses that an expression is not read back without and that the printer
    leaves out. -/
def missing : Expr → Nat
  | .field base _ => short 5 base + missing base
  | .index base idx => short 5 base + missing base + missing idx
  | .deref inner | .addr inner => short 4 inner + missing inner
  | .not inner => missing inner
  | .call _ args => missingAll args
  | .binary op lhs rhs =>
    missing lhs + (if rhs.level = op.precedence then 1 else 0) + missing rhs
  | _ => 0

/-- The pairs of parentheses that arguments lack. -/
def missingAll : List Expr → Nat
  | [] => 0
  | e :: rest => missing e + missingAll rest

end

theorem short_le (bound : Nat) (e : Expr) : short bound e ≤ 1 := by
  unfold short
  split <;> decide

theorem short_eq_zero {bound : Nat} {e : Expr} : short bound e = 0 ↔ bound ≤ e.level := by
  simp [short]

theorem level_eq_five {e : Expr} : e.level = 5 ↔ short 5 e = 0 := by
  rw [short_eq_zero]
  exact ⟨Nat.le_of_eq ∘ Eq.symm, Nat.le_antisymm e.level_le⟩

theorem short_mono {bound bound' : Nat} (h : bound ≤ bound') (e : Expr) :
    short bound e ≤ short bound' e := by
  unfold short
  split <;> split <;> omega

theorem count_nameTokens (name : String) :
    (nameTokens name).count .openParen = 0 ∧ (nameTokens name).count .amp = 0 := by
  unfold nameTokens
  split <;> simp

/-- Parentheses that are printed where they are needed add as many as are needed. -/
theorem count_enclosed_openParen {bound : Nat} {parens : Bool} {e : Expr}
    (h : parens = decide (e.level < bound)) (ts : List Token) :
    (enclosed parens ts).count .openParen = short bound e + ts.count .openParen := by
  subst h
  rw [short]
  by_cases h : e.level < bound <;> simp [enclosed, h, Nat.add_comm]

theorem count_enclosed_amp (parens : Bool) (ts : List Token) :
    (enclosed parens ts).count .amp = ts.count .amp := by
  cases parens <;> simp [enclosed]

theorem count_listTokens_cons (e : Expr) (rest : List Expr) {t : Token} (h : t ≠ .comma) :
    (listTokens (e :: rest)).count t = (tokens e).count t + (listTokens rest).count t := by
  cases rest <;> simp [listTokens, h.symm]

/-- Tokens that hold the parentheses that are printed and those that are missing, and the address
    signs that are printed. -/
def Phrase.IsCounted : Phrase → List Token → Prop
  | .expression bound e, ts =>
    short bound e + missing e + (tokens e).count .openParen ≤ ts.count .openParen
      ∧ ts.count .amp = (tokens e).count .amp
  | .arguments es, ts =>
    missingAll es + (listTokens es).count .openParen ≤ ts.count .openParen
      ∧ ts.count .amp = (listTokens es).count .amp

/-- Every reading has at least the parentheses that the operands need, and no address sign more or
    less than is printed. -/
theorem Derives.isCounted {packages : List String} {p : Phrase} {ts : List Token}
    (h : Derives packages p ts) : p.IsCounted ts := by
  induction h with
  | @name name =>
    have hshort : short 5 (.ident name) = 0 := rfl
    simp [Phrase.IsCounted, tokens, missing, hshort, count_nameTokens]
  | @qualified package member =>
    have hshort : short 5 (.ident (package ++ "." ++ member)) = 0 := rfl
    simp [Phrase.IsCounted, tokens, missing, hshort, count_nameTokens]
  | @parens e ts _ ih =>
    have hshort := short_le 5 e
    simp [Phrase.IsCounted] at ih ⊢
    omega
  | @field base _ name _ _ ih =>
    have hshort : short 5 (.field base name) = 0 := rfl
    simpa [Phrase.IsCounted, tokens, missing, hshort] using ih
  | @index base idx _ _ _ _ ih ihidx =>
    have hshort : short 5 (.index base idx) = 0 := rfl
    simp [Phrase.IsCounted, tokens, missing, hshort] at ih ihidx ⊢
    omega
  | @call func args _ _ _ _ ih ihargs =>
    have hshort : short 5 (.call func args) = 0 := rfl
    simp [Phrase.IsCounted, tokens, missing, hshort] at ih ihargs ⊢
    omega
  | @deref inner _ _ ih =>
    have hshort : short 4 (.deref inner) = 0 := rfl
    simpa [Phrase.IsCounted, tokens, missing, hshort] using ih
  | @addr inner _ _ ih =>
    have hshort : short 4 (.addr inner) = 0 := rfl
    simpa [Phrase.IsCounted, tokens, missing, hshort] using ih
  | @not inner _ _ ih =>
    have hshort : short 4 (.not inner) = 0 := rfl
    simp [Phrase.IsCounted, tokens, missing, hshort, count_enclosed_openParen (isBinary_eq inner),
      count_enclosed_amp] at ih ⊢
    omega
  | @binary op lhs rhs _ _ _ _ ihl ihr =>
    have hshort : short op.precedence (.binary op lhs rhs) = 0 :=
      short_eq_zero.mpr (Nat.le_refl _)
    -- To the right an operand of the same level needs parentheses, too, and gets none.
    have hsame : short (op.precedence + 1) rhs
        = short op.precedence rhs + if rhs.level = op.precedence then 1 else 0 := by
      unfold short
      split <;> split <;> split <;> omega
    simp [Phrase.IsCounted, tokens, missing, hshort, count_enclosed_amp,
      count_enclosed_openParen (needsParens_eq op _)] at ihl ihr ⊢
    omega
  | @looser bound e _ _ ih =>
    have hshort : short bound e ≤ short (bound + 1) e := short_mono (Nat.le_succ bound) e
    simp [Phrase.IsCounted] at ih ⊢
    omega
  | noArguments => exact ⟨Nat.le_refl 0, rfl⟩
  | lastArgument _ ih =>
    simp [Phrase.IsCounted, missingAll, listTokens] at ih ⊢
    omega
  | @argument e es _ _ _ _ ih ihes =>
    simp [Phrase.IsCounted, missingAll, count_listTokens_cons] at ih ihes ⊢
    omega

/-! ## Counting in the printed tokens -/

/-- Tokens of which no two address signs stand side by side. Two of them would be read as one
    operator. -/
def Unpaired (ts : List Token) : Prop := ts.IsChain fun s t => ¬(s = .amp ∧ t = .amp)

/-- Without tokens there is no pair of signs. -/
theorem unpaired_nil : Unpaired [] := .nil

theorem unpaired_join {ts us : List Token} {t : Token} (h : t ≠ .amp) :
    Unpaired (ts ++ t :: us) ↔ Unpaired ts ∧ Unpaired us := by
  simp [Unpaired, List.isChain_append, List.isChain_cons, h]

theorem unpaired_cons {us : List Token} {t : Token} (h : t ≠ .amp) :
    Unpaired (t :: us) ↔ Unpaired us := by
  simp [Unpaired, List.isChain_cons, h]

theorem unpaired_amp_cons {us : List Token} :
    Unpaired (.amp :: us) ↔ us.head? ≠ some .amp ∧ Unpaired us := by
  simp only [Unpaired, List.isChain_cons, true_and]
  exact and_congr_left' ⟨fun h hamp => h _ hamp rfl, fun h t ht hamp => h (hamp ▸ ht)⟩

/-- Parentheses make no pairs and take none apart. -/
theorem unpaired_enclosed {parens : Bool} {ts : List Token} :
    Unpaired (enclosed parens ts) ↔ Unpaired ts := by
  cases parens
  · rfl
  · rw [enclosed, if_pos rfl, unpaired_cons (by simp), unpaired_join (by simp)]
    exact and_iff_left List.isChain_nil

theorem unpaired_nameTokens (name : String) : Unpaired (nameTokens name) := by
  unfold nameTokens
  split <;> simp [Unpaired]

theorem joined_of_unpaired {ts : List Token} (h : Unpaired ts) : joined ts = ts := by
  fun_induction joined ts with
  | case1 rest ih => exact absurd rfl (unpaired_amp_cons.mp h).1
  | case2 t rest _ ih => rw [ih (List.IsChain.tail h)]
  | case3 => rfl

/-- Joining address signs changes no parenthesis. -/
theorem count_joined_openParen (ts : List Token) :
    (joined ts).count .openParen = ts.count .openParen := by
  fun_induction joined ts with
  | case1 rest ih => simp [ih]
  | case2 t rest _ ih => simp [List.count_cons, ih]
  | case3 => rfl

theorem count_joined_amp_le (ts : List Token) : (joined ts).count .amp ≤ ts.count .amp := by
  fun_induction joined ts with
  | case1 rest ih => simp; omega
  | case2 t rest _ ih => simp [List.count_cons, ih]
  | case3 => exact Nat.le_refl 0

/-- Two address signs that are read as one operator are missing afterwards. Reading back gives an
    expression with as many signs as it was printed with, so no pair can have been joined. -/
theorem unpaired_of_count_amp {ts : List Token} (h : ts.count .amp ≤ (joined ts).count .amp) :
    Unpaired ts := by
  fun_induction joined ts with
  | case1 rest _ =>
    have := count_joined_amp_le rest
    simp at h
    omega
  | case2 t rest hnot ih =>
    have hrest : Unpaired rest := ih (by simpa [List.count_cons] using h)
    by_cases ht : t = .amp
    · subst ht
      refine unpaired_amp_cons.mpr ⟨fun hhead => ?_, hrest⟩
      obtain ⟨rest', rfl⟩ := List.head?_eq_some_iff.mp hhead
      exact hnot rest' rfl rfl
    · exact (unpaired_cons ht).mpr hrest
  | case3 => exact .nil

theorem head?_join {ts us : List Token} {t : Token} (h : t ≠ .amp) :
    (ts ++ t :: us).head? = some .amp ↔ ts.head? = some .amp := by
  cases ts <;> simp [h]

theorem head?_nameTokens (name : String) : (nameTokens name).head? ≠ some .amp := by
  unfold nameTokens
  split <;> simp

/-- What binds tightest and is grouped starts with no address sign. Such an expression is a name, a
    selection, an element or a call, and these begin as their first part does. -/
theorem head?_tokens {packages : List String} : ∀ {e : Expr}, isSimple packages e →
    isGrouped e → e.level = 5 → (tokens e).head? ≠ some .amp
  | .ident name, _, _, _ => head?_nameTokens name
  | .field base name, hs, hg, _ => by
    simp only [isSimple, isGrouped, Bool.and_eq_true, beq_iff_eq] at hs hg
    rw [tokens, ne_eq, head?_join (by simp)]
    exact head?_tokens hs.1 hg.2 hg.1
  | .index base idx, hs, hg, _ => by
    simp only [isSimple, isGrouped, Bool.and_eq_true, beq_iff_eq] at hs hg
    rw [tokens, ne_eq, head?_join (by simp)]
    exact head?_tokens hs.1 hg.1.2 hg.1.1
  | .call func args, _, _, _ => by
    rw [tokens, ne_eq, head?_join (by simp)]
    exact head?_nameTokens func
  | .binary op _ _, _, _, h => by
    have := op.precedence_le
    simp only [level] at h
    omega
  | .deref _, _, _, h | .addr _, _, _, h | .not _, _, _, h => by cases h

/-- Of what binds at least as tightly as a prefix operator, an address alone starts with its
    sign. -/
theorem head?_tokens_eq_amp {packages : List String} {e : Expr} (hs : isSimple packages e)
    (hg : isGrouped e) (hlevel : 4 ≤ e.level) : (tokens e).head? = some .amp ↔ isAddr e := by
  cases e with
  | binary op _ _ =>
    have := op.precedence_le
    simp only [level] at hlevel
    omega
  | deref | addr | not => simp [tokens, isAddr]
  | _ => simpa [isAddr] using head?_tokens hs hg rfl

mutual

/-- An expression is grouped exactly if it lacks no parentheses and no two address signs meet. The
    two conditions are about the text, and grouping is about the expression; the equivalence is what
    lets a lost pair of parentheses be counted in the text. -/
theorem isGrouped_iff {packages : List String} : ∀ {e : Expr}, isSimple packages e →
    (isGrouped e ↔ missing e = 0 ∧ Unpaired (tokens e))
  | .ident name, _ => by simp [isGrouped, missing, tokens, unpaired_nameTokens]
  | .field base name, hs => by
    simp only [isSimple, Bool.and_eq_true] at hs
    have htokens : Unpaired (tokens base ++ [.dot, .word name]) ↔ Unpaired (tokens base) := by
      rw [unpaired_join (by simp)]
      exact and_iff_left (.singleton _)
    simp [isGrouped, missing, tokens, level_eq_five, htokens, isGrouped_iff hs.1, and_assoc]
  | .index base idx, hs => by
    simp only [isSimple, Bool.and_eq_true] at hs
    simp only [isGrouped, missing, tokens, Bool.and_eq_true, beq_iff_eq, level_eq_five,
      isGrouped_iff hs.1, isGrouped_iff hs.2, unpaired_join (t := .openBracket) (by simp),
      unpaired_join (t := .closeBracket) (by simp), unpaired_nil, Nat.add_eq_zero_iff]
    tauto
  | .deref inner, hs => by
    rw [isSimple] at hs
    simp only [isGrouped, missing, tokens, Bool.and_eq_true, decide_eq_true_eq, ← short_eq_zero,
      isGrouped_iff hs, unpaired_cons (t := .star) (by simp), Nat.add_eq_zero_iff, and_assoc]
  | .addr inner, hs => by
    rw [isSimple] at hs
    -- Under an address sign the two conditions meet: the tokens start with a sign of their own just
    -- for an address, which is known only once the operand is grouped itself.
    have hhead : short 4 inner = 0 → missing inner = 0 → Unpaired (tokens inner) →
        ((tokens inner).head? = some .amp ↔ isAddr inner) := fun hshort hmissing hunpaired =>
      head?_tokens_eq_amp hs ((isGrouped_iff hs).mpr ⟨hmissing, hunpaired⟩)
        (short_eq_zero.mp hshort)
    simp only [isGrouped, missing, tokens, Bool.and_eq_true, decide_eq_true_eq, ← short_eq_zero,
      Bool.not_eq_true', ← Bool.not_eq_true, isGrouped_iff hs, unpaired_amp_cons,
      Nat.add_eq_zero_iff]
    tauto
  | .not inner, hs => by
    rw [isSimple] at hs
    simp only [isGrouped, missing, tokens, isGrouped_iff hs, unpaired_cons (t := .bang) (by simp),
      unpaired_enclosed]
  | .call func args, hs => by
    simp only [isSimple, Bool.and_eq_true] at hs
    simp only [isGrouped, missing, tokens, areGrouped_iff hs.2,
      unpaired_join (t := .openParen) (by simp), unpaired_join (t := .closeParen) (by simp),
      unpaired_nameTokens, unpaired_nil, true_and, and_true]
  | .binary op lhs rhs, hs => by
    simp only [isSimple, Bool.and_eq_true] at hs
    have hsame : (if rhs.level = op.precedence then 1 else 0) = 0 ↔ rhs.level ≠ op.precedence := by
      simp
    simp only [isGrouped, missing, tokens, Bool.and_eq_true, bne_iff_ne, isGrouped_iff hs.1,
      isGrouped_iff hs.2, unpaired_join (t := .operator op) (by simp), unpaired_enclosed,
      Nat.add_eq_zero_iff, hsame]
    tauto

/-- Arguments are grouped exactly if they lack no parentheses and no two address signs meet. By the
    same induction, for lists of arguments. The comma between two of them keeps their signs
    apart. -/
theorem areGrouped_iff {packages : List String} : ∀ {es : List Expr}, areSimple packages es →
    (areGrouped es ↔ missingAll es = 0 ∧ Unpaired (listTokens es))
  | [], _ => by simp [areGrouped, missingAll, listTokens, Unpaired]
  | [e], hs => by
    rw [areSimple, Bool.and_eq_true] at hs
    simp [areGrouped, missingAll, listTokens, isGrouped_iff hs.1]
  | e :: e' :: rest, hs => by
    rw [areSimple, Bool.and_eq_true] at hs
    have htokens : listTokens (e :: e' :: rest) = tokens e ++ .comma :: listTokens (e' :: rest) :=
      by simp [listTokens]
    rw [areGrouped, missingAll, htokens, unpaired_join (by simp)]
    simp only [Bool.and_eq_true, isGrouped_iff hs.1, areGrouped_iff hs.2, Nat.add_eq_zero_iff]
    tauto

end

/-! ## Reading a printed expression back -/

theorem reads_of_isGrouped {packages : List String} {e : Expr} (hs : isSimple packages e)
    (hg : isGrouped e) (indent : Nat) : Reads packages (Printer.expr indent e) e := by
  have hjoined : joined (tokens e) = tokens e := joined_of_unpaired ((isGrouped_iff hs).mp hg).2
  exact ⟨tokens e, hjoined ▸ scan_expr hs indent, (derives_tokens hs hg).of_le e.level_pos⟩

/-- An expression that its text is read as is grouped. -/
theorem isGrouped_of_reads {packages : List String} {e : Expr} {indent : Nat}
    (hs : isSimple packages e) (h : Reads packages (Printer.expr indent e) e) : isGrouped e := by
  -- -- The tokens that were read are those of the printer, up to address signs that were joined.
  obtain ⟨ts, hts, hderives⟩ := h
  obtain rfl : joined (tokens e) = ts := Option.some.inj ((scan_expr hs indent).symm.trans hts)
  obtain ⟨hparens, hamp⟩ := hderives.isCounted
  rw [count_joined_openParen] at hparens
  exact (isGrouped_iff hs).mpr ⟨by omega, unpaired_of_count_amp hamp.ge⟩

/-- An expression is what its text is read as exactly if it is grouped, and the text then has no
    other reading; so no two grouped expressions have one text. -/
theorem reads_print_iff_isGrouped {packages : List String} {e : Expr} (hs : isSimple packages e)
    (indent : Nat) :
    (isGrouped e → ∀ e', Reads packages (Printer.expr indent e) e' ↔ e' = e)
      ∧ (Reads packages (Printer.expr indent e) e → isGrouped e)
      ∧ ∀ e' indent', isSimple packages e' → isGrouped e → isGrouped e' →
          Printer.expr indent' e' = Printer.expr indent e → e' = e := by
  refine ⟨fun hg e' => ⟨fun h => h.unique (reads_of_isGrouped hs hg indent), ?_⟩,
    isGrouped_of_reads hs, fun e' indent' hs' hg hg' htext => ?_⟩
  · rintro rfl
    exact reads_of_isGrouped hs hg indent
  · have h' : Reads packages (Printer.expr indent e) e' :=
      htext ▸ reads_of_isGrouped hs' hg' indent'
    exact h'.unique (reads_of_isGrouped hs hg indent)

/-- A condition of names, a package, pointers and operators of all levels. -/
def nested : Expr :=
  .binary .and
    (.not (.binary .or (.ident "ok")
      (.binary .eq (.index (.field (.ident "v") "tags") (.deref (.ident "i")))
        (.call "goa.First" [.addr (.ident "x"), .ident "y"]))))
    (.ident "z")

/-- The condition is printed with the one pair of parentheses that it needs, and read back from
    it. -/
theorem nested_readBack : isSimple ["goa"] nested ∧ isGrouped nested
    ∧ nested.print = "!(ok || v.tags[*i] == goa.First(&x, y)) && z"
    ∧ ∀ e, Reads ["goa"] nested.print e ↔ e = nested :=
  have hs : isSimple ["goa"] nested := by decide
  have hg : isGrouped nested := by decide
  ⟨hs, hg, by decide, (reads_print_iff_isGrouped hs 0).1 hg⟩

/-- A selector of what a pointer points to is read as a pointer to what the selector selects. The
    two expressions have the same text, so a reader can give back one of them only. -/
theorem selector_behind_pointer_misread :
    isSimple [] (.field (.deref (.ident "x")) "f")
      ∧ (field (.deref (.ident "x")) "f").print = "*x.f"
      ∧ (deref (.field (.ident "x") "f")).print = "*x.f"
      ∧ Reads [] "*x.f" (.deref (.field (.ident "x") "f"))
      ∧ ¬Reads [] "*x.f" (.field (.deref (.ident "x")) "f") := by
  have hs : isSimple [] (.deref (.field (.ident "x") "f")) := by decide
  have hreads : Reads [] "*x.f" (.deref (.field (.ident "x") "f")) :=
    reads_of_isGrouped hs (by decide) 0
  exact ⟨by decide, by decide, by decide, hreads, fun h => by cases h.unique hreads⟩

end Expr
end Shapewright
