import Mathlib.Data.List.Chain
import Shapewright.Code.Printer
import Shapewright.Identifier
import Shapewright.Text.Letter

/-!
# The tokens of printed expressions

An expression of names, selectors, indices, calls and operators is printed as a list of tokens, and
Go reads its text back token by token, each as long as it can be. The two lists are the same but for
one thing: two address signs that are written side by side are read as one `&&`. What is needed for
it is that no two names stand side by side, and they never do.

## What is read

A text is read with the word that has been collected so far (`scan`). Names are read by the classes
of their characters, a little more widely than the language does, and keywords are no names. A name
that is printed may be that of another package; it is then three tokens, and which words are
packages is given from outside.

The signs that no printed expression has are left out of the reader. A sign of two characters is
tried before those of one, and this is the only place where the reader could take two tokens for
one. Where it does is said by `joined`, which is the difference between what is printed and what is
read.

## Two steps

That the text of an expression is the layout of its tokens is an induction over expressions, one
case for each way to print them (`toList_expr`). That a layout is read as its tokens is an induction
over the tokens and knows nothing of expressions (`scan_layout`). Between the two stands `Legible`:
words are identifiers, and no two of them are neighbours.
-/

namespace Shapewright
namespace Expr

/-- A token of an expression. Address signs and double ones are different tokens: the second is a
    binary operator. -/
inductive Token where
  | word (name : String)
  | operator (op : BinaryOp)
  | star
  | amp
  | bang
  | dot
  | comma
  | openParen
  | closeParen
  | openBracket
  | closeBracket
deriving DecidableEq

namespace Token

/-- The text of a token as the printer lays it out: blanks around a binary operator and one after
    a comma. -/
def text : Token → List Char
  | .word name => name.toList
  | .operator op => ' ' :: (op.symbol.toList ++ [' '])
  | .star => ['*']
  | .amp => ['&']
  | .bang => ['!']
  | .dot => ['.']
  | .comma => [',', ' ']
  | .openParen => ['(']
  | .closeParen => [')']
  | .openBracket => ['[']
  | .closeBracket => [']']

/-- Whether a token is a word. -/
def isWord : Token → Bool
  | .word _ => true
  | _ => false

end Token

/-! ## Names -/

/-- The characters of a name after its first. They are a few more than Go has: every character that
    counts as alphabetic or as a number is one. -/
def isNameChar (c : Char) : Bool := c == '_' || Text.isAlphanumeric c

/-- Whether a text is an identifier, which no keyword is. -/
def isIdentifier (name : String) : Bool :=
  !name.isEmpty && name.toList.all isNameChar
    && (name.toList.take 1).all (fun c => c == '_' || Text.isAlphabetic c)
    && !Identifier.keywords.contains name.toList

/-- The package that a name is qualified with, if any, and the name in it. -/
def qualifier (name : String) : Option String × String :=
  match name.toList.dropWhile (· != '.') with
  | [] => (none, name)
  | _ :: member =>
    (some (String.ofList (name.toList.takeWhile (· != '.'))), String.ofList member)

/-- Whether a text names a variable or a function: it is an identifier that is no package, or an
    identifier of a package. -/
def isName (packages : List String) (name : String) : Bool :=
  match qualifier name with
  | (none, _) => isIdentifier name && !packages.contains name
  | (some package, member) =>
    packages.contains package && isIdentifier package && isIdentifier member

mutual

/-- Whether an expression is built from names, selectors, indices, pointers, negations, calls and
    binary operators. -/
def isSimple (packages : List String) : Expr → Bool
  | .ident name => isName packages name
  | .field base name => isSimple packages base && isIdentifier name
  | .index base idx => isSimple packages base && isSimple packages idx
  | .deref inner | .addr inner | .not inner => isSimple packages inner
  | .call func args => isName packages func && areSimple packages args
  | .binary _ lhs rhs => isSimple packages lhs && isSimple packages rhs
  | _ => false

/-- Whether all expressions of a list are of this kind. -/
def areSimple (packages : List String) : List Expr → Bool
  | [] => true
  | e :: rest => isSimple packages e && areSimple packages rest

end

/-! ## The tokens of an expression -/

/-- The tokens of a name, three of them if it names its package. -/
def nameTokens (name : String) : List Token :=
  match qualifier name with
  | (none, _) => [.word name]
  | (some package, member) => [.word package, .dot, .word member]

/-- The tokens with parentheses around them, where these are printed. -/
def enclosed (parens : Bool) (ts : List Token) : List Token :=
  if parens then .openParen :: (ts ++ [.closeParen]) else ts

mutual

/-- The tokens that an expression is printed as. -/
def tokens : Expr → List Token
  | .ident name => nameTokens name
  | .field base name => tokens base ++ [.dot, .word name]
  | .index base idx => tokens base ++ .openBracket :: (tokens idx ++ [.closeBracket])
  | .deref inner => .star :: tokens inner
  | .addr inner => .amp :: tokens inner
  | .not inner => .bang :: enclosed (Printer.isBinary inner) (tokens inner)
  | .call func args => nameTokens func ++ .openParen :: (listTokens args ++ [.closeParen])
  | .binary op lhs rhs =>
    enclosed (Printer.needsParens op lhs) (tokens lhs)
      ++ .operator op :: enclosed (Printer.needsParens op rhs) (tokens rhs)
  | _ => []

/-- The tokens of expressions with commas between them. -/
def listTokens : List Expr → List Token
  | [] => []
  | [e] => tokens e
  | e :: rest => tokens e ++ .comma :: listTokens rest

end

/-- The text of some tokens. -/
def layout (ts : List Token) : List Char := ts.flatMap Token.text

/-! ## Reading tokens -/

/-- Ends a word that was being read. -/
def flush (word : List Char) (ts : List Token) : List Token :=
  if word.isEmpty then ts else .word (String.ofList word) :: ts

/-- A sign of one character. -/
def sign? : Char → Option Token
  | '*' => some .star
  | '&' => some .amp
  | '!' => some .bang
  | '<' => some (.operator .lt)
  | '>' => some (.operator .gt)
  | '.' => some .dot
  | ',' => some .comma
  | '(' => some .openParen
  | ')' => some .closeParen
  | '[' => some .openBracket
  | ']' => some .closeBracket
  | _ => none

/-- Reads the tokens of a text behind the word that was being read. The longest token wins: a sign
    of two characters goes before those of one. The other signs that Go has, such as `<=` and `&^`,
    are left out: no printed expression has the two characters of one side by side. -/
def scan (word : List Char) : List Char → Option (List Token)
  | [] => some (flush word [])
  | '|' :: '|' :: rest => (scan [] rest).map fun ts => flush word (.operator .or :: ts)
  | '&' :: '&' :: rest => (scan [] rest).map fun ts => flush word (.operator .and :: ts)
  | '=' :: '=' :: rest => (scan [] rest).map fun ts => flush word (.operator .eq :: ts)
  | '!' :: '=' :: rest => (scan [] rest).map fun ts => flush word (.operator .ne :: ts)
  | c :: rest =>
    if isNameChar c then scan (word ++ [c]) rest
    else if c = ' ' then (scan [] rest).map (flush word)
    else do
      let t ← sign? c
      let ts ← scan [] rest
      some (flush word (t :: ts))

/-- Reads two address signs side by side as one operator, from the left on. -/
def joined : List Token → List Token
  | .amp :: .amp :: rest => .operator .and :: joined rest
  | t :: rest => t :: joined rest
  | [] => []

/-- A character of a name is added to the word that is being read. -/
theorem scan_nameChar {word rest : List Char} {c : Char} (h : isNameChar c) :
    scan word (c :: rest) = scan (word ++ [c]) rest := by
  have hp : isNameChar '|' = false := by decide
  have ha : isNameChar '&' = false := by decide
  have he : isNameChar '=' = false := by decide
  have hb : isNameChar '!' = false := by decide
  rw [scan]
  · simp [h]
  all_goals grind

theorem scan_blank (word rest : List Char) :
    scan word (' ' :: rest) = (scan [] rest).map (flush word) := by
  have h : isNameChar ' ' = false := by decide
  simp [scan, h]

theorem scan_space (rest : List Char) : scan [] (' ' :: rest) = scan [] rest := by
  rw [scan_blank]
  cases scan [] rest <;> rfl

/-- A sign is read alone where what follows does not make it a longer one. The two exceptions are
    the signs that begin a longer one: the address and the negation. -/
theorem scan_sign (word rest : List Char) {c : Char} {t : Token} (h : sign? c = some t)
    (ha : c = '&' → rest.head? ≠ some '&') (hb : c = '!' → rest.head? ≠ some '=') :
    scan word (c :: rest) = (scan [] rest).map fun ts => flush word (t :: ts) := by
  have hname : isNameChar c = false ∧ c ≠ ' ' ∧ c ≠ '|' ∧ c ≠ '=' := by
    unfold sign? at h
    split at h <;> first | decide | simp at h
  obtain ⟨hname, hblank, hbar, heq⟩ := hname
  rw [scan]
  · cases scan [] rest <;> simp [hname, hblank, h]
  all_goals grind

/-- The blanks around a binary operator end the word before it and are not read themselves. No other
    token is printed with blanks on both sides, so this case stands apart from those of the single
    signs. -/
theorem scan_operator (word rest : List Char) (op : BinaryOp) :
    scan word ((Token.operator op).text ++ rest)
      = (scan [] rest).map fun ts => flush word (.operator op :: ts) := by
  have hsign : scan [] (op.symbol.toList ++ ' ' :: rest)
      = (scan [] rest).map fun ts => .operator op :: ts := by
    cases op with
    | or | and | eq | ne => simp [BinaryOp.symbol, scan, scan_space, flush]
    | lt =>
      have h := scan_sign [] (' ' :: rest) (c := '<') rfl (by simp) (by simp)
      simpa [BinaryOp.symbol, scan_space, flush] using h
    | gt =>
      have h := scan_sign [] (' ' :: rest) (c := '>') rfl (by simp) (by simp)
      simpa [BinaryOp.symbol, scan_space, flush] using h
  have htext : (Token.operator op).text ++ rest = ' ' :: (op.symbol.toList ++ ' ' :: rest) := by
    simp [Token.text]
  rw [htext, scan_blank, hsign, Option.map_map]
  rfl

/-- Whether the word of a token is an identifier. -/
def Token.isSound : Token → Bool
  | .word name => isIdentifier name
  | _ => true

theorem isIdentifier_chars {name : String} (h : isIdentifier name) :
    name.toList ≠ [] ∧ ∀ c ∈ name.toList, isNameChar c := by
  simp only [isIdentifier, Bool.and_eq_true, List.all_eq_true] at h
  exact ⟨by simpa using h.1.1.1, h.1.1.2⟩

/-- The characters of a name are read as part of one word. -/
theorem scan_name {name : List Char} (h : ∀ c ∈ name, isNameChar c) (word rest : List Char) :
    scan word (name ++ rest) = scan (word ++ name) rest := by
  induction name generalizing word with
  | nil => simp
  | cons c name ih =>
    rw [List.cons_append, scan_nameChar (h c (by simp)), ih fun d hd => h d (by simp [hd])]
    simp

/-- What the layout of tokens starts with tells the signs of two characters apart. Of the signs that
    a second character could extend there are two, for negation and for addresses, and only the
    latter can be followed by its own. -/
theorem head_layout {ts : List Token} (hts : ∀ t ∈ ts, t.isSound) :
    (layout ts).head? ≠ some '=' ∧ ((layout ts).head? = some '&' → ts.head? = some .amp) := by
  cases ts with
  | nil => simp [layout]
  | cons t ts =>
    cases t with
    -- -- A name begins with a character of its own class, which no sign is.
    | word name =>
      obtain ⟨hne, hchars⟩ := isIdentifier_chars (hts (.word name) (by simp))
      obtain ⟨c, cs, hname⟩ := List.exists_cons_of_ne_nil hne
      have hc : isNameChar c := hchars c (by simp [hname])
      have hhead : (layout (.word name :: ts)).head? = some c := by
        simp [layout, Token.text, hname]
      have heq : isNameChar '=' = false := by decide
      have hamp : isNameChar '&' = false := by decide
      rw [hhead]
      constructor
      · rintro ⟨⟩; simp [heq] at hc
      · rintro ⟨⟩; simp [hamp] at hc
    | _ => simp [layout, Token.text]

/-- Of two tokens side by side at most one is a word. Two words would run into one when they are
    written without a blank. -/
def Apart (s t : Token) : Prop := ¬(s.isWord ∧ t.isWord)

/-- The layout of tokens is read as these tokens, where two address signs are one operator. By
    induction along the joined tokens, with the letters of a word that has been started. Where words
    are apart, none runs into the next. -/
theorem scan_layout {ts : List Token} (hts : ∀ t ∈ ts, t.isSound) (hapart : ts.IsChain Apart)
    (word : List Char) (hword : word ≠ [] → ∀ t ∈ ts.head?, ¬ t.isWord) :
    scan word (layout ts) = some (flush word (joined ts)) := by
  fun_induction joined ts generalizing word with
  | case1 rest ih =>
    -- Two address signs in a row are scanned as one operator, which is what `joined` makes of them.
    have hrest := ih (fun t ht => hts t (by simp [ht])) hapart.tail.tail [] (by simp)
    have hlayout : layout (.amp :: .amp :: rest) = '&' :: '&' :: layout rest := rfl
    rw [hlayout, scan, hrest]
    rfl
  | case2 t rest hnot ih =>
    have hsound : ∀ u ∈ rest, u.isSound := fun u hu => hts u (by simp [hu])
    have hrest := ih hsound hapart.tail [] (by simp)
    obtain ⟨heq, hamp⟩ := head_layout hsound
    have hlayout : layout (t :: rest) = t.text ++ layout rest := rfl
    rw [hlayout]
    cases t with
    | word name =>
      -- A word cannot follow a word, so none has been started when this one begins.
      obtain rfl : word = [] := by
        by_contra hne
        exact hword hne (.word name) rfl rfl
      obtain ⟨hne, hchars⟩ := isIdentifier_chars (hts (.word name) (by simp))
      have hnext : ∀ t ∈ rest.head?, ¬ t.isWord := fun t ht hword =>
        (List.isChain_cons.mp hapart).1 t ht ⟨rfl, hword⟩
      rw [Token.text, scan_name hchars, List.nil_append, ih hsound hapart.tail _ fun _ => hnext]
      simp [flush, hne]
    | operator op =>
      rw [scan_operator, hrest]
      rfl
    | amp =>
      -- This sign stands alone: were a second to follow, the first case would have taken both.
      have hnext : (layout rest).head? ≠ some '&' := fun h => by
        obtain ⟨rest', rfl⟩ := List.head?_eq_some_iff.mp (hamp h)
        exact hnot rest' rfl rfl
      rw [Token.text, List.singleton_append, scan_sign _ _ rfl (fun _ => hnext) (by simp), hrest]
      rfl
    | bang =>
      rw [Token.text, List.singleton_append, scan_sign _ _ rfl (by simp) (fun _ => heq), hrest]
      rfl
    | comma =>
      rw [Token.text, List.cons_append, scan_sign _ _ rfl (by simp) (by simp),
        List.singleton_append, scan_space, hrest]
      rfl
    | star | dot | openParen | closeParen | openBracket | closeBracket =>
      rw [Token.text, List.singleton_append, scan_sign _ _ rfl (by simp) (by simp), hrest]
      rfl
  | case3 => rfl

/-! ## The tokens of a printed expression -/

/-- A name with a package is the package, a dot and the rest. Printing joins the two with a dot and
    reading takes them apart at the dot, so nothing else can be meant by such a name. -/
theorem qualifier_eq {name package member : String}
    (h : qualifier name = (some package, member)) : name = package ++ "." ++ member := by
  have hname := List.takeWhile_append_dropWhile (p := (· != '.')) (l := name.toList)
  unfold qualifier at h
  split at h
  · simp at h
  · next c rest hdrop =>
    have hdot : c = '.' := by
      have := List.head_dropWhile_not (· != '.') (l := name.toList) (by simp [hdrop])
      simpa [hdrop] using this
    simp only [Prod.mk.injEq, Option.some.injEq] at h
    rw [hdrop, hdot] at hname
    rw [← String.toList_inj, ← h.1, ← h.2]
    simp [hname]

/-- A name is an identifier alone, or a package and an identifier with a dot between them. In the
    second case the package is imported, and that is how a reader tells a qualified name from a
    selection. -/
theorem isName_cases {packages : List String} {name : String} (h : isName packages name) :
    (isIdentifier name ∧ name ∉ packages ∧ nameTokens name = [.word name])
      ∨ ∃ package member, package ∈ packages ∧ isIdentifier package ∧ isIdentifier member
        ∧ name = package ++ "." ++ member
        ∧ nameTokens name = [.word package, .dot, .word member] := by
  unfold isName at h
  split at h
  · next hq =>
    simp only [Bool.and_eq_true, Bool.not_eq_true', List.contains_eq_mem, decide_eq_false_iff_not]
      at h
    exact .inl ⟨h.1, h.2, by simp [nameTokens, hq]⟩
  · next package member hq =>
    simp only [Bool.and_eq_true, List.contains_eq_mem, decide_eq_true_eq] at h
    exact .inr ⟨package, member, h.1.1, h.1.2, h.2, qualifier_eq hq, by simp [nameTokens, hq]⟩

theorem layout_nameTokens {packages : List String} {name : String} (h : isName packages name) :
    layout (nameTokens name) = name.toList := by
  obtain ⟨-, -, htokens⟩ | ⟨package, member, -, -, -, rfl, htokens⟩ := isName_cases h
  · simp [htokens, layout, Token.text]
  · simp [htokens, layout, Token.text]

/-- Parentheses are printed around a text where they are put around its tokens. -/
theorem layout_enclosed (parens : Bool) {ts : List Token} {text : String}
    (h : text.toList = layout ts) :
    (Printer.parenthesized parens text).toList = layout (enclosed parens ts) := by
  cases parens
  · exact h
  · simp [Printer.parenthesized, enclosed, layout, Token.text, h]

mutual

/-- The text of an expression is that of its tokens. The printer writes text and knows no tokens.
    This lemma is the one place where its text is taken apart. -/
theorem toList_expr {packages : List String} (indent : Nat) : ∀ {e : Expr}, isSimple packages e →
    (Printer.expr indent e).toList = layout (tokens e)
  | .ident name, h => by
    rw [Printer.expr, tokens, layout_nameTokens (by simpa [isSimple] using h)]
  | .field base name, h => by
    simp only [isSimple, Bool.and_eq_true] at h
    simp [Printer.expr, tokens, toList_expr indent h.1, layout, Token.text]
  | .index base idx, h => by
    simp only [isSimple, Bool.and_eq_true] at h
    simp [Printer.expr, tokens, toList_expr indent h.1, toList_expr indent h.2, layout, Token.text]
  | .deref inner, h => by
    simp [Printer.expr, tokens, toList_expr indent (e := inner) h, layout, Token.text]
  | .addr inner, h => by
    simp [Printer.expr, tokens, toList_expr indent (e := inner) h, layout, Token.text]
  | .not inner, h => by
    have hinner := layout_enclosed (Printer.isBinary inner) (toList_expr indent (e := inner) h)
    simp [Printer.expr, tokens, hinner, layout, Token.text]
  | .call func args, h => by
    simp only [isSimple, Bool.and_eq_true] at h
    have hfunc := layout_nameTokens h.1
    have hargs := toList_exprs indent h.2
    rw [layout] at hfunc hargs
    simp [Printer.expr, tokens, layout, Token.text, hfunc, hargs]
  | .binary op lhs rhs, h => by
    simp only [isSimple, Bool.and_eq_true] at h
    have hl := layout_enclosed (Printer.needsParens op lhs) (toList_expr indent h.1)
    have hr := layout_enclosed (Printer.needsParens op rhs) (toList_expr indent h.2)
    simp [Printer.expr, tokens, hl, hr, layout, Token.text]

/-- The text of arguments is that of their tokens, with commas between them. By mutual induction
    with `toList_expr`, as arguments are expressions. -/
theorem toList_exprs {packages : List String} (indent : Nat) : ∀ {es : List Expr},
    areSimple packages es →
      (Printer.commaSeparated (Printer.exprs indent es)).toList = layout (listTokens es)
  | [], _ => rfl
  | [e], h => by
    simp only [areSimple, Bool.and_eq_true] at h
    simp [Printer.exprs, Printer.commaSeparated, listTokens, toList_expr indent h.1]
  | e :: e' :: rest, h => by
    rw [areSimple, Bool.and_eq_true] at h
    have hrest := toList_exprs indent h.2
    rw [Printer.commaSeparated, Printer.exprs] at hrest
    rw [Printer.commaSeparated, Printer.exprs, Printer.exprs, String.intercalate_cons_cons,
      String.toList_append, String.toList_append, hrest, toList_expr indent h.1]
    simp [listTokens, layout, Token.text]

end

/-- Tokens that are read as what they are: words are identifiers, and no two stand side by side.
    Signs may stand anywhere, but for those of two address signs, which `joined` accounts for. -/
structure Legible (ts : List Token) : Prop where
  sound : ∀ t ∈ ts, t.isSound
  apart : ts.IsChain Apart

namespace Legible

/-- No tokens at all are read as what they are. -/
theorem nil : Legible [] := ⟨by simp, .nil⟩

theorem word {name : String} (h : isIdentifier name) : Legible [.word name] :=
  ⟨by simpa [Token.isSound] using h, .singleton _⟩

/-- A sign separates what stands to its left from what stands to its right. It is no word, so what
    stands beside it may be one. -/
theorem join {ts us : List Token} {t : Token} (hts : Legible ts) (hus : Legible us)
    (ht : t.isWord = false) : Legible (ts ++ t :: us) where
  sound u hu := by
    have hsign : t.isSound := by cases t <;> first | rfl | simp [Token.isWord] at ht
    obtain hu | rfl | hu := by simpa using hu
    exacts [hts.sound u hu, hsign, hus.sound u hu]
  apart := List.isChain_append.mpr ⟨hts.apart,
    List.isChain_cons.mpr ⟨fun u _ h => by simp [ht] at h, hus.apart⟩,
    fun s _ u hu h => by
      obtain rfl := by simpa using hu
      simp [ht] at h⟩

theorem sign {us : List Token} {t : Token} (hus : Legible us) (ht : t.isWord = false) :
    Legible (t :: us) :=
  nil.join hus ht

theorem enclosed {parens : Bool} {ts : List Token} (hts : Legible ts) :
    Legible (enclosed parens ts) := by
  cases parens
  · exact hts
  · exact (hts.join nil rfl).sign rfl

end Legible

theorem legible_nameTokens {packages : List String} {name : String} (h : isName packages name) :
    Legible (nameTokens name) := by
  obtain ⟨hname, -, htokens⟩ | ⟨package, member, -, hpackage, hmember, -, htokens⟩ := isName_cases h
  · exact htokens ▸ .word hname
  · exact htokens ▸ (Legible.word hpackage).join (.word hmember) rfl

mutual

/-- The tokens of an expression are legible, since a sign stands between any two of its parts.
    Without this, two words could stand next to each other and be read as one. -/
theorem legible_tokens {packages : List String} : ∀ {e : Expr}, isSimple packages e →
    Legible (tokens e)
  | .ident name, h => by
    rw [isSimple] at h
    exact legible_nameTokens h
  | .field base name, h => by
    simp only [isSimple, Bool.and_eq_true] at h
    exact (legible_tokens h.1).join (.word h.2) rfl
  | .index base idx, h => by
    simp only [isSimple, Bool.and_eq_true] at h
    exact (legible_tokens h.1).join ((legible_tokens h.2).join .nil rfl) rfl
  | .deref inner, h | .addr inner, h => by
    rw [isSimple] at h
    exact (legible_tokens h).sign rfl
  | .not inner, h => by
    rw [isSimple] at h
    exact (legible_tokens h).enclosed.sign rfl
  | .call func args, h => by
    simp only [isSimple, Bool.and_eq_true] at h
    exact (legible_nameTokens h.1).join ((legible_listTokens h.2).join .nil rfl) rfl
  | .binary op lhs rhs, h => by
    simp only [isSimple, Bool.and_eq_true] at h
    exact (legible_tokens h.1).enclosed.join (legible_tokens h.2).enclosed rfl

/-- The tokens of arguments are legible, since a comma stands between any two of them. -/
theorem legible_listTokens {packages : List String} : ∀ {es : List Expr}, areSimple packages es →
    Legible (listTokens es)
  | [], _ => .nil
  | [e], h => by
    simp only [areSimple, Bool.and_eq_true] at h
    exact legible_tokens h.1
  | e :: e' :: rest, h => by
    rw [areSimple, Bool.and_eq_true] at h
    exact (legible_tokens h.1).join (legible_listTokens h.2) rfl

end

/-- The text of an expression is read as its tokens. -/
theorem scan_expr {packages : List String} {e : Expr} (h : isSimple packages e) (indent : Nat) :
    scan [] (Printer.expr indent e).toList = some (joined (tokens e)) := by
  have hlegible := legible_tokens h
  rw [toList_expr indent h, scan_layout hlegible.sound hlegible.apart [] (by simp)]
  rfl

end Expr
end Shapewright
