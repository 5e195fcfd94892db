import Shapewright.Filter.Syntax
import Shapewright.Filter.Token

/-!
# The grammar of filters

Reading a filter takes the names that are known at the place. A name that is not known there makes
the filter as wrong as a missing bracket would.

Operators are read by their levels. A term is read with the least level at which it may be split,
and goes on as long as an operator at that level or above follows. Two things depend on the place:
inside the arguments of an object a comma ends the entry instead of joining, and a definition may
stand before any term.

Reading takes fuel because a place can be read as several things one after another without taking a
token. Eight steps for each token are enough for that.
-/

namespace Shapewright
namespace Filter

/-- The names known at a place. -/
structure Names where
  /-- Functions, each with its number of parameters. -/
  functions : List (String × Nat) := []
  values : List String := []
  labels : List String := []

namespace Names

/-- The names with one more function. -/
def withFunction (names : Names) (name : String) (arity : Nat) : Names :=
  { names with functions := (name, arity) :: names.functions }

/-- Inside a function: a parameter is a function without parameters, and also a value if its value
    is computed before the call. -/
def withParam (names : Names) : Param → Names
  | .byName name => names.withFunction name 0
  | .byValue name => { names.withFunction name 0 with values := name :: names.values }

end Names

mutual

/-- The names a binder gives. -/
def Binder.names : Binder → List String
  | .var name => [name]
  | .array items => Binder.namesOfList items
  | .object entries => Binder.namesOfEntries entries

/-- The names that binders give. -/
def Binder.namesOfList : List Binder → List String
  | [] => []
  | b :: rest => Binder.names b ++ Binder.namesOfList rest

/-- The names that the binders of an object give. -/
def Binder.namesOfEntries : List (Filter × Binder) → List String
  | [] => []
  | (_, b) :: rest => Binder.names b ++ Binder.namesOfEntries rest

end

namespace Grammar

/-- Words that are no names of functions. -/
def keywords : List String :=
  ["def", "if", "then", "elif", "else", "end", "try", "catch", "label", "break", "reduce",
   "foreach", "as", "and", "or", "import", "include"]

/-- Takes a symbol. -/
def symbol (s : String) : List Token → Option (List Token)
  | .symbol t :: rest => if t = s then some rest else none
  | _ => none

/-- Takes a keyword. -/
def keyword (s : String) : List Token → Option (List Token)
  | .word t :: rest => if t = s then some rest else none
  | _ => none

/-- The operator of a symbol or word, with how closely it binds. The lower the number, the more of
    the filter is on either side. -/
def operator? : Token → Option (Operator × Nat)
  | .symbol s =>
    match s with
    | "|" => some (.pipe, 0)
    | "," => some (.comma, 1)
    | "=" => some (.assign, 2)
    | "|=" => some (.update, 2)
    | "+=" => some (.updateBy .add, 2)
    | "-=" => some (.updateBy .sub, 2)
    | "*=" => some (.updateBy .mul, 2)
    | "/=" => some (.updateBy .div, 2)
    | "%=" => some (.updateBy .rem, 2)
    | "//=" => some (.updateAlternative, 2)
    | "//" => some (.alternative, 3)
    | "==" => some (.compare .eq, 6)
    | "!=" => some (.compare .ne, 6)
    | "<" => some (.compare .lt, 7)
    | "<=" => some (.compare .le, 7)
    | ">" => some (.compare .gt, 7)
    | ">=" => some (.compare .ge, 7)
    | "+" => some (.arith .add, 8)
    | "-" => some (.arith .sub, 8)
    | "*" => some (.arith .mul, 9)
    | "/" => some (.arith .div, 9)
    | "%" => some (.arith .rem, 10)
    | _ => none
  | .word "or" => some (.or, 4)
  | .word "and" => some (.and, 5)
  | _ => none

/-- The least level of an operator on the right of one at `level`: pipes and assignments group to
    the right, all others to the left. -/
def rightLevel (level : Nat) : Nat := if level = 0 ∨ level = 2 then level else level + 1

/-- Whether the errors of a step are ignored, which question marks after it say. -/
def ignoring : List Token → Bool × List Token
  | .symbol "?" :: rest => (true, (ignoring rest).2)
  | tokens => (false, tokens)

mutual

/-- A filter whose operators bind at `level` or closer; `comma` tells whether a comma may join. -/
def term : (fuel : Nat) → Names → (level : Nat) → (comma : Bool) → List Token →
    Option (Filter × List Token)
  | 0, _, _, _, _ => none
  | fuel + 1, names, level, comma, tokens => do
    let (f, rest) ← postfixed fuel names tokens
    joined fuel names level comma f rest

/-- Goes on after the left side of an operator. It takes operators as long as they bind at least as
    closely as `level`. A comma is an operator only where it does not separate entries or
    arguments. -/
def joined : (fuel : Nat) → Names → (level : Nat) → (comma : Bool) → Filter → List Token →
    Option (Filter × List Token)
  | 0, _, _, _, _, _ => none
  | _ + 1, _, _, _, left, [] => some (left, [])
  | fuel + 1, names, level, comma, left, token :: rest =>
    match token with
    | .word "as" =>
      if level > 0 then some (left, token :: rest)
      else do
        let (b, rest) ← binder fuel names rest
        let rest ← symbol "|" rest
        let names := { names with values := b.names ++ names.values }
        let (body, rest) ← term fuel names 0 comma rest
        return (.bind left b body, rest)
    | _ =>
      match operator? token with
      | some (op, at_) =>
        if at_ < level ∨ (op = .comma ∧ !comma) then some (left, token :: rest)
        else do
          let (right, rest) ← term fuel names (rightLevel at_) comma rest
          joined fuel names level comma (.binary op left right) rest
      | none => some (left, token :: rest)

/-- A filter with the steps after it. -/
def postfixed : (fuel : Nat) → Names → List Token → Option (Filter × List Token)
  | 0, _, _ => none
  | fuel + 1, names, tokens => do
    let (f, rest) ← atom fuel names tokens
    let (found, rest) ← steps fuel names rest
    let f := if found.isEmpty then f else .path f found
    let (ignored, rest) := ignoring rest
    return (if ignored then .guarded f none else f, rest)

/-- The steps after a filter. Each is marked if a question mark follows, by which its errors are
    ignored. -/
def steps : (fuel : Nat) → Names → List Token → Option (List (Step × Bool) × List Token)
  | 0, _, _ => none
  | fuel + 1, names, tokens => do
    let step? ← match tokens with
      | .field s :: rest => pure (some (.at (.literal (.string s)), rest))
      | .symbol "." :: .textOpen :: rest => do
        let (f, rest) ← text fuel names none rest
        pure (some (.at f, rest))
      | .symbol "." :: .symbol "[" :: rest => (bracketed fuel names rest).map some
      | .symbol "[" :: rest => (bracketed fuel names rest).map some
      | _ => pure none
    match step? with
    | none => return ([], tokens)
    | some (step, rest) =>
      let (ignored, rest) := ignoring rest
      let (more, rest) ← steps fuel names rest
      return ((step, ignored) :: more, rest)

/-- A step from inside its bracket. An index, either end of a slice or both, or nothing for every
    part. -/
def bracketed : (fuel : Nat) → Names → List Token → Option (Step × List Token)
  | 0, _, _ => none
  | fuel + 1, names, tokens =>
    match tokens with
    | .symbol "]" :: rest => some (.each, rest)
    | .symbol ":" :: rest => do
      let (high, rest) ← term fuel names 0 true rest
      return (.slice none (some high), ← symbol "]" rest)
    | _ => do
      let (low, rest) ← term fuel names 0 true tokens
      match rest with
      | .symbol "]" :: rest => return (.at low, rest)
      | .symbol ":" :: .symbol "]" :: rest => return (.slice (some low) none, rest)
      | .symbol ":" :: rest => do
        let (high, rest) ← term fuel names 0 true rest
        return (.slice (some low) (some high), ← symbol "]" rest)
      | _ => none

/-- A filter that no operator splits. Names of variables and functions have to be known, as what is
    read is evaluated without further checks. -/
def atom : (fuel : Nat) → Names → List Token → Option (Filter × List Token)
  | 0, _, _ => none
  | _ + 1, _, [] => none
  | fuel + 1, names, token :: rest =>
    match token with
    | .number v => some (.literal v, rest)
    | .dollar name => if names.values.contains name then some (.var name, rest) else none
    | .textOpen => text fuel names none rest
    | .format name =>
      match rest with
      | .textOpen :: rest => text fuel names (some name) rest
      | _ => if names.functions.contains ("@" ++ name, 0) then some (.call ("@" ++ name) [], rest)
        else none
    | .field _ => some (.identity, token :: rest)
    | .symbol "." =>
      match rest with
      | .textOpen :: _ => some (.identity, token :: rest)
      | _ => some (.identity, rest)
    | .symbol ".." => some (.everything, rest)
    | .symbol "-" => do
      let (f, rest) ← postfixed fuel names rest
      return (.negate f, rest)
    | .symbol "(" => do
      let (f, rest) ← term fuel names 0 true rest
      return (f, ← symbol ")" rest)
    | .symbol "[" =>
      match rest with
      | .symbol "]" :: rest => some (.array none, rest)
      | _ => do
        let (f, rest) ← term fuel names 0 true rest
        return (.array (some f), ← symbol "]" rest)
    | .symbol "\x7b" =>
      match rest with
      | .symbol "\x7d" :: rest => some (.object [], rest)
      | _ => do
        let (found, rest) ← entries fuel names rest
        return (.object found, rest)
    | .word s =>
      match s with
      | "def" => do
        let (name, params, body, rest) ← definition fuel names rest
        let (f, rest) ← term fuel (names.withFunction name params.length) 0 true rest
        return (.define name params body f, rest)
      | "if" => branches fuel names rest
      | "try" => do
        let (f, rest) ← postfixed fuel names rest
        match rest with
        | .word "catch" :: rest => do
          let (handler, rest) ← postfixed fuel names rest
          return (.guarded f (some handler), rest)
        | _ => return (.guarded f none, rest)
      | "label" =>
        match rest with
        | .dollar name :: .symbol "|" :: rest => do
          let (f, rest) ← term fuel { names with labels := name :: names.labels } 0 true rest
          return (.label name f, rest)
        | _ => none
      | "break" =>
        match rest with
        | .dollar name :: rest =>
          if names.labels.contains name then some (.leave name, rest) else none
        | _ => none
      | "reduce" => folded fuel names false rest
      | "foreach" => folded fuel names true rest
      | _ =>
        if keywords.contains s then none
        else do
          let (args, rest) ← match rest with
            | .symbol "(" :: rest => arguments fuel names rest
            | _ => pure ([], rest)
          if names.functions.contains (s, args.length) then return (.call s args, rest) else none
    | _ => none

/-- The arguments of a call, from inside its parenthesis. -/
def arguments : (fuel : Nat) → Names → List Token → Option (List Filter × List Token)
  | 0, _, _ => none
  | fuel + 1, names, tokens => do
    let (f, rest) ← term fuel names 0 true tokens
    match rest with
    | .symbol ";" :: rest => do
      let (more, rest) ← arguments fuel names rest
      return (f :: more, rest)
    | _ => return ([f], ← symbol ")" rest)

/-- A choice, from after its first word. Another condition may follow, or what is done otherwise.
    Without either, the input is passed on. -/
def branches : (fuel : Nat) → Names → List Token → Option (Filter × List Token)
  | 0, _, _ => none
  | fuel + 1, names, tokens => do
    let (condition, rest) ← term fuel names 0 true tokens
    let (yes, rest) ← term fuel names 0 true (← keyword "then" rest)
    match rest with
    | .word "elif" :: rest => do
      let (no, rest) ← branches fuel names rest
      return (.choice condition yes no, rest)
    | .word "else" :: rest => do
      let (no, rest) ← term fuel names 0 true rest
      return (.choice condition yes no, ← keyword "end" rest)
    | _ => return (.choice condition yes .identity, ← keyword "end" rest)

/-- A fold, from after its first word. The source is bound piece by piece around the update. Only
    what gives all states may have a third part. -/
def folded : (fuel : Nat) → Names → (all : Bool) → List Token → Option (Filter × List Token)
  | 0, _, _, _ => none
  | fuel + 1, names, all, tokens => do
    let (source, rest) ← postfixed fuel names tokens
    let (b, rest) ← binder fuel names (← keyword "as" rest)
    let (start, rest) ← term fuel names 0 true (← symbol "(" rest)
    let inner := { names with values := b.names ++ names.values }
    let (update, rest) ← term fuel inner 0 true (← symbol ";" rest)
    match all, rest with
    | true, .symbol ";" :: rest => do
      let (project, rest) ← term fuel inner 0 true rest
      return (.foreach source b start update (some project), ← symbol ")" rest)
    | true, _ => return (.foreach source b start update none, ← symbol ")" rest)
    | false, _ => return (.reduce source b start update, ← symbol ")" rest)

/-- A text, from inside it. -/
def text : (fuel : Nat) → Names → (format : Option String) → List Token →
    Option (Filter × List Token)
  | 0, _, _, _ => none
  | fuel + 1, names, format, tokens => do
    let known := match format with
      | some name => names.functions.contains ("@" ++ name, 0)
      | none => true
    let (parts, rest) ← textParts fuel names tokens
    if known then return (.text format parts, rest) else none

/-- The parts of a text. Plain pieces and holes alternate as they come, up to the closing quote. -/
def textParts : (fuel : Nat) → Names → List Token → Option (List TextPart × List Token)
  | 0, _, _ => none
  | fuel + 1, names, tokens =>
    match tokens with
    | .textClose :: rest => some ([], rest)
    | .textPlain s :: rest => do
      let (more, rest) ← textParts fuel names rest
      return (.plain s :: more, rest)
    | .holeOpen :: rest => do
      let (f, rest) ← term fuel names 0 true rest
      match rest with
      | .holeClose :: rest => do
        let (more, rest) ← textParts fuel names rest
        return (.hole f :: more, rest)
      | _ => none
    | _ => none

/-- The entries of an object, from inside its bracket. There is at least one, and a comma may stand
    behind the last. -/
def entries : (fuel : Nat) → Names → List Token → Option (List (Filter × Filter) × List Token)
  | 0, _, _ => none
  | fuel + 1, names, tokens => do
    let (found, rest) ← entry fuel names tokens
    match rest with
    | .symbol "," :: .symbol "\x7d" :: rest => return ([found], rest)
    | .symbol "," :: rest => do
      let (more, rest) ← entries fuel names rest
      return (found :: more, rest)
    | _ => return ([found], ← symbol "\x7d" rest)

/-- An entry of an object. A key alone stands for the member of that name. A variable alone stands
    for a member of its name with its value. -/
def entry : (fuel : Nat) → Names → List Token → Option ((Filter × Filter) × List Token)
  | 0, _, _ => none
  | fuel + 1, names, tokens =>
    match tokens with
    | .symbol "(" :: rest => do
      let (k, rest) ← term fuel names 0 true rest
      let (v, rest) ← term fuel names 0 false (← symbol ":" (← symbol ")" rest))
      return ((k, v), rest)
    | .dollar name :: rest =>
      if names.values.contains name then some ((.literal (.string name), .var name), rest)
      else none
    | _ => do
      let (k, rest) ← match tokens with
        | .word s :: rest => pure (Filter.literal (.string s), rest)
        | .textOpen :: rest => text fuel names none rest
        | .format name :: .textOpen :: rest => text fuel names (some name) rest
        | _ => none
      match rest with
      | .symbol ":" :: rest => do
        let (v, rest) ← term fuel names 0 false rest
        return ((k, v), rest)
      | _ => return ((k, .path .identity [(.at k, false)]), rest)

/-- A binder. A variable, or an array or an object of binders, which takes a value apart. -/
def binder : (fuel : Nat) → Names → List Token → Option (Binder × List Token)
  | 0, _, _ => none
  | fuel + 1, names, tokens =>
    match tokens with
    | .dollar name :: rest => some (.var name, rest)
    | .symbol "[" :: rest => do
      let (items, rest) ← binders fuel names rest
      return (.array items, rest)
    | .symbol "\x7b" :: rest => do
      let (found, rest) ← boundEntries fuel names rest
      return (.object found, rest)
    | _ => none

/-- The binders of an array, from inside its bracket. -/
def binders : (fuel : Nat) → Names → List Token → Option (List Binder × List Token)
  | 0, _, _ => none
  | fuel + 1, names, tokens => do
    let (b, rest) ← binder fuel names tokens
    match rest with
    | .symbol "," :: rest => do
      let (more, rest) ← binders fuel names rest
      return (b :: more, rest)
    | _ => return ([b], ← symbol "]" rest)

/-- The binders of an object, from inside its bracket. A variable alone is bound to the member of
    its name. -/
def boundEntries : (fuel : Nat) → Names → List Token → Option (List (Filter × Binder) × List Token)
  | 0, _, _ => none
  | fuel + 1, names, tokens => do
    let (found, rest) ← match tokens with
      | .dollar name :: rest => pure ((Filter.literal (.string name), Binder.var name), rest)
      | .symbol "(" :: rest => do
        let (k, rest) ← term fuel names 0 true rest
        let (b, rest) ← binder fuel names (← symbol ":" (← symbol ")" rest))
        pure ((k, b), rest)
      | .word s :: rest => do
        let (b, rest) ← binder fuel names (← symbol ":" rest)
        pure ((Filter.literal (.string s), b), rest)
      | .textOpen :: rest => do
        let (k, rest) ← text fuel names none rest
        let (b, rest) ← binder fuel names (← symbol ":" rest)
        pure ((k, b), rest)
      | _ => none
    match rest with
    | .symbol "," :: rest => do
      let (more, rest) ← boundEntries fuel names rest
      return (found :: more, rest)
    | _ => return ([found], ← symbol "\x7d" rest)

/-- A definition, from after its first word. A function may call itself. Its parameters are
    functions in its body, and those that are given by value are variables too. -/
def definition : (fuel : Nat) → Names → List Token →
    Option (String × List Param × Filter × List Token)
  | 0, _, _ => none
  | fuel + 1, names, tokens =>
    match tokens with
    | .word name :: rest => do
      let (params, rest) ← match rest with
        | .symbol "(" :: rest => parameters fuel rest
        | _ => pure ([], rest)
      let known := params.foldl Names.withParam (names.withFunction name params.length)
      let (body, rest) ← term fuel known 0 true (← symbol ":" rest)
      if keywords.contains name then none
      else return (name, params, body, ← symbol ";" rest)
    | _ => none

/-- The parameters of a function, from inside their parenthesis. They are separated by semicolons,
    and there is at least one. -/
def parameters : (fuel : Nat) → List Token → Option (List Param × List Token)
  | 0, _ => none
  | fuel + 1, tokens => do
    let (p, rest) ← match tokens with
      | .word name :: rest => pure (Param.byName name, rest)
      | .dollar name :: rest => pure (.byValue name, rest)
      | _ => none
    match rest with
    | .symbol ";" :: rest => do
      let (more, rest) ← parameters fuel rest
      return (p :: more, rest)
    | _ => return ([p], ← symbol ")" rest)

end

/-- The steps that reading so many tokens may take. -/
def fuelFor (tokens : List Token) : Nat := 8 * tokens.length + 8

/-- Definitions one after another, each seeing those before it. -/
def definitions : (fuel : Nat) → Names → List Token →
    Option (List (String × List Param × Filter) × Names)
  | 0, _, _ => none
  | _ + 1, names, [] => some ([], names)
  | fuel + 1, names, tokens => do
    let rest ← keyword "def" tokens
    let (name, params, body, rest) ← definition (fuelFor rest) names rest
    let (more, names) ← definitions fuel (names.withFunction name params.length) rest
    return ((name, params, body) :: more, names)

/-- The whole text as a filter. -/
def read? (names : Names) (text : String) : Option Filter := do
  let tokens ← Token.ofText text
  match ← term (fuelFor tokens) names 0 true tokens with
  | (f, []) => some f
  | _ => none

end Grammar
end Filter
end Shapewright
