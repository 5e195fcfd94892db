import Shapewright.Code
import Shapewright.Decimal.Layout
import Shapewright.Text.Blank
import Shapewright.Text.Lines
import Shapewright.Text.Quoted

/-!
# Printing code

Code is written as Go, in the shape the Go formatter gives it: one statement a line, indented by
tabs. Binary operands are put in parentheses only where their operator binds less tightly than the
one around them.

A function takes the indentation of the line that its result starts on, since struct types and
composite literals go over several lines and their inner lines have to be indented further. The
result of an expression is without a line break at its end, and that of a statement has one.

The printer does not check anything. In particular it puts no parentheses around the operand of a
selector or of a pointer operator, so a tree that needs such ones is printed as the text of another
tree.
-/

namespace Shapewright

namespace Primitive

/-- The native type of a kind. Every kind has one, and no two kinds have the same, so a kind can be
    told from its printed type. -/
def native : Primitive → String
  | .boolean => "bool"
  | .int => "int"
  | .int32 => "int32"
  | .int64 => "int64"
  | .uint => "uint"
  | .uint32 => "uint32"
  | .uint64 => "uint64"
  | .float32 => "float32"
  | .float64 => "float64"
  | .string => "string"
  | .bytes => "[]byte"
  | .any => "any"

end Primitive

namespace BinaryOp

/-- How tightly an operator binds. -/
def precedence : BinaryOp → Nat
  | .or => 1
  | .and => 2
  | .eq | .ne | .lt | .gt => 3

def symbol : BinaryOp → String
  | .or => "||"
  | .and => "&&"
  | .eq => "=="
  | .ne => "!="
  | .lt => "<"
  | .gt => ">"

end BinaryOp

namespace Printer

/-- So many tabs. -/
def tabs (n : Nat) : String := String.ofList (List.replicate n '\t')

/-- Texts with a comma and a blank between them. -/
def commaSeparated (texts : List String) : String := ", ".intercalate texts

/-- A doc comment, one line of comment for each of its lines. A text of several lines gives as many
    lines of comment, each at the indentation of what follows. -/
def docComment (doc : Option String) (indent : Nat) : String :=
  match doc with
  | none => ""
  | some text =>
    String.join ((Text.lines text).map fun line => tabs indent ++ "// " ++ line ++ "\n")

mutual

/-- A type that starts on a line at `indent`. -/
def typeRef (indent : Nat) : TypeRef → String
  | .primitive p => p.native
  | .named (some pkg) name => pkg ++ "." ++ name
  | .named none name => name
  | .pointer inner => "*" ++ typeRef indent inner
  | .slice elem => "[]" ++ typeRef indent elem
  | .map key elem => "map[" ++ typeRef indent key ++ "]" ++ typeRef indent elem
  | .struct fields => "struct \x7b\n" ++ structFields indent fields ++ tabs indent ++ "\x7d"
  | .error => "error"

/-- The fields of a struct that starts on a line at `indent`. Each on a line of its own with its
    comment above, one tab further in than the struct. -/
def structFields (indent : Nat) : List (StructField TypeRef) → String
  | [] => ""
  | ⟨name, type, doc⟩ :: rest =>
    docComment doc (indent + 1) ++ tabs (indent + 1) ++ name ++ " " ++ typeRef (indent + 1) type
      ++ "\n" ++ structFields indent rest

end

/-- The type of the items of a composite literal. -/
def itemType : TypeRef → TypeRef
  | .slice elem => elem
  | _ => .primitive .any

/-- Whether an integral float is written without a point: it is where the type is a primitive kind
    that holds no floats. -/
def isPlainNumber : TypeRef → Bool
  | .primitive p => !p.isFloat
  | _ => false

/-- A literal of a type. A float keeps a point unless its type is a primitive of another kind, so
    that what is read back is a float again. -/
def floatLiteral (x : Float) (type : TypeRef) : String :=
  let text := Decimal.codeLayout.text x
  if text.toList.any (fun c => c == '.' || c == 'e' || c == 'E') || isPlainNumber type then text
  else text ++ ".0"

mutual

/-- A literal of a type. -/
def literal : Literal → TypeRef → String
  | .bool b, _ => if b then "true" else "false"
  | .integer i, _ => toString i
  | .float x, type => floatLiteral x type
  | .string s, _ => Text.Quoted.encode s
  | .array items, type =>
    typeRef 0 type ++ "\x7b" ++ commaSeparated (literals items (itemType type)) ++ "\x7d"

/-- The literals of the items of a composite literal. -/
def literals : List Literal → TypeRef → List String
  | [], _ => []
  | l :: rest, type => literal l type :: literals rest type

end

/-- The type in a conversion; a pointer needs parentheses. -/
def conversionType (indent : Nat) (type : TypeRef) : String :=
  if type.isPointer then "(" ++ typeRef indent type ++ ")" else typeRef indent type

/-- Whether an operand needs parentheses under an operator: it is a binary expression, and its
    operator binds less tightly. To the right that leaves out the parentheses of an operand of the
    same level. -/
def needsParens (op : BinaryOp) : Expr → Bool
  | .binary inner _ _ => inner.precedence < op.precedence
  | _ => false

/-- Whether an expression is one of a binary operator. -/
def isBinary : Expr → Bool
  | .binary .. => true
  | _ => false

/-- A text in parentheses, where they are needed. -/
def parenthesized (parens : Bool) (text : String) : String :=
  if parens then "(" ++ text ++ ")" else text

mutual

/-- An expression on a line at `indent`. Parentheses are written around operands that bind less
    closely, a negated binary expression and the pointer type of a conversion, and nowhere else. -/
def expr (indent : Nat) : Expr → String
  | .ident name => name
  | .field base name => expr indent base ++ "." ++ name
  | .index base idx => expr indent base ++ "[" ++ expr indent idx ++ "]"
  | .deref inner => "*" ++ expr indent inner
  | .addr inner => "&" ++ expr indent inner
  | .nil => "nil"
  | .lit value type => literal value type
  | .str s => Text.Quoted.encode s
  | .int i => toString i
  | .call func args => func ++ "(" ++ commaSeparated (exprs indent args) ++ ")"
  | .convert type value => conversionType indent type ++ "(" ++ expr indent value ++ ")"
  | .assert value type => expr indent value ++ ".(" ++ typeRef indent type ++ ")"
  | .composite type fields addr =>
    let head := (if addr then "&" else "") ++ typeRef indent type ++ "\x7b"
    if fields.isEmpty then head ++ "\x7d"
    else head ++ "\n" ++ compositeFields indent fields ++ tabs indent ++ "\x7d"
  | .sliceLit elem items =>
    "[]" ++ typeRef indent elem ++ "\x7b" ++ commaSeparated (exprs indent items) ++ "\x7d"
  | .make type len => "make(" ++ typeRef indent type ++ ", " ++ expr indent len ++ ")"
  | .len inner => "len(" ++ expr indent inner ++ ")"
  | .binary op lhs rhs =>
    parenthesized (needsParens op lhs) (expr indent lhs) ++ " " ++ op.symbol ++ " "
      ++ parenthesized (needsParens op rhs) (expr indent rhs)
  | .not inner => "!" ++ parenthesized (isBinary inner) (expr indent inner)

/-- Expressions on a line at `indent`. -/
def exprs (indent : Nat) : List Expr → List String
  | [] => []
  | e :: rest => expr indent e :: exprs indent rest

/-- The fields of a composite literal that starts on a line at `indent`. Each on a line of its own,
    with a comma behind the last one as well. -/
def compositeFields (indent : Nat) : List (String × Expr) → String
  | [] => ""
  | (name, value) :: rest =>
    tabs (indent + 1) ++ name ++ ": " ++ expr (indent + 1) value ++ ",\n"
      ++ compositeFields indent rest

end

/-- The variables of a `range` clause. A loop that needs no key has a blank in its place, and one
    that needs neither has no variables at all. -/
def rangeVariables : Option String → Option String → String
  | some k, some v => k ++ ", " ++ v ++ " := "
  | some k, none => k ++ " := "
  | none, some v => "_, " ++ v ++ " := "
  | none, none => ""

/-- A statement that stands before a condition: without the blank space at its end, and with its
    inner lines moved to the indentation of the condition. -/
def inlined (indent : Nat) (text : String) : String :=
  let moved := if indent == 0 then text.toList
    else text.toList.flatMap fun c => if c = '\n' then '\n' :: List.replicate indent '\t' else [c]
  String.ofList (moved.reverse.dropWhile Text.isBlank).reverse

mutual

/-- A statement on lines of its own at `indent`. Blocks are one tab further in. The statement in the
    head of a test is printed on a line of its own, of which the indentation and the end are then
    taken off. -/
def stmt (indent : Nat) : Stmt → String
  | .assign lhs rhs define =>
    tabs indent ++ expr indent lhs ++ (if define then " := " else " = ") ++ expr indent rhs ++ "\n"
  | .declare name type none => tabs indent ++ "var " ++ name ++ " " ++ typeRef indent type ++ "\n"
  | .declare name type (some value) =>
    tabs indent ++ "var " ++ name ++ " " ++ typeRef indent type ++ " = " ++ expr indent value
      ++ "\n"
  | .cond none test body otherwise =>
    tabs indent ++ "if " ++ expr indent test ++ " \x7b\n" ++ stmts (indent + 1) body
      ++ tabs indent ++ (if otherwise.isEmpty then "\x7d\n" else
        "\x7d else \x7b\n" ++ stmts (indent + 1) otherwise ++ tabs indent ++ "\x7d\n")
  | .cond (some init) test body otherwise =>
    tabs indent ++ "if " ++ inlined indent (stmt 0 init) ++ "; " ++ expr indent test ++ " \x7b\n"
      ++ stmts (indent + 1) body
      ++ tabs indent ++ (if otherwise.isEmpty then "\x7d\n" else
        "\x7d else \x7b\n" ++ stmts (indent + 1) otherwise ++ tabs indent ++ "\x7d\n")
  | .block body =>
    tabs indent ++ "\x7b\n" ++ stmts (indent + 1) body ++ tabs indent ++ "\x7d\n"
  | .range key value whole body =>
    tabs indent ++ "for " ++ rangeVariables key value ++ "range " ++ expr indent whole ++ " \x7b\n"
      ++ stmts (indent + 1) body ++ tabs indent ++ "\x7d\n"
  | .typeSwitch binding subject cases =>
    tabs indent ++ "switch " ++ binding ++ " := " ++ expr indent subject ++ ".(type) \x7b\n"
      ++ typeCases indent cases ++ tabs indent ++ "\x7d\n"
  | .switch subject cases fallback =>
    tabs indent ++ "switch " ++ expr indent subject ++ " \x7b\n" ++ valueCases indent cases
      ++ (if fallback.isEmpty then "" else
        tabs indent ++ "default:\n" ++ stmts (indent + 1) fallback)
      ++ tabs indent ++ "\x7d\n"
  | .ret values =>
    if values.isEmpty then tabs indent ++ "return\n"
    else tabs indent ++ "return " ++ commaSeparated (exprs indent values) ++ "\n"
  | .continue => tabs indent ++ "continue\n"
  | .expr e => tabs indent ++ expr indent e ++ "\n"

/-- Statements at `indent`. -/
def stmts (indent : Nat) : List Stmt → String
  | [] => ""
  | s :: rest => stmt indent s ++ stmts indent rest

/-- The cases of a switch over types. -/
def typeCases (indent : Nat) : List (TypeRef × List Stmt) → String
  | [] => ""
  | (type, body) :: rest =>
    tabs indent ++ "case " ++ typeRef indent type ++ ":\n" ++ stmts (indent + 1) body
      ++ typeCases indent rest

/-- The cases of a switch over values. -/
def valueCases (indent : Nat) : List (List Expr × List Stmt) → String
  | [] => ""
  | (values, body) :: rest =>
    tabs indent ++ "case " ++ commaSeparated (exprs indent values) ++ ":\n"
      ++ stmts (indent + 1) body ++ valueCases indent rest

end

end Printer

namespace TypeRef

def print (t : TypeRef) : String := Printer.typeRef 0 t

end TypeRef

namespace Expr

def print (e : Expr) : String := Printer.expr 0 e

end Expr

namespace Block

def print (b : Block) : String := Printer.stmts 0 b

end Block

namespace Param

def print (p : Param) : String :=
  match p.name with
  | some name => name ++ " " ++ p.type.print
  | none => p.type.print

end Param

namespace Func

/-- The results of a function, after its parameters. -/
def printResults : List Param → String
  | [] => ""
  | [⟨none, type⟩] => " " ++ type.print
  | results => " (" ++ Printer.commaSeparated (results.map Param.print) ++ ")"

def print (f : Func) : String :=
  Printer.docComment f.doc 0 ++ "func " ++ f.name ++ "("
    ++ Printer.commaSeparated (f.params.map Param.print) ++ ")" ++ printResults f.results
    ++ " \x7b\n" ++ Printer.stmts 1 f.body ++ "\x7d\n"

end Func

namespace TypeDecl

def print (d : TypeDecl) : String :=
  Printer.docComment d.doc 0 ++ "type " ++ d.name ++ " " ++ d.definition.print ++ "\n"

end TypeDecl

namespace Fragment

/-- Types first, then functions, with a blank line between declarations. -/
def print (f : Fragment) : String :=
  "\n".intercalate (f.types.map TypeDecl.print ++ f.funcs.map Func.print)

end Fragment
end Shapewright
