import Shapewright.Decimal.Integral
import Shapewright.Validation

/-!
# Checks of declared rules

Rules are checked on the native representation of a value, in a fixed order: enumeration, format,
pattern, lengths, bounds. Lengths of strings count characters. Bounds apply to numbers, lengths to
strings, bytes and collections.

A check is a condition that holds of a value which breaks the rule, and the error it merges names
the place, the value and the limit. The two ends of a range are one definition with a parameter
(`Limit`), since nothing differs but the comparison. Numbers of the rules become literals of the
kind that is compared, and a number that its type cannot hold is clipped or wraps around.
-/

namespace Shapewright
namespace Validation

/-- The two limits of a range, in the order in which they are checked. -/
inductive Limit where
  | lower
  | upper
deriving Repr, DecidableEq

namespace Limit

/-- The comparison that holds of a value beyond the limit. -/
def beyond : Limit → BinaryOp
  | .lower => .lt
  | .upper => .gt

/-- The argument of error functions that tells the limits apart. -/
def flag : Limit → Expr
  | .lower => .ident "true"
  | .upper => .ident "false"

end Limit

/-- A length in generated code is a signed integer of 64 bits. -/
def lengthBound (n : Nat) : Expr := .int ((n : Int).bmod (Nat.pow 2 64))

/-- The check of one limit on a length. -/
def lengthCheck (v : Validation) (limit : Limit) (len value : Expr) (path : String) (n : Nat) :
    Stmt :=
  v.mergeWhen (.binary limit.beyond len (lengthBound n))
    (v.report "InvalidLengthError" [.str path, value, len, lengthBound n, limit.flag])

/-- The checks of the length of a value. -/
def lengthChecks (v : Validation) (r : Rules) (len value : Expr) (path : String) : Block :=
  (r.minLength.map (v.lengthCheck .lower len value path)).toList
    ++ (r.maxLength.map (v.lengthCheck .upper len value path)).toList

/-- The length of a value of a primitive kind, if it has one. Texts are counted in characters and
    byte strings in bytes. -/
def lengthOf? (p : Primitive) (value : Expr) : Option Expr :=
  match p with
  | .string => some (.call "utf8.RuneCountInString" [value])
  | .bytes => some (.len value)
  | _ => none

/-- A bound as a literal of the kind it bounds: integral bounds of integers are integers, clipped
    to 64 bits. -/
def bound (x : Float) (p : Primitive) (native : TypeRef) : Expr :=
  match if p.isInteger then Decimal.integer? x else none with
  | some i => .lit (.integer (Decimal.saturated i)) native
  | none => .lit (.float x) native

/-- The check of one bound on a number. The bound that is compared is also the one that the error
    shows. -/
def rangeCheck (v : Validation) (limit : Limit) (p : Primitive) (native : TypeRef) (value : Expr)
    (path : String) (x : Float) : Stmt :=
  let edge := bound x p native
  v.mergeWhen (.binary limit.beyond value edge)
    (v.report "InvalidRangeError" [.str path, value, edge, limit.flag])

/-- The checks of the bounds of a number. The lower one comes first, and other kinds than numbers
    have none. -/
def rangeChecks (v : Validation) (r : Rules) (p : Primitive) (native : TypeRef) (value : Expr)
    (path : String) : Block :=
  if p.isInteger || p.isFloat then
    (r.minimum.map (v.rangeCheck .lower p native value path)).toList
      ++ (r.maximum.map (v.rangeCheck .upper p native value path)).toList
  else []

/-- The check that a value is one of those that are enumerated. An enumeration without values checks
    nothing. -/
def enumChecks (v : Validation) (r : Rules) (native : TypeRef) (value : Expr) (path : String) :
    Block :=
  match Expr.anyOf? (r.enum.map fun l => .binary .eq value (.lit l native)) with
  | none => []
  | some isListed =>
    [v.mergeWhen (.not isListed)
      (v.report "InvalidEnumValueError" [.str path, value, anySlice r.enum])]

/-- The check of a format. -/
def formatCheck (v : Validation) (value : Expr) (path : String) (f : Format) : Stmt :=
  v.merge (v.report "ValidateFormat"
    [.str path, value, .ident (v.reporting.runtime ++ ".Format" ++ f.ident)])

/-- The check of a pattern. -/
def patternCheck (v : Validation) (value : Expr) (path pattern : String) : Stmt :=
  v.merge (v.report "ValidatePattern" [.str path, value, .str pattern])

/-- The checks of the rules that apply to a primitive kind. They come in a fixed order, by which the
    checks of a field are always arranged alike. -/
def ruleChecks (v : Validation) (r : Rules) (p : Primitive) (native : TypeRef) (value : Expr)
    (path : String) : Block :=
  v.enumChecks r native value path
    ++ (r.format.map (v.formatCheck value path)).toList
    ++ (r.pattern.map (v.patternCheck value path)).toList
    ++ (match lengthOf? p value with
      | some len => v.lengthChecks r len value path
      | none => [])
    ++ v.rangeChecks r p native value path

/-- The checks of a primitive: the rules of the attribute, and those of the type it stands for if it
    refers to one. -/
def primitiveChecks (v : Validation) (a : Attribute) (p : Primitive) (value : Expr)
    (path : String) : Except Fault Block := do
  let resolved ← v.registry.resolve a
  let rules := if a.userId?.isSome then [a.rules, resolved.rules] else [a.rules]
  let native := TypeRef.primitive (v.context.encoding.primitive p)
  let type ← v.scope.typeRef v.context a
  let value := if type == native then value else .convert native value
  return rules.flatMap fun r => v.ruleChecks r p native value path

end Validation
end Shapewright
