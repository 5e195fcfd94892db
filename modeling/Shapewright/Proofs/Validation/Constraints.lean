import Shapewright.Proofs.Parts
import Shapewright.Proofs.Resolution
import Shapewright.Validation.Rules

/-!
# The constraints that rules declare

The rules of an attribute are a list of constraints: an enumeration, a format, a pattern, limits of
a length, limits of a number. Which of them apply is up to the kind of the value. Each constraint
that applies is one statement of the code, and there is no other statement.

Rules are a record with a field for each kind of constraint, and the emitter goes through the fields
one by one, with a test for each. Said as a list, there is one emitter for a constraint (`check`)
and one equation (`ruleChecks_eq`). Everything that is proved of checks is proved of constraints,
and does not know how they are written down.

An alias is checked twice: against the rules at the place where it stands and against those of the
last type of its chain. What types in the middle of the chain declare is not looked at, since the
code asks for where the reference leads and for nothing on the way (`Speaks`).
-/

namespace Shapewright
namespace Validation

/-- One constraint on a value. An enumeration has a literal, since an empty list of them constrains
    nothing. -/
inductive Constraint where
  | enum (first : Literal) (others : List Literal)
  | format (f : Format)
  | pattern (pattern : String)
  | length (limit : Limit) (n : Nat)
  | bound (limit : Limit) (x : Float)

end Validation

namespace Rules

open Validation

/-- The limits of a length, the lower one first. Without a limit there is no constraint. -/
def lengths (r : Rules) : List (Limit × Nat) :=
  (r.minLength.map (Limit.lower, ·)).toList ++ (r.maxLength.map (Limit.upper, ·)).toList

/-- The limits of a number, the lower one first. -/
def bounds (r : Rules) : List (Limit × Float) :=
  (r.minimum.map (Limit.lower, ·)).toList ++ (r.maximum.map (Limit.upper, ·)).toList

/-- An enumeration is one constraint, whatever it lists. An empty one is none. -/
def enums (r : Rules) : List Constraint :=
  match r.enum with
  | [] => []
  | first :: others => [.enum first others]

/-- The constraints on a value of a primitive kind: lengths are those of strings and bytes, bounds
    are on numbers. Rules may declare others, which do not apply. -/
def constraints (r : Rules) (p : Primitive) : List Constraint :=
  r.enums ++ (r.format.map .format).toList ++ (r.pattern.map .pattern).toList
    ++ (if p = .string ∨ p = .bytes then r.lengths.map fun l => .length l.1 l.2 else [])
    ++ (if p.isInteger || p.isFloat then r.bounds.map fun l => .bound l.1 l.2 else [])

/-- The constraints on a value of a kind. Those of collections are on their lengths. -/
def constraintsOn (r : Rules) : Kind → List Constraint
  | .primitive p => r.constraints p
  | .array | .map => r.lengths.map fun l => .length l.1 l.2
  | .object | .union => []

end Rules

namespace Validation

variable {v : Validation} {a : Attribute} {p : Primitive} {code : Block}

/-- The length of a primitive: strings count characters. -/
def lengthOf (p : Primitive) (value : Expr) : Expr := (lengthOf? p value).getD (.len value)

/-- The statement that checks a constraint on a primitive. All of them test and report. -/
def check (v : Validation) (p : Primitive) (native : TypeRef) (value : Expr) (path : String) :
    Constraint → Stmt
  | .enum first others =>
    let isListed := others.foldl (fun e l => .binary .or e (.binary .eq value (.lit l native)))
      (.binary .eq value (.lit first native))
    v.mergeWhen (.not isListed)
      (v.report "InvalidEnumValueError" [.str path, value, anySlice (first :: others)])
  | .format f => v.formatCheck value path f
  | .pattern pattern => v.patternCheck value path pattern
  | .length limit n => v.lengthCheck limit (lengthOf p value) value path n
  | .bound limit x => v.rangeCheck limit p native value path x

theorem lengthChecks_eq (r : Rules) (len value : Expr) (path : String) :
    v.lengthChecks r len value path =
      r.lengths.map fun l => v.lengthCheck l.1 len value path l.2 := by
  unfold lengthChecks Rules.lengths
  cases r.minLength <;> cases r.maxLength <;> rfl

theorem rangeChecks_eq (r : Rules) (p : Primitive) (native : TypeRef) (value : Expr)
    (path : String) : v.rangeChecks r p native value path =
      if p.isInteger || p.isFloat then
        r.bounds.map fun l => v.rangeCheck l.1 p native value path l.2
      else [] := by
  unfold rangeChecks Rules.bounds
  cases r.minimum <;> cases r.maximum <;> rfl

theorem enumChecks_eq (r : Rules) (p : Primitive) (native : TypeRef) (value : Expr)
    (path : String) : v.enumChecks r native value path =
      r.enums.map (v.check p native value path) := by
  unfold enumChecks Rules.enums
  cases r.enum with
  | nil => rfl
  | cons first others =>
    simp only [List.map_cons, Expr.anyOf?, List.foldl_map, List.map_nil, check]

/-- The code for some rules is one check for each constraint that applies, in a fixed order. The
    source of a rule is forgotten by then: a constraint is checked in the same way wherever it is
    declared. -/
theorem ruleChecks_eq (r : Rules) (p : Primitive) (native : TypeRef) (value : Expr)
    (path : String) : v.ruleChecks r p native value path =
      (r.constraints p).map (v.check p native value path) := by
  have hbounds : v.rangeChecks r p native value path =
      (if p.isInteger || p.isFloat then r.bounds.map fun l => Constraint.bound l.1 l.2
        else []).map (v.check p native value path) := by
    rw [rangeChecks_eq]
    split
    · rw [List.map_map]
      rfl
    · rfl
  have htexts : v.enumChecks r native value path ++ (r.format.map (v.formatCheck value path)).toList
        ++ (r.pattern.map (v.patternCheck value path)).toList =
      (r.enums ++ (r.format.map Constraint.format).toList
        ++ (r.pattern.map Constraint.pattern).toList).map
          (v.check p native value path) := by
    rw [enumChecks_eq r p, List.map_append, List.map_append]
    cases r.format <;> cases r.pattern <;> rfl
  rw [ruleChecks, Rules.constraints, List.map_append, List.map_append]
  refine congrArg₂ (· ++ ·) (congrArg₂ (· ++ ·) htexts ?_) hbounds
  -- Strings and bytes are the kinds with a length.
  cases p <;> simp [lengthOf?, lengthChecks_eq, check, lengthOf]

/-- What is checked of a primitive: its native representation. -/
def nativeValue (v : Validation) (p : Primitive) (type : TypeRef) (value : Expr) : Expr :=
  let native := TypeRef.primitive (v.context.encoding.primitive p)
  if type == native then value else .convert native value

/-- The check of a constraint on a primitive with a type in the code. -/
def nativeCheck (v : Validation) (p : Primitive) (type : TypeRef) (value : Expr) (path : String)
    (c : Constraint) : Stmt :=
  v.check p (.primitive (v.context.encoding.primitive p)) (v.nativeValue p type value) path c

/-- The attributes whose rules are checked where a primitive stands: its own, and the last one on
    its chain of references. -/
def Speaks (v : Validation) (a x : Attribute) : Prop := x = a ∨ v.registry.resolve a = .ok x

/-- The checks of a primitive are those of its own rules, and those of where its reference leads.
    What lies between the two, on a chain of aliases, is not looked at. -/
theorem primitiveChecks_eq_ok {value : Expr} {path : String} :
    v.primitiveChecks a p value path = .ok code ↔
      ∃ resolved type, v.registry.resolve a = .ok resolved ∧
        v.scope.typeRef v.context a = .ok type ∧
        code = (if a.userId?.isSome then [a.rules, resolved.rules] else [a.rules]).flatMap
          fun r => (r.constraints p).map (v.nativeCheck p type value path) := by
  unfold primitiveChecks
  simp only [except_bind_eq_ok, except_pure_eq_ok, ruleChecks_eq]
  constructor
  · rintro ⟨resolved, hr, type, ht, rfl⟩
    exact ⟨resolved, type, hr, ht, rfl⟩
  · rintro ⟨resolved, type, hr, ht, rfl⟩
    exact ⟨resolved, hr, type, ht, rfl⟩

/-- The checks of a primitive are those of the constraints that its attribute and the type behind it
    declare. -/
theorem mem_primitiveChecks {value : Expr} {path : String} {s : Stmt}
    (h : v.primitiveChecks a p value path = .ok code) :
    s ∈ code ↔ ∃ x c type, v.Speaks a x ∧ c ∈ x.rules.constraints p ∧
      v.scope.typeRef v.context a = .ok type ∧ s = v.nativeCheck p type value path c := by
  obtain ⟨resolved, type, hr, ht, rfl⟩ := primitiveChecks_eq_ok.mp h
  -- The code reads the rules of the attribute and, for a reference, those of the type at the end of
  -- the chain. An attribute without a reference is its own end.
  have hrules : ∀ r : Rules,
      r ∈ (if a.userId?.isSome then [a.rules, resolved.rules] else [a.rules]) ↔
        ∃ x, v.Speaks a x ∧ r = x.rules := by
    intro r
    unfold Speaks
    rw [hr]
    cases hu : a.userId? with
    | some id => simp [or_and_right, exists_or]
    | none =>
      rw [Registry.resolve_of_userId?_eq_none hu] at hr
      cases hr
      simp [or_and_right, exists_or]
  simp only [List.mem_flatMap, List.mem_map, hrules]
  constructor
  · rintro ⟨_, ⟨x, hx, rfl⟩, c, hc, rfl⟩
    exact ⟨x, c, type, hx, hc, ht, rfl⟩
  · rintro ⟨x, c, type', hx, hc, ht', rfl⟩
    rw [ht] at ht'
    cases ht'
    exact ⟨_, ⟨x, hx, rfl⟩, c, hc, rfl⟩

/-- Of an attribute in place, the checks of a primitive look at the rules and the overrides. -/
theorem primitiveChecks_primitive (description : Option String) (rules : Rules)
    (overrides : Overrides) (default : Option Literal) (value : Expr) (path : String) :
    v.primitiveChecks { type := .primitive p, rules, overrides } p value path =
      v.primitiveChecks ⟨.primitive p, description, rules, overrides, default⟩ p value path := by
  unfold primitiveChecks
  rw [Registry.resolve_of_userId?_eq_none rfl, Registry.resolve_of_userId?_eq_none rfl,
    Scope.typeRef, Scope.typeRef]
  rfl

/-- Of a reference, the checks of a primitive look at the named type and the rules. -/
theorem primitiveChecks_user (id : TypeId) (description : Option String) (rules : Rules)
    (overrides : Overrides) (default : Option Literal) (value : Expr) (path : String) :
    v.primitiveChecks { type := .user id, rules, overrides } p value path =
      v.primitiveChecks ⟨.user id, description, rules, overrides, default⟩ p value path := by
  have hsame : Attribute.BothRefer id { type := .user id, rules, overrides }
    ⟨.user id, description, rules, overrides, default⟩ := ⟨rfl, rfl⟩
  unfold primitiveChecks
  rw [hsame.resolve_eq, hsame.typeRef_eq]
  rfl

end Validation
end Shapewright
