import Mathlib.Data.Rat.Cast.Order
import Mathlib.Algebra.Order.Field.Power
import Shapewright.Proofs.Ranges
import Shapewright.Proofs.Validation.Closure

/-!
# What the checks of limits report

A limit is checked by a comparison with an integer of 64 bits. Read over all integers, the
comparison is the one that was declared as long as the limit itself has 64 bits and a sign: a length
beyond that wraps around, and a bound is replaced by the nearest integer that can be written down. A
replaced bound is still the right one for a kind whose values all lie on the same side of both.

## What is measured

A constraint limits a length or a number, and the code compares the one or the other of a value with
a constant. `Measure` puts together what belongs to one comparison: the quantity, the expression
that stands for it and the integers it ranges over. A length ranges over the integers that a program
can count to, a number over those of its kind.

Bounds are declared as doubles. `Decimal.value?` says which number a double is, and a bound that is
not a whole number is never a limit here, since no integer stands for it in the code.

## Exactness

`Measure.Exact` is the condition on a limit under which its comparison is right, and it is also
necessary: where it fails, there is a value for which the code and the declaration disagree
(`wrapped_exact_iff`, `saturated_exact_iff`). The code for a place reports an error for some limit
if the value is beyond one, so all limits of a place have to be looked at together. A wrong one may
be hidden by another that is right, which is why the last part of `compileAll_reports` is about
places all of whose limits are exact.
-/

namespace Shapewright

namespace Decimal

open Float.Model

/-- The number that a double stands for. Infinities and not-a-number stand for none. -/
def value? (x : Float) : Option ℚ :=
  match x.toModel.unpack with
  | .zero _ => some 0
  | .finite sign significand exponent _ => some (sign.apply significand * 2 ^ exponent)
  | .infinity _ | .notANumber => none

/-- A significand with an exponent is a whole number exactly if one is found for it. The powers of
    two that the significand has are used up against a negative exponent. -/
theorem scaled?_eq_some_iff {m n : Nat} {e : Int} :
    scaled? m e = some n ↔ (m : ℚ) * 2 ^ e = n := by
  have htwo : (2 : ℚ) ≠ 0 := by norm_num
  unfold scaled?
  split
  · rename_i he
    lift e to Nat using he
    rw [Option.some.injEq, Int.toNat_natCast, zpow_natCast]
    norm_cast
  · rename_i he
    obtain ⟨k, rfl⟩ : ∃ k : Nat, e = -k := ⟨(-e).toNat, by omega⟩
    have hpos : 0 < 2 ^ k := Nat.two_pow_pos k
    -- A number is `m / 2 ^ k` just when `m` is its multiple.
    have hvalue : (m : ℚ) * 2 ^ (-k : Int) = n ↔ m = n * 2 ^ k := by
      rw [zpow_neg, zpow_natCast, ← div_eq_mul_inv, div_eq_iff (pow_ne_zero k htwo)]
      norm_cast
    rw [hvalue, Int.neg_neg, Int.toNat_natCast, Nat.pow_eq]
    split
    · rename_i hdvd
      have hdvd := Nat.dvd_of_mod_eq_zero (beq_iff_eq.mp hdvd)
      rw [Option.some.injEq, Nat.div_eq_iff_eq_mul_left hpos hdvd]
    · rename_i hdvd
      refine iff_of_false (by simp) fun h => hdvd ?_
      rw [beq_iff_eq, h, Nat.mul_mod_left]

/-- A double is the integer that it is found to be, and where none is found it is no integer. No
    rounding comes into it, so a bound that is declared as an integer is compared exactly. -/
theorem integer?_eq_some_iff {x : Float} {i : Int} :
    integer? x = some i ↔ value? x = some (i : ℚ) := by
  unfold integer? value?
  cases x.toModel.unpack with
  | infinity s => simp
  | notANumber => simp
  | zero s => simp [eq_comm]
  | finite s m e hm =>
    have hpos : (0 : ℚ) < m * 2 ^ e := mul_pos (by exact_mod_cast hm) (zpow_pos (by norm_num) e)
    simp only [Option.map_eq_some_iff, scaled?_eq_some_iff, Option.some.injEq]
    constructor
    · rintro ⟨n, hn, rfl⟩
      cases s <;> simp [UnpackedFloat.Sign.apply, hn]
    · intro h
      -- The magnitude is the value up to its sign, and is not negative.
      have hn : ((i.natAbs : ℕ) : ℚ) = m * 2 ^ e := by
        rw [Nat.cast_natAbs, Int.cast_abs, ← h]
        cases s <;> simp [UnpackedFloat.Sign.apply, abs_of_pos hpos]
      refine ⟨i.natAbs, hn.symm, ?_⟩
      have hsign : ((s.apply i.natAbs : ℤ) : ℚ) = i := by
        rw [← h]
        cases s <;> simp [UnpackedFloat.Sign.apply, ← hn]
      exact_mod_cast hsign

end Decimal

/-- The integer that a constant in the code stands for. -/
def Expr.integer? : Expr → Option Int
  | .int i => some i
  | .lit (.integer i) _ => some i
  | _ => none

/-- What a comparison says of integers. -/
def BinaryOp.Compares : BinaryOp → Int → Int → Prop
  | .eq, x, y => x = y
  | .ne, x, y => x ≠ y
  | .lt, x, y => x < y
  | .gt, x, y => y < x
  | .or, _, _ | .and, _, _ => False

namespace Validation

open Relation

variable {v : Validation} {z : Place} {s : Subject} {c : Constraint} {limit : Limit} {n x : Int}
  {code : Block} {stmt stmt' : Stmt}

/-- The number is beyond the limit `n`. -/
def Limit.Beyond : Limit → Int → Int → Prop
  | .lower, n, x => x < n
  | .upper, n, x => n < x

theorem Limit.compares_beyond : limit.beyond.Compares x n ↔ limit.Beyond n x := by
  cases limit <;> rfl

/-- What can be limited: the length of a value, or the value itself. The length of a text counts its
    characters. -/
inductive Quantity where
  | length
  | number
deriving DecidableEq

/-- The constraint sets an integer as a limit to a quantity. A bound that is no integer sets none in
    this sense. -/
inductive Constraint.Limits : Constraint → Quantity → Limit → Int → Prop
  | length (limit : Limit) (n : Nat) : Limits (.length limit n) .length limit n
  | bound {limit : Limit} {x : Float} {n : Int} (h : Decimal.value? x = some (n : ℚ)) :
      Limits (.bound limit x) .number limit n

/-- A quantity of a value in the code, and the integers that it ranges over. These are given by the
    kind of the value, or by what lengths can be. -/
structure Measure where
  quantity : Quantity
  subject : Expr
  least : Int
  greatest : Int

/-- The quantity of the value can be `x`. A length is a signed integer from zero on, and a number is
    in the range of its kind. -/
def Measure.Holds (m : Measure) (x : Int) : Prop := m.least ≤ x ∧ x ≤ m.greatest

/-- A length: the integers from zero on that have 64 bits and a sign. -/
def Measure.length (subject : Expr) : Measure := ⟨.length, subject, 0, 2 ^ 63 - 1⟩

/-- A number of a kind. -/
def Measure.number (p : Primitive) (subject : Expr) : Measure :=
  ⟨.number, subject, p.least, p.greatest⟩

/-- The limit is not lost on its way to an integer of 64 bits with a sign: it is one, or it is a
    bound that all values of the kind are on the same side of as they are of the nearest one. -/
def Measure.Exact (m : Measure) (limit : Limit) (n : Int) : Prop :=
  match m.quantity, limit with
  | .length, _ => n < 2 ^ 63
  | .number, .lower => n < 2 ^ 63 ∨ m.greatest < 2 ^ 63 - 1
  | .number, .upper =>
    (n < 2 ^ 63 ∨ m.greatest < 2 ^ 63) ∧ (-2 ^ 63 ≤ n ∨ -2 ^ 63 < m.least)

/-- The integer that stands in the code for a limit. -/
def Quantity.edge : Quantity → Int → Int
  | .length, n => n.bmod (2 ^ 64)
  | .number, n => Decimal.saturated n

section

variable (v : Validation)

/-- The quantities of the value at a place that can be limited: the value itself if it is an
    integer, the length of a string, of bytes and of a collection in place. -/
inductive Measured (z : Place) : Measure → Prop
  | number {p : Primitive} {type : TypeRef} (hk : v.registry.kind z.attr = .ok (.primitive p))
      (hp : p.isInteger) (ht : v.scope.typeRef v.context z.attr = .ok type) :
      Measured z (.number p (v.nativeValue p type z.value))
  | text {p : Primitive} {type : TypeRef} (hk : v.registry.kind z.attr = .ok (.primitive p))
      (hp : p = .string ∨ p = .bytes) (ht : v.scope.typeRef v.context z.attr = .ok type) :
      Measured z (.length (lengthOf p (v.nativeValue p type z.value)))
  | collection {elem : Attribute} (ht : CollectionOf z.attr.type elem) :
      Measured z (.length (.len z.position.var))

/-- The integer is a declared limit of a quantity of the value at the place. Several constraints may
    limit one quantity, and each of them counts. -/
def Limited (z : Place) (m : Measure) (limit : Limit) (n : Int) : Prop :=
  ∃ c, v.Constrains z c ∧ c.Limits m.quantity limit n

/-- The code is what is emitted for the value at a place itself, values inside it apart. It may be
    empty, if nothing is declared for the value. -/
inductive Emits (z : Place) : Block → Prop
  | primitive {p : Primitive} {code : Block}
      (hk : v.registry.kind z.attr = .ok (.primitive p))
      (hc : v.primitiveChecks z.attr p z.value z.position.path = .ok code) : Emits z code
  | collection {elem : Attribute} (ht : CollectionOf z.attr.type elem) :
      Emits z (v.lengthChecks z.attr.rules (.len z.position.var) z.position.var z.position.path)

/-- The statement compares the subject with an integer, and reports an error if the subject is
    `x`. -/
def Reports (subject : Expr) (x : Int) (stmt : Stmt) : Prop :=
  ∃ op edge found n, stmt = v.mergeWhen (.binary op subject edge) found ∧
    edge.integer? = some n ∧ op.Compares x n

/-- The code reports an error exactly if the quantity is beyond a declared limit. It is about one
    place, and about errors of limits only. -/
def Tells (z : Place) (m : Measure) (code : Block) : Prop :=
  ∀ x, m.Holds x → ((∃ stmt ∈ code, v.Reports m.subject x stmt) ↔
    ∃ limit n, v.Limited z m limit n ∧ limit.Beyond n x)

end

/-! ## Limits of 64 bits -/

/-- A length that has a sign bit too many wraps around to a negative one. Where it wraps, the lower
    limit never reports and the upper one always does. -/
theorem wrapped_exact_iff {n : Nat} (hn : n < 2 ^ 64) :
    (∀ x, 0 ≤ x → x ≤ 2 ^ 63 - 1 → (limit.Beyond ((n : Int).bmod (2 ^ 64)) x ↔ limit.Beyond n x)) ↔
      (n : Int) < 2 ^ 63 := by
  have hkept : (n : Int) < 2 ^ 63 → (n : Int).bmod (2 ^ 64) = n := by
    intro h
    rw [Int.bmod_eq_of_le] <;> omega
  -- Nothing is shorter than a negative length, and everything is longer: either limit is wrong for
  -- the empty value.
  have hwrapped : ¬ (n : Int) < 2 ^ 63 → (n : Int).bmod (2 ^ 64) < 0 := by
    intro h
    have : (n : Int).bmod (2 ^ 64) = n - 2 ^ 64 := by
      rw [Int.bmod_def]
      omega
    omega
  constructor
  · intro h
    by_contra hbig
    have := hwrapped hbig
    have hzero := h 0 le_rfl (by norm_num)
    cases limit <;> simp only [Limit.Beyond] at hzero <;> omega
  · intro h x _ _
    rw [hkept h]

/-- A bound that is replaced is the wrong one for the integer that takes its place, or for the next
    one, if the kind has it. -/
theorem saturated_exact_iff (p : Primitive) (e : Expr) :
    (∀ x, p.Holds x → (limit.Beyond (Decimal.saturated n) x ↔ limit.Beyond n x)) ↔
      (Measure.number p e).Exact limit n := by
  obtain ⟨hleast, hzero, hgreatest⟩ := p.range_bounds
  -- Only a bound outside the range of an `int64` is moved, and then to the end of it that is
  -- nearer.
  have hsaturated : Decimal.saturated n = max (-2 ^ 63) (min n (2 ^ 63 - 1)) := rfl
  unfold Primitive.Holds
  cases limit with
  | lower =>
    simp only [Limit.Beyond, Measure.Exact, Measure.number]
    constructor
    · intro h
      by_contra hno
      have := h (2 ^ 63 - 1) (by omega)
      omega
    · intro h x hx
      omega
  | upper =>
    simp only [Limit.Beyond, Measure.Exact, Measure.number]
    constructor
    · intro h
      by_contra hno
      have hhigh := h (2 ^ 63)
      have hlow := h (-2 ^ 63)
      omega
    · intro h x hx
      omega

/-! ## The check of one limit -/

/-- The integer that stands for a limit is as good as the limit exactly if that is exact. Lengths
    wrap and numbers saturate, and this puts the two cases together. -/
theorem edge_exact_iff {m : Measure} (hm : v.Measured z m) (hl : c.Limits m.quantity limit n)
    (hsize : ∀ limit n, c = .length limit n → n < 2 ^ 64) :
    (∀ x, m.Holds x → (limit.Beyond (m.quantity.edge n) x ↔ limit.Beyond n x)) ↔
      m.Exact limit n := by
  have hlength : ∀ e, c.Limits .length limit n →
      ((∀ x, (Measure.length e).Holds x → (limit.Beyond (Quantity.edge .length n) x ↔
        limit.Beyond n x)) ↔ (Measure.length e).Exact limit n) := by
    intro e hl
    cases hl with
    | length limit n =>
      simp only [Measure.Holds, Measure.length, Measure.Exact, Quantity.edge, and_imp]
      exact wrapped_exact_iff (hsize _ _ rfl)
  cases hm with
  | number hk hp ht => exact saturated_exact_iff _ _
  | text hk hp ht => exact hlength _ hl
  | collection ht => exact hlength _ hl

/-- A bound stands in the code as the nearest integer that can be written. -/
theorem integer?_bound {p : Primitive} (hp : p.isInteger) {x : Float} {native : TypeRef} {i : Int} :
    (bound x p native).integer? = some i ↔
      ∃ n : Int, Decimal.value? x = some (n : ℚ) ∧ i = Decimal.saturated n := by
  unfold bound
  simp only [hp, if_true, ← Decimal.integer?_eq_some_iff]
  cases Decimal.integer? x with
  | none => simp [Expr.integer?]
  | some n => simp [Expr.integer?, eq_comm]

/-- The lengths of a primitive are limited if it is a string or bytes. -/
theorem length_mem_constraints {r : Rules} {p : Primitive} {n : Nat} :
    .length limit n ∈ r.constraints p ↔ (p = .string ∨ p = .bytes) ∧ (limit, n) ∈ r.lengths := by
  have henums : .length limit n ∉ r.enums := by
    unfold Rules.enums
    split <;> simp
  by_cases hp : p = .string ∨ p = .bytes <;> simp [Rules.constraints, hp, henums]

/-- The values of a primitive are bounded if it is a number. -/
theorem bound_mem_constraints {r : Rules} {p : Primitive} {y : Float} :
    .bound limit y ∈ r.constraints p ↔ (p.isInteger || p.isFloat) ∧ (limit, y) ∈ r.bounds := by
  have henums : .bound limit y ∉ r.enums := by
    unfold Rules.enums
    split <;> simp
  by_cases hp : p.isInteger || p.isFloat <;> simp [Rules.constraints, hp, henums]

namespace CheckOf

/-- The check of a constraint on a primitive is the one that is emitted for it. A named type is cast
    to its primitive first, and what is compared is the cast value. -/
theorem eq_nativeCheck {p : Primitive} {type : TypeRef}
    (hk : v.registry.kind z.attr = .ok (.primitive p))
    (ht : v.scope.typeRef v.context z.attr = .ok type) (h : v.CheckOf z c stmt) :
    stmt = v.nativeCheck p type z.value z.position.path c := by
  cases h with
  | primitive hk' ht' =>
    rw [hk] at hk'
    cases hk'
    rw [ht] at ht'
    cases ht'
    rfl
  | collection ht' => exact absurd hk ht'.kind_ne_primitive

/-- A collection is checked for its length only. -/
theorem eq_lengthCheck {elem : Attribute} (ht : CollectionOf z.attr.type elem)
    (h : v.CheckOf z c stmt) :
    ∃ limit n, c = .length limit n ∧
      stmt = v.lengthCheck limit (.len z.position.var) z.position.var z.position.path n := by
  cases h with
  | primitive hk => exact absurd hk ht.kind_ne_primitive
  | collection => exact ⟨_, _, rfl, rfl⟩

/-- A constraint on a place has one check. -/
theorem unique (h : v.CheckOf z c stmt) (h' : v.CheckOf z c stmt') : stmt = stmt' := by
  cases h with
  | primitive hk ht => exact (h'.eq_nativeCheck hk ht).symm
  | collection ht =>
    obtain ⟨limit, n, hc, rfl⟩ := h'.eq_lengthCheck ht
    cases hc
    rfl

/-- The check of a limit compares the subject with the integer that stands for the limit. The error
    that is merged is left open. -/
theorem compares {m : Measure} (hm : v.Measured z m) (hs : v.CheckOf z c stmt)
    (hl : c.Limits m.quantity limit n) :
    ∃ edge found, stmt = v.mergeWhen (.binary limit.beyond m.subject edge) found ∧
      edge.integer? = some (m.quantity.edge n) := by
  cases hm with
  | number hk hp ht =>
    rw [hs.eq_nativeCheck hk ht]
    cases hl with
    | bound hx => exact ⟨_, _, rfl, (integer?_bound hp).mpr ⟨n, hx, rfl⟩⟩
  | text hk hp ht =>
    rw [hs.eq_nativeCheck hk ht]
    cases hl with
    | length => exact ⟨_, _, rfl, rfl⟩
  | collection ht =>
    obtain ⟨limit', n', rfl, rfl⟩ := hs.eq_lengthCheck ht
    cases hl with
    | length => exact ⟨_, _, rfl, rfl⟩

/-- The check of a limit reports what is beyond the integer that stands for it. The check is read as
    a comparison of numbers, without a machine. -/
theorem reports_iff {m : Measure} (hm : v.Measured z m) (hs : v.CheckOf z c stmt)
    (hl : c.Limits m.quantity limit n) :
    v.Reports m.subject x stmt ↔ limit.Beyond (m.quantity.edge n) x := by
  obtain ⟨edge, found, rfl, hedge⟩ := hs.compares hm hl
  rw [← Limit.compares_beyond]
  constructor
  · rintro ⟨op, edge', found', n', heq, hn, hx⟩
    cases heq
    rw [hedge] at hn
    cases hn
    exact hx
  · exact fun hx => ⟨_, edge, found, _, rfl, hedge, hx⟩

/-- What is compared with an integer is a limited quantity. So the other checks, of patterns or
    formats, are none of those that report for this reason. -/
theorem limits_of_reports {m : Measure} (hm : v.Measured z m) (hc : v.Constrains z c)
    (hs : v.CheckOf z c stmt) (h : v.Reports m.subject x stmt) :
    ∃ limit n, c.Limits m.quantity limit n := by
  obtain ⟨op, edge, found, i, rfl, hi, -⟩ := h
  -- A check that compares with an integer is for a bound of a number, or for a length of a text or
  -- a collection.
  cases hm with
  | number hk hp ht =>
    have heq := hs.eq_nativeCheck hk ht
    obtain ⟨a, -, hc⟩ := (constrains_primitive hk).mp hc
    cases c with
    | enum | format | pattern => cases heq
    | length => rcases (length_mem_constraints.mp hc).1 with rfl | rfl <;> cases hp
    | bound limit y =>
      have htest := (Stmt.cond.inj heq).2.1
      rw [(Expr.binary.inj htest).2.2] at hi
      obtain ⟨n, hn, -⟩ := (integer?_bound hp).mp hi
      exact ⟨limit, n, .bound hn⟩
  | text hk hp ht =>
    have heq := hs.eq_nativeCheck hk ht
    obtain ⟨a, -, hc⟩ := (constrains_primitive hk).mp hc
    cases c with
    | enum | format | pattern => cases heq
    | length limit n => exact ⟨limit, n, .length limit n⟩
    | bound =>
      have := (bound_mem_constraints.mp hc).1
      rcases hp with rfl | rfl <;> cases this
  | collection ht =>
    obtain ⟨limit, n, rfl, -⟩ := hs.eq_lengthCheck ht
    exact ⟨limit, n, .length limit n⟩

end CheckOf

/-- A primitive in place is under the rules that it declares itself. -/
theorem constrains_in_place {p : Primitive} (ht : z.attr.type = .primitive p) :
    v.Constrains z c ↔ c ∈ z.attr.rules.constraints p := by
  have hr : v.registry.resolve z.attr = .ok z.attr :=
    Registry.resolve_of_userId?_eq_none (by rw [Attribute.userId?, ht])
  rw [constrains_primitive (by rw [Registry.kind_eq_of_resolve hr, ht])]
  simp only [Speaks, hr, Except.ok.injEq, eq_comm (a := z.attr), or_self, exists_eq_left]

/-- The limits of a number in place are the bounds that it declares. -/
theorem limited_number {p : Primitive} {e : Expr} (ht : z.attr.type = .primitive p)
    (hp : p.isInteger) : v.Limited z (.number p e) limit n ↔
      ∃ y, (limit, y) ∈ z.attr.rules.bounds ∧ Decimal.value? y = some (n : ℚ) := by
  unfold Limited
  simp only [constrains_in_place ht]
  constructor
  · rintro ⟨c, hc, hl⟩
    cases hl with
    | bound h => exact ⟨_, (bound_mem_constraints.mp hc).2, h⟩
  · rintro ⟨y, hy, h⟩
    exact ⟨_, bound_mem_constraints.mpr ⟨by simp [hp], hy⟩, .bound h⟩

/-- The limits of a text in place are the lengths that it declares. -/
theorem limited_length {p : Primitive} {e : Expr} (ht : z.attr.type = .primitive p)
    (hp : p = .string ∨ p = .bytes) : v.Limited z (.length e) limit n ↔
      ∃ k : Nat, (limit, k) ∈ z.attr.rules.lengths ∧ n = k := by
  unfold Limited
  simp only [constrains_in_place ht]
  constructor
  · rintro ⟨c, hc, hl⟩
    cases hl with
    | length => exact ⟨_, (length_mem_constraints.mp hc).2, rfl⟩
  · rintro ⟨k, hk, rfl⟩
    exact ⟨_, length_mem_constraints.mpr ⟨hp, hk⟩, .length limit k⟩

/-! ## The code for a place -/

/-- For a place with something to measure there is code. -/
theorem Measured.emits {m : Measure} (hm : v.Measured z m) : ∃ code, v.Emits z code := by
  have hprimitive : ∀ {p : Primitive} {type : TypeRef},
      v.registry.kind z.attr = .ok (.primitive p) →
      v.scope.typeRef v.context z.attr = .ok type → ∃ code, v.Emits z code := by
    intro p type hk ht
    obtain ⟨r, hr⟩ := Registry.exists_resolve hk
    exact ⟨_, .primitive hk (primitiveChecks_eq_ok.mpr ⟨r, type, hr, ht, rfl⟩)⟩
  cases hm with
  | number hk hp ht => exact hprimitive hk ht
  | text hk hp ht => exact hprimitive hk ht
  | collection ht => exact ⟨_, .collection ht⟩

/-- The code for a place is one check for each constraint. There may be none, at a place that
    nothing is declared for. -/
theorem Emits.mem_iff (h : v.Emits z code) :
    stmt ∈ code ↔ ∃ c, v.Constrains z c ∧ v.CheckOf z c stmt := by
  -- For a primitive each constraint has its native check; a collection has checks of its length
  -- alone.
  cases h with
  | primitive hk hcode =>
    obtain ⟨-, type, -, ht, -⟩ := primitiveChecks_eq_ok.mp hcode
    rw [mem_primitiveChecks hcode]
    constructor
    · rintro ⟨a, c, type', ha, hc, ht', rfl⟩
      exact ⟨c, .primitive hk ha hc, .primitive hk ht'⟩
    · rintro ⟨c, hc, hs⟩
      obtain ⟨a, ha, hc⟩ := (constrains_primitive hk).mp hc
      exact ⟨a, c, type, ha, hc, ht, hs.eq_nativeCheck hk ht⟩
  | collection ht =>
    rw [lengthChecks_eq, List.mem_map]
    constructor
    · rintro ⟨l, hl, rfl⟩
      exact ⟨_, .collection ht hl, .collection ht⟩
    · rintro ⟨c, hc, hs⟩
      obtain ⟨l, hl, rfl⟩ := (constrains_collection ht).mp hc
      obtain ⟨limit, n, heq, rfl⟩ := hs.eq_lengthCheck ht
      cases heq
      exact ⟨l, hl, rfl⟩

/-- The code for a place is in the validator that looks at it. The last premise is needed because a
    validator without checks is left out. -/
theorem Emits.subset_parts {id : TypeId} {view : Option String} {funcs : List Func}
    {root : Subject} (he : v.Emits z code) (h : (v.compileAll id view).Yields funcs)
    (hroot : v.subject id view = .ok root) (hs : ReflTransGen v.Delegates root s)
    (hz : v.Looks s z) (hne : code ≠ []) :
    ∃ f ∈ funcs, (∃ body, v.func s body = .ok f) ∧ code ⊆ f.body.parts := by
  obtain ⟨first, hfirst⟩ := List.exists_mem_of_ne_nil _ hne
  obtain ⟨c, hc, -⟩ := he.mem_iff.mp hfirst
  obtain ⟨root', listed, hroot', rfl, hl⟩ := (compileAll_listed v id view).2 funcs h
  rw [hroot] at hroot'
  cases hroot'
  have hlisted : s ∈ listed.map Prod.fst :=
    (hl.mem_iff s).mpr ⟨hs, s, .refl, .place hz (.constraint hc)⟩
  obtain ⟨y, hy, rfl⟩ := List.mem_map.mp hlisted
  obtain ⟨checks, hb, hf⟩ := hl.built y hy
  refine ⟨y.2, List.mem_map_of_mem hy, ⟨checks.code, hf⟩, fun stmt hstmt => ?_⟩
  obtain ⟨c, hc, hcheck⟩ := he.mem_iff.mp hstmt
  obtain ⟨stmt', hcheck', hmem⟩ := (buildsBody_of_body hb).contains hz hc
  rw [hcheck.unique hcheck', (func_eq_ok hf).2]
  exact Block.parts_subset_left _ _ hmem

theorem Emits.exists_check (he : v.Emits z code) (hc : v.Constrains z c) :
    ∃ stmt ∈ code, v.CheckOf z c stmt := by
  suffices ∃ stmt, v.CheckOf z c stmt from
    let ⟨stmt, hs⟩ := this
    ⟨stmt, he.mem_iff.mpr ⟨c, hc, hs⟩, hs⟩
  cases he with
  | primitive hk hcode =>
    obtain ⟨-, type, -, ht, -⟩ := primitiveChecks_eq_ok.mp hcode
    exact ⟨_, .primitive hk ht⟩
  | collection ht =>
    obtain ⟨l, -, rfl⟩ := (constrains_collection ht).mp hc
    exact ⟨_, .collection ht⟩

/-! ## What is reported -/

section

variable {m : Measure}

theorem Emits.reports_iff (he : v.Emits z code) (hm : v.Measured z m) :
    (∃ stmt ∈ code, v.Reports m.subject x stmt) ↔
      ∃ limit n, v.Limited z m limit n ∧ limit.Beyond (m.quantity.edge n) x := by
  constructor
  · rintro ⟨stmt, hmem, hreports⟩
    obtain ⟨c, hc, hcheck⟩ := he.mem_iff.mp hmem
    obtain ⟨limit, n, hl⟩ := hcheck.limits_of_reports hm hc hreports
    exact ⟨limit, n, ⟨c, hc, hl⟩, (hcheck.reports_iff hm hl).mp hreports⟩
  · rintro ⟨limit, n, ⟨c, hc, hl⟩, hbeyond⟩
    obtain ⟨stmt, hmem, hcheck⟩ := he.exists_check hc
    exact ⟨stmt, hmem, (hcheck.reports_iff hm hl).mpr hbeyond⟩

theorem Limited.exact_iff (hl : v.Limited z m limit n) (hm : v.Measured z m)
    (hsize : ∀ limit n, v.Constrains z (.length limit n) → n < 2 ^ 64) :
    (∀ x, m.Holds x → (limit.Beyond (m.quantity.edge n) x ↔ limit.Beyond n x)) ↔
      m.Exact limit n := by
  obtain ⟨c, hc, hl⟩ := hl
  exact edge_exact_iff hm hl fun limit n hcn => hsize limit n (hcn ▸ hc)

theorem Emits.tells (he : v.Emits z code) (hm : v.Measured z m)
    (hsize : ∀ limit n, v.Constrains z (.length limit n) → n < 2 ^ 64)
    (hall : ∀ limit n, v.Limited z m limit n → m.Exact limit n) : v.Tells z m code := by
  intro x hx
  rw [he.reports_iff hm]
  exact exists_congr fun limit => exists_congr fun n => and_congr_right fun hl =>
    (hl.exact_iff hm hsize).mpr (hall limit n hl) x hx

/-- Of a single limit the code tells whether it is kept. -/
theorem Emits.tells_iff (he : v.Emits z code) (hm : v.Measured z m)
    (hsize : ∀ limit n, v.Constrains z (.length limit n) → n < 2 ^ 64)
    (hone : ∀ limit' n', v.Limited z m limit' n' ↔ limit' = limit ∧ n' = n) :
    v.Tells z m code ↔ m.Exact limit n := by
  rw [← ((hone limit n).mpr ⟨rfl, rfl⟩).exact_iff hm hsize]
  simp only [Tells, he.reports_iff hm, hone, and_assoc, exists_and_left, exists_eq_left]

end

/-- Each limit of a quantity has its check in the validator that looks at the value. The check is
    the declared comparison just where the limit is kept, and where all are, an error is reported of
    a quantity exactly if it is beyond one of them. -/
theorem compileAll_reports (v : Validation) (id : TypeId) (view : Option String)
    (funcs : List Func) (root s : Subject) (z : Place) (m : Measure)
    (h : (v.compileAll id view).Yields funcs) (hroot : v.subject id view = .ok root)
    (hs : ReflTransGen v.Delegates root s) (hz : v.Looks s z) (hm : v.Measured z m)
    (hsize : ∀ limit n, v.Constrains z (.length limit n) → n < 2 ^ 64) :
    ∃ code, v.Emits z code ∧
      (code ≠ [] → ∃ f ∈ funcs, (∃ body, v.func s body = .ok f) ∧ code ⊆ f.body.parts) ∧
      (∀ c limit n, v.Constrains z c → c.Limits m.quantity limit n →
        ∃ stmt ∈ code, v.CheckOf z c stmt ∧
          ((∀ x, m.Holds x → (v.Reports m.subject x stmt ↔ limit.Beyond n x)) ↔
            m.Exact limit n)) ∧
      ((∀ limit n, v.Limited z m limit n → m.Exact limit n) → v.Tells z m code) := by
  obtain ⟨code, he⟩ := hm.emits
  refine ⟨code, he, he.subset_parts h hroot hs hz, ?_, he.tells hm hsize⟩
  intro c limit n hc hl
  obtain ⟨stmt, hmem, hcheck⟩ := he.exists_check hc
  refine ⟨stmt, hmem, hcheck, ?_⟩
  simp only [hcheck.reports_iff hm hl]
  exact Limited.exact_iff ⟨c, hc, hl⟩ hm hsize

/-- Readings with a number that is not negative and a note, each with rules. -/
def readingValidation (count note : Rules) : Validation where
  scope := .ofRegistry {
    types := [
      { id := "Reading", name := "Reading"
        definition := {
          type := .object [
            ("count", { type := .primitive .uint64, rules := count }),
            ("note", { type := .primitive .string, rules := note })] } }] }
  context := .service

section

variable (count note : Rules)

theorem readingValidation_looks {f : ShownField}
    (hf : f ∈ [⟨"count", { type := .primitive .uint64, rules := count }, none⟩,
      ⟨"note", { type := .primitive .string, rules := note }, none⟩]) :
    ∃ z, (readingValidation count note).Looks ⟨"Reading", none⟩ z ∧ z.attr = f.attr := by
  obtain ⟨q, hq⟩ : ∃ q, (readingValidation count note).fieldPosition []
      ((readingValidation count note).argument ⟨"Reading", none⟩) f.name f.attr f.tag = .ok q := by
    simp only [List.mem_cons, List.not_mem_nil, or_false] at hf
    rcases hf with rfl | rfl <;> exact ⟨_, rfl⟩
  have hd : (readingValidation count note).Describes ⟨"Reading", none⟩
      { type := .object [
          ("count", { type := .primitive .uint64, rules := count }),
          ("note", { type := .primitive .string, rules := note })] } none :=
    ⟨⟨_, rfl, rfl⟩, rfl⟩
  exact ⟨⟨f.attr, q.1, q.2⟩, ⟨_, .field hd rfl hf ⟨rfl, hq⟩, .refl⟩, rfl⟩

/-- The number has the bounds that are integers for limits, and no length. A bound that is no
    integer is not among the limits. -/
theorem readingValidation_count : ∃ z e,
    (readingValidation count note).Looks ⟨"Reading", none⟩ z ∧
      (readingValidation count note).Measured z (.number .uint64 e) ∧
      (∀ limit n, ¬ (readingValidation count note).Constrains z (.length limit n)) ∧
      ∀ limit n, (readingValidation count note).Limited z (.number .uint64 e) limit n ↔
        ∃ y, (limit, y) ∈ count.bounds ∧ Decimal.integer? y = some n := by
  obtain ⟨z, hz, ha⟩ := readingValidation_looks count note List.mem_cons_self
  have htype : z.attr.type = .primitive .uint64 := by rw [ha]
  have hk : (readingValidation count note).registry.kind z.attr = .ok (.primitive .uint64) := by
    rw [ha]
    rfl
  have ht : (readingValidation count note).scope.typeRef (readingValidation count note).context
      z.attr = .ok (.primitive .uint64) := by
    rw [ha]
    rfl
  refine ⟨z, _, hz, .number hk rfl ht, fun limit n hc => ?_, fun limit n => ?_⟩
  -- A number is no text, so the length of its rules is not read.
  · rw [constrains_in_place htype, length_mem_constraints] at hc
    simp at hc
  · rw [limited_number htype rfl, ha]
    simp only [Decimal.integer?_eq_some_iff]

/-- The note has its lengths for limits. All of them count, since a length is an integer anyway. -/
theorem readingValidation_note : ∃ z e,
    (readingValidation count note).Looks ⟨"Reading", none⟩ z ∧
      (readingValidation count note).Measured z (.length e) ∧
      (∀ limit n, (readingValidation count note).Constrains z (.length limit n) →
        (limit, n) ∈ note.lengths) ∧
      ∀ limit n, (readingValidation count note).Limited z (.length e) limit n ↔
        ∃ k : Nat, (limit, k) ∈ note.lengths ∧ n = k := by
  obtain ⟨z, hz, ha⟩ :=
    readingValidation_looks count note (List.mem_cons_of_mem _ List.mem_cons_self)
  have htype : z.attr.type = .primitive .string := by rw [ha]
  have hk : (readingValidation count note).registry.kind z.attr = .ok (.primitive .string) := by
    rw [ha]
    rfl
  have ht : (readingValidation count note).scope.typeRef (readingValidation count note).context
      z.attr = .ok (.primitive .string) := by
    rw [ha]
    rfl
  refine ⟨z, _, hz, .text hk (.inl rfl) ht, fun limit n hc => ?_, fun limit n => ?_⟩
  · rw [constrains_in_place htype, length_mem_constraints, ha] at hc
    exact hc.2
  · rw [limited_length htype (.inl rfl), ha]

end

/-- Readings whose number goes from one to 2 ^ 53. -/
def boundedReadings : Validation :=
  readingValidation { minimum := some 1, maximum := some 9007199254740992 } {}

/-- The checks of a number that has both limits: what is reported is exactly what is beyond them.
    The upper limit is the greatest up to which a float can tell all integers. -/
theorem compileAll_reports_readings : ∃ funcs z m code,
    (boundedReadings.compileAll "Reading" none).Yields funcs ∧
    boundedReadings.Looks ⟨"Reading", none⟩ z ∧ boundedReadings.Measured z m ∧
    boundedReadings.Emits z code ∧
    ∀ x, m.Holds x → ((∃ stmt ∈ code, boundedReadings.Reports m.subject x stmt) ↔
      x < 1 ∨ 9007199254740992 < x) := by
  obtain ⟨funcs, h⟩ : ∃ funcs, (boundedReadings.compileAll "Reading" none).Yields funcs := by
    decide +kernel
  obtain ⟨z, e, hz, hm, hlengths, hbounds⟩ := readingValidation_count
    { minimum := some 1, maximum := some 9007199254740992 } {}
  -- Both bounds are integers, and small enough to be written as they are.
  have hlimits : ∀ limit n, boundedReadings.Limited z (.number .uint64 e) limit n ↔
      (limit = .lower ∧ n = 1) ∨ (limit = .upper ∧ n = 9007199254740992) := by
    have hone : Decimal.integer? 1 = some 1 := by decide +kernel
    have hmany : Decimal.integer? 9007199254740992 = some 9007199254740992 := by decide +kernel
    intro limit n
    rw [boundedReadings, hbounds]
    simp [Rules.bounds, or_and_right, exists_or, and_assoc, hone, hmany, eq_comm]
  obtain ⟨code, he, -, -, htells⟩ := compileAll_reports boundedReadings "Reading" none funcs
    ⟨"Reading", none⟩ ⟨"Reading", none⟩ z _ h rfl .refl hz hm
    fun limit n hc => absurd hc (hlengths limit n)
  refine ⟨funcs, z, _, code, h, hz, hm, he, fun x hx => ?_⟩
  rw [htells ?_ x hx]
  · simp [hlimits, or_and_right, exists_or, Limit.Beyond]
  · intro limit n hl
    rcases (hlimits limit n).mp hl with ⟨rfl, rfl⟩ | ⟨rfl, rfl⟩ <;>
      simp [Measure.Exact, Measure.number]

/-- Readings with limits of 2 ^ 63. -/
def wideReadings : Validation :=
  readingValidation { maximum := some 9223372036854775808 }
    { minLength := some 9223372036854775808 }

/-- A number that is the maximum of 2 ^ 63 is reported, since the literal it is compared with has
    been clipped; and no note is reported for being shorter than the minimum of 2 ^ 63, which has
    wrapped around to a negative length. -/
theorem wideReadings_not_told : ∃ funcs, (wideReadings.compileAll "Reading" none).Yields funcs ∧
    ∀ q, ∃ z m code, m.quantity = q ∧ wideReadings.Looks ⟨"Reading", none⟩ z ∧
      wideReadings.Measured z m ∧ wideReadings.Emits z code ∧
      (∃ f ∈ funcs, code ⊆ f.body.parts) ∧ ¬ wideReadings.Tells z m code := by
  obtain ⟨funcs, h⟩ : ∃ funcs, (wideReadings.compileAll "Reading" none).Yields funcs := by
    decide +kernel
  -- Each of the two values has one limit, which is not kept.
  have notTold : ∀ limit n {z m}, wideReadings.Looks ⟨"Reading", none⟩ z →
      wideReadings.Measured z m →
      (∀ limit n, wideReadings.Constrains z (.length limit n) → n < 2 ^ 64) →
      (∀ limit' n', wideReadings.Limited z m limit' n' ↔ limit' = limit ∧ n' = n) →
      ¬ m.Exact limit n →
      ∃ code, wideReadings.Emits z code ∧ (∃ f ∈ funcs, code ⊆ f.body.parts) ∧
        ¬ wideReadings.Tells z m code := by
    intro limit n z m hz hm hsize hone hno
    obtain ⟨code, he⟩ := hm.emits
    obtain ⟨c, hc, -⟩ := (hone limit n).mpr ⟨rfl, rfl⟩
    obtain ⟨stmt, hmem, -⟩ := he.exists_check hc
    obtain ⟨f, hf, -, hsub⟩ := he.subset_parts h rfl .refl hz (List.ne_nil_of_mem hmem)
    exact ⟨code, he, ⟨f, hf, hsub⟩, fun ht => hno ((he.tells_iff hm hsize hone).mp ht)⟩
  refine ⟨funcs, h, fun q => ?_⟩
  cases q with
  | length =>
    obtain ⟨z, e, hz, hm, hlengths, hlimits⟩ := readingValidation_note
      { maximum := some 9223372036854775808 } { minLength := some 9223372036854775808 }
    have hsize : ∀ limit n, wideReadings.Constrains z (.length limit n) → n < 2 ^ 64 := by
      intro limit n hc
      have hn : limit = .lower ∧ n = 9223372036854775808 := by
        simpa [Rules.lengths] using hlengths limit n hc
      omega
    have hone : ∀ limit n, wideReadings.Limited z (.length e) limit n ↔
        limit = .lower ∧ n = 9223372036854775808 := by
      intro limit n
      rw [wideReadings, hlimits]
      simp [Rules.lengths, and_assoc]
    have hlost : ¬ (Measure.length e).Exact .lower 9223372036854775808 := by
      simp [Measure.Exact, Measure.length]
    obtain ⟨code, hcode⟩ := notTold .lower _ hz hm hsize hone hlost
    exact ⟨z, _, code, rfl, hz, hm, hcode⟩
  | number =>
    obtain ⟨z, e, hz, hm, hlengths, hbounds⟩ := readingValidation_count
      { maximum := some 9223372036854775808 } { minLength := some 9223372036854775808 }
    have hone : ∀ limit n, wideReadings.Limited z (.number .uint64 e) limit n ↔
        limit = .upper ∧ n = 9223372036854775808 := by
      have hmaximum : Decimal.integer? 9223372036854775808 = some 9223372036854775808 := by
        decide +kernel
      intro limit n
      rw [wideReadings, hbounds]
      simp [Rules.bounds, and_assoc, hmaximum, eq_comm]
    have hlost : ¬ (Measure.number .uint64 e).Exact .upper 9223372036854775808 := by
      simp [Measure.Exact, Measure.number, Primitive.greatest, Primitive.bits,
        Primitive.isUnsigned]
    obtain ⟨code, hcode⟩ := notTold .upper _ hz hm
      (fun limit n hc => absurd hc (hlengths limit n)) hone hlost
    exact ⟨z, _, code, rfl, hz, hm, hcode⟩

end Validation
end Shapewright
