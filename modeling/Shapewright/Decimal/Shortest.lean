/-!
# Shortest decimals

Every finite binary number stands for the interval of reals that round to it. This module finds, in
exact integer arithmetic, a decimal with the fewest digits in that interval, and of those the one
nearest to the number. Nothing here decides how the digits are written down.

The search tries the powers of ten from the magnitude of the number downwards. At each of them only
the two multiples next to the number can be candidates, and the first power at which one of them
reads back gives the fewest digits. It ends with the number itself, which has finitely many digits
because two divides ten.
-/

namespace Shapewright

/-- The decimal number `digits * 10 ^ exponent`. -/
structure Decimal where
  digits : Nat
  exponent : Int
deriving Repr, DecidableEq

namespace Decimal

/-- A non-negative finite binary number `significand * 2 ^ exponent`. -/
structure Binary where
  significand : Nat
  exponent : Int
  /-- The neighbour below is only half as far away as the neighbour above. -/
  tightBelow : Bool
deriving Repr, DecidableEq

/-- The magnitude that a double's bits stand for. Infinities and not-a-number are no such number
    and are told apart before. -/
def Binary.ofBits (bits : UInt64) : Binary :=
  let e := ((bits >>> 52) &&& 0x7FF).toNat
  let f := (bits &&& 0xFFFFFFFFFFFFF).toNat
  if e == 0 then ⟨f, -1074, false⟩
  else ⟨Nat.pow 2 52 + f, (e : Int) - 1075, f == 0 && e > 1⟩

/-- Which of two equally near candidates is taken. -/
inductive Tie where
  | toEven
  | up
deriving Repr, DecidableEq

/-- Compares `a * 10 ^ i` with `n * 2 ^ j`, exactly. -/
def compareScaled (a : Nat) (i : Int) (n : Nat) (j : Int) : Ordering :=
  compare (a * Nat.pow 10 i.toNat * Nat.pow 2 (-j).toNat)
    (n * Nat.pow 2 j.toNat * Nat.pow 10 (-i).toNat)

/-- `d` lies among the reals that round to `x`; the ends belong to the interval exactly when the
    significand is even. -/
def Binary.readsBack (x : Binary) (d : Decimal) : Bool :=
  let low := if x.tightBelow then 4 * x.significand - 1 else 4 * x.significand - 2
  let high := 4 * x.significand + 2
  let closed := x.significand % 2 == 0
  let cl := compareScaled d.digits d.exponent low (x.exponent - 2)
  let ch := compareScaled d.digits d.exponent high (x.exponent - 2)
  (cl == .gt || (closed && cl == .eq)) && (ch == .lt || (closed && ch == .eq))

/-- The least `k` with `x < 10 ^ k`, for a number that is not zero. The logarithm estimates it
    from below and misses by less than three. -/
def Binary.magnitude (x : Binary) : Int :=
  let estimate := Int.fdiv (((x.significand.log2 : Int) + x.exponent) * 30103) 100000
  let candidates := [estimate, estimate + 1, estimate + 2]
  let above? := candidates.find? fun k => compareScaled 1 k x.significand x.exponent == .gt
  above?.getD (estimate + 3)

/-- The largest multiple of `10 ^ e` that is at most `x`, counted in units of `10 ^ e`. -/
def Binary.floorAt (x : Binary) (e : Int) : Nat :=
  (x.significand * Nat.pow 2 x.exponent.toNat * Nat.pow 10 (-e).toNat)
    / (Nat.pow 2 (-x.exponent).toNat * Nat.pow 10 e.toNat)

/-- Whether `x` is nearer to `n` or to `n + 1` units of `10 ^ e`, where it lies between them. -/
def Binary.sideAt (x : Binary) (n : Nat) (e : Int) : Ordering :=
  compareScaled (2 * n + 1) e (2 * x.significand) x.exponent

/-- The better of the two neighbours of `x` among the multiples of `10 ^ e`, if one reads back.
    Where both do, the nearer one is taken, and a tie is settled as the printer of the number
    settles it. -/
def Binary.candidateAt (x : Binary) (tie : Tie) (e : Int) : Option Decimal :=
  let n := x.floorAt e
  let below : Decimal := ⟨n, e⟩
  let above : Decimal := ⟨n + 1, e⟩
  match x.readsBack below, x.readsBack above with
  | true, true =>
    match x.sideAt n e, tie with
    | .gt, _ => some below
    | .lt, _ => some above
    | .eq, .up => some above
    | .eq, .toEven => if n % 2 == 0 then some below else some above
  | true, false => some below
  | false, true => some above
  | false, false => none

/-- Drops trailing zeros of the digits; `fuel` bounds their number. -/
def strip : Nat → Decimal → Decimal
  | 0, d => d
  | fuel + 1, d =>
    if d.digits != 0 && d.digits % 10 == 0 then strip fuel ⟨d.digits / 10, d.exponent + 1⟩ else d

/-- The number itself, with all its digits. -/
def Binary.exact (x : Binary) : Decimal :=
  ⟨x.significand * Nat.pow 2 x.exponent.toNat * Nat.pow 5 (-x.exponent).toNat, min x.exponent 0⟩

/-- The decimal with the fewest digits that reads back as `x`, nearest to `x` among those. Grids are
    tried from the coarsest on, so the first decimal that reads back has the fewest digits.
    Seventeen digits are always enough. -/
def Binary.shortest (x : Binary) (tie : Tie) : Decimal :=
  if x.significand == 0 then ⟨0, 0⟩
  else
    let k := x.magnitude
    let grids := (List.range 17).map (fun (i : Nat) => k - 1 - (i : Int))
    strip 20 ((grids.findSome? (x.candidateAt tie)).getD x.exact)

end Decimal
end Shapewright
