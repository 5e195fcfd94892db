/-!
# Integral doubles

Which doubles are integers, and which integers they are. A double is taken apart into its sign, its
significand and its exponent, so that the integer is exact whatever its size.

Bounds and defaults of a design are doubles, and code for a field of integers needs integers. No
rounding is involved in finding out whether a double is one. What happens to an integer that is too
large for 64 bits is the matter of `saturated`, and of those who use it.
-/

namespace Shapewright
namespace Decimal

/-- The natural number `significand * 2 ^ exponent`, if it is one. A negative exponent divides, and
    what is left over means that there is no such number. -/
def scaled? (significand : Nat) (exponent : Int) : Option Nat :=
  if 0 ≤ exponent then some (significand * Nat.pow 2 exponent.toNat)
  else if significand % Nat.pow 2 (-exponent).toNat == 0 then
    some (significand / Nat.pow 2 (-exponent).toNat)
  else none

/-- The integer that a double is, if it is one. No rounding takes place, and an infinite value is
    none. -/
def integer? (x : Float) : Option Int :=
  match x.toModel.unpack with
  | .zero _ => some 0
  | .finite sign significand exponent _ =>
    (scaled? significand exponent).map fun n : Nat => sign.apply n
  | .infinity _ | .notANumber => none

/-- The nearest signed integer of 64 bits. An integer that is too large becomes the largest one. -/
def saturated (i : Int) : Int := max (-Nat.pow 2 63) (min i (Nat.pow 2 63 - 1))

end Decimal
end Shapewright
