import Mathlib.Algebra.Order.Ring.Int
import Shapewright.Schema.Primitive

/-!
# The values of the integer kinds

A kind of integers has all values from a least to a greatest one. The kinds without a width in their
name are 64 bits wide.

## Use

Two questions turn on these ranges. A default that is pasted into code has to be a value of its kind
(`Registry.Usable`), and a limit that is compared with values of a kind has to be on the right side
of all of them, also when it was replaced on the way (`Measure.Exact`). `range_bounds` holds of all
kinds at once and is what the second takes from here.
-/

namespace Shapewright
namespace Primitive

variable {p : Primitive} {i : Int}

/-- How many bits a value of the kind has. -/
def bits : Primitive → Nat
  | .int32 | .uint32 => 32
  | _ => 64

/-- The kinds with a width in their name. -/
def isFixedWidth : Primitive → Bool
  | .int32 | .int64 | .uint32 | .uint64 => true
  | _ => false

/-- The least value of the kind. -/
def least (p : Primitive) : Int := if p.isUnsigned then 0 else -2 ^ (p.bits - 1)

/-- The greatest value of the kind. -/
def greatest (p : Primitive) : Int := if p.isUnsigned then 2 ^ p.bits - 1 else 2 ^ (p.bits - 1) - 1

/-- The integer is a value of the kind. For kinds that are no integers the range says nothing. -/
def Holds (p : Primitive) (i : Int) : Prop := p.least ≤ i ∧ i ≤ p.greatest

instance : Decidable (p.Holds i) := inferInstanceAs (Decidable (_ ∧ _))

/-- Every kind has the signed integers from zero on that are shorter than all widths, and none that
    is less than all signed integers of 64 bits. -/
theorem range_bounds (p : Primitive) :
    -2 ^ 63 ≤ p.least ∧ p.least ≤ 0 ∧ 2 ^ 31 - 1 ≤ p.greatest := by
  cases p <;> decide

end Primitive
end Shapewright
