import Shapewright.Decimal.Shortest

/-!
# Layout of decimals

How the digits of a number are written down: where the point goes, when an exponent is used and how
it looks. A format is one `Layout`; the two formats of this library stand at the end.

The digits come from `Decimal/Shortest` and are never changed here, so both formats denote the same
number. They differ in three things: from which exponents on they leave the positional form, whether
an integral number keeps a point, and which of two digits is taken where both are equally near.
-/

namespace Shapewright
namespace Decimal

/-- The decisions of a number format. -/
structure Layout where
  /-- The least exponent of the leading digit that is still written positionally, if any is too
      small. -/
  positionalFrom : Option Int
  /-- The exponents of the leading digit from here on are written with an exponent. -/
  positionalBelow : Option Int
  /-- Integral values are written with a point and a zero. -/
  pointZero : Bool
  /-- Which of two equally near digits is taken. -/
  tie : Tie

/-- The digits of a natural number in base ten. -/
def digitsOf (n : Nat) : List Char := Nat.toDigits 10 n

/-- A signed exponent. -/
def exponentChars (e : Int) : List Char :=
  if e < 0 then '-' :: digitsOf e.natAbs else '+' :: digitsOf e.natAbs

/-- The positional form of `d`. Zeros are filled in on either side of the digits as far as the
    point. -/
def positional (l : Layout) (d : Decimal) : List Char :=
  let ds := digitsOf d.digits
  if 0 ≤ d.exponent then
    ds ++ List.replicate d.exponent.toNat '0' ++ (if l.pointZero then ['.', '0'] else [])
  else
    let places := d.exponent.natAbs
    if places < ds.length then ds.take (ds.length - places) ++ '.' :: ds.drop (ds.length - places)
    else '0' :: '.' :: List.replicate (places - ds.length) '0' ++ ds

/-- The form of `d` with one digit before the point and an exponent, `e` for the leading digit. The
    point is left out where there is one digit only. -/
def scientific (d : Decimal) (e : Int) : List Char :=
  let mantissa := match digitsOf d.digits with
    | [c] => [c]
    | c :: r => c :: '.' :: r
    | [] => []
  mantissa ++ 'e' :: exponentChars e

/-- The text of a non-negative decimal without trailing zeros. Which of the two forms is used
    depends on the exponent of the leading digit, and on the layout. -/
def layout (l : Layout) (d : Decimal) : List Char :=
  if d.digits == 0 then if l.pointZero then ['0', '.', '0'] else ['0']
  else
    let e := d.exponent + ((digitsOf d.digits).length : Int) - 1
    if l.positionalFrom.all (· ≤ e) && l.positionalBelow.all (e < ·) then positional l d
    else scientific d e

/-- The text of a double. -/
def Layout.text (l : Layout) (x : Float) : String :=
  let bits := x.toBits
  let sign := if bits >>> 63 == 1 then ['-'] else []
  if x.isNaN then "NaN"
  else if x.isInf then String.ofList (sign ++ ['i', 'n', 'f'])
  else String.ofList (sign ++ layout l ((Binary.ofBits bits).shortest l.tie))

/-- Numbers in JSON text: positional where the leading digit has an exponent from -5 to 15, with
    a point in every case, otherwise with a signed exponent. -/
def jsonLayout : Layout where
  positionalFrom := some (-5)
  positionalBelow := some 16
  pointZero := true
  tie := .toEven

/-- Numbers in generated code: positional throughout, integral values without a point. A literal of
    a float type may be written as an integer, so the point is not needed. -/
def codeLayout : Layout where
  positionalFrom := none
  positionalBelow := none
  pointZero := false
  tie := .up

end Decimal
end Shapewright
