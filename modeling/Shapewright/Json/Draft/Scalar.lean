import Shapewright.Json.Draft

/-!
# Scalars of JSON text

Words, strings and numbers, each read from the front of a text and returned with the rest of it.
Every scalar comes in two strengths: reading it, and passing it over, which checks only its
outline.

A number with a point or an exponent, or beyond 64 bits, is a double: its digits are gathered into
a significand of 64 bits, digits that no longer fit are dropped, and the significand is scaled once
by a power of ten. That is not always the nearest double, but it is always the same one.
-/

namespace Shapewright
namespace Json
namespace Draft

/-- The blanks of JSON. -/
def isBlank (c : Char) : Bool := c == ' ' || c == '\n' || c == '\t' || c == '\r'

/-- The text after its leading blanks. -/
def skipBlank (cs : List Char) : List Char := cs.dropWhile isBlank

/-- Reads the rest of a word such as `true`. -/
def word : (letters : List Char) → List Char → Except SyntaxFault (List Char)
  | [], cs => .ok cs
  | _ :: _, [] => .error .endInValue
  | l :: ls, c :: cs => if c = l then word ls cs else .error .wrongWord

/-! ## Strings -/

/-- The value of a hexadecimal digit, in either case. -/
def hexValue? (c : Char) : Option Nat :=
  if c.isDigit then some (c.toNat - 48)
  else if 'a' ≤ c ∧ c ≤ 'f' then some (c.toNat - 87)
  else if 'A' ≤ c ∧ c ≤ 'F' then some (c.toNat - 55)
  else none

/-- Four hexadecimal digits. Too short a rest is an unfinished string; it is measured in bytes. -/
def hexFour (cs : List Char) : Except SyntaxFault (Nat × List Char) :=
  match cs with
  | a :: b :: c :: d :: rest =>
    match hexValue? a, hexValue? b, hexValue? c, hexValue? d with
    | some a, some b, some c, some d => .ok (((a * 16 + b) * 16 + c) * 16 + d, rest)
    | _, _, _, _ => .error .wrongEscape
  | _ =>
    if (cs.map Char.utf8Size).foldr (· + ·) 0 < 4 then .error .endInString
    else .error .wrongEscape

/-- The character of a pair of surrogates. -/
def joinSurrogates (high low : Nat) : Char :=
  Char.ofNat ((high - 0xD800) * 0x400 + (low - 0xDC00) + 0x10000)

/-- Reads what follows `\u`: one unit, or two where the first is a high surrogate. A low surrogate
    on its own is a fault, and so is a high one that none follows. -/
def unicodeEscape (cs : List Char) : Except SyntaxFault (Char × List Char) := do
  let (high, rest) ← hexFour cs
  if 0xDC00 ≤ high ∧ high ≤ 0xDFFF then .error .loneSurrogate
  else if high < 0xD800 ∨ 0xDBFF < high then .ok (Char.ofNat high, rest)
  else match rest with
    | [] => .error .endInString
    | '\\' :: [] => .error .endInString
    | '\\' :: 'u' :: rest => do
      let (low, rest) ← hexFour rest
      if low < 0xDC00 ∨ 0xDFFF < low then .error .loneSurrogate
      else .ok (joinSurrogates high low, rest)
    | _ => .error .halfSurrogate

/-- The character of a one-letter escape. There are eight of them, and any other letter behind a
    backslash is a fault. -/
def letterEscape? (c : Char) : Option Char :=
  if c = '"' then some '"'
  else if c = '\\' then some '\\'
  else if c = '/' then some '/'
  else if c = 'b' then some (Char.ofNat 8)
  else if c = 'f' then some (Char.ofNat 12)
  else if c = 'n' then some '\n'
  else if c = 'r' then some '\r'
  else if c = 't' then some '\t'
  else none

/-- Reads the rest of a string, its closing quote included; `met` is what was read, reversed.
    Control characters have to be escaped. -/
def stringRest : (fuel : Nat) → (met : List Char) → List Char →
    Except SyntaxFault (String × List Char)
  | 0, _, _ => .error .endInString
  | _ + 1, _, [] => .error .endInString
  | fuel + 1, met, c :: cs =>
    if c = '"' then .ok (String.ofList met.reverse, cs)
    else if c = '\\' then
      match cs with
      | [] => .error .endInString
      | e :: cs =>
        if e = 'u' then
          match unicodeEscape cs with
          | .ok (x, cs) => stringRest fuel (x :: met) cs
          | .error why => .error why
        else match letterEscape? e with
          | some x => stringRest fuel (x :: met) cs
          | none => .error .wrongEscape
    else if c.toNat < 0x20 then .error .controlCharacter
    else stringRest fuel (c :: met) cs

/-- Passes over the rest of a string: escapes need their outline only. Surrogates are not joined,
    and whether they come in pairs is not looked at. -/
def passString : (fuel : Nat) → List Char → Except SyntaxFault (List Char)
  | 0, _ => .error .endInString
  | _ + 1, [] => .error .endInString
  | fuel + 1, c :: cs =>
    if c = '"' then .ok cs
    else if c = '\\' then
      match cs with
      | [] => .error .endInString
      | e :: cs =>
        if e = 'u' then
          match hexFour cs with
          | .ok (_, cs) => passString fuel cs
          | .error why => .error why
        else if (letterEscape? e).isSome then passString fuel cs
        else .error .wrongEscape
    else if c.toNat < 0x20 then .error .controlCharacter
    else passString fuel cs

/-! ## Numbers -/

/-- The value of a decimal digit. -/
def digitValue (c : Char) : Nat := c.toNat - 48

/-- The significand gathered so far and the power of ten that belongs to it. -/
structure Scale where
  significand : Nat
  exponent : Int

/-- Whether one more digit fits into 64 bits. -/
def fits (significand : Nat) (c : Char) : Bool := significand * 10 + digitValue c < Nat.pow 2 64

/-- Reads the digits before the point. The first digit that does not fit, and all digits after it,
    only raise the exponent. -/
def wholeDigits (s : Scale) : List Char → Scale × List Char
  | [] => (s, [])
  | c :: cs =>
    if c.isDigit then
      if s.exponent == 0 && fits s.significand c then
        wholeDigits ⟨s.significand * 10 + digitValue c, 0⟩ cs
      else wholeDigits ⟨s.significand, s.exponent + 1⟩ cs
    else (s, c :: cs)

/-- Reads the digits after the point. The first digit that does not fit, and all digits after it,
    are dropped. -/
def fractionDigits (s : Scale) : List Char → Scale × List Char
  | [] => (s, [])
  | c :: cs =>
    if c.isDigit then
      if fits s.significand c then
        fractionDigits ⟨s.significand * 10 + digitValue c, s.exponent - 1⟩ cs
      else (s, cs.dropWhile Char.isDigit)
    else (s, c :: cs)

/-- Scales by a power of ten; `none` is out of range. Powers below the least one are taken in
    two or three steps. -/
def scale : (steps : Nat) → Float → Int → Option Float
  | 0, f, _ => some f
  | steps + 1, f, e =>
    if e.natAbs ≤ 308 then
      let power := Float.ofScientific 1 false e.natAbs
      if 0 ≤ e then
        let g := f * power
        if g.isInf then none else some g
      else some (f / power)
    else if f == 0 then some f
    else if 0 ≤ e then none
    else scale steps (f / 1e308) (e + 308)

/-- The double of a gathered number. -/
def Scale.toFloat (negative : Bool) (s : Scale) : Except SyntaxFault Float :=
  match scale 8 s.significand.toUInt64.toFloat s.exponent with
  | some f => .ok (if negative then -f else f)
  | none => .error .numberOutOfRange

/-- The largest exponent that is counted. -/
def exponentLimit : Nat := 2147483647

/-- Reads the digits of an exponent; `none` is beyond the limit. -/
def exponentDigits (e : Option Nat) : List Char → Option Nat × List Char
  | [] => (e, [])
  | c :: cs =>
    if c.isDigit then
      exponentDigits
        (e.bind fun e =>
          if e * 10 + digitValue c ≤ exponentLimit then some (e * 10 + digitValue c) else none) cs
    else (e, c :: cs)

/-- Reads what follows the letter of an exponent and finishes the number. An exponent that is too
    great for any number is zero or out of range, as its sign and the digits before it say. -/
def exponentRest (negative : Bool) (s : Scale) (cs : List Char) :
    Except SyntaxFault (Draft × List Char) :=
  let (down, cs) := match cs with
    | '+' :: cs => (false, cs)
    | '-' :: cs => (true, cs)
    | cs => (false, cs)
  match cs with
  | [] => .error .endInValue
  | c :: _ =>
    if !c.isDigit then .error .wrongNumber
    else match exponentDigits (some 0) cs with
      | (some e, rest) => do
        let f ← Scale.toFloat negative
          ⟨s.significand, if down then s.exponent - e else s.exponent + e⟩
        .ok (.float f, rest)
      | (none, rest) =>
        if s.significand != 0 && !down then .error .numberOutOfRange
        else .ok (.float (if negative then -0.0 else 0.0), rest)

/-- Finishes a number after its whole digits. Without a point, an exponent or dropped digits it is
    an integer, unless it is below all 64-bit integers or a zero with a sign. -/
def numberRest (negative : Bool) (s : Scale) (cs : List Char) :
    Except SyntaxFault (Draft × List Char) :=
  match cs with
  | '.' :: cs =>
    match cs with
    | [] => .error .endInValue
    | c :: _ =>
      if !c.isDigit then .error .wrongNumber
      else
        let (s, rest) := fractionDigits s cs
        match rest with
        | 'e' :: rest | 'E' :: rest => exponentRest negative s rest
        | rest => do
          let f ← Scale.toFloat negative s
          .ok (.float f, rest)
  | 'e' :: cs | 'E' :: cs => exponentRest negative s cs
  | cs =>
    if s.exponent != 0 then do
      let f ← Scale.toFloat negative s
      .ok (.float f, cs)
    else if !negative then .ok (.integer s.significand, cs)
    else if s.significand == 0 || s.significand > Nat.pow 2 63 then
      .ok (.float (-s.significand.toUInt64.toFloat), cs)
    else .ok (.integer (-(s.significand : Int)), cs)

/-- Reads a number after its sign. A leading zero stands alone, in front of the fraction. -/
def number (negative : Bool) (cs : List Char) : Except SyntaxFault (Draft × List Char) :=
  match cs with
  | [] => .error .endInValue
  | '0' :: cs =>
    match cs with
    | c :: _ => if c.isDigit then .error .wrongNumber else numberRest negative ⟨0, 0⟩ cs
    | [] => numberRest negative ⟨0, 0⟩ []
  | c :: _ =>
    if c.isDigit then
      let (s, rest) := wholeDigits ⟨0, 0⟩ cs
      numberRest negative s rest
    else .error .wrongNumber

/-- Passes over at least one digit. -/
def passDigits (cs : List Char) : Except SyntaxFault (List Char) :=
  match cs with
  | [] => .error .wrongNumber
  | c :: cs => if c.isDigit then .ok (cs.dropWhile Char.isDigit) else .error .wrongNumber

/-- Passes over an exponent, if there is one. -/
def passExponent (cs : List Char) : Except SyntaxFault (List Char) :=
  match cs with
  | 'e' :: cs | 'E' :: cs =>
    match cs with
    | '+' :: cs | '-' :: cs => passDigits cs
    | cs => passDigits cs
  | cs => .ok cs

/-- Passes over a number after its sign. -/
def passNumber (cs : List Char) : Except SyntaxFault (List Char) := do
  let rest ← match cs with
    | '0' :: c :: cs => if c.isDigit then .error .wrongNumber else .ok (c :: cs)
    | '0' :: [] => .ok []
    | cs => passDigits cs
  match rest with
  | '.' :: rest => do passExponent (← passDigits rest)
  | rest => passExponent rest

end Draft
end Json
end Shapewright
