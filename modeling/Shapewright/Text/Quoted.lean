/-!
# Quoted text

Strings reach generated code as interpreted string literals of Go: between double quotes, with a
backslash before what may not stand for itself. Control characters that have no letter of their own
are written with two hexadecimal digits; everything else, non-ASCII text included, is written as it
is.

A character is written without regard to its neighbours, which is what makes a literal readable from
the front: no escape that is written here can take in a character that follows it.
-/

namespace Shapewright
namespace Text
namespace Quoted

/-- A hexadecimal digit, in lower case. -/
def hexDigit (n : Nat) : Char :=
  if n < 10 then Char.ofNat (48 + n) else Char.ofNat (87 + n)

/-- Two hexadecimal digits. -/
def hexPair (n : Nat) : List Char := [hexDigit (n / 16 % 16), hexDigit (n % 16)]

/-- How one character is written inside the quotes. -/
def encodeChar (c : Char) : List Char :=
  if c = '"' then ['\\', '"']
  else if c = '\\' then ['\\', '\\']
  else if c = '\n' then ['\\', 'n']
  else if c = '\r' then ['\\', 'r']
  else if c = '\t' then ['\\', 't']
  else if c.toNat < 0x20 || c.toNat == 0x7f then '\\' :: 'x' :: hexPair c.toNat
  else [c]

/-- The literal, quotes included, on characters. -/
def encodeChars (s : List Char) : List Char := '"' :: s.flatMap encodeChar ++ ['"']

/-- The string literal that denotes `s`. -/
def encode (s : String) : String := String.ofList (encodeChars s.toList)

end Quoted
end Text
end Shapewright
