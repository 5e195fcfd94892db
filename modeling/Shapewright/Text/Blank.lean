/-!
# Blank characters

The characters that separate words: those with the Unicode property `White_Space`.

They are more than the blanks of JSON, which has four. Texts of dates and lines of documents go by
the characters here, since they are looked at as texts; what stands between the values of JSON goes
by the others.
-/

namespace Shapewright
namespace Text

/-- Whether a character is white space. -/
def isBlank (c : Char) : Bool :=
  let n := c.toNat
  (0x09 ≤ n && n ≤ 0x0D) || n == 0x20 || n == 0x85 || n == 0xA0 || n == 0x1680
    || (0x2000 ≤ n && n ≤ 0x200A) || n == 0x2028 || n == 0x2029 || n == 0x202F || n == 0x205F
    || n == 0x3000

end Text
end Shapewright
