import Mathlib.Logic.Function.Defs
import Shapewright.Text.Quoted

/-!
# String literals read back

Go reads an interpreted string literal one character after another, and what it reads is bytes: a
character stands for its UTF-8, an escape of two hexadecimal or three octal digits for one byte, one
of four or eight hexadecimal digits for the UTF-8 of a code point. A quote or a line break that is
not escaped has no place between the quotes, and no escape may be cut off by the last quote.

Every string is written as such a literal, in characters that can be seen, and read back as its own
UTF-8; hence no two strings are written alike.

## A reader that is not made for the writer

The reader knows all escapes of the language, although the writer uses few of them: `decode` is a
statement about Go, and `encode_denotes` would say little of a reader that can read only what this
program writes. For the same reason it goes by bytes. An escape of two digits denotes a byte and not
a character, so `\x7f` is read as the string with one delete character, while a number above would
be no UTF-8 at all; the writer uses that form for control characters only.

## One character at a time

A character is written in one of three forms (`Written`), and each form is shown to have the three
properties that matter: it can be seen, its quotes are escaped, and it is read as the bytes of the
character. The statements about strings follow by induction, and nothing but `Written` is known of
the writer there.
-/

namespace Shapewright
namespace Text
namespace Quoted

/-! ## Reading a literal -/

/-- What the digits of an escape are the number of. A byte need not be a character, and a code point
    may have several bytes. -/
inductive Numbered where
  | byte
  | codePoint

/-- The bytes that a number stands for. -/
def Numbered.bytes? : Numbered → Nat → Option (List UInt8)
  | .byte, n => if n < 256 then some [UInt8.ofNat n] else none
  | .codePoint, n => if n.isValidChar then some (String.utf8EncodeChar (Char.ofNat n)) else none

/-- Where reading stands between the quotes. -/
inductive Mode where
  | plain
  /-- Behind a backslash. -/
  | escape
  /-- Inside an escape with `more` digits to come after the next one. -/
  | digits (kind : Numbered) (base more value : Nat)

/-- The value of a digit. -/
def digit? (base : Nat) (c : Char) : Option Nat :=
  let value :=
    if '0' ≤ c ∧ c ≤ '9' then c.toNat - 48
    else if 'a' ≤ c ∧ c ≤ 'f' then c.toNat - 87
    else if 'A' ≤ c ∧ c ≤ 'F' then c.toNat - 55
    else base
  if value < base then some value else none

/-- One digit more: the bytes of the number if the digit is the last one. -/
def digit (kind : Numbered) (base more value : Nat) (c : Char) : Option (Mode × List UInt8) := do
  let value := value * base + (← digit? base c)
  match more with
  | 0 => return (.plain, ← kind.bytes? value)
  | more + 1 => return (.digits kind base more value, [])

/-- What follows a backslash. -/
def escape (c : Char) : Option (Mode × List UInt8) :=
  match c with
  | 'a' => some (.plain, [7])
  | 'b' => some (.plain, [8])
  | 'f' => some (.plain, [12])
  | 'n' => some (.plain, [10])
  | 'r' => some (.plain, [13])
  | 't' => some (.plain, [9])
  | 'v' => some (.plain, [11])
  | '\\' => some (.plain, [92])
  | '"' => some (.plain, [34])
  | 'x' => some (.digits .byte 16 1 0, [])
  | 'u' => some (.digits .codePoint 16 3 0, [])
  | 'U' => some (.digits .codePoint 16 7 0, [])
  | c => digit .byte 8 2 0 c

/-- The bytes of the next character, and where reading stands behind it. -/
def step : Mode → Char → Option (Mode × List UInt8)
  | .plain, c =>
    if c = '\\' then some (.escape, [])
    else if c = '"' ∨ c = '\n' then none
    else some (.plain, String.utf8EncodeChar c)
  | .escape, c => escape c
  | .digits kind base more value, c => digit kind base more value c

/-- The bytes of what stands between the quotes. -/
def read : Mode → List Char → Option (List UInt8)
  | .plain, [] => some []
  | _, [] => none
  | mode, c :: rest => do
    let (next, bytes) ← step mode c
    (read next rest).map (bytes ++ ·)

/-- The bytes of the string that a literal denotes, if the text is one literal. -/
def decode (text : String) : Option ByteArray :=
  match text.toList with
  | '"' :: rest =>
    if rest.getLast? = some '"' then (read .plain rest.dropLast).map List.toByteArray else none
  | _ => none

/-- Whether every quote stands behind a backslash, and no backslash is the last character but
    behind another one. -/
def isEscaped : List Char → Bool
  | [] => true
  | ['\\'] => false
  | '\\' :: _ :: rest => isEscaped rest
  | c :: rest => if c = '"' then false else isEscaped rest

/-- A literal, by its looks: between the quotes every character can be seen, and every quote is
    escaped. -/
structure IsLiteral (text : String) : Prop where
  quoted : ∃ inner, text.toList = '"' :: inner ++ ['"'] ∧
    (∀ c ∈ inner, 0x20 ≤ c.toNat ∧ c.toNat ≠ 0x7f) ∧ isEscaped inner = true

/-! ## How characters are written -/

variable {c : Char} {rest : List Char}

/-- A hexadecimal digit is read as the number that it was written for. -/
theorem digit?_hexDigit : ∀ n < 16, digit? 16 (hexDigit n) = some n := by decide

theorem hexDigit_seen : ∀ n < 16, 0x20 ≤ (hexDigit n).toNat ∧ (hexDigit n).toNat ≠ 0x7f := by
  decide

/-- A hexadecimal digit is neither a quote nor a backslash. -/
theorem hexDigit_ne : ∀ n < 16, hexDigit n ≠ '"' ∧ hexDigit n ≠ '\\' := by decide

/-- The UTF-8 of a character of ASCII is one byte. -/
theorem utf8EncodeChar_of_lt (hc : c.toNat < 128) :
    String.utf8EncodeChar c = [UInt8.ofNat c.toNat] := by
  have hsize : c.utf8Size = 1 := Char.utf8Size_eq_one_iff.mpr (by
    rw [UInt32.le_iff_toNat_le]
    exact Nat.le_of_lt_succ hc)
  rw [String.utf8EncodeChar_eq_singleton hsize]
  rfl

/-- The forms in which a character is written: behind a backslash, where a letter of its own denotes
    it, as two hexadecimal digits, or as it is. -/
inductive Written (c : Char) : List Char → Prop where
  | letter {l : Char} {b : UInt8} (hseen : 0x20 ≤ l.toNat ∧ l.toNat ≠ 0x7f)
      (hread : escape l = some (.plain, [b])) (hbytes : String.utf8EncodeChar c = [b]) :
      Written c ['\\', l]
  | hex (hc : c.toNat < 128) : Written c ('\\' :: 'x' :: hexPair c.toNat)
  | plain (hseen : 0x20 ≤ c.toNat ∧ c.toNat ≠ 0x7f) (hslash : c ≠ '\\') (hquote : c ≠ '"')
      (hline : c ≠ '\n') : Written c [c]

/-- Every character is written in one of the three forms. As it is, with a backslash in front of one
    character, or with two digits for a control character. -/
theorem written_encodeChar (c : Char) : Written c (encodeChar c) := by
  unfold encodeChar
  -- Five characters have a short escape of their own, other control characters are written in
  -- hexadecimal, and the rest as they are.
  split
  · subst c
    exact .letter (by decide) rfl (by decide)
  split
  · subst c
    exact .letter (by decide) rfl (by decide)
  split
  · subst c
    exact .letter (by decide) rfl (by decide)
  split
  · subst c
    exact .letter (by decide) rfl (by decide)
  split
  · subst c
    exact .letter (by decide) rfl (by decide)
  rename_i hquote hslash hline _ _
  split
  · rename_i h
    exact .hex (by simp at h; omega)
  · rename_i h
    exact .plain (by simpa using h) hslash hquote hline

/-- What a character is written as can be seen. -/
theorem Written.seen {cs : List Char} (h : Written c cs) :
    ∀ d ∈ cs, 0x20 ≤ d.toNat ∧ d.toNat ≠ 0x7f := by
  cases h with
  | letter hseen => simp [hseen]
  | hex =>
    have h₁ := hexDigit_seen (c.toNat / 16 % 16) (Nat.mod_lt _ (by decide))
    have h₂ := hexDigit_seen (c.toNat % 16) (Nat.mod_lt _ (by decide))
    simp [hexPair, h₁, h₂]
  | plain hseen => simpa using hseen

/-- What a character is written as leaves no quote and no backslash open for what follows. -/
theorem Written.isEscaped {cs : List Char} (h : Written c cs) :
    isEscaped (cs ++ rest) = Quoted.isEscaped rest := by
  cases h with
  | letter => rfl
  | hex =>
    have h₁ := hexDigit_ne (c.toNat / 16 % 16) (Nat.mod_lt _ (by decide))
    have h₂ := hexDigit_ne (c.toNat % 16) (Nat.mod_lt _ (by decide))
    simp [hexPair, Quoted.isEscaped, h₁, h₂]
  | plain _ hslash hquote => simp [Quoted.isEscaped, hslash, hquote]

theorem read_cons {mode next : Mode} {bytes : List UInt8}
    (h : step mode c = some (next, bytes)) :
    read mode (c :: rest) = (read next rest).map (bytes ++ ·) := by
  simp [read, h]

/-- A character inside an escape stands for nothing by itself. -/
theorem read_silent {mode next : Mode} (h : step mode c = some (next, [])) :
    read mode (c :: rest) = read next rest := by
  rw [read_cons h]
  exact Option.map_id'

/-- Two hexadecimal digits are read as the byte that they were written for. The premise leaves out
    what has more than one byte, which is never written so. -/
theorem read_hexPair (hc : c.toNat < 128) : read (.digits .byte 16 1 0) (hexPair c.toNat ++ rest) =
    (read .plain rest).map (UInt8.ofNat c.toNat :: ·) := by
  have h₁ := digit?_hexDigit (c.toNat / 16 % 16) (Nat.mod_lt _ (by decide))
  have h₂ := digit?_hexDigit (c.toNat % 16) (Nat.mod_lt _ (by decide))
  have hvalue : c.toNat / 16 % 16 * 16 + c.toNat % 16 = c.toNat := by omega
  have hbyte : c.toNat < 256 := by omega
  have hfirst : step (.digits .byte 16 1 0) (hexDigit (c.toNat / 16 % 16)) =
      some (.digits .byte 16 0 (c.toNat / 16 % 16), []) := by
    simp [step, digit, h₁]
  have hlast : step (.digits .byte 16 0 (c.toNat / 16 % 16)) (hexDigit (c.toNat % 16)) =
      some (.plain, [UInt8.ofNat c.toNat]) := by
    simp only [step, digit, h₂, Option.bind_eq_bind, Option.bind_some, hvalue, Numbered.bytes?,
      hbyte]
    rfl
  rw [hexPair, List.cons_append, List.singleton_append, read_silent hfirst, read_cons hlast]
  rfl

/-- What a character is written as is read as the UTF-8 of the character, whatever follows. One case
    for each of the three forms, and none of them looks at what follows. -/
theorem Written.read {cs : List Char} (h : Written c cs) : read .plain (cs ++ rest) =
    (Quoted.read .plain rest).map (String.utf8EncodeChar c ++ ·) := by
  have hslash : step .plain '\\' = some (.escape, []) := rfl
  cases h with
  | @letter l b _ hread hbytes =>
    have hletter : step .escape l = some (.plain, [b]) := hread
    rw [List.cons_append, List.singleton_append, read_silent hslash, read_cons hletter, hbytes]
  -- -- The backslash and the letter `x` are read without a byte, and the two digits give one.
  | hex hc =>
    have hx : step .escape 'x' = some (.digits .byte 16 1 0, []) := rfl
    rw [utf8EncodeChar_of_lt hc, List.cons_append, List.cons_append, read_silent hslash,
      read_silent hx, read_hexPair hc]
    rfl
  | plain _ hslash hquote hline => exact read_cons (by simp [step, hslash, hquote, hline])

/-! ## Whole strings -/

theorem seen_encodeChars {s : List Char} :
    ∀ c ∈ s.flatMap encodeChar, 0x20 ≤ c.toNat ∧ c.toNat ≠ 0x7f := by
  intro d hd
  obtain ⟨c, -, hd⟩ := List.mem_flatMap.mp hd
  exact (written_encodeChar c).seen d hd

theorem isEscaped_encodeChars (s : List Char) : isEscaped (s.flatMap encodeChar) = true := by
  induction s with
  | nil => rfl
  | cons c s ih => rw [List.flatMap_cons, (written_encodeChar c).isEscaped, ih]

theorem read_encodeChars (s : List Char) :
    read .plain (s.flatMap encodeChar) = some (s.flatMap String.utf8EncodeChar) := by
  induction s with
  | nil => rfl
  | cons c s ih => rw [List.flatMap_cons, (written_encodeChar c).read, ih]; rfl

theorem isLiteral_encode (s : String) : IsLiteral (encode s) where
  quoted := ⟨s.toList.flatMap encodeChar, String.toList_ofList, seen_encodeChars,
    isEscaped_encodeChars _⟩

/-- The literal that a string is written as denotes the UTF-8 of the string. -/
theorem decode_encode (s : String) : decode (encode s) = some s.toUTF8 := by
  have hbytes : (s.toList.flatMap String.utf8EncodeChar).toByteArray = s.toUTF8 :=
    String.utf8Encode_toList
  unfold decode encode
  rw [String.toList_ofList, encodeChars]
  simp [read_encodeChars, hbytes]

/-- Every string is written as one literal, of characters that can be seen and with every inner
    quote escaped, and the literal denotes the string. No two strings are written alike, since a
    literal is read as one string of bytes and a string is determined by its UTF-8. -/
theorem encode_denotes : (∀ s, IsLiteral (encode s) ∧ decode (encode s) = some s.toUTF8) ∧
    Function.Injective encode := by
  refine ⟨fun s => ⟨isLiteral_encode s, decode_encode s⟩, fun s t h => ?_⟩
  have hbytes : some s.toUTF8 = some t.toUTF8 := by rw [← decode_encode, ← decode_encode, h]
  exact String.toByteArray_inj.mp (Option.some.inj hbytes)

end Quoted
end Text
end Shapewright
