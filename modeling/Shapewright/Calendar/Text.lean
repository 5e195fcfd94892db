import Shapewright.Calendar
import Shapewright.Text.Blank

/-!
# Dates and times in texts

Two formats: dates written year, month, day with hyphens between them, and the date-times of RFC
3339. Texts are read from the front and the first fault wins. In a date the numbers need not be
padded and may have white space before them; in a date-time every digit is in its place.

## Faults

Which fault is reported decides the message of a design that is rejected, so the order in which
things are looked at belongs to the behaviour. The range of a number is checked as soon as the
number is read, and whether the day exists only when all three numbers are known. That a text
ends early and that something stands behind its end are told apart.
-/

namespace Shapewright
namespace Calendar

/-- Why a text is no date or no date-time. -/
inductive TextFault where
  /-- A number that is too large or too small, or a day that does not exist. -/
  | outOfRange
  | invalid
  | tooShort
  | trailing
deriving Repr, DecidableEq

namespace TextFault

/-- The text of a fault. -/
def message : TextFault → String
  | .outOfRange => "input is out of range"
  | .invalid => "input contains invalid characters"
  | .tooShort => "premature end of input"
  | .trailing => "trailing input"

end TextFault

/-- Reads something from the front of a text and leaves the rest. -/
abbrev Scan (α : Type) := List Char → Except TextFault (α × List Char)

/-- The number that digits stand for. -/
def numeral (ds : List Char) : Nat := ds.foldl (fun n d => n * 10 + (d.toNat - '0'.toNat)) 0

/-- Reads a number of at least one digit and at most `limit`. What follows the digits is left to be
    read. A text that has ended is told from one with another character. -/
def number (limit : Nat) : Scan Nat := fun s =>
  let ds := (s.take limit).takeWhile Char.isDigit
  match s, ds with
  | [], _ => .error .tooShort
  | _, [] => .error .invalid
  | s, ds => .ok (numeral ds, s.drop ds.length)

/-- Reads one character, which must satisfy `accept`. -/
def character (accept : Char → Bool) : Scan Unit
  | [] => .error .tooShort
  | c :: rest => if accept c then .ok ((), rest) else .error .invalid

/-- Fails unless `ok` holds. -/
def inRange (ok : Bool) : Except TextFault Unit := if ok then .ok () else .error .outOfRange

/-- The text without the white space at its start. -/
def skipBlank (s : List Char) : List Char := s.dropWhile Text.isBlank

/-! ## Dates -/

/-- Reads a year: four digits at most, or any number of digits behind a sign. Whether the calendar
    has such a year is left to the date, which is made of the parts once they are read. -/
def year : Scan Int := fun s =>
  match skipBlank s with
  | '-' :: s => do
    let (n, rest) ← number s.length s
    inRange (n ≤ Nat.pow 2 31)
    .ok (-(n : Int), rest)
  | '+' :: s => do
    let (n, rest) ← number s.length s
    inRange (n < Nat.pow 2 31)
    .ok ((n : Int), rest)
  | s => do
    let (n, rest) ← number 4 s
    .ok ((n : Int), rest)

/-- Reads the number of a month or a day, which is at most `last`. -/
def part (last : Nat) : Scan Nat := fun s => do
  let (n, rest) ← number 2 (skipBlank s)
  inRange (1 ≤ n && n ≤ last)
  .ok (n, rest)

/-- Reads the whole text as a date. The numbers are read one after another, each in its own range,
    and then it is decided whether there is such a day. -/
def readDate (s : String) : Except TextFault Date := do
  let (y, rest) ← year s.toList
  let ((), rest) ← character (· == '-') rest
  let (m, rest) ← part 12 rest
  let ((), rest) ← character (· == '-') rest
  let (d, rest) ← part 31 rest
  if !rest.isEmpty then .error .trailing
  match date? y m d with
  | some date => .ok date
  | none => .error .outOfRange

/-! ## Date-times -/

/-- A date with a time and its distance from universal time in minutes. -/
structure DateTime where
  date : Date
  hour : Nat
  minute : Nat
  /-- The 60th second is a leap second. -/
  second : Nat
  offset : Int

/-- Reads a number of exactly `count` digits. A text that ends too early is told from one with
    another character in it. -/
def fixedDigits : (count : Nat) → Scan Nat
  | 0, s => .ok (0, s)
  | count + 1, s => do
    match s with
    | [] => .error .tooShort
    | c :: rest =>
      if c.isDigit then
        let (n, rest) ← fixedDigits count rest
        .ok ((c.toNat - '0'.toNat) * Nat.pow 10 count + n, rest)
      else .error .invalid

/-- Skips the fraction of a second, if there is one. It may have any number of digits, and what they
    say is not kept. -/
def fraction : Scan Unit
  | '.' :: s => do
    let (_, _) ← number s.length s
    .ok ((), s.dropWhile Char.isDigit)
  | s => .ok ((), s)

/-- Reads two digits. A text with a single character left is too short. -/
def digitPair : Scan Nat
  | c :: d :: rest => fixedDigits 2 (c :: d :: rest)
  | [c] => if c.utf8Size < 2 then .error .tooShort else .error .invalid
  | [] => .error .tooShort

/-- Reads a signed distance from universal time in minutes. Hyphen and minus sign are the same. The
    minutes must be below an hour, and how far the hours may go is seen to by the caller. -/
def signedOffset : Scan Int
  | [] => .error .tooShort
  | c :: rest => do
    let sign : Int ← if c == '+' then .ok 1
      else if c == '-' || c == '−' then .ok (-1)
      else .error .invalid
    let (h, rest) ← digitPair rest
    let ((), rest) ← character (· == ':') rest
    let (m, rest) ← digitPair rest
    inRange (m < 60)
    .ok (sign * (h * 60 + m), rest)

/-- Reads the distance from universal time. -/
def offset : Scan Int
  | 'Z' :: rest | 'z' :: rest => .ok (0, rest)
  | s => signedOffset s

/-- The number of characters up to the seconds. -/
def dateTimeSize : Nat := 19

/-- Reads the whole text as a date-time: date, time and distance from universal time. A second of 60
    is allowed, as the format has it for leap seconds. -/
def readDateTime (s : String) : Except TextFault DateTime := do
  if s.utf8ByteSize < dateTimeSize then .error .tooShort
  let (y, rest) ← fixedDigits 4 s.toList
  let ((), rest) ← character (· == '-') rest
  let (m, rest) ← fixedDigits 2 rest
  let ((), rest) ← character (· == '-') rest
  let (d, rest) ← fixedDigits 2 rest
  let date ← match date? y m d with
    | some date => .ok date
    | none => .error .outOfRange
  let ((), rest) ← character (fun c => c == 'T' || c == 't' || c == ' ') rest
  let (hour, rest) ← fixedDigits 2 rest
  let ((), rest) ← character (· == ':') rest
  let (minute, rest) ← fixedDigits 2 rest
  let ((), rest) ← character (· == ':') rest
  let (second, rest) ← fixedDigits 2 rest
  let ((), rest) ← fraction rest
  inRange (hour < 24 && minute < 60 && second ≤ 60)
  let (off, rest) ← offset rest
  if !rest.isEmpty then .error .trailing
  inRange (off.natAbs < 24 * 60)
  .ok { date, hour, minute, second, offset := off }

end Calendar
end Shapewright
