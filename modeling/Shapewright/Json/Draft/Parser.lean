import Shapewright.Json.Draft.Scalar

/-!
# Reading drafts

The grammar of JSON text. Reading stops at the first fault, with one exception: a member whose value
is faulty but can be passed over is kept together with the members after it, since a reader that has
no use for the member may go on with them.

## Passing over and reading

There are two readings of a value. Passing it over checks its outline only and keeps a stack of the
containers that are open. Reading it makes a draft and goes down by recursion. The two agree on
where a value ends, if it has an end at all, but passing over accepts a few texts that reading does
not, such as strings with half a pair of surrogates.

The functions call each other, so each takes fuel, and each call is at a character or between two of
them. Four steps for every character are enough.
-/

namespace Shapewright
namespace Json
namespace Draft

/-! ## Passing a value over -/

/-- A container that was entered and not left. -/
inductive Frame where
  | array
  | object
deriving Repr, DecidableEq

/-- The fault of a text that ends inside the container. -/
def Frame.unfinished : Frame → SyntaxFault
  | .array => .endInArray
  | .object => .endInObject

/-- The fault of a missing separator in the container. -/
def Frame.unseparated : Frame → SyntaxFault
  | .array => .noArraySeparator
  | .object => .noObjectSeparator

/-- The closing bracket of the container. -/
def Frame.bracket : Frame → Char
  | .array => ']'
  | .object => '\x7d'

mutual

/-- Passes over a value, and then over the rest of the containers around it. Numbers are looked at
    only for where they end, and strings for their outline. -/
def passValue : (fuel : Nat) → List Frame → List Char → Except SyntaxFault (List Char)
  | 0, _, _ => .error .endInValue
  | fuel + 1, frames, cs =>
    match skipBlank cs with
    | [] => .error .endInValue
    | c :: cs =>
      if c = 'n' then do passAfter fuel frames (← word ['u', 'l', 'l'] cs)
      else if c = 't' then do passAfter fuel frames (← word ['r', 'u', 'e'] cs)
      else if c = 'f' then do passAfter fuel frames (← word ['a', 'l', 's', 'e'] cs)
      else if c = '-' then do passAfter fuel frames (← passNumber cs)
      else if c.isDigit then do passAfter fuel frames (← passNumber (c :: cs))
      else if c = '"' then do passAfter fuel frames (← passString (cs.length + 1) cs)
      else if c = '[' then passOpened fuel .array frames cs
      else if c = '\x7b' then passOpened fuel .object frames cs
      else .error .noValue

/-- Goes on after an opening bracket. -/
def passOpened : (fuel : Nat) → Frame → List Frame → List Char → Except SyntaxFault (List Char)
  | 0, frame, _, _ => .error frame.unfinished
  | fuel + 1, frame, frames, cs =>
    match skipBlank cs with
    | [] => .error frame.unfinished
    | c :: cs =>
      if c = frame.bracket then passAfter fuel frames cs
      else passNext fuel frame frames (c :: cs)

/-- Goes on after a value. It ends when no container is left, with the text behind the value. -/
def passAfter : (fuel : Nat) → List Frame → List Char → Except SyntaxFault (List Char)
  | _, [], cs => .ok cs
  | 0, frame :: _, _ => .error frame.unfinished
  | fuel + 1, frame :: frames, cs =>
    match skipBlank cs with
    | [] => .error frame.unfinished
    | c :: cs =>
      if c = ',' then passNext fuel frame frames cs
      else if c = frame.bracket then passAfter fuel frames cs
      else .error frame.unseparated

/-- Goes on at an item, or at a key. A key is passed over with its colon, and then its value. -/
def passNext : (fuel : Nat) → Frame → List Frame → List Char → Except SyntaxFault (List Char)
  | 0, frame, _, _ => .error frame.unfinished
  | fuel + 1, .array, frames, cs => passValue fuel (.array :: frames) cs
  | fuel + 1, .object, frames, cs =>
    match skipBlank cs with
    | [] => .error .endInObject
    | c :: cs =>
      if c = '"' then do
        let rest ← passString (cs.length + 1) cs
        match skipBlank rest with
        | [] => .error .endInObject
        | d :: rest =>
          if d = ':' then passValue fuel (.object :: frames) rest else .error .noColon
      else .error .keyNotString

end

/-! ## Reading a value -/

/-- A scalar's draft with the rest of the text, or its fault with nothing. -/
def leaf (read : Except SyntaxFault (Draft × List Char)) : Draft × Option (List Char) :=
  match read with
  | .ok (d, rest) => (d, some rest)
  | .error why => (.broken why, none)

/-- The draft of a word. -/
def leafWord (letters : List Char) (value : Draft) (cs : List Char) : Draft × Option (List Char) :=
  leaf ((word letters cs).map fun rest => (value, rest))

mutual

/-- Reads a value. The rest of the text comes with it, unless reading stopped inside the value. What
    has been read of a container is kept even if its end is not reached. -/
def readValue : (fuel : Nat) → List Char → Draft × Option (List Char)
  | 0, _ => (.broken .endInValue, none)
  | fuel + 1, cs =>
    match skipBlank cs with
    | [] => (.broken .endInValue, none)
    | c :: cs =>
      if c = 'n' then leafWord ['u', 'l', 'l'] .null cs
      else if c = 't' then leafWord ['r', 'u', 'e'] (.bool true) cs
      else if c = 'f' then leafWord ['a', 'l', 's', 'e'] (.bool false) cs
      else if c = '-' then leaf (number true cs)
      else if c.isDigit then leaf (number false (c :: cs))
      else if c = '"' then
        leaf ((stringRest (cs.length + 1) [] cs).map fun (s, rest) => (.string s, rest))
      else if c = '[' then
        let (items, ending, rest) := readItems fuel true cs
        (.array items ending, rest)
      else if c = '\x7b' then
        let (members, ending, rest) := readMembers fuel true cs
        (.object members ending, rest)
      else (.broken .noValue, none)

/-- Reads the items of an array; `first` before any of them. A comma has to be followed by another
    item. -/
def readItems : (fuel : Nat) → (first : Bool) → List Char →
    List Draft × Ending × Option (List Char)
  | 0, _, _ => ([], .broken .endInArray, none)
  | fuel + 1, first, cs =>
    match skipBlank cs with
    | [] => ([], .broken .endInArray, none)
    | c :: cs =>
      if c = ']' then ([], .closed, some cs)
      else if first then readItem fuel (c :: cs)
      else if c = ',' then
        match skipBlank cs with
        | [] => ([], .broken .endInValue, none)
        | d :: cs =>
          if d = ']' then ([], .broken .trailingComma, none) else readItem fuel (d :: cs)
      else ([], .broken .noArraySeparator, none)

/-- Reads an item and the items after it. -/
def readItem : (fuel : Nat) → List Char → List Draft × Ending × Option (List Char)
  | 0, _ => ([], .broken .endInArray, none)
  | fuel + 1, cs =>
    match readValue fuel cs with
    | (d, none) => ([d], .closed, none)
    | (d, some rest) =>
      let (ds, ending, rest) := readItems fuel false rest
      (d :: ds, ending, rest)

/-- Reads the members of an object; `first` before any of them. Keys have to be strings, and a comma
    has to be followed by another one. -/
def readMembers : (fuel : Nat) → (first : Bool) → List Char →
    List (Member Draft) × Ending × Option (List Char)
  | 0, _, _ => ([], .broken .endInObject, none)
  | fuel + 1, first, cs =>
    match skipBlank cs with
    | [] => ([], .broken .endInObject, none)
    | c :: cs =>
      if c = '\x7d' then ([], .closed, some cs)
      else if first then
        if c = '"' then readMember fuel cs else ([], .broken .keyNotString, none)
      else if c = ',' then
        match skipBlank cs with
        | [] => ([], .broken .endInValue, none)
        | d :: cs =>
          if d = '"' then readMember fuel cs
          else if d = '\x7d' then ([], .broken .trailingComma, none)
          else ([], .broken .keyNotString, none)
      else ([], .broken .noObjectSeparator, none)

/-- Reads a member from inside its key, and the members after it. Where its value stops reading, the
    rest of the value is passed over, so that what is behind it can still be read. -/
def readMember : (fuel : Nat) → List Char → List (Member Draft) × Ending × Option (List Char)
  | 0, _ => ([], .broken .endInObject, none)
  | fuel + 1, cs =>
    match stringRest (cs.length + 1) [] cs with
    | .error why => ([], .broken why, none)
    | .ok (key, rest) =>
      match skipBlank rest with
      | [] => ([], .brokenAfter key .endInObject, none)
      | c :: cs =>
        if c = ':' then
          match readValue fuel cs with
          | (d, some rest) =>
            let (ms, ending, rest) := readMembers fuel false rest
            (⟨key, d, none⟩ :: ms, ending, rest)
          | (d, none) =>
            match passValue (4 * cs.length + 4) [] cs with
            | .error why => ([⟨key, d, some why⟩], .closed, none)
            | .ok rest =>
              let (ms, ending, rest) := readMembers fuel false rest
              (⟨key, d, none⟩ :: ms, ending, rest)
        else ([], .brokenAfter key .noColon, none)

end

/-- Reads the first value of a text, with the rest of the text unless reading stopped. -/
def read (cs : List Char) : Draft × Option (List Char) := readValue (4 * cs.length + 4) cs

/-- The draft of a text. What follows the first value is not looked at. -/
def ofText (text : String) : Draft := (read text.toList).1

end Draft

/-- The containers that may stand inside one another in a text. -/
def depthLimit : Nat := 127

/-- The value of a text, which may have nothing but blanks around it. -/
def parse (text : String) : Except SyntaxFault Value := do
  let (draft, rest) := Draft.read text.toList
  let value ← draft.toValue depthLimit
  if (Draft.skipBlank (rest.getD [])).isEmpty then .ok value else .error .trailingText

end Json
end Shapewright
