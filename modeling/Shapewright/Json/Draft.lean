import Shapewright.Json.Value

/-!
# Drafts

A draft is a JSON text as far as it can be read. Where the text goes wrong the draft ends with the
fault it met, so that whoever reads a draft from the front meets its faults and its contents in the
order of the text. A draft keeps what a value has forgotten: members that occur twice, and the place
of a fault.

Two things are made of a draft: its value, and what a reader of documents makes of it. The readers
could not work on values, since a document that breaks off can have an earlier part that is wrong in
itself, and then this is what has to be reported. A value is a draft without faults, so a reader of
drafts reads values as well (`ofValue`).
-/

namespace Shapewright
namespace Json

/-- Why a text is no JSON from some point on. -/
inductive SyntaxFault where
  | endInArray
  | endInObject
  | endInString
  | endInValue
  | noColon
  | noArraySeparator
  | noObjectSeparator
  | wrongWord
  | noValue
  | wrongEscape
  | wrongNumber
  | numberOutOfRange
  | controlCharacter
  | keyNotString
  | loneSurrogate
  | halfSurrogate
  | trailingComma
  | trailingText
  | tooDeep
deriving Repr, DecidableEq

/-- The wording of a fault. Line and column are not said. -/
def SyntaxFault.message : SyntaxFault → String
  | .endInArray => "EOF while parsing a list"
  | .endInObject => "EOF while parsing an object"
  | .endInString => "EOF while parsing a string"
  | .endInValue => "EOF while parsing a value"
  | .noColon => "expected `:`"
  | .noArraySeparator => "expected `,` or `]`"
  | .noObjectSeparator => "expected `,` or `\x7d`"
  | .wrongWord => "expected ident"
  | .noValue => "expected value"
  | .wrongEscape => "invalid escape"
  | .wrongNumber => "invalid number"
  | .numberOutOfRange => "number out of range"
  | .controlCharacter => "control character (\\u0000-\\u001F) found while parsing a string"
  | .keyNotString => "key must be a string"
  | .loneSurrogate => "lone leading surrogate in hex escape"
  | .halfSurrogate => "unexpected end of hex escape"
  | .trailingComma => "trailing comma"
  | .trailingText => "trailing characters"
  | .tooDeep => "recursion limit exceeded"

/-- How an array or object ends. -/
inductive Ending where
  /-- With its bracket. -/
  | closed
  /-- With a fault where an item, a key or a bracket should stand. -/
  | broken (why : SyntaxFault)
  /-- With a fault between a key and its value. -/
  | brokenAfter (key : String) (why : SyntaxFault)
deriving Repr, DecidableEq

/-- A member of an object, as the text has it. -/
structure Member (δ : Type) where
  key : String
  value : δ
  /-- The fault met when the value is passed over without being read. A value may be faulty and
      still be passed over, since that asks for less. -/
  impassable : Option SyntaxFault := none

/-- What a text holds, as far as it can be read. -/
inductive Draft where
  | null
  | bool (b : Bool)
  | integer (i : Int)
  | float (x : Float)
  | string (s : String)
  | array (items : List Draft) (ending : Ending)
  | object (members : List (Member Draft)) (ending : Ending)
  | broken (why : SyntaxFault)

namespace Draft

mutual

/-- The draft of a complete value. -/
def ofValue : Value → Draft
  | .null => .null
  | .bool b => .bool b
  | .integer i => .integer i
  | .float x => .float x
  | .string s => .string s
  | .array items => .array (ofItems items) .closed
  | .object members => .object (ofMembers members) .closed

/-- The drafts of the items of an array. -/
def ofItems : List Value → List Draft
  | [] => []
  | v :: rest => ofValue v :: ofItems rest

/-- The drafts of the members of an object. -/
def ofMembers : List (String × Value) → List (Member Draft)
  | [] => []
  | (k, v) :: rest => ⟨k, ofValue v, none⟩ :: ofMembers rest

end

mutual

/-- The containers inside one another, at the deepest point. -/
def height : Draft → Nat
  | .array items _ => heightItems items + 1
  | .object members _ => heightMembers members + 1
  | .null | .bool _ | .integer _ | .float _ | .string _ | .broken _ => 0

/-- The greatest height among the items of an array. -/
def heightItems : List Draft → Nat
  | [] => 0
  | d :: rest => max (height d) (heightItems rest)

/-- The greatest height among the members of an object. -/
def heightMembers : List (Member Draft) → Nat
  | [] => 0
  | ⟨_, d, _⟩ :: rest => max (height d) (heightMembers rest)

end

mutual

/-- The value a draft holds, or the first fault of the text. `room` is the number of containers
    that may still be opened. In an object, a key that occurs twice keeps its first place and its
    last value. -/
def toValue (room : Nat) : Draft → Except SyntaxFault Value
  | .null => .ok .null
  | .bool b => .ok (.bool b)
  | .integer i => .ok (.integer i)
  | .float x => .ok (.float x)
  | .string s => .ok (.string s)
  | .array items ending =>
    match room with
    | 0 => .error .tooDeep
    | room + 1 => do
      let vs ← toItems room items
      match ending with
      | .closed => .ok (.array vs)
      | .broken why | .brokenAfter _ why => .error why
  | .object members ending =>
    match room with
    | 0 => .error .tooDeep
    | room + 1 => do
      let ms ← toMembers room [] members
      match ending with
      | .closed => .ok (.object ms)
      | .broken why | .brokenAfter _ why => .error why
  | .broken why => .error why

/-- The values of the items of an array. -/
def toItems (room : Nat) : List Draft → Except SyntaxFault (List Value)
  | [] => .ok []
  | d :: rest => do
    let v ← toValue room d
    let vs ← toItems room rest
    .ok (v :: vs)

/-- The members of an object, added to those already met. -/
def toMembers (room : Nat) (met : List (String × Value)) :
    List (Member Draft) → Except SyntaxFault (List (String × Value))
  | [] => .ok met
  | ⟨k, d, _⟩ :: rest => do
    let v ← toValue room d
    toMembers room (Ordered.insert met k v) rest

end

end Draft
end Json
end Shapewright
