import Shapewright.Document.Misfit

/-!
# Reading parts of a document

The pieces that readers of documents are made of: scalars, lists, tables with free keys, choices
between names, and records. Every reader is given the place it reads at, so that a misfit can be
located, and the number of containers that may still be opened below it. Readers go through a
draft from the front, and the first thing that is wrong wins.

A document is either a text, or a value that was built before. They differ in a few causes only:
an array that is too long for a record, and data that is no choice at all.
-/

namespace Shapewright

/-- What a document is read from. -/
inductive Origin where
  | text
  | value
deriving Repr, DecidableEq

/-- Where a reader stands. -/
structure Spot where
  origin : Origin
  place : Place := []
  /-- The containers that may still be opened here. -/
  room : Nat

namespace Spot

def fail {α : Type} (spot : Spot) (cause : Misfit.Cause) : Except Misfit α :=
  .error ⟨spot.place, cause⟩

/-- Below one step, in an opened container. -/
def below (spot : Spot) (step : Step) : Spot := { spot with place := step :: spot.place }

/-- Opens a container. -/
def opened (spot : Spot) : Except Misfit Spot :=
  match spot.room with
  | 0 => spot.fail (.malformed .tooDeep)
  | room + 1 => .ok { spot with room }

end Spot

/-- Reads a part of a document. -/
abbrev Reader (α : Type) := Spot → Json.Draft → Except Misfit α

namespace Reader

open Json (Draft Ending Member)

/-- The misfit of data that is of another type than expected. What was found is named with its
    value, except for arrays and objects. -/
def mismatch {α : Type} (expected : String) : Reader α := fun spot d =>
  match d with
  | .null => spot.fail (.wrongType .null expected)
  | .bool b => spot.fail (.wrongType (.bool b) expected)
  | .integer i => spot.fail (.wrongType (.integer i) expected)
  | .float x => spot.fail (.wrongType (.float x) expected)
  | .string s => spot.fail (.wrongType (.string s) expected)
  | .array _ _ => spot.fail (.wrongType .sequence expected)
  | .object _ _ => spot.fail (.wrongType .map expected)
  | .broken why => spot.fail (.malformed why)

/-! ## Scalars -/

def string : Reader String := fun spot d =>
  match d with
  | .string s => .ok s
  | d => mismatch "a string" spot d

def bool : Reader Bool := fun spot d =>
  match d with
  | .bool b => .ok b
  | d => mismatch "a boolean" spot d

/-- A size: an integer from zero on. A number with a fraction is no size, even if the fraction is
    zero. -/
def size : Reader Nat := fun spot d =>
  match d with
  | .integer i =>
    if i < 0 then spot.fail (.wrongValue (.integer i) "usize") else .ok i.toNat
  | d => mismatch "usize" spot d

/-- The double nearest to an integer of 64 bits. -/
def floatOfInt (i : Int) : Float :=
  if i < 0 then -(i.natAbs.toUInt64.toFloat) else i.toNat.toUInt64.toFloat

/-- A number; integers are taken as floating-point numbers. -/
def number : Reader Float := fun spot d =>
  match d with
  | .float x => .ok x
  | .integer i => .ok (floatOfInt i)
  | d => mismatch "f64" spot d

/-- Reads nothing from `null`. -/
def optional {α : Type} (read : Reader α) : Reader (Option α) := fun spot d =>
  match d with
  | .null => .ok none
  | d => (read spot d).map some

/-! ## Containers -/

/-- The misfit of an array or object that does not end with its bracket. -/
def ended (spot : Spot) : Ending → Except Misfit Unit
  | .closed => .ok ()
  | .broken why | .brokenAfter _ why => spot.fail (.malformed why)

/-- Reads the items of an array, the first of them at `index`. The first misfit ends it, with the
    index of the item in its place. -/
def items {α : Type} (read : Reader α) (spot : Spot) :
    (index : Nat) → List Draft → Except Misfit (List α)
  | _, [] => .ok []
  | index, d :: rest => do
    let x ← read (spot.below (.item index)) d
    let xs ← items read spot (index + 1) rest
    .ok (x :: xs)

def list {α : Type} (read : Reader α) : Reader (List α) := fun spot d =>
  match d with
  | .array ds ending => do
    let inner ← spot.opened
    let xs ← items read inner 0 ds
    ended spot ending
    .ok xs
  | d => mismatch "a sequence" spot d

/-- The misfit of an object that does not end with its bracket: a key that cannot be read is a
    place of its own. -/
def endedObject (spot : Spot) : Ending → Except Misfit Unit
  | .closed => .ok ()
  | .broken why => (spot.below .unreadable).fail (.malformed why)
  | .brokenAfter _ why => spot.fail (.malformed why)

/-- Reads the members of a table, adding them to those met before. A key that was met before keeps
    its place and takes the new value. -/
def entries {α : Type} (read : Reader α) (spot : Spot) (met : List (String × α)) :
    List (Member Draft) → Except Misfit (List (String × α))
  | [] => .ok met
  | m :: rest => do
    let x ← read (spot.below (.member m.key)) m.value
    entries read spot (Ordered.insert met m.key x) rest

/-- An object with free keys. A key that occurs twice keeps its first place and its last value. -/
def table {α : Type} (read : Reader α) : Reader (List (String × α)) := fun spot d =>
  match d with
  | .object ms ending => do
    let inner ← spot.opened
    let xs ← entries read inner [] ms
    endedObject spot ending
    .ok xs
  | d => mismatch "a map" spot d

/-! ## Choices -/

/-- Finds a choice by its name. The names that there are stand in the message where it is none of
    them. -/
def chosen {α : Type} (choices : List (String × α)) (spot : Spot) (name : String) :
    Except Misfit α :=
  match Ordered.get? choices name with
  | some x => .ok x
  | none => spot.fail (.unknownVariant name (Ordered.keys choices))

/-- A choice that carries no data has `null` for data. -/
def unit : Reader Unit := fun spot d =>
  match d with
  | .null => .ok ()
  | d => mismatch "unit" spot d

/-- One of a list of names, given as a string or as the only key of an object. A text is read member
    by member, so the object may go wrong before its end is seen. A value is whole and only has to
    have one member. -/
def choice {α : Type} (choices : List (String × α)) : Reader α := fun spot d =>
  match spot.origin, d with
  | _, .string name => chosen choices spot name
  | .value, .object [m] _ => do
    let x ← chosen choices spot m.key
    unit (spot.below (.member m.key)) m.value
    .ok x
  | .value, .object _ _ => spot.fail (.wrongValue .map "map with a single key")
  | .value, d => mismatch "string or map" spot d
  | .text, .object ms ending => do
    let inner ← spot.opened
    match ms with
    | [] =>
      match ending with
      | .closed => spot.fail (.malformed .noValue)
      | .broken why => spot.fail (.malformed why)
      | .brokenAfter key why => do
        let _ ← chosen choices spot key
        spot.fail (.malformed why)
    | m :: more => do
      let x ← chosen choices spot m.key
      unit (inner.below (.member m.key)) m.value
      match more, ending with
      | [], .closed => .ok x
      | [], .broken .endInObject => spot.fail (.malformed .endInObject)
      | _, _ => spot.fail (.malformed .noValue)
  | .text, .broken why => spot.fail (.malformed why)
  | .text, _ => spot.fail (.malformed .noValue)

/-! ## Records -/

end Reader

/-- A field of a record: how it is read into a record that is being built. -/
structure RecordField (σ : Type) where
  name : String
  required : Bool := false
  read : Spot → Json.Draft → σ → Except Misfit σ

/-- A record with named fields. -/
structure Record (σ : Type) where
  /-- What messages call the record. -/
  title : String
  /-- Whether a name that is no field is a misfit. -/
  strict : Bool := false
  /-- The record before any field is read: fields that may be missing have their default. -/
  blank : σ
  fields : List (RecordField σ)

namespace RecordField

/-- A field that is stored by `store`. -/
def of {σ α : Type} (name : String) (read : Reader α) (store : α → σ → σ) : RecordField σ where
  name
  read spot d s := (read spot d).map (store · s)

/-- A field that must be there. -/
def need {σ α : Type} (name : String) (read : Reader α) (store : α → σ → σ) : RecordField σ :=
  { of name read store with required := true }

end RecordField

namespace Record

open Json (Draft Ending Member)

variable {σ : Type}

def field? (r : Record σ) (name : String) : Option (RecordField σ) :=
  r.fields.find? (·.name == name)

/-- The misfit of a key that is no field, if it is one. -/
def stranger (r : Record σ) (spot : Spot) (key : String) : Except Misfit Unit :=
  if r.strict then
    (spot.below (.member key)).fail (.unknownField key (r.fields.map (·.name)))
  else .ok ()

/-- Reads the members of an object into the record; `met` are the fields read before. A field that
    is repeated is a misfit. What is not a field is passed over, unless the record refuses
    strangers. -/
def members (r : Record σ) (spot : Spot) :
    (met : List String) → σ → List (Member Draft) → Except Misfit (List String × σ)
  | met, s, [] => .ok (met, s)
  | met, s, m :: rest =>
    match r.field? m.key with
    | some f =>
      if met.contains f.name then spot.fail (.duplicate f.name)
      else do
        let s ← f.read (spot.below (.member m.key)) m.value s
        members r spot (f.name :: met) s rest
    | none => do
      r.stranger spot m.key
      match m.impassable with
      | some why => (spot.below (.member m.key)).fail (.malformed why)
      | none => members r spot met s rest

/-- The misfit of an object that breaks off after a key, which is looked at first. A field that is
    repeated or not known is reported before the fault of the text. -/
def keyThenFault (r : Record σ) (spot : Spot) (met : List String) (key : String)
    (why : Json.SyntaxFault) : Except Misfit Unit :=
  match r.field? key with
  | some f =>
    if met.contains f.name then spot.fail (.duplicate f.name) else spot.fail (.malformed why)
  | none => do
    r.stranger spot key
    spot.fail (.malformed why)

/-- The first required field that was not met. -/
def missing? (r : Record σ) (met : List String) : Option String :=
  (r.fields.find? fun f => f.required && !met.contains f.name).map (·.name)

/-- Reads the items of an array as the fields of the record, in order. Returns the number of fields
    that were read and the items left over. -/
def positional (spot : Spot) :
    (index : Nat) → σ → List (RecordField σ) → List Draft → Except Misfit (σ × Nat × List Draft)
  | index, s, f :: fs, d :: ds => do
    let s ← f.read (spot.below (.item index)) d s
    positional spot (index + 1) s fs ds
  | index, s, _, ds => .ok (s, index, ds)

/-- The plural of messages. -/
def elements (n : Nat) : String :=
  toString n ++ (if n == 1 then " element" else " elements")

/-- The end of a record that is written as an array of `total` items, of which `rest` are left. In a
    text the fault is one of its grammar, in a value it is the length of the array. -/
def endPositional (spot : Spot) (total : Nat) (rest : List Draft) (ending : Ending) :
    Except Misfit Unit :=
  match rest, spot.origin, ending with
  | [], .text, .broken .endInValue | [], .text, .broken .noArraySeparator =>
    spot.fail (.malformed .trailingText)
  | [], _, ending => Reader.ended spot ending
  | _ :: _, .value, _ => spot.fail (.wrongLength total "fewer elements in array")
  | _ :: _, .text, _ => spot.fail (.malformed .trailingText)

/-- Reads a record from an object, or from an array of its fields in order. Missing fields are
    looked for when the object has been read to its end. In an array the fields stand in the order
    of their declaration, and the last ones may be left out if they need not be there. -/
def read (r : Record σ) : Reader σ := fun spot d =>
  match d with
  | .object ms ending => do
    let inner ← spot.opened
    let (met, s) ← r.members inner [] r.blank ms
    match ending with
    | .closed => .ok ()
    | .broken why => (spot.below .unreadable).fail (.malformed why)
    | .brokenAfter key why => r.keyThenFault spot met key why
    match r.missing? met with
    | some name => spot.fail (.missing name)
    | none => .ok s
  | .array ds ending => do
    let inner ← spot.opened
    let (s, count, rest) ← positional inner 0 r.blank r.fields ds
    if count < r.fields.length then Reader.ended spot ending
    match r.missing? ((r.fields.take count).map (·.name)) with
    | some name =>
      let index := r.fields.findIdx (·.name == name)
      spot.fail (.wrongLength index ("struct " ++ r.title ++ " with " ++ elements r.fields.length))
    | none => do
      endPositional spot ds.length rest ending
      .ok s
  | d => Reader.mismatch ("struct " ++ r.title) spot d

end Record

namespace Reader

open Json (Draft Member)

/-! ## Data of several shapes

Data that may have one of several shapes is read as a whole before any shape is tried. -/

mutual

/-- The first fault of a draft, where it is read as a whole. Nothing is made of the content. This is
    how data are passed over that several shapes are to be tried on. -/
def whole (spot : Spot) : Draft → Except Misfit Unit
  | .array ds ending => do
    let inner ← spot.opened
    wholeItems inner 0 ds
    ended spot ending
  | .object ms ending => do
    let inner ← spot.opened
    wholeMembers inner ms
    endedObject spot ending
  | .broken why => spot.fail (.malformed why)
  | .null | .bool _ | .integer _ | .float _ | .string _ => .ok ()

/-- The first fault in the items of an array. Each is read at its index, so the place of a fault is
    known. -/
def wholeItems (spot : Spot) (index : Nat) : List Draft → Except Misfit Unit
  | [] => .ok ()
  | d :: rest => do
    whole (spot.below (.item index)) d
    wholeItems spot (index + 1) rest

/-- The first fault in the members of an object. Keys that are repeated are no fault here, as
    nothing is made of them. -/
def wholeMembers (spot : Spot) : List (Member Draft) → Except Misfit Unit
  | [] => .ok ()
  | ⟨key, d, _⟩ :: rest => do
    whole (spot.below (.member key)) d
    wholeMembers spot rest

end

/-- Data of one of several shapes: read as a whole, then given to `shape`. A fault of the text is
    reported at its place. Where none of the shapes fits, it is not said why. -/
def variants {α : Type} (type : String) (shape : Spot → Draft → Option α) : Reader α :=
  fun spot d => do
    whole spot d
    match shape spot d with
    | some x => .ok x
    | none => spot.fail (.noVariant type)

end Reader
end Shapewright
