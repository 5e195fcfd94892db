import Shapewright.Decimal.Shortest
import Shapewright.Filter.Outputs
import Shapewright.Filter.Syntax
import Shapewright.Json.Printer

/-!
# Operations on values

The order of values, arithmetic on them, and the selection and update of their parts. Integers are
those of 64 bits; arithmetic that leaves them goes on with floating-point numbers.

All values have an order, whatever their kinds, and objects are compared with their members sorted
by key. Arithmetic is on numbers for the most part, but addition joins texts, arrays and objects,
and subtraction takes items away. What an operation does not know is an error that shows the values.

An update puts a part of a value through a function that may have several outputs or none. An item
of an array may be removed or become several; a member of an object becomes one or goes away.
-/

namespace Shapewright
namespace Filter

open Json (Value)

/-- Null and false are false, all else is true. -/
def isTrue : Value → Bool
  | .null => false
  | .bool b => b
  | _ => true

/-! ## Numbers -/

/-- Whether an integer has 64 bits. -/
def isInteger (i : Int) : Bool := -Int.pow 2 63 ≤ i && i < Int.pow 2 63

/-- An integer, or the number nearest to it if it is too large. -/
def ofInteger (i : Int) : Value := if isInteger i then .integer i else .float (Float.ofInt i)

/-- A number as a floating-point number. -/
def toFloat? : Value → Option Float
  | .integer i => some (Float.ofInt i)
  | .float x => some x
  | _ => none

/-- The order of floating-point numbers; one that is no number is below all others. -/
def compareFloats (x y : Float) : Ordering :=
  if x.isNaN then .lt
  else if y.isNaN then .gt
  else if x < y then .lt
  else if y < x then .gt
  else .eq

/-- The remainder of a division that rounds toward zero, found without rounding. It has the sign
    of the number divided. -/
def remainder (x y : Float) : Float :=
  if x.isNaN || y.isNaN || x.isInf || y == 0 then 0 / 0
  else if y.isInf then x
  else
    let m := Decimal.Binary.ofBits x.abs.toBits
    let n := Decimal.Binary.ofBits y.abs.toBits
    let low := min m.exponent n.exponent
    let rest := m.significand * Nat.pow 2 (m.exponent - low).toNat
      % (n.significand * Nat.pow 2 (n.exponent - low).toNat)
    let r := Float.scaleB (Float.ofNat rest) low
    if x < 0 then -r else r

/-! ## Order -/

/-- The rank of the kind of a value in the order of values. -/
def rank : Value → Nat
  | .null => 0
  | .bool _ => 1
  | .integer _ | .float _ => 2
  | .string _ => 3
  | .array _ => 4
  | .object _ => 5

/-- Sorts pairs by their keys. -/
def sortMembers {α : Type} (members : List (String × α)) : List (String × α) :=
  members.mergeSort fun a b => a.1 ≤ b.1

mutual

/-- A value whose objects have their members in the order of their keys. -/
def sorted : Value → Value
  | .array items => .array (sortedItems items)
  | .object members => .object (sortMembers (sortedMembers members))
  | .null => .null
  | .bool b => .bool b
  | .integer i => .integer i
  | .float x => .float x
  | .string s => .string s

/-- The items of an array, sorted inside. -/
def sortedItems : List Value → List Value
  | [] => []
  | v :: rest => sorted v :: sortedItems rest

/-- The members of an object, sorted inside. -/
def sortedMembers : List (String × Value) → List (String × Value)
  | [] => []
  | (k, v) :: rest => (k, sorted v) :: sortedMembers rest

end

/-- The order of two lists of keys. -/
def compareKeys : List String → List String → Ordering
  | [], [] => .eq
  | [], _ => .lt
  | _, [] => .gt
  | a :: as, b :: bs => (compare a b).then (compareKeys as bs)

mutual

/-- The order of values whose objects are sorted. Values of different types go by type. Objects are
    compared by their keys first and then by their values. -/
def compareSorted (v w : Value) : Ordering :=
  match v, w with
  | .bool a, .bool b => compare a.toNat b.toNat
  | .integer i, .integer j =>
    if isInteger i && isInteger j then compare i j
    else compareFloats (Float.ofInt i) (Float.ofInt j)
  | .integer i, .float y => compareFloats (Float.ofInt i) y
  | .float x, .integer j => compareFloats x (Float.ofInt j)
  | .float x, .float y => compareFloats x y
  | .string s, .string t => compare s t
  | .array as, .array bs => compareItems as bs
  | .object ms, .object ns =>
    (compareKeys (ms.map Prod.fst) (ns.map Prod.fst)).then (compareMembers ms (ns.map Prod.snd))
  | v, w => compare (rank v) (rank w)

/-- The order of arrays: that of the first items that differ. -/
def compareItems : List Value → List Value → Ordering
  | [], [] => .eq
  | [], _ => .lt
  | _, [] => .gt
  | v :: vs, w :: ws => (compareSorted v w).then (compareItems vs ws)

/-- The order of objects with the same keys: that of the first members that differ. -/
def compareMembers : List (String × Value) → List Value → Ordering
  | [], [] => .eq
  | [], _ => .lt
  | _, [] => .gt
  | (_, v) :: vs, w :: ws => (compareSorted v w).then (compareMembers vs ws)

end

/-- The order of values: null, booleans, numbers, texts, arrays, objects. -/
def order (v w : Value) : Ordering := compareSorted (sorted v) (sorted w)

/-- Whether a comparison of two values holds. -/
def Comparison.holds (op : Comparison) (v w : Value) : Bool :=
  match op, order v w with
  | .eq, .eq | .le, .eq | .ge, .eq | .ne, .lt | .ne, .gt | .lt, .lt | .le, .lt | .gt, .gt
  | .ge, .gt => true
  | _, _ => false

/-! ## Arithmetic -/

/-- Writes members into an object. -/
def merge (members : List (String × Value)) : List (String × Value) → List (String × Value)
  | [] => members
  | (k, v) :: rest => merge (Ordered.insert members k v) rest

mutual

/-- The second value, with what the first one has in addition where both are objects. -/
def mergeDeep (v w : Value) : Value :=
  match v, w with
  | .object ms, .object ns => .object (mergeDeepMembers ms ns)
  | _, w => w

/-- Writes members into an object, merging objects. -/
def mergeDeepMembers (members : List (String × Value)) :
    List (String × Value) → List (String × Value)
  | [] => members
  | (k, w) :: rest =>
    let merged := match Ordered.get? members k with
      | some v => mergeDeep v w
      | none => w
    mergeDeepMembers (Ordered.insert members k merged) rest

end

/-- The pieces of a text between separators; an empty separator splits into characters. -/
def splitText (s separator : String) : List String :=
  if s.isEmpty then []
  else if separator.isEmpty then s.toList.map Char.toString
  else s.splitOn separator

/-- A text several times over. -/
def repeatText (s : String) (i : Int) : Value :=
  if i ≤ 0 then .null else .string (String.join (List.replicate i.toNat s))

/-- What an operation makes of numbers. -/
def calculate (op : Arithmetic) (x y : Float) : Float :=
  match op with
  | .add => x + y
  | .sub => x - y
  | .mul => x * y
  | .div => x / y
  | .rem => remainder x y

/-- The error of an operation on values it does not know. -/
def noResult (v w : Value) : Except Stop Value :=
  .error (.error (.string ("cannot calculate with " ++ v.compact ++ " and " ++ w.compact)))

/-- What an operation makes of two numbers. -/
def onNumbers (op : Arithmetic) (v w : Value) : Except Stop Value :=
  match toFloat? v, toFloat? w with
  | some x, some y => .ok (.float (calculate op x y))
  | _, _ => noResult v w

/-- What an operation makes of two integers of 64 bits. -/
def onIntegers (op : Arithmetic) (i j : Int) : Except Stop Value :=
  match op with
  | .add => .ok (ofInteger (i + j))
  | .sub => .ok (ofInteger (i - j))
  | .mul => .ok (ofInteger (i * j))
  | .div => onNumbers .div (.integer i) (.integer j)
  | .rem => if j = 0 then noResult (.integer i) (.integer j) else .ok (ofInteger (Int.tmod i j))

/-- What an operation makes of two values. Texts, arrays and objects have some of the operations,
    with meanings of their own. Integers that do not fit are taken for floats. -/
def Arithmetic.apply (op : Arithmetic) (v w : Value) : Except Stop Value :=
  match op, v, w with
  | .add, .null, w => .ok w
  | .add, v, .null => .ok v
  | .add, .string s, .string t => .ok (.string (s ++ t))
  | .add, .array as, .array bs => .ok (.array (as ++ bs))
  | .add, .object ms, .object ns => .ok (.object (merge ms ns))
  | .sub, .array as, .array bs =>
    .ok (.array (as.filter fun a => !bs.any fun b => order a b == .eq))
  | .mul, .string s, .integer i => .ok (repeatText s i)
  | .mul, .integer i, .string s => .ok (repeatText s i)
  | .mul, .object ms, .object ns => .ok (mergeDeep (.object ms) (.object ns))
  | .div, .string s, .string t => .ok (.array ((splitText s t).map .string))
  | op, .integer i, .integer j =>
    if isInteger i && isInteger j then onIntegers op i j else onNumbers op v w
  | op, v, w => onNumbers op v w

/-! ## Parts -/

/-- A step whose indices are known. -/
inductive Place where
  | at (index : Value)
  | slice (low high : Value)
  | each

/-- The error of a step that a value does not have. -/
def noPart {α : Type} (v : Value) : Except Stop α :=
  .error (.error (.string ("cannot step into " ++ v.compact)))

/-- The items of an array, or the values of an object. -/
def parts (v : Value) : Except Stop (List Value) :=
  match v with
  | .array items => .ok items
  | .object members => .ok (members.map Prod.snd)
  | _ => noPart v

/-- The position of an index, which counts from the end if it is negative. -/
def position? (length : Nat) (i : Int) : Option Nat :=
  let i := if i < 0 then i + length else i
  if 0 ≤ i ∧ i < length then some i.toNat else none

/-- The part of a value at an index. -/
def partAt (v index : Value) : Except Stop Value :=
  match v, index with
  | .null, _ => .ok .null
  | .array items, .integer i =>
    .ok (((position? items.length i).bind fun n => items[n]?).getD .null)
  | .object members, .string key => .ok ((Ordered.get? members key).getD .null)
  | _, _ => noPart v

/-- The bounds of a slice of `length` items. -/
def bounds? (length : Nat) (low high : Value) : Option (Nat × Nat) :=
  let bound (v : Value) (whole : Nat) : Option Nat :=
    match v with
    | .null => some whole
    | .integer i => some (min (if i < 0 then i + length else i).toNat length)
    | _ => none
  match bound low 0, bound high length with
  | some a, some b => some (a, max a b)
  | _, _ => none

/-- A slice of an array or of a text. Either end may be missing or count from the end, and a part of
    null is null. -/
def sliceOf (v low high : Value) : Except Stop Value :=
  match v with
  | .null => .ok .null
  | .array items =>
    match bounds? items.length low high with
    | some (a, b) => .ok (.array ((items.take b).drop a))
    | none => noPart v
  | .string s =>
    match bounds? s.length low high with
    | some (a, b) => .ok (.string (String.ofList ((s.toList.take b).drop a)))
    | none => noPart v
  | _ => noPart v

/-- What a step selects. -/
def Place.select (p : Place) (v : Value) : Outputs Value :=
  match p with
  | .at index => .ofExcept (partAt v index)
  | .slice low high => .ofExcept (sliceOf v low high)
  | .each =>
    match parts v with
    | .ok vs => .ofList vs
    | .error why => .stop why

/-- What a list of steps selects. The errors of a step that ignores them are left out. -/
def select : List (Place × Bool) → Value → Outputs Value
  | [], v => .single v
  | (p, ignored) :: rest, v =>
    let found := p.select v
    let found := if ignored then found.recover fun _ => .done else found
    found.bind (select rest)

/-! ## Updates -/

/-- The first output, or the reason why there is none, or nothing. -/
def firstOf (xs : Outputs Value) : Except Stop (Option Value) :=
  match xs.head? with
  | none => .ok none
  | some (.ok v) => .ok (some v)
  | some (.error why) => .error why

/-- Takes a member away; the last member comes to its place. -/
def removeMember (members : List (String × Value)) (key : String) : List (String × Value) :=
  match members.getLast? with
  | none => []
  | some last =>
    if last.1 = key then members.dropLast
    else members.dropLast.map fun m => if m.1 = key then last else m

/-- Puts the part at an index through `f`. A part that `f` makes nothing of is removed. An index of
    an array has to exist, and a key of an object need not. -/
def updateAt (f : Value → Outputs Value) (v index : Value) : Except Stop Value :=
  match v, index with
  | .object members, .string key => do
    match Ordered.get? members key, ← firstOf (f ((Ordered.get? members key).getD .null)) with
    | _, some new => return .object (Ordered.insert members key new)
    | some _, none => return .object (removeMember members key)
    | none, none => return v
  | .array items, .integer i =>
    match position? items.length i with
    | none => noPart v
    | some n => do
      match ← firstOf (f (items[n]?.getD .null)) with
      | some new => return .array (items.set n new)
      | none => return .array (items.eraseIdx n)
  | _, _ => noPart v

/-- Puts a slice of an array through `f`. It is replaced by an array of whatever length, or
    removed. -/
def updateSlice (f : Value → Outputs Value) (v low high : Value) : Except Stop Value :=
  match v with
  | .array items =>
    match bounds? items.length low high with
    | none => noPart v
    | some (a, b) => do
      match ← firstOf (f (.array ((items.take b).drop a))) with
      | some (.array new) => return .array (items.take a ++ new ++ items.drop b)
      | some _ => noPart v
      | none => return .array (items.take a ++ items.drop b)
  | _ => noPart v

/-- Puts every part through `f`: an item may become several, a member becomes one or none. -/
def updateEach (f : Value → Outputs Value) (v : Value) : Except Stop Value :=
  match v with
  | .array items => do return .array (← (Outputs.bind (.ofList items) f).toList)
  | .object members => do
    let kept ← members.filterMapM fun (k, w) => do return (← firstOf (f w)).map (k, ·)
    return .object kept
  | _ => noPart v

/-- Puts what a step selects through `f`. -/
def Place.update (p : Place) (f : Value → Outputs Value) (v : Value) : Except Stop Value :=
  match p with
  | .at index => updateAt f v index
  | .slice low high => updateSlice f v low high
  | .each => updateEach f v

/-- Puts what a list of steps selects through `f`. -/
def update (f : Value → Outputs Value) : List (Place × Bool) → Value → Outputs Value
  | [], v => f v
  | (p, ignored) :: rest, v =>
    match p.update (update f rest) v with
    | .ok v => .single v
    | .error (.error e) => if ignored then .single v else .stop (.error e)
    | .error why => .stop why

mutual

/-- A value and all that is inside it, containers first. -/
def contents : Value → List Value
  | .array items => .array items :: contentsOfItems items
  | .object members => .object members :: contentsOfMembers members
  | .null => [.null]
  | .bool b => [.bool b]
  | .integer i => [.integer i]
  | .float x => [.float x]
  | .string s => [.string s]

/-- All that is in the items of an array. -/
def contentsOfItems : List Value → List Value
  | [] => []
  | v :: rest => contents v ++ contentsOfItems rest

/-- All that is in the members of an object. -/
def contentsOfMembers : List (String × Value) → List Value
  | [] => []
  | (_, v) :: rest => contents v ++ contentsOfMembers rest

end

end Filter
end Shapewright
