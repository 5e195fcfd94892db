import Shapewright.Filter.Operations
import Shapewright.Json.Draft.Parser
import Shapewright.Text.Blank

/-!
# Functions that every filter knows

A function has arguments that are filters themselves. Most functions take the outputs of their
arguments on their own input, every choice of them once.

Functions are looked up by name and number of arguments, so one name may stand for several. Those
that can be said in terms of others are not here but in the library, written as filters. What is
here either looks into values or decides how many outputs are asked for, which no filter could do.
-/

namespace Shapewright
namespace Filter

open Json (Value)

/-- What a function does with its arguments and its input. -/
abbrev Builtin := List (Value → Outputs Value) → Value → Outputs Value

namespace Builtin

/-- A function of the input alone. -/
def ofInput (f : Value → Except Stop Value) : Builtin := fun _ v => .ofExcept (f v)

/-- A function of the outputs of its arguments and of the input. -/
def ofValues (f : List Value → Value → Except Stop Value) : Builtin := fun args v =>
  (Outputs.choices (fun a => a v) args).bind fun xs => .ofExcept (f xs v)

/-- The error of a function on an input it does not know. -/
def refuse {α : Type} (name : String) (v : Value) : Except Stop α :=
  .error (.error (.string (name ++ " is not defined on " ++ v.compact)))

/-! ## Any value -/

/-- The name of the kind of a value. -/
def typeName : Value → String
  | .null => "null"
  | .bool _ => "boolean"
  | .integer _ | .float _ => "number"
  | .string _ => "string"
  | .array _ => "array"
  | .object _ => "object"

/-- The length of a text or of a container, the size of a number, and zero for `null`. -/
def length (v : Value) : Except Stop Value :=
  match v with
  | .null => .ok (.integer 0)
  | .integer i => .ok (ofInteger i.natAbs)
  | .float x => .ok (.float x.abs)
  | .string s => .ok (.integer s.length)
  | .array items => .ok (.integer items.length)
  | .object members => .ok (.integer members.length)
  | .bool _ => refuse "length" v

/-- The keys of an object in its own order, or the indices of an array. -/
def keys (v : Value) : Except Stop (List Value) :=
  match v with
  | .array items => .ok ((List.range items.length).map fun (i : Nat) => .integer i)
  | .object members => .ok (members.map fun m => .string m.1)
  | _ => refuse "keys" v

/-- A text as it is, and any other value as JSON. -/
def toText : Value → String
  | .string s => s
  | v => v.compact

/-- A value from JSON text. -/
def ofText (s : String) : Except Stop Value :=
  match Json.parse s with
  | .ok v => .ok v
  | .error why => .error (.error (.string why.message))

def toNumber (v : Value) : Except Stop Value :=
  match v with
  | .integer _ | .float _ => .ok v
  | .string s =>
    match ofText s with
    | .ok (.integer i) => .ok (.integer i)
    | .ok (.float x) => .ok (.float x)
    | _ => refuse "tonumber" v
  | _ => refuse "tonumber" v

/-- Whether a value has a member or item. -/
def has (v key : Value) : Except Stop Value :=
  match v, key with
  | .object members, .string k => .ok (.bool (Ordered.get? members k).isSome)
  | .array items, .integer i => .ok (.bool (0 ≤ i && i < items.length))
  | _, _ => refuse "has" v

/-- Whether a list of characters stands in another one. -/
def occurs (inner : List Char) : List Char → Bool
  | [] => inner.isEmpty
  | c :: cs => inner.isPrefixOf (c :: cs) || occurs inner cs

/-- Whether a value contains another one: a text a part of it, an array for each item one that
    contains it, an object for each member one that contains it. -/
def contains : (fuel : Nat) → Value → Value → Bool
  | 0, _, _ => false
  | fuel + 1, v, w =>
    match v, w with
    | .string s, .string t => occurs t.toList s.toList
    | .array vs, .array ws => ws.all fun w => vs.any fun v => contains fuel v w
    | .object ms, .object ns => ns.all fun n =>
      match Ordered.get? ms n.1 with
      | some v => contains fuel v n.2
      | none => false
    | v, w => order v w == .eq

/-- The positions of a value in an array, or of a text in a text. They are counted in characters and
    may overlap. An empty part is found nowhere. -/
def indices (v w : Value) : Except Stop Value :=
  let found (places : List Nat) : Value := .array (places.map fun (i : Nat) => .integer i)
  match v, w with
  | .null, _ => .ok .null
  | .string s, .string t =>
    .ok (found ((List.range s.length).filter fun i =>
      !t.isEmpty && t.toList.isPrefixOf (s.toList.drop i)))
  | .array vs, .array ws =>
    .ok (found ((List.range vs.length).filter fun i =>
      !ws.isEmpty && order (.array ((vs.drop i).take ws.length)) (.array ws) == .eq))
  | .array vs, w => .ok (found ((List.range vs.length).filter fun i =>
      (vs[i]?.map fun v => order v w == .eq).getD false))
  | _, _ => refuse "indices" v

/-! ## Numbers -/

/-- A number without its fraction. The result is an integer where it has the range of one, and stays
    a float otherwise. -/
def rounded (f : Float → Float) (v : Value) : Except Stop Value :=
  match v with
  | .integer _ => .ok v
  | .float x =>
    let y := f x
    let n := Decimal.Binary.ofBits y.abs.toBits
    let whole : Int :=
      (n.significand * Nat.pow 2 n.exponent.toNat / Nat.pow 2 (-n.exponent).toNat : Nat)
    let i := if y < 0 then -whole else whole
    .ok (if y.isFinite && isInteger i then .integer i else .float y)
  | _ => refuse "rounding" v

/-- A function on floating-point numbers. -/
def onFloat (f : Float → Float) (v : Value) : Except Stop Value :=
  match toFloat? v with
  | some x => .ok (.float (f x))
  | none => refuse "calculation" v

/-! ## Texts -/

/-- A function on texts. -/
def onText (f : String → Value) (v : Value) : Except Stop Value :=
  match v with
  | .string s => .ok (f s)
  | _ => refuse "text" v

/-- A function on a text and a text given as its argument. -/
def withText (f : (input arg : String) → Value) (args : List Value) (v : Value) :
    Except Stop Value :=
  match v, args with
  | .string s, [.string t] => .ok (f s t)
  | _, _ => refuse "text" v

/-- A text without blanks at its start. -/
def trimStart (cs : List Char) : List Char := cs.dropWhile Text.isBlank

/-- A text without blanks at its end. -/
def trimEnd (cs : List Char) : List Char := (trimStart cs.reverse).reverse

/-- A text through a function on characters. -/
def onChars (f : List Char → List Char) (s : String) : Value := .string (String.ofList (f s.toList))

/-- A text without what it starts with. -/
def withoutStart (s t : String) : Value :=
  if t.toList.isPrefixOf s.toList then .string (String.ofList (s.toList.drop t.length))
  else .string s

/-- A text without what it ends with. -/
def withoutEnd (s t : String) : Value :=
  if t.toList.isSuffixOf s.toList then
    .string (String.ofList (s.toList.take (s.length - t.length)))
  else .string s

/-- The text of an array of characters. -/
def ofChars (v : Value) : Except Stop Value :=
  match v with
  | .array items => do
    let cs ← items.mapM fun
      | .integer i => if 0 ≤ i ∧ i.toNat.isValidChar then .ok (Char.ofNat i.toNat)
        else refuse "implode" v
      | _ => refuse "implode" v
    return .string (String.ofList cs)
  | _ => refuse "implode" v

/-! ## Formats -/

/-- Replaces characters. -/
def replaceChars (table : List (Char × String)) (s : String) : String :=
  String.join (s.toList.map fun c => (table.lookup c).getD c.toString)

/-- The cells of a row, each as text. Texts are written by `text`, what is null is left empty, and a
    container is refused. -/
def row (text : String → String) (separator : String) (v : Value) : Except Stop String :=
  match v with
  | .array items => do
    let cells ← items.mapM fun
      | .null => .ok ""
      | .string s => .ok (text s)
      | .array _ | .object _ => refuse "row" v
      | w => .ok w.compact
    return separator.intercalate cells
  | _ => refuse "row" v

/-- The text of a value in a format. -/
def format (name : String) (v : Value) : Except Stop String :=
  match name with
  | "json" => .ok v.compact
  | "html" => .ok (replaceChars [('<', "&lt;"), ('>', "&gt;"), ('&', "&amp;"), ('\'', "&#39;"),
      ('"', "&quot;")] (toText v))
  | "csv" => row (fun s => "\"" ++ replaceChars [('"', "\"\"")] s ++ "\"") "," v
  | "tsv" => row (replaceChars [('\\', "\\\\"), ('\t', "\\t"), ('\n', "\\n"), ('\r', "\\r")]) "\t" v
  | _ => .ok (toText v)

/-! ## Arrays -/

/-- The items of an array with their keys. -/
def keyed (key : Value → Outputs Value) (v : Value) : Except Stop (List (Value × Value)) :=
  match v with
  | .array items => items.mapM fun item => do return (.array (← (key item).toList), item)
  | _ => refuse "sorting" v

/-- Items in the order of their keys; those with the same key stay in their order. -/
def sortKeyed (items : List (Value × Value)) : List (Value × Value) :=
  items.mergeSort fun a b => order a.1 b.1 != .gt

/-- Sorted items in groups of the same key. -/
def groups (items : List (Value × Value)) : List (List Value) :=
  (items.splitBy fun a b => order a.1 b.1 == .eq).map fun g => g.map Prod.snd

/-- The first item with the least key. -/
def least (items : List (Value × Value)) : Value :=
  match (sortKeyed items).head? with
  | some item => item.2
  | none => .null

/-- The last item with the greatest key. -/
def greatest (items : List (Value × Value)) : Value :=
  match (sortKeyed items).getLast? with
  | some item => item.2
  | none => .null

/-- A function of an array whose argument gives the key of an item. -/
def byKey (f : List (Value × Value) → Value) : Builtin := fun args v =>
  match args with
  | [key] => .ofExcept ((keyed key v).map f)
  | _ => .done

/-! ## Outputs -/

/-- The number of outputs asked for. -/
def count (v : Value) : Nat :=
  match v with
  | .integer i => i.toNat
  | _ => 0

/-- The first output of the argument. -/
def first : Builtin := fun args v =>
  match args with
  | [f] => (f v).take 1
  | _ => .done

/-- The last output of the argument. -/
def last : Builtin := fun args v =>
  match args with
  | [f] =>
    match (f v).toList with
    | .ok vs => (vs.getLast?.map Outputs.single).getD .done
    | .error why => .stop why
  | _ => .done

/-- The first outputs of the second argument, as many as the first argument says. -/
def limit : Builtin := fun args v =>
  match args with
  | [n, f] => (n v).bind fun n => (f v).take (count n)
  | _ => .done

/-- The outputs of the second argument behind the first ones, as many as the first argument says. -/
def skip : Builtin := fun args v =>
  match args with
  | [n, f] => (n v).bind fun n => (f v).drop (count n)
  | _ => .done

/-! ## The table -/

/-- The functions, each with its number of arguments. These are built in, and all others are defined
    by filters on top of them. -/
def table : List ((String × Nat) × Builtin) :=
  [(("null", 0), fun _ _ => .single .null),
   (("true", 0), fun _ _ => .single (.bool true)),
   (("false", 0), fun _ _ => .single (.bool false)),
   (("empty", 0), fun _ _ => .done),
   (("error", 0), fun _ v => .stop (.error v)),
   (("error", 1), ofValues fun args _ => .error (.error (args.headD .null))),
   (("not", 0), ofInput fun v => .ok (.bool !isTrue v)),
   (("type", 0), ofInput fun v => .ok (.string (typeName v))),
   (("length", 0), ofInput length),
   (("utf8bytelength", 0), ofInput (onText fun s => .integer s.utf8ByteSize)),
   (("keys_unsorted", 0), ofInput fun v => (keys v).map .array),
   (("tojson", 0), ofInput fun v => .ok (.string v.compact)),
   (("fromjson", 0), ofInput fun v => match v with
     | .string s => ofText s
     | _ => refuse "fromjson" v),
   (("tostring", 0), ofInput fun v => .ok (.string (toText v))),
   (("tonumber", 0), ofInput toNumber),
   (("has", 1), ofValues fun args v => has v (args.headD .null)),
   (("contains", 1), ofValues fun args v =>
     .ok (.bool (contains (v.compact.length + 1) v (args.headD .null)))),
   (("indices", 1), ofValues fun args v => indices v (args.headD .null)),
   (("floor", 0), ofInput (rounded Float.floor)),
   (("ceil", 0), ofInput (rounded Float.ceil)),
   (("round", 0), ofInput (rounded Float.round)),
   (("sqrt", 0), ofInput (onFloat Float.sqrt)),
   (("fabs", 0), ofInput (onFloat Float.abs)),
   (("infinite", 0), fun _ _ => .single (.float (1 / 0))),
   (("nan", 0), fun _ _ => .single (.float (0 / 0))),
   (("explode", 0), ofInput (onText fun s => .array (s.toList.map fun c => .integer c.toNat))),
   (("implode", 0), ofInput ofChars),
   (("ascii_downcase", 0), ofInput (onText (onChars (·.map Char.toLower)))),
   (("ascii_upcase", 0), ofInput (onText (onChars (·.map Char.toUpper)))),
   (("trim", 0), ofInput (onText (onChars (trimEnd <| trimStart ·)))),
   (("ltrim", 0), ofInput (onText (onChars trimStart))),
   (("rtrim", 0), ofInput (onText (onChars trimEnd))),
   (("startswith", 1), ofValues (withText fun s t => .bool (t.toList.isPrefixOf s.toList))),
   (("endswith", 1), ofValues (withText fun s t => .bool (t.toList.isSuffixOf s.toList))),
   (("ltrimstr", 1), ofValues (withText withoutStart)),
   (("rtrimstr", 1), ofValues (withText withoutEnd)),
   (("split", 1), ofValues (withText fun s t => .array ((splitText s t).map .string))),
   (("@text", 0), ofInput fun v => (format "text" v).map .string),
   (("@json", 0), ofInput fun v => (format "json" v).map .string),
   (("@html", 0), ofInput fun v => (format "html" v).map .string),
   (("@csv", 0), ofInput fun v => (format "csv" v).map .string),
   (("@tsv", 0), ofInput fun v => (format "tsv" v).map .string),
   (("reverse", 0), ofInput fun v => match v with
     | .array items => .ok (.array items.reverse)
     | _ => refuse "reverse" v),
   (("sort_by", 1), byKey fun items => .array ((sortKeyed items).map Prod.snd)),
   (("group_by", 1), byKey fun items => .array ((groups (sortKeyed items)).map .array)),
   (("unique_by", 1), byKey fun items =>
     .array ((groups (sortKeyed items)).map fun g => g.headD .null)),
   (("min_by", 1), byKey least),
   (("max_by", 1), byKey greatest),
   (("first", 1), first),
   (("last", 1), last),
   (("limit", 2), limit),
   (("skip", 2), skip)]

/-- The function of a name and a number of arguments. -/
def find? (name : String) (arity : Nat) : Option Builtin := table.lookup (name, arity)

end Builtin

end Filter
end Shapewright
