import Shapewright.Design.Request
import Shapewright.Document.Reader
import Shapewright.Json.Draft.Parser
import Shapewright.Projection

/-!
# Reading design documents

How the parts of a design look in JSON. A data type is the name of a primitive kind or an object
with one key for the kind of structure; literals and the attributes of views are told apart by their
shape alone.

## Shapes

A record tells which of its fields is wrong, and where. Data of several shapes cannot: if no shape
fits, all that is said is that none does. So the inside of a data type is read twice, once as data
and once by its shape, and the second reading gives no place for what is wrong.

## Nesting

An attribute holds a type, which may hold attributes. Readers are given the number of levels that
may follow, and since a draft says how deep it is, that number is known in advance. It is not what
limits the depth of documents: containers are, and they are counted for all of JSON.
-/

namespace Shapewright

open Json (Draft Member)

namespace Reader

/-- The name of a primitive kind. -/
def primitive : Reader Primitive := choice (Primitive.all.map fun p => (p.name, p))

/-- The name of a format. -/
def format : Reader Format := choice (Format.all.map fun f => (f.name, f))

/-! ## Literals -/

mutual

/-- The literal that complete data stands for. Data that is no literal, or holds data that is none,
    stands for nothing. -/
def literalShape : Draft → Option Literal
  | .bool b => some (.bool b)
  | .integer i => some (.integer i)
  | .float x => some (.float x)
  | .string s => some (.string s)
  | .array ds _ => (literalShapes ds).map .array
  | .null | .object _ _ | .broken _ => none

/-- The literals of the items of an array. If one of them is no literal, there are none. -/
def literalShapes : List Draft → Option (List Literal)
  | [] => some []
  | d :: rest => do
    let l ← literalShape d
    let ls ← literalShapes rest
    some (l :: ls)

end

def literal : Reader Literal := variants "Literal" fun _ d => literalShape d

/-! ## Attributes -/

def rulesRecord : Record Rules where
  title := "Validation"
  blank := {}
  fields := [
    .of "required" (list string) fun x r => { r with required := x },
    .of "enum" (list literal) fun x r => { r with enum := x },
    .of "format" (optional format) fun x r => { r with format := x },
    .of "pattern" (optional string) fun x r => { r with pattern := x },
    .of "min_length" (optional size) fun x r => { r with minLength := x },
    .of "max_length" (optional size) fun x r => { r with maxLength := x },
    .of "minimum" (optional number) fun x r => { r with minimum := x },
    .of "maximum" (optional number) fun x r => { r with maximum := x }]

def rules : Reader Rules := rulesRecord.read

def overridesRecord : Record Overrides where
  title := "Meta"
  blank := {}
  fields := [
    .of "field_name" (optional string) fun x o => { o with fieldName := x },
    .of "pointer" (optional bool) fun x o => { o with pointer := x },
    .of "type_name" (optional string) fun x o => { o with typeName := x },
    .of "view" (optional string) fun x o => { o with view := x }]

def overrides : Reader Overrides := overridesRecord.read

/-- An attribute, given the reader of its type. Only the type has to be there. The rules are called
    `validation` in documents, and the overrides `meta`. -/
def attributeRecord (dataType : Reader (DataType Attribute)) : Record Attribute where
  title := "Attribute"
  blank := { type := .primitive .any }
  fields := [
    .need "type" dataType fun x a => { a with type := x },
    .of "description" (optional string) fun x a => { a with description := x },
    .of "validation" rules fun x a => { a with rules := x },
    .of "meta" overrides fun x a => { a with overrides := x },
    .of "default" (optional literal) fun x a => { a with default := x }]

/-- The key and the element of a map. -/
def entryRecord (inner : Reader Attribute) : Record (Attribute × Attribute) where
  title := "MapType"
  blank := (default, default)
  fields := [
    .need "key" inner fun x e => (x, e.2),
    .need "elem" inner fun x e => (e.1, x)]

/-- An alternative of a union. -/
def alternativeRecord (inner : Reader Attribute) : Record (String × Attribute) where
  title := "NamedAttribute"
  blank := ("", default)
  fields := [
    .need "name" string fun x n => (x, n.2),
    .need "attribute" inner fun x n => (n.1, x)]

/-- The name and the alternatives of a union. -/
def unionRecord (inner : Reader Attribute) : Record (String × List (String × Attribute)) where
  title := "Union"
  blank := ("", [])
  fields := [
    .need "type_name" string fun x u => (x, u.2),
    .need "values" (list (alternativeRecord inner).read) fun x u => (u.1, x)]

/-- The structured type under one key of an object, given the reader of attributes. Whatever goes
    wrong inside is forgotten: data of no shape are reported as such, without a reason. -/
def structured (inner : Reader Attribute) (spot : Spot) (key : String) (d : Draft) :
    Option (DataType Attribute) :=
  if key = "array" then (inner spot d).toOption.map .array
  else if key = "map" then
    ((entryRecord inner).read spot d).toOption.map fun (k, e) => .map k e
  else if key = "object" then (table inner spot d).toOption.map .object
  else if key = "union" then
    ((unionRecord inner).read spot d).toOption.map fun (name, values) => .union name values
  else if key = "user" then (string spot d).toOption.map .user
  else none

/-- The data type that complete data stands for. A structure is tried before a primitive kind. A
    structure is an object with one member whose key says which, a primitive kind its name. -/
def typeShape (inner : Reader Attribute) (spot : Spot) (d : Draft) :
    Option (DataType Attribute) :=
  let structure? := match d with
    | .object [m] _ => structured inner spot m.key m.value
    | _ => none
  match structure? with
  | some type => some type
  | none => ((choice (Primitive.all.map fun p => (p.name, p))) spot d).toOption.map .primitive

/-- A data type, in which types may be nested `levels` deep. -/
def dataTypeWithin : (levels : Nat) → Reader (DataType Attribute)
  | 0 => variants "DataType" fun spot d =>
    typeShape (fun spot d => mismatch "struct Attribute" spot d) spot d
  | levels + 1 => variants "DataType" (typeShape (attributeRecord (dataTypeWithin levels)).read)

/-- A data type. Types are not nested deeper than containers. -/
def dataType : Reader (DataType Attribute) := fun spot d => dataTypeWithin d.height spot d

def attr : Reader Attribute := (attributeRecord dataType).read

/-! ## Named types -/

/-- The attribute of a view with a view of its own. -/
def taggedRecord : Record (String × Option String) where
  title := "Tagged"
  blank := ("", none)
  fields := [
    .need "name" string fun x t => (x, t.2),
    .of "view" (optional string) fun x t => (t.1, x)]

/-- The attribute of a view that complete data stands for. It is the name of a field, or an object
    that gives the field a view of its own. -/
def viewAttributeShape (spot : Spot) (d : Draft) : Option ViewAttribute :=
  match d with
  | .string name => some (.name name)
  | .object _ _ => (taggedRecord.read spot d).toOption.map fun (name, view) => .tagged name view
  | _ => none

def viewAttribute : Reader ViewAttribute := variants "ViewAttribute" viewAttributeShape

def viewRecord : Record View where
  title := "View"
  blank := default
  fields := [
    .need "name" string fun x v => { v with name := x },
    .need "attributes" (list viewAttribute) fun x v => { v with attributes := x }]

def userKind : Reader UserKind := choice [("type", .type), ("result", .result)]

def userTypeRecord : Record UserType where
  title := "UserType"
  blank := { definition := default }
  fields := [
    .of "id" string fun x t => { t with id := x },
    .of "name" string fun x t => { t with name := x },
    .of "kind" userKind fun x t => { t with kind := x },
    .need "attribute" attr fun x t => { t with definition := x },
    .of "views" (list viewRecord.read) fun x t => { t with views := x }]

def userType : Reader UserType := userTypeRecord.read

/-! ## Contexts and requests -/

def encoding : Reader Encoding := choice [("native", .native), ("protobuf", .protobuf)]

def contextRecord : Record Context where
  title := "AttributeContext"
  blank := {}
  fields := [
    .of "pointer_for_required" bool fun x c => { c with pointerForRequired := x },
    .of "pointer_for_optional" bool fun x c => { c with pointerForOptional := x },
    .of "use_default" bool fun x c => { c with useDefault := x },
    .of "namespace" string fun x c => { c with package := x },
    .of "encoding" encoding fun x c => { c with encoding := x }]

def context : Reader Context := contextRecord.read

def reportingRecord : Record Reporting where
  title := "ValidationConfig"
  blank := {}
  fields := [
    .of "runtime" string fun x r => { r with runtime := x },
    .of "arg" string fun x r => { r with arg := x }]

def reporting : Reader Reporting := reportingRecord.read

def projectionOptionsRecord : Record ProjectionOptions where
  title := "ProjectionOptions"
  blank := {}
  fields := [
    .of "service" context fun x o => { o with service := x },
    .of "namespace" string fun x o => { o with package := x },
    .of "validation" reporting fun x o => { o with reporting := x }]

def projectionOptions : Reader ProjectionOptions := projectionOptionsRecord.read

def side : Reader Side := choice [("source", .source), ("target", .target)]

def conversionRecord : Record ConversionRequest where
  title := "TransformRequest"
  strict := true
  blank := { source := "", target := "" }
  fields := [
    .of "name" (optional string) fun x r => { r with name := x },
    .need "source" string fun x r => { r with source := x },
    .need "target" string fun x r => { r with target := x },
    .of "source_context" string fun x r => { r with sourceContext := x },
    .of "target_context" string fun x r => { r with targetContext := x },
    .of "prefix" string fun x r => { r with verb := x },
    .of "wire" side fun x r => { r with wire := x }]

def projectionRecord : Record ProjectionRequest where
  title := "ProjectionRequest"
  strict := true
  blank := { type := "" }
  fields := [
    .need "type" string fun x r => { r with type := x },
    .of "context" string fun x r => { r with context := x },
    .of "namespace" string fun x r => { r with package := x }]

def validationRecord : Record ValidationRequest where
  title := "ValidationRequest"
  strict := true
  blank := { type := "" }
  fields := [
    .need "type" string fun x r => { r with type := x },
    .of "view" (optional string) fun x r => { r with view := x },
    .of "context" string fun x r => { r with context := x }]

def documentRecord : Record Document where
  title := "DesignDocument"
  strict := true
  blank := {}
  fields := [
    .of "types" (list userType) fun x d => { d with types := x },
    .of "contexts" (table context) fun x d => { d with contexts := x },
    .of "transforms" (list conversionRecord.read) fun x d => { d with conversions := x },
    .of "projections" (list projectionRecord.read) fun x d => { d with projections := x },
    .of "validations" (list validationRecord.read) fun x d => { d with validations := x },
    .of "validation" reporting fun x d => { d with reporting := x }]

def document : Reader Document := documentRecord.read

/-! ## Whole documents -/

/-- Reads a text. What follows the first value of the text is not looked at, so a text need not be
    JSON as a whole. -/
def ofText {α : Type} (read : Reader α) (text : String) : Except Misfit α :=
  read { origin := .text, room := Json.depthLimit } (Draft.ofText text)

/-- Reads a value. -/
def ofValue {α : Type} (read : Reader α) (v : Json.Value) : Except Misfit α :=
  let d := Draft.ofValue v
  read { origin := .value, room := d.height } d

end Reader
end Shapewright
