import Shapewright.Design.Request
import Shapewright.Json.Value

/-!
# Writing design documents

The JSON form of the parts of a design. Parts of an attribute that declare nothing are left out;
requests and contexts are written in full.

What is left out is what the reader would fill in by itself, so nothing is lost. An attribute is
where that matters: it has many parts, hardly any of which is ever declared. The order of members is
fixed, by the order in which the parts are declared.
-/

namespace Shapewright

open Json (Value)

namespace Writer

/-- An array of strings. -/
def strings (xs : List String) : Value := .array (xs.map .string)

/-- What there is, or `null`. -/
def optional {α : Type} (write : α → Value) : Option α → Value
  | none => .null
  | some x => write x

/-- A member that is left out if there is nothing to write. -/
def present {α : Type} (key : String) (write : α → Value) : Option α → List (String × Value)
  | none => []
  | some x => [(key, write x)]

/-- A member that is left out if the list is empty. -/
def nonempty (key : String) (items : List Value) : List (String × Value) :=
  if items.isEmpty then [] else [(key, .array items)]

def size (n : Nat) : Value := .integer n

mutual

/-- The value that a literal stands for. -/
def literal : Literal → Value
  | .bool b => .bool b
  | .integer i => .integer i
  | .float x => .float x
  | .string s => .string s
  | .array items => .array (literals items)

def literals : List Literal → List Value
  | [] => []
  | l :: rest => literal l :: literals rest

end

def rules (r : Rules) : Value :=
  .object (nonempty "required" (r.required.map .string) ++ nonempty "enum" (literals r.enum)
    ++ present "format" (fun f => .string f.name) r.format ++ present "pattern" .string r.pattern
    ++ present "min_length" size r.minLength ++ present "max_length" size r.maxLength
    ++ present "minimum" .float r.minimum ++ present "maximum" .float r.maximum)

def overrides (o : Overrides) : Value :=
  .object (present "field_name" .string o.fieldName ++ present "pointer" .bool o.pointer
    ++ present "type_name" .string o.typeName ++ present "view" .string o.view)

/-- The members of an attribute after its type. What has nothing to say is left out, so that an
    attribute that was read short is written short. -/
def details (a : Attribute) : List (String × Value) :=
  present "description" .string a.description
    ++ (if a.rules.isEmpty then [] else [("validation", rules a.rules)])
    ++ (if a.overrides.isEmpty then [] else [("meta", overrides a.overrides)])
    ++ present "default" literal a.default

mutual

/-- A data type: a name for a primitive kind, an object with one member for anything else. -/
def dataType : DataType Attribute → Value
  | .primitive p => .string p.name
  | .array elem => .object [("array", attr elem)]
  | .map key elem => .object [("map", .object [("key", attr key), ("elem", attr elem)])]
  | .object fields => .object [("object", .object (attrs fields))]
  | .union name alternatives =>
    .object [("union", .object [("type_name", .string name),
      ("values", .array (namedAttrs alternatives))])]
  | .user id => .object [("user", .string id)]

/-- An attribute, with its type first. The order of the members is that in which an attribute is
    declared. -/
def attr (a : Attribute) : Value :=
  match a with
  | ⟨type, description, rules, overrides, default⟩ =>
    .object (("type", dataType type)
      :: details { type := .primitive .any, description, rules, overrides, default })

/-- The fields of an object type. -/
def attrs : List (String × Attribute) → List (String × Value)
  | [] => []
  | (name, a) :: rest => (name, attr a) :: attrs rest

/-- The alternatives of a union. -/
def namedAttrs : List (String × Attribute) → List Value
  | [] => []
  | (name, a) :: rest =>
    .object [("name", .string name), ("attribute", attr a)] :: namedAttrs rest

end

def viewAttribute : ViewAttribute → Value
  | .name name => .string name
  | .tagged name view => .object [("name", .string name), ("view", optional .string view)]

def view (v : View) : Value :=
  .object [("name", .string v.name), ("attributes", .array (v.attributes.map viewAttribute))]

def userType (t : UserType) : Value :=
  .object ([("id", .string t.id), ("name", .string t.name), ("kind", .string t.kind.name),
    ("attribute", attr t.definition)] ++ nonempty "views" (t.views.map view))

def context (c : Context) : Value :=
  .object [("pointer_for_required", .bool c.pointerForRequired),
    ("pointer_for_optional", .bool c.pointerForOptional), ("use_default", .bool c.useDefault),
    ("namespace", .string c.package), ("encoding", .string c.encoding.name)]

def conversion (r : ConversionRequest) : Value :=
  .object [("name", optional .string r.name), ("source", .string r.source),
    ("target", .string r.target), ("source_context", .string r.sourceContext),
    ("target_context", .string r.targetContext), ("prefix", .string r.verb),
    ("wire", .string r.wire.name)]

def projection (r : ProjectionRequest) : Value :=
  .object [("type", .string r.type), ("context", .string r.context),
    ("namespace", .string r.package)]

def validation (r : ValidationRequest) : Value :=
  .object [("type", .string r.type), ("view", optional .string r.view),
    ("context", .string r.context)]

def reporting (r : Reporting) : Value :=
  .object [("runtime", .string r.runtime), ("arg", .string r.arg)]

/-- A document, with all its members. Lists without entries are written too. -/
def document (d : Document) : Value :=
  .object [("types", .array (d.types.map userType)),
    ("contexts", .object (d.contexts.map fun (name, c) => (name, context c))),
    ("transforms", .array (d.conversions.map conversion)),
    ("projections", .array (d.projections.map projection)),
    ("validations", .array (d.validations.map validation)),
    ("validation", reporting d.reporting)]

end Writer
end Shapewright
