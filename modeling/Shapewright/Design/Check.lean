import Shapewright.Design
import Shapewright.Document.Writer
import Shapewright.Json.Printer
import Shapewright.Pattern
import Shapewright.Projection

/-!
# Checking designs

The rules that a design must keep so that code can be built from it: references lead to types,
required names are declared, patterns are patterns, defaults and enumerated values are of the kind
of their attribute, views show what is there, and requests name what the design has. References are
checked for all types before anything else, because the other rules follow them.

## The first violation

A design with several violations is refused for the first one in the order of the checks: all
references, then type by type the attributes and the views, then the requests. So a check may rely
on those before it. The check of views resolves the types of fields, for one, and that can no longer
fail when it comes to it.

## Patterns

What a pattern is belongs to the engine that will match it, and this library has only a recogniser
of its own for that. The checks take the recogniser as an argument, and so do the functions that
load a design. No other check looks at patterns.
-/

namespace Shapewright
namespace Design

/-- A broken rule and where it is broken. -/
abbrev Checked (α : Type) := Except (String × Violation) α

/-- Reports a violation at a place. -/
def violate {α : Type} (location : String) (v : Violation) : Checked α := .error (location, v)

/-- A fault as a violation at a place. -/
def located {α : Type} (location : String) (x : Except Fault α) : Checked α :=
  x.mapError fun f => (location, .unresolvable f)

/-- The text of a literal in messages. -/
def literalText (l : Literal) : String := (Writer.literal l).compact

/-! ## Attributes -/

mutual

/-- Checks an attribute and all attributes inside it, from the outside in. The location grows by the
    name of the field or alternative, by `[key]` or by `[*]`. A reference is not followed, since its
    type is checked in its own place. -/
def everywhere (check : String → Attribute → Checked Unit) (location : String) (a : Attribute) :
    Checked Unit :=
  match a with
  | ⟨.primitive p, description, rules, overrides, default⟩ =>
    check location ⟨.primitive p, description, rules, overrides, default⟩
  | ⟨.user id, description, rules, overrides, default⟩ =>
    check location ⟨.user id, description, rules, overrides, default⟩
  | ⟨.array elem, description, rules, overrides, default⟩ => do
    check location ⟨.array elem, description, rules, overrides, default⟩
    everywhere check (location ++ "[*]") elem
  | ⟨.map key elem, description, rules, overrides, default⟩ => do
    check location ⟨.map key elem, description, rules, overrides, default⟩
    everywhere check (location ++ "[key]") key
    everywhere check (location ++ "[*]") elem
  | ⟨.object fields, description, rules, overrides, default⟩ => do
    check location ⟨.object fields, description, rules, overrides, default⟩
    everywhereIn check location fields
  | ⟨.union name alternatives, description, rules, overrides, default⟩ => do
    check location ⟨.union name alternatives, description, rules, overrides, default⟩
    everywhereIn check location alternatives

/-- Checks the fields of an object or the alternatives of a union. They are gone through in order,
    so the first that is wrong is the one that is reported. -/
def everywhereIn (check : String → Attribute → Checked Unit) (location : String) :
    List (String × Attribute) → Checked Unit
  | [] => .ok ()
  | (name, a) :: rest => do
    everywhere check (location ++ "." ++ name) a
    everywhereIn check location rest

end

/-- A reference leads to a type. -/
def checkReference (reg : Registry) (location : String) (a : Attribute) : Checked Unit :=
  match a.userId? with
  | some id => if reg.contains id then .ok () else violate location (.unknownType id)
  | none => .ok ()

/-- What an object in place requires is declared. Other attributes have no fields of their own, so
    what they require is not looked at. -/
def checkRequired (location : String) (a : Attribute) : Checked Unit :=
  match a.type with
  | .object fields =>
    match a.rules.required.find? fun name => (Ordered.get? fields name).isNone with
    | some name => violate location (.undeclaredRequired name)
    | none => .ok ()
  | _ => .ok ()

/-- A pattern is one for the engine that matches it in the end. -/
def checkPattern (isPattern : String → Bool) (location : String) (a : Attribute) : Checked Unit :=
  match a.rules.pattern with
  | some text => if isPattern text then .ok () else violate location (.invalidPattern text)
  | none => .ok ()

/-- A string is what its format says, where that is a date. The other formats are not checked here,
    so a default in one of them may be wrong. -/
def checkDate (location : String) (format : Option Format) (text : String) : Checked Unit :=
  match format with
  | some .date =>
    match Calendar.readDate text with
    | .ok _ => .ok ()
    | .error why => violate location (.defaultDate text why)
  | some .dateTime =>
    match Calendar.readDateTime text with
    | .ok _ => .ok ()
    | .error why => violate location (.defaultDateTime text why)
  | _ => .ok ()

/-- The default and the enumerated values of a primitive are of its kind. The default comes first,
    with its format if it is a text, and then the first value of the enumeration that is of another
    kind. -/
def checkPrimitive (location : String) (a : Attribute) (p : Primitive) : Checked Unit := do
  match a.default with
  | some value =>
    if !value.fits p then violate location (.defaultKind (literalText value) p.name)
    match value with
    | .string s => checkDate location a.rules.format s
    | _ => pure ()
  | none => pure ()
  match a.rules.enum.find? fun value => !value.fits p with
  | some value => violate location (.enumKind (literalText value) p.name)
  | none => .ok ()

/-- The default of a structured attribute is a list of values for the elements of an array. The
    elements have to be primitives, possibly by way of a reference, and the list has to fit them one
    by one. -/
def checkStructured (reg : Registry) (location : String) (a : Attribute) (kind : Kind) :
    Checked Unit :=
  match a.default with
  | none => .ok ()
  | some value => do
    let elem ← match ← located location (reg.elem? a) with
      | some elem => located location (reg.primitive? elem)
      | none => pure none
    let fits := match value, elem with
      | .array items, some p => items.all (·.fits p)
      | _, _ => false
    if fits then .ok () else violate location (.defaultStructure (literalText value) kind.name)

/-- The values that an attribute declares can be its values. Names of fields come first, then the
    pattern, and then defaults and enumerations by the kind of the attribute. -/
def checkValues (reg : Registry) (isPattern : String → Bool) (location : String) (a : Attribute) :
    Checked Unit := do
  checkRequired location a
  checkPattern isPattern location a
  match ← located location (reg.kind a) with
  | .primitive p => checkPrimitive location a p
  | kind => checkStructured reg location a kind

/-! ## Views -/

/-- A view that a field is shown under is one of its result type's. The type is asked of the
    reference, or of the elements where the attribute is an array in place. -/
def checkTag (reg : Registry) (location : String) (a : Attribute) (view : String) :
    Checked Unit := do
  let elem ← located location (reg.elem? a)
  let target := if a.userId?.isNone then elem.getD a else a
  match target.userId? with
  | none => violate location (.viewOfNoResult view)
  | some id =>
    let t ← located location (reg.get id)
    if t.kind != .result then violate location (.viewOfPlainType view t.name)
    let _ ← located location (reg.view? id view)
    .ok ()

/-- A field that a view shows is declared, and its tag names a view. The tag is that of the view, or
    else the one that the field declares. -/
def checkShown (reg : Registry) (location : String) (fields : List (String × Attribute))
    (va : ViewAttribute) : Checked Unit :=
  match Ordered.get? fields va.field with
  | none => violate location (.undeclaredShown va.field)
  | some a =>
    match va.view?.or a.overrides.view with
    | some view => checkTag reg (location ++ "." ++ va.field) a view
    | none => .ok ()

/-- Views have different names and show what is there. The fields of each view are checked where it
    stands, before the views behind it. -/
def checkViewList (reg : Registry) (t : UserType) (fields : List (String × Attribute)) :
    (met : List String) → List View → Checked Unit
  | _, [] => .ok ()
  | met, view :: rest => do
    if met.contains view.name then violate t.name (.duplicateView view.name)
    view.attributes.forM (checkShown reg (t.name ++ ".views." ++ view.name) fields)
    checkViewList reg t fields (view.name :: met) rest

/-- Only results have views. Those of a collection are its elements', so nothing is left to be
    checked for it. -/
def checkViews (reg : Registry) (t : UserType) : Checked Unit := do
  if t.kind != .result then
    if t.views.isEmpty then .ok () else violate t.name .viewsOfPlainType
  else
    match ← located t.name (reg.fields? t.definition) with
    | none => .ok ()
    | some fields => checkViewList reg t fields [] t.views

/-! ## Requests -/

/-- A type that a request names is there. -/
def checkKnown (d : Design) (location : String) (id : TypeId) : Checked Unit :=
  if d.registry.contains id then .ok () else violate location (.unknownType id)

/-- A context that a request names is there. -/
def checkContext (d : Design) (location name : String) : Checked Unit :=
  if (d.context? name).isSome then .ok () else violate location (.unknownContext name)

/-- The place of a request in its list. -/
def requestPlace (list : String) (index : Nat) : String := list ++ "[" ++ toString index ++ "]"

/-- The types of a conversion are there, and so are its contexts. The types are looked for first,
    the source before the target. -/
def checkConversion (d : Design) (index : Nat) (r : ConversionRequest) : Checked Unit := do
  let location := requestPlace "transforms" index
  checkKnown d location r.source
  checkKnown d location r.target
  checkContext d location r.sourceContext
  checkContext d location r.targetContext

/-- The type of a projection is there, and it has views. The views are those of the elements, where
    the type is a collection of results. -/
def checkProjection (d : Design) (index : Nat) (r : ProjectionRequest) : Checked Unit := do
  let location := requestPlace "projections" index
  checkKnown d location r.type
  checkContext d location r.context
  let _ ← located location (d.registry.resultViews r.type).settle
  .ok ()

/-- The type and the context of a validation are there, and so is the view, if one is given. A
    default view that the type does not declare may be given as well. -/
def checkValidation (d : Design) (index : Nat) (r : ValidationRequest) : Checked Unit := do
  let location := requestPlace "validations" index
  checkKnown d location r.type
  checkContext d location r.context
  match r.view with
  | some view =>
    let _ ← located location (d.registry.view? r.type view)
    .ok ()
  | none => .ok ()

/-- Checks every request of a list, of which the first is at `index`. The index stands in the
    location of what is wrong. -/
def checkEach {α : Type} (check : Nat → α → Checked Unit) (index : Nat) : List α → Checked Unit
  | [] => .ok ()
  | r :: rest => do
    check index r
    checkEach check (index + 1) rest

/-! ## Designs -/

/-- The first rule that a design breaks. References are checked in all types before anything else,
    so that what comes later can follow them. -/
def check (d : Design) (isPattern : String → Bool) : Checked Unit := do
  let reg := d.registry
  reg.types.forM fun t => everywhere (checkReference reg) t.name t.definition
  reg.types.forM fun t => do
    everywhere (checkValues reg isPattern) t.name t.definition
    checkViews reg t
  checkEach (checkConversion d) 0 d.conversions
  checkEach (checkProjection d) 0 d.projections
  checkEach (checkValidation d) 0 d.validations

/-- The design of a document that keeps all rules. What a pattern is can be said by the caller; the
    program says it by the recogniser of this library. -/
def load (doc : Document) (isPattern : String → Bool := Pattern.isValid) :
    Except DesignFault Design := do
  let d ← ofDocument doc
  match d.check isPattern with
  | .ok () => .ok d
  | .error (location, v) => .error (.violation location v)

/-- Loads a design from a value. -/
def ofValue (v : Json.Value) (isPattern : String → Bool := Pattern.isValid) :
    Except DesignFault Design := do
  load (← (Reader.ofValue Reader.document v).mapError .misfit) isPattern

/-- Loads a design from a text. -/
def ofText (text : String) (isPattern : String → Bool := Pattern.isValid) :
    Except DesignFault Design := do
  load (← (Reader.ofText Reader.document text).mapError .misfit) isPattern

end Design
end Shapewright
