import Shapewright.Design.Request
import Shapewright.Design.Violation
import Shapewright.Document.Schema

/-!
# Designs

A design is a document whose types are in a registry. Documents are looked at as a whole before any
code is built from them; what can go wrong is a misfit of a part, a violation of a rule, or a fault
of the code that is asked for.

The identities of types are settled here, before anything is checked: a type without one is known by
its name, and two types of one identity are refused. After that a reference has at most one meaning,
and all that is said of a design is said by its registry and its requests.
-/

namespace Shapewright

/-- What is wrong with a design. -/
inductive DesignFault where
  | misfit (m : Misfit)
  | violation (location : String) (v : Violation)
  | fault (f : Fault)

namespace DesignFault

/-- The text of a fault, with the place of what it is about. -/
def message : DesignFault → String
  | .misfit m => m.message
  | .violation location v => location ++ ": " ++ v.message
  | .fault f => f.message

end DesignFault

/-- A design: types, contexts and requests. -/
structure Design where
  registry : Registry
  contexts : List (String × Context) := []
  conversions : List ConversionRequest := []
  projections : List ProjectionRequest := []
  validations : List ValidationRequest := []
  reporting : Reporting := {}

namespace Design

/-- The context of a name: one that the design declares, otherwise one of the two that every design
    has. -/
def context? (d : Design) (name : String) : Option Context :=
  match Ordered.get? d.contexts name with
  | some ctx => some ctx
  | none =>
    if name = "service" then some Context.service
    else if name = "body" then some Context.body
    else none

/-- A type without an identity is identified by its name. -/
def identified (t : UserType) : UserType := if t.id.isEmpty then { t with id := t.name } else t

/-- Adds types, of which the first is at `index`, to a registry. No two have one identity. A type
    without an identity or a name is refused, and so is a second one of the same identity. -/
def register (reg : Registry) (index : Nat) : List UserType → Except DesignFault Registry
  | [] => .ok reg
  | t :: rest =>
    let t := identified t
    let location := "types[" ++ toString index ++ "]"
    if t.id.isEmpty then .error (.violation location .namelessType)
    else if reg.contains t.id then .error (.violation location (.duplicateType t.id))
    else register (reg.insert t) (index + 1) rest

/-- The design of a document, before it is checked. -/
def ofDocument (doc : Document) : Except DesignFault Design := do
  return { registry := ← register (.ofList []) 0 doc.types, contexts := doc.contexts,
           conversions := doc.conversions, projections := doc.projections,
           validations := doc.validations, reporting := doc.reporting }

end Design
end Shapewright
