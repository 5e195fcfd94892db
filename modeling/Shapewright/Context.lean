import Shapewright.Code
import Shapewright.Schema.Registry

/-!
# Contexts

A context is one way of materialising the types of a design in code: which fields are pointers,
whether a default stands for an absent value, in which package the types live, and how primitive
kinds are encoded.

A conversion has two contexts, one for each side, and most of what it does with a field follows from
whether the field is a pointer on the one side and on the other. That is asked in one place only
(`holdsPointer`), which the compilers of conversions, of constructors and of validators share: if
they disagreed, the code of the one would not fit the types of the other.
-/

namespace Shapewright

/-- The representation of primitive kinds. -/
inductive Encoding where
  | native
  /-- Integers without a width have 32 bits, and there are no named primitives. -/
  | protobuf
deriving Repr, DecidableEq, Inhabited

namespace Encoding

/-- The name of an encoding. -/
def name : Encoding → String
  | .native => "native"
  | .protobuf => "protobuf"

/-- The kind that represents a kind. -/
def primitive : Encoding → Primitive → Primitive
  | .protobuf, .int => .int32
  | .protobuf, .uint => .uint32
  | _, p => p

end Encoding

/-- The defaults are those of service types: required primitives are values, optional ones are
    pointers unless a default fills them in, names are not qualified and kinds are encoded
    natively. -/
structure Context where
  pointerForRequired : Bool := false
  pointerForOptional : Bool := true
  useDefault : Bool := true
  package : String := ""
  encoding : Encoding := .native
deriving Repr, DecidableEq, Inhabited

namespace Context

/-- Service types. -/
def service : Context := {}

/-- Decoded bodies, in which everything may be absent. A default does not fill in for an absent
    value, so that what was sent can be told from what was not. -/
def body : Context where
  pointerForRequired := true
  useDefault := false

/-- Projected types in a package. -/
def projected (package : String) : Context := { body with package }

/-- Protocol buffer messages in a package. -/
def protobuf (package : String) : Context where
  useDefault := false
  package := package
  encoding := .protobuf

/-- Whether the field that holds `a` is a pointer to a primitive. What is absent by being nil anyway
    needs no pointer, and an attribute can decide for itself; only then does the context decide. -/
def holdsPointer (ctx : Context) (reg : Registry) (a : Attribute) (required : Bool) :
    Except Fault Bool := do
  match ← reg.primitive? a with
  | none => .ok false
  | some p =>
    if p.isReference then .ok false
    else match a.overrides.pointer with
      | some pointer => .ok pointer
      | none =>
        if required then .ok ctx.pointerForRequired
        else if a.default.isSome && ctx.useDefault then .ok false
        else .ok ctx.pointerForOptional

/-- A name declared in the context's package. -/
def qualify (ctx : Context) (name : String) : TypeRef := .qualified ctx.package name

end Context
end Shapewright
