import Shapewright.Calendar.Text
import Shapewright.Fault
import Shapewright.Schema.Literal

/-!
# Violations

How a document can break the rules of designs although every part of it has the right form. The
place of a violation is a type, or an attribute below one, or a request.

A violation carries what its message shows and no more, so that a statement about violations can be
one about messages. Faults that are met while a rule is checked, such as a reference to a type that
is not there, are violations too.
-/

namespace Shapewright

/-- A rule that is broken. -/
inductive Violation where
  | namelessType
  | duplicateType (id : TypeId)
  | unknownType (id : TypeId)
  | undeclaredRequired (name : String)
  | invalidPattern (pattern : String)
  /-- The default of a primitive, as text, is of another kind. -/
  | defaultKind (literal kind : String)
  /-- The default of a structured attribute, as text, cannot be its value. -/
  | defaultStructure (literal kind : String)
  | enumKind (literal kind : String)
  | defaultDate (text : String) (why : Calendar.TextFault)
  | defaultDateTime (text : String) (why : Calendar.TextFault)
  | viewsOfPlainType
  | duplicateView (name : String)
  | undeclaredShown (name : String)
  | viewOfNoResult (view : String)
  | viewOfPlainType (view typeName : String)
  | unknownContext (name : String)
  /-- A context that a request names is not there when its code is built. -/
  | missingContext
  | unresolvable (why : Fault)
deriving Repr, DecidableEq

namespace Violation

/-- The text of a violation, without its place. A wrong pattern is named without the reason that the
    engine gives. -/
def message : Violation → String
  | .namelessType => "type has neither an id nor a name"
  | .duplicateType id => "duplicate type `" ++ id ++ "`"
  | .unknownType id => "unknown type `" ++ id ++ "`"
  | .undeclaredRequired name => "required attribute `" ++ name ++ "` is not declared"
  | .invalidPattern pattern => "invalid pattern `" ++ pattern ++ "`"
  | .defaultKind literal kind => "default value " ++ literal ++ " is not a valid " ++ kind
  | .defaultStructure literal kind =>
    "default value " ++ literal ++ " does not fit a " ++ kind ++ " attribute"
  | .enumKind literal kind => "enum value " ++ literal ++ " is not a valid " ++ kind
  | .defaultDate text why => "default `" ++ text ++ "` is not a date: " ++ why.message
  | .defaultDateTime text why =>
    "default `" ++ text ++ "` is not an RFC 3339 date-time: " ++ why.message
  | .viewsOfPlainType => "only result types declare views"
  | .duplicateView name => "duplicate view `" ++ name ++ "`"
  | .undeclaredShown name => "attribute `" ++ name ++ "` is not declared"
  | .viewOfNoResult view =>
    "view `" ++ view ++ "` applied to an attribute that is not a result type"
  | .viewOfPlainType view typeName =>
    "view `" ++ view ++ "` applied to `" ++ typeName ++ "`, which is not a result type"
  | .unknownContext name => "unknown attribute context `" ++ name ++ "`"
  | .missingContext => "unknown attribute context"
  | .unresolvable why => why.message

end Violation
end Shapewright
