import Shapewright.Schema.Attribute

/-!
# Named types and their views

A result type is shown through views: named, ordered selections of its fields. Every result type
that is an object has a view called `default`; where none is declared, it shows all fields in the
order of their declaration.

The default view is added when a type is put into a registry, so a document need not declare it and
everything behind the registry can rely on it. It is special in names only: a declaration for the
default view goes without the name of a view.
-/

namespace Shapewright

/-- The name of the view that every result type has. -/
def defaultView : String := "default"

/-- What a view adds to the name of a declaration: nothing for the default view. -/
def viewSuffix (view : String) : String :=
  if view = defaultView then "" else Identifier.exported view

/-- A field that a view shows, perhaps under a view of the field's own type. -/
inductive ViewAttribute where
  | name (name : String)
  | tagged (name : String) (view : Option String)
deriving Repr, DecidableEq

namespace ViewAttribute

/-- The field that is shown. -/
def field : ViewAttribute → String
  | .name n => n
  | .tagged n _ => n

/-- The view under which the field is shown, if the view attribute gives one. -/
def view? : ViewAttribute → Option String
  | .name _ => none
  | .tagged _ v => v

end ViewAttribute

structure View where
  name : String
  attributes : List ViewAttribute
deriving Repr, DecidableEq, Inhabited

inductive UserKind where
  | type
  | result
deriving Repr, DecidableEq, Inhabited

namespace UserKind

def name : UserKind → String
  | .type => "type"
  | .result => "result"

end UserKind

structure UserType where
  id : TypeId := ""
  name : String := ""
  kind : UserKind := .type
  definition : Attribute
  views : List View := []
deriving Inhabited

namespace UserType

/-- The view of a name, if the type declares one. -/
def findView? (t : UserType) (name : String) : Option View := t.views.find? (·.name == name)

/-- Gives a result type that is an object and lacks a default view one that shows every field. It
    comes in front of the views that are declared. -/
def withDefaultView (t : UserType) : UserType :=
  if t.kind != .result || (t.findView? defaultView).isSome then t
  else match t.definition.type with
    | .object fields =>
      let all : View := ⟨defaultView, fields.map fun (name, _) => .name name⟩
      { t with views := all :: t.views }
    | _ => t

/-- A type without a name is called after its identity. -/
def named (t : UserType) : UserType := if t.name.isEmpty then { t with name := t.id } else t

end UserType
end Shapewright
