import Shapewright.Design
import Shapewright.Document.Writer
import Shapewright.Scope

/-!
# Summaries

What a design holds, for readers who want no code: its types with the names and categories they have
in code, the names of its contexts, and its requests.

The names are those of the scope that code is built in, so a summary shows which identifiers the
types of a design end up with, numbers included. Requests are shown in full, with the values that
they have by default.
-/

namespace Shapewright
namespace Design

/-- The entry of a type: its identity, its name in code, whether it is a result, the kind of values
    it stands for, and the names of its views. -/
def typeSummary (d : Design) (scope : Scope) (t : UserType) : Except Fault Json.Value := do
  let name ← scope.name t.id
  let kind ← d.registry.kind t.definition
  return .object
    [("id", .string t.id), ("name", .string name), ("kind", .string t.kind.name),
     ("category", .string kind.name), ("views", Writer.strings (t.views.map (·.name)))]

/-- The summary of a design. -/
def summary (d : Design) : Except Fault Json.Value := do
  let types ← d.registry.types.mapM (d.typeSummary (Scope.ofRegistry d.registry))
  return .object
    [("types", .array types), ("contexts", Writer.strings (Ordered.keys d.contexts)),
     ("transforms", .array (d.conversions.map Writer.conversion)),
     ("projections", .array (d.projections.map Writer.projection)),
     ("validations", .array (d.validations.map Writer.validation))]

end Design
end Shapewright
