import Shapewright.Fault
import Shapewright.Schema.UserType

/-!
# The registry of named types

Types are kept in the order of their first insertion, each under its own identity. References are
followed to the structure behind them; a chain of references longer than the registry has types must
repeat one and never ends.

## What stands behind an attribute

Almost everything that depends on an attribute depends on what stands behind it. So there is one
function that follows references (`resolve`) and one for each kind of structure that asks for its
parts. Each of them fails for a reference that leads nowhere, and gives nothing for an attribute of
another kind.

That no two types share an identity is part of a registry, so a reference has at most one meaning
and the order of types matters only for what is generated.
-/

namespace Shapewright

/-- The name of the field that boxes a value: an object with this field and no other is a box. -/
def boxField : String := "field"

/-- What kind of structure stands behind an attribute. -/
inductive Kind where
  | primitive (p : Primitive)
  | array
  | map
  | object
  | union
deriving Repr, DecidableEq

namespace Kind

def name : Kind → String
  | .primitive p => p.name
  | .array => "array"
  | .map => "map"
  | .object => "object"
  | .union => "union"

def isPrimitive : Kind → Bool
  | .primitive _ => true
  | _ => false

end Kind

/-- Writes a type under its identity: a known identity keeps its place. -/
def UserType.insertInto (t : UserType) : List UserType → List UserType
  | [] => [t]
  | u :: rest => if u.id = t.id then t :: rest else u :: insertInto t rest

theorem UserType.mem_ids_insertInto {t : UserType} {ts : List UserType} {x : TypeId}
    (h : x ∈ (t.insertInto ts).map (·.id)) : x = t.id ∨ x ∈ ts.map (·.id) := by
  induction ts with
  | nil => simpa [insertInto] using h
  | cons u rest ih =>
    unfold insertInto at h
    split at h
    · simp only [List.map_cons, List.mem_cons] at h ⊢
      exact h.imp (fun h => h) .inr
    · simp only [List.map_cons, List.mem_cons] at h ⊢
      rcases h with h | h
      · exact .inr (.inl h)
      · exact (ih h).imp (fun h => h) .inr

theorem UserType.nodup_ids_insertInto {t : UserType} {ts : List UserType}
    (h : (ts.map (·.id)).Nodup) : ((t.insertInto ts).map (·.id)).Nodup := by
  induction ts with
  | nil => simp [insertInto]
  | cons u rest ih =>
    simp only [List.map_cons, List.nodup_cons] at h
    unfold insertInto
    split
    · rename_i hid
      simp only [List.map_cons, List.nodup_cons]
      exact ⟨hid ▸ h.1, h.2⟩
    · rename_i hid
      simp only [List.map_cons, List.nodup_cons]
      refine ⟨fun hm => ?_, ih h.2⟩
      rcases mem_ids_insertInto hm with hm | hm
      · exact hid hm
      · exact h.1 hm

/-- The named types of a design, in the order of their declaration. -/
structure Registry where
  types : List UserType := []
  nodup : (types.map (·.id)).Nodup := by simp

namespace Registry

/-- Adds a type, or replaces the one with its identity. A type without a name takes its identity as
    name, and a result type gets its default view. -/
def insert (reg : Registry) (t : UserType) : Registry where
  types := t.named.withDefaultView.insertInto reg.types
  nodup := UserType.nodup_ids_insertInto reg.nodup

/-- The registry of a list of types, added in order. -/
def ofList (ts : List UserType) : Registry := ts.foldl insert {}

/-- The number of types. -/
def size (reg : Registry) : Nat := reg.types.length

/-- The type of an identity, if there is one. -/
def find? (reg : Registry) (id : TypeId) : Option UserType := reg.types.find? (·.id == id)

/-- Whether there is a type of an identity. -/
def contains (reg : Registry) (id : TypeId) : Bool := (reg.find? id).isSome

/-- The type of an identity, which must be there. -/
def get (reg : Registry) (id : TypeId) : Except Fault UserType :=
  match reg.find? id with
  | some t => .ok t
  | none => .error (.unknownType id)

/-- The view `name` of a type. There is none, and every field is shown, where the default view is
    asked of a type that has no such view. -/
def view? (reg : Registry) (id : TypeId) (name : String) : Except Fault (Option View) := do
  let t ← reg.get id
  match t.findView? name with
  | some view => .ok (some view)
  | none => if name = defaultView then .ok none else .error (.unknownView t.name name)

/-- Follows references while `hops` last. A reference that is left over when they are used up is
    taken for an alias of itself, which is right where there are as many hops as types. -/
def resolveWithin (reg : Registry) : (hops : Nat) → Attribute → Except Fault Attribute
  | hops, a =>
    match a.type with
    | .user id =>
      match reg.find? id with
      | none => .error (.unknownType id)
      | some t =>
        match hops with
        | 0 => .error (.defect (.circularAlias id))
        | hops + 1 => resolveWithin reg hops t.definition
    | _ => .ok a

/-- The first attribute on the chain of references that is not itself a reference. -/
def resolve (reg : Registry) (a : Attribute) : Except Fault Attribute :=
  reg.resolveWithin reg.size a

/-- The kind of structure behind an attribute. It is there exactly if references lead to a
    structure, which is what most faults of this module are about. -/
def kind (reg : Registry) (a : Attribute) : Except Fault Kind := do
  let r ← reg.resolve a
  match r.type with
  | .primitive p => .ok (.primitive p)
  | .array _ => .ok .array
  | .map _ _ => .ok .map
  | .object _ => .ok .object
  | .union _ _ => .ok .union
  | .user id => .error (.defect (.circularAlias id))

/-- Whether a primitive stands behind an attribute. -/
def isPrimitive (reg : Registry) (a : Attribute) : Except Fault Bool := do
  return (← reg.kind a).isPrimitive

/-- The primitive kind behind an attribute, if it is one. -/
def primitive? (reg : Registry) (a : Attribute) : Except Fault (Option Primitive) := do
  match ← reg.kind a with
  | .primitive p => .ok (some p)
  | _ => .ok none

/-- Whether the attribute is a reference to a primitive. -/
def isAlias (reg : Registry) (a : Attribute) : Except Fault Bool := do
  match a.userId? with
  | none => .ok false
  | some _ => reg.isPrimitive a

/-- The fields of the object behind an attribute. They are in the order in which they are
    declared. -/
def fields? (reg : Registry) (a : Attribute) :
    Except Fault (Option (List (String × Attribute))) := do
  match (← reg.resolve a).type with
  | .object fields => .ok (some fields)
  | _ => .ok none

/-- The elements of the array behind an attribute. -/
def elem? (reg : Registry) (a : Attribute) : Except Fault (Option Attribute) := do
  match (← reg.resolve a).type with
  | .array elem => .ok (some elem)
  | _ => .ok none

/-- The keys and elements of the map behind an attribute. -/
def entry? (reg : Registry) (a : Attribute) : Except Fault (Option (Attribute × Attribute)) := do
  match (← reg.resolve a).type with
  | .map key elem => .ok (some (key, elem))
  | _ => .ok none

/-- The name and the alternatives of the union behind an attribute. They are in the order in which
    they are declared, by which two unions are matched. -/
def union? (reg : Registry) (a : Attribute) :
    Except Fault (Option (String × List (String × Attribute))) := do
  match (← reg.resolve a).type with
  | .union name alternatives => .ok (some (name, alternatives))
  | _ => .ok none

/-- The value inside a box: what the one field of a boxing object holds. -/
def unbox? (reg : Registry) (a : Attribute) : Except Fault (Option Attribute) := do
  match ← reg.fields? a with
  | some [(name, inner)] => .ok (if name = boxField then some inner else none)
  | _ => .ok none

/-- The number of positions in all types together. -/
def positions (reg : Registry) : Nat :=
  (reg.types.map fun t => t.definition.size).foldr (· + ·) 0

end Registry
end Shapewright
