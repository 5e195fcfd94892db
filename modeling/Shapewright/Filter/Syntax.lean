import Shapewright.Json.Value

/-!
# Filters

A filter makes any number of values from one value. Documents are put through a filter before they
are read as designs.

The tree has a case for each thing that is written in a way of its own. What differs in the name of
a function only is a call. Names are kept as texts and looked up when the filter runs, although
reading has made sure that each of them is known.
-/

namespace Shapewright

namespace Filter

inductive Arithmetic where
  | add
  | sub
  | mul
  | div
  | rem
deriving Repr, DecidableEq

inductive Comparison where
  | eq
  | ne
  | lt
  | le
  | gt
  | ge
deriving Repr, DecidableEq

/-- What joins two filters. -/
inductive Operator where
  /-- Every output of the left filter is an input of the right one. -/
  | pipe
  | comma
  /-- Sets what the left filter selects to an output of the right one. -/
  | assign
  /-- Puts what the left filter selects through the right one. -/
  | update
  /-- Combines what the left filter selects with an output of the right one. -/
  | updateBy (op : Arithmetic)
  | updateAlternative
  /-- The right filter where the left one has no true output. -/
  | alternative
  | or
  | and
  | compare (op : Comparison)
  | arith (op : Arithmetic)
deriving Repr, DecidableEq

/-- A parameter of a function: a filter, or a value that is computed before the call. -/
inductive Param where
  | byName (name : String)
  | byValue (name : String)
deriving Repr, DecidableEq

end Filter

mutual

inductive Filter where
  | identity
  /-- A value and all that is inside it. -/
  | everything
  | literal (v : Json.Value)
  | text (format : Option String) (parts : List Filter.TextPart)
  | array (items : Option Filter)
  | object (entries : List (Filter × Filter))
  /-- The steps, each with whether its errors are ignored. -/
  | path (start : Filter) (steps : List (Filter.Step × Bool))
  | negate (f : Filter)
  | binary (op : Filter.Operator) (l r : Filter)
  | bind (source : Filter) (binder : Filter.Binder) (body : Filter)
  | choice (condition yes no : Filter)
  | guarded (body : Filter) (handler : Option Filter)
  | label (name : String) (body : Filter)
  | leave (name : String)
  | reduce (source : Filter) (binder : Filter.Binder) (start update : Filter)
  | foreach (source : Filter) (binder : Filter.Binder) (start update : Filter)
      (project : Option Filter)
  | define (name : String) (params : List Filter.Param) (body rest : Filter)
  | call (name : String) (args : List Filter)
  | var (name : String)

/-- A part of a text: characters, or a filter whose output is written there. -/
inductive Filter.TextPart where
  | plain (s : String)
  | hole (f : Filter)

/-- A step into a value. -/
inductive Filter.Step where
  | at (index : Filter)
  | slice (low high : Option Filter)
  | each

/-- The form of a value whose parts are given names. -/
inductive Filter.Binder where
  | var (name : String)
  | array (items : List Filter.Binder)
  | object (entries : List (Filter × Filter.Binder))

end

instance : Inhabited Filter := ⟨.identity⟩

end Shapewright
