import Shapewright.Json.Value

/-!
# Outputs

The outputs of a filter are made one at a time, so that whoever takes only the first ones does not
wait for the others. An output is a value or the reason why there is none; after a reason more
outputs may come.

The rest of a list of outputs is a function without arguments for that reason: it is computed when
it is asked for. That matters for what a filter means and not only for how long it takes, because
taking the first output of a filter ignores an error that comes after it.
-/

namespace Shapewright
namespace Filter

/-- Why a filter has no value. -/
inductive Stop where
  | error (v : Json.Value)
  /-- The filter left a label. -/
  | left (label : Nat)
  /-- The filter took more steps than it may. -/
  | exhausted

inductive Outputs (α : Type) where
  | done
  | next (item : Except Stop α) (rest : Unit → Outputs α)

namespace Outputs

variable {α β : Type}

/-- One output. -/
def single (a : α) : Outputs α := .next (.ok a) fun _ => .done

/-- A reason why there is no output. -/
def stop (why : Stop) : Outputs α := .next (.error why) fun _ => .done

/-- An error with a text. -/
def fail (message : String) : Outputs α := stop (.error (.string message))

/-- A value as an output, or the reason why there is none. -/
def ofExcept : Except Stop α → Outputs α
  | .ok a => single a
  | .error why => stop why

/-- The members of a list as outputs. -/
def ofList : List α → Outputs α
  | [] => .done
  | a :: rest => .next (.ok a) fun _ => ofList rest

/-- The outputs of one filter and then those of another. -/
def append (first : Outputs α) (second : Unit → Outputs α) : Outputs α :=
  match first with
  | .done => second ()
  | .next item rest => .next item fun _ => append (rest ()) second

/-- All that `f` makes of each value. -/
def bind (xs : Outputs α) (f : α → Outputs β) : Outputs β :=
  match xs with
  | .done => .done
  | .next (.ok a) rest => append (f a) fun _ => bind (rest ()) f
  | .next (.error why) rest => .next (.error why) fun _ => bind (rest ()) f

/-- Each value through a function. -/
def map (f : α → β) (xs : Outputs α) : Outputs β := bind xs fun a => single (f a)

/-- The items that pass a test. -/
def filter (p : Except Stop α → Bool) : Outputs α → Outputs α
  | .done => .done
  | .next item rest =>
    if p item then .next item fun _ => filter p (rest ()) else filter p (rest ())

/-- The items before the first one that passes a test. -/
def before (p : Except Stop α → Bool) : Outputs α → Outputs α
  | .done => .done
  | .next item rest => if p item then .done else .next item fun _ => before p (rest ())

/-- What `f` makes of each error; all else stays. -/
def recover (f : Json.Value → Outputs α) : Outputs α → Outputs α
  | .done => .done
  | .next (.error (.error v)) rest => append (f v) fun _ => recover f (rest ())
  | .next item rest => .next item fun _ => recover f (rest ())

/-- The first item. -/
def head? : Outputs α → Option (Except Stop α)
  | .done => none
  | .next item _ => some item

/-- The first `n` items. -/
def take (n : Nat) (xs : Outputs α) : Outputs α :=
  match n, xs with
  | n + 1, .next item rest => .next item fun _ => take n (rest ())
  | _, _ => .done

/-- The items after the first `n`. -/
def drop (n : Nat) (xs : Outputs α) : Outputs α :=
  match n, xs with
  | n + 1, .next _ rest => drop n (rest ())
  | _, xs => xs

/-- The values, or the first reason why there is none. -/
def toList : Outputs α → Except Stop (List α)
  | .done => .ok []
  | .next item rest => do
    let a ← item
    return a :: (← toList (rest ()))

/-- Every choice of one output for each member of a list, the first member varying slowest. -/
def choices (f : α → Outputs β) : List α → Outputs (List β)
  | [] => single []
  | a :: rest => bind (f a) fun b => map (b :: ·) (choices f rest)

end Outputs
end Filter
end Shapewright
