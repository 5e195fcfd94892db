import Shapewright.Filter.Library

/-!
# Running filters

The names of a filter are looked up where they were written: a function runs among the names known
at its definition, and an argument among those known at the call. A run may take so many steps
inside one another as its fuel says.

A filter is run in two ways. For its outputs on a value (`eval`), and to update what it selects in a
value (`updateIn`), which only some filters allow: paths, and what is built of paths by commas,
pipes and choices. The second way takes the
update inwards instead of computing paths first.

Labels are numbers that are given when a run comes to them, so that leaving a label means the one
that is nearest by its name at the place where it was written.
-/

namespace Shapewright
namespace Filter

open Json (Value)

/-- What a name stands for. -/
inductive Binding where
  | value (name : String) (v : Value)
  | label (name : String) (id : Nat)
  | function (name : String) (params : List Param) (body : Filter)
  /-- An argument, with what is known at the call. -/
  | argument (name : String) (body : Filter) (known : List Binding)

/-- What is known at a place, the nearest first. -/
abbrev Env := List Binding

namespace Env

/-- The value of a variable. -/
def value? (name : String) : Env → Option Value
  | [] => none
  | .value n v :: rest => if n = name then some v else value? name rest
  | _ :: rest => value? name rest

/-- The number of a label. -/
def label? (name : String) : Env → Option Nat
  | [] => none
  | .label n id :: rest => if n = name then some id else label? name rest
  | _ :: rest => label? name rest

/-- A function: its parameters, its body and what is known in it. -/
def function? (name : String) (arity : Nat) : Env → Option (List Param × Filter × Env)
  | [] => none
  | .function n params body :: rest =>
    if n = name ∧ params.length = arity then some (params, body, .function n params body :: rest)
    else function? name arity rest
  | .argument n body known :: rest =>
    if n = name ∧ arity = 0 then some ([], body, known) else function? name arity rest
  | _ :: rest => function? name arity rest

/-- Binds an argument that is a value. It is known as a value and as a function. -/
def withValue (env : Env) (name : String) (v : Value) : Env :=
  .value name v :: .function name [] (.literal v) :: env

end Env

/-- How a filter runs among the names it knows. -/
abbrev Run := Env → Filter → Value → Outputs Value

/-- Binds the parameters of a function, in the environments that the values of arguments give. -/
def bindParams (run : Run) (caller : Env) (v : Value) :
    List Param → List Filter → Env → Outputs Env
  | .byName name :: params, arg :: args, env =>
    bindParams run caller v params args (.argument name arg caller :: env)
  | .byValue name :: params, arg :: args, env =>
    (run caller arg v).bind fun x => bindParams run caller v params args (env.withValue name x)
  | _, _, env => .single env

mutual

/-- Binds the names of a binder to the parts of `w`. Keys are computed on `v`. -/
def bindParts (run : Run) (v : Value) (env : Env) (w : Value) : Binder → Outputs Env
  | .var name => .single (.value name w :: env)
  | .array items => bindItems run v env w 0 items
  | .object entries => bindEntries run v env w entries

/-- Binds the names of binders to items. -/
def bindItems (run : Run) (v : Value) (env : Env) (w : Value) (index : Nat) :
    List Binder → Outputs Env
  | [] => .single env
  | b :: rest =>
    (Outputs.ofExcept (partAt w (.integer index))).bind fun item =>
      (bindParts run v env item b).bind fun env => bindItems run v env w (index + 1) rest

/-- Binds the names of binders to members. -/
def bindEntries (run : Run) (v : Value) (env : Env) (w : Value) :
    List (Filter × Binder) → Outputs Env
  | [] => .single env
  | (key, b) :: rest =>
    (run env key v).bind fun k => (Outputs.ofExcept (partAt w k)).bind fun part =>
      (bindParts run v env part b).bind fun env => bindEntries run v env w rest

end

/-- A step with its indices, which are computed on `v`. -/
def resolveStep (run : Filter → Value → Outputs Value) (v : Value) (step : Step × Bool) :
    Outputs (Place × Bool) :=
  let bound (f : Option Filter) : Outputs Value := match f with
    | some f => run f v
    | none => .single .null
  match step.1 with
  | .at index => (run index v).map fun i => (.at i, step.2)
  | .slice low high => (bound low).bind fun a => (bound high).map fun b => (.slice a b, step.2)
  | .each => .single (.each, step.2)

/-- The text of a part. -/
def partText (run : Filter → Value → Outputs Value) (format : String) (v : Value)
    (part : TextPart) : Outputs String :=
  match part with
  | .plain s => .single s
  | .hole f => (run f v).bind fun w => .ofExcept (Builtin.format format w)

/-- An object of one member. -/
def member (k v : Value) : Except Stop Value :=
  match k with
  | .string key => .ok (.object [(key, v)])
  | _ => Builtin.refuse "object construction" k

/-- Folds over environments: `step` makes the next values in each of them. -/
def foldEnvs (step : Env → Value → Outputs Value) (envs : Outputs Env) (start : Value) :
    Outputs Value :=
  match envs with
  | .done => .single start
  | .next (.error why) _ => .stop why
  | .next (.ok env) rest => (step env start).bind fun v => foldEnvs step (rest ()) v

/-- All values of a fold, each as `project` makes it. -/
def scanEnvs (step project : Env → Value → Outputs Value) (envs : Outputs Env) (start : Value) :
    Outputs Value :=
  match envs with
  | .done => .done
  | .next (.error why) _ => .stop why
  | .next (.ok env) rest =>
    (step env start).bind fun v =>
      (project env v).append fun _ => scanEnvs step project (rest ()) v

/-- Puts all that is inside a value through `f`, and then the value itself. -/
def updateContents (f : Value → Outputs Value) : (height : Nat) → Value → Outputs Value
  | 0, v => f v
  | height + 1, v =>
    match updateEach (updateContents f height) v with
    | .ok w => f w
    | .error (.error _) => f v
    | .error why => .stop why

/-- The outputs that are not false; errors stay. -/
def trueOutputs (xs : Outputs Value) : Outputs Value :=
  xs.filter fun
    | .ok v => isTrue v
    | .error _ => true

/-- Whether an item leaves a label. -/
def leaves (id : Nat) : Except Stop Value → Bool
  | .error (.left i) => i == id
  | _ => false

/-- What is known for each output of a source whose parts are bound. -/
def boundEnvs (run : Run) (env : Env) (source : Filter) (b : Binder) (v : Value) : Outputs Env :=
  (run env source v).bind fun w => bindParts run v env w b

/-- The error of a filter that selects nothing that could be updated. -/
def noSelection : Outputs Value := .fail "invalid path expression"

mutual

/-- The outputs of a filter for an input. They come one after the other, so an error does not take
    back those before it. Arguments of functions are filters that go with the environment they were
    written in. -/
def eval : (fuel : Nat) → Env → Filter → Value → Outputs Value
  | 0, _, _, _ => .stop .exhausted
  | fuel + 1, env, f, v =>
    match f with
    | .identity => .single v
    | .everything => .ofList (contents v)
    | .literal w => .single w
    | .text format parts =>
      (Outputs.choices (partText (eval fuel env) (format.getD "text") v) parts).map fun ss =>
        .string (String.join ss)
    | .array none => .single (.array [])
    | .array (some items) => .ofExcept ((eval fuel env items v).toList.map .array)
    | .object entries =>
      let entry (e : Filter × Filter) : Outputs Value :=
        (eval fuel env e.1 v).bind fun k => (eval fuel env e.2 v).bind fun w =>
          .ofExcept (member k w)
      (Outputs.choices entry entries).bind fun ms =>
        .ofExcept (ms.foldlM (Arithmetic.apply .add) (.object []))
    | .path start steps =>
      (eval fuel env start v).bind fun w =>
        (Outputs.choices (resolveStep (eval fuel env) v) steps).bind fun places => select places w
    | .negate f =>
      (eval fuel env f v).bind fun w => .ofExcept (Arithmetic.apply .sub (.integer 0) w)
    | .binary op l r =>
      match op with
      | .pipe => (eval fuel env l v).bind (eval fuel env r)
      | .comma => (eval fuel env l v).append fun _ => eval fuel env r v
      | .assign => (eval fuel env r v).bind fun w => updateIn fuel env l (fun _ => .single w) v
      | .update => updateIn fuel env l (eval fuel env r) v
      | .updateBy op => (eval fuel env r v).bind fun w =>
          updateIn fuel env l (fun old => .ofExcept (op.apply old w)) v
      | .updateAlternative => (eval fuel env r v).bind fun w =>
          updateIn fuel env l (fun old => .single (if isTrue old then old else w)) v
      | .alternative =>
        match trueOutputs (eval fuel env l v) with
        | .done => eval fuel env r v
        | found => found
      | .or => (eval fuel env l v).bind fun a =>
          if isTrue a then .single (.bool true)
          else (eval fuel env r v).map fun b => .bool (isTrue b)
      | .and => (eval fuel env l v).bind fun a =>
          if isTrue a then (eval fuel env r v).map fun b => .bool (isTrue b)
          else .single (.bool false)
      | .compare op => (eval fuel env l v).bind fun a =>
          (eval fuel env r v).map fun b => .bool (op.holds a b)
      | .arith op => (eval fuel env l v).bind fun a =>
          (eval fuel env r v).bind fun b => .ofExcept (op.apply a b)
    | .bind source b body =>
      (boundEnvs (eval fuel) env source b v).bind fun env => eval fuel env body v
    | .choice condition yes no =>
      (eval fuel env condition v).bind fun c => eval fuel env (if isTrue c then yes else no) v
    | .guarded body none => (eval fuel env body v).recover fun _ => .done
    | .guarded body (some handler) => (eval fuel env body v).recover (eval fuel env handler)
    | .label name body => (eval fuel (.label name fuel :: env) body v).before (leaves fuel)
    | .leave name => .stop (match env.label? name with
        | some id => .left id
        | none => .exhausted)
    | .reduce source b start update =>
      (eval fuel env start v).bind
        (foldEnvs (fun env => eval fuel env update) (boundEnvs (eval fuel) env source b v))
    | .foreach source b start update project =>
      (eval fuel env start v).bind
        (scanEnvs (fun env => eval fuel env update)
          (fun env => eval fuel env (project.getD .identity))
          (boundEnvs (eval fuel) env source b v))
    | .define name params body rest => eval fuel (.function name params body :: env) rest v
    | .var name => .ofList (env.value? name).toList
    | .call name args =>
      match env.function? name args.length with
      | some (params, body, inner) =>
        (bindParams (eval fuel) env v params args inner).bind fun env => eval fuel env body v
      | none =>
        match Builtin.find? name args.length with
        | some function => function (args.map (eval fuel env)) v
        | none => .stop .exhausted

/-- Puts what a filter selects in `v` through `g`. Each form of a filter that selects parts has its
    own way to put them through. Filters that make new values select no part. -/
def updateIn : (fuel : Nat) → Env → Filter → (Value → Outputs Value) → Value → Outputs Value
  | 0, _, _, _, _ => .stop .exhausted
  | fuel + 1, env, f, g, v =>
    match f with
    | .identity => g v
    | .everything => updateContents g v.compact.length v
    | .path start steps =>
      let update (w : Value) : Outputs Value :=
        match (Outputs.choices (resolveStep (eval fuel env) v) steps).toList with
        | .ok choices =>
          choices.foldl (fun ws places => ws.bind (Filter.update g places)) (.single w)
        | .error why => .stop why
      updateIn fuel env start update v
    | .binary .pipe l r => updateIn fuel env l (updateIn fuel env r g) v
    | .binary .comma l r => (updateIn fuel env l g v).bind (updateIn fuel env r g)
    | .binary .alternative l r =>
      match trueOutputs (eval fuel env l v) with
      | .done => updateIn fuel env r g v
      | _ => updateIn fuel env l g v
    | .bind source b body =>
      foldEnvs (fun env => updateIn fuel env body g) (boundEnvs (eval fuel) env source b v) v
    | .choice condition yes no =>
      (eval fuel env condition v).bind fun c =>
        updateIn fuel env (if isTrue c then yes else no) g v
    | .guarded body none => (updateIn fuel env body g v).recover fun _ => .single v
    | .define name params body rest => updateIn fuel (.function name params body :: env) rest g v
    | .call name args =>
      match env.function? name args.length with
      | some (params, body, inner) =>
        foldEnvs (fun env => updateIn fuel env body g)
          (bindParams (eval fuel) env v params args inner) v
      | none =>
        match name, args with
        | "empty", [] => .single v
        | "error", [] => .stop (.error v)
        | _, _ => noSelection
    | _ => noSelection

end

/-- The steps that may be inside one another. -/
def depthLimit : Nat := 1000000

/-- The outputs of a filter, each as its own text has it; nothing if the text is no filter or the
    filter has an error. -/
def run? (text : String) (v : Value) : Option (List Value) := do
  let f ← ofText? text
  let found ← (eval depthLimit [] f v).toList.toOption
  found.mapM fun w => (Json.parse w.compact).toOption

end Filter
end Shapewright
