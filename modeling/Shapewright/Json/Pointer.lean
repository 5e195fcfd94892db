import Shapewright.Json.Value

/-!
# JSON pointers

A pointer selects a part of a value: each reference token after a slash names a member of an object,
or an item of an array by a decimal number without leading zeros or a sign.

Tokens are escaped, since a key may contain a slash: `~1` stands for one and `~0` for a tilde. The
escapes are undone in this order, one after the other, so that `~01` is a tilde and a one. A token
is looked at as a key or as an index only when it is clear what it selects from, so the same token
can be either.
-/

namespace Shapewright
namespace Json
namespace Pointer

/-- The texts between slashes, after the first one. -/
def tokens (cs : List Char) : List (List Char) :=
  (cs.foldr
    (fun c ts => if c = '/' then [] :: ts else (c :: ts.headD []) :: ts.tail)
    [[]])

/-- Undoes the escapes of a token: `~1` is a slash. -/
def unescapeSlash : List Char → List Char
  | '~' :: '1' :: r => '/' :: unescapeSlash r
  | c :: r => c :: unescapeSlash r
  | [] => []

/-- Undoes the escapes of a token: `~0` is a tilde. -/
def unescapeTilde : List Char → List Char
  | '~' :: '0' :: r => '~' :: unescapeTilde r
  | c :: r => c :: unescapeTilde r
  | [] => []

/-- The index a token stands for. -/
def index? (token : List Char) : Option Nat :=
  match token with
  | [] => none
  | '0' :: _ :: _ => none
  | token =>
    if token.all Char.isDigit then
      let n := token.foldl (fun n c => n * 10 + (c.toNat - 48)) 0
      if n < Nat.pow 2 64 then some n else none
    else none

/-- Follows one token. -/
def step (v : Value) (token : List Char) : Option Value :=
  match v with
  | .object members => Ordered.get? members (String.ofList token)
  | .array items => (index? token).bind fun i => items[i]?
  | _ => none

/-- The part of `v` that the pointer selects. The empty pointer selects all of it; every other
    pointer starts with a slash. -/
def select (pointer : String) (v : Value) : Option Value :=
  match pointer.toList with
  | [] => some v
  | '/' :: cs => (tokens cs).foldlM (fun v t => step v (unescapeTilde (unescapeSlash t))) v
  | _ => none

end Pointer
end Json
end Shapewright
