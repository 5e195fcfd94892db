/-!
# Reachability

What can be reached from some starting points along a relation given by lists of successors. Every
point is met once, in the order of a breadth-first search.

The limit bounds the points that are met and not the steps of the search, so a search with as many
as there can be different points is complete, whatever the order of the successors is.
-/

namespace Shapewright
namespace Reachable

variable {κ : Type} [BEq κ]

/-- The points met from `pending` on, behind those `met` before, with at most `limit` new ones. It
    is a search in breadth: what comes next from a point waits behind all that was found before. -/
def within (next : κ → List κ) : (limit : Nat) → (met pending : List κ) → List κ
  | 0, met, _ => met
  | limit + 1, met, pending =>
    match pending.dropWhile met.contains with
    | [] => met
    | k :: rest => within next limit (met ++ [k]) (rest ++ next k)

end Reachable
end Shapewright
