import Mathlib.Logic.Relation

/-!
# Chains in a finite set

A recursion that follows a relation through a finite set, and never comes round to where it was,
ends within as many levels as the set has elements: the points it is inside are all different.
Conversely a recursion that ends never comes round.

Every walk of this library that could be endless (comparisons, code in place, the search for
helpers, the derivation of projected types) has a budget of levels, and for each of them the
question is the same: when does the budget suffice? The answer is given once, here, for any relation
and any statement about levels. `ends_of_acyclic` wants two things of the caller. One level has to
lead from the points one step on to a point, which is the equation of the recursion; and no point
that can be reached may be reached from itself, which is the condition that ends up in the
statement. The budget itself plays no part beyond the number of elements.

The other direction needs no budget at all: where a recursion ends, the relation is accessible, and
an accessible point is on no cycle (`not_transGen_self_of_acc`). Together the two make "it ends"
equivalent to "nothing goes in circles", as `Registry.compatible_finishes_iff` states of
comparisons.
-/

namespace Shapewright

open Relation

variable {α : Type} {R : α → α → Prop} {U : List α}

/-- Points that the recursion ends at lead to others at which it ends. So a cycle anywhere below a
    point is as bad as one through it. -/
theorem acc_of_reaches {x y : α} (h : Acc (fun y x => R x y) x) (hxy : ReflTransGen R x y) :
    Acc (fun y x => R x y) y := by
  induction hxy with
  | refl => exact h
  | tail _ hyz ih => exact ih.inv hyz

/-- A point at which a recursion ends is on no cycle. -/
theorem not_transGen_self_of_acc {x : α} (h : Acc (fun y x => R x y) x) : ¬ TransGen R x x := by
  induction h with
  | intro x _ ih =>
    intro hround
    obtain ⟨y, hxy, hyx⟩ := TransGen.head'_iff.mp hround
    exact ih y hxy (TransGen.tail' hyx hxy)

/-- The points the recursion is inside: all different, and each leads to the one it is at. Their
    number is what grows with each level, so this is the invariant that bounds the levels. -/
structure Inside (R : α → α → Prop) (U : List α) (root x : α) (around : List α) : Prop where
  mem : x ∈ around
  nodup : around.Nodup
  subset : around ⊆ U
  leads : ∀ y ∈ around, ReflTransGen R y x
  reached : ReflTransGen R root x

/-- One step further in. That the new point is none of those around it is where acyclicity is
    used. -/
theorem Inside.push {root x y : α} {around : List α} (h : Inside R U root x around) (hxy : R x y)
    (hy : y ∈ U) (hround : ¬ TransGen R y y) : Inside R U root y (y :: around) where
  mem := List.mem_cons_self
  nodup := List.nodup_cons.mpr
    ⟨fun hm => hround (TransGen.tail' (h.leads y hm) hxy), h.nodup⟩
  subset := List.cons_subset.mpr ⟨hy, h.subset⟩
  leads := by
    intro z hz
    rcases List.mem_cons.mp hz with rfl | hz
    · exact .refl
    · exact (h.leads z hz).tail hxy
  reached := h.reached.tail hxy

/-- A recursion ends at `root` within `U.length` levels if one level leads from the points one step
    on to a point, and no point that is reached is reached from itself. -/
theorem ends_of_acyclic (ends : Nat → α → Prop) (root : α) (hroot : root ∈ U)
    (hclosed : ∀ x y, x ∈ U → R x y → y ∈ U)
    (hround : ∀ x, ReflTransGen R root x → ¬ TransGen R x x)
    (hstep : ∀ n x, ReflTransGen R root x → (∀ y, R x y → ends n y) → ends (n + 1) x) :
    ∀ n, U.length ≤ n → ends n root := by
  -- Each level adds a point to those around, of which there are at most `U.length`.
  have key : ∀ n x around, Inside R U root x around → U.length + 1 ≤ n + around.length →
      ends n x := by
    intro n
    induction n with
    -- No level is left, but then there are more different points around than the set has.
    | zero =>
      intro x around h hn
      have := List.Nodup.length_le_of_subset h.nodup h.subset
      omega
    | succ n ih =>
      intro x around h hn
      refine hstep n x h.reached fun y hxy => ?_
      have hy := hclosed x y (h.subset h.mem) hxy
      refine ih y (y :: around) (h.push hxy hy (hround y (h.reached.tail hxy))) ?_
      rw [List.length_cons]
      omega
  intro n hn
  have hin : Inside R U root root [root] :=
    ⟨by simp, by simp, by simpa using hroot, by simp [ReflTransGen.refl], .refl⟩
  exact key n root [root] hin (by simpa using hn)

end Shapewright
