import Mathlib.Data.List.Nodup
import Mathlib.Data.List.Perm.Subperm
import Mathlib.Data.List.TakeWhile
import Mathlib.Logic.Relation
import Shapewright.Reachable

/-!
# Searches meet what can be reached

A breadth-first search keeps the points it has met and those it still has to look at. As long as
every successor of a point that was met is in one of the two, a search with nothing left to look at
has met exactly what can be reached. The invariant is stated of a relation, so that it also serves
searches whose steps can fail.

Validators are built by two such searches. One collects the types that a validator hands values over
to, directly or not, and its steps can fail; the other asks which of these lead to a type with
something to check. Neither is recursive in the graph: they go round as often as there may be
points, and each round takes the first one that was not met. That the rounds suffice is a matter of
counting. A search that has met as many different points as there are has met all of them
(`Searched.full`), whether or not anything is still waiting.

What was met is kept in order. So besides saying which points a search meets, the invariant says
that it lists none twice.
-/

namespace Shapewright
namespace Reachable

open Relation

variable {κ : Type} {R : κ → κ → Prop} {U starts met pending rest more : List κ} {x y : κ}

/-- A search along a relation that has met some points and has yet to look at others. It has met
    nothing that cannot be reached. -/
structure Searched (R : κ → κ → Prop) (starts met pending : List κ) : Prop where
  nodup : met.Nodup
  begun : ∀ x ∈ starts, x ∈ met ∨ x ∈ pending
  next : ∀ x ∈ met, ∀ y, R x y → y ∈ met ∨ y ∈ pending
  reached : ∀ y, y ∈ met ∨ y ∈ pending → ∃ x ∈ starts, ReflTransGen R x y

namespace Searched

theorem init (R : κ → κ → Prop) (starts : List κ) : Searched R starts [] starts where
  nodup := List.nodup_nil
  begun _ h := .inr h
  next _ h := by simp at h
  reached y h := ⟨y, h.resolve_left (by simp), .refl⟩

/-- What the search has met is not looked at again. A point can wait more than once, and all but the
    first are dropped. -/
theorem skip (h : Searched R starts met pending) (seen : κ → Bool)
    (hseen : ∀ x, seen x = true ↔ x ∈ met) :
    Searched R starts met (pending.dropWhile seen) := by
  have hsplit : ∀ y, y ∈ met ∨ y ∈ pending → y ∈ met ∨ y ∈ pending.dropWhile seen := by
    intro y hy
    rcases hy with hy | hy
    · exact .inl hy
    · rw [← List.takeWhile_append_dropWhile (p := seen) (l := pending), List.mem_append] at hy
      exact hy.imp_left fun hy => (hseen y).mp (List.mem_takeWhile_imp hy)
  refine ⟨h.nodup, fun x hx => hsplit x (h.begun x hx),
    fun x hx y hxy => hsplit y (h.next x hx y hxy),
    fun y hy => h.reached y (hy.imp_right fun hy => ?_)⟩
  exact (List.dropWhile_sublist seen).subset hy

/-- One round: a new point is met, and its successors are put behind what is waiting. They may
    include points that were met, which `skip` takes care of. -/
theorem push (h : Searched R starts met (x :: rest)) (hx : x ∉ met)
    (hmore : ∀ y, R x y ↔ y ∈ more) : Searched R starts (met ++ [x]) (rest ++ more) where
  nodup := by
    rw [List.nodup_append]
    refine ⟨h.nodup, List.nodup_singleton x, fun a ha b hb => ?_⟩
    rw [List.mem_singleton] at hb
    rintro rfl
    exact hx (hb ▸ ha)
  begun y hy := by
    have := h.begun y hy
    grind
  next y hy z hyz := by
    rcases List.mem_append.mp hy with hy | hy
    · have := h.next y hy z hyz
      grind
    · obtain rfl := List.mem_singleton.mp hy
      exact .inr (List.mem_append_right _ ((hmore z).mp hyz))
  -- A successor of the new point is reached by way of it.
  reached y hy := by
    obtain ⟨s, hs, hsx⟩ := h.reached x (.inr List.mem_cons_self)
    have hcases : y ∈ met ∨ y ∈ x :: rest ∨ R x y := by
      have := hmore y
      grind
    rcases hcases with hy | hy | hy
    · exact h.reached y (.inl hy)
    · exact h.reached y (.inr hy)
    · exact ⟨s, hs, hsx.tail hy⟩

/-- A search with nothing left to look at has met what can be reached. What was met is closed under
    the relation, and starts with the starts. -/
theorem mem_iff (h : Searched R starts met []) :
    y ∈ met ↔ ∃ x ∈ starts, ReflTransGen R x y := by
  constructor
  · intro hy
    exact h.reached y (.inl hy)
  · intro h'
    obtain ⟨x, hx, hxy⟩ := h'
    -- Nothing is pending, so the points that were met are closed under steps.
    induction hxy with
    | refl => simpa using h.begun x hx
    | tail _ hyz ih => simpa using h.next _ ih _ hyz

/-- A search that has met as many points as there are has nothing left to look at, as all that waits
    was met. -/
theorem full (h : Searched R starts met pending) (hmet : met ⊆ U) (hpending : pending ⊆ U)
    (hlen : U.length ≤ met.length) : Searched R starts met [] := by
  have hall : U ⊆ met := (((h.nodup.subperm hmet).perm_of_length_le hlen).symm).subset
  have hdone : ∀ y, y ∈ met ∨ y ∈ pending → y ∈ met ∨ y ∈ ([] : List κ) := fun y hy =>
    .inl (hy.elim id fun hy => hall (hpending hy))
  exact ⟨h.nodup, fun x hx => hdone x (h.begun x hx), fun x hx y hxy => hdone y (h.next x hx y hxy),
    fun y hy => h.reached y (hy.imp_right (by simp))⟩

end Searched

variable [BEq κ] [LawfulBEq κ] {next : κ → List κ}

/-- The search goes on until it has met everything: each round meets one point more of those there
    are. -/
theorem searched_within (hnext : ∀ x ∈ U, next x ⊆ U) : ∀ {limit : Nat} {met pending : List κ},
    Searched (fun x y => y ∈ next x) starts met pending → met ⊆ U → pending ⊆ U →
    U.length ≤ limit + met.length →
    Searched (fun x y => y ∈ next x) starts (within next limit met pending) [] := by
  intro limit
  induction limit with
  | zero =>
    intro met pending h hmet hpending hlen
    exact h.full hmet hpending (by simpa using hlen)
  | succ limit ih =>
    intro met pending h hmet hpending hlen
    have hskip := h.skip met.contains (by simp)
    rw [within]
    split
    · rename_i hnil
      rwa [hnil] at hskip
    · rename_i k rest hcons
      rw [hcons] at hskip
      have hsub : k :: rest ⊆ U := hcons ▸ fun y hy =>
        hpending ((List.dropWhile_sublist _).subset hy)
      obtain ⟨hk, hrest⟩ := List.cons_subset.mp hsub
      -- The first point that is left was not met before, as those that were met have been dropped.
      have hfresh : k ∉ met := by
        have := List.head?_dropWhile_not met.contains pending
        simpa [hcons] using this
      refine ih (hskip.push hfresh fun y => Iff.rfl) ?_ ?_ ?_
      · exact List.append_subset.mpr ⟨hmet, by simpa using hk⟩
      · exact List.append_subset.mpr ⟨hrest, hnext k hk⟩
      · rw [List.length_append, List.length_singleton]
        omega

/-- The search meets what can be reached, if it may meet as many points as there are. -/
theorem mem_within (hnext : ∀ x ∈ U, next x ⊆ U) (hstarts : starts ⊆ U) {limit : Nat}
    (hlimit : U.length ≤ limit) : y ∈ within next limit [] starts ↔
      ∃ x ∈ starts, ReflTransGen (fun x y => y ∈ next x) x y :=
  (searched_within hnext (.init _ starts) (by simp) hstarts (by simpa using hlimit)).mem_iff

end Reachable
end Shapewright
