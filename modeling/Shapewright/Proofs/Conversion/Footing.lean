import Shapewright.Proofs.Conversion.Emission
import Shapewright.Proofs.Conversion.Variables
import Shapewright.Proofs.Scoping

/-!
# Sites and the variables around them

A site is told the value and the place it works on as expressions, and the variables in them are
declared somewhere around it. A `Footing` is a site with the blocks in which that is: the emitter on
the way to a site knows where it declares what it tells the site. A step of code is right if the
variables of its site stand for those of just these blocks (`Footing.Resolves`), whatever else has
been declared on the way.

## Before and behind the first statement

Code for a site may have to declare its place, and does so in its first statement. So there are two
invariants. `Stands` is what holds where the code starts: the value is visible, and the place is
visible or still to be declared in this very block. `Sees` is what holds from the second statement
on: everything is visible. The step from one to the other is `Stands.sees`.

For each way to go one level down there is a footing below (`Footing.element` and the rest), which
says where the variables of the site below are declared, and a lemma that it stands if the footing
above sees. These are facts on names of loops and of cases of a switch alone; no emitter is looked
at.

What the proof needs to know of names is `Rooted`: a variable of the value is one of a loop around
the site, or the parameter, or what a switch binds; one of the place likewise. The names of fields
have no part in it, as they occur behind a dot only.
-/

namespace Shapewright

open Conversion

namespace Site

/-- The variables in the value and the place of the site. -/
def vars (s : Site) : List String := s.value.vars ++ s.place.vars

/-- The variable that the code of the site declares for its place, if it does. -/
def introduces (s : Site) : List String := if s.declare then s.place.vars else []

theorem introduces_subset (s : Site) : s.introduces ⊆ s.vars := by
  rw [introduces, vars]
  split
  · exact List.subset_append_right _ _
  · exact List.nil_subset _

/-- The variables that no variable for a field of the site is called like. -/
def taken (s : Site) : List String :=
  loopScope s.depth ++ s.value.root?.toList ++ s.place.root?.toList

theorem store_declares (s : Site) (e : Expr) : (s.store e).declares = s.introduces := by
  rw [store, introduces]
  cases s.declare <;> rfl

/-- The variables of the site belong to loops around it, or are what the value and the place are
    parts of. Those of the second kind have fixed names. -/
structure Rooted (s : Site) : Prop where
  value : ∀ x ∈ s.value.vars,
    x ∈ loopScope s.depth ∨ (s.value.root? = some x ∧ (x = "v" ∨ x = "actual"))
  place : ∀ x ∈ s.place.vars,
    x ∈ loopScope s.depth ∨ (s.place.root? = some x ∧ (x = "res" ∨ x = "conv"))
  introduces : s.introduces.Nodup ∧ ∀ x ∈ s.introduces, x ∉ s.value.vars

namespace Rooted

variable {s : Site} {x : String}

/-- A variable for a field keeps clear of all that the site mentions. They are variables of loops
    around it, or what the value and the place begin with. -/
theorem mem_taken (hr : s.Rooted) (hx : x ∈ s.vars) : x ∈ s.taken := by
  rw [vars, List.mem_append] at hx
  rw [taken, List.mem_append, List.mem_append, Option.mem_toList, Option.mem_toList]
  rcases hx with hx | hx
  · rcases hr.value x hx with hx | ⟨hx, -⟩
    · exact Or.inl (Or.inl hx)
    · exact Or.inl (Or.inr hx)
  · rcases hr.place x hx with hx | ⟨hx, -⟩
    · exact Or.inl (Or.inl hx)
    · exact Or.inr hx

/-- The variables that the code of a site has for itself are none of those it is told. A default
    declares them next to the variables of the site and must hide neither value nor place. -/
theorem not_mem_vars (hr : s.Rooted) (hx : x ∈ ["tmp", "zero"]) : x ∉ s.vars := by
  have hscope : x ∉ loopScope s.depth := by
    intro h
    obtain ⟨d, -, h⟩ := mem_loopScope.mp h
    refine fixed_not_mem_loopVariables ?_ d h
    simp only [List.mem_cons, List.not_mem_nil, or_false] at hx
    rcases hx with rfl | rfl <;> simp [fixedVariables]
  simp only [List.mem_cons, List.not_mem_nil, or_false] at hx
  intro h
  rcases List.mem_append.mp h with h | h
  · rcases hr.value x h with h | ⟨-, h⟩
    · exact hscope h
    · rcases hx with rfl | rfl <;> simp at h
  · rcases hr.place x h with h | ⟨-, h⟩
    · exact hscope h
    · rcases hx with rfl | rfl <;> simp at h

/-- A loop at the site, or deeper, hides nothing of the place. -/
theorem not_mem_loopVariables (hr : s.Rooted) (hx : x ∈ s.place.vars) {d : Nat}
    (hd : s.depth ≤ d) : x ∉ loopVariables d := by
  rcases hr.place x hx with hx | ⟨-, rfl | rfl⟩
  · exact loopScope_disjoint hx hd
  · exact fixed_not_mem_loopVariables (by simp [fixedVariables]) d
  · exact fixed_not_mem_loopVariables (by simp [fixedVariables]) d

theorem conv_not_mem_value (hr : s.Rooted) : "conv" ∉ s.value.vars := by
  intro h
  rcases hr.value _ h with h | ⟨-, h⟩
  · obtain ⟨d, -, h⟩ := mem_loopScope.mp h
    exact fixed_not_mem_loopVariables (by simp [fixedVariables]) d h
  · simp at h

/-- The new variables of a loop at the site are none that the site has been told. The site has
    variables of outer loops alone, and the depth is in the name. -/
theorem new_not_mem_vars (hr : s.Rooted)
    (hx : x = loopNewKey s.depth ∨ x = loopNewValue s.depth) : x ∉ s.vars := by
  obtain ⟨word, hw, hx⟩ : ∃ word ∈ loopWords, x = word ++ loopSuffix s.depth := by
    rcases hx with rfl | rfl
    · exact ⟨"tk", by decide, rfl⟩
    · exact ⟨"tv", by decide, rfl⟩
  have hloop : x ∈ loopVariables s.depth := mem_loopVariables.mpr (Or.inr ⟨word, hw, hx⟩)
  intro h
  rcases List.mem_append.mp h with h | h
  · rcases hr.value x h with h | ⟨-, h | h⟩
    · exact loopScope_disjoint h (Nat.le_refl _) hloop
    · exact word_ne_v hw _ (hx.symm.trans h)
    · exact fixed_not_mem_loopVariables (by simp [h, fixedVariables]) _ hloop
  · exact hr.not_mem_loopVariables h (Nat.le_refl _) hloop

theorem ne_actual (hr : s.Rooted) (hx : x ∈ s.place.vars) : x ≠ "actual" := by
  rcases hr.place x hx with hx | ⟨-, rfl | rfl⟩
  · rintro rfl
    obtain ⟨d, -, h⟩ := mem_loopScope.mp hx
    exact fixed_not_mem_loopVariables (by simp [fixedVariables]) d h
  · decide
  · decide

theorem between (a b : Attribute) (declare : Bool) (depth : Nat) (inBox : Bool) :
    (Site.between a b "v" "res" declare depth inBox).Rooted where
  value x hx := by
    obtain rfl : x = "v" := by simpa [Site.between, Expr.vars] using hx
    exact Or.inr ⟨rfl, Or.inl rfl⟩
  place x hx := by
    obtain rfl : x = "res" := by simpa [Site.between, Expr.vars] using hx
    exact Or.inr ⟨rfl, Or.inl rfl⟩
  introduces := by cases declare <;> simp [Site.introduces, Site.between, Expr.vars]

theorem element (hr : s.Rooted) (x y : Attribute) : (s.element x y).Rooted where
  value n hn := by
    obtain rfl : n = loopValue s.depth := by simpa [Site.element, Expr.vars] using hn
    exact Or.inl (mem_loopScope_succ (by simp))
  place n hn := by
    rw [Site.element, Expr.vars, Expr.vars, List.mem_append, List.mem_singleton] at hn
    rcases hn with hn | rfl
    · exact (hr.place n hn).imp (fun h => loopScope_mono (Nat.le_succ _) h) id
    · exact Or.inl (mem_loopScope_succ (by simp))
  introduces := by simp [Site.introduces, Site.element]

/-- The sites of a map's keys and of its elements have two variables of the loop to themselves.
    Values are read from one and stored in the other, so they need to be different. -/
theorem ofLoop {t : Site} {d : Nat} {value place : String} (hd : t.depth = d + 1)
    (hv : t.value = .ident value) (hp : t.place = .ident place) (hvalue : value ∈ loopVariables d)
    (hplace : place ∈ loopVariables d) (hne : place ≠ value) : t.Rooted where
  value n hn := by
    rw [hv, Expr.vars, List.mem_singleton] at hn
    exact Or.inl (hd ▸ hn ▸ mem_loopScope_succ hvalue)
  place n hn := by
    rw [hp, Expr.vars, List.mem_singleton] at hn
    exact Or.inl (hd ▸ hn ▸ mem_loopScope_succ hplace)
  introduces := by
    rw [Site.introduces, hv, hp, Expr.vars, Expr.vars]
    split <;> simp [hne]

theorem alternative (hr : s.Rooted) (x y : Attribute) : (s.alternative x y).Rooted where
  value n hn := by
    obtain rfl : n = "actual" := by simpa [Site.alternative, Expr.vars] using hn
    exact Or.inr ⟨rfl, Or.inr rfl⟩
  place := hr.place
  introduces := by simp [Site.introduces, Site.alternative]

theorem wrapped (s : Site) (x y : Attribute) : (s.wrapped x y).Rooted where
  value n hn := by
    obtain rfl : n = "actual" := by simpa [Site.wrapped, Site.alternative, Expr.vars] using hn
    exact Or.inr ⟨rfl, Or.inr rfl⟩
  place n hn := by
    obtain rfl : n = "conv" := by simpa [Site.wrapped, Expr.vars] using hn
    exact Or.inr ⟨rfl, Or.inr rfl⟩
  introduces := by simp [Site.introduces, Site.wrapped, Site.alternative, Expr.vars]

end Rooted

/-- The second site works on parts of what the first works on, where that is there. So it mentions
    the same variables. -/
structure PartOf (s t : Site) : Prop where
  depth : t.depth = s.depth
  value : t.value.vars = s.value.vars ∧ t.value.root? = s.value.root?
  place : t.place.vars = s.place.vars ∧ t.place.root? = s.place.root?
  declare : t.declare = false ∨ t.declare = s.declare

namespace PartOf

variable {s t : Site}

theorem refl (s : Site) : s.PartOf s := ⟨rfl, ⟨rfl, rfl⟩, ⟨rfl, rfl⟩, Or.inr rfl⟩

theorem vars (h : s.PartOf t) : t.vars = s.vars := by
  rw [Site.vars, h.value.1, h.place.1, Site.vars]

theorem taken (h : s.PartOf t) : t.taken = s.taken := by
  rw [Site.taken, h.depth, h.value.2, h.place.2, Site.taken]

theorem rooted (h : s.PartOf t) (hr : s.Rooted) : t.Rooted where
  value := by
    rw [h.depth, h.value.1, h.value.2]
    exact hr.value
  place := by
    rw [h.depth, h.place.1, h.place.2]
    exact hr.place
  introduces := by
    rw [Site.introduces, h.value.1, h.place.1]
    rcases h.declare with hd | hd
    · simp [hd]
    · rw [hd]
      exact hr.introduces

end PartOf
end Site

/-- A site with the blocks that its variables are declared in. Blocks are numbered from outside, so
    an inner declaration of the same name has a greater number. -/
structure Footing where
  site : Site
  /-- The number of the block that the code of the site is in. -/
  block : Nat
  /-- The number of the block in which a variable of the site is declared. -/
  level : String → Nat

namespace Footing

variable {p : Footing} {s : Site} {σ : Scopes} {names : List String}

/-- Another site of the same variables. -/
def withSite (p : Footing) (s : Site) : Footing := { p with site := s }

/-! ## Where the sites one level below stand -/

/-- In a loop, whose variables are in the block around its body. -/
def element (p : Footing) (x y : Attribute) : Footing where
  site := p.site.element x y
  block := p.block + 2
  level n := if n ∈ loopVariables p.site.depth then p.block + 1 else p.level n

/-- In a loop, in whose body the place is declared. -/
def key (p : Footing) (x y : Attribute) : Footing where
  site := p.site.key x y
  block := p.block + 2
  level n := if n = loopNewKey p.site.depth then p.block + 2 else p.block + 1

def entry (p : Footing) (x y : Attribute) : Footing where
  site := p.site.entry x y
  block := p.block + 2
  level n := if n = loopNewValue p.site.depth then p.block + 2 else p.block + 1

/-- Behind a check for nil, unless the source is a primitive that is always there. -/
def field (p : Footing) (f : FieldSite) : Footing where
  site := f.site p.site.depth
  block := if f.sourcePrimitive && !f.sourcePointer then p.block else p.block + 1
  level := p.level

/-- In a case of a switch, which binds the value. -/
def alternative (p : Footing) (x y : Attribute) : Footing where
  site := p.site.alternative x y
  block := p.block + 1
  level n := if n = "actual" then p.block + 1 else p.level n

/-- In a case of a switch, which declares the place as well. -/
def wrapped (p : Footing) (x y : Attribute) : Footing where
  site := p.site.wrapped x y
  block := p.block + 1
  level _ := p.block + 1

/-! ## Steps and scopes -/

/-- Behind the step no block declares a variable twice. What the step mentions of the variables of
    the site is declared where it should be, and all else in the block of the step. -/
structure Resolves (p : Footing) (step : ScopedStep) : Prop where
  once : (step.scopes.add step.stmt.declares).Once
  vars : ∀ x ∈ step.stmt.vars, step.scopes.block? x =
    some (if x ∈ p.site.vars then p.level x else step.scopes.around.length)

/-- All variables of the site are visible: each name stands for the declaration that was meant. No
    block declares a name twice, so the block tells which declaration it is. -/
structure Sees (p : Footing) (σ : Scopes) : Prop where
  once : σ.Once
  vars : ∀ x ∈ p.site.vars, σ.block? x = some (p.level x)

theorem Sees.push (h : p.Sees σ) (hn : names.Nodup) (hd : ∀ x ∈ names, x ∉ p.site.vars) :
    p.Sees (σ.push names) where
  once := h.once.push hn
  vars x hx := by
    rw [Scopes.block?_push fun hm => hd x hm hx]
    exact h.vars x hx

theorem Sees.push_nil (h : p.Sees σ) : p.Sees (σ.push []) := h.push List.nodup_nil (by simp)

/-- What a block declares does no harm to the site if it is called like none of its variables. -/
theorem Sees.add (h : p.Sees σ) (hn : names.Nodup) (hh : ∀ x ∈ names, x ∉ σ.here)
    (hd : ∀ x ∈ names, x ∉ p.site.vars) : p.Sees (σ.add names) where
  once := h.once.add hn hh
  vars x hx := by
    rw [Scopes.block?_add fun hm => hd x hm hx]
    exact h.vars x hx

/-- A step that mentions variables of the site, and others of its own block only, is right. Those of
    the site are found in the blocks where they were declared, which is what `Sees` says. -/
theorem Sees.resolves {stmt : Stmt} (h : p.Sees σ)
    (hv : ∀ x ∈ stmt.vars, x ∈ p.site.vars ∨ x ∈ σ.here) (ho : (σ.add stmt.declares).Once) :
    p.Resolves ⟨σ, stmt⟩ where
  once := ho
  vars x hx := by
    split
    · rename_i hm
      exact h.vars x hm
    · rename_i hm
      exact Scopes.block?_of_mem ((hv x hx).resolve_left hm)

/-- A statement that declares nothing. -/
theorem Sees.resolves_plain {stmt : Stmt} (h : p.Sees σ) (hd : stmt.declares = [])
    (hv : ∀ x ∈ stmt.vars, x ∈ p.site.vars ∨ x ∈ σ.here) : p.Resolves ⟨σ, stmt⟩ := by
  refine h.resolves hv ?_
  rw [hd, Scopes.add_nil]
  exact h.once

/-- The code of the site may start here: the value is visible, and so is the place unless it is the
    code that declares it. -/
structure Stands (p : Footing) (σ : Scopes) : Prop where
  rooted : p.site.Rooted
  once : σ.Once
  block : σ.around.length = p.block
  value : ∀ x ∈ p.site.value.vars, σ.block? x = some (p.level x)
  place : ∀ x ∈ p.site.place.vars, x ∉ p.site.introduces → σ.block? x = some (p.level x)
  fresh : ∀ x ∈ p.site.introduces, x ∉ σ.here ∧ p.level x = p.block

namespace Stands

/-- Once the place is declared, all is visible. Before that the place may be a name that no block
    has yet, so nothing that stores in it could be right. -/
theorem sees (h : p.Stands σ) : p.Sees (σ.add p.site.introduces) where
  once := h.once.add h.rooted.introduces.1 fun x hx => (h.fresh x hx).1
  vars x hx := by
    by_cases hi : x ∈ p.site.introduces
    · rw [Scopes.block?_of_mem (List.mem_append_right _ hi), Scopes.add_around, h.block,
        (h.fresh x hi).2]
    · rw [Scopes.block?_add hi]
      rcases List.mem_append.mp hx with hx | hx
      · exact h.value x hx
      · exact h.place x hx hi

/-- The first statement stores something of the value in the place. The place may be declared by
    this very statement, and must be new in that case. -/
theorem store (h : p.Stands σ) {e : Expr} (he : e.vars ⊆ p.site.value.vars) :
    p.Resolves ⟨σ, p.site.store e⟩ where
  once := by
    rw [Site.store_declares]
    exact h.sees.once
  vars x hx := by
    have hvars : x ∈ p.site.vars ∧ σ.block? x = some (p.level x) := by
      have hvalue : x ∈ e.vars → x ∈ p.site.vars ∧ σ.block? x = some (p.level x) := fun hx =>
        ⟨List.mem_append_left _ (he hx), h.value x (he hx)⟩
      rw [Site.store] at hx
      cases hd : p.site.declare with
      | true =>
        rw [hd, Stmt.vars] at hx
        exact hvalue hx
      | false =>
        rw [hd, Stmt.vars, List.mem_append] at hx
        refine hx.elim (fun hx => ⟨List.mem_append_right _ hx, h.place x hx ?_⟩) hvalue
        simp [Site.introduces, hd]
    rw [if_pos hvars.1]
    exact hvars.2

/-- The same place in the code, seen from a site of parts. A part has other types and the same
    variables, and it is the variables that footings are about. -/
theorem ofPart (h : p.Stands σ) (hp : p.site.PartOf s) (hd : s.declare = p.site.declare) :
    (p.withSite s).Stands σ where
  rooted := hp.rooted h.rooted
  once := h.once
  block := h.block
  value := by
    rw [withSite, hp.value.1]
    exact h.value
  place := by
    rw [withSite, Site.introduces, hd, hp.place.1]
    exact h.place
  fresh := by
    rw [withSite, Site.introduces, hd, hp.place.1]
    exact h.fresh

/-- Behind the declaration of the place there is nothing left to declare for a part of it. -/
theorem behind (h : p.Stands σ) (hp : p.site.PartOf s) (hd : s.declare = false) :
    (p.withSite s).Stands (σ.add p.site.introduces) where
  rooted := hp.rooted h.rooted
  once := h.sees.once
  block := h.block
  value x hx := h.sees.vars x (List.mem_append_left _ (hp.value.1 ▸ hx))
  place x hx _ := h.sees.vars x (List.mem_append_right _ (hp.place.1 ▸ hx))
  fresh := by simp [withSite, Site.introduces, hd]

end Stands

/-! ## Standing one level below -/

section Below

variable {τ : Scopes}

theorem element_level (p : Footing) (x y : Attribute) (n : String) : (p.element x y).level n =
    if n ∈ loopVariables p.site.depth then p.block + 1 else p.level n := rfl

theorem key_level (p : Footing) (x y : Attribute) (n : String) : (p.key x y).level n =
    if n = loopNewKey p.site.depth then p.block + 2 else p.block + 1 := rfl

theorem entry_level (p : Footing) (x y : Attribute) (n : String) : (p.entry x y).level n =
    if n = loopNewValue p.site.depth then p.block + 2 else p.block + 1 := rfl

theorem alternative_level (p : Footing) (x y : Attribute) (n : String) :
    (p.alternative x y).level n = if n = "actual" then p.block + 1 else p.level n := rfl

/-- A variable of a loop, seen from the body. -/
theorem block?_loop (hb : τ.around.length = p.block) {x : String} (hx : x ∈ names) :
    ((τ.push names).push []).block? x = some (p.block + 1) := by
  rw [Scopes.block?_push_nil, Scopes.block?_of_mem hx, Scopes.push_around, Scopes.blocks_length, hb]

variable (h : p.Sees τ) (hb : τ.around.length = p.block) (x y : Attribute)
include h hb

/-- In the body of a loop over an array, the element and its place are visible. The loop opens two
    blocks, one for its variables and one for its body. Nothing is declared in the second by
    then. -/
theorem Sees.element (hr : p.site.Rooted) : (p.element x y).Stands
    ((τ.push [loopIndex p.site.depth, loopValue p.site.depth]).push []) := by
  have hloop : ∀ n ∈ [loopIndex p.site.depth, loopValue p.site.depth],
      n ∈ loopVariables p.site.depth := by
    simp
  constructor
  case rooted => exact hr.element x y
  case once =>
    exact (h.once.push (by simp [(loopDistinct p.site.depth).index])).push List.nodup_nil
  case block => simp [Footing.element, hb]
  case value =>
    intro n hn
    obtain rfl : n = loopValue p.site.depth := by
      simpa [Footing.element, Site.element, Expr.vars] using hn
    rw [block?_loop hb (by simp), element_level, if_pos (hloop _ (by simp))]
  -- The place is one element of the array that is being filled: the array was declared around the
  -- loop, and the index by it.
  case place =>
    intro n hn _
    rw [Footing.element, Site.element, Expr.vars, Expr.vars, List.mem_append,
      List.mem_singleton] at hn
    rcases hn with hn | rfl
    · have hnot := hr.not_mem_loopVariables hn (Nat.le_refl _)
      rw [Scopes.block?_push_nil, Scopes.block?_push fun hm => hnot (hloop n hm), element_level,
        if_neg hnot]
      exact h.vars n (List.mem_append_right _ hn)
    · rw [block?_loop hb (by simp), element_level, if_pos (hloop _ (by simp))]
  case fresh => simp [Footing.element, Site.element, Site.introduces]

/-- The key of a map stands at the beginning of the body. The variable for the new key is declared
    by the code of the key, so it is not there yet. -/
theorem Sees.key : (p.key x y).Stands
    ((τ.push [loopKey p.site.depth, loopValue p.site.depth]).push []) := by
  have hne := loopDistinct p.site.depth
  constructor
  case rooted =>
    exact .ofLoop rfl rfl rfl (by simp) (by simp) hne.newKey.1
  case once => exact (h.once.push (by simp [hne.key])).push List.nodup_nil
  case block => simp [Footing.key, hb]
  case value =>
    intro n hn
    obtain rfl : n = loopKey p.site.depth := by simpa [Footing.key, Site.key, Expr.vars] using hn
    rw [block?_loop hb (by simp), key_level, if_neg hne.newKey.1.symm]
  case place =>
    intro n hn hi
    exact absurd (by simpa [Footing.key, Site.key, Site.introduces] using hn) hi
  case fresh =>
    intro n hn
    obtain rfl : n = loopNewKey p.site.depth := by
      simpa [Footing.key, Site.key, Site.introduces, Expr.vars] using hn
    exact ⟨List.not_mem_nil, if_pos rfl⟩

omit h in
/-- The element of a map stands behind what the key declares. Those declarations are in the same
    block, so they must not be of the variables that the element needs. -/
theorem entry_stands {names : List String}
    (ho : (((τ.push [loopKey p.site.depth, loopValue p.site.depth]).push []).add names).Once)
    (hv : loopValue p.site.depth ∉ names) (hn : loopNewValue p.site.depth ∉ names) :
    (p.entry x y).Stands
      (((τ.push [loopKey p.site.depth, loopValue p.site.depth]).push []).add names) := by
  have hne := loopDistinct p.site.depth
  constructor
  case rooted =>
    exact .ofLoop rfl rfl rfl (by simp) (by simp) hne.newValue.2.1
  case once => exact ho
  case block => simp [Footing.entry, hb]
  case value =>
    intro n hn
    obtain rfl : n = loopValue p.site.depth := by
      simpa [Footing.entry, Site.entry, Expr.vars] using hn
    rw [Scopes.block?_add hv, block?_loop hb (by simp), entry_level, if_neg hne.newValue.2.1.symm]
  case place =>
    intro n hn hi
    exact absurd (by simpa [Footing.entry, Site.entry, Site.introduces] using hn) hi
  case fresh =>
    intro n hn'
    obtain rfl : n = loopNewValue p.site.depth := by
      simpa [Footing.entry, Site.entry, Site.introduces, Expr.vars] using hn'
    exact ⟨by simpa using hn, if_pos rfl⟩

/-- In a case of a switch, the value that the switch binds is visible, and so is the place. The
    switch binds its variable in a block around each case, and the place is found outside of it. -/
theorem Sees.alternative (hr : p.site.Rooted) :
    (p.alternative x y).Stands (τ.push ["actual"]) := by
  constructor
  case rooted => exact hr.alternative x y
  case once => exact h.once.push (by simp)
  case block => simp [Footing.alternative, hb]
  case value =>
    intro n hn
    obtain rfl : n = "actual" := by
      simpa [Footing.alternative, Site.alternative, Expr.vars] using hn
    rw [Scopes.block?_of_mem (by simp), alternative_level, if_pos rfl, Scopes.push_around,
      Scopes.blocks_length, hb]
  case place =>
    intro n hn _
    have hne := hr.ne_actual hn
    rw [Scopes.block?_push (by simpa using hne), alternative_level, if_neg hne]
    exact h.vars n (List.mem_append_right _ hn)
  case fresh => simp [Footing.alternative, Site.alternative, Site.introduces]

theorem Sees.wrapped : (p.wrapped x y).Stands (τ.push ["actual"]) := by
  constructor
  case rooted => exact .wrapped p.site x y
  case once => exact h.once.push (by simp)
  case block => simp [Footing.wrapped, hb]
  case value =>
    intro n hn
    obtain rfl : n = "actual" := by
      simpa [Footing.wrapped, Site.wrapped, Site.alternative, Expr.vars] using hn
    rw [Scopes.block?_of_mem (by simp), Scopes.push_around, Scopes.blocks_length, hb]
    rfl
  case place =>
    intro n hn hi
    exact absurd (by simpa [Footing.wrapped, Site.wrapped, Site.introduces] using hn) hi
  case fresh =>
    intro n hn
    obtain rfl : n = "conv" := by
      simpa [Footing.wrapped, Site.wrapped, Site.introduces, Expr.vars] using hn
    exact ⟨by simp, rfl⟩

end Below

/-! ## The last statements of a loop over a map and of a wrapped alternative -/

section Last

variable {τ : Scopes} (h : p.Sees τ) (hr : p.site.Rooted)
include h hr

/-- The pair is stored where it should be, as neither the variables of the loop nor what key and
    element declare hide the map. -/
theorem Sees.pair {loop key entry : List String}
    (ho : ((((τ.push loop).push []).add key).add entry).Once)
    (hloop : ∀ n ∈ loop, n ∉ p.site.place.vars) (hkey : ∀ n ∈ key, n ∉ p.site.place.vars)
    (hentry : ∀ n ∈ entry, n ∉ p.site.place.vars) (hk : loopNewKey p.site.depth ∈ key)
    (hv : loopNewValue p.site.depth ∈ entry) :
    p.Resolves ⟨(((τ.push loop).push []).add key).add entry,
      .set (p.site.place.index (.ident (loopNewKey p.site.depth)))
        (.ident (loopNewValue p.site.depth))⟩ where
  once := by
    rw [Stmt.set_declares, Scopes.add_nil]
    exact ho
  vars n hn := by
    rw [Stmt.set_vars, Expr.vars, Expr.vars, Expr.vars, List.append_assoc, List.mem_append,
      List.mem_append, List.mem_singleton, List.mem_singleton] at hn
    -- The map itself is looked for outside all the blocks that the loop opens. Its key and element
    -- are found in the innermost.
    rcases hn with hn | hn
    · have hsite : n ∈ p.site.vars := List.mem_append_right _ hn
      rw [if_pos hsite, Scopes.block?_add fun hm => hentry n hm hn,
        Scopes.block?_add fun hm => hkey n hm hn, Scopes.block?_push_nil,
        Scopes.block?_push fun hm => hloop n hm hn]
      exact h.vars n hsite
    · rw [if_neg (hr.new_not_mem_vars hn), Scopes.block?_of_mem]
      rw [Scopes.add_here, Scopes.add_here, Scopes.push_here]
      rcases hn with rfl | rfl
      · exact List.mem_append_left _ (List.mem_append_right _ hk)
      · exact List.mem_append_right _ hv

/-- The wrapper is stored where it should be, as nothing that the code for its content declares
    hides that. -/
theorem Sees.wrap {names : List String} (ho : ((τ.push ["actual"]).add names).Once)
    (hn : ∀ n ∈ names, n ∉ p.site.place.vars) (hc : "conv" ∈ names) (type : TypeRef) :
    p.Resolves ⟨(τ.push ["actual"]).add names,
      .set p.site.place (.convert type (.ident "conv"))⟩ where
  once := by
    rw [Stmt.set_declares, Scopes.add_nil]
    exact ho
  vars n hm := by
    rw [Stmt.set_vars, Expr.vars, Expr.vars, List.mem_append, List.mem_singleton] at hm
    rcases hm with hm | rfl
    · have hsite : n ∈ p.site.vars := List.mem_append_right _ hm
      rw [if_pos hsite, Scopes.block?_add fun h => hn n h hm,
        Scopes.block?_push (by simpa using hr.ne_actual hm)]
      exact h.vars n hsite
    · rw [if_neg, Scopes.block?_of_mem (List.mem_append_right _ hc)]
      intro h
      rcases List.mem_append.mp h with h | h
      · exact hr.conv_not_mem_value h
      · exact hn "conv" hc h

end Last

end Footing
end Shapewright
