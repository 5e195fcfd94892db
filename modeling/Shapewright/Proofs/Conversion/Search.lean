import Shapewright.Proofs.Conversion.Placement

/-!
# What the search for helpers finds

The search meets every helper once and leaves nothing out: below every pair it has gone through,
each nested pair either calls a helper whose name was met, or was gone through itself. Names alone
decide what was met, so where two different pairs share a name, only the first is gone through.

## Notes of what was met

The search can make anything of a helper it meets: its function, or a mere test that one can be
built. `collect_factors` reduces it to the search that makes nothing but a note of the name and the
position, and all else is proved of that one. What is made of a helper cannot stop the search from
going on below it, unless it fails.

## The invariant

A search is given the names met so far and hands on those met by its end, so the invariant is a
relation between the two (`Finds`) and not a property of the result. It says what was added, in
which order, and that below each addition everything is taken care of by the names at the end.

It has to be the names at the end: when a helper is met that calls itself, its name is met, but what
is below it is still being gone through. `Handled` therefore asks only that the name is met, and
`Expanded` for the pairs themselves becomes true when the search comes back. Both grow with the
names (`Handled.mono`), which is what lets one part of a search follow another (`Finds.append`).
-/

namespace Shapewright

/-- What is converted at the position. -/
def HelperSite.pair (x : HelperSite) : Pair := (x.source, x.target)

namespace Conversion

open Relation

variable {c : Conversion} {p q root : Pair} {met met' met'' : List String} {α : Type}

/-- A helper that was met, and the position at which it was. -/
abbrev Finding := String × HelperSite

/-- Makes a note of the name and the position of a helper. -/
def note (name : String) (x : HelperSite) : Walk Finding := pure (name, x)

/-! ## The invariant -/

/-- A nested pair is taken care of: it calls a helper that was met, or is gone through itself. Being
    an inductive type, it says that going through in place came to an end. -/
inductive Handled (c : Conversion) (met : List String) : Pair → Prop where
  | helper {q : Pair} {name : String} (hd : c.Delegates q name) (hm : name ∈ met) : Handled c met q
  | inPlace {q : Pair} (hf : (c.callsHelper q.1 q.2).Yields false)
      (hr : ∃ inner, (c.reconcile q.1 q.2).Yields inner)
      (hn : ∀ r, c.Nested q r → Handled c met r) : Handled c met q

/-- All that is nested in the pair is taken care of. This is what is known of every helper once the
    search is over. -/
structure Expanded (c : Conversion) (met : List String) (p : Pair) : Prop where
  reconciled : ∃ inner, (c.reconcile p.1 p.2).Yields inner
  nested : ∀ r, c.Nested p r → c.Handled met r

theorem Handled.mono (h : c.Handled met q) (hsub : met ⊆ met') : c.Handled met' q := by
  induction h with
  | helper hd hm => exact .helper hd (hsub hm)
  | inPlace hf hr _ ih => exact .inPlace hf hr ih

theorem Expanded.mono (h : c.Expanded met p) (hsub : met ⊆ met') : c.Expanded met' p :=
  ⟨h.reconciled, fun r hr => (h.nested r hr).mono hsub⟩

/-- What a part of a search below `root` does, from the names `met` on. It is stated for a part so
    that two parts can be put together; a whole search is the part that begins at the root. -/
structure Finds (c : Conversion) (root : Pair) (met : List String) (found : List Finding)
    (met' : List String) : Prop where
  /-- The names are added in the order in which they are met. -/
  met_eq : met' = (found.map Prod.fst).reverse ++ met
  nodup : (found.map Prod.fst).Nodup
  fresh : ∀ x ∈ found, x.1 ∉ met
  reached : ∀ x ∈ found, c.Reaches root x.2.pair
  delegates : ∀ x ∈ found, c.Delegates x.2.pair x.1
  expanded : ∀ x ∈ found, c.Expanded met' x.2.pair

namespace Finds

theorem mem_iff {found : List Finding} (h : c.Finds root met found met') {name : String} :
    name ∈ met' ↔ name ∈ found.map Prod.fst ∨ name ∈ met := by
  rw [h.met_eq, List.mem_append, List.mem_reverse]

theorem subset {found : List Finding} (h : c.Finds root met found met') : met ⊆ met' :=
  fun _ hn => h.mem_iff.mpr (Or.inr hn)

theorem nil (c : Conversion) (root : Pair) (met : List String) : c.Finds root met [] met where
  met_eq := rfl
  nodup := List.nodup_nil
  fresh _ hx := absurd hx List.not_mem_nil
  reached _ hx := absurd hx List.not_mem_nil
  delegates _ hx := absurd hx List.not_mem_nil
  expanded _ hx := absurd hx List.not_mem_nil

/-- One part of a search after another. What the first part left to names met on the way is still
    taken care of after the second. -/
theorem append {found found' : List Finding} (h : c.Finds root met found met')
    (h' : c.Finds root met' found' met'') : c.Finds root met (found ++ found') met'' where
  met_eq := by
    rw [h'.met_eq, h.met_eq, List.map_append, List.reverse_append, List.append_assoc]
  nodup := by
    rw [List.map_append, List.nodup_append]
    refine ⟨h.nodup, h'.nodup, fun n hn n' hn' => ?_⟩
    rintro rfl
    -- A name of the first part was met before the second, where all names are fresh.
    obtain ⟨x, hx, rfl⟩ := List.mem_map.mp hn'
    exact h'.fresh x hx (h.mem_iff.mpr (Or.inl hn))
  fresh x hx := by
    rcases List.mem_append.mp hx with hx | hx
    · exact h.fresh x hx
    · exact fun hn => h'.fresh x hx (h.subset hn)
  reached x hx := (List.mem_append.mp hx).elim (h.reached x) (h'.reached x)
  delegates x hx := (List.mem_append.mp hx).elim (h.delegates x) (h'.delegates x)
  expanded x hx := by
    rcases List.mem_append.mp hx with hx | hx
    · exact (h.expanded x hx).mono h'.subset
    · exact h'.expanded x hx

/-- A new helper before what is found below it. Its name counts as met while its members are gone
    through. -/
theorem cons {found : List Finding} {x : HelperSite} {name : String} (hnew : name ∉ met)
    (hr : c.Reaches root x.pair) (hd : c.Delegates x.pair name)
    (h : c.Finds root (name :: met) found met') (he : c.Expanded met' x.pair) :
    c.Finds root met ((name, x) :: found) met' where
  met_eq := by
    rw [h.met_eq, List.map_cons, List.reverse_cons, List.append_assoc, List.singleton_append]
  nodup := by
    rw [List.map_cons, List.nodup_cons]
    refine ⟨fun hn => ?_, h.nodup⟩
    obtain ⟨y, hy, hname⟩ := List.mem_map.mp hn
    exact h.fresh y hy (hname ▸ List.mem_cons_self)
  fresh := List.forall_mem_cons.mpr
    ⟨hnew, fun y hy hm => h.fresh y hy (List.mem_cons_of_mem _ hm)⟩
  reached := List.forall_mem_cons.mpr ⟨hr, h.reached⟩
  delegates := List.forall_mem_cons.mpr ⟨hd, h.delegates⟩
  expanded := List.forall_mem_cons.mpr ⟨he, h.expanded⟩

end Finds

/-! ## The search keeps the invariant -/

section

variable {collect : HelperSite → HelperWalk (List Finding)}

/-- Every run of `collect` below `root` keeps the invariant and takes care of its pair. The root is
    only there to say where findings come from. -/
def Keeps (c : Conversion) (root : Pair) (collect : HelperSite → HelperWalk (List Finding)) :
    Prop :=
  ∀ x met found met', c.Reaches root x.pair → (collect x).Yields met found met' →
    c.Finds root met found met' ∧ c.Handled met' x.pair

theorem collectAll_finds (hk : c.Keeps root collect) : ∀ {sites : List HelperSite}
    {met : List String} {found : List Finding}, (∀ x ∈ sites, c.Reaches root x.pair) →
    (collectAll collect sites).Yields met found met' →
      c.Finds root met found met' ∧ ∀ x ∈ sites, c.Handled met' x.pair := by
  intro sites
  induction sites with
  | nil =>
    intro met found _ h
    rw [collectAll, HelperWalk.yields_pure] at h
    obtain ⟨rfl, rfl⟩ := h
    exact ⟨.nil c root met, fun x hx => absurd hx List.not_mem_nil⟩
  | cons x rest ih =>
    intro met found hr h
    rw [List.forall_mem_cons] at hr
    rw [collectAll] at h
    simp only [HelperWalk.yields_bind, HelperWalk.yields_pure] at h
    obtain ⟨first, met₁, hfirst, others, met₂, hothers, rfl, rfl⟩ := h
    -- What was met for one position stays met for the rest, so its pairs are still dealt with at
    -- the end.
    obtain ⟨hf, hx⟩ := hk x met first met₁ hr.1 hfirst
    obtain ⟨ho, hrest⟩ := ih hr.2 hothers
    exact ⟨hf.append ho, List.forall_mem_cons.mpr ⟨hx.mono ho.subset, hrest⟩⟩

/-- To go through all members of a pair is to expand it, since they are all that is nested in it.
    The members are gone through in order, each with the names that the ones before it have left. -/
theorem collectMembers_finds (hk : c.Keeps root collect) {found : List Finding}
    (hp : c.Reaches root p) (h : (c.collectMembers collect p.1 p.2).Yields met found met') :
    c.Finds root met found met' ∧ c.Expanded met' p := by
  unfold collectMembers at h
  simp only [HelperWalk.yields_bind, HelperWalk.yields_liftM,
    HelperWalk.yields_liftExcept] at h
  obtain ⟨inner, _, ⟨hinner, rfl⟩, sites, _, ⟨hsites, rfl⟩, h⟩ := h
  have hmember : ∀ x ∈ sites, c.Member inner x := fun x hx => member_of_mem_members hsites hx
  have hreached : ∀ x ∈ sites, c.Reaches root x.pair := fun x hx =>
    hp.tail ⟨inner, x.required, hinner, hmember x hx⟩
  obtain ⟨hf, hhandled⟩ := collectAll_finds hk hreached h
  refine ⟨hf, ⟨inner, hinner⟩, ?_⟩
  rintro r ⟨inner', required, hinner', hr⟩
  -- Opening a box is a function, so the members in the relation are those the search went through.
  obtain rfl := hinner'.unique hinner
  obtain ⟨sites', hsites', hr⟩ := hr.mem_members
  rw [hsites] at hsites'
  cases hsites'
  exact hhandled _ hr

end

/-- However many levels the search is granted, what it yields keeps the invariant. How many it needs
    is another matter, and left to those who show that it ends. -/
theorem collectWithin_keeps (c : Conversion) (root : Pair) :
    ∀ levels, c.Keeps root (c.collectWithin note levels) := by
  intro levels
  -- By induction on the levels; a search that yields something has not used them up.
  induction levels with
  | zero =>
    intro x met found met' _ h
    rw [collectWithin, HelperWalk.yields_ofWalk] at h
    exact absurd h.1 Walk.yields_exhausted
  | succ levels ih =>
    intro x met found met' hr h
    rw [collectWithin] at h
    simp only [HelperWalk.yields_bind, HelperWalk.yields_liftM] at h
    obtain ⟨calls, _, ⟨hcalls, rfl⟩, h⟩ := h
    cases calls with
    | true =>
      simp only [↓reduceIte, HelperWalk.yields_bind, HelperWalk.yields_liftExcept,
        HelperWalk.yields_meet] at h
      obtain ⟨name, _, ⟨hname, rfl⟩, isNew, _, ⟨hm, rfl, rfl⟩ | ⟨hm, rfl, rfl⟩, h⟩ := h
      · -- The helper was met before.
        obtain ⟨rfl, rfl⟩ := HelperWalk.yields_pure.mp h
        exact ⟨.nil c root _, .helper ⟨hcalls, hname⟩ hm⟩
      · simp only [↓reduceIte, HelperWalk.yields_bind, HelperWalk.yields_liftM,
          HelperWalk.yields_pure] at h
        obtain ⟨made, _, ⟨hmade, rfl⟩, below, met₁, hbelow, rfl, rfl⟩ := h
        obtain rfl : (name, x) = made := Walk.yields_pure.mp hmade
        obtain ⟨hf, he⟩ := collectMembers_finds ih hr hbelow
        -- The name is met before what is below it, so a circle back to it is taken care of.
        refine ⟨.cons hm hr ⟨hcalls, hname⟩ hf he, .helper ⟨hcalls, hname⟩ ?_⟩
        exact hf.subset List.mem_cons_self
    | false =>
      obtain ⟨hf, he⟩ := collectMembers_finds ih hr h
      exact ⟨hf, .inPlace hcalls he.reconciled he.nested⟩

/-- The search keeps the invariant and goes through the pair it starts from. The pair itself is no
    finding: the request for it is written out, not called. -/
theorem collect_finds {found : List Finding}
    (h : (c.collect note p.1 p.2).Yields met found met') :
    c.Finds p met found met' ∧ c.Expanded met' p :=
  collectMembers_finds (collectWithin_keeps c p _) .refl h

/-! ## What is made of the findings -/

/-- What was made is what `make` yields for the findings, in order. This keeps apart what is found,
    which is a matter of types, and what is built for it. -/
def MadeOf (make : String → HelperSite → Walk α) (found : List Finding) (made : List α) : Prop :=
  List.Forall₂ (fun f a => (make f.1 f.2).Yields a) found made

/-- The search `collect` goes the way of `collect'`, and makes something of what that finds. The
    names met are the same for both. -/
def Factors (make : String → HelperSite → Walk α) (collect : HelperSite → HelperWalk (List α))
    (collect' : HelperSite → HelperWalk (List Finding)) : Prop :=
  ∀ x met made met', (collect x).Yields met made met' →
    ∃ found, (collect' x).Yields met found met' ∧ MadeOf make found made

section

variable {make : String → HelperSite → Walk α} {collect : HelperSite → HelperWalk (List α)}
  {collect' : HelperSite → HelperWalk (List Finding)}

theorem collectAll_factors (hf : Factors make collect collect') : ∀ {sites : List HelperSite}
    {met : List String} {made : List α}, (collectAll collect sites).Yields met made met' →
      ∃ found, (collectAll collect' sites).Yields met found met' ∧ MadeOf make found made := by
  intro sites
  induction sites with
  | nil =>
    intro met made h
    rw [collectAll, HelperWalk.yields_pure] at h
    obtain ⟨rfl, rfl⟩ := h
    exact ⟨[], HelperWalk.yields_pure.mpr ⟨rfl, rfl⟩, .nil⟩
  | cons x rest ih =>
    intro met made h
    rw [collectAll] at h
    simp only [HelperWalk.yields_bind, HelperWalk.yields_pure] at h
    obtain ⟨first, met₁, hfirst, others, met₂, hothers, rfl, rfl⟩ := h
    obtain ⟨found, hfound, hmade⟩ := hf x met first met₁ hfirst
    obtain ⟨found', hfound', hmade'⟩ := ih hothers
    refine ⟨found ++ found', ?_, List.rel_append hmade hmade'⟩
    rw [collectAll]
    simp only [HelperWalk.yields_bind, HelperWalk.yields_pure]
    exact ⟨found, met₁, hfound, found', _, hfound', rfl, rfl⟩

theorem collectMembers_factors (hf : Factors make collect collect') {made : List α}
    (h : (c.collectMembers collect p.1 p.2).Yields met made met') :
    ∃ found, (c.collectMembers collect' p.1 p.2).Yields met found met' ∧
      MadeOf make found made := by
  unfold collectMembers at h
  simp only [HelperWalk.yields_bind, HelperWalk.yields_liftM, HelperWalk.yields_liftExcept] at h
  obtain ⟨inner, _, ⟨hinner, rfl⟩, sites, _, ⟨hsites, rfl⟩, h⟩ := h
  obtain ⟨found, hfound, hmade⟩ := collectAll_factors hf h
  refine ⟨found, ?_, hmade⟩
  unfold collectMembers
  simp only [HelperWalk.yields_bind, HelperWalk.yields_liftM, HelperWalk.yields_liftExcept]
  exact ⟨inner, _, ⟨hinner, rfl⟩, sites, _, ⟨hsites, rfl⟩, hfound⟩

theorem collectWithin_factors (c : Conversion) (make : String → HelperSite → Walk α) :
    ∀ levels, Factors make (c.collectWithin make levels) (c.collectWithin note levels) := by
  intro levels
  induction levels with
  | zero =>
    intro x met made met' h
    rw [collectWithin, HelperWalk.yields_ofWalk] at h
    exact absurd h.1 Walk.yields_exhausted
  | succ levels ih =>
    intro x met made met' h
    rw [collectWithin] at h ⊢
    simp only [HelperWalk.yields_bind, HelperWalk.yields_liftM] at h ⊢
    obtain ⟨calls, _, ⟨hcalls, rfl⟩, h⟩ := h
    cases calls with
    | true =>
      simp only [↓reduceIte, HelperWalk.yields_bind, HelperWalk.yields_liftExcept] at h
      obtain ⟨name, _, ⟨hname, rfl⟩, isNew, met₁, hmeet, h⟩ := h
      -- Whether the helper is new does not depend on what is made of it.
      suffices hgo : ∃ found, MadeOf make found made ∧
          HelperWalk.Yields (if isNew = true then do
            let made ← (note name x : Walk Finding)
            return made :: (← c.collectMembers (c.collectWithin note levels) x.source x.target)
          else return []) met₁ found met' by
        obtain ⟨found, hmade, hfound⟩ := hgo
        refine ⟨found, ⟨true, met, ⟨hcalls, rfl⟩, ?_⟩, hmade⟩
        simp only [↓reduceIte, HelperWalk.yields_bind, HelperWalk.yields_liftExcept]
        exact ⟨name, met, ⟨hname, rfl⟩, isNew, met₁, hmeet, hfound⟩
      cases isNew with
      | true =>
        simp only [↓reduceIte, HelperWalk.yields_bind, HelperWalk.yields_liftM,
          HelperWalk.yields_pure] at h ⊢
        obtain ⟨first, _, ⟨hfirst, rfl⟩, below, met₂, hbelow, rfl, rfl⟩ := h
        obtain ⟨found, hfound, hmade⟩ := collectMembers_factors (p := x.pair) ih hbelow
        exact ⟨(name, x) :: found, .cons hfirst hmade, (name, x), _,
          ⟨Walk.yields_pure.mpr rfl, rfl⟩, found, _, hfound, rfl, rfl⟩
      | false =>
        obtain ⟨rfl, rfl⟩ := HelperWalk.yields_pure.mp h
        exact ⟨[], .nil, HelperWalk.yields_pure.mpr ⟨rfl, rfl⟩⟩
    | false =>
      obtain ⟨found, hfound, hmade⟩ := collectMembers_factors (p := x.pair) ih h
      exact ⟨found, ⟨false, _, ⟨hcalls, rfl⟩, hfound⟩, hmade⟩

/-- The search makes something of the findings, whatever it makes. So every fact about the names a
    search meets is a fact about all of them. -/
theorem collect_factors {made : List α} (h : (c.collect make p.1 p.2).Yields met made met') :
    ∃ found, (c.collect note p.1 p.2).Yields met found met' ∧ MadeOf make found made :=
  collectMembers_factors (collectWithin_factors c make _) h

end

end Conversion
end Shapewright
