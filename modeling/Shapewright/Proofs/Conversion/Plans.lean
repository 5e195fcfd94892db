import Shapewright.Conversion.Plan
import Shapewright.Proofs.Conversion.Collections

/-!
# Plans are put back

What is changed in a plan on the way into a nested position is put back on the way out, whatever
became of the code there. Code in place therefore leaves the plan as it was, and is the code that
`Conversion.inline` builds for the site where the plan says that it is. Only the search for helpers
leaves something behind: the names that it has met.

## Two versions of one algorithm

The program goes through attributes with a plan that it changes: it counts the loops around it and
marks that it is inside of a box. Everything that is proved of code elsewhere is about functions
that take these two with each site and change nothing. This module shows that both build the same
code and end with the same faults, so that statements about the one are statements about the other.

## The relation

`PlanWalk.Reads` says that a walk along a plan does what a walk without one does, and gives the plan
back. It goes over to compositions, and to each of the three ways of changing the plan for the time
of a walk; these are the only lemmas that look into the runs of walks. The rest follows the emitters
line by line. For the search for helpers the same is said with the names that were met in between
(`PlanWalk.Tracks`).

That the plan is put back also where there is a fault is part of the relation: a run that ends with
a fault has a plan behind it, too.
-/

namespace Shapewright

variable {α β : Type} {scope : Scope} {p : Plan} {c : Conversion} {s : Site}

namespace PlanWalk

/-! ## Runs -/

/-- A walk goes on where it came to, and stops at the first fault with the plan at that point. The
    plan is kept when a fault is raised, which is what lets one say that depth and flag are restored
    in this case too. -/
theorem run_bind (w : PlanWalk α) (f : α → PlanWalk β) (p : Plan) :
    (w >>= f).run.run p = match w.run.run p with
      | none => none
      | some (.error why, q) => some (.error why, q)
      | some (.ok a, q) => (f a).run.run q := by
  rw [ExceptT.run_bind, StateT.run_bind]
  cases w.run.run p with
  | none => rfl
  | some o =>
    obtain ⟨o, q⟩ := o
    cases o <;> rfl

/-- To look at the plan changes nothing. -/
theorem run_get (p : Plan) : (get : PlanWalk Plan).run.run p = some (.ok p, p) := rfl

theorem run_modify (f : Plan → Plan) (p : Plan) :
    (modify f : PlanWalk Unit).run.run p = some (.ok (), f p) := rfl

/-- To ask for the outcome of a walk turns a fault into a result, and keeps what became of the
    plan. -/
theorem run_outcome (w : PlanWalk α) (p : Plan) :
    w.outcome.run.run p = (w.run.run p).map fun o => (.ok o.1, o.2) := by
  unfold outcome
  rw [ExceptT.run_mk, StateT.run_map]
  rfl

/-- Whatever becomes of the walk, the mark of a box is afterwards what it was before. -/
theorem run_boxed (b : Bool) (w : PlanWalk α) (p : Plan) : (boxed b w).run.run p =
    (w.run.run { p with inBox := b }).map fun o => (o.1, { o.2 with inBox := p.inBox }) := by
  unfold boxed
  simp only [run_bind, run_get, run_modify, run_outcome]
  cases w.run.run { p with inBox := b } <;> rfl

/-- The number of loops is counted down again by one. -/
theorem run_looped (w : PlanWalk α) (p : Plan) : (looped w).run.run p =
    (w.run.run { p with depth := p.depth + 1 }).map
      fun o => (o.1, { o.2 with depth := o.2.depth - 1 }) := by
  unfold looped
  simp only [run_bind, run_modify, run_outcome]
  cases w.run.run { p with depth := p.depth + 1 } <;> rfl

theorem run_unlooped (w : PlanWalk α) (p : Plan) : (unlooped w).run.run p =
    (w.run.run { p with depth := 0 }).map fun o => (o.1, { o.2 with depth := p.depth }) := by
  unfold unlooped
  simp only [run_bind, run_get, run_modify, run_outcome]
  cases w.run.run { p with depth := 0 } <;> rfl

/-- The walk does what `u` does, and leaves the plan as it was. So a walk along a plan may change
    the plan on its way, but has to put back what it changes. -/
def Reads (p : Plan) (w : PlanWalk α) (u : Walk α) : Prop := w.run.run p = u.run.map fun o => (o, p)

namespace Reads

variable {w : PlanWalk α} {u : Walk α}

protected theorem pure (a : α) : Reads p (pure a) (pure a) := rfl

protected theorem throw (f : Fault) : Reads p (throw f : PlanWalk α) (throw f) := rfl

theorem ofWalk (u : Walk α) : Reads p (liftM u : PlanWalk α) u := by
  unfold Reads
  cases h : u.run <;> simp [liftM, monadLift, MonadLift.monadLift, PlanWalk.ofWalk, h]

theorem ofExcept (e : Except Fault α) : Reads p (liftM e : PlanWalk α) (liftM e) := by
  unfold Reads
  cases e <;> rfl

/-- What follows has to agree only for results that there can be. For any other result the two
    continuations may be as different as they like. The emitters need this where a result fixes what
    the plan is. -/
theorem bind_of_yields {f : α → PlanWalk β} {g : α → Walk β} (hw : Reads p w u)
    (hf : ∀ a, u.Yields a → Reads p (f a) (g a)) : Reads p (w >>= f) (u >>= g) := by
  unfold Reads at hw ⊢
  rw [Walk.run_bind, run_bind, hw]
  cases h : u.run with
  | none => rfl
  | some o =>
    cases o with
    | error why => rfl
    | ok a => exact hf a h

protected theorem bind {f : α → PlanWalk β} {g : α → Walk β} (hw : Reads p w u)
    (hf : ∀ a, Reads p (f a) (g a)) : Reads p (w >>= f) (u >>= g) :=
  hw.bind_of_yields fun a _ => hf a

/-- Two walks one after the other, where the plan has both in one part. It is a matter of the order
    of the two walks, as either of them can be the one that fails. -/
theorem bind_pair {γ : Type} {v : Walk β} {w : PlanWalk (α × β)} {f : α × β → PlanWalk γ}
    {g : α → β → Walk γ}
    (hw : Reads p w (do
      let a ← u
      let b ← v
      pure (a, b)))
    (hf : ∀ a b, Reads p (f (a, b)) (g a b)) :
    Reads p (w >>= f) (do
      let a ← u
      let b ← v
      g a b) := by
  have h := hw.bind fun x => hf x.1 x.2
  simpa only [bind_assoc, pure_bind] using h

protected theorem get {f : Plan → PlanWalk α} (h : Reads p (f p) u) :
    Reads p (MonadState.get >>= f) u := h

theorem current {f : Conversion → PlanWalk α} (hc : p.conversion scope = c)
    (h : Reads p (f c) u) : Reads p (Plan.current scope >>= f) u := by
  subst hc
  exact h

theorem boxed {b : Bool} (h : Reads { p with inBox := b } w u) :
    Reads p (PlanWalk.boxed b w) u := by
  unfold Reads at h ⊢
  rw [run_boxed, h]
  cases u.run <;> rfl

theorem looped (h : Reads { p with depth := p.depth + 1 } w u) :
    Reads p (PlanWalk.looped w) u := by
  unfold Reads at h ⊢
  rw [run_looped, h]
  cases u.run <;> rfl

theorem unlooped (h : Reads { p with depth := 0 } w u) : Reads p (PlanWalk.unlooped w) u := by
  unfold Reads at h ⊢
  rw [run_unlooped, h]
  cases u.run <;> rfl

end Reads
end PlanWalk

namespace Plan

open PlanWalk (Reads)

variable {emit : PlanEmit} {e : Emit} {b : Bool}

/-- The emitter builds what `e` builds for the site where a plan for `c` says that it is, and leaves
    every such plan as it was. -/
def Emits (scope : Scope) (c : Conversion) (emit : PlanEmit) (e : Emit) : Prop :=
  ∀ p s, p.conversion scope = c → Reads p (emit s) (e (s.under p))

/-! ## Code in place -/

/-- A site in a nested position, as deep as the plan says. Its box may be opened, whatever was
    opened around it. -/
structure Nested (p : Plan) (s : Site) : Prop where
  depth : s.depth = p.depth
  inBox : s.inBox = false

/-- Code in a nested position is the call of a helper, or is emitted outside of boxes. The mark for
    boxes is taken off for the position and put back behind it, so the two versions differ in how
    the mark is kept and not in what is done. -/
theorem reads_nested (hc : p.conversion scope = c) (hemit : Emits scope c emit e)
    (hs : Nested p s) : Reads p (nested scope emit s) (c.nested e s) := by
  have hsame : s.under { p with inBox := false } = s := by
    obtain ⟨hd, hb⟩ := hs
    cases s
    simp_all [Site.under]
  unfold nested Conversion.nested
  refine .current hc (.bind (.ofWalk _) fun calls => ?_)
  cases calls with
  | true => exact .bind (.ofExcept _) fun name => .pure _
  | false =>
    have h := hemit { p with inBox := false } s hc
    rw [hsame] at h
    exact .boxed h

/-- The code for an array is that for its elements, one loop deeper. The depth is raised in the plan
    for the time of the elements; without a plan it is one more in the site. -/
theorem reads_array (hc : p.conversion scope = c) (hemit : Emits scope c emit e) :
    Reads p (array scope emit s) (c.array e { s with depth := p.depth, inBox := b }) := by
  unfold array Conversion.array
  refine .current hc (.bind (.ofExcept _) fun source => .bind (.ofExcept _) fun target => ?_)
  cases source with
  | none => exact .throw _
  | some source =>
    cases target with
    | none => exact .throw _
    | some target =>
      refine .bind (.ofExcept _) fun type => .get ?_
      refine .bind (.looped (reads_nested hc hemit ⟨rfl, rfl⟩)) fun body => .pure _

/-- Keys and elements of a map are converted one after the other, in one loop. -/
theorem reads_entry {key elem : Site} (hc : p.conversion scope = c)
    (hemit : Emits scope c emit e) (hkey : Nested p key) (helem : Nested p elem) :
    Reads p (entry scope emit key elem) (do
      let keyCode ← c.nested e key
      let elemCode ← c.nested e elem
      pure (keyCode, elemCode)) :=
  .bind (reads_nested hc hemit hkey) fun _ => .bind (reads_nested hc hemit helem) fun _ => .pure _

/-- The code for a map is that for its keys and elements, one loop deeper. Keys come first and
    elements second, both at the same depth. -/
theorem reads_map (hc : p.conversion scope = c) (hemit : Emits scope c emit e) :
    Reads p (map scope emit s) (c.map e { s with depth := p.depth, inBox := b }) := by
  unfold map Conversion.map
  refine .current hc (.bind (.ofExcept _) fun source => .bind (.ofExcept _) fun target => ?_)
  cases source with
  | none => exact .throw _
  | some source =>
    cases target with
    | none => exact .throw _
    | some target =>
      refine .bind (.ofExcept _) fun keyType => .bind (.ofExcept _) fun elemType => .get ?_
      have hkey : Nested { p with depth := p.depth + 1 } ((s.under p).key source.1 target.1) :=
        ⟨rfl, rfl⟩
      have helem : Nested { p with depth := p.depth + 1 } ((s.under p).entry source.2 target.2) :=
        ⟨rfl, rfl⟩
      exact .bind_pair (.looped (reads_entry hc hemit hkey helem)) fun keyCode elemCode => .pure _

/-- The structured fields of an object are filled in one after the other. By recursion on the
    fields. Each finds the plan as the one before it found it. -/
theorem reads_laterFields (hc : p.conversion scope = c) (hemit : Emits scope c emit e) :
    ∀ fields, Reads p (laterFields scope emit fields) (c.laterFields e p.depth fields)
  | [] => .pure _
  | f :: rest => by
    unfold laterFields Conversion.laterFields
    refine .current hc (.bind ?_ fun code => .bind (.ofExcept _) fun default =>
      .bind (reads_laterFields hc hemit rest) fun more => .pure _)
    unfold laterValue Conversion.laterValue
    split
    · exact .pure _
    · unfold structuredField Conversion.structuredField
      refine .get (.bind (reads_nested hc hemit ⟨rfl, rfl⟩) fun code => ?_)
      split
      · exact .pure _
      · exact .pure _

/-- The code for an object begins with its primitive fields, which need no plan. For these the two
    versions are the same function, so only the second round over the fields has to be read
    along. -/
theorem reads_object (hc : p.conversion scope = c) (hemit : Emits scope c emit e) :
    Reads p (object scope emit s) (c.object e { s with depth := p.depth, inBox := b }) := by
  unfold object Conversion.object
  refine .current hc (.bind (.ofExcept _) fun source => ?_)
  cases source with
  | none => exact .throw _
  | some source =>
    refine .bind (.ofExcept _) fun target => ?_
    cases target with
    | none => exact .throw _
    | some target =>
      refine .bind (.ofWalk _) fun fields => .get ?_
      refine .bind (.ofExcept _) fun code => .bind (.ofExcept _) fun type => ?_
      exact .bind (reads_laterFields hc hemit fields) fun later => .pure _

/-- An alternative of a union is converted in place, or by the call of a helper. A named object is a
    nested position. The content of a wrapper has a variable of its own, and is emitted outside of
    boxes as well. -/
theorem reads_alternative (hc : p.conversion scope = c) (hemit : Emits scope c emit e)
    (target : UnionType) (index : Nat) (x y : Attribute) :
    Reads p (alternative scope emit s target index x y)
      (c.alternative e { s with depth := p.depth, inBox := b } target index x y) := by
  unfold alternative Conversion.alternative
  refine .current hc (.get (.bind (.ofExcept _) fun isNamed => ?_))
  cases isNamed with
  | true => exact reads_nested hc hemit ⟨rfl, rfl⟩
  | false =>
    refine .bind (.ofExcept _) fun wrapper => .bind (.ofExcept _) fun isPrimitive => ?_
    cases isPrimitive with
    | true => exact .bind (.ofWalk _) fun _ => .pure _
    | false => exact .bind (.boxed (hemit { p with inBox := false } _ hc)) fun code => .pure _

/-- The cases of a switch are built one after the other. The index counts along, as the name of a
    wrapper is that of its alternative. -/
theorem reads_cases (hc : p.conversion scope = c) (hemit : Emits scope c emit e)
    (source target : UnionType) : ∀ pairs index,
    Reads p (cases scope emit s source target index pairs)
      (c.cases e { s with depth := p.depth, inBox := b } source target index pairs)
  | [], _ => .pure _
  | (x, y) :: rest, index => by
    unfold cases Conversion.cases
    exact .current hc (.bind (.ofExcept _) fun type =>
      .bind (reads_alternative hc hemit target index x y) fun body =>
      .bind (reads_cases hc hemit source target rest (index + 1)) fun more => .pure _)

theorem reads_union (hc : p.conversion scope = c) (hemit : Emits scope c emit e) :
    Reads p (union scope emit s) (c.union e { s with depth := p.depth, inBox := b }) := by
  unfold union Conversion.union
  exact .current hc (.bind (.ofExcept _) fun unions => .bind (.ofWalk _) fun declared =>
    .bind (reads_cases hc hemit _ _ _ _) fun cases => .pure _)

/-- Each kind of attribute has its emitter. Primitives need no plan, and for each of the others
    there is a lemma above. -/
theorem reads_byKind (hc : p.conversion scope = c) (hemit : Emits scope c emit e) :
    Reads p (byKind scope emit s) (c.byKind e { s with depth := p.depth, inBox := b }) := by
  unfold byKind Conversion.byKind Conversion.ofKind
  refine .current hc (.bind (.ofExcept _) fun source => .bind (.ofExcept _) fun target => ?_)
  split
  · exact .pure _
  · cases source with
    | array => exact reads_array hc hemit
    | map => exact reads_map hc hemit
    | object => exact reads_object hc hemit
    | union => exact reads_union hc hemit
    | primitive p => exact .ofWalk _

/-- A box is opened where the site is. -/
theorem unboxed_surroundings {why : Fault} {box : Block} {inner : Site}
    (h : (c.unboxed s why).Yields (box, inner)) :
    inner = { inner with depth := s.depth, inBox := s.inBox } := by
  cases Conversion.unboxed_yields h with
  | target => rfl
  | source => rfl

/-- A level of the emitter opens the box that it has to, and sets the mark for what is inside. This
    is the only place where the mark is set, and it is put back as it was before the box was
    opened. -/
theorem emits_attrVia (hemit : Emits scope c emit e) :
    Emits scope c (attrVia scope emit) (c.attrVia e) := by
  intro p s hc
  unfold attrVia Conversion.attrVia
  refine .current hc (.get (.bind (.ofWalk _) fun o => ?_))
  cases o with
  | ok _ => exact .boxed (reads_byKind hc hemit)
  | error why =>
    dsimp only
    split
    · exact .throw _
    · refine .bind_of_yields (.ofWalk _) fun inner hinner => .bind (.ofWalk _) fun _ =>
        .bind (.boxed ?_) fun code => .pure _
      -- The mark of the box is set for what is inside, which does not look at that of the site.
      have hsame : inner.2 = { inner.2 with depth := p.depth, inBox := p.inBox } :=
        unboxed_surroundings hinner
      have h : Reads { p with inBox := true } (byKind scope emit inner.2)
          (c.byKind e { inner.2 with depth := p.depth, inBox := p.inBox }) :=
        reads_byKind hc hemit
      rwa [← hsame] at h

theorem emits_attrWithin (scope : Scope) (c : Conversion) :
    ∀ levels, Emits scope c (attrWithin scope levels) (c.attrWithin levels)
  | 0 => fun _ _ _ => .ofWalk _
  | levels + 1 => emits_attrVia (emits_attrWithin scope c levels)

theorem reads_inline (hc : p.conversion scope = c) :
    Reads p (inline scope s) (c.inline (s.under p)) := by
  subst hc
  exact emits_attrWithin scope _ _ p s rfl

end Plan

/-! ## Names that were met -/

namespace HelperWalk

/-- Names that were met stay met, whatever becomes of the walk. It is the only change of a plan that
    stays behind. -/
def Remembers (w : HelperWalk α) : Prop :=
  ∀ met o met', w.run.run met = some (o, met') → met ⊆ met'

namespace Remembers

protected theorem pure (a : α) : (pure a : HelperWalk α).Remembers := by
  intro met o met' h
  cases h
  exact List.Subset.refl _

theorem ofWalk (u : Walk α) : (liftM u : HelperWalk α).Remembers := by
  intro met o met' h
  have hrun : (liftM u : HelperWalk α).run.run met = u.run.map fun o => (o, met) := by
    cases hu : u.run <;>
      simp [liftM, monadLift, MonadLift.monadLift, HelperWalk.ofWalk, hu]
  rw [hrun] at h
  obtain ⟨_, -, h⟩ := Option.map_eq_some_iff.mp h
  cases h
  exact List.Subset.refl _

theorem ofExcept (e : Except Fault α) : (liftM e : HelperWalk α).Remembers := by
  intro met o met' h
  cases e <;> cases h <;> exact List.Subset.refl _

protected theorem bind {w : HelperWalk α} {f : α → HelperWalk β} (hw : w.Remembers)
    (hf : ∀ a, (f a).Remembers) : (w >>= f).Remembers := by
  intro met o met' h
  rw [run_bind] at h
  split at h
  · cases h
  · rename_i why met'' hrun
    cases h
    exact hw _ _ _ hrun
  · rename_i a met'' hrun
    exact List.Subset.trans (hw _ _ _ hrun) (hf a _ _ _ h)

/-- To meet a name adds at most that name. -/
theorem meet (name : String) : (meet name).Remembers := by
  intro met o met' h
  rw [run_meet] at h
  split at h <;> cases h
  · exact List.Subset.refl _
  · exact List.subset_cons_self _ _

end Remembers
end HelperWalk

namespace Conversion

theorem remembers_collectAll {collect : HelperSite → HelperWalk (List α)}
    (h : ∀ x, (collect x).Remembers) : ∀ sites, (collectAll collect sites).Remembers
  | [] => .pure _
  | x :: rest => .bind (h x) fun _ => .bind (remembers_collectAll h rest) fun _ => .pure _

theorem remembers_collectMembers {collect : HelperSite → HelperWalk (List α)}
    (h : ∀ x, (collect x).Remembers) (a b : Attribute) :
    (c.collectMembers collect a b).Remembers :=
  .bind (.ofWalk _) fun _ => .bind (.ofExcept _) fun _ => remembers_collectAll h _

/-- The search for helpers forgets no names, whatever is made of them. Names are added as they are
    met and never taken out, by induction on the levels. -/
theorem remembers_collectWithin (c : Conversion) (make : String → HelperSite → Walk α) :
    ∀ levels x, (c.collectWithin make levels x).Remembers
  | 0, _ => .ofWalk _
  | levels + 1, x => by
    have hmembers := remembers_collectMembers (c := c)
      (remembers_collectWithin c make levels) x.source x.target
    unfold collectWithin
    refine .bind (.ofWalk _) fun calls => ?_
    cases calls with
    | false => exact hmembers
    | true =>
      refine .bind (.ofExcept _) fun name => .bind (.meet name) fun isNew => ?_
      cases isNew with
      | false => exact .pure _
      | true => exact .bind (.ofWalk _) fun _ => .bind hmembers fun _ => .pure _

theorem remembers_compile (c : Conversion) (s : Site) : (c.compile s).Remembers := by
  refine .bind (.ofWalk _) fun _ => .bind (.bind ?_ fun _ => .pure _) fun _ => .pure _
  exact remembers_collectMembers (remembers_collectWithin c _ _) _ _

end Conversion

/-! ## Helpers -/

namespace PlanWalk

/-- The walk does what `h` does with the names that the plan has met, and otherwise leaves the plan
    as it was. -/
def Tracks (p : Plan) (w : PlanWalk α) (h : HelperWalk α) : Prop :=
  w.run.run p = (h.run.run p.met).map fun o => (o.1, { p with met := o.2 })

namespace Tracks

variable {w : PlanWalk α} {h : HelperWalk α}

protected theorem pure (a : α) : Tracks p (pure a) (pure a) := rfl

theorem ofExcept (e : Except Fault α) : Tracks p (liftM e) (liftM e) := by
  cases e <;> rfl

theorem of_reads {u : Walk α} (hw : Reads p w u) : Tracks p w (liftM u) := by
  unfold Reads at hw
  unfold Tracks
  rw [hw]
  cases hu : u.run <;>
    simp [liftM, monadLift, MonadLift.monadLift, HelperWalk.ofWalk, hu]

/-- What follows is walked along a plan for the same conversion, where more may have been met. The
    set of names grows along the walk, and nothing else in the plan may have changed. -/
protected theorem bind {f : α → PlanWalk β} {g : α → HelperWalk β} (hw : Tracks p w h)
    (hf : ∀ a met, Tracks { p with met } (f a) (g a)) : Tracks p (w >>= f) (h >>= g) := by
  unfold Tracks at hw ⊢
  rw [HelperWalk.run_bind, run_bind, hw]
  cases h.run.run p.met with
  | none => rfl
  | some o =>
    obtain ⟨o, met⟩ := o
    cases o with
    | error why => rfl
    | ok a => exact hf a met

theorem current {f : Conversion → PlanWalk α} (hc : p.conversion scope = c)
    (hf : Tracks p (f c) h) : Tracks p (Plan.current scope >>= f) h := by
  subst hc
  exact hf

theorem meet (name : String) : Tracks p (PlanWalk.meet name) (HelperWalk.meet name) := by
  show (if p.met.contains name then _ else _ : PlanWalk Bool).run.run p = _
  rw [HelperWalk.run_meet]
  have hc : p.met.contains name = decide (name ∈ p.met) := by simp
  by_cases hmem : name ∈ p.met
  · simp only [hc, hmem, decide_true, if_true]
    rfl
  · simp only [hc, hmem, decide_false, Bool.false_eq_true, if_false]
    rfl

end Tracks
end PlanWalk

namespace Plan

open Conversion (boxRegistry nestedBoxes nestedStrings)
open PlanWalk (Reads Tracks)

/-- A helper is built without loops around it, and leaves the plan as it was. -/
theorem reads_helper (hc : p.conversion scope = c) (name : String) (x : HelperSite) :
    Reads p (helper scope name x) (c.helper name x) := by
  unfold helper Conversion.helper
  refine .current hc (.bind (.ofExcept _) fun param => .bind (.ofExcept _) fun result => ?_)
  have h : Reads { p with depth := 0, inBox := false } (inline scope x.inner) (c.inline x.inner) :=
    reads_inline hc
  exact .bind (.unlooped (.boxed h)) fun code => .pure _

/-- The search along a plan for `c` makes what `collect'` makes. Names that are met are the same
    too, step by step, which is what `Tracks` adds to the results. -/
def Collects (scope : Scope) (c : Conversion) (collect : HelperSite → PlanWalk (List Helper))
    (collect' : HelperSite → HelperWalk (List Helper)) : Prop :=
  ∀ p x, p.conversion scope = c → Tracks p (collect x) (collect' x)

variable {collect : HelperSite → PlanWalk (List Helper)}
  {collect' : HelperSite → HelperWalk (List Helper)}

/-- A search through sites finds along a plan what it finds without one. -/
theorem tracks_collectAll (h : Collects scope c collect collect') :
    ∀ sites p, p.conversion scope = c →
      Tracks p (collectAll collect sites) (Conversion.collectAll collect' sites)
  | [], _, _ => .pure _
  | x :: rest, p, hc =>
    .bind (h p x hc) fun _ met =>
      .bind (tracks_collectAll h rest { p with met } hc) fun _ _ => .pure _

theorem tracks_collectMembers (hc : p.conversion scope = c) (h : Collects scope c collect collect')
    (a b : Attribute) :
    Tracks p (collectMembers scope collect a b) (c.collectMembers collect' a b) :=
  .current hc (.bind (.of_reads (.ofWalk _)) fun _ _ => .bind (.ofExcept _) fun _ _ =>
    tracks_collectAll h _ _ hc)

/-- The search for helpers finds along a plan what it finds without one. The names that were met are
    a part of the plan, and without one they are the state of the search. -/
theorem collects_collectWithin (scope : Scope) (c : Conversion) : ∀ levels,
    Collects scope c (collectWithin scope levels) (c.collectWithin c.helper levels)
  | 0 => fun _ _ _ => .of_reads (.ofWalk _)
  | levels + 1 => by
    intro p x hc
    -- The names met change along the way, and with them the plan. So the facts about members and
    -- helpers are stated for any of them.
    have hmembers : ∀ met, Tracks { p with met }
        (collectMembers scope (collectWithin scope levels) x.source x.target)
        (c.collectMembers (c.collectWithin c.helper levels) x.source x.target) :=
      fun met => tracks_collectMembers (p := { p with met }) hc
        (collects_collectWithin scope c levels) _ _
    have hhelper : ∀ met name, Reads { p with met } (helper scope name x) (c.helper name x) :=
      fun met name => reads_helper (p := { p with met }) hc name x
    unfold collectWithin Conversion.collectWithin
    refine .current hc (.bind (.of_reads (.ofWalk _)) fun calls met => ?_)
    cases calls with
    | false => exact hmembers met
    | true =>
      refine .bind (.ofExcept _) fun name _ => .bind (.meet name) fun isNew _ => ?_
      cases isNew with
      | false => exact .pure _
      | true =>
        exact .bind (.of_reads (hhelper _ name)) fun _ _ =>
          .bind (hmembers _) fun _ _ => .pure _

/-- Along a plan the same is built as without one, from the names that the plan has met, where it
    says that the variables are; and nothing of the plan has changed but these names. -/
theorem tracks_compile (scope : Scope) (p : Plan) (source target : Attribute)
    (value place : String) (declare : Bool) :
    Tracks p (compile scope source target value place declare)
      ((p.conversion scope).compile
        (.between source target value place declare p.depth p.inBox)) := by
  refine .bind (.of_reads (reads_inline rfl)) fun body _ => .bind ?_ fun _ _ => .pure _
  exact .current rfl (.bind (tracks_collectMembers rfl (collects_collectWithin scope _ _) _ _)
    fun _ _ => .pure _)

/-- What a request leaves of a plan, whatever becomes of it. Everything that a compiler sets on its
    way is set back, on the paths that fail as on the others; only the names that were met remain,
    so that later requests do not build these helpers again. -/
theorem compile_restores (scope : Scope) (source target : Attribute) (value place : String)
    (declare : Bool) (p p' : Plan) (o : Except Fault Conversion.Compiled)
    (h : (compile scope source target value place declare).run.run p = some (o, p')) :
    p'.source = p.source ∧ p'.target = p.target ∧ p'.verb = p.verb ∧ p'.wire = p.wire ∧
      p'.inBox = p.inBox ∧ p'.depth = p.depth ∧ p.met ⊆ p'.met := by
  rw [tracks_compile] at h
  obtain ⟨⟨o', met⟩, hrun, heq⟩ := Option.map_eq_some_iff.mp h
  cases heq
  exact ⟨rfl, rfl, rfl, rfl, rfl, rfl, Conversion.remembers_compile _ _ _ _ _ hrun⟩

/-- Inside of a box, three loops deep, with one helper built. -/
def busyPlan : Plan where
  source := .service
  target := .protobuf "pb"
  wire := .source
  inBox := true
  depth := 3
  met := ["seen"]

/-- The boxes are on the wrong side, which is found inside of both loops. The plan of the caller is
    three loops deep and inside of a box, so it would show if either were not put back. -/
theorem compile_restores_nested : ∃ why p',
    (compile (.ofRegistry boxRegistry) nestedStrings nestedBoxes "v" "res" true).run.run busyPlan =
      some (.error why, p') ∧
    p'.source = busyPlan.source ∧ p'.target = busyPlan.target ∧ p'.verb = busyPlan.verb ∧
      p'.wire = busyPlan.wire ∧ p'.inBox = busyPlan.inBox ∧ p'.depth = busyPlan.depth ∧
      busyPlan.met ⊆ p'.met := by
  have hfails : ((compile (.ofRegistry boxRegistry) nestedStrings nestedBoxes "v" "res"
      true).run.run busyPlan).map (·.1.isOk) = some false := by decide +kernel
  obtain ⟨⟨o, p'⟩, hrun, hfails⟩ := Option.map_eq_some_iff.mp hfails
  cases o with
  | ok out => cases hfails
  | error why =>
    exact ⟨why, p', hrun, compile_restores (.ofRegistry boxRegistry) nestedStrings
      nestedBoxes "v" "res" true busyPlan p' (.error why) hrun⟩

end Plan
end Shapewright
