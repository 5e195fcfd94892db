import Shapewright.Proofs.Compatibility
import Shapewright.Proofs.Resolution

/-!
# How walks fail

A walk can be asked to fail in certain ways only, which is said here for each way of building a
walk. Comparisons are the first case: what can be wrong with two attributes is that they do not fit,
or that a reference leads to no structure.

## Faults as predicates

That a program raises no internal error can be shown by proving that it succeeds, where it does. But
most walks may fail for good reasons, and it is the reason that has to be right. `FailsOnly` is
partial correctness for faults: whatever fault there is has the property `P`. It composes along
binds with what the parts yield as hypotheses, since a step that only runs after another may rely on
the result of that. The lemmas are simp lemmas, so that a walk is taken apart by `simp` down to the
look-ups that it makes.

A walk that is exhausted fails in no way. So `FailsOnly` is always put together with `Finishes`, and
then there are two outcomes left (`FailsOnly.settle`).

## What comparisons say

Comparisons report where two types differ, by a path on either side. The paths are those the
comparison was given with the same steps behind them (`DiffersAt`), however deep the difference
lies. Elements of arrays are compared once more with a box opened if they do not fit, and fail with
the reason of the first attempt, so the paths show no trace of the second.
-/

namespace Shapewright

open Relation

variable {α β : Type} {P Q : Fault → Prop}

/-- The fault of two types that do not fit: their kinds differ, or they are unions of different
    sizes. -/
inductive Fault.IsMismatch : Fault → Prop where
  | incompatible (sourcePath sourceKind targetPath targetKind : String) :
      IsMismatch (.incompatible sourcePath sourceKind targetPath targetKind)
  | arity (source : String) (sourceCount : Nat) (target : String) (targetCount : Nat) :
      IsMismatch (.arity source sourceCount target targetCount)

/-! ## Walks -/

namespace Walk

/-- Whatever fault the walk ends with has the property. The walk need not fail, nor end. If the
    property is never true, there is no fault. -/
def FailsOnly (w : Walk α) (P : Fault → Prop) : Prop := ∀ f, w.run = some (.error f) → P f

theorem FailsOnly.mono {w : Walk α} (h : w.FailsOnly P) (hPQ : ∀ f, P f → Q f) : w.FailsOnly Q :=
  fun f hf => hPQ f (h f hf)

@[simp] theorem failsOnly_bind {w : Walk α} {f : α → Walk β} :
    (w >>= f).FailsOnly P ↔ w.FailsOnly P ∧ ∀ a, w.Yields a → (f a).FailsOnly P := by
  unfold FailsOnly Yields
  rw [run_bind]
  split <;> simp_all

@[simp] theorem failsOnly_pure {a : α} : (pure a : Walk α).FailsOnly P := by
  intro f hf
  simp at hf

@[simp] theorem failsOnly_throw {f : Fault} : (throw f : Walk α).FailsOnly P ↔ P f := by
  simp [FailsOnly]

@[simp] theorem failsOnly_exhausted : (exhausted : Walk α).FailsOnly P := by
  intro f hf
  simp [exhausted] at hf

@[simp] theorem failsOnly_liftM {e : Except Fault α} :
    (liftM e : Walk α).FailsOnly P ↔ ∀ f, e = .error f → P f := by
  cases e <;> simp [FailsOnly, liftM, monadLift, MonadLift.monadLift, ExceptT.run, ExceptT.mk, pure]

/-- A step that succeeds has no fault. -/
theorem failsOnly_of_ok {e : Except Fault α} (h : ∃ a, e = .ok a) :
    (liftM e : Walk α).FailsOnly P := by
  obtain ⟨a, rfl⟩ := h
  simp

/-- A walk that succeeds has no fault. -/
theorem Yields.failsOnly {w : Walk α} {a : α} (h : w.Yields a) : w.FailsOnly P := by
  intro f hf
  cases h.symm.trans hf

@[simp] theorem failsOnly_outcome {w : Walk α} : w.outcome.FailsOnly P := by
  intro f hf
  exact absurd ⟨f, hf⟩ not_fails_outcome

@[simp] theorem failsOnly_succeeds {w : Walk α} : w.succeeds.FailsOnly P := by
  unfold succeeds
  refine failsOnly_bind.mpr ⟨failsOnly_outcome, fun o _ => ?_⟩
  cases o with
  | ok _ => exact failsOnly_pure
  | error _ => exact failsOnly_pure

theorem failsOnly_mapM {xs : List α} {f : α → Walk β} (h : ∀ x ∈ xs, (f x).FailsOnly P) :
    (xs.mapM f).FailsOnly P := by
  induction xs with
  | nil => rw [List.mapM_nil]; exact failsOnly_pure
  | cons x xs ih =>
    rw [List.forall_mem_cons] at h
    simp only [List.mapM_cons, failsOnly_bind, failsOnly_pure, implies_true, and_true]
    exact ⟨h.1, fun _ _ => ih h.2⟩

/-- A walk that ends succeeds, or has a fault of the right kind. This is how the statements on whole
    requests are read. -/
theorem FailsOnly.settle {w : Walk α} (h : w.FailsOnly P) (hw : w.Finishes) :
    (∃ a, w.settle = .ok a) ∨ ∃ f, w.settle = .error f ∧ P f := by
  obtain ⟨f | a, hw⟩ := hw
  · exact Or.inr ⟨f, by rw [Walk.settle, hw]; rfl, h f hw⟩
  · exact Or.inl ⟨a, by rw [Walk.settle, hw]; rfl⟩

end Walk

/-! ## Walks that keep the names of helpers -/

namespace HelperWalk

/-- Whatever fault the walk ends with has the property, wherever it starts. -/
def FailsOnly (w : HelperWalk α) (P : Fault → Prop) : Prop :=
  ∀ met f met', w.run.run met = some (.error f, met') → P f

@[simp] theorem failsOnly_pure {a : α} : (pure a : HelperWalk α).FailsOnly P := by
  intro met f met' hf
  rw [ExceptT.run_pure, StateT.run_pure] at hf
  simp at hf

theorem failsOnly_bind {w : HelperWalk α} {f : α → HelperWalk β} (hw : w.FailsOnly P)
    (hf : ∀ a met met', w.Yields met a met' → (f a).FailsOnly P) : (w >>= f).FailsOnly P := by
  intro met why met' h
  rw [run_bind] at h
  split at h
  · simp at h
  · rename_i why' met₁ hrun
    simp only [Option.some.injEq, Prod.mk.injEq, Except.error.injEq] at h
    exact h.1 ▸ hw met why' met₁ hrun
  · rename_i a met₁ hrun
    exact hf a met met₁ hrun met₁ why met' h

@[simp] theorem failsOnly_ofWalk {w : Walk α} : (ofWalk w).FailsOnly P ↔ w.FailsOnly P := by
  unfold FailsOnly Walk.FailsOnly ofWalk
  simp only [ExceptT.run_mk, StateT.run_lift]
  cases w.run <;> simp

@[simp] theorem failsOnly_liftM {w : Walk α} :
    (liftM w : HelperWalk α).FailsOnly P ↔ w.FailsOnly P :=
  failsOnly_ofWalk

theorem failsOnly_liftExcept {e : Except Fault α} (h : ∀ f, e = .error f → P f) :
    (liftM e : HelperWalk α).FailsOnly P := by
  cases e with
  | error why =>
    intro met f met' hf
    simp only [liftM, monadLift, MonadLift.monadLift] at hf
    cases hf
    exact h why rfl
  | ok a => exact failsOnly_pure (a := a)

theorem failsOnly_meet (name : String) : (meet name).FailsOnly P := by
  intro met f met' hf
  rw [run_meet] at hf
  split at hf <;> simp at hf

/-- A walk that ends succeeds, or there is a fault of the right kind. -/
theorem FailsOnly.yields_or {w : HelperWalk α} {met : List String} (h : w.FailsOnly P)
    (hw : w.Finishes met) : (∃ a met', w.Yields met a met') ∨ ∃ f, P f := by
  obtain ⟨⟨f | a, met'⟩, hw⟩ := hw
  · exact Or.inr ⟨f, h met f met' hw⟩
  · exact Or.inl ⟨a, met', hw⟩

theorem FailsOnly.alone {w : HelperWalk α} (h : w.FailsOnly P) : w.alone.FailsOnly P := by
  intro f hf
  unfold HelperWalk.alone at hf
  rw [ExceptT.run_mk, Option.map_eq_some_iff] at hf
  obtain ⟨⟨o, met'⟩, hrun, rfl⟩ := hf
  exact h [] f met' hrun

end HelperWalk

/-! ## Comparisons -/

namespace Registry

variable {reg : Registry} {a b : Attribute} {p : Paths}

theorem Sound.resolves_elem (hs : reg.Sound) (ha : reg.Resolves a) {x : Attribute}
    (hx : reg.elem? a = .ok (some x)) : reg.Resolves x :=
  hs.of_mem_standing ha (elem?_mem_standing hx (reg.mem_standing_self a))

/-- A reference without a structure is no mismatch, so the two ways to fail are told apart. -/
theorem Lost.not_mismatch {f : Fault} (h : reg.Lost a f) : ¬ f.IsMismatch := by
  rcases h.unknownType_or_circularAlias with ⟨i, rfl⟩ | ⟨i, rfl⟩
  · intro hf
    cases hf
  · intro hf
    cases hf

/-- A walk from one of the two attributes can meet a reference that leads to no structure. What a
    conversion meets it meets from one of them. -/
def LostBoth (reg : Registry) (p : Pair) (f : Fault) : Prop := reg.Lost p.1 f ∨ reg.Lost p.2 f

/-- Walks from the first pair can meet the second one, side by side. The two walks need not take the
    same number of steps, since boxes are opened on one side only. -/
structure MeetsBoth (reg : Registry) (p q : Pair) : Prop where
  source : reg.Meets p.1 q.1
  target : reg.Meets p.2 q.2

variable {q r : Pair} {f : Fault}

theorem MeetsBoth.refl (p : Pair) : reg.MeetsBoth p p := ⟨.refl, .refl⟩

theorem MeetsBoth.trans {p : Pair} (h : reg.MeetsBoth p q) (hq : reg.MeetsBoth q r) :
    reg.MeetsBoth p r :=
  ⟨ReflTransGen.trans h.source hq.source, ReflTransGen.trans h.target hq.target⟩

theorem MeetsBoth.lost {p : Pair} (h : reg.MeetsBoth p q) (hq : reg.LostBoth q f) :
    reg.LostBoth p f :=
  hq.imp (.of_meets h.source) (.of_meets h.target)

theorem insideBox_failsOnly {box : Attribute} {compare : Attribute → Walk Unit}
    (h : ∀ f, reg.Lost box f → P f) : (reg.insideBox box compare).FailsOnly P := by
  unfold insideBox
  refine Walk.failsOnly_bind.mpr
    ⟨Walk.failsOnly_liftM.mpr fun f hf => h f (unbox?_lost hf), fun o _ => ?_⟩
  cases o with
  | none => exact Walk.failsOnly_pure
  | some inner => exact Walk.failsOnly_succeeds

/-- Elements fail as the plain comparison does, whatever is tried after it. The attempts with a box
    are asked only whether they succeed. -/
theorem elementsVia_failsOnly {compare : Attribute → Attribute → Paths → Walk Unit}
    (h : (compare a b p).FailsOnly P) (hlost : ∀ f, reg.LostBoth (a, b) f → P f) :
    (reg.elementsVia compare a b p).FailsOnly P := by
  unfold elementsVia
  refine Walk.failsOnly_bind.mpr ⟨Walk.failsOnly_outcome, fun o ho => ?_⟩
  cases o with
  | ok _ => exact Walk.failsOnly_pure
  | error why =>
    have hwhy : P why := h why (Walk.yields_outcome.mp ho)
    refine Walk.failsOnly_bind.mpr
      ⟨insideBox_failsOnly fun f hf => hlost f (.inl hf), fun first _ => ?_⟩
    cases first with
    | true => exact Walk.failsOnly_pure
    | false =>
      refine Walk.failsOnly_bind.mpr
        ⟨insideBox_failsOnly fun f hf => hlost f (.inr hf), fun second _ => ?_⟩
      cases second with
      | true => exact Walk.failsOnly_pure
      | false => exact Walk.failsOnly_throw.mpr hwhy

/-- One step of a comparison, as paths show it. -/
inductive Step : String → Prop where
  | element : Step "[0]"
  | key : Step "[key]"
  | entry : Step "[*]"

/-- The fault names two places that do not fit: those of the comparison, or some steps further in,
    the same on both sides. -/
inductive DiffersAt (p : Paths) : Fault → Prop where
  | intro (steps : List String) (hsteps : ∀ t ∈ steps, Step t) (sourceKind targetKind : String) :
      DiffersAt p (.incompatible (displayPath (p.source ++ String.join steps)) sourceKind
        (displayPath (p.target ++ String.join steps)) targetKind)

theorem DiffersAt.here (p : Paths) (sourceKind targetKind : String) :
    DiffersAt p (.incompatible (displayPath p.source) sourceKind (displayPath p.target)
      targetKind) := by
  simpa using DiffersAt.intro (p := p) [] (by simp) sourceKind targetKind

theorem DiffersAt.step {t : String} (ht : Step t) (h : DiffersAt (p.step t) f) : DiffersAt p f := by
  obtain ⟨steps, hsteps, sourceKind, targetKind⟩ := h
  simpa [Paths.step, String.append_assoc] using
    DiffersAt.intro (p := p) (t :: steps) (List.forall_mem_cons.mpr ⟨ht, hsteps⟩) sourceKind
      targetKind

theorem DiffersAt.mismatch (h : DiffersAt p f) : f.IsMismatch := by
  cases h
  exact .incompatible ..

/-- A comparison fails only where the attributes do not fit, or at a reference that leads to no
    structure. By induction on the levels; each level adds one step to both paths. -/
theorem compatibleWithin_differs : ∀ {n : Nat} {a b : Attribute} {p : Paths},
    (reg.compatibleWithin n a b p).FailsOnly fun f => DiffersAt p f ∨ reg.LostBoth (a, b) f := by
  intro n
  induction n with
  | zero => intro a b p; exact Walk.failsOnly_exhausted
  | succ n ih =>
    intro a b p
    -- Fields and alternatives need no case: objects and unions are compared by their kind alone.
    have below : ∀ {x y : Attribute} {t : String}, Step t → reg.MeetsBoth (a, b) (x, y) →
        (reg.compatibleWithin n x y (p.step t)).FailsOnly
          fun f => DiffersAt p f ∨ reg.LostBoth (a, b) f :=
      fun ht hxy => ih.mono fun _ hf => hf.imp (.step ht) hxy.lost
    have elements : ∀ {x y : Attribute} {t : String}, Step t → reg.MeetsBoth (a, b) (x, y) →
        (reg.elementsVia (reg.compatibleWithin n) x y (p.step t)).FailsOnly
          fun f => DiffersAt p f ∨ reg.LostBoth (a, b) f :=
      fun ht hxy => elementsVia_failsOnly (below ht hxy) fun _ hf => .inr (hxy.lost hf)
    rw [compatibleWithin, compatibleVia]
    refine Walk.failsOnly_bind.mpr
      ⟨Walk.failsOnly_liftM.mpr fun f hf => .inr (.inl (lost_of_kind hf)), fun ka hka => ?_⟩
    refine Walk.failsOnly_bind.mpr
      ⟨Walk.failsOnly_liftM.mpr fun f hf => .inr (.inr (lost_of_kind hf)), fun kb hkb => ?_⟩
    rw [Walk.yields_liftM] at hka hkb
    split
    · exact Walk.failsOnly_pure
    · split
      · split
        · exact Walk.failsOnly_pure
        · exact Walk.failsOnly_throw.mpr (.inl (.here ..))
      · obtain ⟨x, hx⟩ := exists_elem hka
        obtain ⟨y, hy⟩ := exists_elem hkb
        simp only [Walk.failsOnly_bind, Walk.failsOnly_liftM, Walk.yields_liftM, hx, hy,
          reduceCtorEq, false_imp_iff, implies_true, true_and, Except.ok.injEq, forall_eq']
        exact elements .element ⟨elem?_meets hx, elem?_meets hy⟩
      · obtain ⟨⟨k, x⟩, hx⟩ := exists_entry hka
        obtain ⟨⟨l, y⟩, hy⟩ := exists_entry hkb
        simp only [Walk.failsOnly_bind, Walk.failsOnly_liftM, Walk.yields_liftM, hx, hy,
          reduceCtorEq, false_imp_iff, implies_true, true_and, Except.ok.injEq, forall_eq']
        exact ⟨below .key ⟨(entry?_meets hx).1, (entry?_meets hy).1⟩,
          fun _ _ => elements .entry ⟨(entry?_meets hx).2, (entry?_meets hy).2⟩⟩
      · exact Walk.failsOnly_pure
      · exact Walk.failsOnly_pure
      · exact Walk.failsOnly_throw.mpr (.inl (.here ..))

theorem compatible_differs :
    (reg.compatible a b p).FailsOnly fun f => DiffersAt p f ∨ reg.LostBoth (a, b) f :=
  compatibleWithin_differs

/-- What fails a comparison is a mismatch, or lies in a reference that leads to no structure. -/
theorem compatible_failsOnly :
    (reg.compatible a b p).FailsOnly fun f => f.IsMismatch ∨ reg.LostBoth (a, b) f :=
  compatible_differs.mono fun _ hf => hf.imp_left DiffersAt.mismatch

theorem kinds_of_compatibleWithin {n : Nat} (h : (reg.compatibleWithin n a b p).Yields ()) :
    ∃ ka kb, reg.kind a = .ok ka ∧ reg.kind b = .ok kb ∧ (kb = .primitive .any ∨ ka = kb) := by
  cases n with
  | zero => exact absurd h Walk.yields_exhausted
  | succ n =>
    rw [compatibleWithin, compatibleVia] at h
    simp only [Walk.yields_bind, Walk.yields_liftM] at h
    obtain ⟨ka, hka, kb, hkb, h⟩ := h
    refine ⟨ka, kb, hka, hkb, ?_⟩
    split at h
    · exact Or.inl ‹_›
    · right
      split at h
      · split at h
        · rename_i hxy
          rw [hxy]
        · simp at h
      · rfl
      · rfl
      · rfl
      · rfl
      · simp at h

/-- Compatible attributes are of one kind, unless the target takes anything. -/
theorem kinds_of_compatible (h : (reg.compatible a b p).Yields ()) :
    ∃ ka kb, reg.kind a = .ok ka ∧ reg.kind b = .ok kb ∧ (kb = .primitive .any ∨ ka = kb) :=
  kinds_of_compatibleWithin h

/-! ## Views that are asked for -/

variable {id : TypeId} {t : UserType} {name : String} {f : Fault}

theorem view?_of_findView? {w : View} (ht : reg.find? id = some t)
    (hw : t.findView? name = some w) : reg.view? id name = .ok (some w) := by
  unfold view?
  simp only [get_eq_ok.mpr ht, except_bind_eq_ok, Except.ok.injEq, exists_eq_left', hw]

/-- A view is found, or it is the default one, which a type need not have. For the default view
    alone there is a successful answer that is no view. -/
theorem view?_eq_ok {found : Option View} (ht : reg.find? id = some t) :
    reg.view? id name = .ok found ↔
      t.findView? name = found ∧ (found = none → name = defaultView) := by
  unfold view?
  rw [get_eq_ok.mpr ht, except_bind_eq_ok]
  simp only [Except.ok.injEq, exists_eq_left']
  split
  · rename_i w hw
    simp only [Except.ok.injEq, hw]
    refine ⟨fun h => ⟨h, by simp [← h]⟩, And.left⟩
  · rename_i hnone
    split
    · rename_i hd
      subst hd
      simp only [Except.ok.injEq, hnone, implies_true, and_true]
    · rename_i hd
      simp only [reduceCtorEq, hnone, false_iff, not_and, hd]
      exact fun h h' => h' h.symm

/-- A view of a known type can be asked for unless the type lacks it and it is not the default. The
    default view need not be declared: without one, all fields are shown. -/
theorem view?_eq_error (ht : reg.find? id = some t) : reg.view? id name = .error f ↔
    t.findView? name = none ∧ name ≠ defaultView ∧ f = .unknownView t.name name := by
  unfold view?
  rw [get_eq_ok.mpr ht, except_bind_eq_error]
  simp only [reduceCtorEq, Except.ok.injEq, exists_eq_left', false_or]
  split
  · rename_i w hw
    simp [hw]
  · rename_i hnone
    split <;> simp [*, eq_comm]

end Registry
end Shapewright
