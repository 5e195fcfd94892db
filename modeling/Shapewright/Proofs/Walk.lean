import Mathlib.Data.List.Forall2
import Shapewright.Conversion.Helper

/-!
# Outcomes of walks

A walk yields a value, fails, or has no end. The three are stated here as propositions, for walks
and for walks that keep the names of helpers, together with one equivalence for each way of building
a walk: what a sequence of walks yields, what its parts yield. Proofs about a conversion go through
these and never look inside the monads.

## Why three propositions and not one result

A walk over cyclic types has a budget, and running out of it is neither success nor a fault. Most of
what is said about the compilers has the form "if it yields this, then that holds", or "it ends, and
fails with no other fault than these". So `Yields`, `Fails` and `Finishes` are separate, each with
its own rule for `bind`, and `finishes_iff` is the one place where they meet. Two rules are worth
noting: a sequence finishes if its first part does and the second does *for the value that the first
yields* (`finishes_bind`), which is what makes a proof of termination follow the code; and `settle`
takes running out for a fault, so what a settled walk succeeds with is exactly what the walk yields
(`settle_eq_ok`).

`Follows` compares two walks that differ only in what their faults say. Comparing with other paths
changes the messages of a comparison and nothing else, and the retry behind a failure looks at the
failure only to see that there was one; `Follows.orElse` is that remark as a lemma.

All the equivalences are simp lemmas, so a proof opens a compiler by `simp only` with the few it
needs. The instances make the propositions decidable: fixed inputs are run by `decide`.
-/

namespace Shapewright

variable {α β : Type}

/-! ## Lists in step -/

/-- Lists that a `mapM` relates are related entry by entry. The source of an entry is found by this
    lemma or, from the other side, by `forall₂_mem_right`. -/
theorem forall₂_mem_left {R : α → β → Prop} {xs : List α} {ys : List β} (h : List.Forall₂ R xs ys)
    {x : α} (hx : x ∈ xs) : ∃ y ∈ ys, R x y := by
  induction h with
  | nil => simp at hx
  | cons hr _ ih =>
    rcases List.mem_cons.mp hx with rfl | hx
    · exact ⟨_, List.mem_cons_self, hr⟩
    · obtain ⟨y, hy, hr⟩ := ih hx
      exact ⟨y, List.mem_cons_of_mem _ hy, hr⟩

theorem forall₂_mem_right {R : α → β → Prop} {xs : List α} {ys : List β}
    (h : List.Forall₂ R xs ys) {y : β} (hy : y ∈ ys) : ∃ x ∈ xs, R x y :=
  forall₂_mem_left (List.Forall₂.flip h) hy

/-- A choice for each entry is a list of choices, in order. -/
theorem exists_forall₂ {R : α → β → Prop} {xs : List α} (h : ∀ x ∈ xs, ∃ y, R x y) :
    ∃ ys, List.Forall₂ R xs ys := by
  induction xs with
  | nil => exact ⟨[], .nil⟩
  | cons x rest ih =>
    rw [List.forall_mem_cons] at h
    obtain ⟨⟨y, hy⟩, hrest⟩ := h
    obtain ⟨ys, hys⟩ := ih hrest
    exact ⟨y :: ys, .cons hy hys⟩

theorem map_eq_of_forall₂ {α β γ : Type} {R : α → β → Prop} {f : α → γ} {g : β → γ}
    (hR : ∀ a b, R a b → g b = f a) {as : List α} {bs : List β} (h : List.Forall₂ R as bs) :
    bs.map g = as.map f := by
  induction h with
  | nil => rfl
  | cons hab _ ih => rw [List.map_cons, List.map_cons, hR _ _ hab, ih]

/-! ## Steps that only fail or succeed -/

@[simp] theorem except_bind_eq_ok {ε : Type} {e : Except ε α} {f : α → Except ε β} {b : β} :
    (e >>= f) = .ok b ↔ ∃ a, e = .ok a ∧ f a = .ok b := by
  cases e with
  | error why => simp [bind, Except.bind]
  | ok a => simp [bind, Except.bind]

@[simp] theorem except_bind_eq_error {ε : Type} {e : Except ε α} {f : α → Except ε β} {why : ε} :
    (e >>= f) = .error why ↔ e = .error why ∨ ∃ a, e = .ok a ∧ f a = .error why := by
  cases e with
  | error _ => simp [bind, Except.bind]
  | ok a => simp [bind, Except.bind]

@[simp] theorem except_pure_eq_ok {ε : Type} {a b : α} :
    (pure a : Except ε α) = .ok b ↔ a = b := by
  simp [pure, Except.pure]

@[simp] theorem except_throw_eq_ok {ε : Type} {f : ε} {a : α} :
    (throw f : Except ε α) = .ok a ↔ False := by
  simp [throw, throwThe, MonadExceptOf.throw]

theorem mapError_eq_ok {ε ε' : Type} {e : Except ε α} {f : ε → ε'} {a : α} :
    e.mapError f = .ok a ↔ e = .ok a := by
  cases e <;> simp [Except.mapError]

instance decidableExistsOk {ε : Type} (e : Except ε α) : Decidable (∃ a, e = .ok a) :=
  match e with
  | .ok a => isTrue ⟨a, rfl⟩
  | .error _ => isFalse fun ⟨_, h⟩ => by cases h

instance decidableExistsOkAnd {ε : Type} (e : Except ε α) (P : α → Prop) [DecidablePred P] :
    Decidable (∃ a, e = .ok a ∧ P a) :=
  match e with
  | .ok a => decidable_of_iff (P a) (by simp)
  | .error _ => isFalse (by simp)

theorem forM_eq_ok {ε : Type} {f : α → Except ε Unit} {xs : List α} (h : xs.forM f = .ok ()) :
    ∀ x ∈ xs, f x = .ok () := by
  induction xs with
  | nil => simp
  | cons x rest ih =>
    rw [List.forM, except_bind_eq_ok] at h
    obtain ⟨⟨⟩, hx, hrest⟩ := h
    exact List.forall_mem_cons.mpr ⟨hx, ih hrest⟩

theorem exists_mapM_eq_ok {ε : Type} {f : α → Except ε β} {xs : List α}
    (h : ∀ x ∈ xs, ∃ y, f x = .ok y) : ∃ ys, xs.mapM f = .ok ys := by
  induction xs with
  | nil => exact ⟨[], rfl⟩
  | cons x rest ih =>
    rw [List.forall_mem_cons] at h
    obtain ⟨⟨y, hy⟩, hrest⟩ := h
    obtain ⟨ys, hys⟩ := ih hrest
    rw [List.mapM_cons]
    exact ⟨y :: ys, except_bind_eq_ok.mpr ⟨y, hy, except_bind_eq_ok.mpr ⟨ys, hys, rfl⟩⟩⟩

/-- A list is gone through successfully exactly if each entry is, and the results stand in the order
    of the entries. -/
theorem except_mapM_eq_ok {ε : Type} {f : α → Except ε β} : ∀ {xs : List α} {ys : List β},
    xs.mapM f = .ok ys ↔ List.Forall₂ (fun x y => f x = .ok y) xs ys := by
  intro xs
  induction xs with
  | nil =>
    intro ys
    rw [List.mapM_nil, except_pure_eq_ok, List.forall₂_nil_left_iff, eq_comm]
  | cons x rest ih =>
    intro ys
    simp only [List.mapM_cons, except_bind_eq_ok, except_pure_eq_ok, ih, List.forall₂_cons_left_iff]
    constructor
    · rintro ⟨y, hy, others, hothers, rfl⟩
      exact ⟨y, others, hy, hothers, rfl⟩
    · rintro ⟨y, others, hy, hothers, rfl⟩
      exact ⟨y, hy, others, hothers, rfl⟩

/-! ## Walks -/

namespace Walk

/-- The walk ends well, with `a`. A walk may also be used up before it ends, which counts neither as
    this nor as a fault. -/
def Yields (w : Walk α) (a : α) : Prop := w.run = some (.ok a)

/-- The walk ends with a fault. -/
def Fails (w : Walk α) : Prop := ∃ f, w.run = some (.error f)

/-- The walk ends, well or not. To finish is to come to an end within the number of steps that were
    granted. -/
def Finishes (w : Walk α) : Prop := ∃ o, w.run = some o

theorem Yields.unique {w : Walk α} {a b : α} (ha : w.Yields a) (hb : w.Yields b) : a = b := by
  unfold Yields at ha hb
  rw [ha] at hb
  simpa using hb

theorem Yields.finishes {w : Walk α} {a : α} (h : w.Yields a) : w.Finishes := ⟨_, h⟩

theorem Fails.finishes {w : Walk α} (h : w.Fails) : w.Finishes := let ⟨_, h⟩ := h; ⟨_, h⟩

theorem Fails.not_yields {w : Walk α} {a : α} (hf : w.Fails) : ¬ w.Yields a := by
  obtain ⟨f, hf⟩ := hf
  intro h
  unfold Yields at h
  rw [hf] at h
  simp at h

/-- The only link between ending and the two ways of ending. Nothing else in a walk is an end. -/
theorem finishes_iff {w : Walk α} : w.Finishes ↔ w.Fails ∨ ∃ a, w.Yields a := by
  constructor
  · intro h
    obtain ⟨f | a, h⟩ := h
    · exact Or.inl ⟨f, h⟩
    · exact Or.inr ⟨a, h⟩
  · intro h
    rcases h with h | ⟨a, h⟩
    · exact h.finishes
    · exact h.finishes

/-- The runs of a sequence: of its first part alone, where that does not go on. -/
theorem run_bind (w : Walk α) (f : α → Walk β) :
    (w >>= f).run = match w.run with
      | none => none
      | some (.error why) => some (.error why)
      | some (.ok a) => (f a).run := by
  rw [ExceptT.run_bind]
  cases w.run with
  | none => rfl
  | some o => cases o <;> rfl

@[simp] theorem yields_bind {w : Walk α} {f : α → Walk β} {b : β} :
    (w >>= f).Yields b ↔ ∃ a, w.Yields a ∧ (f a).Yields b := by
  unfold Yields
  rw [run_bind]
  split <;> simp_all

/-- A sequence ends if its first part does, and the second part does for the value that the first
    one yields. Where the first part fails nothing is asked of the second. -/
@[simp] theorem finishes_bind {w : Walk α} {f : α → Walk β} :
    (w >>= f).Finishes ↔ w.Finishes ∧ ∀ a, w.Yields a → (f a).Finishes := by
  unfold Finishes Yields
  rw [run_bind]
  split <;> simp_all

@[simp] theorem yields_pure {a b : α} : (pure a : Walk α).Yields b ↔ a = b := by
  unfold Yields
  rw [ExceptT.run_pure]
  simp

@[simp] theorem finishes_pure {a : α} : (pure a : Walk α).Finishes := ⟨_, rfl⟩

@[simp] theorem yields_map {w : Walk α} {f : α → β} {b : β} :
    (f <$> w).Yields b ↔ ∃ a, w.Yields a ∧ f a = b := by
  rw [map_eq_pure_bind]
  simp only [yields_bind, yields_pure]

@[simp] theorem finishes_map {w : Walk α} {f : α → β} : (f <$> w).Finishes ↔ w.Finishes := by
  rw [map_eq_pure_bind]
  simp only [finishes_bind, finishes_pure, implies_true, and_true]

@[simp] theorem yields_throw {f : Fault} {a : α} : ¬ (throw f : Walk α).Yields a := by
  simp [Yields]

@[simp] theorem finishes_throw {f : Fault} : (throw f : Walk α).Finishes := ⟨_, rfl⟩

@[simp] theorem yields_defect {d : Defect} {a : α} : ¬ (defect d : Walk α).Yields a :=
  yields_throw

@[simp] theorem finishes_defect {d : Defect} : (defect d : Walk α).Finishes := finishes_throw

@[simp] theorem yields_exhausted {a : α} : ¬ (exhausted : Walk α).Yields a := by
  simp [Yields, exhausted]

@[simp] theorem finishes_exhausted : ¬ (exhausted : Walk α).Finishes := by
  simp [Finishes, exhausted]

@[simp] theorem yields_liftM {e : Except Fault α} {a : α} :
    (liftM e : Walk α).Yields a ↔ e = .ok a := by
  cases e <;> simp [Yields, liftM, monadLift, MonadLift.monadLift, ExceptT.run, ExceptT.mk, pure]

@[simp] theorem finishes_liftM {e : Except Fault α} : (liftM e : Walk α).Finishes := ⟨e, rfl⟩

theorem liftM_ok_bind (a : α) (f : α → Walk β) :
    ((liftM (Except.ok a : Except Fault α) : Walk α) >>= f) = f a := rfl

@[simp] theorem yields_outcome {w : Walk α} {o : Except Fault α} :
    w.outcome.Yields o ↔ w.run = some o := by
  unfold Yields outcome
  rw [ExceptT.run_mk]
  cases w.run <;> simp

@[simp] theorem finishes_outcome {w : Walk α} : w.outcome.Finishes ↔ w.Finishes := by
  unfold Finishes outcome
  rw [ExceptT.run_mk]
  cases w.run <;> simp

@[simp] theorem fails_bind {w : Walk α} {f : α → Walk β} :
    (w >>= f).Fails ↔ w.Fails ∨ ∃ a, w.Yields a ∧ (f a).Fails := by
  unfold Fails Yields
  rw [run_bind]
  split <;> simp_all

@[simp] theorem not_fails_pure {a : α} : ¬ (pure a : Walk α).Fails := by
  intro h
  obtain ⟨f, h⟩ := h
  simp at h

@[simp] theorem fails_throw {f : Fault} : (throw f : Walk α).Fails := ⟨f, rfl⟩

@[simp] theorem fails_map {w : Walk α} {f : α → β} : (f <$> w).Fails ↔ w.Fails := by
  rw [map_eq_pure_bind]
  simp only [fails_bind, not_fails_pure, and_false, exists_false, or_false]

@[simp] theorem not_fails_exhausted : ¬ (exhausted : Walk α).Fails := by
  intro h
  obtain ⟨f, h⟩ := h
  simp [exhausted] at h

@[simp] theorem fails_liftM {e : Except Fault α} :
    (liftM e : Walk α).Fails ↔ ∃ f, e = .error f := by
  cases e <;> simp [Fails, liftM, monadLift, MonadLift.monadLift, ExceptT.run, ExceptT.mk, pure]

@[simp] theorem not_fails_outcome {w : Walk α} : ¬ w.outcome.Fails := by
  intro h
  obtain ⟨f, h⟩ := h
  rw [outcome, ExceptT.run_mk] at h
  cases hw : w.run <;> simp [hw] at h

/-- Looking whether a walk succeeds never fails itself; it has no end exactly where the walk has
    none. -/
@[simp] theorem yields_succeeds_true {w : Walk α} :
    w.succeeds.Yields true ↔ ∃ a, w.Yields a := by
  unfold succeeds
  simp only [yields_bind, yields_outcome]
  constructor
  · intro h
    obtain ⟨o, ho, h⟩ := h
    cases o with
    | ok a => exact ⟨a, ho⟩
    | error why => simp at h
  · intro h
    obtain ⟨a, ha⟩ := h
    exact ⟨.ok a, ha, by simp⟩

@[simp] theorem yields_succeeds_false {w : Walk α} : w.succeeds.Yields false ↔ w.Fails := by
  unfold succeeds
  simp only [yields_bind, yields_outcome]
  constructor
  · intro h
    obtain ⟨o, ho, h⟩ := h
    cases o with
    | ok a => simp at h
    | error why => exact ⟨why, ho⟩
  · intro h
    obtain ⟨why, hw⟩ := h
    exact ⟨.error why, hw, by simp⟩

@[simp] theorem finishes_succeeds {w : Walk α} : w.succeeds.Finishes ↔ w.Finishes := by
  unfold succeeds
  simp only [finishes_bind, finishes_outcome, and_iff_left_iff_imp]
  intro _ o _
  cases o <;> simp

/-- A walk without an end is settled as a fault, so what it is settled as is what it yields.
    Statements about a whole program speak of `settle`, and by this lemma they are statements about
    the walk. -/
theorem settle_eq_ok {w : Walk α} {a : α} : w.settle = .ok a ↔ w.Yields a := by
  unfold settle Yields
  cases w.run <;> simp

instance (w : Walk α) : Decidable w.Finishes := decidable_of_iff _ Option.isSome_iff_exists

instance (w : Walk α) (P : Fault → Prop) [DecidablePred P] :
    Decidable (∃ f, w.run = some (.error f) ∧ P f) :=
  match w.run with
  | some (.error f) => decidable_of_iff (P f) (by simp)
  | some (.ok _) => isFalse fun ⟨_, h, _⟩ => by simp at h
  | none => isFalse fun ⟨_, h, _⟩ => by simp at h

instance (w : Walk α) : Decidable (∃ a, w.Yields a) :=
  match h : w.run with
  | some (.ok a) => isTrue ⟨a, h⟩
  | some (.error _) => isFalse fun ⟨_, ha⟩ => by rw [Yields, h] at ha; simp at ha
  | none => isFalse fun ⟨_, ha⟩ => by rw [Yields, h] at ha; simp at ha

instance (w : Walk α) (P : α → Prop) [DecidablePred P] : Decidable (∃ a, w.Yields a ∧ P a) :=
  match h : w.run with
  | some (.ok a) =>
    decidable_of_iff (P a) ⟨fun hp => ⟨a, h, hp⟩, fun ⟨_, hb, hp⟩ =>
      (Yields.unique (show w.Yields a from h) hb) ▸ hp⟩
  | some (.error _) => isFalse fun ⟨_, ha, _⟩ => by rw [Yields, h] at ha; simp at ha
  | none => isFalse fun ⟨_, ha, _⟩ => by rw [Yields, h] at ha; simp at ha

/-! ### Walks over lists -/

/-- A walk over a list yields one value for each entry, in order, and stops at the first entry that
    does not. -/
theorem yields_mapM {xs : List α} {f : α → Walk β} {ys : List β} :
    (xs.mapM f).Yields ys ↔ List.Forall₂ (fun x y => (f x).Yields y) xs ys := by
  induction xs generalizing ys with
  | nil =>
    rw [List.mapM_nil, yields_pure, List.forall₂_nil_left_iff, eq_comm]
  | cons x xs ih =>
    simp only [List.mapM_cons, yields_bind, yields_pure, ih, List.forall₂_cons_left_iff]
    constructor
    · intro h
      obtain ⟨y, hy, ys, hys, rfl⟩ := h
      exact ⟨y, ys, hy, hys, rfl⟩
    · intro h
      obtain ⟨y, ys, hy, hys, rfl⟩ := h
      exact ⟨y, hy, ys, hys, rfl⟩

theorem finishes_mapM {xs : List α} {f : α → Walk β} (h : ∀ x ∈ xs, (f x).Finishes) :
    (xs.mapM f).Finishes := by
  induction xs with
  | nil => rw [List.mapM_nil]; exact finishes_pure
  | cons x xs ih =>
    rw [List.forall_mem_cons] at h
    simp only [List.mapM_cons, finishes_bind, finishes_pure, implies_true, and_true]
    exact ⟨h.1, fun _ _ => ih h.2⟩

/-! ### Walks that end the same way -/

/-- The second walk ends the way the first does, if the first ends at all: with the same value, or
    with some fault. The faults may say different things, and the second may end where the first
    does not. -/
structure Follows (w w' : Walk α) : Prop where
  yields : ∀ {a}, w.Yields a → w'.Yields a
  fails : w.Fails → w'.Fails

namespace Follows

theorem refl (w : Walk α) : w.Follows w := ⟨id, id⟩

theorem throw {f f' : Fault} : (throw f : Walk α).Follows (throw f') where
  yields h := absurd h yields_throw
  fails _ := fails_throw

theorem exhausted (w : Walk α) : (exhausted : Walk α).Follows w where
  yields h := absurd h yields_exhausted
  fails h := absurd h not_fails_exhausted

theorem bind {w w' : Walk α} {f f' : α → Walk β} (hw : w.Follows w')
    (hf : ∀ a, (f a).Follows (f' a)) : (w >>= f).Follows (w' >>= f') where
  yields h := by
    obtain ⟨a, ha, hb⟩ := yields_bind.mp h
    exact yields_bind.mpr ⟨a, hw.yields ha, (hf a).yields hb⟩
  fails h := by
    rcases fails_bind.mp h with h | ⟨a, ha, hb⟩
    · exact fails_bind.mpr (Or.inl (hw.fails h))
    · exact fails_bind.mpr (Or.inr ⟨a, hw.yields ha, (hf a).fails hb⟩)

theorem succeeds {w w' : Walk α} (hw : w.Follows w') : w.succeeds.Follows w'.succeeds where
  yields {b} h := by
    cases b with
    | true =>
      obtain ⟨a, ha⟩ := yields_succeeds_true.mp h
      exact yields_succeeds_true.mpr ⟨a, hw.yields ha⟩
    | false => exact yields_succeeds_false.mpr (hw.fails (yields_succeeds_false.mp h))
  fails h := by
    unfold Walk.succeeds at h
    obtain ⟨o, -, h⟩ := (fails_bind.mp h).resolve_left not_fails_outcome
    cases o <;> simp at h

/-- A walk that goes on where another one failed. The two faults may differ, so the continuations
    are asked to follow each other for any two faults. -/
theorem orElse {w w' : Walk α} {f f' : Except Fault α → Walk β} (hw : w.Follows w')
    (hok : ∀ a, (f (.ok a)).Follows (f' (.ok a)))
    (herror : ∀ why why', (f (.error why)).Follows (f' (.error why'))) :
    (w.outcome >>= f).Follows (w'.outcome >>= f') := by
  -- The outcomes agree in being good or bad, which is all that the continuations look at.
  have step : ∀ {o}, w.run = some o →
      ∃ o', w'.run = some o' ∧ (f o).Follows (f' o') := by
    intro o ho
    cases o with
    | ok a => exact ⟨_, hw.yields ho, hok a⟩
    | error why =>
      obtain ⟨why', h'⟩ := hw.fails ⟨why, ho⟩
      exact ⟨_, h', herror why why'⟩
  -- From here on the proof is that of `bind`, once for yielding and once for failing.
  constructor
  · intro b h
    obtain ⟨o, ho, hb⟩ := yields_bind.mp h
    obtain ⟨o', ho', hf⟩ := step (yields_outcome.mp ho)
    exact yields_bind.mpr ⟨o', yields_outcome.mpr ho', hf.yields hb⟩
  · intro h
    obtain ⟨o, ho, hb⟩ := (fails_bind.mp h).resolve_left not_fails_outcome
    obtain ⟨o', ho', hf⟩ := step (yields_outcome.mp ho)
    exact fails_bind.mpr (Or.inr ⟨o', yields_outcome.mpr ho', hf.fails hb⟩)

theorem finishes {w w' : Walk α} (h : w.Follows w') (hw : w.Finishes) : w'.Finishes := by
  rcases finishes_iff.mp hw with hw | ⟨a, hw⟩
  · exact (h.fails hw).finishes
  · exact (h.yields hw).finishes

end Follows
end Walk

/-! ## Walks that keep the names of helpers -/

namespace HelperWalk

/-- The walk from the names `met` ends well, with `a`, and has met the names `met'` then. The names
    are threaded through in order, since which of two helpers is met first decides what it is. -/
def Yields (w : HelperWalk α) (met : List String) (a : α) (met' : List String) : Prop :=
  w.run.run met = some (.ok a, met')

/-- The walk from the names `met` ends, well or not. -/
def Finishes (w : HelperWalk α) (met : List String) : Prop := ∃ o, w.run.run met = some o

theorem Yields.unique {w : HelperWalk α} {met met₁ met₂ : List String} {a b : α}
    (ha : w.Yields met a met₁) (hb : w.Yields met b met₂) : a = b ∧ met₁ = met₂ := by
  unfold Yields at ha hb
  rw [ha] at hb
  simpa using hb

theorem Yields.finishes {w : HelperWalk α} {met met' : List String} {a : α}
    (h : w.Yields met a met') : w.Finishes met := ⟨_, h⟩

theorem run_bind (w : HelperWalk α) (f : α → HelperWalk β) (met : List String) :
    (w >>= f).run.run met = match w.run.run met with
      | none => none
      | some (.error why, met') => some (.error why, met')
      | some (.ok a, met') => (f a).run.run met' := by
  rw [ExceptT.run_bind, StateT.run_bind]
  rcases w.run.run met with _ | ⟨o, met'⟩
  · rfl
  · cases o <;> rfl

@[simp] theorem yields_bind {w : HelperWalk α} {f : α → HelperWalk β} {b : β}
    {met met'' : List String} :
    (w >>= f).Yields met b met'' ↔ ∃ a met', w.Yields met a met' ∧ (f a).Yields met' b met'' := by
  unfold Yields
  rw [run_bind]
  split <;> simp_all [and_assoc]

@[simp] theorem finishes_bind {w : HelperWalk α} {f : α → HelperWalk β} {met : List String} :
    (w >>= f).Finishes met ↔
      w.Finishes met ∧ ∀ a met', w.Yields met a met' → (f a).Finishes met' := by
  unfold Finishes Yields
  rw [run_bind]
  split <;> simp_all

@[simp] theorem yields_pure {a b : α} {met met' : List String} :
    (pure a : HelperWalk α).Yields met b met' ↔ a = b ∧ met = met' := by
  unfold Yields
  rw [ExceptT.run_pure, StateT.run_pure]
  simp

@[simp] theorem finishes_pure {a : α} {met : List String} :
    (pure a : HelperWalk α).Finishes met := ⟨_, rfl⟩

@[simp] theorem yields_map {w : HelperWalk α} {f : α → β} {b : β} {met met' : List String} :
    (f <$> w).Yields met b met' ↔ ∃ a, w.Yields met a met' ∧ f a = b := by
  rw [map_eq_pure_bind]
  simp only [yields_bind, yields_pure]
  constructor
  · intro h
    obtain ⟨a, met₁, ha, rfl, rfl⟩ := h
    exact ⟨a, ha, rfl⟩
  · intro h
    obtain ⟨a, ha, rfl⟩ := h
    exact ⟨a, met', ha, rfl, rfl⟩

@[simp] theorem finishes_map {w : HelperWalk α} {f : α → β} {met : List String} :
    (f <$> w).Finishes met ↔ w.Finishes met := by
  rw [map_eq_pure_bind]
  simp only [finishes_bind, finishes_pure, implies_true, and_true]

@[simp] theorem yields_ofWalk {w : Walk α} {a : α} {met met' : List String} :
    (ofWalk w).Yields met a met' ↔ w.Yields a ∧ met = met' := by
  unfold Yields ofWalk Walk.Yields
  rw [ExceptT.run_mk, StateT.run_lift]
  cases w.run <;> simp

@[simp] theorem finishes_ofWalk {w : Walk α} {met : List String} :
    (ofWalk w).Finishes met ↔ w.Finishes := by
  unfold Finishes ofWalk Walk.Finishes
  rw [ExceptT.run_mk, StateT.run_lift]
  cases w.run <;> simp

@[simp] theorem yields_liftM {w : Walk α} {a : α} {met met' : List String} :
    (liftM w : HelperWalk α).Yields met a met' ↔ w.Yields a ∧ met = met' := yields_ofWalk

@[simp] theorem finishes_liftM {w : Walk α} {met : List String} :
    (liftM w : HelperWalk α).Finishes met ↔ w.Finishes := finishes_ofWalk

@[simp] theorem yields_liftExcept {e : Except Fault α} {a : α} {met met' : List String} :
    (liftM e : HelperWalk α).Yields met a met' ↔ e = .ok a ∧ met = met' := by
  cases e with
  | error why => simp [Yields, liftM, monadLift, MonadLift.monadLift]
  | ok b =>
    show (pure b : HelperWalk α).Yields met a met' ↔ _
    rw [yields_pure, Except.ok.injEq]

@[simp] theorem finishes_liftExcept {e : Except Fault α} {met : List String} :
    (liftM e : HelperWalk α).Finishes met := by
  cases e with
  | error why => exact ⟨(.error why, met), rfl⟩
  | ok a => exact ⟨(.ok a, met), rfl⟩

@[simp] theorem yields_alone {w : HelperWalk α} {a : α} :
    w.alone.Yields a ↔ ∃ met, w.Yields [] a met := by
  unfold Walk.Yields Yields alone
  rw [ExceptT.run_mk]
  simp

/-- A name is met once: asking for it again changes nothing and says so. -/
theorem run_meet (name : String) (met : List String) :
    (meet name).run.run met =
      some (if name ∈ met then (.ok false, met) else (.ok true, name :: met)) := by
  have hc : met.contains name = decide (name ∈ met) := by simp
  show ((if met.contains name then (pure false : HelperWalk Bool)
    else (set (name :: met) : HelperWalk PUnit) >>= fun _ => pure true).run.run met) = _
  -- The membership test of the code is the Boolean one.
  rw [hc]
  by_cases h : name ∈ met
  · rw [decide_eq_true h, if_pos h]; rfl
  · rw [decide_eq_false h, if_neg h]; rfl

/-- A name is new if it is not among those that were met, and is met from then on. This is the only
    step of a walk that looks at the names or adds to them. -/
@[simp] theorem yields_meet {name : String} {isNew : Bool} {met met' : List String} :
    (meet name).Yields met isNew met' ↔
      (name ∈ met ∧ isNew = false ∧ met' = met) ∨
        (name ∉ met ∧ isNew = true ∧ met' = name :: met) := by
  rw [Yields, run_meet]
  by_cases h : name ∈ met
  · simp [h, eq_comm]
  · simp [h, eq_comm]

@[simp] theorem finishes_meet {name : String} {met : List String} :
    (meet name).Finishes met := ⟨_, run_meet name met⟩

instance (w : HelperWalk α) (met : List String) : Decidable (w.Finishes met) :=
  decidable_of_iff _ Option.isSome_iff_exists

instance (w : HelperWalk α) (met : List String) : Decidable (∃ a met', w.Yields met a met') :=
  match h : w.run.run met with
  | some (.ok a, met') => isTrue ⟨a, met', h⟩
  | some (.error _, _) => isFalse fun ⟨_, _, ha⟩ => by rw [Yields, h] at ha; simp at ha
  | none => isFalse fun ⟨_, _, ha⟩ => by rw [Yields, h] at ha; simp at ha

instance (w : HelperWalk α) (met : List String) (P : α → Prop) [DecidablePred P] :
    Decidable (∃ a met', w.Yields met a met' ∧ P a) :=
  match h : w.run.run met with
  | some (.ok a, met') =>
    decidable_of_iff (P a) ⟨fun hp => ⟨a, met', h, hp⟩, fun ⟨_, _, hb, hp⟩ =>
      (Yields.unique (show w.Yields met a met' from h) hb).1 ▸ hp⟩
  | some (.error _, _) => isFalse fun ⟨_, _, ha, _⟩ => by rw [Yields, h] at ha; simp at ha
  | none => isFalse fun ⟨_, _, ha, _⟩ => by rw [Yields, h] at ha; simp at ha

end HelperWalk
end Shapewright
