import Mathlib.Data.List.ProdSigma
import Shapewright.Compatibility
import Shapewright.Proofs.Chains
import Shapewright.Proofs.Positions

/-!
# Comparisons, their verdicts and their end

The verdict on two attributes depends neither on the paths that messages name nor on the steps a
comparison is given, once these suffice. They suffice unless a comparison asks, on its way, for the
very comparison it is part of: `compatible_finishes_iff` says that this is the only way not to end.

## What makes comparisons hard to reason about

A comparison of elements tries three things in turn: the elements as they are, the inside of a box
on the first side, and the inside of a box on the second. Each retry looks at whether the one before
it *failed*. So what a comparison asks for depends on other verdicts, and a verdict is a matter of
budgets; stated naively, the relation "asks for" would depend on the budget it is meant to bound.

Two notions untie this. `Walk.Follows` says that more steps and other paths never turn one verdict
into the other, so "some number of steps refuses the pair" (`Refuses`) is a property of the pair
alone, and no pair is both refused and accepted. With these, `Compares` lists what a comparison asks
for without a word about steps, and one level of the comparison ends exactly if all that is listed
does (`compatibleWithin_finishes_iff`). The rest is `ends_of_acyclic`.

Objects and unions are compared by their kind alone, which is why the relation has no case for
fields and alternatives: what is inside them is compared where code is built for it.
-/

namespace Shapewright

open Relation

/-- A source and a target: what is compared, or converted. -/
abbrev Pair := Attribute × Attribute

namespace Registry

variable {reg : Registry} {a b : Attribute} {p p' : Paths}

/-! ## Neither paths nor steps change a verdict -/

section Follows

variable {compare compare' : Attribute → Attribute → Paths → Walk Unit}

/-- Looking into a box asks only whether the comparison inside succeeds. -/
theorem insideBox_follows {box : Attribute} {f f' : Attribute → Walk Unit}
    (h : ∀ x, (f x).Follows (f' x)) : (reg.insideBox box f).Follows (reg.insideBox box f') := by
  unfold insideBox
  refine .bind (.refl _) fun inner => ?_
  cases inner with
  | none => exact .refl _
  | some inner => exact (h inner).succeeds

/-- The three tries for elements, with two comparisons in step: where the one goes on to the next
    try, so does the other. -/
theorem elementsVia_follows (h : ∀ a b p p', (compare a b p).Follows (compare' a b p')) :
    (reg.elementsVia compare a b p).Follows (reg.elementsVia compare' a b p') := by
  -- The faults of the plain comparisons differ in their paths, and what follows looks at neither.
  refine .orElse (h a b p p') (fun _ => .refl _) fun why why' => ?_
  refine .bind (insideBox_follows fun x => h x b p p') fun isFirst => ?_
  cases isFirst with
  | true => exact .refl _
  | false =>
    refine .bind (insideBox_follows fun x => h a x p p') fun isSecond => ?_
    cases isSecond with
    | true => exact .refl _
    | false => exact .throw

/-- One level of a comparison, for any two comparisons of what is below that are in step. The
    recursion on the budget is left to the caller, so the lemma serves comparisons of different
    depths. -/
theorem compatibleVia_follows (h : ∀ a b p p', (compare a b p).Follows (compare' a b p')) :
    (reg.compatibleVia compare a b p).Follows (reg.compatibleVia compare' a b p') := by
  unfold compatibleVia
  refine .bind (.refl _) fun ka => .bind (.refl _) fun kb => ?_
  dsimp only
  split
  · exact .refl _
  · split
    · split
      · exact .refl _
      · exact .throw
    · refine .bind (.refl _) fun x => .bind (.refl _) fun y => ?_
      split
      · exact elementsVia_follows h
      · exact .throw
    · refine .bind (.refl _) fun x => .bind (.refl _) fun y => ?_
      split
      · exact .bind (h _ _ _ _) fun _ => elementsVia_follows h
      · exact .throw
    · exact .refl _
    · exact .refl _
    · exact .throw

end Follows

/-- A comparison with more steps, under whatever paths, ends the way one with fewer steps does. The
    induction is on the smaller budget. -/
theorem compatibleWithin_follows : ∀ {n m : Nat}, n ≤ m → ∀ a b p p',
    (reg.compatibleWithin n a b p).Follows (reg.compatibleWithin m a b p') := by
  intro n
  induction n with
  | zero => intro m _ a b p p'; exact .exhausted _
  | succ n ih =>
    intro m hm a b p p'
    obtain ⟨m, rfl⟩ := Nat.exists_eq_succ_of_ne_zero (by omega : m ≠ 0)
    exact compatibleVia_follows fun a b p p' => ih (by omega) a b p p'

/-- Some number of steps accepts the pair. Which number does not matter, by
    `compatibleWithin_follows`. -/
def Accepts (reg : Registry) (q : Pair) : Prop :=
  ∃ n p, (reg.compatibleWithin n q.1 q.2 p).Yields ()

/-- Some number of steps refuses the pair. More steps than that refuse it as well, and paths make no
    difference. -/
def Refuses (reg : Registry) (q : Pair) : Prop :=
  ∃ n p, (reg.compatibleWithin n q.1 q.2 p).Fails

/-- No pair is accepted with one budget and refused with another. -/
theorem Accepts.not_refuses {q : Pair} (ha : reg.Accepts q) : ¬ reg.Refuses q := by
  obtain ⟨n, p, ha⟩ := ha
  intro h
  obtain ⟨m, p', hr⟩ := h
  -- The run with the greater number of steps would have both outcomes.
  have ha' := (compatibleWithin_follows (Nat.le_max_left n m) _ _ p p).yields ha
  exact ((compatibleWithin_follows (Nat.le_max_right n m) _ _ p' p).fails hr).not_yields ha'

theorem Accepts.yields {n : Nat} (ha : reg.Accepts (a, b))
    (hf : (reg.compatibleWithin n a b p).Finishes) : (reg.compatibleWithin n a b p).Yields () := by
  rcases Walk.finishes_iff.mp hf with hf | ⟨⟨⟩, hf⟩
  · exact absurd ⟨n, p, hf⟩ ha.not_refuses
  · exact hf

theorem Refuses.fails {n : Nat} (hr : reg.Refuses (a, b))
    (hf : (reg.compatibleWithin n a b p).Finishes) : (reg.compatibleWithin n a b p).Fails := by
  rcases Walk.finishes_iff.mp hf with hf | ⟨⟨⟩, hf⟩
  · exact hf
  · exact absurd hr (Accepts.not_refuses ⟨n, p, hf⟩)

/-- Paths do not change whether two attributes are compatible. -/
theorem compatible_follows (a b : Attribute) (p p' : Paths) :
    (reg.compatible a b p).Follows (reg.compatible a b p') :=
  compatibleWithin_follows (Nat.le_refl _) a b p p'

theorem compatible_yields_iff (p p' : Paths) :
    (reg.compatible a b p).Yields () ↔ (reg.compatible a b p').Yields () :=
  ⟨(compatible_follows a b p p').yields, (compatible_follows a b p' p).yields⟩

theorem compatible_fails_iff (p p' : Paths) :
    (reg.compatible a b p).Fails ↔ (reg.compatible a b p').Fails :=
  ⟨(compatible_follows a b p p').fails, (compatible_follows a b p' p).fails⟩

/-! ## What a comparison asks for -/

/-- What the comparison of two elements asks for: that of the elements themselves and, where that
    fails, that of the inside of a box, which is tried for the first element before the second. -/
inductive ComparesElements (reg : Registry) : Pair → Pair → Prop where
  | plain (q : Pair) : ComparesElements reg q q
  | first {x y inner : Attribute} (hr : reg.Refuses (x, y))
      (hx : reg.unbox? x = .ok (some inner)) : ComparesElements reg (x, y) (inner, y)
  | second {x y inner : Attribute} (hr : reg.Refuses (x, y))
      (hx : reg.unbox? x = .ok none ∨ ∃ i, reg.unbox? x = .ok (some i) ∧ reg.Refuses (i, y))
      (hy : reg.unbox? y = .ok (some inner)) : ComparesElements reg (x, y) (x, inner)

/-- The comparison of the first pair asks for that of the second. The elements of maps are compared
    once the keys are accepted; objects and unions ask for nothing. -/
inductive Compares (reg : Registry) : Pair → Pair → Prop where
  | element {a b x y : Attribute} {q : Pair} (ha : reg.elem? a = .ok (some x))
      (hb : reg.elem? b = .ok (some y)) (hq : reg.ComparesElements (x, y) q) :
      Compares reg (a, b) q
  | key {a b k x l y : Attribute} (ha : reg.entry? a = .ok (some (k, x)))
      (hb : reg.entry? b = .ok (some (l, y))) : Compares reg (a, b) (k, l)
  | entry {a b k x l y : Attribute} {q : Pair} (ha : reg.entry? a = .ok (some (k, x)))
      (hb : reg.entry? b = .ok (some (l, y))) (hk : reg.Accepts (k, l))
      (hq : reg.ComparesElements (x, y) q) : Compares reg (a, b) q

/-- The comparison of a pair asks, on its way, for one that it is part of. It need not be the pair
    itself that is met again. -/
def ComparesInCircles (reg : Registry) (q : Pair) : Prop :=
  ∃ r, ReflTransGen reg.Compares q r ∧ TransGen reg.Compares r r

/-! ## When a comparison ends -/

theorem insideBox_finishes_iff {box : Attribute} {f : Attribute → Walk Unit} :
    (reg.insideBox box f).Finishes ↔
      ∀ inner, reg.unbox? box = .ok (some inner) → (f inner).Finishes := by
  unfold insideBox
  simp only [Walk.finishes_bind, Walk.finishes_liftM, Walk.yields_liftM, true_and]
  constructor
  · intro h inner hi
    simpa using h _ hi
  · intro h o ho
    cases o with
    | none => simp
    | some inner => simpa using h inner ho

theorem insideBox_yields_false {box : Attribute} {f : Attribute → Walk Unit} :
    (reg.insideBox box f).Yields false ↔
      reg.unbox? box = .ok none ∨ ∃ inner, reg.unbox? box = .ok (some inner) ∧ (f inner).Fails := by
  unfold insideBox
  simp only [Walk.yields_bind, Walk.yields_liftM]
  constructor
  · intro h
    obtain ⟨o, ho, h⟩ := h
    cases o with
    | none => exact Or.inl ho
    | some inner => exact Or.inr ⟨inner, ho, by simpa using h⟩
  · intro h
    rcases h with ho | ⟨inner, ho, h⟩
    · exact ⟨none, ho, by simp⟩
    · exact ⟨some inner, ho, by simpa using h⟩

theorem compatibleWithin_finishes_congr {n : Nat} (p p' : Paths) :
    (reg.compatibleWithin n a b p).Finishes ↔ (reg.compatibleWithin n a b p').Finishes :=
  ⟨(compatibleWithin_follows (Nat.le_refl n) a b p p').finishes,
    (compatibleWithin_follows (Nat.le_refl n) a b p' p).finishes⟩

/-- The tries for elements end exactly if all comparisons do that they get to. The relation names a
    try only where those before it are refused, so this is an equivalence and not just a sufficient
    condition. -/
theorem elementsVia_finishes_iff {n : Nat} {x y : Attribute} :
    (reg.elementsVia (reg.compatibleWithin n) x y p).Finishes ↔
      ∀ q, reg.ComparesElements (x, y) q → (reg.compatibleWithin n q.1 q.2 p).Finishes := by
  unfold elementsVia
  simp only [Walk.finishes_bind, Walk.finishes_outcome, Walk.yields_outcome]
  constructor
  · rintro ⟨hplain, hrest⟩ q hq
    -- Where a box is tried, the plain comparison has failed.
    have hboxes : reg.Refuses (x, y) →
        (reg.insideBox x fun i => reg.compatibleWithin n i y p).Finishes ∧
        ((reg.insideBox x fun i => reg.compatibleWithin n i y p).Yields false →
          (reg.insideBox y fun i => reg.compatibleWithin n x i p).Finishes) := by
      intro hr
      obtain ⟨why, hwhy⟩ := hr.fails hplain
      have h := hrest _ hwhy
      simp only [Walk.finishes_bind] at h
      refine ⟨h.1, fun hf => ?_⟩
      have h := h.2 false hf
      simp only [Bool.false_eq_true, ↓reduceIte, Walk.finishes_bind] at h
      exact h.1
    cases hq with
    | plain => exact hplain
    | first hr hx => exact insideBox_finishes_iff.mp (hboxes hr).1 _ hx
    | second hr hx hy =>
      obtain ⟨hfirst, hsecond⟩ := hboxes hr
      refine insideBox_finishes_iff.mp (hsecond (insideBox_yields_false.mpr ?_)) _ hy
      rcases hx with hx | ⟨i, hi, hri⟩
      · exact Or.inl hx
      · exact Or.inr ⟨i, hi, hri.fails (insideBox_finishes_iff.mp hfirst i hi)⟩
  · intro h
    refine ⟨h _ (.plain _), fun o ho => ?_⟩
    cases o with
    -- The elements fit as they are, and nothing else is tried.
    | ok u => simp
    | error why =>
      have hr : reg.Refuses (x, y) := ⟨n, p, why, ho⟩
      simp only [Walk.finishes_bind]
      refine ⟨insideBox_finishes_iff.mpr fun i hi => h _ (.first hr hi), fun isFirst hfirst => ?_⟩
      cases isFirst with
      | true => simp
      | false =>
        have hx : reg.unbox? x = .ok none ∨
            ∃ i, reg.unbox? x = .ok (some i) ∧ reg.Refuses (i, y) := by
          rcases insideBox_yields_false.mp hfirst with hx | ⟨i, hi, hf⟩
          · exact Or.inl hx
          · exact Or.inr ⟨i, hi, n, p, hf⟩
        simp only [Bool.false_eq_true, ↓reduceIte, Walk.finishes_bind]
        refine ⟨insideBox_finishes_iff.mpr fun i hi => h _ (.second hr hx hi), fun isSecond _ => ?_⟩
        cases isSecond <;> simp

/-- A comparison ends if those do that it asks for, and only then. The case split is the one on the
    kinds of the two sides. -/
theorem compatibleWithin_finishes_iff {n : Nat} :
    (reg.compatibleWithin (n + 1) a b p).Finishes ↔
      ∀ q, reg.Compares (a, b) q → (reg.compatibleWithin n q.1 q.2 p).Finishes := by
  rw [compatibleWithin, compatibleVia]
  simp only [Walk.finishes_bind, Walk.finishes_liftM, Walk.yields_liftM, true_and]
  constructor
  · intro h q hq
    cases hq with
    | element ha hb hq =>
      have h := h _ (kind_of_elem ha) _ (kind_of_elem hb)
      simp only [reduceCtorEq, ↓reduceIte, Walk.finishes_bind, Walk.finishes_liftM,
        Walk.yields_liftM, true_and] at h
      have h := elementsVia_finishes_iff.mp (h _ ha _ hb) q hq
      exact (compatibleWithin_finishes_congr _ _).mp h
    | key ha hb =>
      have h := h _ (kind_of_entry ha) _ (kind_of_entry hb)
      simp only [reduceCtorEq, ↓reduceIte, Walk.finishes_bind, Walk.finishes_liftM,
        Walk.yields_liftM, true_and] at h
      have h := h _ ha _ hb
      simp only [Walk.finishes_bind] at h
      exact (compatibleWithin_finishes_congr _ _).mp h.1
    | entry ha hb hk hq =>
      have h := h _ (kind_of_entry ha) _ (kind_of_entry hb)
      simp only [reduceCtorEq, ↓reduceIte, Walk.finishes_bind, Walk.finishes_liftM,
        Walk.yields_liftM, true_and] at h
      have h := h _ ha _ hb
      simp only [Walk.finishes_bind] at h
      -- The elements are reached because the keys were accepted, by whatever number of steps.
      have h := elementsVia_finishes_iff.mp (h.2 () (hk.yields h.1)) q hq
      exact (compatibleWithin_finishes_congr _ _).mp h
  · intro h ka _ kb _
    split
    · simp
    · split
      · split <;> simp
      · simp only [Walk.finishes_bind, Walk.finishes_liftM, Walk.yields_liftM, true_and]
        intro x hx y hy
        split
        · refine elementsVia_finishes_iff.mpr fun q hq => ?_
          exact (compatibleWithin_finishes_congr _ _).mp (h q (.element hx hy hq))
        · simp
      · simp only [Walk.finishes_bind, Walk.finishes_liftM, Walk.yields_liftM, true_and]
        intro x hx y hy
        split
        · simp only [Walk.finishes_bind]
          refine ⟨(compatibleWithin_finishes_congr _ _).mp (h _ (.key hx hy)), fun _ hk => ?_⟩
          refine elementsVia_finishes_iff.mpr fun q hq => ?_
          exact (compatibleWithin_finishes_congr _ _).mp (h q (.entry hx hy ⟨n, _, hk⟩ hq))
        · simp
      · simp
      · simp
      · simp

/-- What a comparison asks for stands where the two sides stand, so there are finitely many such
    pairs. -/
theorem Compares.mem_standing {q r s : Pair} (h : reg.Compares q r)
    (hq : q.1 ∈ reg.standing s.1 ∧ q.2 ∈ reg.standing s.2) :
    r.1 ∈ reg.standing s.1 ∧ r.2 ∈ reg.standing s.2 := by
  have elements : ∀ {q r : Pair}, reg.ComparesElements q r →
      q.1 ∈ reg.standing s.1 ∧ q.2 ∈ reg.standing s.2 →
      r.1 ∈ reg.standing s.1 ∧ r.2 ∈ reg.standing s.2 := by
    intro q r h hq
    cases h with
    | plain => exact hq
    | first _ hx => exact ⟨unbox?_mem_standing hx hq.1, hq.2⟩
    | second _ _ hy => exact ⟨hq.1, unbox?_mem_standing hy hq.2⟩
  cases h with
  | element ha hb h =>
    exact elements h ⟨elem?_mem_standing ha hq.1, elem?_mem_standing hb hq.2⟩
  | key ha hb => exact ⟨(entry?_mem_standing ha hq.1).1, (entry?_mem_standing hb hq.2).1⟩
  | entry ha hb _ h =>
    exact elements h ⟨(entry?_mem_standing ha hq.1).2, (entry?_mem_standing hb hq.2).2⟩

/-- The pairs that a walk from a pair can meet, all of them. -/
def standingPairs (reg : Registry) (q : Pair) : List Pair :=
  reg.standing q.1 ×ˢ reg.standing q.2

theorem mem_standingPairs {q r : Pair} :
    r ∈ reg.standingPairs q ↔ r.1 ∈ reg.standing q.1 ∧ r.2 ∈ reg.standing q.2 :=
  List.mem_product

theorem length_standingPairs (reg : Registry) (q : Pair) :
    (reg.standingPairs q).length + 2 = reg.pairBudget q.1 q.2 := by
  rw [standingPairs, List.length_product, length_standing, length_standing, pairBudget]

/-- A comparison that ends is nowhere in a circle, whatever its budget was. -/
theorem acc_of_compatibleWithin_finishes : ∀ {n : Nat} {q : Pair},
    (reg.compatibleWithin n q.1 q.2 p).Finishes → Acc (fun s r => reg.Compares r s) q := by
  intro n
  induction n with
  | zero => intro q h; exact absurd h Walk.finishes_exhausted
  | succ n ih =>
    intro q h
    exact Acc.intro q fun r hr => ih (compatibleWithin_finishes_iff.mp h r hr)

/-- The steps that a comparison is given suffice unless it goes in circles. In circles it has no end
    for any number of steps. -/
theorem compatible_finishes_iff :
    (reg.compatible a b p).Finishes ↔ ¬ reg.ComparesInCircles (a, b) := by
  constructor
  · rintro h ⟨r, hr, hround⟩
    have hacc : Acc (fun s r => reg.Compares r s) (a, b) := acc_of_compatibleWithin_finishes h
    exact not_transGen_self_of_acc (acc_of_reaches hacc hr) hround
  · intro h
    have hends : ∀ n, (reg.standingPairs (a, b)).length ≤ n →
        (reg.compatibleWithin n a b p).Finishes := by
      refine ends_of_acyclic (R := reg.Compares)
        (fun n q => (reg.compatibleWithin n q.1 q.2 p).Finishes) (a, b) ?_ ?_ ?_ ?_
      · exact mem_standingPairs.mpr ⟨reg.mem_standing_self a, reg.mem_standing_self b⟩
      · intro q r hq hqr
        exact mem_standingPairs.mpr (hqr.mem_standing (mem_standingPairs.mp hq))
      · exact fun r hr hround => h ⟨r, hr, hround⟩
      · exact fun n q _ hq => compatibleWithin_finishes_iff.mpr hq
    exact hends _ (Nat.le.intro (reg.length_standingPairs (a, b)))

theorem compatible_finishes_congr (p p' : Paths) :
    (reg.compatible a b p).Finishes ↔ (reg.compatible a b p').Finishes :=
  compatible_finishes_iff.trans compatible_finishes_iff.symm

/-- The second side of a comparison that succeeds has a kind, so no reference in front of it is
    lost. -/
theorem kind_of_compatible (h : (reg.compatible a b p).Yields ()) : ∃ k, reg.kind b = .ok k := by
  unfold compatible at h
  rw [pairBudget, compatibleWithin, compatibleVia] at h
  simp only [Walk.yields_bind, Walk.yields_liftM] at h
  obtain ⟨_, -, k, hk, -⟩ := h
  exact ⟨k, hk⟩

/-- Primitives of different kinds are compatible only if the target takes anything. So a conversion
    between two different kinds has `any` for its target, and that one needs no conversion at
    all. -/
theorem primitive_of_compatible (h : (reg.compatible a b p).Yields ()) {x y : Primitive}
    (ha : reg.kind a = .ok (.primitive x)) (hb : reg.kind b = .ok (.primitive y)) :
    y = .any ∨ x = y := by
  unfold compatible at h
  rw [pairBudget, compatibleWithin, compatibleVia] at h
  simp only [Walk.yields_bind, Walk.yields_liftM] at h
  obtain ⟨ka, hka, kb, hkb, h⟩ := h
  obtain rfl := Except.ok.inj (ha.symm.trans hka)
  obtain rfl := Except.ok.inj (hb.symm.trans hkb)
  by_cases hany : y = .any
  · exact Or.inl hany
  · rw [if_neg (by simpa using hany)] at h
    by_cases hxy : x = y
    · exact Or.inr hxy
    · simp [hxy] at h

theorem compatible_of_unions (ha : reg.kind a = .ok .union) (hb : reg.kind b = .ok .union) :
    (reg.compatible a b p).Yields () := by
  unfold compatible
  rw [pairBudget, compatibleWithin, compatibleVia]
  simp only [Walk.yields_bind, Walk.yields_liftM]
  exact ⟨_, ha, _, hb, by simp⟩

/-- Two objects are compatible whatever their fields are; the same holds of two unions above. -/
theorem compatible_of_objects (ha : reg.kind a = .ok .object) (hb : reg.kind b = .ok .object) :
    (reg.compatible a b p).Yields () := by
  unfold compatible
  rw [pairBudget, compatibleWithin, compatibleVia]
  simp only [Walk.yields_bind, Walk.yields_liftM]
  exact ⟨_, ha, _, hb, by simp⟩

end Registry
end Shapewright
