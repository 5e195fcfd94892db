import Mathlib.Data.Finset.Card
import Mathlib.Data.Finset.SDiff
import Shapewright.Proofs.Conversion.Stability

/-!
# When a request comes to an end

Cyclic types are cut where a helper is called, which takes a named type on both sides. Code in place
goes on below everything else. So a conversion without end is one that has itself in place, or that
asks for a comparison without end (`Circular`). Requests that lead to no such conversion end, and
requests that do lead to one never succeed.

## The measure of the search

Building code in place ends because no pair is in place inside itself, and there are finitely many
pairs (`Straight.inline`). The search for helpers has more to do, since a pair that was gone through
may be met again below a helper with a new name. Its measure is lexicographic: first the names that
can still be met (`unmet`), and within one name the pairs that can still be gone through in place. A
new name starts another round over the pairs (`Straight.collectMembers`).

Levels are not part of any statement. The emitter and the search get as many as the pairs of the
request can take, and the two lemmas say that these suffice.

## The converse

A request that succeeds has built everything it leads to, be it in place or as the body of a helper
(`built_of_reaches`). Code is finite, so what was built is not in place inside itself
(`acc_of_yields`). Here the names have to tell pairs apart. Otherwise a pair could hide behind the
helper of another, and its circle would never be walked.

That registries are free of such circles cannot be seen from references alone, as the last section
shows: two types refer to themselves only through fields, and yet their conversion never ends.
-/

namespace Shapewright
namespace Conversion

open Relation

variable {c : Conversion} {s : Site} {p q root : Pair} {met met' : List String} {name : String}
  {α : Type}

/-- Nothing that the conversion leads to goes in circles. It is asked of all pairs, since those
    behind a helper are converted as well. -/
def Straight (c : Conversion) (p : Pair) : Prop := ∀ q, c.Reaches p q → ¬ c.Circular q

theorem Straight.of_reaches (h : c.Straight p) (hq : c.Reaches p q) : c.Straight q :=
  fun _ hr => h _ (hq.trans hr)

/-! ## Comparisons and code in place -/

theorem Straight.asks (h : c.Straight p) (hq : c.Reaches p q) {r : Pair} (hr : c.Asks q r) :
    (c.registry.compatible r.1 r.2 {}).Finishes :=
  Registry.compatible_finishes_iff.mpr fun hround => h q hq (Or.inr ⟨r, hr, hround⟩)

/-- Building code in place ends, as no pair is in place inside itself. Positions in place go down
    with the pairs, and pairs without circles are well-founded among the finitely many that are
    reached. -/
theorem Straight.inline (h : c.Straight s.pair) : (c.inline s).Finishes := by
  -- The number of pairs bounds the levels, so the claim is made for all numbers from there on.
  have hends : ∀ n, (c.registry.standingPairs s.pair).length ≤ n →
      ∀ t : Site, t.pair = s.pair → (c.attrWithin n t).Finishes := by
    refine ends_of_acyclic (R := c.Unfolds)
      (fun n q => ∀ t : Site, t.pair = q → (c.attrWithin n t).Finishes) s.pair ?_ ?_ ?_ ?_
    · exact Reaches.mem_standing .refl
    · exact fun q r hq hqr => hqr.nested.mem_standing hq
    · exact fun q hq hround => h q (reaches_of_unfolds hq) (Or.inl hround)
    · rintro n q hq hbelow t rfl
      have hreached : c.Reaches s.pair t.pair := reaches_of_unfolds hq
      refine attrVia_finishes (fun r => h.asks hreached) (fun r hr => ?_) fun u hu => ?_
      · exact h.asks (hreached.tail hr) .plain
      · exact hbelow u.pair hu.unfolds u rfl
  exact hends _ (Nat.le.intro (c.registry.length_standingPairs s.pair)) s rfl

/-- The code of a helper is code in place, for the position where it was met. -/
theorem Straight.helper {x : HelperSite} (h : c.Straight x.pair) : (c.helper name x).Finishes := by
  have hinline : (c.inline x.inner).Finishes := Straight.inline (s := x.inner) h
  unfold Conversion.helper
  simp only [Walk.finishes_bind, Walk.finishes_liftM, Walk.finishes_pure, implies_true, and_true,
    true_and]
  exact fun _ _ _ _ => hinline

/-! ## The search -/

/-- The names that helpers below `root` can have. Pairs without a helper have none. -/
def helperNames (c : Conversion) (root : Pair) : List String :=
  (c.registry.standingPairs root).filterMap fun q => (c.helperName q.1 q.2).toOption

/-- How many of them were not met. Sets are compared here, as two pairs may share a name. -/
def unmet (c : Conversion) (root : Pair) (met : List String) : Nat :=
  ((c.helperNames root).toFinset \ met.toFinset).card

theorem unmet_le (c : Conversion) (root : Pair) (met : List String) :
    c.unmet root met ≤ (c.registry.standingPairs root).length := by
  calc c.unmet root met ≤ (c.helperNames root).toFinset.card :=
        Finset.card_le_card Finset.sdiff_subset
    _ ≤ (c.helperNames root).length := List.toFinset_card_le _
    _ ≤ (c.registry.standingPairs root).length := List.length_filterMap_le _ _

theorem unmet_mono (h : met ⊆ met') : c.unmet root met' ≤ c.unmet root met := by
  refine Finset.card_le_card (Finset.sdiff_subset_sdiff (Finset.Subset.refl _) ?_)
  intro n hn
  rw [List.mem_toFinset] at hn ⊢
  exact h hn

/-- Meeting a helper below `root` leaves fewer names. This is the step that makes the measure
    smaller. -/
theorem unmet_cons_lt (hq : c.Reaches root q) (hd : c.helperName q.1 q.2 = .ok name)
    (hm : name ∉ met) : c.unmet root (name :: met) < c.unmet root met := by
  have hname : name ∈ c.helperNames root :=
    List.mem_filterMap.mpr ⟨q, hq.mem_standing, by rw [hd]; rfl⟩
  refine Finset.card_lt_card (Finset.ssubset_iff_of_subset ?_ |>.mpr ⟨name, ?_, ?_⟩)
  · refine Finset.sdiff_subset_sdiff (Finset.Subset.refl _) fun n hn => ?_
    rw [List.mem_toFinset] at hn ⊢
    exact List.mem_cons_of_mem _ hn
  · simp [hname, hm]
  · simp

/-- Names that were met stay met. -/
theorem collectWithin_subset {make : String → HelperSite → Walk α} {levels : Nat} {x : HelperSite}
    {made : List α} (h : (c.collectWithin make levels x).Yields met made met') : met ⊆ met' := by
  obtain ⟨found, hfound, -⟩ := collectWithin_factors c make levels x met made met' h
  exact (collectWithin_keeps c x.pair levels x met found met' .refl hfound).1.subset

/-- Positions are gone through one after another, and names are handed on. So the search must end
    from any names that the positions before can have led to, which is what `P` stands for. -/
theorem collectAll_finishes {collect : HelperSite → HelperWalk (List α)} {P : List String → Prop}
    (hkeeps : ∀ x met made met', (collect x).Yields met made met' → P met → P met') :
    ∀ {sites : List HelperSite} {met : List String},
      (∀ x ∈ sites, ∀ met, P met → (collect x).Finishes met) → P met →
      (collectAll collect sites).Finishes met := by
  intro sites
  induction sites with
  | nil => intro met _ _; exact HelperWalk.finishes_pure
  | cons x rest ih =>
    intro met hends hm
    rw [List.forall_mem_cons] at hends
    rw [collectAll]
    simp only [HelperWalk.finishes_bind, HelperWalk.finishes_pure, implies_true, and_true]
    exact ⟨hends.1 met hm, fun made met' hmade => ih hends.2 (hkeeps x met made met' hmade hm)⟩

/-- The search below a pair ends if it does at each position, and positions keep what it takes. The
    property `P` stands for what the set of names is known to satisfy, so that members can be gone
    through one after another. -/
theorem collectMembers_finishes {collect : HelperSite → HelperWalk (List α)}
    {P : List String → Prop}
    (hkeeps : ∀ x met made met', (collect x).Yields met made met' → P met → P met')
    (hask : ∀ r, c.Asks p r → (c.registry.compatible r.1 r.2 {}).Finishes)
    (hends : ∀ inner x, c.NestedVia p inner x → ∀ met, P met → (collect x).Finishes met)
    (hm : P met) : (c.collectMembers collect p.1 p.2).Finishes met := by
  unfold collectMembers
  simp only [HelperWalk.finishes_bind, HelperWalk.finishes_liftM, HelperWalk.yields_liftM,
    HelperWalk.finishes_liftExcept, HelperWalk.yields_liftExcept, true_and]
  refine ⟨reconcile_finishes_iff.mpr hask, ?_⟩
  rintro inner _ ⟨hinner, rfl⟩ sites _ ⟨hsites, rfl⟩
  refine collectAll_finishes hkeeps (fun x hx => ?_) hm
  exact hends inner x ⟨hinner, member_of_mem_members hsites hx⟩

/-- The search at a position ends if it does below, where a new helper may have been met. There are
    two ways on, below a helper that is new and below a pair in place, and each has its own reason
    to end. -/
theorem collectWithin_finishes {make : String → HelperSite → Walk α} {n : Nat} {x : HelperSite}
    (hcompare : (c.registry.compatible x.source x.target {}).Finishes)
    (hmake : ∀ name, (make name x).Finishes)
    (hnew : ∀ name, c.helperName x.source x.target = .ok name → name ∉ met →
      (c.collectMembers (c.collectWithin make n) x.source x.target).Finishes (name :: met))
    (hinPlace : (c.callsHelper x.source x.target).Yields false →
      (c.collectMembers (c.collectWithin make n) x.source x.target).Finishes met) :
    (c.collectWithin make (n + 1) x).Finishes met := by
  rw [collectWithin]
  simp only [HelperWalk.finishes_bind, HelperWalk.finishes_liftM, HelperWalk.yields_liftM]
  refine ⟨callsHelper_finishes (p := x.pair) hcompare, ?_⟩
  rintro calls _ ⟨hcalls, rfl⟩
  cases calls with
  | true =>
    simp only [↓reduceIte, HelperWalk.finishes_bind, HelperWalk.finishes_liftExcept,
      HelperWalk.yields_liftExcept, HelperWalk.finishes_meet, HelperWalk.yields_meet, true_and]
    -- A name that was met before stops the search at this position; a new one is met from here on.
    rintro name _ ⟨hname, rfl⟩ isNew _ (⟨hm, rfl, rfl⟩ | ⟨hm, rfl, rfl⟩)
    · exact HelperWalk.finishes_pure
    · simp only [↓reduceIte, HelperWalk.finishes_bind, HelperWalk.finishes_liftM,
        HelperWalk.yields_liftM, HelperWalk.finishes_pure, implies_true, and_true]
      refine ⟨hmake name, ?_⟩
      rintro made _ ⟨-, rfl⟩
      exact hnew name hname hm
  | false => exact hinPlace hcalls

/-- The search below a pair ends within one round over the pairs for each name that can still be
    met, and one more. -/
theorem Straight.collectMembers {make : String → HelperSite → Walk α} (h : c.Straight root)
    (hmake : ∀ name x, c.Reaches root x.pair → (make name x).Finishes) :
    ∀ k p n met, c.Reaches root p → c.unmet root met ≤ k →
      k * ((c.registry.standingPairs root).length + 1) +
        (c.registry.standingPairs root).length ≤ n →
      (c.collectMembers (c.collectWithin make n) p.1 p.2).Finishes met := by
  generalize hU : c.registry.standingPairs root = U
  intro k
  induction k using Nat.strongRecOn with
  | ind k ihk =>
    -- Within one name, the pairs gone through in place are all different.
    have inPlace : ∀ p, c.Reaches root p → ∀ m, U.length ≤ m → ∀ met, c.unmet root met ≤ k →
        (c.collectMembers (c.collectWithin make (k * (U.length + 1) + m)) p.1 p.2).Finishes
          met := by
      intro p hp
      refine ends_of_acyclic (R := c.Unfolds) (fun m q => ∀ met, c.unmet root met ≤ k →
        (c.collectMembers (c.collectWithin make (k * (U.length + 1) + m)) q.1 q.2).Finishes met)
        p ?_ ?_ ?_ ?_
      · exact hU ▸ hp.mem_standing
      · exact fun q r hq hqr => hU ▸ hqr.nested.mem_standing (hU ▸ hq)
      · exact fun q hq hround => h q (hp.trans (reaches_of_unfolds hq)) (Or.inl hround)
      · intro m q hq hbelow met hmet
        have hreached : c.Reaches root q := hp.trans (reaches_of_unfolds hq)
        refine collectMembers_finishes (P := fun met => c.unmet root met ≤ k)
          (fun x met made met' hmade hm => (unmet_mono (collectWithin_subset hmade)).trans hm)
          (fun r => h.asks hreached) (fun inner x hvia met hmet => ?_) hmet
        have hxreached : c.Reaches root x.pair := hreached.tail ⟨inner, x.required, hvia⟩
        have hcompare : (c.registry.compatible x.source x.target {}).Finishes :=
          h.asks hxreached (r := x.pair) .plain
        refine collectWithin_finishes (n := k * (U.length + 1) + m) hcompare
          (fun name => hmake name x hxreached) (fun name hname hm => ?_) fun hcalls => ?_
        · -- A new name starts another round, and is one less to be met.
          have hlt := unmet_cons_lt (q := x.pair) hxreached hname hm
          obtain ⟨k', rfl⟩ : ∃ k', k = k' + 1 := Nat.exists_eq_succ_of_ne_zero (by omega)
          refine ihk k' (Nat.lt_succ_self k') x.pair _ _ hxreached (by omega) ?_
          rw [Nat.succ_mul]
          omega
        · exact hbelow x.pair ⟨inner, x.required, hvia, Or.inl hcalls⟩ met hmet
    intro p n met hp hmet hn
    obtain ⟨m, rfl⟩ := Nat.exists_eq_add_of_le ((Nat.le_add_right _ _).trans hn)
    exact inPlace p hp m (by omega) met hmet

/-- The search ends, whatever is made of the helpers, if making it does. -/
theorem Straight.collect {make : String → HelperSite → Walk α} (h : c.Straight p)
    (hmake : ∀ name x, c.Reaches p x.pair → (make name x).Finishes) (met : List String) :
    (c.collect make p.1 p.2).Finishes met := by
  refine h.collectMembers hmake _ p _ met .refl (unmet_le c p met) ?_
  rw [searchBudget, ← c.registry.length_standingPairs p, ← Nat.mul_succ]
  exact Nat.mul_le_mul_right _ (Nat.le_add_right _ 2)

/-- A whole request ends: its own code, the search for the helpers that it needs, and the code of
    each of them. It does not matter which helpers were met before. -/
theorem Straight.compile (h : c.Straight s.pair) (met : List String) :
    (c.compile s).Finishes met := by
  have hcollect : (c.collect c.helper s.source s.target).Finishes met :=
    Straight.collect (p := s.pair) h (fun name x hx => Straight.helper (h.of_reaches hx)) met
  unfold Conversion.compile helpers
  simp only [HelperWalk.finishes_bind, HelperWalk.finishes_liftM, HelperWalk.yields_liftM,
    HelperWalk.finishes_pure, implies_true, and_true]
  refine ⟨h.inline, ?_⟩
  rintro body _ ⟨-, rfl⟩
  exact hcollect

/-! ## Requests that never succeed -/

/-- Code that was built in place does not contain itself. Induction on the levels serves for this,
    as each level of code takes one off. -/
theorem acc_of_yields : ∀ {levels : Nat} {s : Site} {code : Block},
    (c.attrWithin levels s).Yields code → Acc (fun r q => c.Unfolds q r) s.pair := by
  intro levels
  induction levels with
  | zero => intro s code h; exact absurd h Walk.yields_exhausted
  | succ levels ih =>
    intro s code h
    refine Acc.intro _ fun q hq => ?_
    rcases attrVia_inPlace h hq with hp | ⟨t, code', rfl, -, hcode'⟩
    · exact Acc.intro _ fun r hr => absurd hr.nested (not_nested_of_isPrimitive hp)
    · exact ih hcode'

/-- Code in place was built for the pair, at some site. Which site it was is of no account, since
    the pair settles what else is in place. -/
def Built (c : Conversion) (p : Pair) : Prop :=
  ∃ levels s code, s.pair = p ∧ (c.attrWithin levels s).Yields code

theorem Built.acc (h : c.Built p) : Acc (fun r q => c.Unfolds q r) p := by
  obtain ⟨levels, s, code, rfl, hcode⟩ := h
  exact acc_of_yields hcode

/-- All that is in place in code was built too, or is a primitive, which needs no building. -/
theorem Built.unfolds (h : c.Built p) (hq : c.Unfolds p q) :
    c.registry.isPrimitive q.1 = .ok true ∨ c.Built q := by
  obtain ⟨levels, s, code, rfl, hcode⟩ := h
  cases levels with
  | zero => exact absurd hcode Walk.yields_exhausted
  | succ levels =>
    refine (attrVia_inPlace hcode hq).imp id ?_
    rintro ⟨t, code', ht, -, hcode'⟩
    exact ⟨levels, t, code', ht, hcode'⟩

/-- If a request succeeds, code was built for all that it leads to: that of a pair behind a helper
    as the body of the helper. Primitives alone may need no code of their own. -/
theorem built_of_reaches {found : List Finding} {helpers : List Helper}
    (hn : c.NamesApart p) (hfound : (c.collect note p.1 p.2).Yields [] found met')
    (hmade : MadeOf c.helper found helpers) (hp : c.Built p) (hq : c.Reaches p q) :
    c.registry.isPrimitive q.1 = .ok true ∨ c.Built q := by
  induction hq with
  | refl => exact Or.inr hp
  | @tail q r hpq hqr ih =>
    have hbuilt : c.Built q := ih.resolve_left fun h => not_nested_of_isPrimitive h hqr
    cases (expanded_of_reaches hn hfound hpq).nested _ hqr with
    | helper hd hm =>
      obtain ⟨x, hx, halike, -⟩ :=
        (collect_finds hfound).1.expanded_of_delegates hn (hpq.tail hqr) hd hm
      obtain ⟨h, -, hyields⟩ := forall₂_mem_left hmade hx
      obtain ⟨_, _, code, -, -, hcode, -⟩ := helper_yields.mp hyields
      -- The body of the helper was built for `x`, which names the same types as `r`.
      have hsame : c.inline x.inner = c.inline (HelperSite.mk r.1 r.2 x.required).inner :=
        Alike.inner_eq (y := ⟨r.1, r.2, x.required⟩) halike
          ((collect_finds hfound).1.delegates _ hx).compatible
      exact Or.inr ⟨_, (HelperSite.mk r.1 r.2 x.required).inner, code, rfl, hsame ▸ hcode⟩
    | inPlace hf _ _ =>
      -- Without a helper, the code of `r` is in that of `q`.
      obtain ⟨inner, required, hvia⟩ := hqr
      exact hbuilt.unfolds ⟨inner, required, hvia, Or.inl hf⟩

/-- Nothing that a request leads to is in place inside itself, if the request succeeds. -/
theorem acc_of_reaches_of_made {found : List Finding} {helpers : List Helper}
    (hn : c.NamesApart p) (hfound : (c.collect note p.1 p.2).Yields [] found met')
    (hmade : MadeOf c.helper found helpers) (hp : c.Built p) (hq : c.Reaches p q) :
    Acc (fun r q => c.Unfolds q r) q := by
  rcases built_of_reaches hn hfound hmade hp hq with h | h
  · exact Acc.intro _ fun r hr => absurd hr.nested (not_nested_of_isPrimitive h)
  · exact h.acc

/-- A request ends if nothing that it leads to goes in circles. If names tell the pairs apart that
    it leads to, this is necessary for it to succeed. Circles through helpers are none: a helper is
    entered once, so only what is converted in place counts (`Straight`). -/
theorem compile_finishes (c : Conversion) (s : Site) :
    (c.Straight s.pair → ∀ met, (c.compile s).Finishes met) ∧
      (c.NamesApart s.pair →
        ∀ out met', (c.compile s).Yields [] out met' → c.Straight s.pair) := by
  constructor
  · exact fun h met => h.compile met
  · intro hn out met' h q hq
    obtain ⟨hbody, made, hmade, -⟩ := compile_yields.mp h
    obtain ⟨found, hfound, hmadeOf⟩ := collect_factors (p := s.pair) hmade
    intro h
    -- A circle can be of two kinds: in place, or in a comparison that is asked for. The first
    -- contradicts that code was built, the second that the comparison came to an end.
    rcases h with hround | ⟨r, hr, hround⟩
    · have hacc := acc_of_reaches_of_made hn hfound hmadeOf ⟨_, s, _, rfl, hbody⟩ hq
      exact not_transGen_self_of_acc hacc hround
    · obtain ⟨inner, hinner⟩ := (expanded_of_reaches hn hfound hq).reconciled
      have hends := reconcile_finishes_iff.mp hinner.finishes r hr
      exact Registry.compatible_finishes_iff.mp hends hround

/-- A list of nodes, whose type holds itself. That the request succeeds from no helpers says that
    nothing below it goes in circles, and so it ends whatever helpers were met before. -/
theorem compile_finishes_node : nodeConversion.Straight (nodeHolder, nodeHolder) ∧
    ∀ met, (nodeConversion.compile (.between nodeHolder nodeHolder "v" "res")).Finishes met := by
  have hn : nodeConversion.NamesApart (nodeHolder, nodeHolder) := namesApart_of_singleton rfl _
  obtain ⟨out, met', h⟩ : ∃ out met',
      (nodeConversion.compile (.between nodeHolder nodeHolder "v" "res")).Yields [] out met' := by
    decide +kernel
  obtain ⟨hends, hstraight⟩ :=
    compile_finishes nodeConversion (.between nodeHolder nodeHolder "v" "res")
  have hs : nodeConversion.Straight (nodeHolder, nodeHolder) := hstraight hn out met' h
  exact ⟨hs, hends hs⟩

/-! ## Fields do not make a request end

A type that refers to itself through a field is cut off where a helper is called. Where two such
types are out of step, each of them meets an object without a name on the other side, and no helper
is ever called.
-/

/-- What the two attributes convert are objects that share one field, the pair `q`, which is
    structured and has no helper. -/
structure Single (c : Conversion) (p q : Pair) : Prop where
  views : ∃ v w name, ObjectView.of? c.registry p.1 = .ok (some v) ∧
    ObjectView.of? c.registry p.2 = .ok (some w) ∧ matchFields v w = [⟨name, q.1, q.2⟩] ∧
    (∃ isPointer, c.source.holdsPointer c.registry q.1 (v.requires name) = .ok isPointer) ∧
    ∃ isPointer, c.target.holdsPointer c.registry q.2 (w.requires name) = .ok isPointer
  compatible : (c.registry.compatible p.1 p.2 {}).Yields ()
  type : ∃ type, c.targetRef p.2 = .ok type
  source : c.registry.isPrimitive q.1 = .ok false
  target : c.registry.isPrimitive q.2 = .ok false
  inPlace : (c.callsHelper q.1 q.2).Yields false

/-- The code of an object ends only if that of its one field does. The hypotheses of `Single` are
    all that the emitter looks at before it comes to the field. -/
theorem Single.ends {emit : Emit} (hq : c.Single s.pair q) (h : (c.attrVia emit s).Finishes) :
    ∃ t, t.pair = q ∧ (emit t).Finishes := by
  obtain ⟨v, w, name, hv, hw, hm, ⟨sourcePointer, hs⟩, ⟨targetPointer, ht⟩⟩ := hq.views
  obtain ⟨type, htype⟩ := hq.type
  obtain ⟨f, hf, hsource, htarget, hp⟩ : ∃ f, (c.fieldSite s v w ⟨name, q.1, q.2⟩).Yields f ∧
      f.source = q.1 ∧ f.target = q.2 ∧ f.isPrimitive = false := by
    unfold fieldSite
    simp [hq.source, hq.target, hs, ht, FieldSite.isPrimitive]
  have hobject : (c.object emit s).Finishes := by
    unfold attrVia at h
    rw [Walk.finishes_bind] at h
    have h := h.2 (.ok ()) (Walk.yields_outcome.mpr (compatible_yields.mpr hq.compatible))
    unfold byKind at h
    simp only [Walk.finishes_bind, Walk.yields_liftM] at h
    exact (h.2 _ (Registry.kind_of_view hv)).2 _ (Registry.kind_of_view hw)
  have hlater : (c.laterFields emit s.depth [f]).Finishes := by
    unfold object at hobject
    simp only [Walk.finishes_bind, Walk.yields_liftM] at hobject
    have h := hobject.2 _ hv
    simp only [Walk.finishes_bind, Walk.yields_liftM] at h
    have h := h.2 _ hw
    simp only [Walk.finishes_bind, Walk.yields_liftM, Walk.yields_mapM, hm] at h
    -- The only field is structured, so there is no code of primitive fields.
    have h := (h.2 [f] (.cons hf .nil)).2 {} (by simp [hp]; rfl)
    exact (h.2 type htype).1
  have hnested : (c.nested emit (f.site s.depth)).Finishes := by
    rw [laterFields, Walk.finishes_bind, laterValue, hp] at hlater
    have h := hlater.1
    simp only [Bool.false_eq_true, ↓reduceIte, structuredField, Walk.finishes_bind] at h
    exact h.1
  have hpair : (f.site s.depth).pair = q := by rw [Site.pair, FieldSite.site, hsource, htarget]
  refine ⟨f.site s.depth, hpair, ?_⟩
  unfold Conversion.nested at hnested
  rw [Walk.finishes_bind] at hnested
  refine hnested.2 false ?_
  rw [FieldSite.site, hsource, htarget]
  exact hq.inPlace

/-- Two pairs that are each the one field of the other have no end. Whatever levels are granted,
    they are used up. -/
theorem Single.endless (hpq : c.Single p q) (hqp : c.Single q p) : ∀ levels s,
    s.pair = p ∨ s.pair = q → ¬ (c.attrWithin levels s).Finishes := by
  intro levels
  -- Each level needs the one below at the other pair, and there is none below the last.
  induction levels with
  | zero => exact fun _ _ => Walk.finishes_exhausted
  | succ levels ih =>
    rintro s (rfl | rfl) h
    · obtain ⟨t, ht, hends⟩ := hpq.ends h
      exact ih t (Or.inr ht) hends
    · obtain ⟨t, ht, hends⟩ := hqp.ends h
      exact ih t (Or.inl ht) hends

/-- The first attribute refers to the second with no field of an object between them. Circles of
    this kind are the ones that a comparison of types can be caught in. -/
inductive Refers (reg : Registry) : Attribute → Attribute → Prop where
  | named {a : Attribute} {id : TypeId} {t : UserType} (ha : a.type = .user id)
      (ht : reg.find? id = some t) : Refers reg a t.definition
  | inside {a b : Attribute} (ha : ∀ fields, a.type ≠ .object fields) (hb : b ∈ a.children) :
      Refers reg a b

/-- Where every type is an object, references alone end at an object. No reference leads on from an
    object, so a chain of references has length one. -/
theorem acc_refers {reg : Registry}
    (h : ∀ t ∈ reg.types, ∃ fields, t.definition.type = .object fields) (a : Attribute) :
    Acc (fun b a => Refers reg a b) a := by
  -- A reference leads to an object at once, and all else has parts that are smaller.
  have object : ∀ {a : Attribute}, (∃ fields, a.type = .object fields) →
      Acc (fun b a => Refers reg a b) a := by
    rintro a ⟨fields, hf⟩
    refine Acc.intro _ fun b hb => ?_
    cases hb with
    | named ha => rw [hf] at ha; cases ha
    | inside ha => exact absurd hf (ha fields)
  induction hn : a.size using Nat.strongRecOn generalizing a with
  | ind n ih =>
    refine Acc.intro _ fun b hb => ?_
    cases hb with
    | named _ ht => exact object (h _ (Registry.mem_types_of_find? ht).1)
    | inside _ hb => exact ih b.size (hn ▸ Attribute.size_lt_of_mem_children hb) b rfl

/-- An object without a name, with a field of the type `id`. -/
def holder (id : TypeId) : Attribute := { type := .object [("f", .user id)] }

/-- A type whose objects hold holders of themselves. -/
def holding (id : TypeId) : UserType where
  id
  name := id
  definition := { type := .object [("f", holder id)] }

def holdingRegistry : Registry where
  types := [holding "A", holding "B"]
  nodup := by decide

def holdingConversion : Conversion where
  scope := .ofRegistry holdingRegistry
  source := .service
  target := .service

/-- Where the source is named, the target is not. So the pair has no helper, and all there is below
    it is the one field. -/
theorem single_holding :
    holdingConversion.Single (.user "A", holder "B") (holder "A", .user "B") where
  views := ⟨_, _, "f", rfl, rfl, rfl, ⟨_, rfl⟩, ⟨_, rfl⟩⟩
  compatible := by
    obtain ⟨⟨⟩, h⟩ : ∃ u, (holdingRegistry.compatible (.user "A") (holder "B") {}).Yields u := by
      decide +kernel
    exact h
  type := ⟨_, rfl⟩
  source := rfl
  target := rfl
  inPlace := rfl

/-- One level below the names are the other way round, so that no helper is ever called. Together
    with `single_holding` this makes a circle of two pairs that is gone round for ever. -/
theorem single_holder :
    holdingConversion.Single (holder "A", .user "B") (.user "A", holder "B") where
  views := ⟨_, _, "f", rfl, rfl, rfl, ⟨_, rfl⟩, ⟨_, rfl⟩⟩
  compatible := by
    obtain ⟨⟨⟩, h⟩ : ∃ u, (holdingRegistry.compatible (holder "A") (.user "B") {}).Yields u := by
      decide +kernel
    exact h
  type := ⟨_, rfl⟩
  source := rfl
  target := rfl
  inPlace := rfl

/-- Every reference resolves, and references alone never lead from an attribute back to it. Yet the
    request does not end, within any number of levels. -/
theorem holding_endless :
    (∀ t ∈ holdingRegistry.types, ∀ a ∈ t.definition.parts, ∀ id ∈ a.userId?,
      holdingRegistry.contains id = true) ∧
    (∀ a, ¬ TransGen (Refers holdingRegistry) a a) ∧
    (∀ levels, ¬ (holdingConversion.attrWithin levels
      (.between (.user "A") (holder "B") "v" "res")).Finishes) ∧
    ∀ met, ¬ (holdingConversion.compile
      (.between (.user "A") (holder "B") "v" "res")).Finishes met := by
  have hends : ∀ levels, ¬ (holdingConversion.attrWithin levels
      (.between (.user "A") (holder "B") "v" "res")).Finishes :=
    fun levels => single_holding.endless single_holder levels _ (Or.inl rfl)
  refine ⟨by decide, fun a => not_transGen_self_of_acc ?_, hends, fun met h => ?_⟩
  · refine acc_refers (fun t ht => ?_) a
    rcases List.mem_pair.mp ht with rfl | rfl
    · exact ⟨_, rfl⟩
    · exact ⟨_, rfl⟩
  · unfold compile at h
    rw [HelperWalk.finishes_bind, HelperWalk.finishes_liftM] at h
    exact hends _ h.1

end Conversion
end Shapewright
