import Shapewright.Proofs.Conversion.Closure
import Shapewright.Proofs.Sameness

/-!
# Helpers of several requests

The helpers of several requests are merged batch by batch. The batches have to agree: no two helpers
of one name may differ. Then the result holds every helper once, by name, and it does not depend on
the order in which the helpers arrive: merging is a set union, whatever helpers are there before the
first batch (`merged_iff_agree`).

## What is kept of a merge

To merge is to add helpers one by one to those that are there, leave out what is there already, and
stop at the first that differs from one of its name. Sorting comes last. The invariant of adding is
`Gathers`: the helpers so far are those that were given, each of them once. It says nothing of order
and of where a helper came from, so it holds of the result whatever the order was, and together with
being sorted it determines the result (`Gathers.same`).

That a merge goes through if and only if all helpers agree is one statement (`append_gathers` and
`gathers_of_append`): what was gathered agrees, and what agrees can be gathered.

Helpers that are there before the first batch need not be sorted, and after one batch they are. So
the theorem asks for at least one batch; without any, nothing is done to them.
-/

namespace Shapewright
namespace Helper

variable {all given into more : List Helper} {batches : List (List Helper)} {h : Helper}

/-- No two of the helpers differ and have one name. This can be decided, so that it can be told
    before whether a merge will go through. -/
def Agree (helpers : List Helper) : Prop :=
  ∀ a ∈ helpers, ∀ b ∈ helpers, a.name = b.name → (a == b) = true

instance (helpers : List Helper) : Decidable (Agree helpers) :=
  inferInstanceAs (Decidable (∀ a ∈ helpers, ∀ b ∈ helpers, a.name = b.name → (a == b) = true))

theorem Agree.subset {helpers : List Helper} (h : Agree helpers) (hs : given ⊆ helpers) :
    Agree given :=
  fun a ha b hb => h a (hs ha) b (hs hb)

/-- The helpers `all` are the given ones, each of them once. They may be in any order, and of
    helpers that are equal up to signs of zeros any one may be there. -/
structure Gathers (all given : List Helper) : Prop where
  nodup : (all.map (·.name)).Nodup
  subset : all ⊆ given
  covers : ∀ h ∈ given, ∃ k ∈ all, (k == h) = true

namespace Gathers

theorem nil : Gathers [] [] := ⟨by simp, by simp, by simp⟩

/-- There is nothing to gather from helpers that do not agree. -/
theorem agree (hg : Gathers all given) : Agree given := by
  intro a ha b hb hname
  obtain ⟨k, hk, hka⟩ := hg.covers a ha
  obtain ⟨l, hl, hlb⟩ := hg.covers b hb
  obtain rfl : k = l := by
    refine List.inj_on_of_nodup_map hg.nodup hk hl ?_
    rw [name_eq hka, name_eq hlb, hname]
  exact BEq.trans (BEq.symm hka) hlb

theorem perm {all' : List Helper} (hg : Gathers all given) (hp : all'.Perm all) :
    Gathers all' given where
  nodup := (hp.map _).nodup_iff.mpr hg.nodup
  subset := fun _ hk => hg.subset (hp.mem_iff.mp hk)
  covers := by
    intro h hh
    obtain ⟨k, hk, hkh⟩ := hg.covers h hh
    exact ⟨k, hp.mem_iff.mpr hk, hkh⟩

/-- A helper of a new name is added. What was gathered before is still there, and the new one comes
    last until the list is sorted again. -/
theorem push (hg : Gathers all given) (hnew : h.name ∉ all.map (·.name)) :
    Gathers (all ++ [h]) (given ++ [h]) where
  nodup := by
    rw [List.map_append, List.map_singleton]
    exact List.nodup_append_comm.mp (List.nodup_cons.mpr ⟨hnew, hg.nodup⟩)
  subset := List.append_subset.mpr
    ⟨fun _ hk => List.mem_append_left _ (hg.subset hk), List.subset_append_right _ _⟩
  covers := by
    intro k hk
    rcases List.mem_append.mp hk with hk | hk
    · obtain ⟨l, hl, hlk⟩ := hg.covers k hk
      exact ⟨l, List.mem_append_left _ hl, hlk⟩
    · obtain rfl := List.mem_singleton.mp hk
      exact ⟨k, List.mem_append_right _ hk, BEq.rfl⟩

/-- A helper that is there already is left out. Equality is that of the test the merging makes,
    which is coarser than equality of functions where a constant is a zero. -/
theorem skip {known : Helper} (hg : Gathers all given) (hknown : known ∈ all)
    (hsame : (known == h) = true) : Gathers all (given ++ [h]) where
  nodup := hg.nodup
  subset := fun _ hk => List.mem_append_left _ (hg.subset hk)
  covers := by
    intro k hk
    rcases List.mem_append.mp hk with hk | hk
    · exact hg.covers k hk
    · obtain rfl := List.mem_singleton.mp hk
      exact ⟨known, hknown, hsame⟩

/-- Sorted helpers are determined by the helpers that they are gathered from, in whatever order
    these come. Not to the last sign: where two given helpers are the same but for the sign of a
    zero, either may be there. -/
theorem same {all' given' : List Helper} (hg : Gathers all given) (hg' : Gathers all' given')
    (hs : (all.map (·.name)).Pairwise (· < ·)) (hs' : (all'.map (·.name)).Pairwise (· < ·))
    (hmem : ∀ h, h ∈ given ↔ h ∈ given') : (all == all') = true := by
  have hagree : ∀ a ∈ all, ∀ b ∈ all', a.name = b.name → (a == b) = true := fun a ha b hb =>
    hg.agree a (hg.subset ha) b ((hmem b).mpr (hg'.subset hb))
  have names : ∀ {x y gx gy : List Helper}, Gathers x gx → Gathers y gy → (∀ h, h ∈ gx → h ∈ gy) →
      x.map (·.name) ⊆ y.map (·.name) := by
    intro x y gx gy hx hy hxy name hname
    obtain ⟨h, hh, rfl⟩ := List.mem_map.mp hname
    obtain ⟨k, hk, hkh⟩ := hy.covers h (hxy h (hx.subset hh))
    exact List.mem_map.mpr ⟨k, hk, name_eq hkh⟩
  have hperm : (all.map (·.name)).Perm (all'.map (·.name)) :=
    (List.perm_ext_iff_of_nodup hg.nodup hg'.nodup).mpr fun name =>
      ⟨fun h => names hg hg' (fun h => (hmem h).mp) h,
       fun h => names hg' hg (fun h => (hmem h).mpr) h⟩
  have heq : all.map (·.name) = all'.map (·.name) :=
    hperm.eq_of_pairwise (fun _ _ _ _ hab hba => absurd (hab.trans hba) (lt_irrefl _)) hs hs'
  -- The names are the same one by one, and so are the helpers of these names.
  clear hg hg' hs hs' hmem hperm names
  induction all generalizing all' with
  | nil =>
    obtain rfl : all' = [] := by simpa using heq.symm
    rfl
  | cons a rest ih =>
    obtain ⟨b, rest', rfl, hb, hrest⟩ := List.map_eq_cons_iff.mp heq.symm
    rw [List.cons_beq_cons, Bool.and_eq_true]
    refine ⟨hagree a List.mem_cons_self b List.mem_cons_self hb.symm, ih ?_ hrest.symm⟩
    exact fun x hx y hy => hagree x (List.mem_cons_of_mem _ hx) y (List.mem_cons_of_mem _ hy)

end Gathers

/-! ## Adding helpers one by one -/

theorem find?_eq_none {name : String} :
    into.find? (·.name == name) = none ↔ name ∉ into.map (·.name) := by
  simp [List.find?_eq_none]

/-- Helpers can be added to others if all agree, and gathers them then. By induction on what is
    added: a helper is either new, or the same as one that is known by its name. -/
theorem append_gathers (hg : Gathers into given) (ha : Agree (given ++ more)) :
    ∃ all, append into more = (all, none) ∧ Gathers all (given ++ more) := by
  induction more generalizing into given with
  | nil => exact ⟨into, rfl, by simpa using hg⟩
  | cons h rest ih =>
    rw [List.append_cons] at ha ⊢
    rw [append]
    cases hfind : into.find? (·.name == h.name) with
    | none => exact ih (hg.push (find?_eq_none.mp hfind)) ha
    | some known =>
      -- A helper of the name is there already; it is the same, since all agree.
      have hknown := List.mem_of_find?_eq_some hfind
      have hname : known.name = h.name := by simpa using List.find?_some hfind
      have hsame : (known == h) = true :=
        ha known (by simp [hg.subset hknown]) h (by simp) hname
      simp only [hsame, if_true]
      exact ih (hg.skip hknown hsame) ha

/-- Helpers that could be added were gathered. A helper that differs from one of its name would have
    stopped the merge. -/
theorem gathers_of_append (hg : Gathers into given) (h : append into more = (all, none)) :
    Gathers all (given ++ more) := by
  induction more generalizing into given with
  | nil =>
    obtain rfl : into = all := by simpa [append] using h
    simpa using hg
  | cons x rest ih =>
    rw [List.append_cons]
    rw [append] at h
    cases hfind : into.find? (·.name == x.name) with
    | none =>
      rw [hfind] at h
      exact ih (hg.push (find?_eq_none.mp hfind)) h
    | some known =>
      rw [hfind] at h
      simp only at h
      -- A helper that is known already is passed over, not added: it has to be the same.
      split at h
      · rename_i hsame
        exact ih (hg.skip (List.mem_of_find?_eq_some hfind) hsame) h
      · simp at h

/-! ## Batches -/

/-- The helpers are those of the batches, each of them once, by name. What batches they come from,
    and how often, is lost. -/
structure IsUnion (all : List Helper) (batches : List (List Helper)) : Prop where
  sorted : (all.map (·.name)).Pairwise (· < ·)
  gathers : Gathers all batches.flatten

theorem union_eq_ok : union into more = .ok all ↔
    ∃ added, append into more = (added, none) ∧ all = sorted added := by
  unfold union merge
  rcases append into more with ⟨added, _ | clash⟩
  · simp [eq_comm]
  · simp

/-- No helper is added but those that are given. So whatever is known of all helpers of two requests
    is known of the merged list. -/
theorem mem_of_append (happend : append into more = (all, none)) (hmem : h ∈ all) :
    h ∈ into ∨ h ∈ more := by
  induction more generalizing into with
  | nil =>
    cases happend
    exact .inl hmem
  | cons x rest ih =>
    rw [append] at happend
    split at happend
    · rcases ih happend with hmem | hmem
      · rw [List.mem_append, List.mem_singleton] at hmem
        exact hmem.imp_right fun heq => List.mem_cons.mpr (.inl heq)
      · exact .inr (List.mem_cons_of_mem _ hmem)
    · split at happend
      · exact (ih happend).imp_right (List.mem_cons_of_mem _)
      · cases happend

theorem mem_of_union (hunion : union into more = .ok all) (hmem : h ∈ all) :
    h ∈ into ∨ h ∈ more := by
  obtain ⟨added, happend, rfl⟩ := union_eq_ok.mp hunion
  exact mem_of_append happend ((Conversion.sorted_perm added).mem_iff.mp hmem)

/-- Helpers cannot be added where one of them differs from a helper of its name. The fault names
    it. -/
theorem clash_of_append {f : Fault} (h : append into more = (all, some f)) :
    ∃ a ∈ into ++ more, ∃ b ∈ more, a.name = b.name ∧ (a == b) = false ∧
      f = .defect (.helperClash b.name) := by
  induction more generalizing into with
  | nil => simp [append] at h
  | cons x rest ih =>
    rw [append] at h
    cases hfind : into.find? (·.name == x.name) with
    | none =>
      rw [hfind] at h
      obtain ⟨a, ha, b, hb, hclash⟩ := ih h
      exact ⟨a, by simpa using ha, b, List.mem_cons_of_mem _ hb, hclash⟩
    | some known =>
      rw [hfind] at h
      have hknown := List.mem_of_find?_eq_some hfind
      dsimp only at h
      split at h
      · obtain ⟨a, ha, b, hb, hclash⟩ := ih h
        refine ⟨a, ?_, b, List.mem_cons_of_mem _ hb, hclash⟩
        simp only [List.mem_append, List.mem_cons] at ha ⊢
        exact ha.imp_right .inr
      -- This is where the merge stops. What came before in `more` was added or passed over, so the
      -- helper that the new one differs from is one of all that were given.
      · rename_i hdiffers
        cases h
        exact ⟨known, List.mem_append_left _ hknown, x, List.mem_cons_self,
          by simpa using List.find?_some hfind, by simpa using hdiffers, rfl⟩

theorem clash_of_union {f : Fault} (h : union into more = .error f) :
    ∃ a ∈ into ++ more, ∃ b ∈ more, a.name = b.name ∧ (a == b) = false ∧
      f = .defect (.helperClash b.name) := by
  unfold union merge at h
  rcases hadded : append into more with ⟨added, _ | clash⟩
  · rw [hadded] at h
    cases h
  · rw [hadded] at h
    cases h
    exact clash_of_append hadded

/-- Helpers join those that were gathered if all of them agree. What was given before is remembered
    as a list of its own, since the merged one no longer shows where its helpers are from. -/
theorem Gathers.union_iff (hg : Gathers into given) :
    (∃ all, union into more = .ok all) ↔ Agree (given ++ more) := by
  constructor
  · intro h
    obtain ⟨all, h⟩ := h
    obtain ⟨added, hadded, -⟩ := union_eq_ok.mp h
    exact (gathers_of_append hg hadded).agree
  · intro ha
    obtain ⟨added, hadded, -⟩ := append_gathers hg ha
    exact ⟨_, union_eq_ok.mpr ⟨added, hadded, rfl⟩⟩

/-- What comes of helpers that join others is sorted, even if the others were not. -/
theorem Gathers.isUnion (hg : Gathers into given) (hflat : batches.flatten = given ++ more)
    (h : union into more = .ok all) : IsUnion all batches := by
  obtain ⟨added, hadded, rfl⟩ := union_eq_ok.mp h
  have hall : Gathers added batches.flatten := hflat ▸ gathers_of_append hg hadded
  exact ⟨Conversion.sorted_pairwise hall.nodup, hall.perm (Conversion.sorted_perm added)⟩

/-- One batch more. It can be merged if it agrees with all before it. -/
theorem IsUnion.push (hu : IsUnion into batches) :
    (∃ all, union into more = .ok all) ↔ Agree (batches ++ [more]).flatten := by
  have hflat : (batches ++ [more]).flatten = batches.flatten ++ more := by simp
  exact hflat ▸ hu.gathers.union_iff

theorem IsUnion.nil : IsUnion [] [] := ⟨by simp, .nil⟩

theorem IsUnion.of_union (hu : IsUnion into batches) (h : union into more = .ok all) :
    IsUnion all (batches ++ [more]) :=
  hu.gathers.isUnion (by simp) h

/-- The helpers of all batches, one after another, starting from none. -/
def unionAll (batches : List (List Helper)) : Except Fault (List Helper) := batches.foldlM union []

/-- What one more batch preserves, for all of them. The order of the batches enters through their
    concatenation only, and to agree does not depend on an order. -/
theorem foldlM_union {met : List (List Helper)} (hu : IsUnion into met) :
    ((∃ all, batches.foldlM union into = .ok all) ↔ Agree (met ++ batches).flatten) ∧
      ∀ all, batches.foldlM union into = .ok all → IsUnion all (met ++ batches) := by
  induction batches generalizing into met with
  | nil =>
    simp only [List.foldlM_nil, List.append_nil, except_pure_eq_ok, exists_eq', true_iff]
    exact ⟨hu.gathers.agree, fun all h => h ▸ hu⟩
  | cons more rest ih =>
    rw [List.append_cons, List.foldlM_cons]
    constructor
    · constructor
      · intro h
        obtain ⟨all, h⟩ := h
        obtain ⟨next, hnext, h⟩ := except_bind_eq_ok.mp h
        exact (ih (hu.of_union hnext)).1.mp ⟨all, h⟩
      · intro ha
        -- What agrees with all batches agrees with the first of them.
        have hsub : (met ++ [more]).flatten ⊆ (met ++ [more] ++ rest).flatten :=
          (List.sublist_append_left _ rest).flatten.subset
        obtain ⟨next, hnext⟩ := hu.push.mpr (ha.subset hsub)
        obtain ⟨all, h⟩ := (ih (hu.of_union hnext)).1.mpr ha
        exact ⟨all, except_bind_eq_ok.mpr ⟨next, hnext, h⟩⟩
    · intro all h
      obtain ⟨next, hnext, h⟩ := except_bind_eq_ok.mp h
      exact (ih (hu.of_union hnext)).2 all h

theorem exists_unionAll : (∃ all, unionAll batches = .ok all) ↔ Agree batches.flatten :=
  (foldlM_union IsUnion.nil).1

theorem isUnion_of_unionAll (h : unionAll batches = .ok all) : IsUnion all batches :=
  (foldlM_union IsUnion.nil).2 all h

/-- The order of the batches, and of the helpers inside them, does not matter. -/
theorem unionAll_of_mem_iff {batches' : List (List Helper)} (h : unionAll batches = .ok all)
    (hmem : ∀ k, k ∈ batches.flatten ↔ k ∈ batches'.flatten) :
    ∃ all', unionAll batches' = .ok all' ∧ (all' == all) = true := by
  have hu := isUnion_of_unionAll h
  have hagree : Agree batches'.flatten :=
    hu.gathers.agree.subset fun k hk => (hmem k).mpr hk
  obtain ⟨all', h'⟩ := exists_unionAll.mpr hagree
  have hu' := isUnion_of_unionAll h'
  exact ⟨all', h', hu'.gathers.same hu.gathers hu'.sorted hu.sorted fun k => (hmem k).symm⟩

/-! ## Batches that join helpers which are there already -/

/-- Helpers of different names are gathered as they are. -/
theorem gathers_self (hn : (into.map (·.name)).Nodup) : Gathers into into :=
  ⟨hn, List.Subset.refl _, fun h hh => ⟨h, hh, BEq.rfl⟩⟩

/-- The first batch sorts what was there, and the others are merged as usual. The list to begin with
    need not be sorted. After the first batch it is, and from there on `foldlM_union` takes over. -/
theorem foldlM_union_cons (hg : Gathers into given) (more : List Helper)
    (rest : List (List Helper)) :
    ((∃ all, (more :: rest).foldlM union into = .ok all) ↔
        Agree (given ++ (more :: rest).flatten)) ∧
      ∀ all, (more :: rest).foldlM union into = .ok all → IsUnion all (given :: more :: rest) := by
  have hflat : [given, more].flatten = given ++ more := by simp
  -- Of the helpers at the start nothing is known but their names. The first merge sorts them, and
  -- the lemma for sorted ones takes over.
  rw [List.foldlM_cons]
  constructor
  · constructor
    · intro h
      obtain ⟨all, h⟩ := h
      obtain ⟨next, hnext, h⟩ := except_bind_eq_ok.mp h
      exact (foldlM_union (hg.isUnion hflat hnext)).1.mp ⟨all, h⟩
    · intro ha
      have hsub : given ++ more ⊆ given ++ (more :: rest).flatten :=
        ((List.sublist_append_left more rest.flatten).append_left given).subset
      obtain ⟨next, hnext⟩ := hg.union_iff.mpr (ha.subset hsub)
      obtain ⟨all, h⟩ := (foldlM_union (hg.isUnion hflat hnext)).1.mpr ha
      exact ⟨all, except_bind_eq_ok.mpr ⟨next, hnext, h⟩⟩
  · intro all h
    obtain ⟨next, hnext, h⟩ := except_bind_eq_ok.mp h
    exact (foldlM_union (hg.isUnion hflat hnext)).2 all h

/-- Merging is a set union. Batches can be merged into helpers of different names, in whatever order
    these are, if and only if no two helpers of one name differ among all of them. The result holds
    all of them and nothing else, each once and by name; and whether there is one, and which, is the
    same for all batches of the same helpers, in whatever order and however often they come. -/
theorem merged_iff_agree {start : List Helper} (hstart : (start.map (·.name)).Nodup)
    (hsome : batches ≠ []) :
    ((∃ all, batches.foldlM union start = .ok all) ↔ Agree (start ++ batches.flatten)) ∧
    (∀ all, batches.foldlM union start = .ok all → IsUnion all (start :: batches)) ∧
    ∀ batches' : List (List Helper), batches' ≠ [] →
      (∀ h, h ∈ batches'.flatten ↔ h ∈ batches.flatten) →
      ((∃ all', batches'.foldlM union start = .ok all') ↔
        ∃ all, batches.foldlM union start = .ok all) ∧
      ∀ all all', batches.foldlM union start = .ok all →
        batches'.foldlM union start = .ok all' → (all' == all) = true := by
  have hg := gathers_self hstart
  obtain ⟨first, rest, rfl⟩ := List.exists_cons_of_ne_nil hsome
  obtain ⟨hagree, hunion⟩ := foldlM_union_cons hg first rest
  refine ⟨hagree, hunion, fun batches' hsome' hmem => ?_⟩
  obtain ⟨first', rest', rfl⟩ := List.exists_cons_of_ne_nil hsome'
  obtain ⟨hagree', hunion'⟩ := foldlM_union_cons hg first' rest'
  -- Both questions depend on the members of all batches alone: whether helpers agree, and what the
  -- sorted result holds.
  have hall : ∀ h, h ∈ start ++ (first' :: rest').flatten ↔
      h ∈ start ++ (first :: rest).flatten := by
    intro h
    rw [List.mem_append, List.mem_append, hmem]
  constructor
  · rw [hagree, hagree']
    exact ⟨fun ha => ha.subset fun h hh => (hall h).mpr hh,
      fun ha => ha.subset fun h hh => (hall h).mp hh⟩
  · intro all all' h h'
    have hu := hunion all h
    have hu' := hunion' all' h'
    exact hu'.gathers.same hu.gathers hu'.sorted hu.sorted hall

/-- A helper that returns a number whatever it is called with. -/
def constantHelper (name : String) (x : Float) : Helper where
  name
  param := .primitive .float64
  result := .primitive .float64
  body := [.ret [.lit (.float x) (.primitive .float64)]]

/-- Two helpers that differ only in the sign of a zero are one helper for the merging. The
    comparison is that of floats, for which the two zeros are equal, and the helper that was met
    first is the one that is kept. -/
theorem merged_iff_agree_zero :
    ([constantHelper "c" 1, constantHelper "a" 0].map (·.name)).Nodup ∧
    ∃ all all', [[constantHelper "b" 2], [constantHelper "a" (-0)]].foldlM union
        [constantHelper "c" 1, constantHelper "a" 0] = .ok all ∧
      [[constantHelper "a" (-0), constantHelper "b" 2, constantHelper "b" 2]].foldlM union
        [constantHelper "c" 1, constantHelper "a" 0] = .ok all' ∧ (all' == all) = true := by
  have hstart : ([constantHelper "c" 1, constantHelper "a" 0].map (·.name)).Nodup := by decide
  have hmem : ∀ h, h ∈ [[constantHelper "a" (-0), constantHelper "b" 2,
        constantHelper "b" 2]].flatten ↔
      h ∈ [[constantHelper "b" 2], [constantHelper "a" (-0)]].flatten := by
    simp [or_comm]
  obtain ⟨hagree, -, horder⟩ := merged_iff_agree hstart
    (by simp : [[constantHelper "b" 2], [constantHelper "a" (-0)]] ≠ [])
  obtain ⟨hiff, hsame⟩ := horder _ (by simp) hmem
  obtain ⟨all, hall⟩ := hagree.mpr (by decide +kernel)
  obtain ⟨all', hall'⟩ := hiff.mpr ⟨all, hall⟩
  exact ⟨hstart, all, all', hall, hall', hsame all all' hall hall'⟩

end Helper
end Shapewright
