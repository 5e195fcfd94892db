import Shapewright.Proofs.Reachable
import Shapewright.Proofs.Validation.Guarding

/-!
# The validators of a type are closed

The subjects that a value can be handed over to form a graph with as many points as there are types
and declared views. The search for them ends, also where types hold themselves. A subject has a
validator exactly if it reaches one that demands something of its own; so the validators that are
listed call only validators that are listed.

## Two rounds

Which bodies are empty is known only when bodies have been built, and which calls a body makes
depends on which validators there are. The search breaks the circle. In a first round it builds
every body as if there were no validators (`Explores`), and notes whether the body is empty and
which subjects it would call. Then the subjects that lead to one with checks are selected, and their
bodies are built once more, now with the calls (`Listed`).

The second round builds other code but meets the same subjects, since the calls that a walk notes do
not depend on which validators exist (`mem_calls_iff`). That is the reason why the answer of the
first round is still right for the second.

## Termination

The limit of the search is a number of steps. `exploreWithin_explores` shows that it is never
reached: what has been found are different subjects of the registry, and the limit is one more than
there are (`length_subjects`).
-/

namespace Shapewright
namespace Validation

open Relation

section

variable (v : Validation)

/-- A value that the validator of the first subject looks at is handed over to the second, whether
    the second has a validator or not. -/
def Delegates (s s' : Subject) : Prop := ∃ z, v.Looks s z ∧ v.HandsOver z s'

/-- The subjects there can be: every type without a view, and under each view that it declares. -/
def subjects (reg : Registry) : List Subject :=
  reg.types.flatMap fun t => ⟨t.id, none⟩ :: t.views.map fun w => ⟨t.id, some w.name⟩

/-- The view of the subject, if it has one, is declared by its type. A default view that is not
    declared counts as no view. -/
def Declared (s : Subject) : Prop :=
  ∀ name, s.view = some name → ∃ t w, v.registry.find? s.type = some t ∧ w ∈ t.views ∧ w.name = name

/-- A search for the subjects reachable from `root` that has built the bodies of those it has found,
    without any validators to call, and has yet to look at others. -/
structure Explores (root : Subject) (found : List Found) (pending : List Subject) : Prop where
  search : Reachable.Searched v.Delegates [root] (found.map (·.subject)) pending
  bodies : ∀ f ∈ found, ∃ checks, v.body (fun _ => false) f.subject = .ok checks ∧
    f.checks = !checks.code.isEmpty ∧ f.calls = checks.calls
  first : (found.map (·.subject) ++ pending).head? = some root

/-- The subject has something to check, or reaches one that has. Subjects that are not needed have
    no validator, and calls of one are left out. -/
def Needed (s : Subject) : Prop := ∃ s', ReflTransGen v.Delegates s s' ∧ v.Demands s'

/-- The validators of the subjects that are reached from `root` and needed. Which ones are needed
    does not depend on the list, while the code of each may call any that is listed. -/
structure Listed (root : Subject) (listed : List (Subject × Func)) : Prop where
  nodup : (listed.map Prod.fst).Nodup
  first : listed = [] ∨ ∃ f rest, listed = (root, f) :: rest
  mem_iff : ∀ s, s ∈ listed.map Prod.fst ↔ ReflTransGen v.Delegates root s ∧ v.Needed s
  built : ∀ x ∈ listed, ∃ checks, v.body (listed.map Prod.fst).contains x.1 = .ok checks ∧
    v.func x.1 checks.code = .ok x.2

end

variable {v : Validation} {root s s' : Subject} {found : List Found} {pending : List Subject}
  {id : TypeId} {view : Option String} {listed : List (Subject × Func)} {checks : Checks}

/-! ## Subjects -/

theorem length_subjects (reg : Registry) : (subjects reg).length = subjectBudget reg := by
  unfold subjects subjectBudget
  rw [List.length_flatMap, List.sum]
  simp only [List.length_cons, List.length_map]

/-- A subject that is made for a type and a view has a view that the type declares. Every subject
    that the walk comes to is made in this way, so views that are missing are found when they are
    asked for. -/
theorem declared_of_subject (h : v.subject id view = .ok s) : v.Declared s := by
  unfold subject at h
  split at h
  · cases h
    intro name hname
    cases hname
  -- The view is looked up when the subject is made, and its name is that of the view which was
  -- found.
  · rename_i name
    obtain ⟨w, hw, h⟩ := except_bind_eq_ok.mp h
    cases h
    intro shown hshown
    obtain ⟨w', hw', rfl⟩ := Option.map_eq_some_iff.mp hshown
    obtain rfl : w = some w' := hw'
    unfold Registry.view? at hw
    obtain ⟨t, ht, hw⟩ := except_bind_eq_ok.mp hw
    split at hw
    · cases hw
      refine ⟨t, w', ?_, List.mem_of_find?_eq_some ‹_›, rfl⟩
      unfold Registry.get at ht
      split at ht <;> simp_all
    · split at hw <;> cases hw

theorem Declared.step (h : v.Delegates s s') : v.Declared s' := by
  obtain ⟨z, -, -, -, -, hs⟩ := h
  exact declared_of_subject hs

theorem Declared.reached (h : v.Declared s) (hs : ReflTransGen v.Delegates s s') :
    v.Declared s' := by
  rcases ReflTransGen.cases_tail hs with rfl | ⟨t, -, ht⟩
  · exact h
  · exact Declared.step ht

/-- A subject that a body is built for is one of the registry. Those are finitely many, which bounds
    the search. -/
theorem mem_subjects {isBuilt : Subject → Bool} (hd : v.Declared s)
    (hb : v.body isBuilt s = .ok checks) : s ∈ subjects v.registry := by
  obtain ⟨t, ht, -⟩ := except_bind_eq_ok.mp hb
  have hf : v.registry.find? s.type = some t := by
    unfold Registry.get at ht
    split at ht <;> simp_all
  obtain ⟨hmem, hid⟩ := Registry.mem_types_of_find? hf
  refine List.mem_flatMap.mpr ⟨t, hmem, ?_⟩
  obtain ⟨type, view⟩ := s
  subst hid
  cases view with
  | none => exact List.mem_cons_self
  | some name =>
    obtain ⟨t', w, hf', hw, rfl⟩ := hd name rfl
    obtain rfl : t' = t := by simpa [hf] using hf'.symm
    exact List.mem_cons_of_mem _ (List.mem_map_of_mem hw)

/-! ## The search -/

/-- The calls that are noted with a body are the subjects that values are handed over to, whichever
    validators the body was built with. -/
theorem mem_calls_iff {isBuilt : Subject → Bool} (h : v.body isBuilt s = .ok checks) :
    s' ∈ checks.calls ↔ v.Delegates s s' :=
  (buildsBody_of_body h).mem_calls

namespace Explores

theorem init (v : Validation) (root : Subject) : v.Explores root [] [root] where
  search := .init _ _
  bodies := by simp
  first := rfl

/-- No more subjects are found than there can be. -/
theorem length_le (h : v.Explores root found pending) (hroot : v.Declared root) :
    found.length ≤ subjectBudget v.registry := by
  rw [← length_subjects, ← List.length_map (·.subject)]
  refine (h.search.nodup.subperm fun s hs => ?_).length_le
  obtain ⟨f, hf, rfl⟩ := List.mem_map.mp hs
  obtain ⟨checks, hb, -⟩ := h.bodies f hf
  obtain ⟨x, hx, hreached⟩ := h.search.reached f.subject (.inl hs)
  obtain rfl := List.mem_singleton.mp hx
  exact mem_subjects (hroot.reached hreached) hb

/-- Subjects that were found already are passed over. -/
theorem skip (h : v.Explores root found pending) : v.Explores root found
    (pending.dropWhile fun s => found.any (·.subject == s)) where
  search := h.search.skip _ fun s => by simp
  bodies := h.bodies
  first := by
    cases found with
    | nil => cases pending <;> simpa [List.dropWhile] using h.first
    | cons f rest => simpa using h.first

/-- A new subject is found by building its body, and what it would call is to be looked at. The
    calls go to the end of what is left to be looked at, so subjects are found in the order of their
    distance. -/
theorem push {rest : List Subject} (h : v.Explores root found (s :: rest))
    (hs : s ∉ found.map (·.subject)) (hb : v.body (fun _ => false) s = .ok checks) :
    v.Explores root (found ++ [⟨s, !checks.code.isEmpty, checks.calls⟩])
      (rest ++ checks.calls) where
  search := by
    rw [List.map_append]
    exact h.search.push hs fun s' => (mem_calls_iff hb).symm
  bodies f hf := by
    rcases List.mem_append.mp hf with hf | hf
    · exact h.bodies f hf
    · obtain rfl := List.mem_singleton.mp hf
      exact ⟨checks, hb, rfl, rfl⟩
  first := by
    have := h.first
    cases found with
    | nil => simpa using this
    | cons f more => simpa using this

end Explores

/-- The first subject behind those that are known is new. -/
theorem fresh_of_dropWhile {rest : List Subject}
    (h : (pending.dropWhile fun s => found.any (·.subject == s)) = s :: rest) :
    s ∉ found.map (·.subject) := by
  have := List.head?_dropWhile_not (fun s => found.any (·.subject == s)) pending
  rw [h] at this
  simpa using this

/-- The search ends, and has then found all there is: a body is built for every subject that is
    found, so subjects that can be found are at most as many as the budget. -/
theorem exploreWithin_explores (hroot : v.Declared root) :
    ∀ {limit : Nat} {found : List Found} {pending : List Subject},
      v.Explores root found pending → subjectBudget v.registry < limit + found.length →
      (v.exploreWithin limit found pending).Finishes ∧
        ∀ all, (v.exploreWithin limit found pending).Yields all → v.Explores root all [] := by
  intro limit
  induction limit with
  | zero =>
    intro found pending h hlimit
    -- More subjects than the budget have been found, and there are not that many.
    have := h.length_le hroot
    omega
  | succ limit ih =>
    intro found pending h hlimit
    have hskip := h.skip
    unfold exploreWithin
    dsimp only
    split
    · rename_i hnil
      rw [hnil] at hskip
      refine ⟨Walk.finishes_pure, fun all hall => ?_⟩
      rw [Walk.yields_pure] at hall
      exact hall ▸ hskip
    · rename_i s rest hcons
      rw [hcons] at hskip
      have hfresh := fresh_of_dropWhile hcons
      -- A body is built, and with the next limit the search goes on from there.
      have hnext : ∀ checks, v.body (fun _ => false) s = .ok checks → _ := fun checks hb =>
        ih (hskip.push hfresh hb) (by rw [List.length_append, List.length_singleton]; omega)
      rw [Walk.finishes_bind]
      refine ⟨⟨Walk.finishes_liftM, fun checks hb => ?_⟩, fun all hall => ?_⟩
      · exact (hnext checks (Walk.yields_liftM.mp hb)).1
      · obtain ⟨checks, hb, hall⟩ := Walk.yields_bind.mp hall
        exact (hnext checks (Walk.yields_liftM.mp hb)).2 all hall

/-! ## The subjects with validators -/

namespace Explores

variable (h : v.Explores root found [])
include h

theorem reached_iff : s ∈ found.map (·.subject) ↔ ReflTransGen v.Delegates root s := by
  rw [h.search.mem_iff]
  simp only [List.mem_singleton, exists_eq_left]

theorem mem_callsOf : s' ∈ callsOf found s ↔ s ∈ found.map (·.subject) ∧ v.Delegates s s' := by
  unfold callsOf
  cases hf : found.find? (·.subject == s) with
  | none =>
    rw [List.find?_eq_none] at hf
    refine iff_of_false (by simp) fun hs => ?_
    obtain ⟨f, hmem, rfl⟩ := List.mem_map.mp hs.1
    simpa using hf f hmem
  | some f =>
    have hmem := List.mem_of_find?_eq_some hf
    obtain rfl : f.subject = s := by simpa using List.find?_some hf
    obtain ⟨checks, hb, -, hcalls⟩ := h.bodies f hmem
    show s' ∈ f.calls ↔ _
    rw [hcalls, mem_calls_iff hb]
    exact ⟨fun hd => ⟨List.mem_map_of_mem hmem, hd⟩, fun hd => hd.2⟩

/-- Calls lead where values are handed over to. -/
theorem callsOf_reaches (hs : s ∈ found.map (·.subject)) :
    ReflTransGen (fun x y => y ∈ callsOf found x) s s' ↔ ReflTransGen v.Delegates s s' := by
  constructor
  · exact ReflTransGen.mono (fun x y hxy => (h.mem_callsOf.mp hxy).2) s s'
  · intro hreach
    induction hreach with
    | refl => exact .refl
    | tail hst htu ih =>
      refine ih.tail (h.mem_callsOf.mpr ⟨?_, htu⟩)
      exact h.reached_iff.mpr ((h.reached_iff.mp hs).trans hst)

/-- A body built without any validators has code exactly if the subject demands something itself. -/
theorem checks_iff {f : Found} (hf : f ∈ found) : f.checks = true ↔ v.Demands f.subject := by
  obtain ⟨checks, hb, hchecks, -⟩ := h.bodies f hf
  have hbuilds := buildsBody_of_body hb
  rw [hchecks, Bool.not_eq_true', ← Bool.not_eq_true, List.isEmpty_iff]
  constructor
  · intro hne
    by_contra hd
    exact hne (hbuilds.eq_nil hd fun _ _ => rfl)
  · exact fun hd => (hbuilds.finds (.inl hd)).ne_nil

/-- The second search, along the calls that were noted, tells which subjects are needed. A subject
    is needed if it has checks of its own, or can come to one that has. -/
theorem reachesChecks_iff (hs : s ∈ found.map (·.subject)) :
    reachesChecks found s = true ↔ v.Needed s := by
  -- Calls do not lead out of what was found, so the second search ends, too.
  have hclosed : ∀ x ∈ found.map (·.subject), callsOf found x ⊆ found.map (·.subject) :=
    fun x hx y hy => (h.search.next x hx y (h.mem_callsOf.mp hy).2).resolve_right (by simp)
  have hwithin : ∀ s', s' ∈ Reachable.within (callsOf found) found.length [] [s] ↔
      ReflTransGen v.Delegates s s' := by
    intro s'
    rw [Reachable.mem_within hclosed (by simpa using hs) (by rw [List.length_map])]
    simp only [List.mem_singleton, exists_eq_left]
    exact h.callsOf_reaches hs
  unfold reachesChecks
  simp only [List.any_eq_true, Bool.and_eq_true, List.contains_iff_mem, hwithin]
  constructor
  · intro hreaches
    obtain ⟨f, hf, hchecks, hreach⟩ := hreaches
    exact ⟨f.subject, hreach, (h.checks_iff hf).mp hchecks⟩
  · intro hneeded
    obtain ⟨s', hreach, hd⟩ := hneeded
    obtain ⟨f, hf, rfl⟩ := List.mem_map.mp
      (h.reached_iff.mpr ((h.reached_iff.mp hs).trans hreach))
    exact ⟨f, hf, (h.checks_iff hf).mpr hd, hreach⟩

theorem mem_built : s ∈ built found ↔ ReflTransGen v.Delegates root s ∧ v.Needed s := by
  unfold built
  rw [List.mem_filter, h.reached_iff]
  exact and_congr_right fun hs => h.reachesChecks_iff (h.reached_iff.mpr hs)

/-- Where there is any validator there is one of the root, and it is the first. They are listed in
    the order in which they were found, beginning with the root. -/
theorem built_first : built found = [] ∨ ∃ rest, built found = root :: rest := by
  rw [or_iff_not_imp_left]
  intro hne
  obtain ⟨s, hs⟩ := List.exists_mem_of_ne_nil _ hne
  obtain ⟨hreach, s', hs', hd⟩ := h.mem_built.mp hs
  have hfirst := h.first
  rw [List.append_nil] at hfirst
  obtain ⟨rest, hrest⟩ := List.head?_eq_some_iff.mp hfirst
  have hroot : reachesChecks found root = true :=
    (h.reachesChecks_iff (hrest ▸ List.mem_cons_self)).mpr ⟨s', hreach.trans hs', hd⟩
  exact ⟨_, by rw [built, hrest, List.filter_cons_of_pos hroot]⟩

end Explores

theorem func_eq_ok {code : Block} {f : Func} (h : v.func s code = .ok f) :
    v.functionName s.type s.view = .ok f.name ∧ f.body = code ++ [.ret []] := by
  unfold func at h
  obtain ⟨name, hname, h⟩ := except_bind_eq_ok.mp h
  obtain ⟨typeName, -, h⟩ := except_bind_eq_ok.mp h
  obtain ⟨type, -, h⟩ := except_bind_eq_ok.mp h
  cases h
  exact ⟨hname, rfl⟩

/-- The search for the validators of a subject ends, and lists those of the subjects that are
    needed. -/
theorem closure_listed (hroot : v.Declared root) : (v.closure root).Finishes ∧
    ∀ listed, (v.closure root).Yields listed → v.Listed root listed := by
  have hlimit : subjectBudget v.registry <
      subjectBudget v.registry + 1 + ([] : List Found).length := Nat.lt_succ_self _
  obtain ⟨hfin, hall⟩ := exploreWithin_explores hroot (.init v root) hlimit
  unfold closure explore
  rw [Walk.finishes_bind]
  refine ⟨⟨hfin, fun found _ => Walk.finishes_mapM fun s _ => ?_⟩, fun listed h => ?_⟩
  · simp only [Walk.finishes_bind, Walk.finishes_liftM, Walk.finishes_pure, implies_true, and_true]
  · obtain ⟨found, hfound, h⟩ := Walk.yields_bind.mp h
    have hex := hall found hfound
    have hstep := Walk.yields_mapM.mp h
    -- Building a body once more changes neither which subjects there are nor their order.
    have hkeys : listed.map Prod.fst = built found := by
      refine (map_eq_of_forall₂ (f := id) (fun s x hx => ?_) hstep).trans (List.map_id _)
      obtain ⟨checks, -, hx⟩ := Walk.yields_bind.mp hx
      obtain ⟨f, -, hx⟩ := Walk.yields_bind.mp hx
      rw [Walk.yields_pure] at hx
      exact hx ▸ rfl
    refine ⟨?_, ?_, fun s => ?_, fun x hx => ?_⟩
    · rw [hkeys]
      exact hex.search.nodup.sublist List.filter_sublist
    · rcases hex.built_first with hnil | ⟨rest, hrest⟩
      · exact .inl (List.map_eq_nil_iff.mp (hkeys.trans hnil))
      · obtain ⟨x, more, rfl, hx, -⟩ := List.map_eq_cons_iff.mp (hkeys.trans hrest)
        exact .inr ⟨x.2, more, by rw [← hx]⟩
    · rw [hkeys, hex.mem_built]
    · obtain ⟨s, -, hx⟩ := forall₂_mem_right hstep hx
      obtain ⟨checks, hb, hx⟩ := Walk.yields_bind.mp hx
      obtain ⟨f, hf, hx⟩ := Walk.yields_bind.mp hx
      rw [Walk.yields_pure] at hx
      subst hx
      rw [hkeys]
      exact ⟨checks, Walk.yields_liftM.mp hb, Walk.yields_liftM.mp hf⟩

namespace Listed

variable (h : v.Listed root listed)
include h

/-- A validator that is called is one of those that are listed. It is called with the value itself,
    and an object has been tested before. -/
theorem called {z : Place} {known : List Expr} {call : Call}
    (hc : v.CallsAt (listed.map Prod.fst).contains z known call) :
    ∃ y ∈ listed, v.HandsOver z y.1 ∧ call = (y.2.name, [z.position.var]) ∧
      (v.registry.kind z.attr = .ok .object → z.position.var ∈ known) := by
  obtain ⟨hands, hlisted, hname, hknown⟩ := hc
  obtain ⟨y, hy, rfl⟩ := List.mem_map.mp (List.contains_iff_mem.mp hlisted)
  obtain ⟨_, -, hf⟩ := h.built y hy
  have hname' := (func_eq_ok hf).1
  rw [hname] at hname'
  cases hname'
  exact ⟨y, hy, hands, rfl, hknown⟩

/-- Every call is a report, or that of a listed validator for the subject that the value is handed
    over to. -/
theorem calls {x : Subject × Func} (hx : x ∈ listed) {call : Call} (hc : call ∈ x.2.body.calls) :
    v.IsReport call ∨ ∃ y ∈ listed, ∃ z, v.Looks x.1 z ∧ v.HandsOver z y.1 ∧
      call = (y.2.name, [z.position.var]) := by
  obtain ⟨checks, hb, hf⟩ := h.built x hx
  have hcode : call ∈ checks.code.calls := by
    rw [(func_eq_ok hf).2, Block.calls_append] at hc
    simpa [Stmt.calls, Expr.callsAll] using hc
  obtain ⟨step, hstep, hcall⟩ := Block.exists_step_of_mem_calls hcode []
  refine (((buildsBody_of_body hb).safe step hstep).calls call hcall).imp_right fun hvalidator => ?_
  obtain ⟨z, hz, hcalled⟩ := hvalidator
  obtain ⟨y, hy, hands, hname, -⟩ := h.called hcalled
  exact ⟨y, hy, z, hz, hands, hname⟩

/-- A needed subject demands something itself or hands a value over to a needed one. -/
theorem finds {x : Subject × Func} (hx : x ∈ listed) : v.Finds x.2.body := by
  obtain ⟨checks, hb, hf⟩ := h.built x hx
  obtain ⟨hreach, s', hs', hd⟩ := (h.mem_iff x.1).mp (List.mem_map_of_mem hx)
  rw [(func_eq_ok hf).2]
  refine Finds.left ((buildsBody_of_body hb).finds ?_) _
  rcases ReflTransGen.cases_head hs' with heq | ⟨t, hxt, hts⟩
  · exact .inl (heq ▸ hd)
  · refine .inr ⟨t, (mem_calls_iff hb).mpr hxt, List.contains_iff_mem.mpr ?_⟩
    exact (h.mem_iff t).mpr ⟨hreach.tail hxt, s', hts, hd⟩

/-- There is no validator at all exactly if nothing that can be reached demands anything. -/
theorem eq_nil_iff : listed = [] ↔ ∀ s, ReflTransGen v.Delegates root s → ¬ v.Demands s := by
  rw [← List.map_eq_nil_iff (f := Prod.fst), List.eq_nil_iff_forall_not_mem]
  constructor
  · exact fun hno s hs hd => hno s ((h.mem_iff s).mpr ⟨hs, s, .refl, hd⟩)
  · intro hno s hs
    obtain ⟨hreach, s', hs', hd⟩ := (h.mem_iff s).mp hs
    exact hno s' (hreach.trans hs') hd

end Listed

/-- The validators are those of a closed set of subjects, that of `root` first: no subject has two,
    the bodies are built with these validators at hand, all calls but reports stay among them, and
    none is without a check. -/
structure Closed (v : Validation) (root : Subject) (listed : List (Subject × Func)) : Prop where
  first : listed = [] ∨ ∃ f rest, listed = (root, f) :: rest
  nodup : (listed.map Prod.fst).Nodup
  func : ∀ x ∈ listed, ∃ checks, v.body (listed.map Prod.fst).contains x.1 = .ok checks ∧
    v.func x.1 checks.code = .ok x.2
  calls : ∀ x ∈ listed, ∀ call ∈ x.2.body.calls, v.IsReport call ∨
    ∃ y ∈ listed, ∃ z, v.Looks x.1 z ∧ v.HandsOver z y.1 ∧ call = (y.2.name, [z.position.var])
  finds : ∀ x ∈ listed, v.Finds x.2.body
  empty : listed = [] ↔ ∀ s, ReflTransGen v.Delegates root s → ¬ v.Demands s

/-- What is compiled for a type and a view is the list for the subject of the two. All that is
    proved about several validators together is proved of this list. -/
theorem compileAll_listed (v : Validation) (id : TypeId) (view : Option String) :
    (v.compileAll id view).Finishes ∧ ∀ funcs, (v.compileAll id view).Yields funcs →
      ∃ root listed, v.subject id view = .ok root ∧ funcs = listed.map Prod.snd ∧
        v.Listed root listed := by
  unfold compileAll
  rw [Walk.finishes_bind]
  refine ⟨⟨Walk.finishes_liftM, fun root hroot => ?_⟩, fun funcs h => ?_⟩
  · have hd := declared_of_subject (Walk.yields_liftM.mp hroot)
    simp only [Walk.finishes_bind, Walk.finishes_pure, implies_true, and_true]
    exact (closure_listed hd).1
  · obtain ⟨root, hroot, h⟩ := Walk.yields_bind.mp h
    obtain ⟨listed, hlisted, h⟩ := Walk.yields_bind.mp h
    rw [Walk.yields_pure] at h
    have hs := Walk.yields_liftM.mp hroot
    exact ⟨root, listed, hs, h.symm, (closure_listed (declared_of_subject hs)).2 listed hlisted⟩

/-- The validators of a type are found, however its types are nested, and are closed: the one that
    was asked for comes first, none is listed twice, and whatever one of them calls is listed for
    its key. The search ends on every graph of types, and the list is empty only if there is nothing
    to check. -/
theorem compileAll_closed (v : Validation) (id : TypeId) (view : Option String) :
    (v.compileAll id view).Finishes ∧ ∀ funcs, (v.compileAll id view).Yields funcs →
      ∃ root listed, v.subject id view = .ok root ∧ funcs = listed.map Prod.snd ∧
        v.Closed root listed := by
  obtain ⟨hfin, hall⟩ := compileAll_listed v id view
  refine ⟨hfin, fun funcs h => ?_⟩
  obtain ⟨root, listed, hroot, hfuncs, hl⟩ := hall funcs h
  exact ⟨root, listed, hroot, hfuncs, hl.first, hl.nodup, hl.built,
    fun _ hx _ hc => hl.calls hx hc, fun _ hx => hl.finds hx, hl.eq_nil_iff⟩

/-- Trees whose branches are a named collection of trees. -/
def treeValidation : Validation where
  scope := .ofRegistry {
    types := [
      { id := "Tree", name := "Tree"
        definition := {
          type := .object [
            ("name", { type := .primitive .string, rules := { minLength := some 1 } }),
            ("branches", .user "Trees")] } },
      { id := "Trees", name := "Trees", definition := { type := .array (.user "Tree") } }] }
  context := .service

/-- A tree and its branches call each other, and each of them has one validator. -/
theorem compileAll_closed_trees : ∃ funcs root listed,
    ((treeValidation.compileAll "Tree" none).Yields funcs ∧ funcs.length = 2) ∧
    treeValidation.subject "Tree" none = .ok root ∧ funcs = listed.map Prod.snd ∧
    treeValidation.Closed root listed := by
  obtain ⟨funcs, h⟩ : ∃ funcs, (treeValidation.compileAll "Tree" none).Yields funcs ∧
      funcs.length = 2 := by
    decide +kernel
  obtain ⟨root, listed, hroot, hfuncs, hclosed⟩ :=
    (compileAll_closed treeValidation "Tree" none).2 funcs h.1
  exact ⟨funcs, root, listed, h, hroot, hfuncs, hclosed⟩

end Validation
end Shapewright
