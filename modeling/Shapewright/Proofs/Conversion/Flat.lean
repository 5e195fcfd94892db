import Shapewright.Proofs.Conversion.Closure
import Shapewright.Proofs.Growth
import Shapewright.Proofs.Resolution

/-!
# Conversions that succeed

Between two objects whose common fields are of the same primitive kinds there is always a
conversion, and it calls no helpers.

Most facts on conversions say what a request delivers if it delivers anything. That is the wrong
form for the round trip of a projection, where both conversions have to be shown to exist. For flat
objects this is easy to see and still takes a look at every step that could fail: the kinds have to
be found, the common fields have to be compatible, and each type has to have a name in the code. The
one hypothesis on types is that of the target; those of primitives are there in any case.

The search for helpers has nothing to find. Its budget still has to be at least one level, as
without any it would give up before looking (`collectWithin_of_primitives`).
-/

namespace Shapewright

theorem Registry.pairBudget_ne_zero {reg : Registry} {a b : Attribute} :
    reg.pairBudget a b ≠ 0 := by
  unfold pairBudget
  omega

/-- Two primitives of one kind fit, whatever aliases they are behind. A comparison resolves both and
    looks at the kinds. -/
theorem Registry.compatible_of_primitives {reg : Registry} {a b : Attribute} {p : Primitive}
    (ha : reg.kind a = .ok (.primitive p)) (hb : reg.kind b = .ok (.primitive p)) (paths : Paths) :
    (reg.compatible a b paths).Yields () := by
  unfold Registry.compatible
  rw [pairBudget, compatibleWithin, compatibleVia]
  simp only [Walk.yields_bind, Walk.yields_liftM]
  refine ⟨_, ha, _, hb, ?_⟩
  by_cases hany : Kind.primitive p = .primitive .any
  · rw [if_pos hany]
    exact Walk.yields_pure.mpr rfl
  · rw [if_neg hany]
    simp

namespace Conversion

variable {c : Conversion} {emit : Emit} {s : Site} {a b : Attribute} {v w : ObjectView}

/-- The field is of one primitive kind in both objects. Their names may differ, as aliases of one
    kind are cast into each other. -/
def SameKind (c : Conversion) (m : FieldMatch) : Prop :=
  ∃ p, c.registry.kind m.source = .ok (.primitive p) ∧ c.registry.kind m.target = .ok (.primitive p)

/-- What is looked up for such a field is found. Both attributes have kinds, which is all that
    pointers and the comparison ask for. -/
theorem exists_fieldSite {m : FieldMatch} (h : c.SameKind m) :
    ∃ f, (c.fieldSite s v w m).Yields f := by
  obtain ⟨p, hs, ht⟩ := h
  have hsp : c.registry.isPrimitive m.source = .ok true := Registry.isPrimitive_of_kind hs
  have htp : c.registry.isPrimitive m.target = .ok true := Registry.isPrimitive_of_kind ht
  obtain ⟨sourcePointer, hsource⟩ := Context.exists_holdsPointer hs c.source (v.requires m.name)
  obtain ⟨targetPointer, htarget⟩ := Context.exists_holdsPointer ht c.target (w.requires m.name)
  unfold fieldSite
  simp only [Walk.yields_bind, Walk.yields_liftM]
  let f : FieldSite :=
    { name := m.name, source := m.source, target := m.target,
      value := s.value.field (v.fieldName m.name), place := s.place.field (w.fieldName m.name),
      placeName := w.fieldName m.name, required := v.requires m.name, sourcePrimitive := true,
      targetPrimitive := true, sourcePointer, targetPointer }
  refine ⟨f, true, hsp, true, htp, ?_⟩
  rw [Bool.and_self, if_pos rfl]
  simp only [Walk.yields_bind, Walk.yields_liftM, Walk.yields_pure]
  exact ⟨(), Registry.compatible_of_primitives hs ht _, sourcePointer, hsource, targetPointer,
    htarget, rfl⟩

theorem exists_converted? (ha : ∃ type, c.sourceRef a = .ok type)
    (hb : ∃ type, c.targetRef b = .ok type) (isPointer : Bool) (value : Expr) :
    ∃ result, c.converted? a b isPointer value = .ok result := by
  obtain ⟨source, hsource⟩ := ha
  obtain ⟨target, htarget⟩ := hb
  unfold converted?
  simp only [except_bind_eq_ok]
  by_cases hsame : (source == target || target == .primitive .any) = true
  · exact ⟨_, source, hsource, target, htarget, if_pos hsame⟩
  · exact ⟨_, source, hsource, target, htarget, if_neg hsame⟩

/-- Types can be given to the value and the result of a field, and it is known whether a primitive
    stands behind it. That is all that the code of a primitive field asks for. -/
structure Typed (c : Conversion) (f : FieldSite) : Prop where
  source : ∃ type, c.sourceRef f.source = .ok type
  target : ∃ type, c.targetRef f.target = .ok type
  kind : ∃ p, c.registry.primitive? f.source = .ok p

theorem exists_primitiveFields (taken : List String) : ∀ {fields : List FieldSite},
    (∀ f ∈ fields, c.Typed f) → ∃ code, c.primitiveFields taken fields = .ok code := by
  intro fields
  induction fields with
  | nil => exact fun _ => ⟨{}, rfl⟩
  | cons f rest ih =>
    intro h
    rw [List.forall_mem_cons] at h
    obtain ⟨code, hcode⟩ := ih h.2
    obtain ⟨result, hresult⟩ := exists_converted? h.1.source h.1.target f.sourcePointer f.value
    rw [primitiveFields]
    simp only [except_bind_eq_ok, except_pure_eq_ok]
    exact ⟨_, result, hresult, code, hcode, rfl⟩

/-- The code of a default is there for each shape it can have. The type of the target is all that a
    default may be missing, and it is there for a typed field. -/
theorem exists_laterDefault {f : FieldSite} (h : c.Typed f) : ∃ b, c.laterDefault f = .ok b := by
  obtain ⟨p, hp⟩ := h.kind
  obtain ⟨type, htype⟩ := h.target
  unfold laterDefault
  cases f.target.default with
  | none => exact ⟨[], rfl⟩
  | some default =>
    dsimp only
    unfold defaultField
    rw [hp, htype]
    dsimp only [bind, Except.bind]
    split
    · exact ⟨_, rfl⟩
    · split
      · exact ⟨_, rfl⟩
      · split
        · exact ⟨_, rfl⟩
        · exact ⟨_, rfl⟩

theorem exists_laterFields {depth : Nat} : ∀ {fields : List FieldSite},
    (∀ f ∈ fields, f.isPrimitive = true ∧ c.Typed f) →
      ∃ b, (c.laterFields emit depth fields).Yields b := by
  intro fields
  induction fields with
  | nil => exact fun _ => ⟨[], Walk.yields_pure.mpr rfl⟩
  | cons f rest ih =>
    intro h
    rw [List.forall_mem_cons] at h
    obtain ⟨⟨hp, htyped⟩, hrest⟩ := h
    obtain ⟨others, hothers⟩ := ih hrest
    obtain ⟨default, hdefault⟩ := exists_laterDefault htyped
    rw [laterFields]
    simp only [Walk.yields_bind, Walk.yields_liftM, Walk.yields_pure]
    refine ⟨_, [], ?_, default, hdefault, others, hothers, rfl⟩
    rw [laterValue, if_pos hp]
    exact Walk.yields_pure.mpr rfl

section Objects

variable (hscope : c.scope = .ofRegistry c.registry)
  (hv : ObjectView.of? c.registry s.source = .ok (some v))
  (hw : ObjectView.of? c.registry s.target = .ok (some w))
  (ht : ∃ type, c.targetRef s.target = .ok type) (hm : ∀ m ∈ matchFields v w, c.SameKind m)
include hscope hv hw ht hm

theorem exists_object : ∃ b, (c.object emit s).Yields b := by
  obtain ⟨fields, hfields⟩ := exists_forall₂ fun m hmem => exists_fieldSite (hm m hmem)
  -- Compilation of a flat object can only stop at types that do not resolve, and those of primitive
  -- fields do.
  have htyped : ∀ f ∈ fields, f.isPrimitive = true ∧ c.Typed f := by
    intro f hf
    obtain ⟨m, hmem, hfm⟩ := forall₂_mem_right hfields hf
    obtain ⟨p, hsource, htarget⟩ := hm m hmem
    have hof := fieldSite_yields hfm
    have hsp : true = f.sourcePrimitive :=
      Except.ok.inj ((Registry.isPrimitive_of_kind hsource).symm.trans hof.sourcePrimitive)
    have htp : true = f.targetPrimitive :=
      Except.ok.inj ((Registry.isPrimitive_of_kind htarget).symm.trans hof.targetPrimitive)
    refine ⟨?_, ?_, ?_, ?_⟩
    · rw [FieldSite.isPrimitive, ← hsp, ← htp, Bool.and_self]
    · rw [sourceRef, hof.source, hscope]
      exact Scope.exists_typeRef c.source (Registry.resolves_of_primitive hsource)
    · rw [targetRef, hof.target, hscope]
      exact Scope.exists_typeRef c.target (Registry.resolves_of_primitive htarget)
    · rw [hof.source]
      exact ⟨_, Registry.primitive?_of_kind hsource⟩
  obtain ⟨code, hcode⟩ := exists_primitiveFields
    (loopScope s.depth ++ s.value.root?.toList ++ s.place.root?.toList)
    fun f hf => (htyped f (List.mem_of_mem_filter hf)).2
  obtain ⟨type, htype⟩ := ht
  obtain ⟨later, hlater⟩ := exists_laterFields htyped
  unfold object
  simp only [Walk.yields_bind, Walk.yields_liftM]
  refine ⟨s.store (.allocate type code.literal) :: (code.after ++ later), some v, hv, ?_⟩
  simp only [Walk.yields_bind, Walk.yields_liftM]
  refine ⟨some w, hw, ?_⟩
  simp only [Walk.yields_bind, Walk.yields_liftM, Walk.yields_mapM, Walk.yields_pure]
  exact ⟨fields, hfields, code, hcode, type, htype, later, hlater, rfl⟩

/-- The objects are compatible, since fields play no part in that, and their code is built at the
    first level. -/
theorem exists_inline : ∃ b, (c.inline s).Yields b := by
  have hsource := Registry.kind_of_view hv
  have htarget := Registry.kind_of_view hw
  have hbudget : c.registry.pairBudget s.source s.target ≠ 0 := Registry.pairBudget_ne_zero
  obtain ⟨levels, hlevels⟩ := Nat.exists_eq_succ_of_ne_zero hbudget
  obtain ⟨b, hb⟩ : ∃ b, (c.object (c.attrWithin levels) s).Yields b :=
    exists_object hscope hv hw ht hm
  have hkind : (c.byKind (c.attrWithin levels) s).Yields b :=
    byKind_yields.mpr ⟨.object, .object, hsource, htarget, Or.inr ⟨(nomatch ·), hb⟩⟩
  have hattr : c.attrVia (c.attrWithin levels) s = c.byKind (c.attrWithin levels) s :=
    attrVia_of_compatible (Registry.compatible_of_objects hsource htarget)
  rw [← hattr] at hkind
  unfold inline
  rw [hlevels]
  exact ⟨b, hkind⟩

end Objects

/-- The search finds no helper below primitives. It takes a single level, and the names met are
    those from before. -/
theorem collectWithin_of_primitives {α : Type} (make : String → HelperSite → Walk α) (levels : Nat)
    {x : HelperSite} {p : Primitive} (hs : c.registry.kind x.source = .ok (.primitive p))
    (ht : c.registry.kind x.target = .ok (.primitive p)) (met : List String) :
    (c.collectWithin make (levels + 1) x).Yields met [] met := by
  have hcalls : (c.callsHelper x.source x.target).Yields false := by
    unfold callsHelper
    split
    · exact Walk.yields_pure.mpr rfl
    · simp only [Walk.yields_bind, Walk.yields_liftM]
      refine ⟨true, Registry.isPrimitive_of_kind hs, ?_⟩
      rw [if_pos rfl]
      exact Walk.yields_pure.mpr rfl
  have hreconcile : (c.reconcile x.source x.target).Yields (x.source, x.target) :=
    (reconcile_yields_iff (p := (x.source, x.target))).mpr
      (Or.inl ⟨Registry.compatible_of_primitives hs ht {}, rfl⟩)
  have hmembers : c.members x.source x.target = .ok [] := by
    unfold members
    dsimp only
    rw [hs]
    rfl
  rw [collectWithin]
  simp only [HelperWalk.yields_bind, HelperWalk.yields_liftM]
  refine ⟨false, met, ⟨hcalls, rfl⟩, ?_⟩
  rw [if_neg Bool.false_ne_true, collectMembers]
  simp only [HelperWalk.yields_bind, HelperWalk.yields_liftM, HelperWalk.yields_liftExcept]
  refine ⟨_, met, ⟨hreconcile, rfl⟩, ?_⟩
  dsimp only
  refine ⟨[], met, ⟨hmembers, rfl⟩, ?_⟩
  exact HelperWalk.yields_pure.mpr ⟨rfl, rfl⟩

theorem collectAll_of_nothing {α : Type} {collect : HelperSite → HelperWalk (List α)}
    {met : List String} : ∀ {sites : List HelperSite},
      (∀ x ∈ sites, (collect x).Yields met [] met) →
        (collectAll collect sites).Yields met [] met := by
  intro sites
  induction sites with
  | nil => exact fun _ => HelperWalk.yields_pure.mpr ⟨rfl, rfl⟩
  | cons x rest ih =>
    intro h
    rw [List.forall_mem_cons] at h
    rw [collectAll]
    simp only [HelperWalk.yields_bind, HelperWalk.yields_pure]
    exact ⟨[], met, h.1, [], met, ih h.2, rfl, rfl⟩

/-- A request between such objects succeeds from any names, without meeting any. There is nothing to
    search, so the helpers are those of no position at all, in any state. -/
theorem exists_compile (hscope : c.scope = .ofRegistry c.registry)
    (hv : ObjectView.of? c.registry s.source = .ok (some v))
    (hw : ObjectView.of? c.registry s.target = .ok (some w))
    (ht : ∃ type, c.targetRef s.target = .ok type) (hm : ∀ m ∈ matchFields v w, c.SameKind m)
    (met : List String) : ∃ body, (c.compile s).Yields met ⟨body, []⟩ met := by
  obtain ⟨body, hbody⟩ := exists_inline hscope hv hw ht hm
  have hreconcile : (c.reconcile s.source s.target).Yields (s.source, s.target) :=
    (reconcile_yields_iff (p := (s.source, s.target))).mpr (Or.inl
      ⟨Registry.compatible_of_objects (Registry.kind_of_view hv) (Registry.kind_of_view hw), rfl⟩)
  have hmembers : c.members s.source s.target =
      .ok ((matchFields v w).map fun m => ⟨m.source, m.target, v.requires m.name⟩) := by
    unfold members
    dsimp only
    rw [Registry.kind_of_view hv, hv, hw]
    rfl
  have hsorted : Helper.sorted [] = [] := List.mergeSort_nil
  refine ⟨body, compile_yields.mpr ⟨hbody, [], ?_, hsorted.symm⟩⟩
  rw [collect, collectMembers]
  simp only [HelperWalk.yields_bind, HelperWalk.yields_liftM, HelperWalk.yields_liftExcept]
  refine ⟨_, met, ⟨hreconcile, rfl⟩, ?_⟩
  dsimp only
  refine ⟨_, met, ⟨hmembers, rfl⟩, collectAll_of_nothing fun x hx => ?_⟩
  obtain ⟨m, hmem, rfl⟩ := List.mem_map.mp hx
  obtain ⟨p, hsource, htarget⟩ := hm m hmem
  have hbudget : c.searchBudget s.source s.target ≠ 0 :=
    Nat.mul_ne_zero Registry.pairBudget_ne_zero Registry.pairBudget_ne_zero
  -- One level is enough for the search, and there is at least one.
  obtain ⟨levels, hlevels⟩ := Nat.exists_eq_succ_of_ne_zero hbudget
  rw [hlevels]
  exact collectWithin_of_primitives _ levels hsource htarget met

end Conversion
end Shapewright
