import Shapewright.Projection.Derived
import Shapewright.Proofs.Growth
import Shapewright.Proofs.Layout

/-!
# Deriving projected types

The projection of an object whose fields are all primitives asks for no further projections: its
fields are those that the view shows, each with the primitive in place of the alias. A registry with
such projections added has grown, unless one of their identities was taken.

## What is simple here and what is not

Derivation is a recursion through types and views with a table of what is under way, as projections
may be cyclic. For flat objects none of that matters: one level is enough, and the result can be
given in full. This is what a converter between an object and its projection needs, and the lemmas
say so for whole views: the derivation is shown to succeed (`exists_projectWithin`) and not merely
to be right if it does.

The general case, where fields are projected in turn, is in `Proofs.Projection.Images`.

## The order of things

Fields are projected in the order of the view, and one that the view lists twice is projected once
more in its place. So the invariant of the loop over a view (`ShowsFields`) speaks of the names so
far as a set, and of the fields as a list without repetitions. Requirements are filtered at the end,
since a view cannot make a field required, or leave it so if it is not shown.

Each view is asked for on its own, but all of them fill one table. `Built` is the invariant of that
second loop. What is in the table stays there, so that the views asked for first are still there
when the types are added to the registry (`exists_extend`).
-/

namespace Shapewright

namespace Ordered

variable {κ α : Type} [BEq κ] [LawfulBEq κ] {entries : List (κ × α)} {key other : κ} {value : α}

/-- What is in a table after an insertion was there before, or is new. This is enough for what all
    entries have in common; where an entry stands is said by `keys_insert`. -/
theorem mem_insert {e : κ × α} (h : e ∈ insert entries key value) :
    e = (key, value) ∨ e ∈ entries := by
  induction entries with
  | nil => exact Or.inl (List.mem_singleton.mp h)
  | cons x rest ih =>
    obtain ⟨k, v⟩ := x
    rw [insert] at h
    split at h
    · rename_i hk
      rcases List.mem_cons.mp h with rfl | h
      · exact Or.inl (by rw [eq_of_beq hk])
      · exact Or.inr (List.mem_cons_of_mem _ h)
    · rcases List.mem_cons.mp h with rfl | h
      · exact Or.inr List.mem_cons_self
      · exact (ih h).imp_right (List.mem_cons_of_mem _)

theorem mem_keys_insert :
    other ∈ (insert entries key value).map Prod.fst ↔
      other = key ∨ other ∈ entries.map Prod.fst := by
  induction entries with
  | nil => simp [insert]
  | cons x rest ih =>
    obtain ⟨k, v⟩ := x
    rw [insert]
    split
    · rename_i hk
      rw [eq_of_beq hk]
      simp
    · rw [List.map_cons, List.mem_cons, List.map_cons, List.mem_cons, ih]
      exact or_left_comm

/-- A key is never there twice. So the entry that is found under a key is the only one. -/
theorem nodup_keys_insert (h : (entries.map Prod.fst).Nodup) :
    ((insert entries key value).map Prod.fst).Nodup := by
  induction entries with
  | nil => simp [insert]
  | cons x rest ih =>
    obtain ⟨k, v⟩ := x
    rw [List.map_cons, List.nodup_cons] at h
    rw [insert]
    split
    · exact List.nodup_cons.mpr h
    · rename_i hk
      rw [List.map_cons, List.nodup_cons, mem_keys_insert, not_or]
      refine ⟨⟨fun heq => hk ?_, h.1⟩, ih h.2⟩
      rw [show k = key from heq, beq_self_eq_true]

/-- A key that is there stays where it is, and a new one goes behind all others. -/
theorem keys_insert : (insert entries key value).map Prod.fst =
    entries.map Prod.fst ++ [key].removeAll (entries.map Prod.fst) := by
  induction entries with
  | nil => simp [insert]
  | cons x rest ih =>
    obtain ⟨k, v⟩ := x
    rw [insert, List.map_cons, List.removeAll_cons]
    split
    · rename_i hk
      simp [eq_of_beq hk]
    · rename_i hk
      have hother : (key == k) = false := by
        rw [beq_eq_false_iff_ne]
        exact fun heq => hk (heq ▸ beq_self_eq_true key)
      rw [List.map_cons, ih, List.filter_singleton, hother]
      rfl

theorem get?_insert_self : get? (insert entries key value) key = some value := by
  induction entries with
  | nil => simp [insert, get?]
  | cons x rest ih =>
    obtain ⟨k, v⟩ := x
    rw [insert]
    split
    · rename_i hk
      rw [get?, if_pos hk]
    · rename_i hk
      rw [get?, if_neg hk, ih]

theorem get?_insert_ne (hne : other ≠ key) :
    get? (insert entries key value) other = get? entries other := by
  induction entries with
  | nil =>
    have hkey : (key == other) = false := beq_eq_false_iff_ne.mpr hne.symm
    simp [insert, get?, hkey]
  | cons x rest ih =>
    obtain ⟨k, v⟩ := x
    rw [insert]
    split
    · rename_i hk
      have hother : ¬ (k == other) := by
        rw [beq_iff_eq, eq_of_beq hk]
        exact hne.symm
      rw [get?, if_neg hother, get?, if_neg hother]
    · rw [get?, get?, ih]

/-- The entry that was replaced is gone. -/
theorem mem_insert_of_nodup {e : κ × α} (hn : (entries.map Prod.fst).Nodup)
    (h : e ∈ insert entries key value) : e = (key, value) ∨ e ∈ entries ∧ e.1 ≠ key := by
  obtain ⟨k, v⟩ := e
  by_cases hk : k = key
  · subst hk
    have hv := (get?_of_mem (nodup_keys_insert hn) h).symm.trans get?_insert_self
    exact .inl (by rw [Option.some.inj hv])
  · refine .inr ⟨(mem_insert h).resolve_left fun heq => hk ?_, hk⟩
    exact congrArg Prod.fst heq

end Ordered

namespace Projection

/-! ## Outcomes -/

namespace Deriving

variable {α β : Type} {s s' s'' : Progress}

/-- From the types in `s`, the derivation ends well, with `a` and the types in `s'`. The table of
    types is part of the state, so what a derivation finds depends on where it starts. -/
def Yields (w : Deriving α) (s : Progress) (a : α) (s' : Progress) : Prop :=
  (w.run s).Yields (a, s')

@[simp] theorem yields_bind {w : Deriving α} {f : α → Deriving β} {b : β} :
    Yields (w >>= f) s b s'' ↔ ∃ a s', Yields w s a s' ∧ Yields (f a) s' b s'' := by
  unfold Yields
  rw [StateT.run_bind]
  simp only [Walk.yields_bind, Prod.exists]

@[simp] theorem yields_pure {a b : α} : Yields (pure a) s b s' ↔ a = b ∧ s = s' := by
  unfold Yields
  rw [StateT.run_pure, Walk.yields_pure, Prod.mk.injEq]

@[simp] theorem yields_liftM {e : Except Fault α} {a : α} :
    Yields (liftM e) s a s' ↔ e = .ok a ∧ s = s' := by
  cases e with
  | error why => simp [Yields, Walk.Yields, liftM, monadLift, MonadLift.monadLift]
  | ok b => simp [Yields, Walk.Yields, liftM, monadLift, MonadLift.monadLift]

@[simp] theorem yields_get {a : Progress} : Yields get s a s' ↔ s = a ∧ s = s' := by
  unfold Yields
  rw [StateT.run_get, Walk.yields_pure, Prod.mk.injEq]

@[simp] theorem yields_modify {f : Progress → Progress} : Yields (modify f) s () s' ↔ f s = s' := by
  unfold Yields
  rw [StateT.run_modify, Walk.yields_pure, Prod.mk.injEq, eq_self, true_and]

@[simp] theorem yields_throw {f : Fault} {a : α} : ¬ Yields (throw f) s a s' := by
  simp [Yields, Walk.Yields, throw, throwThe, MonadExceptOf.throw]

@[simp] theorem yields_exhausted {a : α} : ¬ Yields (StateT.lift .exhausted) s a s' := by
  unfold Yields
  simp

end Deriving
variable {reg : Registry} {project : ViewedType → Deriving TypeId} {a : Attribute}

/-! ## Fields -/

/-- A primitive as it is shown: without the reference to it, and without the tag of a view. The
    rules are not compared, as those of the alias may have been put in. -/
structure ShownAs (reg : Registry) (a b : Attribute) : Prop where
  type : ∃ p, reg.kind a = .ok (.primitive p) ∧ b.type = .primitive p
  overrides : b.overrides = { a.overrides with view := none }
  default : b.default = a.default

theorem ShownAs.kind {b : Attribute} (h : ShownAs reg a b) :
    ∃ p, reg.kind a = .ok (.primitive p) ∧ reg.kind b = .ok (.primitive p) := by
  obtain ⟨p, hp, htype⟩ := h.type
  have hresolve : reg.resolve b = .ok b := by
    refine Registry.resolve_of_userId?_eq_none ?_
    rw [Attribute.userId?, htype]
  refine ⟨p, hp, ?_⟩
  rw [Registry.kind_eq_of_resolve hresolve, htype]

theorem ShownAs.isPrimitive {b : Attribute} (h : ShownAs reg a b) :
    reg.isPrimitive a = .ok true ∧ reg.isPrimitive b = .ok true := by
  obtain ⟨p, ha, hb⟩ := h.kind
  exact ⟨Registry.isPrimitive_of_kind ha, Registry.isPrimitive_of_kind hb⟩

theorem ShownAs.primitive? {b : Attribute} (h : ShownAs reg a b) :
    reg.primitive? b = reg.primitive? a := by
  obtain ⟨p, ha, hb⟩ := h.kind
  rw [Registry.primitive?_of_kind ha, Registry.primitive?_of_kind hb]

theorem ShownAs.grows {reg' : Registry} {b : Attribute} (h : ShownAs reg a b)
    (hg : reg.Grows reg') : ShownAs reg' a b := by
  obtain ⟨p, hp, htype⟩ := h.type
  exact ⟨⟨p, hg.kind hp, htype⟩, h.overrides, h.default⟩

/-- A primitive is projected in one step, be it an alias or not, and leaves the table as it is. An
    alias is replaced by its primitive, with the rules of the primitive if the attribute has
    none. -/
theorem exists_projectAttr (project : ViewedType → Deriving TypeId) (view : Option String)
    (h : reg.isPrimitive a = .ok true) :
    ∃ b, ShownAs reg a b ∧ ∀ s, Deriving.Yields (projectAttr reg project a view) s b s := by
  obtain ⟨p, hk⟩ := Registry.exists_kind h
  obtain ⟨type, description, rules, overrides, default⟩ := a
  -- An alias is resolved and its primitive written out, with the rules of the alias where there are
  -- none of its own.
  cases type with
  | user id =>
    have hsame : Attribute.BothRefer id
        ⟨.user id, description, rules, { overrides with view := none }, default⟩
        ⟨.user id, description, rules, overrides, default⟩ := ⟨rfl, rfl⟩
    obtain ⟨r, hr, hkind⟩ := except_bind_eq_ok.mp hk
    have htype : r.type = .primitive p := by
      have h := (Registry.kind_eq_of_resolve hr).symm.trans hk
      split at h <;> cases h
      assumption
    refine ⟨⟨.primitive p, description, if rules.isEmpty then r.rules else rules,
      { overrides with view := none }, default⟩, ⟨⟨p, hk, rfl⟩, rfl, rfl⟩, fun s => ?_⟩
    rw [projectAttr, projectUser]
    simp only [Deriving.yields_bind, Deriving.yields_liftM]
    refine ⟨_, s, ⟨hsame.kind_eq.trans hk, rfl⟩, ?_⟩
    simp only [Deriving.yields_bind, Deriving.yields_liftM, Deriving.yields_pure]
    refine ⟨r, s, ⟨hsame.resolve_eq.trans hr, rfl⟩, ?_, rfl⟩
    rw [htype]
  | primitive p =>
    have hk : reg.kind ⟨.primitive p, description, rules, overrides, default⟩ =
        .ok (.primitive p) := Registry.kind_eq_of_resolve (Registry.resolve_of_userId?_eq_none rfl)
    refine ⟨⟨.primitive p, description, rules, { overrides with view := none }, default⟩,
      ⟨⟨p, hk, rfl⟩, rfl, rfl⟩, fun s => ?_⟩
    rw [projectAttr, Deriving.yields_pure]
    exact ⟨rfl, rfl⟩
  | _ =>
    rw [Registry.kind_eq_of_resolve (Registry.resolve_of_userId?_eq_none rfl)] at hk
    cases hk

/-- Among the fields, the shown ones are those with the names. Each name is there once, even if the
    view lists it several times. -/
structure ShowsFields (reg : Registry) (fields shown : List (String × Attribute))
    (names : List String) : Prop where
  nodup : (shown.map Prod.fst).Nodup
  names : ∀ name, name ∈ shown.map Prod.fst ↔ name ∈ names
  shown : ∀ y ∈ shown, ∃ a, Ordered.get? fields y.1 = some a ∧ ShownAs reg a y.2

/-- The loop over a view. It goes on from the fields shown so far, so the statement is one on any
    part of the view. -/
theorem exists_projectShown (project : ViewedType → Deriving TypeId) (typeName view : String)
    {fields : List (String × Attribute)} (hp : ∀ y ∈ fields, reg.isPrimitive y.2 = .ok true) :
    ∀ {members : List ViewAttribute} {shown : List (String × Attribute)} {names : List String},
      (∀ va ∈ members, va.field ∈ fields.map Prod.fst) → ShowsFields reg fields shown names →
      ∃ all, ShowsFields reg fields all (names ++ members.map (·.field)) ∧
        ∀ s, Deriving.Yields (projectShown reg project typeName view fields shown members) s all
          s := by
  intro members
  induction members with
  | nil =>
    intro shown names _ h
    refine ⟨shown, ?_, fun s => ?_⟩
    · rw [List.map_nil, List.append_nil]
      exact h
    · rw [projectShown, Deriving.yields_pure]
      exact ⟨rfl, rfl⟩
  | cons va rest ih =>
    intro shown names hdeclared h
    rw [List.forall_mem_cons] at hdeclared
    obtain ⟨a, ha⟩ := Ordered.exists_get? hdeclared.1
    obtain ⟨b, hb, hyields⟩ := exists_projectAttr project (va.view?.or a.overrides.view)
      (hp _ (Ordered.mem_of_get? ha))
    -- The next field is put at the end, or in the place of itself if the view lists it again.
    have hnext :
        ShowsFields reg fields (Ordered.insert shown va.field b) (names ++ [va.field]) := by
      refine ⟨Ordered.nodup_keys_insert h.nodup, fun name => ?_, fun y hy => ?_⟩
      · rw [Ordered.mem_keys_insert, h.names, List.mem_append, List.mem_singleton, or_comm]
      · rcases Ordered.mem_insert hy with rfl | hy
        · exact ⟨a, ha, hb⟩
        · exact h.shown y hy
    obtain ⟨all, hall, hrest⟩ := ih hdeclared.2 hnext
    refine ⟨all, ?_, fun s => ?_⟩
    · rw [List.append_assoc] at hall
      exact hall
    · rw [projectShown, ha]
      simp only [Deriving.yields_bind]
      exact ⟨b, s, hyields s, hrest s⟩

/-! ## Types -/

variable {id : TypeId} {v w : ObjectView} {t : UserType} {view : String} {views names : List String}
  {built : List (TypeId × UserType)}

/-- What a view lists, or every field where there is no view. -/
def listed (found : Option View) (v : ObjectView) : List ViewAttribute :=
  match found with
  | some view => view.attributes
  | none => v.fields.map fun (name, _) => .name name

/-- Under the view, a type that is the object `v` shows the fields with the names. The view lists
    nothing that the object does not declare. -/
structure Shows (reg : Registry) (id : TypeId) (v : ObjectView) (view : String)
    (names : List String) : Prop where
  view? : ∃ found, reg.view? id view = .ok found ∧ (listed found v).map (·.field) = names
  declared : ∀ name ∈ names, name ∈ v.fields.map Prod.fst

theorem Shows.unique {names' : List String} (h : Shows reg id v view names)
    (h' : Shows reg id v view names') : names = names' := by
  obtain ⟨found, hfound, rfl⟩ := h.view?
  obtain ⟨found', hfound', rfl⟩ := h'.view?
  rw [Except.ok.inj (hfound.symm.trans hfound')]

/-- The object `w` is the projection of `v` to the fields with the names. A shown field is required
    if it was. -/
structure Projects (reg : Registry) (v : ObjectView) (names : List String) (w : ObjectView) :
    Prop where
  type : w.declared.type = .object w.fields
  required : w.declared.rules.required = names.filter v.requires
  fields : ShowsFields reg v.fields w.fields names

section Projects

variable (h : Projects reg v names w) {name : String} {b : Attribute}
include h

theorem Projects.mem_names : name ∈ w.fields.map Prod.fst ↔ name ∈ names := h.fields.names name

theorem Projects.field? (hb : (name, b) ∈ w.fields) : w.field? name = some b :=
  Ordered.get?_of_mem h.fields.nodup hb

theorem Projects.shownAs (hb : (name, b) ∈ w.fields) (ha : v.field? name = some a) :
    ShownAs reg a b := by
  obtain ⟨a', ha', hshown⟩ := h.fields.shown _ hb
  obtain rfl := Option.some.inj (ha'.symm.trans ha)
  exact hshown

theorem Projects.fieldName (hb : (name, b) ∈ w.fields) : w.fieldName name = v.fieldName name := by
  obtain ⟨a, ha, hshown⟩ := h.fields.shown _ hb
  have hfield : v.field? name = some a := ha
  rw [ObjectView.fieldName, ObjectView.fieldName, h.field? hb, hfield, Option.getD_some,
    Option.getD_some, Attribute.fieldName, Attribute.fieldName, hshown.overrides]

theorem Projects.requires (hname : name ∈ names) : w.requires name = v.requires name := by
  rw [ObjectView.requires, Attribute.requires, h.required, Bool.eq_iff_iff,
    List.contains_iff_mem, List.mem_filter, and_iff_right hname]

/-- Fields of the projection have the generated names they had, so these are different if they
    were. -/
theorem Projects.distinct (hd : v.Distinct) : w.Distinct := by
  have hmap : w.fields.map (fun x => w.fieldName x.1) =
      (w.fields.map Prod.fst).map v.fieldName := by
    rw [List.map_map]
    exact List.map_congr_left fun x hx => h.fieldName hx
  have hdeclared : ∀ x ∈ w.fields.map Prod.fst, x ∈ v.fields.map Prod.fst := by
    intro x hx
    obtain ⟨e, he, rfl⟩ := List.mem_map.mp hx
    obtain ⟨a, ha, -⟩ := h.fields.shown e he
    exact List.mem_map.mpr ⟨_, Ordered.mem_of_get? ha, rfl⟩
  unfold ObjectView.Distinct
  rw [hmap]
  exact List.Nodup.map_on
    (fun x hx y hy heq => hd.fieldName_injOn (hdeclared x hx) (hdeclared y hy) heq) h.fields.nodup

end Projects

section Object

variable (hf : reg.find? id = some t) (hv : ObjectView.of? reg (.user id) = .ok (some v))
  (hp : ∀ y ∈ v.fields, reg.isPrimitive y.2 = .ok true)
include hf hv hp

/-- A definition is projected in one go, since no field asks for another projection. A field that is
    a result itself would add to the table. -/
theorem exists_projectDefinition (project : ViewedType → Deriving TypeId)
    (hs : Shows reg id v view names) : ∃ w, Projects reg v names w ∧
      ∀ s, Deriving.Yields (projectDefinition reg project t view) s w.declared s := by
  obtain ⟨hr, htype⟩ := Registry.view_eq_some.mp hv
  have hr := Registry.resolve_definition hf hr
  have hkind : reg.kind t.definition = .ok .object := by
    rw [Registry.kind_eq_of_resolve hr, htype]
  obtain ⟨found, hfound, hnames⟩ := hs.view?
  have hid : t.id = id := (Registry.mem_types_of_find? hf).2
  -- A view may list names that the type does not declare. The premise says that this one does not.
  have hdeclared : ∀ va ∈ listed found v, va.field ∈ v.fields.map Prod.fst := by
    intro va hva
    exact hs.declared _ (hnames ▸ List.mem_map_of_mem hva)
  have hnone : ShowsFields reg v.fields [] [] :=
    ⟨List.nodup_nil, fun _ => Iff.rfl, fun _ hy => absurd hy List.not_mem_nil⟩
  obtain ⟨all, hall, hyields⟩ := exists_projectShown project t.name view hp hdeclared hnone
  rw [List.nil_append, hnames] at hall
  refine ⟨⟨⟨.object all, t.definition.description, { required := names.filter v.requires }, {},
    none⟩, all⟩, ⟨rfl, rfl, hall⟩, fun s => ?_⟩
  unfold projectDefinition projectObject
  simp only [Deriving.yields_bind, Deriving.yields_liftM]
  refine ⟨_, s, ⟨hkind, rfl⟩, ?_⟩
  simp only [Deriving.yields_bind, Deriving.yields_liftM]
  refine ⟨_, s, ⟨hr, rfl⟩, ?_⟩
  rw [htype]
  simp only [Deriving.yields_bind, Deriving.yields_liftM, Deriving.yields_pure]
  rw [hid]
  refine ⟨found, s, ⟨hfound, rfl⟩, all, s, hyields s, ?_, rfl⟩
  rw [← hnames]
  rfl

end Object

theorem projectedId_injective {other : String}
    (h : ViewedType.projectedId ⟨id, view⟩ = ViewedType.projectedId ⟨id, other⟩) :
    view = other := by
  unfold ViewedType.projectedId at h
  exact String.append_right_inj _ |>.mp h

/-- Every type that was asked for is a projection of the object `v`, and has been built. An object
    of primitives leads to no other types, so its views are all there is. -/
structure Built (reg : Registry) (id : TypeId) (v : ObjectView) (views : List String)
    (s : Progress) : Prop where
  ids : ∀ e ∈ s.ids, e.1.type = id ∧ e.1.view ∈ views ∧ e.2 = ViewedType.projectedId e.1
  built : ∀ e ∈ s.ids, ∃ t names w, Ordered.get? s.built e.2 = some t ∧ t.id = e.2 ∧
    t.definition = w.declared ∧ Shows reg id v e.1.view names ∧ Projects reg v names w

section Derive

variable (hv : ObjectView.of? reg (.user id) = .ok (some v))
  (hp : ∀ y ∈ v.fields, reg.isPrimitive y.2 = .ok true)
include hv hp

/-- The projection to a view is found in the table, or built and put there. Views of one type only
    are in the table, so being built says all that is to be known about it. -/
theorem exists_projectWithin (levels : Nat) {s : Progress} (hview : view ∈ views)
    (hs : Shows reg id v view names) (hb : Built reg id v views s) :
    ∃ s', Deriving.Yields (projectWithin reg (levels + 1) ⟨id, view⟩) s
        (ViewedType.projectedId ⟨id, view⟩) s' ∧ Built reg id v views s' ∧
      ∀ k, k = ⟨id, view⟩ ∨ k ∈ s.ids.map Prod.fst → k ∈ s'.ids.map Prod.fst := by
  obtain ⟨hr, -⟩ := Registry.view_eq_some.mp hv
  obtain ⟨t, hf⟩ := Registry.find?_of_kind rfl (Registry.kind_of_view hv)
  have hget : reg.get id = .ok t := by
    rw [Registry.get, hf]
  rw [projectWithin]
  simp only [Deriving.yields_bind, Deriving.yields_get]
  cases hknown : Ordered.get? s.ids ⟨id, view⟩ with
  | some pid =>
    obtain ⟨-, -, hpid⟩ := hb.ids _ (Ordered.mem_of_get? hknown)
    refine ⟨s, ⟨s, s, ⟨rfl, rfl⟩, ?_⟩, hb, fun k hk => ?_⟩
    · rw [hknown]
      exact Deriving.yields_pure.mpr ⟨hpid, rfl⟩
    · rcases hk with rfl | hk
      · exact List.mem_map.mpr ⟨_, Ordered.mem_of_get? hknown, rfl⟩
      · exact hk
  | none =>
    obtain ⟨w, hw, hyields⟩ := exists_projectDefinition hf hv hp (projectWithin reg levels) hs
    let pid := ViewedType.projectedId ⟨id, view⟩
    let projected : UserType :=
      { id := pid, name := projectedName t view, definition := w.declared }
    refine ⟨⟨Ordered.insert s.ids ⟨id, view⟩ pid, Ordered.insert s.built pid projected⟩,
      ⟨s, s, ⟨rfl, rfl⟩, ?_⟩, ⟨fun e he => ?_, fun e he => ?_⟩, fun k hk => ?_⟩
    · rw [hknown]
      simp only [Deriving.yields_bind, Deriving.yields_liftM, Deriving.yields_pure]
      refine ⟨t, s, ⟨hget, rfl⟩, (), _, Deriving.yields_modify.mpr rfl, _, _, hyields _, (), _,
        Deriving.yields_modify.mpr rfl, trivial, rfl⟩
    · rcases Ordered.mem_insert he with rfl | he
      · exact ⟨rfl, hview, rfl⟩
      · exact hb.ids e he
    · rcases Ordered.mem_insert he with rfl | hmem
      · exact ⟨projected, names, w, Ordered.get?_insert_self, rfl, rfl, hs, hw⟩
      · obtain ⟨hid, -, hpid⟩ := hb.ids e hmem
        -- The new type must not replace one that was built before, so no projection in the table
        -- may have its identity. Identities of one type differ by the view.
        have hne : e.2 ≠ pid := by
          intro heq
          obtain ⟨⟨type, other⟩, i⟩ := e
          obtain rfl : type = id := hid
          obtain rfl : other = view := projectedId_injective (hpid.symm.trans heq)
          have hkey : (⟨type, other⟩ : ViewedType) ∈ s.ids.map Prod.fst :=
            List.mem_map.mpr ⟨_, hmem, rfl⟩
          obtain ⟨pid', hpid'⟩ := Ordered.exists_get? hkey
          rw [hknown] at hpid'
          cases hpid'
        obtain ⟨u, names', w', hu, rest⟩ := hb.built e hmem
        refine ⟨u, names', w', ?_, rest⟩
        rw [Ordered.get?_insert_ne hne]
        exact hu
    · exact Ordered.mem_keys_insert.mpr hk

/-- All views are projected one after another. What was in the table before is not lost. By
    induction on the views, of which some may occur twice. -/
theorem exists_projectEach {levels : Nat} : ∀ {rest : List String} {s : Progress},
    (∀ view ∈ rest, view ∈ views ∧ ∃ names, Shows reg id v view names) → Built reg id v views s →
    ∃ s', Deriving.Yields (rest.forM fun view => do
        let _ ← projectWithin reg (levels + 1) ⟨id, view⟩) s () s' ∧
      Built reg id v views s' ∧ (∀ view ∈ rest, ⟨id, view⟩ ∈ s'.ids.map Prod.fst) ∧
      ∀ k ∈ s.ids.map Prod.fst, k ∈ s'.ids.map Prod.fst := by
  intro rest
  induction rest with
  | nil =>
    intro s _ hb
    refine ⟨s, ?_, hb, fun view h => absurd h List.not_mem_nil, fun k hk => hk⟩
    rw [List.forM_eq_forM, List.forM_nil, Deriving.yields_pure]
    exact ⟨rfl, rfl⟩
  | cons view rest ih =>
    intro s hviews hb
    rw [List.forall_mem_cons] at hviews
    obtain ⟨⟨hview, names, hs⟩, hrest⟩ := hviews
    obtain ⟨s₁, hyields, hb₁, hkeys⟩ := exists_projectWithin hv hp levels hview hs hb
    -- The table only grows, so a view that was projected first is still there after the last.
    obtain ⟨s₂, hyields₂, hb₂, hall, hkeep⟩ := ih hrest hb₁
    refine ⟨s₂, ?_, hb₂, ?_, fun k hk => hkeep k (hkeys k (Or.inr hk))⟩
    · rw [List.forM_eq_forM, List.forM_cons]
      simp only [Deriving.yields_bind, Deriving.yields_pure]
      exact ⟨(), s₁, ⟨_, s₁, hyields, trivial, rfl⟩, hyields₂⟩
    · rw [List.forall_mem_cons]
      exact ⟨hkeep _ (hkeys _ (Or.inl rfl)), hall⟩

end Derive

/-! ## Registries -/

/-- The types that were built are added, and all others stay. They are added under the identities
    that they were built for, and with a default view. -/
theorem exists_extend {ids : List TypeId} : ∀ (reg : Registry),
    (∀ i ∈ ids, ∃ t, Ordered.get? built i = some t ∧ t.id = i) →
    ∃ reg', extend built reg ids = .ok reg' ∧ reg.size ≤ reg'.size ∧
      (∀ i ∈ ids, ∃ t, Ordered.get? built i = some t ∧
        reg'.find? i = some t.named.withDefaultView) ∧
      ∀ i ∉ ids, reg'.find? i = reg.find? i := by
  induction ids with
  | nil =>
    intro reg _
    exact ⟨reg, rfl, Nat.le_refl _, fun i hi => absurd hi List.not_mem_nil, fun i _ => rfl⟩
  | cons i rest ih =>
    intro reg h
    rw [List.forall_mem_cons] at h
    obtain ⟨⟨t, ht, hid⟩, hrest⟩ := h
    obtain ⟨reg', hextend, hsize, hnew, hold⟩ := ih (reg.insert t) hrest
    refine ⟨reg', ?_, Nat.le_trans (Registry.size_insert reg t) hsize, ?_, fun j hj => ?_⟩
    · rw [extend, ht]
      exact hextend
    · rw [List.forall_mem_cons]
      refine ⟨⟨t, ht, ?_⟩, hnew⟩
      -- An identity that comes again is inserted again, with the same type.
      by_cases hi : i ∈ rest
      · obtain ⟨u, hu, hfind⟩ := hnew i hi
        obtain rfl := Option.some.inj (hu.symm.trans ht)
        exact hfind
      · rw [hold i hi, Registry.find?_insert, if_pos hid]
    · rw [List.mem_cons, not_or] at hj
      rw [hold j hj.2, Registry.find?_insert, if_neg fun heq => hj.1 (heq.symm.trans hid)]

/-- The views of an object with primitive fields are derived, and the registry has grown by them,
    unless one of their identities was taken. Then the projection would replace the type. -/
theorem exists_derive (hv : ObjectView.of? reg (.user id) = .ok (some v))
    (hp : ∀ y ∈ v.fields, reg.isPrimitive y.2 = .ok true)
    (hviews : ∀ view ∈ views, ∃ names, Shows reg id v view names)
    (hfresh : ∀ view ∈ views, reg.find? (ViewedType.projectedId ⟨id, view⟩) = none) :
    ∃ derived, (derive reg id views).Yields derived ∧ reg.Grows derived.registry ∧
      ∀ view ∈ views,
        Ordered.get? derived.ids ⟨id, view⟩ = some (ViewedType.projectedId ⟨id, view⟩) ∧
        ∃ names w, Shows reg id v view names ∧ Projects reg v names w ∧
          ObjectView.of? derived.registry (.user (ViewedType.projectedId ⟨id, view⟩)) =
            .ok (some w) := by
  have hnothing : Built reg id v views {} :=
    ⟨fun e he => absurd he List.not_mem_nil, fun e he => absurd he List.not_mem_nil⟩
  obtain ⟨s, hyields, hb, hkeys, -⟩ := exists_projectEach hv hp
    (fun view hview => ⟨hview, hviews view hview⟩) hnothing
  have hbuilt : ∀ i ∈ s.ids.map Prod.snd, ∃ t, Ordered.get? s.built i = some t ∧ t.id = i := by
    intro i hi
    obtain ⟨e, he, rfl⟩ := List.mem_map.mp hi
    obtain ⟨t, -, -, ht, hid, -⟩ := hb.built e he
    exact ⟨t, ht, hid⟩
  obtain ⟨reg', hextend, hsize, hnew, hold⟩ := exists_extend reg hbuilt
  refine ⟨⟨reg', s.ids⟩, ?_, ⟨fun {i t} hf => ?_, hsize⟩, fun view hview => ?_⟩
  · unfold derive
    simp only [Walk.yields_bind, Walk.yields_pure, Walk.yields_liftM]
    exact ⟨((), s), hyields, reg', hextend, rfl⟩
  -- No identity of a projection is that of a type of the registry, so all of these are found as
  -- before.
  · rw [hold]
    · exact hf
    · intro hi
      obtain ⟨e, he, rfl⟩ := List.mem_map.mp hi
      obtain ⟨hid, hview, hpid⟩ := hb.ids e he
      obtain ⟨⟨type, view⟩, i⟩ := e
      obtain rfl : type = id := hid
      obtain rfl : i = ViewedType.projectedId ⟨type, view⟩ := hpid
      rw [hfresh view hview] at hf
      cases hf
  · obtain ⟨pid, hpid⟩ := Ordered.exists_get? (hkeys view hview)
    have he := Ordered.mem_of_get? hpid
    obtain rfl : pid = ViewedType.projectedId ⟨id, view⟩ := (hb.ids _ he).2.2
    obtain ⟨t, names, w, ht, hid, hdefinition, hs, hw⟩ := hb.built _ he
    refine ⟨hpid, names, w, hs, hw, ?_⟩
    obtain ⟨u, hu, hfind⟩ := hnew _ (List.mem_map_of_mem he)
    obtain rfl := Option.some.inj (ht.symm.trans hu)
    have hsame : t.named.withDefaultView.definition = w.declared := by
      rw [UserType.definition_withDefaultView, UserType.definition_named, hdefinition]
    refine Registry.view_eq_some.mpr ⟨hsame ▸ Registry.resolve_user hfind ?_, hw.type⟩
    rw [hsame, Attribute.userId?, hw.type]

end Projection
end Shapewright
