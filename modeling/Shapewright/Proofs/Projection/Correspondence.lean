import Shapewright.Proofs.Projection.Extension
import Shapewright.Proofs.Resolution

/-!
# Types and their projections

What stands behind an attribute and what stands behind its projection are of one structure: both
primitives of one kind, both unions with the same alternatives, both collections whose elements
correspond, or both objects, of which the second has fields of the first that correspond. This is so
through any number of references, and although the two chains of references are different.

## One level at a time

`Image` looks at an attribute as it is written. What a conversion of the two looks at is what they
resolve to, and there one level (`Mirrors`) is all that can be said at once: the elements and fields
below are again an attribute and its image, or one attribute on both sides (`Twin`), but nothing is
known of their depth as types may be cyclic.

## Chains of references

An alias of an alias of a string is two references on the one side and none on the other, while an
alias of an alias of an object is two on both, the second time through projected types. The proof is
an induction on the references that are followed on the side of the type. It gives as many to the
other side, which never needs more (`image_mirrors`).
-/

namespace Shapewright

namespace Attribute

/-- The names that an object in place declares. -/
def fieldNames (a : Attribute) : List String :=
  match a.type with
  | .object fields => fields.map Prod.fst
  | _ => []

/-- Every object that is written in the attribute declares a field once. -/
def Tidy (a : Attribute) : Prop := ∀ x ∈ a.parts, x.fieldNames.Nodup

/-- Whether an attribute is tidy can be read off it, as it is finite. -/
instance decidableTidy (a : Attribute) : Decidable a.Tidy :=
  inferInstanceAs (Decidable (∀ x ∈ a.parts, x.fieldNames.Nodup))

theorem Tidy.nodup {a x : Attribute} {fields : List (String × Attribute)} (h : a.Tidy)
    (hx : x ∈ a.parts) (ht : x.type = .object fields) : (fields.map Prod.fst).Nodup := by
  have hnodup := h x hx
  rwa [fieldNames, ht] at hnodup

theorem Tidy.child {a b : Attribute} (h : a.Tidy) (hb : b ∈ a.children) : b.Tidy :=
  fun x hx => h x (parts_subset (mem_parts_of_mem_children hb) hx)

/-- An attribute is tidy if its own fields have different names and all below it are tidy. -/
theorem tidy_iff_children {a : Attribute} :
    a.Tidy ↔ a.fieldNames.Nodup ∧ ∀ b ∈ a.children, b.Tidy := by
  constructor
  · exact fun h => ⟨h a a.mem_parts_self, fun b hb => h.child hb⟩
  · intro h x hx
    rcases mem_parts_iff.mp hx with rfl | ⟨b, hb, hx⟩
    · exact h.1
    · exact h.2 b hb x hx

end Attribute

/-- Every object that is written in a type of the registry declares a field once. Documents cannot
    say otherwise, because fields are the members of an object and are read into a table. -/
def Registry.Tidy (reg : Registry) : Prop := ∀ t ∈ reg.types, t.definition.Tidy

instance Registry.decidableTidy (reg : Registry) : Decidable reg.Tidy :=
  inferInstanceAs (Decidable (∀ t ∈ reg.types, t.definition.Tidy))

namespace Registry

variable {reg : Registry} {a b r : Attribute}

theorem Tidy.of_meets (htidy : reg.Tidy) (ha : a.Tidy) (h : reg.Meets a b) : b.Tidy := by
  rcases List.mem_append.mp (h.mem_standing (reg.mem_standing_self a)) with hb | hb
  · exact fun x hx => ha x (Attribute.parts_subset hb hx)
  · obtain ⟨t, ht, hb⟩ := List.mem_flatMap.mp hb
    exact fun x hx => htidy t ht x (Attribute.parts_subset hb hx)

theorem Tidy.nodup_fields {v : ObjectView} (htidy : reg.Tidy) (ha : a.Tidy)
    (hv : ObjectView.of? reg a = .ok (some v)) : (v.fields.map Prod.fst).Nodup := by
  obtain ⟨hr, ht⟩ := view_eq_some.mp hv
  exact (htidy.of_meets ha (.single (.inr hr))).nodup (Attribute.mem_parts_self _) ht

/-- An attribute of which everything one level below resolves does so itself, if it has a kind. -/
theorem resolves_iff_children :
    reg.Resolves a ↔ (∃ k, reg.kind a = .ok k) ∧ ∀ b ∈ a.children, reg.Resolves b := by
  constructor
  · exact fun h => ⟨h.kind, fun b hb => h.child hb⟩
  · intro h x hx
    rcases Attribute.mem_parts_iff.mp hx with rfl | ⟨b, hb, hx⟩
    · exact h.1
    · exact h.2 b hb x hx

theorem exists_kind_of_userId?_eq_none (h : a.userId? = none) : ∃ k, reg.kind a = .ok k :=
  exists_kind_of_resolve (resolve_of_userId?_eq_none h)

theorem Grows.resolves {reg' : Registry} (hg : reg.Grows reg') (h : reg.Resolves a) :
    reg'.Resolves a := fun x hx => (h x hx).imp fun _ hk => hg.kind hk

theorem Grows.elem? {reg' : Registry} (hg : reg.Grows reg') (h : reg.elem? a = .ok (some b)) :
    reg'.elem? a = .ok (some b) := by
  obtain ⟨r, hr, ht⟩ := elem?_eq_some.mp h
  exact elem?_eq_some.mpr ⟨r, hg.resolve hr, ht⟩

/-- However many references are followed, there is one attribute that they lead to. -/
theorem resolveWithin_unique {m n : Nat} {r' : Attribute} (h : reg.resolveWithin m a = .ok r)
    (h' : reg.resolveWithin n a = .ok r') : r = r' := by
  have hm := (Grows.refl reg).resolveWithin (Nat.le_max_left m n) h
  have hn := (Grows.refl reg).resolveWithin (Nat.le_max_right m n) h'
  exact Except.ok.inj (hm.symm.trans hn)

/-- A reference to a type is of the kind of its definition. -/
theorem kind_user {id : TypeId} {t : UserType} {k : Kind} (hf : reg.find? id = some t)
    (hk : reg.kind t.definition = .ok k) : reg.kind (.user id) = .ok k := by
  obtain ⟨r, hr⟩ := exists_resolve hk
  have hthrough := (resolveWithin_succ (a := .user id) rfl hf).trans hr
  obtain ⟨r', hr'⟩ := resolve_of_resolveWithin hthrough
  obtain rfl := resolveWithin_unique hthrough hr'
  rw [kind_eq_of_resolve hr', ← kind_eq_of_resolve hr, hk]

theorem type_of_primitive {p : Primitive} (hk : reg.kind a = .ok (.primitive p))
    (hr : reg.resolve a = .ok r) : r.type = .primitive p := by
  rw [kind_eq_of_resolve hr] at hk
  split at hk <;> cases hk
  assumption

end Registry

open Projection.ViewedType (projectedId)

namespace Projection

/-- The attribute, and itself or its projection. What a projection leaves as it is stands on both
    sides, and the rest faces its projection. -/
def Twin (reg : Registry) (P : ViewedType → Prop) (a b : Attribute) : Prop :=
  b = a ∨ ∃ view, Image reg P a view b

/-- The structures are one level of an attribute and of its projection. Of an object the projection
    may show fewer fields; of everything else it shows all parts. -/
inductive Mirrors (reg : Registry) (P : ViewedType → Prop) :
    DataType Attribute → DataType Attribute → Prop
  | primitive (p : Primitive) : Mirrors reg P (.primitive p) (.primitive p)
  | union (name : String) (alternatives : List (String × Attribute)) :
      Mirrors reg P (.union name alternatives) (.union name alternatives)
  | array {x y : Attribute} (h : Twin reg P x y) : Mirrors reg P (.array x) (.array y)
  | map {key x y : Attribute} (h : Twin reg P x y) : Mirrors reg P (.map key x) (.map key y)
  | object {fields shown : List (String × Attribute)}
      (h : ∀ y ∈ shown, ∃ x ∈ fields, x.1 = y.1 ∧ Twin reg P x.2 y.2) :
      Mirrors reg P (.object fields) (.object shown)

variable {reg : Registry} {P : ViewedType → Prop} {a b d r : Attribute} {view : Option String}
  {derived : Derived} {t : UserType} {k : ViewedType} {name : String}

/-! ## One level -/

/-- In place, an attribute mirrors itself. -/
theorem mirrors_self (hu : a.userId? = none) : Mirrors reg P a.type a.type := by
  obtain ⟨type, description, rules, overrides, default⟩ := a
  cases type with
  | primitive p => exact .primitive p
  | union name alternatives => exact .union name alternatives
  | array x => exact .array (.inl rfl)
  | map key x => exact .map (.inl rfl)
  | object fields => exact .object fun y hy => ⟨y, hy, rfl, .inl rfl⟩
  | user id => simp [Attribute.userId?] at hu

/-- In place, an attribute and its image mirror each other. A reference is replaced as a whole, and
    has no image in place. -/
theorem Image.mirrors (h : Image reg P a view b) (hu : a.userId? = none) :
    Mirrors reg P a.type b.type ∧ b.userId? = none := by
  cases h with
  | structured hid => simp [hu] at hid
  | unfolded hid => simp [hu] at hid
  | kept h => exact ⟨mirrors_self hu, hu⟩
  | array ht h =>
    rw [ht]
    exact ⟨.array (.inr ⟨_, h⟩), rfl⟩
  | map ht h =>
    rw [ht]
    exact ⟨.map (.inr ⟨_, h⟩), rfl⟩
  | @object _ _ fields shown ht hnames h =>
    rw [ht]
    refine ⟨.object fun y hy => ?_, rfl⟩
    obtain ⟨i, hi⟩ := List.getElem?_of_mem hy
    -- The names are the same in the same order, so a field and its image stand at one index.
    have hname : (fields.map Prod.fst)[i]? = some y.1 := by
      rw [← hnames, List.getElem?_map, hi, Option.map_some]
    rw [List.getElem?_map] at hname
    obtain ⟨x, hx, hxy⟩ := Option.map_eq_some_iff.mp hname
    exact ⟨x, List.mem_of_getElem? hx, hxy, .inr ⟨_, h i x y hx hi⟩⟩

/-- An attribute in place and its image mirror each other in what they resolve to: themselves. -/
theorem Image.mirrors_in_place {hops : Nat} (h : Image reg derived.Has a view b)
    (hu : a.userId? = none) (hr : reg.resolveWithin hops a = .ok r) :
    ∃ rb, derived.registry.resolveWithin hops b = .ok rb ∧
      Mirrors reg derived.Has r.type rb.type := by
  rw [Registry.resolveWithin_of_userId?_eq_none hu] at hr
  cases hr
  obtain ⟨hmirrors, hb⟩ := h.mirrors hu
  exact ⟨b, Registry.resolveWithin_of_userId?_eq_none hb, hmirrors⟩

/-! ## Through references -/

/-- A definition mirrors that of its type: for an object it is known, and a collection is an
    image. -/
theorem defines_mirrors {hops : Nat} (hd : Defines reg P t k.view d)
    (hr : reg.resolveWithin hops t.definition = .ok r)
    (hbelow : ∀ {view}, Image reg P t.definition view d →
      ∃ rd, derived.registry.resolveWithin hops d = .ok rd ∧ Mirrors reg P r.type rd.type) :
    ∃ rd, derived.registry.resolveWithin hops d = .ok rd ∧ Mirrors reg P r.type rd.type := by
  cases hd with
  | collection _ _ h => exact hbelow h
  | object hv hfound hp =>
    obtain ⟨hr', htype⟩ := Registry.view_eq_some.mp hv
    obtain rfl := Registry.resolveWithin_unique hr hr'
    rw [htype]
    refine ⟨_, Registry.resolveWithin_of_userId?_eq_none rfl, .object fun y hy => ?_⟩
    obtain ⟨va, -, -, a, ha, himage⟩ := hp.image y hy
    exact ⟨(y.1, a), Ordered.mem_of_get? ha, rfl, .inr ⟨_, himage⟩⟩

section

variable (hx : Extends reg derived)
include hx

/-- The image of a reference mirrors what the reference leads to, if the images one hop further
    do. -/
theorem Image.mirrors_through {hops : Nat} {id : TypeId} (h : Image reg derived.Has a view b)
    (hid : a.userId? = some id) (hr : reg.resolveWithin (hops + 1) a = .ok r)
    (hbelow : ∀ {t : UserType} {d view}, Image reg derived.Has t.definition view d →
      reg.resolveWithin hops t.definition = .ok r →
      ∃ rd, derived.registry.resolveWithin hops d = .ok rd ∧
        Mirrors reg derived.Has r.type rd.type) :
    ∃ rb, derived.registry.resolveWithin (hops + 1) b = .ok rb ∧
      Mirrors reg derived.Has r.type rb.type := by
  have htype := Attribute.type_of_userId? hid
  cases h with
  | structured hid' hk hstructured ht hp =>
    obtain rfl := Option.some.inj (hid.symm.trans hid')
    obtain ⟨_, u, ht', hu, hd⟩ := hx.defined _ hp
    obtain rfl := Option.some.inj (ht.symm.trans ht')
    rw [Registry.resolveWithin_succ hid ht] at hr
    obtain ⟨rd, hrd, hmirrors⟩ := defines_mirrors hd hr fun h => hbelow h hr
    exact ⟨rd, by rw [Registry.resolveWithin_succ (a := a.shownAs _) rfl hu, hrd], hmirrors⟩
  | @unfolded _ r' _ _ p hid' hk hr' =>
    obtain rfl := Registry.resolveWithin_unique hr hr'
    have hprimitive := Registry.type_of_primitive hk hr'
    have hb : Attribute.userId? { a.shownAs r.type with
        rules := if a.rules.isEmpty then r.rules else a.rules } = none := by
      rw [Attribute.userId?, Attribute.shownAs, hprimitive]
    refine ⟨_, Registry.resolveWithin_of_userId?_eq_none hb, ?_⟩
    rw [Attribute.shownAs, hprimitive]
    exact .primitive p
  | kept h =>
    rcases h with ⟨p, hp⟩ | hunion
    · simp [htype] at hp
    -- A union has no projection: both sides refer to the same one.
    · refine ⟨r, ?_, mirrors_self (Registry.userId?_of_resolveWithin hr)⟩
      have hsame : (a.shownAs a.type).userId? = some id := hid
      rw [Registry.resolveWithin_user hsame]
      rw [Registry.resolveWithin_user hid] at hr
      exact hx.grows.resolveWithin (Nat.le_refl _) hr
  | array ht => simp [htype] at ht
  | map ht => simp [htype] at ht
  | object ht => simp [htype] at ht

/-- Both chains of references end, and what they end with mirrors each other. The chain of the image
    may be the shorter one, since an alias of a primitive is replaced by the primitive. -/
theorem image_mirrors : ∀ {hops : Nat} {a b r : Attribute} {view : Option String},
    Image reg derived.Has a view b → reg.resolveWithin hops a = .ok r →
      ∃ rb, derived.registry.resolveWithin hops b = .ok rb ∧
        Mirrors reg derived.Has r.type rb.type := by
  -- On the hops to the end of the first chain. The second chain is not longer: an alias of a
  -- primitive is unfolded at once, and every other reference is one hop in both.
  intro hops
  induction hops with
  | zero =>
    intro a b r view h hr
    cases hid : a.userId? with
    | none => exact h.mirrors_in_place hid hr
    | some id =>
      rw [Registry.resolveWithin_user hid] at hr
      unfold Registry.resolveWithin Attribute.user at hr
      dsimp only at hr
      split at hr <;> cases hr
  | succ hops ih =>
    intro a b r view h hr
    cases hid : a.userId? with
    | none => exact h.mirrors_in_place hid hr
    | some id => exact h.mirrors_through hx hid hr ih

end

/-- What is projected is an object or a collection. -/
theorem Defines.exists_kind (h : Defines reg P t name d) : ∃ kind,
    (kind = .object ∨ kind = .array ∨ kind = .map) ∧ reg.kind t.definition = .ok kind := by
  cases h with
  | object hv => exact ⟨_, .inl rfl, Registry.kind_of_view hv⟩
  | collection hk hc => exact ⟨_, .inr hc, hk⟩

/-- An image is one of an attribute that leads to a structure. To make an image is to look at the
    kind, so one that has none would have been a fault. -/
theorem Image.exists_kind (h : Image reg P a view b) : ∃ kind, reg.kind a = .ok kind := by
  have in_place : ∀ {type}, a.type = type → (∀ id, type ≠ .user id) →
      ∃ kind, reg.kind a = .ok kind := by
    intro type htype hne
    refine Registry.exists_kind_of_userId?_eq_none ?_
    cases hid : a.userId? with
    | none => rfl
    | some id => exact absurd (htype.symm.trans (Attribute.type_of_userId? hid)) (hne id)
  cases h with
  | structured _ hk => exact ⟨_, hk⟩
  | unfolded _ hk => exact ⟨_, hk⟩
  | kept h =>
    rcases h with ⟨p, hp⟩ | hk
    · exact in_place hp (by simp)
    · exact ⟨_, hk⟩
  | array ht => exact in_place ht (by simp)
  | map ht => exact in_place ht (by simp)
  | object ht => exact in_place ht (by simp)

/-- In the registry with the projections, what stands behind the two attributes mirrors each
    other. -/
def Faces (reg : Registry) (derived : Derived) (a b : Attribute) : Prop :=
  ∃ r rb, derived.registry.resolve a = .ok r ∧ derived.registry.resolve b = .ok rb ∧
    Mirrors reg derived.Has r.type rb.type

section

variable (hx : Extends reg derived)
include hx

theorem Image.faces (h : Image reg derived.Has a view b) : Faces reg derived a b := by
  obtain ⟨k, hk⟩ := h.exists_kind
  obtain ⟨r, hr⟩ := Registry.exists_resolve hk
  obtain ⟨rb, hrb, hmirrors⟩ := image_mirrors hx h hr
  exact ⟨r, rb, hx.grows.resolve hr,
    (Registry.Grows.refl _).resolveWithin hx.grows.size hrb, hmirrors⟩

/-- A type faces each of its projections, and not only the one that is shown of a plain type. A
    result can be projected to several views, and a conversion may be asked for between it and any
    of them. -/
theorem faces_projected (hk : derived.Has k) :
    Faces reg derived (.user k.type) (.user (projectedId k)) := by
  obtain ⟨t, u, ht, hu, hd⟩ := hx.defined k hk
  obtain ⟨kind, -, hkind⟩ := hd.exists_kind
  obtain ⟨r, hr⟩ := Registry.exists_resolve (Registry.kind_user ht hkind)
  refine ⟨r, ?_⟩
  have hresolve := hx.grows.resolve hr
  unfold Registry.resolve at hr
  -- The reference itself takes a hop, which there is since the registry has a type.
  cases hsize : reg.size with
  | zero =>
    have hmem := (Registry.mem_types_of_find? ht).1
    rw [List.eq_nil_of_length_eq_zero hsize] at hmem
    exact absurd hmem List.not_mem_nil
  | succ n =>
    rw [hsize, Registry.resolveWithin_succ rfl ht] at hr
    obtain ⟨rd, hrd, hmirrors⟩ := defines_mirrors hd hr fun h => image_mirrors hx h hr
    refine ⟨rd, hresolve, ?_, hmirrors⟩
    have hle : n + 1 ≤ derived.registry.size := hsize ▸ hx.grows.size
    refine (Registry.Grows.refl _).resolveWithin hle ?_
    rw [Registry.resolveWithin_succ rfl hu, hrd]

end

/-! ## References of the projections -/

section

variable (hx : Extends reg derived)
include hx

/-- The references that are written in an image lead to structures. They are references to
    projections, which are there, or are kept from an attribute in which they resolve. -/
theorem Image.resolves (h : Image reg derived.Has a view b) (ha : reg.Resolves a) :
    derived.registry.Resolves b := by
  induction h with
  | structured hid hk hstructured ht hp =>
    obtain ⟨_, _, -, hr, -⟩ := (Image.structured hid hk hstructured ht hp).faces hx
    obtain ⟨kind, hkind⟩ := Registry.exists_kind_of_resolve hr
    exact Registry.resolves_of_userId? rfl hkind
  | @unfolded a r _ _ p _ hk hr =>
    have htype := Registry.type_of_primitive hk hr
    refine Registry.resolves_of_primitive (p := p) ?_
    rw [Registry.kind_eq_of_resolve (Registry.resolve_of_userId?_eq_none ?_)]
    · rw [Attribute.shownAs, htype]
    · rw [Attribute.userId?, Attribute.shownAs, htype]
  -- What was kept was not changed, and what it refers to is still found: the registry has only
  -- grown.
  | @kept a view h =>
    have hkept : Image reg derived.Has a view (a.shownAs a.type) := .kept h
    obtain ⟨_, _, -, hr, -⟩ := hkept.faces hx
    exact Registry.resolves_iff_children.mpr ⟨Registry.exists_kind_of_resolve hr,
      fun x hb => hx.grows.resolves (ha.child hb)⟩
  | @array a x y view ht h ih =>
    refine Registry.resolves_iff_children.mpr
      ⟨Registry.exists_kind_of_userId?_eq_none rfl, fun z hz => ?_⟩
    obtain rfl : z = y := by simpa [Attribute.children, Attribute.shownAs] using hz
    exact ih (ha.child (by simp [Attribute.children, ht]))
  | @map a key x y view ht h ih =>
    refine Registry.resolves_iff_children.mpr
      ⟨Registry.exists_kind_of_userId?_eq_none rfl, fun z hz => ?_⟩
    obtain rfl | rfl : z = key ∨ z = y := by
      simpa [Attribute.children, Attribute.shownAs] using hz
    · exact hx.grows.resolves (ha.child (by simp [Attribute.children, ht]))
    · exact ih (ha.child (by simp [Attribute.children, ht]))
  | @object a view fields shown ht hn h ih =>
    refine Registry.resolves_iff_children.mpr
      ⟨Registry.exists_kind_of_userId?_eq_none rfl, fun z hz => ?_⟩
    obtain ⟨y, hy, rfl⟩ := List.mem_map.mp hz
    obtain ⟨i, hi⟩ := List.getElem?_of_mem hy
    have hlength : shown.length = fields.length := by simpa using congrArg List.length hn
    have hlt : i < fields.length := hlength ▸ (List.getElem?_eq_some_iff.mp hi).1
    have hx := List.getElem?_eq_getElem hlt
    refine ih i _ y hx hi (ha.child ?_)
    simpa [Attribute.children, ht] using List.mem_map_of_mem (f := Prod.snd)
      (List.mem_of_getElem? hx)

theorem Defines.resolves {name : String} (hs : reg.Sound) (hd : Defines reg derived.Has t name d)
    (ht : reg.Resolves t.definition) : derived.registry.Resolves d := by
  cases hd with
  | collection _ _ h => exact h.resolves hx ht
  | object hv hfound hp =>
    refine Registry.resolves_iff_children.mpr
      ⟨Registry.exists_kind_of_userId?_eq_none rfl, fun z hz => ?_⟩
    obtain ⟨y, hy, rfl⟩ := List.mem_map.mp hz
    obtain ⟨va, -, -, a, ha, himage⟩ := hp.image y hy
    refine himage.resolves hx (hs.of_mem_standing ht ?_)
    exact Registry.field_mem_standing hv (reg.mem_standing_self _)
      (List.mem_map_of_mem (Ordered.mem_of_get? ha))

/-- In the registry with the projections every reference leads to a structure. A reference that is
    added is one to a projection, and a projection has a structure. -/
theorem extends_sound (hs : reg.Sound) : derived.registry.Sound := by
  intro u hu
  have hfind : derived.registry.find? u.id = some u :=
    find?_of_nodup_map derived.registry.nodup hu
  rcases hx.cases _ _ hfind with hold | ⟨k, hk, hid⟩
  · exact hx.grows.resolves (hs u (Registry.mem_types_of_find? hold).1)
  · obtain ⟨t, u', ht, hu', hd⟩ := hx.defined k hk
    rw [← hid, hfind] at hu'
    cases hu'
    exact hd.resolves hx hs (hs t (Registry.mem_types_of_find? ht).1)

end

/-! ## Fields of the projections -/

theorem Image.tidy (h : Image reg P a view b) (ha : a.Tidy) : b.Tidy := by
  induction h with
  | structured =>
    exact Attribute.tidy_iff_children.mpr ⟨List.nodup_nil, fun z hz => absurd hz List.not_mem_nil⟩
  | @unfolded a r _ _ p _ hk hr =>
    have htype := Registry.type_of_primitive hk hr
    refine Attribute.tidy_iff_children.mpr ?_
    simp [Attribute.fieldNames, Attribute.children, Attribute.shownAs, htype]
  | kept =>
    have hself := Attribute.tidy_iff_children.mp ha
    exact Attribute.tidy_iff_children.mpr hself
  | @array a x y view ht h ih =>
    refine Attribute.tidy_iff_children.mpr ⟨List.nodup_nil, fun z hz => ?_⟩
    obtain rfl : z = y := by simpa [Attribute.children, Attribute.shownAs] using hz
    exact ih (ha.child (by simp [Attribute.children, ht]))
  | @map a key x y view ht h ih =>
    refine Attribute.tidy_iff_children.mpr ⟨List.nodup_nil, fun z hz => ?_⟩
    obtain rfl | rfl : z = key ∨ z = y := by
      simpa [Attribute.children, Attribute.shownAs] using hz
    · exact ha.child (by simp [Attribute.children, ht])
    · exact ih (ha.child (by simp [Attribute.children, ht]))
  | @object a view fields shown ht hn h ih =>
    refine Attribute.tidy_iff_children.mpr ⟨?_, fun z hz => ?_⟩
    -- No names are added or changed, so the image declares nothing twice if the attribute does not.
    · have hnodup := ha.nodup a.mem_parts_self ht
      rwa [← hn] at hnodup
    · obtain ⟨y, hy, rfl⟩ := List.mem_map.mp hz
      obtain ⟨i, hi⟩ := List.getElem?_of_mem hy
      have hlength : shown.length = fields.length := by simpa using congrArg List.length hn
      have hlt : i < fields.length := hlength ▸ (List.getElem?_eq_some_iff.mp hi).1
      have hx := List.getElem?_eq_getElem hlt
      refine ih i _ y hx hi (ha.child ?_)
      simpa [Attribute.children, ht] using List.mem_map_of_mem (f := Prod.snd)
        (List.mem_of_getElem? hx)

theorem Defines.tidy (htidy : reg.Tidy) (hd : Defines reg P t name d) (ht : t.definition.Tidy) :
    d.Tidy := by
  cases hd with
  | collection _ _ h => exact h.tidy ht
  | object hv hfound hp =>
    refine Attribute.tidy_iff_children.mpr ⟨hp.nodup, fun z hz => ?_⟩
    obtain ⟨y, hy, rfl⟩ := List.mem_map.mp hz
    obtain ⟨va, -, -, a, ha, himage⟩ := hp.image y hy
    refine himage.tidy (htidy.of_meets ht (Registry.field_meets hv ?_))
    exact List.mem_map_of_mem (Ordered.mem_of_get? ha)

/-- In the registry with the projections every object declares a field once. The fields of a
    projection are some of the fields of its type, each once. -/
theorem extends_tidy (hx : Extends reg derived) (htidy : reg.Tidy) : derived.registry.Tidy := by
  intro u hu
  have hfind : derived.registry.find? u.id = some u :=
    find?_of_nodup_map derived.registry.nodup hu
  rcases hx.cases _ _ hfind with hold | ⟨k, hk, hid⟩
  · exact htidy u (Registry.mem_types_of_find? hold).1
  · obtain ⟨t, u', ht, hu', hd⟩ := hx.defined k hk
    rw [← hid, hfind] at hu'
    cases hu'
    exact hd.tidy htidy (htidy t (Registry.mem_types_of_find? ht).1)

end Projection
end Shapewright
