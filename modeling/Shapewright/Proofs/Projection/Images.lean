import Shapewright.Proofs.Projection.Derivation

/-!
# What a projection is made of

A projection repeats the structure of an attribute and replaces what is named: references to
structures by references to their projections, aliases by the primitives they stand for. `Image`
says so of attributes and `Defines` of the definitions of projected types; both keep track of the
projections that are asked for on the way. Everything that is proved of projections is proved by
induction over them.

## Attributes and types

An image stops at a reference. Its constructors are those of the types of attributes, with a
reference split by what it leads to: a structure becomes a reference to a projection, a primitive is
unfolded, a union is kept. What is behind a reference is the definition of another projection, and
that one is in `Defines`.

## Members of a view

A view may list a field twice. The code goes through its members in order and the last one to name a
field decides how it is shown, while the field keeps the place of the first. `Pictures` holds this
down, since a later proof that a projection shows what the view says rests on it.

## Building

Projections are built in a state that knows which of them have been asked for. The lemmas under the
last headings carry an invariant of that state along, which is left open here (`asks_projectWithin`)
and chosen where it is needed.
-/

namespace Shapewright

/-- The attribute with another type, and without the tag of a view. -/
def Attribute.shownAs (a : Attribute) (type : DataType Attribute) : Attribute :=
  { a with type, overrides := { a.overrides with view := none } }

/-- The view under which a reference to the type is projected. Only results have views. -/
def UserType.shownUnder (t : UserType) (view : Option String) : String :=
  if t.kind = .result then view.getD defaultView else defaultView

namespace Projection

/-- The second attribute is the projection of the first, whose value is shown under the view. The
    projections that it refers to are among `P`. -/
inductive Image (reg : Registry) (P : ViewedType → Prop) :
    Attribute → Option String → Attribute → Prop
  | structured {a : Attribute} {view : Option String} {id : TypeId} {k : Kind} {t : UserType}
      (hid : a.userId? = some id) (hk : reg.kind a = .ok k)
      (hs : k = .object ∨ k = .array ∨ k = .map) (ht : reg.find? id = some t)
      (hp : P ⟨id, t.shownUnder view⟩) :
      Image reg P a view (a.shownAs (.user (ViewedType.projectedId ⟨id, t.shownUnder view⟩)))
  | unfolded {a r : Attribute} {view : Option String} {id : TypeId} {p : Primitive}
      (hid : a.userId? = some id) (hk : reg.kind a = .ok (.primitive p))
      (hr : reg.resolve a = .ok r) : Image reg P a view
        { a.shownAs r.type with rules := if a.rules.isEmpty then r.rules else a.rules }
  | kept {a : Attribute} {view : Option String}
      (h : (∃ p, a.type = .primitive p) ∨ reg.kind a = .ok .union) :
      Image reg P a view (a.shownAs a.type)
  | array {a x y : Attribute} {view : Option String} (ht : a.type = .array x)
      (h : Image reg P x view y) : Image reg P a view (a.shownAs (.array y))
  | map {a key x y : Attribute} {view : Option String} (ht : a.type = .map key x)
      (h : Image reg P x view y) : Image reg P a view (a.shownAs (.map key y))
  | object {a : Attribute} {view : Option String} {fields shown : List (String × Attribute)}
      (ht : a.type = .object fields) (hn : shown.map Prod.fst = fields.map Prod.fst)
      (h : ∀ (i : Nat) (x y : String × Attribute), fields[i]? = some x → shown[i]? = some y →
        Image reg P x.2 x.2.overrides.view y.2) : Image reg P a view (a.shownAs (.object shown))

/-- The member is the last one of its field. A view may list a field twice, and the tag that counts
    is that of the last time. -/
def IsLast (va : ViewAttribute) (members : List ViewAttribute) : Prop :=
  ∃ before after, members = before ++ va :: after ∧ va.field ∉ after.map (·.field)

/-- The fields that are shown are those that the members list, each once and where it is listed
    first, as the last of its members shows it. Every member has an image, also one whose field is
    listed again. -/
structure Pictures (reg : Registry) (P : ViewedType → Prop)
    (fields shown : List (String × Attribute)) (members : List ViewAttribute) : Prop where
  nodup : (shown.map Prod.fst).Nodup
  order : shown.map Prod.fst = (members.map (·.field)).eraseDups
  last : ∀ y ∈ shown, ∃ va, IsLast va members ∧ va.field = y.1 ∧
    ∃ a, Ordered.get? fields y.1 = some a ∧ Image reg P a (va.view?.or a.overrides.view) y.2
  listed : ∀ va ∈ members, ∃ a b, Ordered.get? fields va.field = some a ∧
    Image reg P a (va.view?.or a.overrides.view) b

/-- The attribute is the definition of the projection of the type under the view. Types that are
    neither objects nor collections have none. -/
inductive Defines (reg : Registry) (P : ViewedType → Prop) (t : UserType) (view : String) :
    Attribute → Prop
  | object {v : ObjectView} {found : Option View} {shown : List (String × Attribute)}
      (hv : ObjectView.of? reg t.definition = .ok (some v))
      (hfound : reg.view? t.id view = .ok found)
      (hs : Pictures reg P v.fields shown (listed found v)) : Defines reg P t view
        { type := .object shown, description := t.definition.description
          rules := { required := ((listed found v).map (·.field)).filter v.requires } }
  | collection {k : Kind} {d : Attribute} (hk : reg.kind t.definition = .ok k)
      (hc : k = .array ∨ k = .map) (h : Image reg P t.definition (some view) d) :
      Defines reg P t view d

variable {reg : Registry} {P Q : ViewedType → Prop} {a b : Attribute} {view : Option String}
  {fields shown : List (String × Attribute)} {members : List ViewAttribute} {t : UserType}

/-- An image refers to projections in `P`, so it does to projections among more. -/
theorem Image.mono (hPQ : ∀ k, P k → Q k) (h : Image reg P a view b) : Image reg Q a view b := by
  induction h with
  | structured hid hk hs ht hp => exact .structured hid hk hs ht (hPQ _ hp)
  | unfolded hid hk hr => exact .unfolded hid hk hr
  | kept h => exact .kept h
  | array ht _ ih => exact .array ht ih
  | map ht _ ih => exact .map ht ih
  | object ht hn _ ih => exact .object ht hn ih

/-- The fields that are shown refer to projections in `P`, so they do to projections among more. -/
theorem Pictures.mono (hPQ : ∀ k, P k → Q k) (h : Pictures reg P fields shown members) :
    Pictures reg Q fields shown members := by
  refine ⟨h.nodup, h.order, fun y hy => ?_, fun va hva => ?_⟩
  · obtain ⟨va, hva, hname, a, ha, himage⟩ := h.last y hy
    exact ⟨va, hva, hname, a, ha, himage.mono hPQ⟩
  · obtain ⟨a, b, ha, himage⟩ := h.listed va hva
    exact ⟨a, b, ha, himage.mono hPQ⟩

theorem Defines.mono (hPQ : ∀ k, P k → Q k) {name : String} (h : Defines reg P t name b) :
    Defines reg Q t name b := by
  cases h with
  | object hv hfound hs => exact .object hv hfound (hs.mono hPQ)
  | collection hk hc h => exact .collection hk hc (h.mono hPQ)

/-! ## Members of a view -/

section

variable {va va' : ViewAttribute}

theorem IsLast.mem (h : IsLast va members) : va ∈ members := by
  obtain ⟨before, after, rfl, -⟩ := h
  simp

theorem isLast_concat (members : List ViewAttribute) (va : ViewAttribute) :
    IsLast va (members ++ [va]) :=
  ⟨members, [], rfl, List.not_mem_nil⟩

/-- A member of another field behind it changes nothing. -/
theorem IsLast.concat (h : IsLast va members) (hne : va.field ≠ va'.field) :
    IsLast va (members ++ [va']) := by
  obtain ⟨before, after, rfl, hno⟩ := h
  refine ⟨before, after ++ [va'], by rw [List.append_assoc, List.cons_append], ?_⟩
  rw [List.map_append, List.mem_append, not_or]
  exact ⟨hno, by simpa using hne⟩

end

/-- A name behind others is new, or has been dropped. -/
theorem eraseDups_concat (names : List String) (name : String) :
    (names ++ [name]).eraseDups = names.eraseDups ++ [name].removeAll names.eraseDups := by
  rw [List.eraseDups_append]
  by_cases h : name ∈ names
  · simp [List.removeAll, h]
  · simp [List.removeAll, h, List.eraseDups_cons]

theorem Pictures.names (h : Pictures reg P fields shown members) (name : String) :
    name ∈ shown.map Prod.fst ↔ name ∈ members.map (·.field) := by
  rw [h.order, List.mem_eraseDups]

/-- Each field that is shown is the image of a field of this name, as one of the members shows
    it. -/
theorem Pictures.image (h : Pictures reg P fields shown members) : ∀ y ∈ shown,
    ∃ va ∈ members, va.field = y.1 ∧ ∃ a, Ordered.get? fields y.1 = some a ∧
      Image reg P a (va.view?.or a.overrides.view) y.2 := by
  intro y hy
  obtain ⟨va, hva, hname, himage⟩ := h.last y hy
  exact ⟨va, hva.mem, hname, himage⟩

/-! ## What an image is, by what it is the image of -/

/-- The image of an object in place has its fields, one by one and in order. No view selects among
    them, so each is projected under its own tag. -/
theorem Image.of_object (h : Image reg P a view b) (ht : a.type = .object fields) :
    ∃ shown, b.type = .object shown ∧ shown.map Prod.fst = fields.map Prod.fst ∧
      ∀ (i : Nat) (x y : String × Attribute), fields[i]? = some x → shown[i]? = some y →
        Image reg P x.2 x.2.overrides.view y.2 := by
  have hu : a.userId? = none := by rw [Attribute.userId?, ht]
  cases h with
  | structured hid => simp [hu] at hid
  | unfolded hid => simp [hu] at hid
  | kept h =>
    rw [Registry.kind_eq_of_resolve (Registry.resolve_of_userId?_eq_none hu), ht] at h
    simp at h
  | array ht' => simp [ht] at ht'
  | map ht' => simp [ht] at ht'
  | object ht' hn h =>
    rw [ht] at ht'
    cases ht'
    exact ⟨_, rfl, hn, h⟩

/-- The image of an array is an array of images. The view goes on to the elements, as a collection
    of results is shown under the view of its elements. -/
theorem Image.of_array {x : Attribute} (h : Image reg P a view b) (ht : a.type = .array x) :
    ∃ y, b.type = .array y ∧ Image reg P x view y := by
  have hu : a.userId? = none := by rw [Attribute.userId?, ht]
  cases h with
  | structured hid => simp [hu] at hid
  | unfolded hid => simp [hu] at hid
  | kept h =>
    rw [Registry.kind_eq_of_resolve (Registry.resolve_of_userId?_eq_none hu), ht] at h
    simp at h
  | array ht' h =>
    rw [ht] at ht'
    cases ht'
    exact ⟨_, rfl, h⟩
  | map ht' => simp [ht] at ht'
  | object ht' => simp [ht] at ht'

/-- The image of a map keeps the keys. The view goes on to the elements as it does for an array. -/
theorem Image.of_map {key x : Attribute} (h : Image reg P a view b) (ht : a.type = .map key x) :
    ∃ y, b.type = .map key y ∧ Image reg P x view y := by
  have hu : a.userId? = none := by rw [Attribute.userId?, ht]
  cases h with
  | structured hid => simp [hu] at hid
  | unfolded hid => simp [hu] at hid
  | kept h =>
    rw [Registry.kind_eq_of_resolve (Registry.resolve_of_userId?_eq_none hu), ht] at h
    simp at h
  | array ht' => simp [ht] at ht'
  | map ht' h =>
    rw [ht] at ht'
    cases ht'
    exact ⟨_, rfl, h⟩
  | object ht' => simp [ht] at ht'

/-- A reference to a structure is replaced by a reference to the projection of its type. Which view
    it is shown under depends on the type: a plain type is always shown under its default view. -/
theorem Image.of_user {id : TypeId} {k : Kind} (h : Image reg P a view b)
    (hid : a.userId? = some id) (hk : reg.kind a = .ok k)
    (hs : k = .object ∨ k = .array ∨ k = .map) : ∃ t, reg.find? id = some t ∧
      P ⟨id, t.shownUnder view⟩ ∧
      b = a.shownAs (.user (ViewedType.projectedId ⟨id, t.shownUnder view⟩)) := by
  have ht := Attribute.type_of_userId? hid
  -- Of the ways to be an image, the type and its kind leave one.
  cases h with
  | structured hid' hk' hs' ht hp =>
    rw [hid] at hid'
    cases hid'
    exact ⟨_, ht, hp, rfl⟩
  | unfolded hid' hk' =>
    rw [hk] at hk'
    cases hk'
    simp at hs
  | kept h =>
    rcases h with ⟨p, hp⟩ | hk'
    · simp [ht] at hp
    · rw [hk] at hk'
      cases hk'
      simp at hs
  | array ht' => simp [ht] at ht'
  | map ht' => simp [ht] at ht'
  | object ht' => simp [ht] at ht'

/-- The projection of an object has the fields that the view lists. The pictures keep the order of
    the list and its tags, and drop nothing. -/
theorem Defines.of_object {r d : Attribute} {name : String} (h : Defines reg P t name d)
    (hr : reg.resolve t.definition = .ok r) (ht : r.type = .object fields) :
    ∃ found shown, reg.view? t.id name = .ok found ∧ d.type = .object shown ∧
      Pictures reg P fields shown (listed found ⟨r, fields⟩) := by
  cases h with
  | @object v found shown hv hfound hp =>
    obtain ⟨declared, fields'⟩ := v
    obtain ⟨hr', ht'⟩ := Registry.view_eq_some.mp hv
    obtain rfl := Except.ok.inj (hr.symm.trans hr')
    rw [ht] at ht'
    cases ht'
    exact ⟨found, shown, hfound, rfl, hp⟩
  | collection hk hc =>
    rw [Registry.kind_eq_of_resolve hr, ht] at hk
    cases hk
    simp at hc

/-- The projection of a collection is its image. -/
theorem Defines.of_collection {k : Kind} {d : Attribute} {name : String}
    (h : Defines reg P t name d) (hk : reg.kind t.definition = .ok k) (hc : k = .array ∨ k = .map) :
    Image reg P t.definition (some name) d := by
  cases h with
  | object hv =>
    obtain rfl := Except.ok.inj (hk.symm.trans (Registry.kind_of_view hv))
    simp at hc
  | collection _ _ himage => exact himage

/-! ## What is built is an image -/

/-- The projection has been asked for. Its definition may still be open. -/
def Progress.Asked (s : Progress) (k : ViewedType) : Prop := k ∈ s.ids.map Prod.fst

/-- Asking for a projection keeps `I` and gives the identity of what was asked for. It is what the
    projection of references is given from outside, and the recursion on levels provides it. -/
def Asks (project : ViewedType → Deriving TypeId) (I : Progress → Prop) : Prop :=
  ∀ {k s i s'}, I s → Deriving.Yields (project k) s i s' →
    I s' ∧ i = ViewedType.projectedId k ∧ s'.Asked k ∧ ∀ k', s.Asked k' → s'.Asked k'

section

variable {project : ViewedType → Deriving TypeId} {I : Progress → Prop} {s s' : Progress}

/-- The fields of an object in place are projected one by one. The induction is over the fields,
    with the table handed on from one to the next. -/
theorem images_of_projectFields : ∀ {fields shown : List (String × Attribute)} {s s' : Progress},
    (∀ x ∈ fields, ∀ {y view s s'}, I s →
      Deriving.Yields (projectAttr reg project x.2 view) s y s' →
        I s' ∧ (∀ k, s.Asked k → s'.Asked k) ∧ Image reg s'.Asked x.2 view y) →
    I s → Deriving.Yields (projectFields reg project fields) s shown s' →
    I s' ∧ (∀ k, s.Asked k → s'.Asked k) ∧ List.Forall₂ (fun x y => y.1 = x.1 ∧
      Image reg s'.Asked x.2 x.2.overrides.view y.2) fields shown := by
  intro fields
  induction fields with
  | nil =>
    intro shown s s' _ hI h
    rw [projectFields, Deriving.yields_pure] at h
    obtain ⟨rfl, rfl⟩ := h
    exact ⟨hI, fun _ hk => hk, .nil⟩
  | cons x rest ih =>
    intro shown s s' hfields hI h
    rw [List.forall_mem_cons] at hfields
    rw [projectFields] at h
    simp only [Deriving.yields_bind, Deriving.yields_pure] at h
    obtain ⟨y, _, hy, others, _, hothers, rfl, rfl⟩ := h
    -- The image was one when the field was projected. It still is one later, when more has been
    -- asked for.
    obtain ⟨hI', hkeep, himage⟩ := hfields.1 hI hy
    obtain ⟨hI'', hkeep', himages⟩ := ih hfields.2 hI' hothers
    exact ⟨hI'', fun k hk => hkeep' k (hkeep k hk), .cons ⟨rfl, himage.mono hkeep'⟩ himages⟩

/-- Related lists are related position by position. Images of fields are stated by position, and
    their induction builds a relation of lists. -/
theorem forall₂_getElem? {α β : Type} {R : α → β → Prop} {xs : List α} {ys : List β}
    (h : List.Forall₂ R xs ys) : ∀ {i : Nat} {x : α} {y : β}, xs[i]? = some x → ys[i]? = some y →
      R x y := by
  induction h with
  | nil => simp
  | cons hr _ ih =>
    intro i x y hx hy
    cases i with
    | zero =>
      cases hx
      cases hy
      exact hr
    | succ i => exact ih hx hy

variable (hproject : Asks project I)
include hproject

/-- The projection of a reference is its image. The tag of a view has been taken off before. What is
    projected inside was asked for before, or is put in the table now. -/
theorem image_of_projectUser {id : TypeId} (hid : a.userId? = some id) (hI : I s)
    (h : Deriving.Yields (projectUser reg project
      { a with overrides := { a.overrides with view := none } } id view) s b s') :
    I s' ∧ (∀ k, s.Asked k → s'.Asked k) ∧ Image reg s'.Asked a view b := by
  have hsame : Attribute.BothRefer id
      { a with overrides := { a.overrides with view := none } } a := ⟨hid, hid⟩
  -- Objects, arrays and maps ask for a projection, and a primitive or a union asks for none.
  have structured : ∀ {k : Kind}, reg.kind a = .ok k → k = .object ∨ k = .array ∨ k = .map →
      Deriving.Yields (do
        let t ← reg.get id
        let i ← project ⟨id, t.shownUnder view⟩
        return a.shownAs (.user i)) s b s' →
      I s' ∧ (∀ k, s.Asked k → s'.Asked k) ∧ Image reg s'.Asked a view b := by
    intro k hk hs h
    simp only [Deriving.yields_bind, Deriving.yields_liftM, Deriving.yields_pure] at h
    obtain ⟨t, _, ⟨ht, rfl⟩, i, _, hi, rfl, rfl⟩ := h
    obtain ⟨hI', rfl, hasked, hkeep⟩ := hproject hI hi
    refine ⟨hI', hkeep, .structured hid hk hs ?_ hasked⟩
    exact Registry.get_eq_ok.mp ht
  unfold projectUser at h
  simp only [Deriving.yields_bind, Deriving.yields_liftM] at h
  obtain ⟨k, _, ⟨hk, rfl⟩, h⟩ := h
  rw [hsame.kind_eq] at hk
  cases k with
  | object => exact structured hk (.inl rfl) h
  | array => exact structured hk (.inr (.inl rfl)) h
  | map => exact structured hk (.inr (.inr rfl)) h
  | primitive p =>
    simp only [Deriving.yields_bind, Deriving.yields_liftM, Deriving.yields_pure] at h
    obtain ⟨r, _, ⟨hr, rfl⟩, rfl, rfl⟩ := h
    rw [hsame.resolve_eq] at hr
    exact ⟨hI, fun _ hk => hk, .unfolded hid hk hr⟩
  | union =>
    rw [Deriving.yields_pure] at h
    obtain ⟨rfl, rfl⟩ := h
    exact ⟨hI, fun _ hk => hk, .kept (.inr hk)⟩

/-- The projection of an attribute is its image. By recursion on the attribute. The table only grows
    on the way, so what was an image stays one. -/
theorem image_of_projectAttr : ∀ {a b : Attribute} {view : Option String} {s s' : Progress}, I s →
    Deriving.Yields (projectAttr reg project a view) s b s' →
    I s' ∧ (∀ k, s.Asked k → s'.Asked k) ∧ Image reg s'.Asked a view b := by
  intro a
  -- By induction on the size, as attributes are nested in lists of fields.
  induction hn : a.size using Nat.strongRecOn generalizing a with
  | ind n ih =>
    intro b view s s' hI h
    have below : ∀ {x y : Attribute} {view : Option String} {s s' : Progress}, x ∈ a.children →
        I s → Deriving.Yields (projectAttr reg project x view) s y s' →
        I s' ∧ (∀ k, s.Asked k → s'.Asked k) ∧ Image reg s'.Asked x view y :=
      fun hx => ih _ (hn ▸ Attribute.size_lt_of_mem_children hx) rfl
    obtain ⟨type, description, rules, overrides, default⟩ := a
    cases type with
    | user id =>
      rw [projectAttr] at h
      exact image_of_projectUser hproject rfl hI h
    | primitive p =>
      rw [projectAttr, Deriving.yields_pure] at h
      obtain ⟨rfl, rfl⟩ := h
      exact ⟨hI, fun _ hk => hk, .kept (.inl ⟨p, rfl⟩)⟩
    | union name alternatives =>
      rw [projectAttr, Deriving.yields_pure] at h
      obtain ⟨rfl, rfl⟩ := h
      refine ⟨hI, fun _ hk => hk, .kept (.inr ?_)⟩
      exact Registry.kind_eq_of_resolve (Registry.resolve_of_userId?_eq_none rfl)
    | array x =>
      rw [projectAttr] at h
      simp only [Deriving.yields_bind, Deriving.yields_pure] at h
      obtain ⟨y, _, hy, rfl, rfl⟩ := h
      obtain ⟨hI', hkeep, himage⟩ := below (by simp [Attribute.children]) hI hy
      exact ⟨hI', hkeep, .array rfl himage⟩
    | map key x =>
      rw [projectAttr] at h
      simp only [Deriving.yields_bind, Deriving.yields_pure] at h
      obtain ⟨y, _, hy, rfl, rfl⟩ := h
      obtain ⟨hI', hkeep, himage⟩ := below (by simp [Attribute.children]) hI hy
      exact ⟨hI', hkeep, .map rfl himage⟩
    | object fields =>
      rw [projectAttr] at h
      simp only [Deriving.yields_bind, Deriving.yields_pure] at h
      obtain ⟨shown, _, hshown, rfl, rfl⟩ := h
      obtain ⟨hI', hkeep, himages⟩ := images_of_projectFields
        (fun x hx => below (List.mem_map_of_mem hx)) hI hshown
      exact ⟨hI', hkeep, .object rfl (map_eq_of_forall₂ (fun _ _ hxy => hxy.1) himages)
        fun i x y hx hy => (forall₂_getElem? himages hx hy).2⟩

/-- The fields of a view are images of fields that it lists. The list of those met so far grows at
    its end, so the induction is on what is left to be shown. -/
theorem pictures_of_projectShown {typeName viewName : String} :
    ∀ {members : List ViewAttribute} {met : List ViewAttribute}
      {shown all : List (String × Attribute)} {s s' : Progress}, I s →
      Pictures reg s.Asked fields shown met →
      Deriving.Yields (projectShown reg project typeName viewName fields shown members) s all s' →
      I s' ∧ (∀ k, s.Asked k → s'.Asked k) ∧
        Pictures reg s'.Asked fields all (met ++ members) := by
  intro members
  induction members with
  | nil =>
    intro met shown all s s' hI hp h
    rw [projectShown, Deriving.yields_pure] at h
    obtain ⟨rfl, rfl⟩ := h
    rw [List.append_nil]
    exact ⟨hI, fun _ hk => hk, hp⟩
  | cons va rest ih =>
    intro met shown all s s' hI hp h
    rw [projectShown] at h
    split at h
    · exact absurd h Deriving.yields_throw
    · rename_i a ha
      obtain ⟨b, s₁, hb, h⟩ := Deriving.yields_bind.mp h
      obtain ⟨hI₁, hkeep, himage⟩ := image_of_projectAttr hproject hI hb
      have hnext :
          Pictures reg s₁.Asked fields (Ordered.insert shown va.field b) (met ++ [va]) := by
        refine ⟨Ordered.nodup_keys_insert hp.nodup, ?_, fun y hy => ?_, fun va' hva' => ?_⟩
        · rw [Ordered.keys_insert, List.map_append, hp.order]
          exact (eraseDups_concat _ _).symm
        · rcases Ordered.mem_insert_of_nodup hp.nodup hy with rfl | ⟨hy, hne⟩
          -- The field that was just put there is the image for the last member of its name; any
          -- other keeps the member that it had.
          · exact ⟨va, isLast_concat met va, rfl, a, ha, himage⟩
          · obtain ⟨va', hva', hname, a', ha', himage'⟩ := hp.last y hy
            exact ⟨va', hva'.concat (hname ▸ hne), hname, a', ha', himage'.mono hkeep⟩
        · rcases List.mem_append.mp hva' with hva' | hva'
          · obtain ⟨a', b', ha', himage'⟩ := hp.listed va' hva'
            exact ⟨a', b', ha', himage'.mono hkeep⟩
          · obtain rfl := List.mem_singleton.mp hva'
            exact ⟨a, b, ha, himage⟩
      obtain ⟨hI', hkeep', hall⟩ := ih hI₁ hnext h
      rw [List.append_assoc] at hall
      exact ⟨hI', fun k hk => hkeep' k (hkeep k hk), hall⟩

/-- The definition of a projected type is built from what its type and its view declare. Objects go
    by the fields of the view, and everything else is the image of an attribute. -/
theorem defines_of_projectDefinition {name : String} (hI : I s)
    (h : Deriving.Yields (projectDefinition reg project t name) s b s') :
    I s' ∧ (∀ k, s.Asked k → s'.Asked k) ∧ Defines reg s'.Asked t name b := by
  unfold projectDefinition at h
  simp only [Deriving.yields_bind, Deriving.yields_liftM] at h
  obtain ⟨k, _, ⟨hk, rfl⟩, h⟩ := h
  cases k with
  | object =>
    unfold projectObject at h
    simp only [Deriving.yields_bind, Deriving.yields_liftM] at h
    obtain ⟨r, _, ⟨hr, rfl⟩, h⟩ := h
    split at h
    · rename_i fields hfields
      simp only [Deriving.yields_bind, Deriving.yields_liftM, Deriving.yields_pure] at h
      obtain ⟨found, _, ⟨hfound, rfl⟩, shown, _, hshown, rfl, rfl⟩ := h
      -- Before the first member nothing is shown, and nothing was met.
      have hnone : Pictures reg s.Asked fields [] [] :=
        ⟨List.nodup_nil, rfl, fun _ hy => absurd hy List.not_mem_nil,
          fun _ hva => absurd hva List.not_mem_nil⟩
      have hlisted : Deriving.Yields (projectShown reg project t.name name fields []
        (listed found ⟨r, fields⟩)) s shown _ := hshown
      obtain ⟨hI', hkeep, hp⟩ := pictures_of_projectShown hproject hI hnone hlisted
      exact ⟨hI', hkeep, .object (v := ⟨r, fields⟩) (Registry.view_eq_some.mpr ⟨hr, hfields⟩)
        hfound hp⟩
    · exact absurd h Deriving.yields_throw
  | array =>
    obtain ⟨hI', hkeep, himage⟩ := image_of_projectAttr hproject hI h
    exact ⟨hI', hkeep, .collection hk (.inl rfl) himage⟩
  | map =>
    obtain ⟨hI', hkeep, himage⟩ := image_of_projectAttr hproject hI h
    exact ⟨hI', hkeep, .collection hk (.inr rfl) himage⟩
  | primitive p => exact absurd h Deriving.yields_throw
  | union => exact absurd h Deriving.yields_throw

end

/-! ## Projected types -/

/-- What was asked for has the identity that says so. The identity is made before the definition, so
    references to an open projection are right. -/
def Progress.Identified (s : Progress) : Prop := ∀ e ∈ s.ids, e.2 = ViewedType.projectedId e.1

/-- To reserve an identity keeps this. -/
theorem Progress.Identified.insert {s : Progress} {k : ViewedType} (h : s.Identified) :
    Progress.Identified { s with ids := Ordered.insert s.ids k (ViewedType.projectedId k) } := by
  intro e he
  rcases Ordered.mem_insert he with rfl | he
  · rfl
  · exact h e he

/-- What is kept when a projection is asked for, and when it is built, is kept by asking for it with
    everything that it leads to. The projections in the list are asked for and not built yet. -/
theorem asks_projectWithin (reg : Registry) {I : List ViewedType → Progress → Prop}
    (hidentified : ∀ opens s, I opens s → s.Identified)
    (hopen : ∀ {opens s k t}, I opens s → reg.find? k.type = some t →
      I (k :: opens) { s with ids := Ordered.insert s.ids k (ViewedType.projectedId k) })
    (hclose : ∀ {opens s k t} {u : UserType}, I (k :: opens) s → s.Asked k →
      reg.find? k.type = some t → u.id = ViewedType.projectedId k →
      Defines reg s.Asked t k.view u.definition →
      I opens { s with built := Ordered.insert s.built (ViewedType.projectedId k) u })
    (levels : Nat) : ∀ opens, Asks (projectWithin reg levels) (I opens) := by
  -- A projection in the table is handed out as it is, with nothing built. So it may be one that is
  -- still open, which is what ends the walk around a circle.
  have known : ∀ {opens : List ViewedType} {k : ViewedType} {s : Progress} {i : TypeId},
      I opens s → Ordered.get? s.ids k = some i → i = ViewedType.projectedId k ∧ s.Asked k := by
    intro opens k s i hs hi
    have hmem := Ordered.mem_of_get? hi
    exact ⟨hidentified _ _ hs _ hmem, List.mem_map_of_mem hmem⟩
  induction levels with
  | zero =>
    intro opens k s i s' hs h
    rw [projectWithin] at h
    simp only [Deriving.yields_bind, Deriving.yields_get] at h
    obtain ⟨_, _, ⟨rfl, rfl⟩, h⟩ := h
    split at h
    · rename_i hi
      obtain ⟨rfl, rfl⟩ := Deriving.yields_pure.mp h
      exact ⟨hs, (known hs hi).1, (known hs hi).2, fun _ hk => hk⟩
    · exact absurd h Deriving.yields_exhausted
  | succ levels ih =>
    intro opens k s i s' hs h
    rw [projectWithin] at h
    simp only [Deriving.yields_bind, Deriving.yields_get] at h
    obtain ⟨_, _, ⟨rfl, rfl⟩, h⟩ := h
    split at h
    · rename_i hi
      obtain ⟨rfl, rfl⟩ := Deriving.yields_pure.mp h
      exact ⟨hs, (known hs hi).1, (known hs hi).2, fun _ hk => hk⟩
    · simp only [Deriving.yields_bind, Deriving.yields_liftM, Deriving.yields_pure] at h
      obtain ⟨t, _, ⟨ht, rfl⟩, ⟨⟩, s₁, hask, d, s₂, hd, ⟨⟩, s₃, hbuilt, rfl, rfl⟩ := h
      rw [Deriving.yields_modify] at hask hbuilt
      subst hask
      subst hbuilt
      rw [Registry.get_eq_ok] at ht
      -- While the definition is projected, this projection is among the open ones.
      obtain ⟨hs₂, hkeep, hdefines⟩ :=
        defines_of_projectDefinition (ih (k :: opens)) (hopen hs ht) hd
      have hasked := hkeep k (Ordered.mem_keys_insert.mpr (.inl rfl))
      exact ⟨hclose hs₂ hasked ht rfl hdefines, rfl, hasked,
        fun k' hk' => hkeep k' (Ordered.mem_keys_insert.mpr (.inr hk'))⟩

theorem asks_identified (reg : Registry) (levels : Nat) :
    Asks (projectWithin reg levels) Progress.Identified :=
  asks_projectWithin reg (I := fun _ s => s.Identified) (fun _ _ hs => hs) (fun hs _ => hs.insert)
    (fun hs _ _ _ _ => hs) levels []

/-- The definition is one that is built for the projection of a type under a view. The table that it
    starts from is left open. -/
def Derives (reg : Registry) (k : ViewedType) (d : Attribute) : Prop :=
  ∃ t levels s s', reg.find? k.type = some t ∧ s.Identified ∧
    Deriving.Yields (projectDefinition reg (projectWithin reg levels) t k.view) s d s'

theorem Derives.defines {k : ViewedType} (h : Derives reg k b) :
    ∃ t, reg.find? k.type = some t ∧ Defines reg (fun _ => True) t k.view b := by
  obtain ⟨t, levels, s, s', ht, hs, hd⟩ := h
  exact ⟨t, ht, (defines_of_projectDefinition (asks_identified reg levels) hs hd).2.2.mono
    fun _ _ => trivial⟩

end Projection
end Shapewright
