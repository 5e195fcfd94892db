import Shapewright.Matching
import Shapewright.Proofs.Walk
import Shapewright.Scope

/-!
# Positions

Walks over a registry look at attributes that are either written in the attribute they started from
or in the definition of some type. There are finitely many of these, and every look-up stays among
them. Where an attribute refers to a named type, a look-up sees the name and nothing else of the
attribute.

The first fact is what makes budgets possible. A reference is not a part of the attribute it stands
in, but the definition that it leads to is written somewhere in the registry; so the attributes that
any walk can meet are the parts of finitely many attributes (`Registry.standing`), and there are as
many of them as the budget of a walk counts (`Registry.length_standing`). For each look-up (an
element, an entry, an alternative, a field, the content of a box) one lemma says that it does not
lead out of that list.

The second fact is what makes helpers possible. Two references to one type may declare different
rules and defaults beside the name, and yet nothing that is looked up behind them differs. This is
`Attribute.BothRefer`; the compiler may therefore build one function for a named type and call it
wherever the name stands.

Both are stated by what an attribute resolves to. The equivalences `elem?_eq_some` and its kin say
when a look-up succeeds, and later proofs use them in place of the look-ups' definitions.
-/

namespace Shapewright

namespace Ordered

variable {κ α : Type} [BEq κ] [LawfulBEq κ] {entries : List (κ × α)} {key : κ} {value : α}

/-- What a look-up finds is an entry of the list. It is the first one of its key, which no proof
    needs here. -/
theorem mem_of_get? (h : get? entries key = some value) : (key, value) ∈ entries := by
  induction entries with
  | nil => simp [get?] at h
  | cons e rest ih =>
    obtain ⟨k, v⟩ := e
    rw [get?] at h
    split at h
    · rename_i hk
      cases h
      rw [eq_of_beq hk]
      exact List.mem_cons_self
    · exact List.mem_cons_of_mem _ (ih h)

theorem exists_get? (h : key ∈ entries.map Prod.fst) : ∃ value, get? entries key = some value := by
  induction entries with
  | nil => simp at h
  | cons e rest ih =>
    obtain ⟨k, v⟩ := e
    rw [get?]
    split
    · exact ⟨v, rfl⟩
    · rename_i hk
      rcases List.mem_cons.mp h with rfl | h
      · exact absurd (BEq.refl _) hk
      · exact ih h

end Ordered

/-! ## The attributes inside an attribute -/

namespace Attribute

mutual

/-- The attributes written in an attribute, itself included. References are not followed. -/
def parts (a : Attribute) : List Attribute :=
  a :: match a with
    | { type := .primitive _, .. } => []
    | { type := .array elem, .. } => elem.parts
    | { type := .map key elem, .. } => key.parts ++ elem.parts
    | { type := .object fields, .. } => partsAll fields
    | { type := .union _ alternatives, .. } => partsAll alternatives
    | { type := .user _, .. } => []

/-- The attributes written in the fields of an object or the alternatives of a union. -/
def partsAll : List (String × Attribute) → List Attribute
  | [] => []
  | (_, a) :: rest => a.parts ++ partsAll rest

end

theorem mem_parts_self (a : Attribute) : a ∈ a.parts := by
  unfold parts
  exact List.mem_cons_self

mutual

/-- An attribute has as many parts as its size counts; the budgets of walks are sums of such
    sizes. -/
theorem length_parts (a : Attribute) : a.parts.length = a.size := by
  match a with
  | { type := .primitive _, .. } => simp [parts, size]
  | { type := .array elem, .. } => simp [parts, size, length_parts elem]
  | { type := .map key elem, .. } => simp [parts, size, length_parts key, length_parts elem]
  | { type := .object fields, .. } => simp [parts, size, length_partsAll fields]
  | { type := .union _ alternatives, .. } => simp [parts, size, length_partsAll alternatives]
  | { type := .user _, .. } => simp [parts, size]

theorem length_partsAll (fields : List (String × Attribute)) :
    (partsAll fields).length = sizeAll fields := by
  match fields with
  | [] => rfl
  | (_, a) :: rest => simp [partsAll, sizeAll, length_parts a, length_partsAll rest]

end

/-- The attributes one level below. -/
def children (a : Attribute) : List Attribute :=
  match a.type with
  | .primitive _ | .user _ => []
  | .array elem => [elem]
  | .map key elem => [key, elem]
  | .object fields => fields.map Prod.snd
  | .union _ alternatives => alternatives.map Prod.snd

theorem mem_partsAll {x : Attribute} {fields : List (String × Attribute)} :
    x ∈ partsAll fields ↔ ∃ a ∈ fields.map Prod.snd, x ∈ a.parts := by
  induction fields with
  | nil => simp [partsAll]
  | cons f rest ih =>
    rw [partsAll, List.mem_append, ih]
    simp only [List.map_cons, List.mem_cons, or_and_right, exists_or, exists_eq_left]

/-- A part is the attribute itself or a part of something one level below. Inductions over the parts
    of an attribute go by this and by the size. -/
theorem mem_parts_iff {x a : Attribute} :
    x ∈ a.parts ↔ x = a ∨ ∃ b ∈ a.children, x ∈ b.parts := by
  obtain ⟨type, _, _, _, _⟩ := a
  cases type <;> simp only [parts, children, mem_partsAll, List.mem_cons, List.not_mem_nil,
    false_and, exists_false, or_false, List.mem_append, exists_eq_or_imp, exists_eq_left]

theorem sizeAll_le {a : Attribute} {fields : List (String × Attribute)}
    (h : a ∈ fields.map Prod.snd) : a.size ≤ sizeAll fields := by
  induction fields with
  | nil => simp at h
  | cons f rest ih =>
    rw [sizeAll]
    rcases List.mem_cons.mp h with rfl | h
    · omega
    · have := ih h
      omega

theorem size_lt_of_mem_children {a b : Attribute} (h : b ∈ a.children) : b.size < a.size := by
  obtain ⟨type, _, _, _, _⟩ := a
  cases type with
  | primitive _ | user _ => simp [children] at h
  | array elem =>
    simp only [children, List.mem_singleton] at h
    simp [h, size]
  | map key elem =>
    simp only [children, List.mem_cons, List.not_mem_nil, or_false] at h
    rcases h with rfl | rfl <;> simp only [size] <;> omega
  | object fields | union _ fields =>
    have := sizeAll_le h
    simp only [size]
    omega

/-- What is written in a part is written in the whole. The induction is on the size of the whole, as
    the children of an attribute are held in lists and pairs of several shapes. -/
theorem parts_subset {a : Attribute} : ∀ {x : Attribute}, x ∈ a.parts → x.parts ⊆ a.parts := by
  induction hn : a.size using Nat.strongRecOn generalizing a with
  | ind n ih =>
    intro x hx y hy
    rcases mem_parts_iff.mp hx with rfl | ⟨b, hb, hxb⟩
    · exact hy
    · have hlt : b.size < n := hn ▸ size_lt_of_mem_children hb
      exact mem_parts_iff.mpr (Or.inr ⟨b, hb, ih b.size hlt rfl hxb hy⟩)

theorem mem_parts_of_mem_children {a b : Attribute} (h : b ∈ a.children) : b ∈ a.parts :=
  mem_parts_iff.mpr (Or.inr ⟨b, h, mem_parts_self b⟩)

end Attribute

/-! ## The attributes a walk can meet -/

namespace Registry

/-- The attributes that a walk from `a` can meet: those written in it and in the types. A walk that
    follows references goes on in the definition of a type, so it needs nothing else. -/
def standing (reg : Registry) (a : Attribute) : List Attribute :=
  a.parts ++ reg.types.flatMap (·.definition.parts)

/-- There are as many of them as a walk's budget counts positions. -/
theorem length_standing (reg : Registry) (a : Attribute) :
    (reg.standing a).length = reg.positions + a.size := by
  rw [standing, List.length_append, Attribute.length_parts, List.length_flatMap, positions,
    Nat.add_comm]
  simp only [Attribute.length_parts]
  rfl

theorem mem_standing_self (reg : Registry) (a : Attribute) : a ∈ reg.standing a :=
  List.mem_append_left _ a.mem_parts_self

theorem mem_standing_of_mem_children {reg : Registry} {a b x : Attribute}
    (hb : b ∈ reg.standing a) (hx : x ∈ b.children) : x ∈ reg.standing a := by
  have hxb := Attribute.mem_parts_of_mem_children hx
  rcases List.mem_append.mp hb with hb | hb
  · exact List.mem_append_left _ (Attribute.parts_subset hb hxb)
  · obtain ⟨t, ht, hb⟩ := List.mem_flatMap.mp hb
    exact List.mem_append_right _ (List.mem_flatMap.mpr ⟨t, ht, Attribute.parts_subset hb hxb⟩)

theorem get_eq_ok {reg : Registry} {id : TypeId} {t : UserType} :
    reg.get id = .ok t ↔ reg.find? id = some t := by
  unfold get
  split
  · rename_i u hu
    simp [hu]
  · rename_i hnone
    simp [hnone]

theorem mem_types_of_find? {reg : Registry} {id : TypeId} {t : UserType}
    (h : reg.find? id = some t) : t ∈ reg.types ∧ t.id = id :=
  ⟨List.mem_of_find?_eq_some h, by simpa using List.find?_some h⟩

theorem definition_mem_standing {reg : Registry} {a : Attribute} {id : TypeId} {t : UserType}
    (h : reg.find? id = some t) : t.definition ∈ reg.standing a :=
  List.mem_append_right _ (List.mem_flatMap.mpr
    ⟨t, (mem_types_of_find? h).1, t.definition.mem_parts_self⟩)

/-- Following references stays among the attributes of the walk: each hop lands on a definition. The
    list has the definitions of all types in it, so no path of references leads out of it. -/
theorem resolveWithin_mem_standing {reg : Registry} {a : Attribute} :
    ∀ {hops : Nat} {b r : Attribute}, reg.resolveWithin hops b = .ok r →
      b ∈ reg.standing a → r ∈ reg.standing a := by
  intro hops
  induction hops with
  | zero =>
    intro b r h hb
    unfold resolveWithin at h
    split at h
    · split at h <;> simp at h
    · cases h
      exact hb
  | succ hops ih =>
    intro b r h hb
    unfold resolveWithin at h
    split at h
    · split at h
      · simp at h
      -- The definition of any type of the registry is in the walk, wherever the reference to it
      -- stands.
      · rename_i t ht
        exact ih h (definition_mem_standing ht)
    · cases h
      exact hb

theorem resolve_mem_standing {reg : Registry} {a b r : Attribute}
    (h : reg.resolve b = .ok r) (hb : b ∈ reg.standing a) : r ∈ reg.standing a :=
  resolveWithin_mem_standing h hb

/-- The children of what an attribute resolves to are met by a walk that meets the attribute. All
    look-ups below are instances of this one. -/
theorem children_resolve_mem_standing {reg : Registry} {a b r x : Attribute}
    (h : reg.resolve b = .ok r) (hb : b ∈ reg.standing a) (hx : x ∈ r.children) :
    x ∈ reg.standing a :=
  mem_standing_of_mem_children (resolve_mem_standing h hb) hx

/-! ## Look-ups, by what an attribute resolves to -/

theorem elem?_eq_some {reg : Registry} {a elem : Attribute} :
    reg.elem? a = .ok (some elem) ↔ ∃ r, reg.resolve a = .ok r ∧ r.type = .array elem := by
  unfold elem?
  simp only [except_bind_eq_ok]
  refine exists_congr fun r => and_congr_right fun _ => ?_
  split <;> simp_all

theorem entry?_eq_some {reg : Registry} {a key elem : Attribute} :
    reg.entry? a = .ok (some (key, elem)) ↔
      ∃ r, reg.resolve a = .ok r ∧ r.type = .map key elem := by
  unfold entry?
  simp only [except_bind_eq_ok]
  refine exists_congr fun r => and_congr_right fun _ => ?_
  split <;> simp_all

theorem union?_eq_some {reg : Registry} {a : Attribute} {name : String}
    {alternatives : List (String × Attribute)} :
    reg.union? a = .ok (some (name, alternatives)) ↔
      ∃ r, reg.resolve a = .ok r ∧ r.type = .union name alternatives := by
  unfold union?
  simp only [except_bind_eq_ok]
  refine exists_congr fun r => and_congr_right fun _ => ?_
  split <;> simp_all

theorem fields?_eq_some {reg : Registry} {a : Attribute} {fields : List (String × Attribute)} :
    reg.fields? a = .ok (some fields) ↔
      ∃ r, reg.resolve a = .ok r ∧ r.type = .object fields := by
  unfold fields?
  simp only [except_bind_eq_ok]
  refine exists_congr fun r => and_congr_right fun _ => ?_
  split <;> simp_all

/-- The view of an object is the attribute that was resolved to, together with its fields. Whatever
    is said of fields is said of this attribute, which is where `required` stands too. -/
theorem view_eq_some {reg : Registry} {a : Attribute} {v : ObjectView} :
    ObjectView.of? reg a = .ok (some v) ↔
      reg.resolve a = .ok v.declared ∧ v.declared.type = .object v.fields := by
  unfold ObjectView.of?
  simp only [except_bind_eq_ok]
  constructor
  · intro h
    obtain ⟨r, hr, h⟩ := h
    split at h
    · cases h
      exact ⟨hr, by assumption⟩
    · simp at h
  · intro h
    obtain ⟨hr, ht⟩ := h
    refine ⟨_, hr, ?_⟩
    rw [ht]

/-- A box is an object with one field of a fixed name. Only this direction is needed: what is inside
    a box stands in a resolved object. -/
theorem unbox?_eq_some {reg : Registry} {a inner : Attribute}
    (h : reg.unbox? a = .ok (some inner)) :
    ∃ r, reg.resolve a = .ok r ∧ r.type = .object [(boxField, inner)] := by
  unfold unbox? at h
  simp only [except_bind_eq_ok] at h
  obtain ⟨fields, hf, h⟩ := h
  split at h
  · rename_i name content
    obtain ⟨r, hr, ht⟩ := fields?_eq_some.mp hf
    simp only [Except.ok.injEq, Option.ite_none_right_eq_some, Option.some.injEq] at h
    exact ⟨r, hr, by rw [ht, h.1, h.2]⟩
  · simp at h

/-- The kind of an attribute is read off the type that it resolves to. That a resolved attribute is
    no reference is a promise of the walk, and a broken promise is reported as such. -/
theorem kind_eq_of_resolve {reg : Registry} {a r : Attribute} (h : reg.resolve a = .ok r) :
    reg.kind a = match r.type with
      | .primitive p => .ok (.primitive p)
      | .array _ => .ok .array
      | .map _ _ => .ok .map
      | .object _ => .ok .object
      | .union _ _ => .ok .union
      | .user id => .error (.defect (.circularAlias id)) := by
  unfold kind
  rw [h]
  rfl

theorem kind_of_elem {reg : Registry} {a x : Attribute} (h : reg.elem? a = .ok (some x)) :
    reg.kind a = .ok .array := by
  obtain ⟨r, hr, ht⟩ := elem?_eq_some.mp h
  rw [kind_eq_of_resolve hr, ht]

theorem kind_of_entry {reg : Registry} {a k x : Attribute}
    (h : reg.entry? a = .ok (some (k, x))) : reg.kind a = .ok .map := by
  obtain ⟨r, hr, ht⟩ := entry?_eq_some.mp h
  rw [kind_eq_of_resolve hr, ht]

theorem kind_of_union {reg : Registry} {a : Attribute} {u : String × List (String × Attribute)}
    (h : reg.union? a = .ok (some u)) : reg.kind a = .ok .union := by
  obtain ⟨r, hr, ht⟩ := union?_eq_some.mp h
  rw [kind_eq_of_resolve hr, ht]

theorem kind_of_view {reg : Registry} {a : Attribute} {v : ObjectView}
    (h : ObjectView.of? reg a = .ok (some v)) : reg.kind a = .ok .object := by
  obtain ⟨hr, ht⟩ := view_eq_some.mp h
  rw [kind_eq_of_resolve hr, ht]

theorem kind_of_unbox {reg : Registry} {a inner : Attribute}
    (h : reg.unbox? a = .ok (some inner)) : reg.kind a = .ok .object := by
  obtain ⟨r, hr, ht⟩ := unbox?_eq_some h
  rw [kind_eq_of_resolve hr, ht]

theorem isPrimitive_of_kind {reg : Registry} {a : Attribute} {k : Kind} (h : reg.kind a = .ok k) :
    reg.isPrimitive a = .ok k.isPrimitive := by
  unfold isPrimitive
  rw [h]
  rfl

theorem elem?_mem_standing {reg : Registry} {a b x : Attribute}
    (h : reg.elem? b = .ok (some x)) (hb : b ∈ reg.standing a) : x ∈ reg.standing a := by
  obtain ⟨r, hr, ht⟩ := elem?_eq_some.mp h
  exact children_resolve_mem_standing hr hb (by simp [Attribute.children, ht])

theorem entry?_mem_standing {reg : Registry} {a b key elem : Attribute}
    (h : reg.entry? b = .ok (some (key, elem))) (hb : b ∈ reg.standing a) :
    key ∈ reg.standing a ∧ elem ∈ reg.standing a := by
  obtain ⟨r, hr, ht⟩ := entry?_eq_some.mp h
  exact ⟨children_resolve_mem_standing hr hb (by simp [Attribute.children, ht]),
    children_resolve_mem_standing hr hb (by simp [Attribute.children, ht])⟩

theorem union?_mem_standing {reg : Registry} {a b x : Attribute} {name : String}
    {alternatives : List (String × Attribute)}
    (h : reg.union? b = .ok (some (name, alternatives))) (hb : b ∈ reg.standing a)
    (hx : x ∈ alternatives.map Prod.snd) : x ∈ reg.standing a := by
  obtain ⟨r, hr, ht⟩ := union?_eq_some.mp h
  exact children_resolve_mem_standing hr hb (by simpa [Attribute.children, ht] using hx)

theorem field_mem_standing {reg : Registry} {a b x : Attribute} {v : ObjectView}
    (h : ObjectView.of? reg b = .ok (some v)) (hb : b ∈ reg.standing a)
    (hx : x ∈ v.fields.map Prod.snd) : x ∈ reg.standing a := by
  obtain ⟨hr, ht⟩ := view_eq_some.mp h
  exact children_resolve_mem_standing hr hb (by simpa [Attribute.children, ht] using hx)

theorem unbox?_mem_standing {reg : Registry} {a b x : Attribute}
    (h : reg.unbox? b = .ok (some x)) (hb : b ∈ reg.standing a) : x ∈ reg.standing a := by
  obtain ⟨r, hr, ht⟩ := unbox?_eq_some h
  exact children_resolve_mem_standing hr hb (by simp [Attribute.children, ht])

end Registry

/-! ## Attributes of one named type -/

/-- Both attributes refer to the named type `id`. They may differ in all that a reference declares
    beside it: rules, defaults, names for generated code. -/
structure Attribute.BothRefer (id : TypeId) (a b : Attribute) : Prop where
  left : a.userId? = some id
  right : b.userId? = some id

namespace Attribute

theorem type_of_userId? {a : Attribute} {id : TypeId} (h : a.userId? = some id) :
    a.type = .user id := by
  unfold userId? at h
  split at h
  · simp_all
  · simp at h

theorem size_of_userId? {a : Attribute} {id : TypeId} (h : a.userId? = some id) : a.size = 1 := by
  obtain ⟨type, _, _, _, _⟩ := a
  obtain rfl : type = .user id := type_of_userId? h
  rw [size]

namespace BothRefer

variable {id : TypeId} {a b : Attribute} {reg : Registry}

theorem resolve_eq (h : BothRefer id a b) : reg.resolve a = reg.resolve b := by
  unfold Registry.resolve Registry.resolveWithin
  rw [type_of_userId? h.left, type_of_userId? h.right]

theorem kind_eq (h : BothRefer id a b) : reg.kind a = reg.kind b := by
  unfold Registry.kind
  rw [h.resolve_eq]

theorem elem?_eq (h : BothRefer id a b) : reg.elem? a = reg.elem? b := by
  unfold Registry.elem?
  rw [h.resolve_eq]

theorem entry?_eq (h : BothRefer id a b) : reg.entry? a = reg.entry? b := by
  unfold Registry.entry?
  rw [h.resolve_eq]

theorem union?_eq (h : BothRefer id a b) : reg.union? a = reg.union? b := by
  unfold Registry.union?
  rw [h.resolve_eq]

theorem view_eq (h : BothRefer id a b) : ObjectView.of? reg a = ObjectView.of? reg b := by
  unfold ObjectView.of?
  rw [h.resolve_eq]

/-- The type that generated code has for a reference is that of the name, too. -/
theorem typeRef_eq {s : Scope} {ctx : Context} (h : BothRefer id a b) :
    s.typeRef ctx a = s.typeRef ctx b := by
  obtain ⟨ta, _, _, _, _⟩ := a
  obtain ⟨tb, _, _, _, _⟩ := b
  obtain rfl : ta = .user id := type_of_userId? h.left
  obtain rfl : tb = .user id := type_of_userId? h.right
  rw [Scope.typeRef, Scope.typeRef]

theorem qualifiedName_eq {s : Scope} {ctx : Context} (h : BothRefer id a b) :
    s.qualifiedName ctx a = s.qualifiedName ctx b := by
  unfold Scope.qualifiedName
  rw [type_of_userId? h.left, type_of_userId? h.right]

end BothRefer
end Attribute

namespace Registry

section Primitives

variable {reg : Registry} {a : Attribute} {p : Primitive}

theorem primitive?_of_kind (h : reg.kind a = .ok (.primitive p)) :
    reg.primitive? a = .ok (some p) := by
  unfold primitive?
  rw [h]
  rfl

theorem kind_of_primitive? (h : reg.primitive? a = .ok (some p)) :
    reg.kind a = .ok (.primitive p) := by
  unfold primitive? at h
  simp only [except_bind_eq_ok] at h
  obtain ⟨k, hk, h⟩ := h
  split at h
  · cases h
    exact hk
  · simp at h

theorem exists_kind (h : reg.isPrimitive a = .ok true) : ∃ p, reg.kind a = .ok (.primitive p) := by
  unfold isPrimitive at h
  simp only [except_bind_eq_ok, except_pure_eq_ok] at h
  obtain ⟨k, hk, h⟩ := h
  cases k with
  | primitive p => exact ⟨p, hk⟩
  | _ => cases h

end Primitives

theorem resolveWithin_of_userId?_eq_none {reg : Registry} {hops : Nat} {a : Attribute}
    (h : a.userId? = none) : reg.resolveWithin hops a = .ok a := by
  unfold resolveWithin
  split
  · rename_i ht
    simp [Attribute.userId?, ht] at h
  · rfl

theorem resolve_of_userId?_eq_none {reg : Registry} {a : Attribute} (h : a.userId? = none) :
    reg.resolve a = .ok a :=
  resolveWithin_of_userId?_eq_none h

/-- A reference that has a kind is one to a known type. The checks of a design ask for the kind of
    every attribute, and this is how they come to rule out references to nothing. -/
theorem find?_of_kind {reg : Registry} {a : Attribute} {id : TypeId} {k : Kind}
    (ha : a.userId? = some id) (hk : reg.kind a = .ok k) : ∃ t, reg.find? id = some t := by
  obtain ⟨r, hr, -⟩ := except_bind_eq_ok.mp hk
  unfold resolve resolveWithin at hr
  rw [Attribute.type_of_userId? ha] at hr
  cases hfind : reg.find? id with
  | none => simp [hfind] at hr
  | some t => exact ⟨t, rfl⟩

end Registry
end Shapewright
