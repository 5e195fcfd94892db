import Shapewright.Proofs.Chains
import Shapewright.Proofs.Scope

/-!
# References that lead to structures

Where every reference in an attribute and in the types of its registry leads to a structure, so do
all references that a walk from the attribute can meet. Every look-up by a kind then finds what the
kind promises, and every attribute on the way has a type in the code.

## The two conditions

A reference is resolved by following names of types until something else comes. It can fail in two
ways: a name is unknown, or the chain comes round. `Registry.Sound` and `Registry.Resolves` exclude
both for the types and for one attribute. They are what checking a design establishes, and they can
be decided. Each looks only at what is written in one place, since what a reference leads to is
written elsewhere (`resolves_of_userId?`).

## Chains

Hops are limited by the number of types, which is enough: a chain that ends visits no type twice
(`resolve_of_resolveWithin`). So the limit never cuts off a chain that would have ended, and running
out of hops means that the chain comes round. The proof is the one for all bounded walks in this
development, in `Proofs.Chains`.

## Failing look-ups

The second half of the module is about attributes for which a look-up fails. `Lost` says that a walk
from the attribute meets a reference without a structure, and keeps the reason. Each look-up that
fails is lost, so where nothing is lost, nothing fails (`Sound.not_lost`). This is how internal
errors of the emitters are excluded without going through them once more.
-/

namespace Shapewright

variable {reg : Registry} {a b : Attribute} {k : Kind} {id : TypeId}

namespace Registry

/-- Every reference written in the attribute leads to a structure. What lies behind the references
    is not part of it, so the property can be computed. -/
def Resolves (reg : Registry) (a : Attribute) : Prop := ∀ x ∈ a.parts, ∃ k, reg.kind x = .ok k

/-- Every reference written in a type of the registry leads to a structure. It is what the first
    check of a design establishes, and most results about designs start from it. -/
def Sound (reg : Registry) : Prop := ∀ t ∈ reg.types, reg.Resolves t.definition

instance (reg : Registry) (a : Attribute) : Decidable (reg.Resolves a) :=
  inferInstanceAs (Decidable (∀ x ∈ a.parts, ∃ k, reg.kind x = .ok k))

instance (reg : Registry) : Decidable reg.Sound :=
  inferInstanceAs (Decidable (∀ t ∈ reg.types, reg.Resolves t.definition))

theorem Resolves.kind (h : reg.Resolves a) : ∃ k, reg.kind a = .ok k := h a a.mem_parts_self

theorem Resolves.child (h : reg.Resolves a) (hb : b ∈ a.children) : reg.Resolves b :=
  fun x hx => h x (Attribute.parts_subset (Attribute.mem_parts_of_mem_children hb) hx)

/-- A reference resolves by itself: what it leads to is written elsewhere. -/
theorem resolves_of_userId? (ha : a.userId? = some id) (hk : reg.kind a = .ok k) :
    reg.Resolves a := by
  intro x hx
  obtain rfl : x = a := by
    rcases Attribute.mem_parts_iff.mp hx with rfl | ⟨b, hb, -⟩
    · rfl
    · simp [Attribute.children, Attribute.type_of_userId? ha] at hb
  exact ⟨k, hk⟩

theorem resolves_of_primitive {p : Primitive} (hk : reg.kind a = .ok (.primitive p)) :
    reg.Resolves a := by
  cases hu : a.userId? with
  | some id => exact resolves_of_userId? hu hk
  | none =>
    intro x hx
    rcases Attribute.mem_parts_iff.mp hx with rfl | ⟨b, hb, -⟩
    · exact ⟨_, hk⟩
    · rw [kind_eq_of_resolve (resolve_of_userId?_eq_none hu)] at hk
      unfold Attribute.children at hb
      split at hb <;> simp_all

/-- What a walk can meet resolves. -/
theorem Sound.of_mem_standing (hs : reg.Sound) (ha : reg.Resolves a) {x : Attribute}
    (hx : x ∈ reg.standing a) : reg.Resolves x := by
  rcases List.mem_append.mp hx with hx | hx
  · exact fun y hy => ha y (Attribute.parts_subset hx hy)
  · obtain ⟨t, ht, hx⟩ := List.mem_flatMap.mp hx
    exact fun y hy => hs t ht y (Attribute.parts_subset hx hy)

/-! ## Chains of references -/

open Relation

theorem exists_resolve (h : reg.kind a = .ok k) : ∃ r, reg.resolve a = .ok r :=
  let ⟨r, hr, _⟩ := except_bind_eq_ok.mp h
  ⟨r, hr⟩

/-- Of a reference nothing counts but the type that it names. -/
theorem resolveWithin_user {hops : Nat} (h : a.userId? = some id) :
    reg.resolveWithin hops a = reg.resolveWithin hops (.user id) := by
  unfold resolveWithin
  rw [Attribute.type_of_userId? h, Attribute.user]

/-- A known type takes one hop. -/
theorem resolveWithin_succ {hops : Nat} {t : UserType} (ha : a.userId? = some id)
    (ht : reg.find? id = some t) :
    reg.resolveWithin (hops + 1) a = reg.resolveWithin hops t.definition := by
  rw [resolveWithin_user ha]
  conv_lhs => unfold resolveWithin Attribute.user
  dsimp only
  rw [ht]

/-- Where a chain ends, there is no reference. So to resolve once more changes nothing. -/
theorem userId?_of_resolveWithin : ∀ {hops : Nat} {a r : Attribute},
    reg.resolveWithin hops a = .ok r → r.userId? = none := by
  intro hops
  induction hops with
  | zero =>
    intro a r h
    unfold resolveWithin at h
    split at h
    · split at h <;> cases h
    · rename_i hnone
      cases h
      unfold Attribute.userId?
      split
      · exact absurd ‹_› (hnone _)
      · rfl
  | succ hops ih =>
    intro a r h
    unfold resolveWithin at h
    split at h
    · split at h
      · cases h
      · exact ih h
    · rename_i hnone
      cases h
      unfold Attribute.userId?
      split
      · exact absurd ‹_› (hnone _)
      · rfl

theorem exists_kind_of_resolve {r : Attribute} (h : reg.resolve a = .ok r) :
    ∃ k, reg.kind a = .ok k := by
  have hr := userId?_of_resolveWithin h
  rw [kind_eq_of_resolve h]
  unfold Attribute.userId? at hr
  cases ht : r.type with
  | user id => simp [ht] at hr
  | _ => exact ⟨_, rfl⟩

/-- The definition of the first type is a reference to the second. Only the definition as a whole
    counts, and not what is written inside of it. -/
def Leads (reg : Registry) (i j : TypeId) : Prop :=
  ∃ t, reg.find? i = some t ∧ t.definition.userId? = some j

/-- A reference leads from the first type to the second, which is known. Without the second part a
    chain could go on to a type that is not there. -/
def Follows (reg : Registry) (i j : TypeId) : Prop :=
  reg.Leads i j ∧ ∃ t, reg.find? j = some t

/-- A chain of references that ends never comes round. It is followed by a function, so it has one
    end if it has any. -/
theorem acc_of_resolveWithin : ∀ {hops : Nat} {i : TypeId} {r : Attribute},
    reg.resolveWithin hops (.user i) = .ok r → Acc (fun j i => reg.Leads i j) i := by
  intro hops
  induction hops with
  | zero =>
    intro i r h
    unfold resolveWithin Attribute.user at h
    dsimp only at h
    split at h <;> cases h
  | succ hops ih =>
    intro i r h
    unfold resolveWithin Attribute.user at h
    dsimp only at h
    -- Whatever the type leads to resolves in one hop less.
    refine Acc.intro _ fun j hj => ?_
    obtain ⟨t, ht, hj⟩ := hj
    rw [ht] at h
    dsimp only at h
    rw [resolveWithin_user hj] at h
    exact ih h

/-- The end of a chain is the end of each part of it. The number of steps can be another one, as
    fewer are needed from further on. -/
theorem resolveWithin_leads {hops : Nat} {i j : TypeId} {r : Attribute}
    (h : reg.resolveWithin hops (.user i) = .ok r) (hij : reg.Leads i j) :
    ∃ hops, reg.resolveWithin hops (.user j) = .ok r := by
  obtain ⟨t, ht, hj⟩ := hij
  unfold resolveWithin Attribute.user at h
  dsimp only at h
  rw [ht] at h
  dsimp only at h
  cases hops with
  | zero => cases h
  | succ hops =>
    dsimp only at h
    rw [resolveWithin_user hj] at h
    exact ⟨hops, h⟩

theorem find?_of_resolveWithin {hops : Nat} {i : TypeId} {r : Attribute}
    (h : reg.resolveWithin hops (.user i) = .ok r) : ∃ t, reg.find? i = some t := by
  unfold resolveWithin Attribute.user at h
  dsimp only at h
  split at h
  · cases h
  · exact ⟨_, ‹_›⟩

/-- However long a chain of references is that ends, it ends within as many hops as there are types:
    it visits no type twice. -/
theorem resolve_of_resolveWithin {hops : Nat} {i : TypeId} {r : Attribute}
    (h : reg.resolveWithin hops (.user i) = .ok r) : ∃ r, reg.resolve (.user i) = .ok r := by
  have known : ∀ {j : TypeId} {t : UserType}, reg.find? j = some t →
      j ∈ reg.types.map (·.id) := by
    intro j t ht
    obtain ⟨hmem, rfl⟩ := mem_types_of_find? ht
    exact List.mem_map_of_mem hmem
  have reached : ∀ {j : TypeId}, ReflTransGen reg.Follows i j →
      ∃ hops, reg.resolveWithin hops (.user j) = .ok r := by
    intro j hj
    induction hj with
    | refl => exact ⟨hops, h⟩
    | tail _ hjk ih =>
      obtain ⟨hops, hj⟩ := ih
      exact resolveWithin_leads hj hjk.1
  -- The bound on chains in a finite set, applied to the types from `i` on.
  have hends : ∀ n, (reg.types.map (·.id)).length ≤ n →
      ∃ r, reg.resolveWithin n (.user i) = .ok r := by
    refine ends_of_acyclic (R := reg.Follows)
      (fun n i => ∃ r, reg.resolveWithin n (.user i) = .ok r) i ?_ ?_ ?_ ?_
    · obtain ⟨t, ht⟩ := find?_of_resolveWithin h
      exact known ht
    · exact fun _ _ _ hij => known hij.2.choose_spec
    · intro j hj hround
      obtain ⟨hops, hj⟩ := reached hj
      have hround : TransGen reg.Leads j j := TransGen.mono (fun _ _ h => h.1) _ _ hround
      exact not_transGen_self_of_acc (acc_of_resolveWithin hj) hround
    · intro n j hj hnext
      obtain ⟨hops, hj⟩ := reached hj
      obtain ⟨t, ht⟩ := find?_of_resolveWithin hj
      cases hd : t.definition.userId? with
      | none => exact ⟨_, (resolveWithin_succ rfl ht).trans (resolveWithin_of_userId?_eq_none hd)⟩
      | some k =>
        obtain ⟨hops, hk⟩ := resolveWithin_leads hj ⟨t, ht, hd⟩
        rw [resolveWithin_succ (a := .user j) rfl ht, resolveWithin_user hd]
        exact hnext k ⟨⟨t, ht, hd⟩, find?_of_resolveWithin hk⟩
  exact hends reg.size (by rw [List.length_map]; exact Nat.le_refl _)

/-- A known type has a structure behind it if its definition has. -/
theorem exists_kind_user {t : UserType} (hf : reg.find? id = some t)
    (hk : reg.kind t.definition = .ok k) : ∃ k, reg.kind (.user id) = .ok k := by
  obtain ⟨r, hr⟩ := exists_resolve hk
  obtain ⟨r', hr'⟩ := resolve_of_resolveWithin ((resolveWithin_succ rfl hf).trans hr)
  exact exists_kind_of_resolve hr'

theorem Sound.kind_user {t : UserType} (hs : reg.Sound) (hf : reg.find? id = some t) :
    ∃ k, reg.kind (.user id) = .ok k := by
  obtain ⟨k, hk⟩ := (hs t (mem_types_of_find? hf).1).kind
  exact exists_kind_user hf hk

theorem Sound.resolves_user {t : UserType} (hs : reg.Sound) (hf : reg.find? id = some t) :
    reg.Resolves (.user id) :=
  let ⟨_, hk⟩ := hs.kind_user hf
  resolves_of_userId? rfl hk

/-! ## Look-ups by kind -/

theorem exists_primitive? (h : reg.kind a = .ok k) : ∃ p, reg.primitive? a = .ok p := by
  unfold primitive?
  rw [h]
  cases k <;> exact ⟨_, rfl⟩

/-- What is an array has elements. The other look-ups by kind are similar. -/
theorem exists_elem (h : reg.kind a = .ok .array) : ∃ x, reg.elem? a = .ok (some x) := by
  obtain ⟨r, hr⟩ := exists_resolve h
  rw [kind_eq_of_resolve hr] at h
  cases ht : r.type with
  | array x => exact ⟨x, elem?_eq_some.mpr ⟨r, hr, ht⟩⟩
  | _ => simp [ht] at h

theorem exists_entry (h : reg.kind a = .ok .map) : ∃ e, reg.entry? a = .ok (some e) := by
  obtain ⟨r, hr⟩ := exists_resolve h
  rw [kind_eq_of_resolve hr] at h
  cases ht : r.type with
  | map k x => exact ⟨(k, x), entry?_eq_some.mpr ⟨r, hr, ht⟩⟩
  | _ => simp [ht] at h

theorem exists_union (h : reg.kind a = .ok .union) : ∃ u, reg.union? a = .ok (some u) := by
  obtain ⟨r, hr⟩ := exists_resolve h
  rw [kind_eq_of_resolve hr] at h
  cases ht : r.type with
  | union name alternatives => exact ⟨(name, alternatives), union?_eq_some.mpr ⟨r, hr, ht⟩⟩
  | _ => simp [ht] at h

theorem exists_view (h : reg.kind a = .ok .object) :
    ∃ v, ObjectView.of? reg a = .ok (some v) := by
  obtain ⟨r, hr⟩ := exists_resolve h
  rw [kind_eq_of_resolve hr] at h
  cases ht : r.type with
  | object fields => exact ⟨⟨r, fields⟩, view_eq_some.mpr ⟨hr, ht⟩⟩
  | _ => simp [ht] at h

theorem exists_elem? (h : reg.kind a = .ok k) : ∃ x, reg.elem? a = .ok x := by
  obtain ⟨r, hr⟩ := exists_resolve h
  unfold elem?
  simp only [except_bind_eq_ok, hr, Except.ok.injEq, exists_eq_left']
  split
  · exact ⟨_, rfl⟩
  · exact ⟨_, rfl⟩

theorem exists_fields? (h : reg.kind a = .ok k) : ∃ fields, reg.fields? a = .ok fields := by
  obtain ⟨r, hr⟩ := exists_resolve h
  unfold fields?
  simp only [except_bind_eq_ok, hr, Except.ok.injEq, exists_eq_left']
  split
  · exact ⟨_, rfl⟩
  · exact ⟨_, rfl⟩

/-- Whether an attribute is a box can be told of every attribute that has a kind. -/
theorem exists_unbox? (h : reg.kind a = .ok k) : ∃ o, reg.unbox? a = .ok o := by
  obtain ⟨fields, hf⟩ := exists_fields? h
  unfold unbox?
  simp only [except_bind_eq_ok, hf, Except.ok.injEq, exists_eq_left']
  split
  · exact ⟨_, rfl⟩
  · exact ⟨_, rfl⟩

/-! ## What a walk meets -/

/-- The next step of a walk leads to what is written one level below, or to where a reference leads.
    It is the step of a walk through values, not of one through types. -/
def Steps (reg : Registry) (a b : Attribute) : Prop := b ∈ a.children ∨ reg.resolve a = .ok b

/-- A walk from the first attribute can meet the second. -/
def Meets (reg : Registry) : Attribute → Attribute → Prop := ReflTransGen reg.Steps

/-- A walk from the attribute can meet a reference that leads to no structure, for this reason. The
    fault is the one that is reported if the reference is looked up. -/
def Lost (reg : Registry) (a : Attribute) (f : Fault) : Prop :=
  ∃ x, reg.Meets a x ∧ reg.kind x = .error f

variable {f : Fault} {x : Attribute}

theorem meets_child (h : reg.resolve a = .ok b) (hx : x ∈ b.children) : reg.Meets a x :=
  .tail (.single (.inr h)) (.inl hx)

theorem meets_of_mem_parts (h : x ∈ a.parts) : reg.Meets a x := by
  induction hn : a.size using Nat.strongRecOn generalizing a with
  | ind n ih =>
    rcases Attribute.mem_parts_iff.mp h with rfl | ⟨b, hb, hx⟩
    · exact .refl
    · exact .head (.inl hb) (ih _ (hn ▸ Attribute.size_lt_of_mem_children hb) hx rfl)

/-- A walk from an attribute stays within what is written there and in the types. -/
theorem Meets.mem_standing {root : Attribute} (h : reg.Meets a x) (ha : a ∈ reg.standing root) :
    x ∈ reg.standing root := by
  induction h with
  | refl => exact ha
  | tail _ hstep ih =>
    rcases hstep with hchild | hr
    · exact mem_standing_of_mem_children ih hchild
    · exact resolve_mem_standing hr ih

theorem elem?_meets (h : reg.elem? a = .ok (some x)) : reg.Meets a x := by
  obtain ⟨r, hr, ht⟩ := elem?_eq_some.mp h
  exact meets_child hr (by simp [Attribute.children, ht])

theorem entry?_meets {key : Attribute} (h : reg.entry? a = .ok (some (key, x))) :
    reg.Meets a key ∧ reg.Meets a x := by
  obtain ⟨r, hr, ht⟩ := entry?_eq_some.mp h
  exact ⟨meets_child hr (by simp [Attribute.children, ht]),
    meets_child hr (by simp [Attribute.children, ht])⟩

theorem union?_meets {name : String} {alternatives : List (String × Attribute)}
    (h : reg.union? a = .ok (some (name, alternatives))) (hx : x ∈ alternatives.map Prod.snd) :
    reg.Meets a x := by
  obtain ⟨r, hr, ht⟩ := union?_eq_some.mp h
  exact meets_child hr (by simpa [Attribute.children, ht] using hx)

theorem field_meets {v : ObjectView} (h : ObjectView.of? reg a = .ok (some v))
    (hx : x ∈ v.fields.map Prod.snd) : reg.Meets a x := by
  obtain ⟨hr, ht⟩ := view_eq_some.mp h
  exact meets_child hr (by simpa [Attribute.children, ht] using hx)

theorem unbox?_meets (h : reg.unbox? a = .ok (some x)) : reg.Meets a x := by
  obtain ⟨r, hr, ht⟩ := unbox?_eq_some h
  exact meets_child hr (by simp [Attribute.children, ht])

/-! ### Look-ups that fail -/

theorem Lost.of_meets (h : reg.Meets a b) (hb : reg.Lost b f) : reg.Lost a f :=
  let ⟨x, hx, hf⟩ := hb
  ⟨x, h.trans hx, hf⟩

theorem lost_of_kind (h : reg.kind a = .error f) : reg.Lost a f := ⟨a, .refl, h⟩

theorem lost_of_resolve (h : reg.resolve a = .error f) : reg.Lost a f := by
  refine lost_of_kind ?_
  unfold kind
  rw [h]
  rfl

/-- A reference leads to no structure where a type is unknown or an alias of itself. Conversions
    report the first and treat the second as a defect. -/
theorem resolveWithin_error : ∀ {hops : Nat} {a : Attribute}, reg.resolveWithin hops a = .error f →
    (∃ i, f = .unknownType i) ∨ ∃ i, f = .defect (.circularAlias i) := by
  intro hops
  induction hops with
  | zero =>
    intro a h
    unfold resolveWithin at h
    split at h
    · split at h
      · cases h
        exact .inl ⟨_, rfl⟩
      · cases h
        exact .inr ⟨_, rfl⟩
    · cases h
  | succ hops ih =>
    intro a h
    unfold resolveWithin at h
    split at h
    · split at h
      · cases h
        exact .inl ⟨_, rfl⟩
      · exact ih h
    · cases h

theorem Lost.unknownType_or_circularAlias (h : reg.Lost a f) :
    (∃ i, f = .unknownType i) ∨ ∃ i, f = .defect (.circularAlias i) := by
  obtain ⟨x, -, hf⟩ := h
  unfold kind at hf
  rcases except_bind_eq_error.mp hf with hr | ⟨r, -, hf⟩
  · exact resolveWithin_error hr
  · split at hf <;> cases hf
    exact .inr ⟨_, rfl⟩

/-- Where all references resolve, no walk gets lost. Together with the lemmas on look-ups below,
    this is what a checked design gives. -/
theorem Sound.not_lost (hs : reg.Sound) (ha : reg.Resolves a) : ¬ reg.Lost a f := by
  intro h
  obtain ⟨x, hx, hf⟩ := h
  obtain ⟨k, hk⟩ := (hs.of_mem_standing ha (hx.mem_standing (reg.mem_standing_self a))).kind
  rw [hf] at hk
  cases hk

theorem elem?_lost (h : reg.elem? a = .error f) : reg.Lost a f := by
  rcases except_bind_eq_error.mp h with hr | ⟨_, -, h⟩
  · exact lost_of_resolve hr
  · split at h <;> cases h

theorem entry?_lost (h : reg.entry? a = .error f) : reg.Lost a f := by
  rcases except_bind_eq_error.mp h with hr | ⟨_, -, h⟩
  · exact lost_of_resolve hr
  · split at h <;> cases h

theorem union?_lost (h : reg.union? a = .error f) : reg.Lost a f := by
  rcases except_bind_eq_error.mp h with hr | ⟨_, -, h⟩
  · exact lost_of_resolve hr
  · split at h <;> cases h

theorem view_lost (h : ObjectView.of? reg a = .error f) : reg.Lost a f := by
  rcases except_bind_eq_error.mp h with hr | ⟨_, -, h⟩
  · exact lost_of_resolve hr
  · split at h <;> cases h

theorem unbox?_lost (h : reg.unbox? a = .error f) : reg.Lost a f := by
  rcases except_bind_eq_error.mp h with h | ⟨_, -, h⟩
  · rcases except_bind_eq_error.mp h with hr | ⟨_, -, h⟩
    · exact lost_of_resolve hr
    · split at h <;> cases h
  · split at h <;> cases h

theorem kind_of_isPrimitive_error (h : reg.isPrimitive a = .error f) : reg.kind a = .error f := by
  rcases except_bind_eq_error.mp h with hk | ⟨_, -, h⟩
  · exact hk
  · cases h

theorem kind_of_primitive?_error (h : reg.primitive? a = .error f) : reg.kind a = .error f := by
  rcases except_bind_eq_error.mp h with hk | ⟨_, -, h⟩
  · exact hk
  · split at h <;> cases h

end Registry

/-! ## Types in the code -/

theorem exists_ok {ε α : Type} {e : Except ε α} (h : ∀ why, e ≠ .error why) : ∃ x, e = .ok x := by
  cases e with
  | error why => exact absurd rfl (h why)
  | ok x => exact ⟨x, rfl⟩

variable {ctx : Context} {f : Fault}

theorem Context.kind_of_holdsPointer_error {required : Bool}
    (h : ctx.holdsPointer reg a required = .error f) : reg.kind a = .error f := by
  rcases except_bind_eq_error.mp h with hp | ⟨p, -, h⟩
  · exact Registry.kind_of_primitive?_error hp
  · cases p with
    | none => cases h
    | some p =>
      dsimp only at h
      repeat (split at h <;> try cases h)

theorem Context.exists_holdsPointer (hk : reg.kind a = .ok k) (ctx : Context) (required : Bool) :
    ∃ pointer, ctx.holdsPointer reg a required = .ok pointer := by
  refine exists_ok fun why hwhy => ?_
  rw [Context.kind_of_holdsPointer_error hwhy] at hk
  cases hk

namespace Scope

/-- A type has a name if it is known. The converse is not true: an alias that goes round has a name
    and no kind. -/
theorem kind_of_name_error (h : (ofRegistry reg).name id = .error f) :
    reg.kind (.user id) = .error f := by
  have hnone : reg.find? id = none := by
    by_contra hsome
    obtain ⟨t, ht⟩ := Option.ne_none_iff_exists'.mp hsome
    obtain ⟨hmem, rfl⟩ := Registry.mem_types_of_find? ht
    obtain ⟨name, hname⟩ := exists_name hmem
    rw [h] at hname
    cases hname
  have hf : f = .unknownType id := by
    unfold name at h
    split at h <;> cases h
    rfl
  unfold Registry.kind Registry.resolve Registry.resolveWithin Attribute.user
  dsimp only
  rw [hnone, hf]
  rfl

theorem kind_of_userRef_error (h : (ofRegistry reg).userRef ctx (.user id) id = .error f) :
    reg.kind (.user id) = .error f := by
  unfold userRef at h
  rcases except_bind_eq_error.mp h with hname | ⟨_, -, h⟩
  · exact kind_of_name_error hname
  · rcases except_bind_eq_error.mp h with hk | ⟨k, -, h⟩
    · exact hk
    · cases k with
      | primitive p =>
        dsimp only at h
        split at h <;> cases h
      | _ => cases h

theorem exists_name_of_kind (hk : reg.kind (.user id) = .ok k) :
    ∃ name, (Scope.ofRegistry reg).name id = .ok name := by
  refine exists_ok fun why hwhy => ?_
  rw [kind_of_name_error hwhy] at hk
  cases hk

theorem exists_userRef (hk : reg.kind (.user id) = .ok k) (ctx : Context) :
    ∃ type, (Scope.ofRegistry reg).typeRef ctx (.user id) = .ok type := by
  rw [Attribute.user, typeRef]
  refine exists_ok fun why hwhy => ?_
  rw [kind_of_userRef_error hwhy] at hk
  cases hk

/-- The fields of a struct have types unless one of their attributes is lost. The second case is
    that of a field for which it is asked whether it is held behind a pointer. -/
theorem structFields_error {required : List String} :
    ∀ {fields : List (String × Attribute)},
      (ofRegistry reg).structFields ctx required fields = .error f →
      ∃ x ∈ fields.map Prod.snd, (ofRegistry reg).typeRef ctx x = .error f ∨
        reg.kind x = .error f := by
  intro fields
  induction fields with
  | nil =>
    intro h
    rw [structFields] at h
    cases h
  | cons e rest ih =>
    intro h
    obtain ⟨name, x⟩ := e
    rw [structFields] at h
    rcases except_bind_eq_error.mp h with htype | ⟨_, -, h⟩
    · exact ⟨x, by simp, .inl htype⟩
    · rcases except_bind_eq_error.mp h with hpointer | ⟨_, -, h⟩
      · exact ⟨x, by simp, .inr (Context.kind_of_holdsPointer_error hpointer)⟩
      · rcases except_bind_eq_error.mp h with hrest | ⟨_, -, h⟩
        · obtain ⟨y, hy, hwhy⟩ := ih hrest
          exact ⟨y, List.mem_cons_of_mem _ hy, hwhy⟩
        · cases h

/-- What keeps an attribute from having a type is a reference in it that leads to no structure. It
    may stand deep inside, in the element of an array in place. -/
theorem typeRef_error (h : (ofRegistry reg).typeRef ctx a = .error f) :
    ∃ x ∈ a.parts, reg.kind x = .error f := by
  -- By induction on the size, as the fields of an object are attributes in a list.
  induction hn : a.size using Nat.strongRecOn generalizing a with
  | ind n ih =>
    have below : ∀ {x : Attribute}, x ∈ a.children →
        (ofRegistry reg).typeRef ctx x = .error f → ∃ x ∈ a.parts, reg.kind x = .error f := by
      intro x hx hf
      obtain ⟨y, hy, hwhy⟩ := ih _ (hn ▸ Attribute.size_lt_of_mem_children hx) hf rfl
      exact ⟨y, Attribute.parts_subset (Attribute.mem_parts_of_mem_children hx) hy, hwhy⟩
    obtain ⟨type, description, rules, overrides, default⟩ := a
    cases type with
    | primitive p =>
      rw [typeRef] at h
      cases h
    | user id =>
      have hsame : Attribute.BothRefer id ⟨.user id, description, rules, overrides, default⟩
        (.user id) := ⟨rfl, rfl⟩
      rw [typeRef] at h
      exact ⟨_, Attribute.mem_parts_self _, hsame.kind_eq ▸ kind_of_userRef_error h⟩
    | array x =>
      rw [typeRef] at h
      rcases except_bind_eq_error.mp h with hx | ⟨_, -, h⟩
      · exact below (by simp [Attribute.children]) hx
      · cases h
    | map key x =>
      rw [typeRef] at h
      rcases except_bind_eq_error.mp h with hkey | ⟨_, -, h⟩
      · exact below (by simp [Attribute.children]) hkey
      · rcases except_bind_eq_error.mp h with hx | ⟨_, -, h⟩
        · exact below (by simp [Attribute.children]) hx
        · cases h
    -- The type of a union is an interface, whatever its alternatives are.
    | union name alternatives =>
      rw [typeRef] at h
      cases h
    | object fields =>
      rw [typeRef] at h
      rcases except_bind_eq_error.mp h with hfields | ⟨_, -, h⟩
      · obtain ⟨x, hx, htype | hk⟩ := structFields_error hfields
        · exact below hx htype
        · exact ⟨x, Attribute.mem_parts_of_mem_children hx, hk⟩
      · cases h

theorem typeRef_lost (h : (ofRegistry reg).typeRef ctx a = .error f) : reg.Lost a f :=
  let ⟨x, hx, hf⟩ := typeRef_error h
  ⟨x, Registry.meets_of_mem_parts hx, hf⟩

/-- An attribute whose references resolve has a type. -/
theorem exists_typeRef (ctx : Context) (h : reg.Resolves a) :
    ∃ type, (ofRegistry reg).typeRef ctx a = .ok type := by
  refine exists_ok fun why hwhy => ?_
  obtain ⟨x, hx, hf⟩ := typeRef_error hwhy
  obtain ⟨k, hk⟩ := h x hx
  rw [hf] at hk
  cases hk

theorem kind_of_isNamedObject_error (h : (ofRegistry reg).isNamedObject a = .error f) :
    reg.kind a = .error f := by
  unfold isNamedObject at h
  split at h
  · cases h
  · rcases except_bind_eq_error.mp h with hk | ⟨_, -, h⟩
    · exact hk
    · cases h

/-- What keeps an alternative from having a type of its own is a reference in it. -/
theorem alternativeRef_lost {union : String} {alternatives : List (String × Attribute)}
    {index : Nat} (hi : index < alternatives.length)
    (h : (ofRegistry reg).alternativeRef ctx union alternatives index = .error f) :
    ∃ x ∈ alternatives.map Prod.snd, reg.Lost x f := by
  refine ⟨alternatives[index].2, List.mem_map_of_mem (List.getElem_mem hi), ?_⟩
  unfold alternativeRef at h
  rw [List.getElem?_eq_getElem hi] at h
  rcases except_bind_eq_error.mp h with hnamed | ⟨named, -, h⟩
  · exact Registry.lost_of_kind (kind_of_isNamedObject_error hnamed)
  · split at h
    · exact typeRef_lost h
    · cases h

end Scope
end Shapewright
