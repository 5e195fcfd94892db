import Shapewright.Proofs.Growth
import Shapewright.Proofs.Layout
import Shapewright.Proofs.Spelling

/-!
# How types get their identifiers

The types of a registry are given identifiers one after the other. For each type its natural
identifier is tried first, then that with a number behind it, until one is found that no type before
it has. A natural identifier may be what an earlier type got with a number, so the search can be
long, but it always comes to an end.

## What later types change

What a type is given depends on the types before it alone. So types that are added later change no
identifier (`identifiers_unique_stable`). This is about types with other identities: a type that is
inserted under the identity of another one takes its place, and so comes before some that are there.

## How the search is described

`Settles` says which candidate the search stops at, in terms of the types that come before: all
earlier candidates belong to some of them, and this one does not. The program keeps a list of
identifiers that are used instead. That the two agree is an induction over the types with the list
growing in front (`mem_used_iff`), and behind it nothing is said of the list any more.
-/

namespace Shapewright

open Identifier

variable {name : String} {reg reg' : Registry} {id : TypeId} {t u : UserType}

/-! ## The types before and the types behind -/

/-- The types behind some others are given identifiers with those of the others in use. -/
theorem identifiers_append (used : List String) (before more : List UserType) :
    identifiers used (before ++ more) = identifiers used before ++
      identifiers (((identifiers used before).map Prod.snd).reverse ++ used) more := by
  induction before generalizing used with
  | nil => rfl
  | cons t rest ih =>
    rw [List.cons_append, identifiers, identifiers, ih, List.map_cons, List.reverse_cons,
      List.append_assoc, List.singleton_append, List.cons_append]

namespace Registry

/-- A type with a new identity is put behind the types that are there. -/
theorem types_insert {added : List UserType} (h : reg'.types = reg.types ++ added)
    (hnew : ∀ t ∈ reg.types, t.id ≠ u.id) :
    (reg'.insert u).types = reg.types ++ u.named.withDefaultView.insertInto added := by
  show u.named.withDefaultView.insertInto reg'.types = _
  rw [h]
  refine UserType.insertInto_append (fun t ht => ?_) added
  rw [UserType.id_withDefaultView, UserType.id_named]
  exact hnew t ht

/-- Types with new identities come behind the types that are there. -/
theorem types_foldl_insert {more added : List UserType} (h : reg'.types = reg.types ++ added)
    (hnew : ∀ u ∈ more, ∀ t ∈ reg.types, t.id ≠ u.id) :
    ∃ added, (more.foldl insert reg').types = reg.types ++ added := by
  induction more generalizing reg' added with
  | nil => exact ⟨added, h⟩
  | cons u rest ih =>
    rw [List.forall_mem_cons] at hnew
    exact ih (types_insert h hnew.1) hnew.2

end Registry

namespace Scope

theorem map_fst_names (reg : Registry) :
    (ofRegistry reg).names.map Prod.fst = reg.types.map (·.id) :=
  map_fst_identifiers [] reg.types

theorem name_eq_ok_iff :
    (ofRegistry reg).name id = .ok name ↔ (id, name) ∈ (ofRegistry reg).names := by
  refine ⟨mem_names, fun h => ?_⟩
  have hkeys : ((ofRegistry reg).names.map Prod.fst).Nodup := map_fst_names reg ▸ reg.nodup
  rw [Scope.name, Ordered.get?_of_mem hkeys h]

/-- A type keeps its identifier where types are added behind it. -/
theorem name_of_append {added : List UserType} (h : reg'.types = reg.types ++ added)
    (hn : (ofRegistry reg).name id = .ok name) : (ofRegistry reg').name id = .ok name := by
  rw [name_eq_ok_iff] at hn ⊢
  rw [ofRegistry, h, identifiers_append]
  exact List.mem_append_left _ hn

theorem eq_of_name_eq (ht : t ∈ reg.types) (hu : u ∈ reg.types)
    (h : (ofRegistry reg).name t.id = (ofRegistry reg).name u.id) : t = u := by
  obtain ⟨name, hname⟩ := exists_name ht
  exact List.inj_on_of_nodup_map reg.nodup ht hu (name_injective hname (h ▸ hname))

/-! ## The search for an identifier -/

/-- The search for the identifier of a type ends at one of its candidates: all candidates before it
    belong to types that come before the type, and this one does not. -/
structure Settles (reg : Registry) (before : List UserType) (t : UserType) (k : Nat) : Prop where
  taken : ∀ i < k, ∃ u ∈ before, (ofRegistry reg).name u.id = .ok (candidate (exported t.name) i)
  free : ∀ u ∈ before, (ofRegistry reg).name u.id ≠ .ok (candidate (exported t.name) k)
  given : (ofRegistry reg).name t.id = .ok (candidate (exported t.name) k)

/-- The identifiers that are used when the search for a type starts are those of the types before
    it. -/
theorem mem_used_iff {before after : List UserType} (h : reg.types = before ++ after) :
    name ∈ (identifiers [] before).map Prod.snd ↔
      ∃ u ∈ before, (ofRegistry reg).name u.id = .ok name := by
  have hname : ∀ x ∈ identifiers [] before, (ofRegistry reg).name x.1 = .ok x.2 := by
    intro x hx
    rw [name_eq_ok_iff, ofRegistry, h, identifiers_append]
    exact List.mem_append_left _ hx
  have hkeys := map_fst_identifiers [] before
  constructor
  · intro hmem
    obtain ⟨x, hx, rfl⟩ := List.mem_map.mp hmem
    obtain ⟨u, hu, hid⟩ := List.mem_map.mp (hkeys ▸ List.mem_map_of_mem (f := Prod.fst) hx)
    exact ⟨u, hu, hid ▸ hname x hx⟩
  · rintro ⟨u, hu, hu'⟩
    -- The type has an identifier among those before, and it has only one.
    obtain ⟨x, hx, hid⟩ := List.mem_map.mp (hkeys.symm ▸ List.mem_map_of_mem (f := UserType.id) hu)
    have hx' := hname x hx
    rw [hid, hu'] at hx'
    cases hx'
    exact List.mem_map_of_mem hx

/-- The search comes to an end for every type. -/
theorem exists_settles {before after : List UserType} (h : reg.types = before ++ t :: after) :
    ∃ k, Settles reg before t k := by
  -- -- There are more candidates than identifiers in use, so one of them is free.
  obtain ⟨k, hk, hfree, htaken⟩ := freshIdentifier_eq
    (((identifiers [] before).map Prod.snd).reverse ++ []) (exported t.name)
  simp only [List.append_nil, List.mem_reverse, mem_used_iff h] at hfree htaken
  refine ⟨k, htaken, fun u hu hname => hfree ⟨u, hu, hname⟩, ?_⟩
  rw [name_eq_ok_iff, ofRegistry, h, identifiers_append, identifiers, hk]
  exact List.mem_append_right _ List.mem_cons_self

/-- Each type has one identifier, the first of its candidates that no type before it has. Types
    never share an identifier, and none changes where types with other identities are added. -/
theorem identifiers_unique_stable (reg : Registry) :
    (∀ before t after, reg.types = before ++ t :: after → ∃ k, Settles reg before t k) ∧
    (ofRegistry reg).names.map Prod.fst = reg.types.map (·.id) ∧
    (∀ t ∈ reg.types, ∃ name, (ofRegistry reg).name t.id = .ok name ∧ Exported name) ∧
    (∀ t ∈ reg.types, ∀ u ∈ reg.types,
      (ofRegistry reg).name t.id = (ofRegistry reg).name u.id → t = u) ∧
    ∀ more : List UserType, (∀ u ∈ more, ∀ t ∈ reg.types, t.id ≠ u.id) →
      ∀ t ∈ reg.types,
        (ofRegistry (more.foldl Registry.insert reg)).name t.id = (ofRegistry reg).name t.id := by
  refine ⟨fun _ _ _ => exists_settles, map_fst_names reg, fun t ht => ?_,
    fun t ht u hu => eq_of_name_eq ht hu, fun more hnew t ht => ?_⟩
  · obtain ⟨name, hname⟩ := exists_name ht
    exact ⟨name, hname, (camel_name hname).exported⟩
  · obtain ⟨name, hname⟩ := exists_name ht
    obtain ⟨added, hadded⟩ := Registry.types_foldl_insert (List.append_nil _).symm hnew
    rw [hname, name_of_append hadded hname]

/-- A type of objects without fields. -/
def itemType (id : TypeId) (name : String) : UserType where
  id
  name
  definition := { type := .object [] }

/-- Natural identifiers that are the same, and one that an earlier type got with a number. -/
def itemRegistry : Registry where
  types := [itemType "a" "item", itemType "b" "Item", itemType "c" "item2", itemType "d" "Item"]
  nodup := by decide

example : (ofRegistry itemRegistry).names =
    [("a", "Item"), ("b", "Item2"), ("c", "Item22"), ("d", "Item3")] := by
  decide +kernel

/-- The third type settles on a number of its own, and one more type changes no identifier. The
    second one has been called `Item2`, which is what the third would have been called. -/
theorem identifiers_unique_stable_items :
    (itemRegistry.types = [itemType "a" "item", itemType "b" "Item"] ++
      itemType "c" "item2" :: [itemType "d" "Item"] ∧
      ∃ k, Settles itemRegistry [itemType "a" "item", itemType "b" "Item"]
        (itemType "c" "item2") k) ∧
    (∀ u ∈ [itemType "e" "item"], ∀ t ∈ itemRegistry.types, t.id ≠ u.id) ∧
    ∀ t ∈ itemRegistry.types,
      (ofRegistry ([itemType "e" "item"].foldl Registry.insert itemRegistry)).name t.id =
        (ofRegistry itemRegistry).name t.id := by
  have hnew : ∀ u ∈ [itemType "e" "item"], ∀ t ∈ itemRegistry.types, t.id ≠ u.id := by
    simp [itemRegistry, itemType]
  obtain ⟨hsettles, -, -, -, hstable⟩ := identifiers_unique_stable itemRegistry
  exact ⟨⟨rfl, hsettles _ _ _ rfl⟩, hnew, hstable _ hnew⟩

end Scope
end Shapewright
